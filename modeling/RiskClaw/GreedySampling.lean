import RiskClaw.ReactiveMachine
import RiskClaw.SpacedTimes

/-!
# Greedy sampling of timed events

The greedy subsequence of a sequence of events takes the first one and then
each event that comes at least `W` after the one taken last. A sampler that
remembers the event taken last answers every event from it, and takes exactly
the greedy subsequence. The events need not be ordered in time.
-/

namespace RiskClaw.GreedySampling

open ReactiveMachine SpacedTimes

variable {α : Type*} (time : α → ℤ) (W : ℤ)

/-- The first event, then each that comes at least `W` after the last taken. -/
def greedy : List α → List α
  | [] => []
  | a :: as => a :: greedy (as.dropWhile fun b => time b < time a + W)
  termination_by as => as.length
  decreasing_by exact Nat.lt_succ_of_le (List.dropWhile_suffix _).length_le

/-- An answered event: whether it was taken, and the event it is answered from. -/
structure Sample (α : Type*) where
  /-- The event itself. -/
  event : α
  /-- Whether the sampler took it. -/
  taken : Bool
  /-- The event taken last, this one included. -/
  source : α

/-- The sampler remembers the event taken last. -/
def sampler : Machine (Option α) α (Sample α) where
  step last a :=
    match last.filter fun b => time a < time b + W with
    | some b => (last, ⟨a, false, b⟩)
    | none => (some a, ⟨a, true, a⟩)

/-- The event taken last according to some answers. -/
def lastTaken (answers : List (Sample α)) : Option α :=
  ((answers.filter Sample.taken).getLast?).map Sample.event

variable {time W}

/-- An event near the last one taken is answered from it, any other is taken. -/
theorem sampler_cases (time : α → ℤ) (last : Option α) (a : α) :
    (∃ b, last = some b ∧ time a < time b + W ∧
      (sampler time W).step last a = (last, ⟨a, false, b⟩)) ∨
    ((∀ b, last = some b → time b + W ≤ time a) ∧
      (sampler time W).step last a = (some a, ⟨a, true, a⟩)) := by
  unfold sampler
  cases last with
  | none => exact Or.inr ⟨(fun _ h => nomatch h), rfl⟩
  | some b =>
    by_cases hnear : time a < time b + W
    · exact Or.inl ⟨b, rfl, hnear, by simp [Option.filter_some, hnear]⟩
    · refine Or.inr ⟨fun c h => ?_, by simp [Option.filter_some, hnear]⟩
      cases h
      omega

/-- Every event is answered, in its turn. -/
theorem sampler_events (last : Option α) (as : List α) :
    ((sampler time W).outputs last as).map Sample.event = as := by
  induction as generalizing last with
  | nil => rfl
  | cons a as ih =>
    have hevent : ((sampler time W).step last a).2.event = a := by
      rcases sampler_cases (W := W) time last a with ⟨b, -, -, hs⟩ | ⟨-, hs⟩ <;> rw [hs]
    rw [Machine.outputs_cons, List.map_cons, hevent, ih]

/-- From a taken event on, the sampler takes the greedy subsequence of what
comes after its window. -/
theorem taken_after (b : α) (as : List α) :
    (((sampler time W).outputs (some b) as).filter Sample.taken).map Sample.event =
      greedy time W (as.dropWhile fun a => time a < time b + W) := by
  induction as generalizing b with
  | nil =>
    rw [List.dropWhile_nil, greedy]
    rfl
  | cons a as ih =>
    rw [Machine.outputs_cons]
    rcases sampler_cases (W := W) time (some b) a with ⟨c, hc, hnear, hs⟩ | ⟨hfar, hs⟩
    · cases hc
      have hdrop : (a :: as).dropWhile (fun a => time a < time b + W) =
          as.dropWhile fun a => time a < time b + W :=
        List.dropWhile_cons_of_pos (by simpa using hnear)
      rw [hs, hdrop, ← ih b]
      rfl
    · have hdrop : (a :: as).dropWhile (fun a => time a < time b + W) = a :: as := by
        have := hfar b rfl
        exact List.dropWhile_cons_of_neg (by simpa using this)
      rw [hs, hdrop, greedy, ← ih a]
      rfl

/-- The sampler takes exactly the greedy subsequence. -/
theorem taken_eq_greedy (as : List α) :
    (((sampler time W).outputs none as).filter Sample.taken).map Sample.event =
      greedy time W as := by
  cases as with
  | nil =>
    rw [greedy]
    rfl
  | cons a as =>
    rw [greedy, ← taken_after a as]
    rfl

/-- Events of the greedy subsequence are at least `W` apart. -/
theorem greedy_spaced (hW : 0 ≤ W) (as : List α) : Spaced W ((greedy time W as).map time) := by
  fun_induction greedy time W as with
  | case1 => exact List.Pairwise.nil
  | case2 a as ih =>
    rw [List.map_cons]
    refine List.pairwise_cons.mpr ⟨?_, ih⟩
    -- The next event taken is far enough, and the later ones are later still.
    cases hrest : as.dropWhile fun b => time b < time a + W with
    | nil =>
      rw [greedy]
      exact fun _ h => nomatch h
    | cons c rest =>
      have hfar : time a + W ≤ time c := by
        have h := List.head?_dropWhile_not (fun b => decide (time b < time a + W)) as
        rw [hrest] at h
        simpa using h
      rw [hrest, greedy, List.map_cons] at ih
      rw [greedy, List.map_cons]
      intro t ht
      rcases List.mem_cons.mp ht with rfl | ht
      · exact hfar
      · have hlater := (List.pairwise_cons.mp ih).1 t ht
        omega

/-- Events outside the window of `a` can only be chosen from what comes after
the events dropped for it. -/
theorem sublist_dropWhile {a : α} {as bs : List α} (hsub : bs.Sublist as)
    (hfar : ∀ b ∈ bs, time a + W ≤ time b) :
    bs.Sublist (as.dropWhile fun b => time b < time a + W) := by
  have hkept : bs.filter (fun b => !decide (time b < time a + W)) = bs := by
    refine List.filter_eq_self.mpr fun b hb => ?_
    have hle := hfar b hb
    simpa using hle
  have hdropped : (as.takeWhile fun b => time b < time a + W).filter
      (fun b => !decide (time b < time a + W)) = [] := by
    refine List.filter_eq_nil_iff.mpr fun b hb => ?_
    have hnear := List.mem_takeWhile_imp hb
    simpa using hnear
  have hfilter := hsub.filter fun b => !decide (time b < time a + W)
  rw [hkept, ← List.takeWhile_append_dropWhile (p := fun b => decide (time b < time a + W))
    (l := as), List.filter_append, hdropped, List.nil_append] at hfilter
  exact hfilter.trans List.filter_sublist

/-- Of events in order of time, no selection with gaps of at least `W` is longer
than the greedy one. -/
theorem greedy_longest {as bs : List α}
    (hordered : (as.map time).Pairwise (· ≤ ·)) (hsub : bs.Sublist as)
    (hspaced : Spaced W (bs.map time)) : bs.length ≤ (greedy time W as).length := by
  fun_induction greedy time W as generalizing bs with
  | case1 => rw [List.sublist_nil.mp hsub]
  | case2 a as ih =>
    cases bs with
    | nil => exact Nat.zero_le _
    | cons b bs =>
      rw [List.map_cons] at hordered hspaced
      obtain ⟨hfirst, hrest⟩ := List.pairwise_cons.mp hordered
      obtain ⟨hgap, hspaced⟩ := List.pairwise_cons.mp hspaced
      -- The greedy choice is the earliest event, so it blocks no more than `b` does.
      have hearlier : time a ≤ time b := by
        rcases List.mem_cons.mp (hsub.subset List.mem_cons_self) with rfl | hb
        · exact le_rfl
        · exact hfirst _ (List.mem_map_of_mem hb)
      have htail : bs.Sublist as := hsub.tail
      have hlater : bs.Sublist (as.dropWhile fun b => time b < time a + W) := by
        refine sublist_dropWhile htail fun c hc => ?_
        have hc := hgap _ (List.mem_map_of_mem hc)
        omega
      have hsorted : ((as.dropWhile fun b => time b < time a + W).map time).Pairwise (· ≤ ·) :=
        hrest.sublist ((List.dropWhile_suffix _).sublist.map time)
      have hlength := ih hsorted hlater hspaced
      rw [List.length_cons, List.length_cons]
      omega

/-- Every answer comes from the event taken last, which is the event itself if
it was taken, and otherwise less than `W` away. -/
structure Sampled (time : α → ℤ) (W : ℤ) (answers : List (Sample α)) (last : Option α) : Prop where
  /-- The sampler remembers the event taken last. -/
  last_eq : last = lastTaken answers
  /-- Each answer has its source in the answers so far. -/
  source : ∀ before x after, answers = before ++ x :: after →
    lastTaken (before ++ [x]) = some x.source ∧ (x.taken = true → x.source = x.event) ∧
      (x.taken = false → time x.event < time x.source + W)

theorem lastTaken_concat (answers : List (Sample α)) (x : Sample α) :
    lastTaken (answers ++ [x]) = if x.taken = true then some x.event else lastTaken answers := by
  unfold lastTaken
  rw [List.filter_append]
  by_cases hx : x.taken = true
  · rw [if_pos hx, List.filter_cons_of_pos hx, List.filter_nil, List.getLast?_concat]
    rfl
  · rw [if_neg hx, List.filter_cons_of_neg hx, List.filter_nil, List.append_nil]

/-- An answer from the event taken last can be added to the record. -/
theorem Sampled.snoc {answers : List (Sample α)} {last last' : Option α} {o : Sample α}
    (h : Sampled time W answers last) (hlast : last' = lastTaken (answers ++ [o]))
    (hsource : last' = some o.source) (htaken : o.taken = true → o.source = o.event)
    (hcached : o.taken = false → time o.event < time o.source + W) :
    Sampled time W (answers ++ [o]) last' := by
  refine ⟨hlast, ?_⟩
  intro before x after hsplit
  rcases List.eq_nil_or_concat after with rfl | ⟨init, y, rfl⟩
  · obtain ⟨rfl, hx⟩ := List.append_inj' hsplit rfl
    obtain rfl := List.singleton_inj.mp hx
    exact ⟨hlast.symm.trans hsource, htaken, hcached⟩
  · have hearlier : answers ++ [o] = (before ++ x :: init) ++ [y] := by
      rw [hsplit, List.concat_eq_append, List.append_assoc, List.cons_append]
    exact h.source before x init (List.append_inj' hearlier rfl).1

/-- One more answer of the sampler keeps the record. -/
theorem Sampled.step {answers : List (Sample α)} {last : Option α}
    (h : Sampled time W answers last) (a : α) :
    Sampled time W (answers ++ [((sampler time W).step last a).2])
      ((sampler time W).step last a).1 := by
  rcases sampler_cases (W := W) time last a with ⟨b, hb, hnear, hs⟩ | ⟨-, hs⟩
  · rw [hs]
    refine h.snoc ?_ hb (fun hc => nomatch hc) fun _ => hnear
    rw [lastTaken_concat]
    exact h.last_eq
  · rw [hs]
    refine h.snoc ?_ rfl (fun _ => rfl) fun hc => nomatch hc
    rw [lastTaken_concat]
    rfl

/-- The record of a run from the start. -/
theorem Sampled.of_run (as : List α) :
    Sampled time W ((sampler time W).outputs none as) ((sampler time W).run none as) := by
  refine (sampler time W).answer_induction (A := fun _ => True) (P := Sampled time W) ⟨rfl, ?_⟩
    (fun _ _ a _ h => h.step a) fun _ _ => trivial
  intro before x after h
  exact absurd h.symm (List.append_ne_nil_of_right_ne_nil _ (List.cons_ne_nil _ _))

end RiskClaw.GreedySampling
