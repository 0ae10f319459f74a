import Mathlib.Data.List.Sort
import Mathlib.Data.List.Perm.Subperm

/-!
# Events on their way to a subscriber

A publisher sends each event once to the subscription that is live. Messages
arrive in any order, late or never, and a message for an ended subscription is
dropped. The subscriber puts every arrival in front of the earlier ones and shows
them sorted by time. What it shows of events with increasing times is a part of
the published ones in the order of publication, however they arrived.
-/

namespace RiskClaw.EventFeed

/-- A subscriber with its messages. -/
structure Feed (ε : Type*) where
  /-- The live subscription. -/
  subscription : Option ℕ
  /-- How many subscriptions there have been. -/
  subscriptions : ℕ
  /-- Messages under way, with their subscription. -/
  inFlight : List (ℕ × ε)
  /-- What has arrived, the latest arrival first. -/
  received : List ε

namespace Feed

variable {ε : Type*}

/-- A subscriber that has not subscribed yet. -/
def empty : Feed ε := ⟨none, 0, [], []⟩

/-- An event is sent to the live subscription. -/
def publish (f : Feed ε) (e : ε) : Feed ε :=
  match f.subscription with
  | none => f
  | some i => { f with inFlight := f.inFlight ++ [(i, e)] }

/-- The live subscription ends, and a new one may begin. -/
def resubscribe (f : Feed ε) (again : Bool) : Feed ε :=
  if again = true then
    { f with subscription := some f.subscriptions, subscriptions := f.subscriptions + 1 }
  else { f with subscription := none }

/-- A message arrives. -/
def deliver (f : Feed ε) (k : ℕ) : Feed ε :=
  match f.inFlight[k]? with
  | none => f
  | some m =>
    { f with
      inFlight := f.inFlight.eraseIdx k
      received := if f.subscription = some m.1 then m.2 :: f.received else f.received }

/-- The events that have arrived or are under way. -/
def known (f : Feed ε) : List ε := f.received ++ f.inFlight.map Prod.snd

/-- Nothing is under way for the live subscription. -/
def Settled (f : Feed ε) : Prop := ∀ m ∈ f.inFlight, f.subscription ≠ some m.1

instance (f : Feed ε) : Decidable f.Settled :=
  inferInstanceAs (Decidable (∀ m ∈ f.inFlight, f.subscription ≠ some m.1))

theorem known_publish (f : Feed ε) (e : ε) :
    (f.publish e).known = f.known ∨ (f.publish e).known = f.known ++ [e] := by
  unfold publish
  split
  · exact Or.inl rfl
  · refine Or.inr ?_
    rw [known, known, List.map_append, List.append_assoc]
    rfl

theorem known_resubscribe (f : Feed ε) (again : Bool) : (f.resubscribe again).known = f.known := by
  unfold resubscribe
  split_ifs <;> rfl

/-- The message that arrives and the others. -/
theorem inFlight_perm {messages : List (ℕ × ε)} {k : ℕ} {m : ℕ × ε}
    (h : messages[k]? = some m) : messages.Perm (m :: messages.eraseIdx k) := by
  obtain ⟨hk, rfl⟩ := List.getElem?_eq_some_iff.mp h
  exact (List.getElem_cons_eraseIdx_perm hk).symm

/-- An arrival adds no event. -/
theorem known_deliver (f : Feed ε) (k : ℕ) : (f.deliver k).known.Subperm f.known := by
  unfold deliver
  split
  · exact List.Subperm.refl _
  · rename_i m hm
    have hperm := (inFlight_perm hm).map Prod.snd
    have hall : (m.2 :: f.received ++ (f.inFlight.eraseIdx k).map Prod.snd).Perm f.known :=
      (List.perm_middle.symm.trans (hperm.symm.append_left f.received))
    split_ifs
    · exact hall.subperm
    · exact ((List.sublist_cons_self m.2 _).subperm).trans hall.subperm

/-- Every event of a list has arrived, or is under way for a live subscription. -/
structure Reaches (events : List ε) (f : Feed ε) (i : ℕ) : Prop where
  /-- The subscription is live. -/
  live : f.subscription = some i
  /-- The events. -/
  covers : ∀ e ∈ events, e ∈ f.received ∨ (i, e) ∈ f.inFlight

variable {f : Feed ε} {events : List ε} {i : ℕ}

theorem Reaches.start (f : Feed ε) : Reaches [] (f.resubscribe true) f.subscriptions :=
  ⟨rfl, fun _ he => absurd he List.not_mem_nil⟩

theorem Reaches.publish (h : Reaches events f i) (e : ε) :
    Reaches (events ++ [e]) (f.publish e) i := by
  have hpublish : f.publish e = { f with inFlight := f.inFlight ++ [(i, e)] } := by
    rw [Feed.publish, h.live]
  rw [hpublish]
  refine ⟨h.live, fun x hx => ?_⟩
  rcases List.mem_append.mp hx with hx | hx
  · exact (h.covers x hx).imp_right fun hm => List.mem_append_left _ hm
  · rw [List.mem_singleton.mp hx]
    exact Or.inr (List.mem_append_right _ (List.mem_singleton_self _))

theorem Reaches.deliver (h : Reaches events f i) (k : ℕ) : Reaches events (f.deliver k) i := by
  unfold Feed.deliver
  split
  · exact h
  · rename_i m hm
    have hperm := inFlight_perm hm
    refine ⟨h.live, fun x hx => ?_⟩
    rcases h.covers x hx with hreceived | hflight
    · refine Or.inl ?_
      dsimp only
      split_ifs
      · exact List.mem_cons_of_mem _ hreceived
      · exact hreceived
    · rcases List.mem_cons.mp (hperm.subset hflight) with rfl | hother
      · refine Or.inl ?_
        dsimp only
        rw [if_pos h.live]
        exact List.mem_cons_self
      · exact Or.inr hother

/-- Once nothing is under way, all events have arrived. -/
theorem Reaches.received (h : Reaches events f i) (hsettled : f.Settled) :
    ∀ e ∈ events, e ∈ f.received := by
  intro e he
  rcases h.covers e he with hreceived | hflight
  · exact hreceived
  · exact absurd h.live (hsettled _ hflight)

end Feed

section Sorted

variable {ε : Type*} {time : ε → ℤ}

/-- What is shown: the latest time first, a later arrival before an earlier one of
the same time. -/
def newestFirst (time : ε → ℤ) (received : List ε) : List ε :=
  received.mergeSort fun a b => decide (time b ≤ time a)

theorem newestFirst_perm (time : ε → ℤ) (received : List ε) :
    (newestFirst time received).Perm received := List.mergeSort_perm _ _

theorem newestFirst_pairwise (time : ε → ℤ) (received : List ε) :
    (newestFirst time received).Pairwise fun a b => time b ≤ time a := by
  have hsorted : (newestFirst time received).Pairwise fun a b =>
      decide (time b ≤ time a) = true := by
    refine List.pairwise_mergeSort (fun a b c hab hbc => ?_) (fun a b => ?_) received
    · exact decide_eq_true (le_trans (of_decide_eq_true hbc) (of_decide_eq_true hab))
    · rcases le_total (time b) (time a) with h | h
      · simp [h]
      · simp [h]
  exact hsorted.imp of_decide_eq_true

variable [DecidableEq ε] {received log : List ε} {p : ε → Bool}

/-- Of events with increasing times, those that have arrived are shown in the
opposite order of publication. -/
theorem newestFirst_filter (hknown : received.Subperm log)
    (hincreasing : ((log.filter p).map time).Pairwise (· < ·)) :
    (newestFirst time received).filter p =
      ((log.filter p).filter fun e => e ∈ received).reverse := by
  have hdistinct : ((log.filter p).map time).Nodup := hincreasing.imp ne_of_lt
  have hnodup : (log.filter p).Nodup := hdistinct.of_map time
  obtain ⟨l, hl, hsub⟩ := hknown.filter p
  have hreceived : (received.filter p).Nodup := hl.nodup_iff.mp (hnodup.sublist hsub)
  have hperm : (received.filter p).Perm ((log.filter p).filter fun e => e ∈ received) := by
    refine (List.perm_ext_iff_of_nodup hreceived (hnodup.filter _)).mpr fun e => ?_
    rw [List.mem_filter, List.mem_filter]
    constructor
    · intro he
      exact ⟨hsub.subset (hl.symm.subset (List.mem_filter.mpr he)), decide_eq_true he.1⟩
    · intro he
      exact ⟨of_decide_eq_true he.2, (List.mem_filter.mp he.1).2⟩
  have hshown := ((newestFirst_perm time received).filter p).trans
    (hperm.trans (List.reverse_perm _).symm)
  have hmem : ∀ e ∈ ((log.filter p).filter fun e => e ∈ received).reverse, e ∈ log.filter p :=
    fun e he => (List.mem_filter.mp (List.mem_reverse.mp he)).1
  have hfirst : ((newestFirst time received).filter p).Pairwise fun a b => time b ≤ time a :=
    (newestFirst_pairwise time received).sublist List.filter_sublist
  have hsecond : ((log.filter p).filter fun e => e ∈ received).reverse.Pairwise
      fun a b => time b ≤ time a := by
    rw [List.pairwise_reverse]
    have htimes : (log.filter p).Pairwise fun a b => time a < time b :=
      List.pairwise_map.mp hincreasing
    exact (htimes.sublist List.filter_sublist).imp le_of_lt
  refine List.Perm.eq_of_pairwise (fun a b ha hb hab hba => ?_) hfirst hsecond hshown
  exact List.inj_on_of_nodup_map hdistinct (hmem a (hshown.subset ha)) (hmem b hb)
    (le_antisymm hba hab)

end Sorted

end RiskClaw.EventFeed
