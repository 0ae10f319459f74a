import Mathlib.Data.List.Infix

/-!
# The leftmost match of a pattern in a text

A matcher is tried at one position of a text after the other. The search
returns what stands before the first position where it succeeds, and what the
matcher returns there. A lazy repetition before a pattern is such a search, and
so is the search for an unanchored pattern.
-/

namespace RiskClaw.LeftmostSearch

variable {α β : Type*}

/-- The first position at which the matcher succeeds. -/
def leftmost (f : List α → Option β) : List α → Option (List α × β)
  | [] => (f []).map fun b => ([], b)
  | a :: text =>
    match f (a :: text) with
    | some b => some ([], b)
    | none => (leftmost f text).map fun r => (a :: r.1, r.2)

/-- A search fails exactly when the matcher fails at every position. -/
theorem leftmost_eq_none_iff {f : List α → Option β} {text : List α} :
    leftmost f text = none ↔ ∀ s, s <:+ text → f s = none := by
  induction text with
  | nil =>
    rw [leftmost, Option.map_eq_none_iff]
    constructor
    · intro h s hs
      rwa [List.suffix_nil.mp hs]
    · exact fun h => h [] (List.suffix_refl _)
  | cons a text ih =>
    rw [leftmost]
    cases hf : f (a :: text) with
    | some b =>
      refine iff_of_false (fun h => nomatch h) fun h => ?_
      exact nomatch hf.symm.trans (h _ (List.suffix_refl _))
    | none =>
      simp only [Option.map_eq_none_iff, ih, List.suffix_cons_iff]
      constructor
      · rintro h s (rfl | hs)
        · exact hf
        · exact h s hs
      · exact fun h s hs => h s (Or.inr hs)

/-- A match found ends at a position where the matcher succeeds and before which
it fails. -/
theorem leftmost_split {f : List α → Option β} {text before : List α} {b : β}
    (h : leftmost f text = some (before, b)) :
    ∃ rest, text = before ++ rest ∧ f rest = some b ∧
      ∀ q, q <:+ before → q ≠ [] → f (q ++ rest) = none := by
  induction text generalizing before with
  | nil =>
    obtain ⟨b', hb, he⟩ := Option.map_eq_some_iff.mp h
    cases he
    exact ⟨[], rfl, hb, fun q hq hne => absurd (List.suffix_nil.mp hq) hne⟩
  | cons a text ih =>
    rw [leftmost] at h
    cases hf : f (a :: text) with
    | some b' =>
      rw [hf] at h
      cases h
      exact ⟨a :: text, rfl, hf, fun q hq hne => absurd (List.suffix_nil.mp hq) hne⟩
    | none =>
      rw [hf] at h
      obtain ⟨⟨before', b'⟩, hr, he⟩ := Option.map_eq_some_iff.mp h
      cases he
      obtain ⟨rest, rfl, hb, hfail⟩ := ih hr
      refine ⟨rest, rfl, hb, fun q hq hne => ?_⟩
      rcases List.suffix_cons_iff.mp hq with rfl | hq
      · exact hf
      · exact hfail q hq hne

/-- Where the matcher succeeds for the first time, the search finds it. -/
theorem leftmost_of_first {f : List α → Option β} {before rest : List α} {b : β}
    (hb : f rest = some b) (hfail : ∀ q, q <:+ before → q ≠ [] → f (q ++ rest) = none) :
    leftmost f (before ++ rest) = some (before, b) := by
  induction before with
  | nil => cases rest <;> simp [leftmost, hb]
  | cons a before ih =>
    have hhere : f (a :: before ++ rest) = none :=
      hfail _ (List.suffix_refl _) (List.cons_ne_nil _ _)
    have hrest := ih fun q hq hne => hfail q (hq.trans (List.suffix_cons a before)) hne
    rw [List.cons_append] at hhere ⊢
    rw [leftmost, hhere]
    dsimp only
    rw [hrest]
    rfl

/-- Whether a literal stands at a position that has the literal's length in
front of it does not depend on what follows. -/
theorem prefix_append_iff {pattern q x : List α} (hq : pattern.length ≤ q.length) :
    pattern <+: q ++ x ↔ pattern <+: q :=
  ⟨fun h => List.prefix_of_prefix_length_le h (List.prefix_append _ _) hq,
    fun h => h.trans (List.prefix_append _ _)⟩

/-- A literal does not extend over a symbol that it does not contain. -/
theorem prefix_of_not_mem {pattern q x : List α} {c : α} (hc : c ∉ pattern)
    (h : pattern <+: q ++ c :: x) : pattern <+: q := by
  by_cases hq : pattern.length ≤ q.length
  · exact (prefix_append_iff hq).mp h
  · have hpre : q ++ [c] <+: pattern := by
      refine List.prefix_of_prefix_length_le ?_ h (by simp; omega)
      exact ⟨x, by simp⟩
    exact absurd (hpre.subset (by simp)) hc

/-- A literal that stands in front of another one stands there whatever follows
the other. -/
theorem prefix_before_literal {pattern q x : List α} (y : List α)
    (h : pattern <+: q ++ (pattern ++ x)) : pattern <+: q ++ (pattern ++ y) := by
  have hlen : pattern.length ≤ (q ++ pattern).length := by
    rw [List.length_append]
    omega
  rw [← List.append_assoc, prefix_append_iff hlen] at h ⊢
  exact h

section Literal

variable [DecidableEq α]

/-- The text after a literal that stands at its beginning. -/
def literal (pattern text : List α) : Option (List α) :=
  if pattern <+: text then some (text.drop pattern.length) else none

theorem literal_append (pattern rest : List α) : literal pattern (pattern ++ rest) = some rest := by
  rw [literal, if_pos (List.prefix_append _ _), List.drop_left]

theorem literal_eq_none_iff {pattern text : List α} :
    literal pattern text = none ↔ ¬pattern <+: text := by
  unfold literal
  split_ifs with h <;> simp [h]

theorem literal_eq_some_iff {pattern text rest : List α} :
    literal pattern text = some rest ↔ text = pattern ++ rest := by
  constructor
  · intro h
    unfold literal at h
    split_ifs at h with hp
    obtain ⟨r, rfl⟩ := hp
    rw [List.drop_left] at h
    rw [Option.some.inj h]
  · rintro rfl
    exact literal_append pattern rest

end Literal

end RiskClaw.LeftmostSearch
