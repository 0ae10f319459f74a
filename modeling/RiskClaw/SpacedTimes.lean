import Mathlib.Data.List.Pairwise
import Mathlib.Data.Int.Order.Basic
import Mathlib.Tactic.Linarith

/-!
# Sequences of times with a minimum gap

A list of integer times is spaced by `d` when any two of its entries, in
list order, are at least `d` apart. Appending a time needs a comparison with
the last entry only, and a window of length `T` holds at most `T/d+1` entries.
-/

namespace RiskClaw.SpacedTimes

/-- Every later entry is at least `d` after every earlier one. -/
def Spaced (d : ℤ) (times : List ℤ) : Prop := times.Pairwise fun a b => a + d ≤ b

instance (d : ℤ) (times : List ℤ) : Decidable (Spaced d times) :=
  inferInstanceAs (Decidable (times.Pairwise _))

theorem Spaced.sublist {d : ℤ} {xs ys : List ℤ} (h : Spaced d ys) (hs : xs.Sublist ys) :
    Spaced d xs := List.Pairwise.sublist hs h

theorem Spaced.strictly_increasing {d : ℤ} {times : List ℤ} (h : Spaced d times) (hd : 0 < d) :
    times.Pairwise (· < ·) := List.Pairwise.imp (fun {_ _} hab => by omega) h

/-- A spaced sequence ends with its largest entry. -/
theorem Spaced.le_last {d : ℤ} {times : List ℤ} (h : Spaced d times) (hd : 0 ≤ d) {x l : ℤ}
    (hx : x ∈ times) (hl : times.getLast? = some l) : x ≤ l := by
  obtain ⟨init, rfl⟩ := List.getLast?_eq_some_iff.mp hl
  rcases List.mem_append.mp hx with hx | hx
  · have hgap := (List.pairwise_append.mp h).2.2 x hx l (by simp)
    omega
  · rw [List.mem_singleton.mp hx]

/-- Appending needs the gap to the last entry only. -/
theorem Spaced.concat {d : ℤ} {times : List ℤ} (h : Spaced d times) (hd : 0 ≤ d) {x : ℤ}
    (hlast : ∀ l, times.getLast? = some l → l + d ≤ x) : Spaced d (times ++ [x]) := by
  refine List.pairwise_append.mpr ⟨h, List.pairwise_singleton _ _, ?_⟩
  intro a ha b hb
  rw [List.mem_singleton.mp hb]
  have hne : times ≠ [] := List.ne_nil_of_mem ha
  have hl := List.getLast?_eq_some_getLast hne
  have hle := h.le_last hd ha hl
  have hgap := hlast _ hl
  omega

/-- A spaced sequence of `n` entries spans at least `n-1` gaps. -/
theorem Spaced.span {d a b : ℤ} {times : List ℤ} (h : Spaced d times) (hd : 0 ≤ d) (hab : a ≤ b)
    (hin : ∀ x ∈ times, a ≤ x ∧ x ≤ b) : ((times.length : ℤ) - 1) * d ≤ b - a := by
  induction times generalizing a with
  | nil =>
    simp only [List.length_nil, Nat.cast_zero]
    omega
  | cons x times ih =>
    obtain ⟨hgap, hrest⟩ := List.pairwise_cons.mp h
    have hx := hin x (by simp)
    cases times with
    | nil =>
      simp only [List.length_cons, List.length_nil]
      omega
    | cons y times =>
      have hy := hin y (by simp)
      have hxy := hgap y (by simp)
      have hc := ih (a := x + d) hrest (hxy.trans hy.2) fun z hz =>
        ⟨hgap z hz, (hin z (List.mem_cons_of_mem _ hz)).2⟩
      simp only [List.length_cons, Nat.cast_add, Nat.cast_one] at hc ⊢
      linarith

/-- A closed window of length `T` holds at most `T/d+1` entries. -/
theorem Spaced.count_window {d : ℤ} {times : List ℤ} (h : Spaced d times) (hd : 0 < d)
    (a : ℤ) {T : ℤ} (hT : 0 ≤ T) :
    ((times.filter fun x => a ≤ x ∧ x ≤ a + T).length : ℤ) ≤ T / d + 1 := by
  have hin : ∀ x ∈ times.filter (fun x => a ≤ x ∧ x ≤ a + T), a ≤ x ∧ x ≤ a + T := fun x hx => by
    simpa only [decide_eq_true_eq] using (List.mem_filter.mp hx).2
  have hw := (h.sublist List.filter_sublist).span hd.le (by omega) hin
  have hq := Int.le_ediv_of_mul_le hd (hw.trans (by omega : a + T - a ≤ T))
  omega

end RiskClaw.SpacedTimes
