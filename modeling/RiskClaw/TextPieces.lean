import Mathlib.Data.List.Infix

/-!
# Texts put together from pieces

Two ways to reason about a text by its pieces. Where no piece begins with
another one, a text can be cut into pieces in one way at most, and what has been
read as pieces stays read whatever follows. And a condition on what follows a
symbol in a text holds of the whole if it holds of each piece.
-/

namespace RiskClaw.TextPieces

variable {ι α : Type*}

section Reading

/-- The text of some pieces, one after the other. -/
def encode (word : ι → List α) (pieces : List ι) : List α := pieces.flatMap word

/-- A piece can be read off the front of a text in one way at most. -/
structure PrefixFree (word : ι → List α) : Prop where
  /-- No piece is empty. -/
  nonempty : ∀ i, word i ≠ []
  /-- The piece and what follows it are determined. -/
  unique : ∀ i j x y, word i ++ x = word j ++ y → i = j ∧ x = y

/-- The text does not begin with a piece. -/
def Unfinished (word : ι → List α) (rest : List α) : Prop := ∀ i x, word i ++ x ≠ rest

variable {word : ι → List α}

@[simp] theorem encode_nil (word : ι → List α) : encode word [] = [] := rfl

@[simp] theorem encode_cons (word : ι → List α) (i : ι) (pieces : List ι) :
    encode word (i :: pieces) = word i ++ encode word pieces := List.flatMap_cons

@[simp] theorem encode_append (word : ι → List α) (xs ys : List ι) :
    encode word (xs ++ ys) = encode word xs ++ encode word ys := List.flatMap_append

theorem unfinished_nil (h : PrefixFree word) : Unfinished word [] := by
  intro i x hix
  exact h.nonempty i (List.append_eq_nil_iff.mp hix).1

/-- What begins with the text of some pieces is read as these pieces first. -/
theorem encode_split (h : PrefixFree word) {xs ys : List ι} {w rest : List α}
    (hrest : Unfinished word rest) (heq : encode word xs ++ w = encode word ys ++ rest) :
    ∃ zs, ys = xs ++ zs ∧ w = encode word zs ++ rest := by
  induction xs generalizing ys with
  | nil => exact ⟨ys, rfl, heq⟩
  | cons i xs ih =>
    rw [encode_cons, List.append_assoc] at heq
    cases ys with
    | nil => exact absurd heq (hrest i _)
    | cons j ys =>
      rw [encode_cons, List.append_assoc] at heq
      obtain ⟨rfl, htail⟩ := h.unique _ _ _ _ heq
      obtain ⟨zs, rfl, hw⟩ := ih htail
      exact ⟨zs, rfl, hw⟩

/-- A text is cut into pieces and an unfinished rest in one way at most. -/
theorem encode_inj (h : PrefixFree word) {xs ys : List ι} {rest rest' : List α}
    (hrest : Unfinished word rest) (hrest' : Unfinished word rest')
    (heq : encode word xs ++ rest = encode word ys ++ rest') : xs = ys ∧ rest = rest' := by
  obtain ⟨zs, rfl, hzs⟩ := encode_split h hrest' heq
  cases zs with
  | nil => exact ⟨(List.append_nil xs).symm, hzs⟩
  | cons i zs =>
    rw [encode_cons, List.append_assoc] at hzs
    exact absurd hzs.symm (hrest i _)

/-- What stands before the first symbol of a kind is determined. -/
theorem stop_unique {p : α → Bool} {xs ys x y : List α} {a b : α} (hxs : ∀ c ∈ xs, p c = false)
    (hys : ∀ c ∈ ys, p c = false) (ha : p a = true) (hb : p b = true)
    (h : xs ++ a :: x = ys ++ b :: y) : xs = ys ∧ a = b ∧ x = y := by
  induction xs generalizing ys with
  | nil =>
    cases ys with
    | nil => exact ⟨rfl, List.cons.inj h⟩
    | cons d ys =>
      have hd := hys d List.mem_cons_self
      rw [← (List.cons.inj h).1, ha] at hd
      cases hd
  | cons c xs ih =>
    have hc := hxs c List.mem_cons_self
    cases ys with
    | nil =>
      rw [(List.cons.inj h).1, hb] at hc
      cases hc
    | cons d ys =>
      obtain ⟨rfl, htail⟩ := List.cons.inj h
      obtain ⟨rfl, hab, hxy⟩ := ih (fun e he => hxs e (List.mem_cons_of_mem c he))
        (fun e he => hys e (List.mem_cons_of_mem c he)) htail
      exact ⟨rfl, hab, hxy⟩

end Reading

section Following

/-- Whatever follows an occurrence of a symbol in a text satisfies the condition. -/
def Followed (a : α) (q : List α → Prop) (text : List α) : Prop := ∀ s, a :: s <:+ text → q s

variable {a : α} {q : List α → Prop} {x y : List α}

theorem followed_of_not_mem (h : a ∉ x) : Followed a q x :=
  fun _ hs => absurd (hs.subset List.mem_cons_self) h

theorem followed_cons_iff {b : α} : Followed a q (b :: x) ↔ (b = a → q x) ∧ Followed a q x := by
  constructor
  · intro h
    refine ⟨?_, fun s hs => h s (hs.trans (List.suffix_cons b x))⟩
    rintro rfl
    exact h x (List.suffix_refl _)
  · rintro ⟨hhere, htail⟩ s hs
    rcases List.suffix_cons_iff.mp hs with heq | hs
    · obtain ⟨rfl, rfl⟩ := List.cons.inj heq
      exact hhere rfl
    · exact htail s hs

/-- A piece without the symbol can be left out at the front. -/
theorem followed_append_iff_of_not_mem (h : a ∉ x) : Followed a q (x ++ y) ↔ Followed a q y := by
  induction x with
  | nil => exact Iff.rfl
  | cons b x ih =>
    have hb : b ≠ a := (List.ne_of_not_mem_cons h).symm
    rw [List.cons_append, followed_cons_iff, ih (List.not_mem_of_not_mem_cons h)]
    exact ⟨fun hy => hy.2, fun hy => ⟨fun hba => absurd hba hb, hy⟩⟩

/-- A condition that survives what is written after it holds of two pieces if it
holds of each. -/
theorem Followed.append (hq : ∀ s t, q s → q (s ++ t)) (hx : Followed a q x)
    (hy : Followed a q y) : Followed a q (x ++ y) := by
  rintro s ⟨before, hs⟩
  rcases List.append_eq_append_iff.mp hs with ⟨z, rfl, hz⟩ | ⟨z, hz, rfl⟩
  · cases z with
    | nil => exact hy s ⟨[], hz⟩
    | cons b z =>
      obtain ⟨rfl, rfl⟩ := List.cons.inj hz
      exact hq _ _ (hx z ⟨before, rfl⟩)
  · exact hy s ⟨z, rfl⟩

end Following

end RiskClaw.TextPieces
