import RiskClaw.ReactiveMachine
import Mathlib.Logic.Function.Basic

/-!
# Stores of named cells rewritten atomically, one cell an instruction

An instruction names one cell, reads its present content, and either fails
or replaces the content and answers. A failed instruction is reverted as a
whole, including the creation of the cell. The frame, locality and
commutation rules below hold for every store of this shape.
-/

namespace RiskClaw.AccountStore

open ReactiveMachine

/-- Instructions on a store of cells: which cell is named and what becomes of it. -/
structure CellProgram (κ υ ι ε ο : Type*) where
  /-- The one cell that the instruction may read and rewrite. -/
  cell : ι → κ
  /-- New content and answer from the present content, or an error. -/
  act : Option υ → ι → Except ε (υ × ο)

section Cells

variable {κ υ : Type*} [DecidableEq κ] {s : κ → Option υ} {k j : κ} {v x : υ}

/-- A filled cell after a write is the written one or was filled before. -/
theorem update_cases (h : Function.update s k (some v) j = some x) :
    (j = k ∧ v = x) ∨ (j ≠ k ∧ s j = some x) := by
  by_cases hj : j = k
  · subst hj
    rw [Function.update_self] at h
    exact Or.inl ⟨rfl, Option.some.inj h⟩
  · rw [Function.update_of_ne hj] at h
    exact Or.inr ⟨hj, h⟩

/-- A write to an empty cell leaves every filled cell as it is. -/
theorem update_of_empty (hk : s k = none) (hj : s j = some x) :
    Function.update s k (some v) j = some x := by
  have hne : j ≠ k := by
    rintro rfl
    exact nomatch hj.symm.trans hk
  rw [Function.update_of_ne hne, hj]

/-- A filled cell after a write to a filled cell `k` has its old content, or is
`k` itself with the new one. -/
theorem update_keeps {y : υ} (hk : s k = some y) (hj : s j = some x) :
    Function.update s k (some v) j = some x ∨
      (x = y ∧ Function.update s k (some v) j = some v) := by
  by_cases h : j = k
  · subst h
    exact Or.inr ⟨Option.some.inj (hj.symm.trans hk), Function.update_self _ _ _⟩
  · exact Or.inl ((Function.update_of_ne h _ _).trans hj)

end Cells

namespace CellProgram

variable {κ υ ι ε ο : Type*} [DecidableEq κ] (p : CellProgram κ υ ι ε ο)

/-- Execute one instruction; an error leaves the whole store as it was. -/
def step (s : κ → Option υ) (i : ι) : (κ → Option υ) × Except ε ο :=
  match p.act (s (p.cell i)) i with
  | .ok (v, o) => (Function.update s (p.cell i) (some v), .ok o)
  | .error e => (s, .error e)

/-- The store as a machine that answers every instruction. -/
def machine : Machine (κ → Option υ) ι (Except ε ο) := ⟨p.step⟩

@[simp] theorem machine_step (s : κ → Option υ) (i : ι) : p.machine.step s i = p.step s i := rfl

theorem step_ok {s : κ → Option υ} {i : ι} {v : υ} {o : ο}
    (h : p.act (s (p.cell i)) i = .ok (v, o)) :
    p.step s i = (Function.update s (p.cell i) (some v), .ok o) := by
  rw [step, h]

theorem step_error {s : κ → Option υ} {i : ι} {e : ε}
    (h : p.act (s (p.cell i)) i = .error e) : p.step s i = (s, .error e) := by
  rw [step, h]

/-- Everything an instruction can do: fail without a trace, or rewrite the
named cell with the content that the program computed from it. -/
theorem step_cases (s : κ → Option υ) (i : ι) :
    (∃ e, p.act (s (p.cell i)) i = .error e ∧ p.step s i = (s, .error e)) ∨
      ∃ v o, p.act (s (p.cell i)) i = .ok (v, o) ∧
        p.step s i = (Function.update s (p.cell i) (some v), .ok o) := by
  cases h : p.act (s (p.cell i)) i with
  | error e => exact Or.inl ⟨e, rfl, p.step_error h⟩
  | ok r => exact Or.inr ⟨r.1, r.2, rfl, p.step_ok h⟩

/-- The answer alone tells a failed instruction from an executed one. -/
theorem step_of_output_error {s : κ → Option υ} {i : ι} {e : ε}
    (h : (p.step s i).2 = .error e) :
    p.act (s (p.cell i)) i = .error e ∧ (p.step s i).1 = s := by
  rcases p.step_cases s i with ⟨e', ha, hs⟩ | ⟨v, o, ha, hs⟩
  · rw [hs] at h ⊢
    cases h
    exact ⟨ha, rfl⟩
  · rw [hs] at h
    cases h

theorem step_of_output_ok {s : κ → Option υ} {i : ι} {o : ο} (h : (p.step s i).2 = .ok o) :
    ∃ v, p.act (s (p.cell i)) i = .ok (v, o) ∧
      (p.step s i).1 = Function.update s (p.cell i) (some v) := by
  rcases p.step_cases s i with ⟨e', ha, hs⟩ | ⟨v, o', ha, hs⟩
  · rw [hs] at h
    cases h
  · rw [hs] at h ⊢
    cases h
    exact ⟨v, ha, rfl⟩

/-- Frame rule: no instruction touches a cell that it does not name. -/
theorem step_frame {s : κ → Option υ} {i : ι} {k : κ} (hk : p.cell i ≠ k) :
    (p.step s i).1 k = s k := by
  rcases p.step_cases s i with ⟨e, -, hs⟩ | ⟨v, o, -, hs⟩
  · rw [hs]
  · rw [hs]
    exact Function.update_of_ne hk.symm _ _

/-- The named cell after one instruction, as a function of its content before. -/
def update (c : Option υ) (i : ι) : Option υ :=
  match p.act c i with
  | .ok (v, _) => some v
  | .error _ => c

/-- The answer to one instruction, as a function of the named cell. -/
def answer (c : Option υ) (i : ι) : Except ε ο := (p.act c i).map Prod.snd

theorem step_cell (s : κ → Option υ) (i : ι) :
    (p.step s i).1 (p.cell i) = p.update (s (p.cell i)) i := by
  rcases p.step_cases s i with ⟨e, ha, hs⟩ | ⟨v, o, ha, hs⟩
  · rw [hs, update, ha]
  · rw [hs, update, ha]
    exact Function.update_self _ _ _

theorem step_answer (s : κ → Option υ) (i : ι) :
    (p.step s i).2 = p.answer (s (p.cell i)) i := by
  rcases p.step_cases s i with ⟨e, ha, hs⟩ | ⟨v, o, ha, hs⟩ <;> rw [hs, answer, ha] <;> rfl

/-- Locality: stores that agree on the named cell answer alike and agree on
it afterwards. -/
theorem step_local {s t : κ → Option υ} {i : ι} (h : s (p.cell i) = t (p.cell i)) :
    (p.step s i).1 (p.cell i) = (p.step t i).1 (p.cell i) ∧ (p.step s i).2 = (p.step t i).2 := by
  rw [p.step_cell, p.step_cell, p.step_answer, p.step_answer, h]
  exact ⟨rfl, rfl⟩

/-- The whole store after one instruction, cell by cell. -/
theorem step_store (s : κ → Option υ) (i : ι) :
    (p.step s i).1 = Function.update s (p.cell i) (p.update (s (p.cell i)) i) := by
  funext k
  by_cases hk : p.cell i = k
  · subst hk
    rw [p.step_cell, Function.update_self]
  · rw [p.step_frame hk, Function.update_of_ne (Ne.symm hk)]

/-- Instructions on different cells commute: either order gives the same
store, and each gets the answer it gets on its own. -/
theorem step_comm {i j : ι} (hij : p.cell i ≠ p.cell j) (s : κ → Option υ) :
    (p.step (p.step s i).1 j).1 = (p.step (p.step s j).1 i).1 ∧
      (p.step (p.step s i).1 j).2 = (p.step s j).2 ∧
      (p.step (p.step s j).1 i).2 = (p.step s i).2 := by
  have hj := p.step_frame (s := s) hij
  have hi := p.step_frame (s := s) hij.symm
  refine ⟨?_, ?_, ?_⟩
  · rw [p.step_store (p.step s i).1, p.step_store (p.step s j).1, hj, hi, p.step_store s i,
      p.step_store s j, Function.update_comm hij]
  · rw [p.step_answer, p.step_answer, hj]
  · rw [p.step_answer, p.step_answer, hi]

end CellProgram

end RiskClaw.AccountStore
