import Mathlib.Data.List.Basic

/-!
# Adaptive interaction with an oracle

A strategy looks at the answers so far and asks the next question or stops.
Two oracles cannot be told apart by a strategy exactly when they agree on
every question that it asks the first one: up to the first disagreement both
interactions are the same, and the disagreement is seen.
-/

namespace RiskClaw.AdaptiveQueries

variable {Q A : Type*}

/-- The next question after the answers so far, oldest first, or the end. -/
abbrev Strategy (Q A : Type*) := List A → Option Q

/-- At most `n` further exchanges with an oracle, oldest first. -/
def interact (strategy : Strategy Q A) (oracle : Q → A) : ℕ → List A → List (Q × A)
  | 0, _ => []
  | n + 1, past =>
    match strategy past with
    | none => []
    | some q => (q, oracle q) :: interact strategy oracle n (past ++ [oracle q])

/-- The whole interaction of at most `n` exchanges. -/
def transcript (strategy : Strategy Q A) (oracle : Q → A) (n : ℕ) : List (Q × A) :=
  interact strategy oracle n []

theorem interact_stop {strategy : Strategy Q A} {past : List A} (h : strategy past = none)
    (oracle : Q → A) (n : ℕ) : interact strategy oracle (n + 1) past = [] := by
  rw [interact, h]

theorem interact_ask {strategy : Strategy Q A} {past : List A} {q : Q}
    (h : strategy past = some q) (oracle : Q → A) (n : ℕ) :
    interact strategy oracle (n + 1) past =
      (q, oracle q) :: interact strategy oracle n (past ++ [oracle q]) := by
  rw [interact, h]

/-- Every recorded answer is the oracle's. -/
theorem answer_of_mem_interact {strategy : Strategy Q A} {oracle : Q → A} {n : ℕ} {past : List A}
    {e : Q × A} (he : e ∈ interact strategy oracle n past) : e.2 = oracle e.1 := by
  induction n generalizing past with
  | zero => exact absurd he List.not_mem_nil
  | succ n ih =>
    cases hq : strategy past with
    | none =>
      rw [interact_stop hq] at he
      exact absurd he List.not_mem_nil
    | some q =>
      rw [interact_ask hq] at he
      rcases List.mem_cons.mp he with rfl | he
      · rfl
      · exact ih he

/-- Equal answers are equal interactions, since the questions follow from them. -/
theorem interact_eq_iff_answers {strategy : Strategy Q A} {f g : Q → A} {n : ℕ} {past : List A} :
    (interact strategy f n past).map Prod.snd = (interact strategy g n past).map Prod.snd ↔
      interact strategy f n past = interact strategy g n past := by
  refine ⟨fun h => ?_, congrArg (List.map Prod.snd)⟩
  induction n generalizing past with
  | zero => rfl
  | succ n ih =>
    cases hq : strategy past with
    | none => rw [interact_stop hq, interact_stop hq]
    | some q =>
      rw [interact_ask hq, interact_ask hq] at h ⊢
      obtain ⟨hanswer, hrest⟩ := List.cons.inj h
      change f q = g q at hanswer
      rw [hanswer] at hrest ⊢
      rw [ih hrest]

/-- Two oracles are told apart exactly by a question on which they differ and
which is asked of the first one. -/
theorem interact_eq_iff {strategy : Strategy Q A} {f g : Q → A} {n : ℕ} {past : List A} :
    interact strategy f n past = interact strategy g n past ↔
      ∀ e ∈ interact strategy f n past, f e.1 = g e.1 := by
  constructor
  · intro h e he
    have hf := answer_of_mem_interact he
    rw [h] at he
    exact hf.symm.trans (answer_of_mem_interact he)
  · intro h
    induction n generalizing past with
    | zero => rfl
    | succ n ih =>
      cases hq : strategy past with
      | none => rw [interact_stop hq, interact_stop hq]
      | some q =>
        rw [interact_ask hq] at h
        have hagree : f q = g q := h (q, f q) List.mem_cons_self
        have hrest := ih fun e he => h e (List.mem_cons_of_mem _ he)
        rw [interact_ask hq, interact_ask hq, hrest, hagree]

end RiskClaw.AdaptiveQueries
