import RiskClaw.AdaptiveQueries
import Mathlib.Order.Lattice
import Mathlib.Order.Basic
import Mathlib.Data.Nat.Basic

/-!
# The threshold circuit and what its outputs reveal

The circuit compares an encrypted threshold with a plaintext score, reveals
the comparison and passes the score through. However an observer chooses its
scores, it tells two thresholds apart only by a score between them.
-/

namespace RiskClaw.ThresholdCircuit

open AdaptiveQueries

/-- An encrypted input of the circuit. Only the circuit looks inside, and only
what is passed to `reveal` leaves it. -/
structure Enc (α : Type) where
  /-- The shared value inside the computation, `to_arcis`. -/
  toArcis : α

/-- `reveal`: open a value of the computation to everybody. -/
def reveal {α : Type} (value : α) : α := value

/-- `compare`: whether the score reaches the threshold, and the score itself. -/
def compare (threshold : Enc UInt64) (score : UInt64) : Bool × UInt64 :=
  let t := threshold.toArcis
  let breached := reveal (decide (t ≤ score))
  (breached, score)

/-- What an observer learns from at most `n` calls, choosing each score from
the outputs so far. -/
def observe (strategy : Strategy UInt64 (Bool × UInt64)) (threshold : UInt64) (n : ℕ) :
    List (UInt64 × (Bool × UInt64)) :=
  transcript strategy (compare ⟨threshold⟩) n

/-- A score from the lower threshold on and below the upper one. -/
def Separates (t₁ t₂ score : UInt64) : Prop :=
  min t₁.toNat t₂.toNat ≤ score.toNat ∧ score.toNat < max t₁.toNat t₂.toNat

/-- One call tells two thresholds apart exactly by a score between them; the
score of the upper threshold is outside, that of the lower one inside. -/
theorem compare_eq_iff (t₁ t₂ score : UInt64) :
    compare ⟨t₁⟩ score = compare ⟨t₂⟩ score ↔ ¬Separates t₁ t₂ score := by
  have hcompare : compare ⟨t₁⟩ score = compare ⟨t₂⟩ score ↔
      (t₁.toNat ≤ score.toNat ↔ t₂.toNat ≤ score.toNat) := by
    simp only [compare, reveal, Prod.mk.injEq, and_true, decide_eq_decide, UInt64.le_iff_toNat_le]
  rw [hcompare, Separates]
  omega

/-- For every adaptive strategy and every number of calls, the observations of
two thresholds are equal if and only if no score asked of the first one
separates them, whether or not the questions are part of the observation; and
every score comes back as it was asked. -/
theorem observations_equal_iff (strategy : Strategy UInt64 (Bool × UInt64)) (t₁ t₂ : UInt64)
    (n : ℕ) :
    (observe strategy t₁ n = observe strategy t₂ n ↔
      ∀ e ∈ observe strategy t₁ n, ¬Separates t₁ t₂ e.1) ∧
    ((observe strategy t₁ n).map Prod.snd = (observe strategy t₂ n).map Prod.snd ↔
      ∀ e ∈ observe strategy t₁ n, ¬Separates t₁ t₂ e.1) ∧
    ∀ e ∈ observe strategy t₁ n, e.2.2 = e.1 := by
  have hequal : observe strategy t₁ n = observe strategy t₂ n ↔
      ∀ e ∈ observe strategy t₁ n, ¬Separates t₁ t₂ e.1 := by
    refine interact_eq_iff.trans (forall₂_congr fun e _ => ?_)
    exact compare_eq_iff t₁ t₂ e.1
  refine ⟨hequal, interact_eq_iff_answers.trans hequal, fun e he => ?_⟩
  rw [answer_of_mem_interact he]
  rfl

end RiskClaw.ThresholdCircuit
