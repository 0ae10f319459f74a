import RiskClaw.SwigRateLimit
import Mathlib.Algebra.Order.Floor.Ring
import Mathlib.Data.Rat.Floor
import Mathlib.Tactic.NormNum
import Mathlib.Tactic.Ring

/-!
# The gates of execute_rebalance on the whole input space

Every call gets one of six answers: the event, the four typed errors in the
documented order, or the arithmetic abort of a slippage above 10000 bps. The
machine comparison of the slippage gate is the rounded bound on the output
over the rationals, without a wrap anywhere in u64 and bps.
-/

namespace RiskClaw.SwigGates

open ReactiveMachine AccountStore SolanaRuntime SwigDelegation SwigRateLimit

section Slippage

/-- Least output that a tolerance of `s` bps admits, rounded up. -/
def leastOut (expected s : ℤ) : ℤ := ⌈(expected * (10000 - s) : ℚ) / 10000⌉

/-- Greatest loss that a tolerance of `s` bps admits, rounded down. -/
def greatestLoss (expected s : ℤ) : ℤ := ⌊(expected * s : ℚ) / 10000⌋

theorem leastOut_le_iff {expected s m : ℤ} :
    leastOut expected s ≤ m ↔ expected * (10000 - s) ≤ m * 10000 := by
  have hden : (0 : ℚ) < 10000 := by norm_num
  unfold leastOut
  rw [Int.ceil_le, div_le_iff₀ hden]
  exact_mod_cast Iff.rfl

theorem le_greatestLoss_iff {expected s l : ℤ} :
    l ≤ greatestLoss expected s ↔ l * 10000 ≤ expected * s := by
  have hden : (0 : ℚ) < 10000 := by norm_num
  unfold greatestLoss
  rw [Int.le_floor, le_div_iff₀ hden]
  exact_mod_cast Iff.rfl

/-- What is not lost is put out: the two roundings are one bound. -/
theorem loss_le_iff {expected s m : ℤ} :
    expected - m ≤ greatestLoss expected s ↔ leastOut expected s ≤ m := by
  rw [le_greatestLoss_iff, leastOut_le_iff]
  constructor <;> intro h <;> linarith

/-- A nonnegative quote needs a nonnegative output that is not above it. -/
theorem leastOut_bounds {expected s : ℤ} (he : 0 ≤ expected) (hs : 0 ≤ s) (hs' : s ≤ 10000) :
    0 ≤ leastOut expected s ∧ leastOut expected s ≤ expected := by
  constructor
  · by_contra hneg
    have hlt : leastOut expected s ≤ -1 := by omega
    rw [leastOut_le_iff] at hlt
    have hprod : 0 ≤ expected * (10000 - s) := mul_nonneg he (by omega)
    omega
  · rw [leastOut_le_iff]
    exact mul_le_mul_of_nonneg_left (by omega) he

/-- Quoted output over the integers. -/
def expectedOut (args : ExecuteRebalanceArgs) : ℤ := args.expectedOut.toNat

/-- Offered output over the integers. -/
def minOut (args : ExecuteRebalanceArgs) : ℤ := args.minOut.toNat

/-- Tolerance over the integers. -/
def maxSlippage (args : ExecuteRebalanceArgs) : ℤ := args.maxSlippageBps.toNat

/-- The gate as the error's documentation states it. -/
def SlippageWithin (args : ExecuteRebalanceArgs) : Prop :=
  expectedOut args * (10000 - maxSlippage args) ≤ minOut args * 10000

instance (args : ExecuteRebalanceArgs) : Decidable (SlippageWithin args) :=
  inferInstanceAs (Decidable (_ ≤ _))

/-- The natural subtraction of the machine is the integer one in range. -/
theorem slippageWithin_iff {args : ExecuteRebalanceArgs}
    (hs : args.maxSlippageBps.toNat ≤ 10000) :
    SlippageWithin args ↔
      args.expectedOut.toNat * (10000 - args.maxSlippageBps.toNat) ≤ args.minOut.toNat * 10000 := by
  have htolerance : (10000 - maxSlippage args : ℤ) =
      ((10000 - args.maxSlippageBps.toNat : ℕ) : ℤ) := by
    unfold maxSlippage
    omega
  unfold SlippageWithin expectedOut minOut
  rw [htolerance]
  exact_mod_cast Iff.rfl

/-- Within 10000 bps the gate passes or raises its own error. -/
theorem checkSlippage_in_range {args : ExecuteRebalanceArgs}
    (hs : args.maxSlippageBps.toNat ≤ 10000) :
    checkSlippage args =
      if SlippageWithin args then .ok () else .error (.custom .slippageTooHigh) := by
  rw [checkSlippage_eq, if_pos hs]
  by_cases h : SlippageWithin args
  · rw [if_pos h, if_pos ((slippageWithin_iff hs).mp h)]
  · rw [if_neg h, if_neg fun hm => h ((slippageWithin_iff hs).mpr hm)]

theorem checkSlippage_ok_iff {args : ExecuteRebalanceArgs}
    (hs : args.maxSlippageBps.toNat ≤ 10000) :
    checkSlippage args = .ok () ↔ SlippageWithin args := by
  rw [checkSlippage_in_range hs]
  by_cases h : SlippageWithin args
  · simp [h]
  · simp [h]

theorem checkSlippage_ok_iff_leastOut {args : ExecuteRebalanceArgs}
    (hs : args.maxSlippageBps.toNat ≤ 10000) :
    checkSlippage args = .ok () ↔
      leastOut (expectedOut args) (maxSlippage args) ≤ minOut args := by
  rw [checkSlippage_ok_iff hs, leastOut_le_iff]
  rfl

/-- The three machine operations of the gate yield the integers they stand for. -/
theorem slippage_operations_exact {args : ExecuteRebalanceArgs}
    (hs : args.maxSlippageBps.toNat ≤ 10000) :
    ∃ lhs tolerance rhs, U128.mul (.ofUInt64 args.minOut) 10000 = some lhs ∧
      U128.sub 10000 (.ofUInt16 args.maxSlippageBps) = some tolerance ∧
      U128.mul (.ofUInt64 args.expectedOut) tolerance = some rhs ∧
      (lhs.val : ℤ) = minOut args * 10000 ∧
      (rhs.val : ℤ) = expectedOut args * (10000 - maxSlippage args) := by
  have htolerance := sub_slippage args.maxSlippageBps
  rw [if_pos hs] at htolerance
  refine ⟨_, _, _, mul_tenThousand args.minOut, htolerance,
    mul_tolerance args.expectedOut (by omega), Nat.cast_mul _ _, ?_⟩
  unfold expectedOut maxSlippage
  rw [Nat.cast_mul, Nat.cast_sub hs]
  rfl

/-- Acceptance survives more output, more tolerance and a lower quote. -/
theorem checkSlippage_mono {args args' : ExecuteRebalanceArgs}
    (hs : args.maxSlippageBps.toNat ≤ 10000) (hs' : args'.maxSlippageBps.toNat ≤ 10000)
    (hexpected : args'.expectedOut ≤ args.expectedOut) (hmin : args.minOut ≤ args'.minOut)
    (hslippage : args.maxSlippageBps ≤ args'.maxSlippageBps)
    (h : checkSlippage args = .ok ()) : checkSlippage args' = .ok () := by
  rw [checkSlippage_ok_iff hs] at h
  rw [checkSlippage_ok_iff hs']
  rw [UInt64.le_iff_toNat_le] at hexpected hmin
  rw [UInt16.le_iff_toNat_le] at hslippage
  unfold SlippageWithin expectedOut minOut maxSlippage at h ⊢
  have hquote : (args'.expectedOut.toNat : ℤ) * (10000 - args'.maxSlippageBps.toNat) ≤
      args.expectedOut.toNat * (10000 - args.maxSlippageBps.toNat) :=
    mul_le_mul (by omega) (by omega) (by omega) (by omega)
  omega

/-- The least output fits into a u64, up to a quote of `u64::MAX`. -/
theorem exists_leastOut {args : ExecuteRebalanceArgs}
    (hs : args.maxSlippageBps.toNat ≤ 10000) :
    ∃ least : UInt64, (least.toNat : ℤ) = leastOut (expectedOut args) (maxSlippage args) := by
  have hlt := args.expectedOut.toNat_lt
  obtain ⟨hlow, hhigh⟩ : 0 ≤ leastOut (expectedOut args) (maxSlippage args) ∧
      leastOut (expectedOut args) (maxSlippage args) ≤ expectedOut args :=
    leastOut_bounds (Int.natCast_nonneg _) (Int.natCast_nonneg _) (by unfold maxSlippage; omega)
  refine ⟨UInt64.ofNat (leastOut (expectedOut args) (maxSlippage args)).toNat, ?_⟩
  have hbound : expectedOut args < 2 ^ 64 := by
    unfold expectedOut
    omega
  rw [UInt64.toNat_ofNat']
  omega

/-- For every quote and output and every tolerance up to 10000 bps: no product
or difference of the gate wraps; it passes exactly from the rounded-up least
output on, that is, for a loss up to the rounded-down greatest one; what it
accepts it accepts with more output, more tolerance or a lower quote; and the
least output is itself a u64 that is accepted. -/
theorem slippage_gate_exact (args : ExecuteRebalanceArgs)
    (hs : args.maxSlippageBps.toNat ≤ 10000) :
    (∃ lhs tolerance rhs, U128.mul (.ofUInt64 args.minOut) 10000 = some lhs ∧
      U128.sub 10000 (.ofUInt16 args.maxSlippageBps) = some tolerance ∧
      U128.mul (.ofUInt64 args.expectedOut) tolerance = some rhs ∧
      (lhs.val : ℤ) = minOut args * 10000 ∧
      (rhs.val : ℤ) = expectedOut args * (10000 - maxSlippage args)) ∧
    (checkSlippage args = .ok () ↔ leastOut (expectedOut args) (maxSlippage args) ≤ minOut args) ∧
    (checkSlippage args = .ok () ↔
      expectedOut args - minOut args ≤ greatestLoss (expectedOut args) (maxSlippage args)) ∧
    (∀ args' : ExecuteRebalanceArgs, checkSlippage args = .ok () →
      args'.expectedOut ≤ args.expectedOut → args.minOut ≤ args'.minOut →
      args.maxSlippageBps ≤ args'.maxSlippageBps → args'.maxSlippageBps.toNat ≤ 10000 →
      checkSlippage args' = .ok ()) ∧
    ∃ least : UInt64, (least.toNat : ℤ) = leastOut (expectedOut args) (maxSlippage args) ∧
      checkSlippage { args with minOut := least } = .ok () ∧
      ∀ m, checkSlippage { args with minOut := m } = .ok () → least ≤ m := by
  have hok := checkSlippage_ok_iff_leastOut hs
  refine ⟨slippage_operations_exact hs, hok, hok.trans loss_le_iff.symm, ?_, ?_⟩
  · intro args' h hexpected hmin hslippage hs'
    exact checkSlippage_mono hs hs' hexpected hmin hslippage h
  · obtain ⟨least, hleast⟩ := exists_leastOut hs
    have hgate : ∀ m, checkSlippage { args with minOut := m } = .ok () ↔
        leastOut (expectedOut args) (maxSlippage args) ≤ m.toNat := by
      intro m
      exact checkSlippage_ok_iff_leastOut hs
    refine ⟨least, hleast, (hgate least).mpr hleast.ge, fun m hm => ?_⟩
    have hm' := (hgate m).mp hm
    rw [UInt64.le_iff_toNat_le]
    omega

/-- A tolerance of 1 bps on a given quote and output. -/
def tightArgs (expectedOut minOut : UInt64) : ExecuteRebalanceArgs :=
  ⟨DevnetConfig.operatorPolicy, .exit, 10000, 1, expectedOut, minOut⟩

/-- The rule at the top of the range, where the division is inexact. -/
theorem slippage_gate_exact_demo :
    leastOut (2 ^ 64 - 1) 1 ≤ 18444899399302180660 ∧
    ¬leastOut (2 ^ 64 - 1) 1 ≤ 18444899399302180659 := by
  constructor
  · exact (slippage_gate_exact (tightArgs 18446744073709551615 18444899399302180660)
      (by decide)).2.1.mp (by decide)
  · intro h
    exact absurd ((slippage_gate_exact (tightArgs 18446744073709551615 18444899399302180659)
      (by decide)).2.1.mpr h) (by decide)

end Slippage

section Answers

/-- Gate 0 over the integers: no anchor, no stamp, or 30 seconds since the stamp. -/
def OutsideWindow (existing : Option LastRebalanced) (now : Int64) : Prop :=
  ∀ lr ∈ existing, lr.timestamp = 0 ∨ 30 ≤ now.toInt - lr.timestamp.toInt

instance (existing : Option LastRebalanced) (now : Int64) :
    Decidable (OutsideWindow existing now) :=
  inferInstanceAs (Decidable (∀ lr ∈ existing, _))

/-- The sentinel, the saturation and the account creation amount to that. -/
theorem outsideWindow_iff {existing : Option LastRebalanced} {now : Int64} :
    OutsideWindow existing now ↔ WindowOpen now (existing.getD .zeroed) := by
  rw [windowOpen_iff]
  unfold OutsideWindow
  cases existing with
  | none => simp [LastRebalanced.zeroed]
  | some lr =>
    have hgap : lr.timestamp.toInt + 30 ≤ now.toInt ↔ 30 ≤ now.toInt - lr.timestamp.toInt := by
      omega
    simp [hgap]

/-- The first of the steps 0 to 3 that fails, in the documented order. -/
def firstFailing (existing : Option LastRebalanced) (call : Call) : Option SwigDelegationError :=
  if ¬OutsideWindow existing call.unixTimestamp then some .rebalanceTooSoon
  else if call.args.action ≠ .exit then some .notImplemented
  else if 10000 < call.args.sizeBps.toNat then some .invalidSize
  else if ¬SlippageWithin call.args then some .slippageTooHigh
  else none

/-- Steps 0 to 2 pass. -/
def ReachesSlippage (existing : Option LastRebalanced) (call : Call) : Prop :=
  OutsideWindow existing call.unixTimestamp ∧ call.args.action = .exit ∧
    call.args.sizeBps.toNat ≤ 10000

/-- Once the window is open, the remaining steps on every argument. -/
theorem afterWindow_eq (pda : PdaScheme) (call : Call) :
    afterWindow pda call =
      if call.args.action ≠ .exit then .error (.custom .notImplemented)
      else if 10000 < call.args.sizeBps.toNat then .error (.custom .invalidSize)
      else if 10000 < call.args.maxSlippageBps.toNat then .error .panic
      else if ¬SlippageWithin call.args then .error (.custom .slippageTooHigh)
      else .ok (stamped pda call, executedEvent call) := by
  have hsize : call.args.sizeBps ≤ 10000 ↔ ¬10000 < call.args.sizeBps.toNat :=
    UInt16.le_iff_toNat_le.trans Nat.not_lt.symm
  unfold afterWindow
  rw [require_bind, require_bind]
  by_cases haction : call.args.action = .exit
  · rw [if_pos haction, if_neg (not_not.mpr haction)]
    by_cases hs : 10000 < call.args.sizeBps.toNat
    · rw [if_neg (mt hsize.mp (not_not.mpr hs)), if_pos hs]
    · rw [if_pos (hsize.mpr hs), if_neg hs]
      by_cases hslippage : 10000 < call.args.maxSlippageBps.toNat
      · rw [if_pos hslippage, checkSlippage_eq, if_neg (Nat.not_le.mpr hslippage)]
        rfl
      · rw [if_neg hslippage, checkSlippage_in_range (Nat.not_lt.mp hslippage)]
        by_cases hw : SlippageWithin call.args
        · rw [if_pos hw, if_neg (not_not.mpr hw)]
          rfl
        · rw [if_neg hw, if_pos hw]
          rfl
  · rw [if_neg haction, if_pos haction]

/-- The answer to a call on the right accounts, whatever its arguments. -/
theorem answer_eq {pda : PdaScheme} (s : Accounts) {call : Call}
    (h : AccountsAccepted pda call) :
    ((program pda).step s call).2 =
      if ¬OutsideWindow (s (pda.address call.accounts.policy)) call.unixTimestamp then
        .error (.custom .rebalanceTooSoon)
      else if call.args.action ≠ .exit then .error (.custom .notImplemented)
      else if 10000 < call.args.sizeBps.toNat then .error (.custom .invalidSize)
      else if 10000 < call.args.maxSlippageBps.toNat then .error .panic
      else if ¬SlippageWithin call.args then .error (.custom .slippageTooHigh)
      else .ok (executedEvent call) := by
  rw [step_answer_of_accounts s h, afterWindow_eq]
  by_cases hopen : OutsideWindow (s (pda.address call.accounts.policy)) call.unixTimestamp
  · rw [if_pos (outsideWindow_iff.mp hopen), if_neg (not_not.mpr hopen)]
    split_ifs <;> rfl
  · rw [if_neg (mt outsideWindow_iff.mpr hopen), if_pos hopen]

/-- A rejection is a typed error, namely that of the first failing step. -/
def TypedInOrder (pda : PdaScheme) (s : Accounts) (call : Call) : Prop :=
  ∀ r, ((program pda).step s call).2 = .error r →
    ∃ e, firstFailing (s (pda.address call.accounts.policy)) call = some e ∧ r = .custom e

/-- On the right accounts a rejection is typed and in order unless the steps 0
to 2 pass and the tolerance is above 10000 bps; then, and only then, the call
dies of the underflow in step 3. -/
theorem typed_in_order_iff (pda : PdaScheme) (s : Accounts) (call : Call)
    (h : AccountsAccepted pda call) :
    (TypedInOrder pda s call ↔ (ReachesSlippage (s (pda.address call.accounts.policy)) call →
      call.args.maxSlippageBps.toNat ≤ 10000)) ∧
    (((program pda).step s call).2 = .error .panic ↔
      ReachesSlippage (s (pda.address call.accounts.policy)) call ∧
        10000 < call.args.maxSlippageBps.toNat) := by
  unfold TypedInOrder ReachesSlippage firstFailing
  rw [answer_eq s h]
  by_cases hopen : OutsideWindow (s (pda.address call.accounts.policy)) call.unixTimestamp
  swap
  · simp [hopen]
  by_cases haction : call.args.action = .exit
  swap
  · simp [hopen, haction]
  by_cases hsize : 10000 < call.args.sizeBps.toNat
  · simp [hopen, haction, hsize]
  by_cases hslippage : 10000 < call.args.maxSlippageBps.toNat
  · simp [hopen, haction, hsize, hslippage, Nat.not_lt.mp hsize, Nat.not_le.mpr hslippage]
  · by_cases hw : SlippageWithin call.args
    · simp [hopen, haction, hsize, hslippage, hw, Nat.not_lt.mp hslippage]
    · simp [hopen, haction, hsize, hslippage, hw, Nat.not_lt.mp hslippage]

/-- An EXIT of the demo position under a given tolerance. -/
def toleranceCall (maxSlippageBps : UInt16) : Call :=
  { demoCall 100 DevnetConfig.guardianAgent 10000 with
    args := ⟨DevnetConfig.operatorPolicy, .exit, 10000, maxSlippageBps, 1000, 900⟩ }

/-- The rule on a tolerance that is too tight for the offered output. -/
theorem typed_in_order_iff_demo :
    TypedInOrder DevnetConfig.lastRebalancedPda (fun _ => none) (toleranceCall 100) :=
  (typed_in_order_iff DevnetConfig.lastRebalancedPda (fun _ => none) (toleranceCall 100)
    (by decide)).1.mpr fun _ => by decide

/-- A tolerance of 10001 bps on a fresh policy passes every earlier step and is
answered with an abort that names no error. -/
theorem tolerance_underflow_untyped :
    AccountsAccepted DevnetConfig.lastRebalancedPda (toleranceCall 10001) ∧
    ((program DevnetConfig.lastRebalancedPda).step (fun _ => none) (toleranceCall 10001)).2 =
      .error .panic ∧
    ¬TypedInOrder DevnetConfig.lastRebalancedPda (fun _ => none) (toleranceCall 10001) := by
  have hpanic : ((program DevnetConfig.lastRebalancedPda).step (fun _ => none)
      (toleranceCall 10001)).2 = .error .panic := rfl
  refine ⟨by decide, hpanic, fun h => ?_⟩
  obtain ⟨e, -, he⟩ := h _ hpanic
  cases he

/-- The events that a transaction leaves in the log. -/
def emitted (answer : Except Rejection RebalanceExecutedEvent) : List RebalanceExecutedEvent :=
  answer.toOption.toList

theorem accepted_iff {pda : PdaScheme} {existing : Option LastRebalanced} {call : Call} :
    Accepted pda existing call ↔ AccountsAccepted pda call ∧
      OutsideWindow existing call.unixTimestamp ∧ call.args.action = .exit ∧
      call.args.sizeBps.toNat ≤ 10000 ∧ call.args.maxSlippageBps.toNat ≤ 10000 ∧
      SlippageWithin call.args := by
  unfold Accepted ArgsAccepted
  rw [outsideWindow_iff]
  by_cases hs : call.args.maxSlippageBps.toNat ≤ 10000
  · rw [slippageWithin_iff hs]
  · simp [hs]

/-- On every state and for every call whatever: it succeeds exactly when its
accounts are the right ones, the window is over, and action, size, tolerance
and output pass over the integers. Then the anchor of its policy is stamped
with clock and canonical bump, nothing else changes, and one event reports
just this. In every other case, the abort included, nothing changes and
nothing is reported. -/
theorem rebalance_all_or_nothing (pda : PdaScheme) (s : Accounts) (call : Call) :
    ((∃ e, ((program pda).step s call).2 = .ok e) ↔ AccountsAccepted pda call ∧
      OutsideWindow (s (pda.address call.accounts.policy)) call.unixTimestamp ∧
      call.args.action = .exit ∧ call.args.sizeBps.toNat ≤ 10000 ∧
      call.args.maxSlippageBps.toNat ≤ 10000 ∧ SlippageWithin call.args) ∧
    (∀ e, ((program pda).step s call).2 = .ok e →
      ((program pda).step s call).1 = Function.update s (pda.address call.accounts.policy)
        (some ⟨call.unixTimestamp, pda.bump call.accounts.policy⟩) ∧
      emitted ((program pda).step s call).2 = [⟨call.accounts.policy,
        call.accounts.guardianAuthority, call.args.action, call.args.sizeBps,
        call.unixTimestamp⟩]) ∧
    ∀ r, ((program pda).step s call).2 = .error r →
      ((program pda).step s call).1 = s ∧ emitted ((program pda).step s call).2 = [] := by
  refine ⟨?_, ?_, ?_⟩
  · rw [← accepted_iff]
    constructor
    · rintro ⟨e, he⟩
      exact (step_ok he).1
    · intro hok
      rcases step_cases pda s call with ⟨-, hs⟩ | ⟨hno, -⟩
      · exact ⟨_, congrArg Prod.snd hs⟩
      · exact absurd hok hno
  · intro e he
    obtain ⟨-, hevent, hstate⟩ := step_ok he
    rw [he, hevent]
    exact ⟨hstate, rfl⟩
  · intro r hr
    rw [hr]
    exact ⟨((program pda).step_of_output_error hr).2, rfl⟩

end Answers

end RiskClaw.SwigGates
