import RiskClaw.AccountStore
import RiskClaw.SolanaRuntime

/-!
# The swig_delegation program

One instruction, `execute_rebalance`, over the `LastRebalanced` accounts: the
30-second idempotency gate, the action, size and slippage gates, the write of
the timestamp and the audit event. Accounts are created on the first accepted
call. Swig's own authority check is not wired in this version, so any signer
may stand in the guardian's place.
-/

namespace RiskClaw.SwigDelegation

open ReactiveMachine AccountStore SolanaRuntime

/-- The three actions of the type system; this version ships `exit` only. -/
inductive RebalanceAction where
  /-- Not implemented. -/
  | reduce
  /-- Close the position. -/
  | exit
  /-- Not implemented. -/
  | hedge
  deriving DecidableEq

/-- Per-policy write-side rate-limit anchor. -/
structure LastRebalanced where
  /-- Clock at the most recent accepted call; zero when freshly created. -/
  timestamp : Int64
  /-- Canonical bump of the account's address. -/
  bump : UInt8
  deriving DecidableEq

namespace LastRebalanced

/-- Content of an account just created by `init_if_needed`. -/
def zeroed : LastRebalanced := ⟨0, 0⟩

/-- `LastRebalanced::RATE_LIMIT_SECS`. -/
def rateLimitSecs : Int64 := 30

end LastRebalanced

/-- Typed errors, in the order of their error codes. -/
inductive SwigDelegationError where
  /-- Called within the rate-limit window of the last accepted call. -/
  | rebalanceTooSoon
  /-- `min_out` is below the slippage tolerance. -/
  | slippageTooHigh
  /-- An action other than `exit`. -/
  | notImplemented
  /-- `size_bps` above 10000. -/
  | invalidSize
  deriving DecidableEq

namespace SwigDelegationError

/-- Name of the error as it appears in the program's logs. -/
def name : SwigDelegationError → String
  | rebalanceTooSoon => "RebalanceTooSoon"
  | slippageTooHigh => "SlippageTooHigh"
  | notImplemented => "NotImplemented"
  | invalidSize => "InvalidSize"

/-- The `#[msg]` text of the error. -/
def msg : SwigDelegationError → String
  | rebalanceTooSoon => "execute_rebalance called within idempotency window (30s)"
  | slippageTooHigh => "slippage check failed: min_out below max_slippage tolerance"
  | notImplemented => "rebalance action not implemented in v1 (only Exit ships)"
  | invalidSize => "size_bps must be <= 10_000"

end SwigDelegationError

/-- Audit event of an accepted call. -/
structure RebalanceExecutedEvent where
  /-- The policy that the call named. -/
  policy : Pubkey
  /-- The signer of the call. -/
  guardianAuthority : Pubkey
  /-- The executed action. -/
  action : RebalanceAction
  /-- Executed size in basis points. -/
  sizeBps : UInt16
  /-- Clock of the call. -/
  ts : Int64
  deriving DecidableEq

/-- Accounts of `execute_rebalance`. -/
structure ExecuteRebalance where
  /-- Key of the policy; an unchecked account used as a seed only. -/
  policy : Pubkey
  /-- Address passed in for the rate-limit anchor. -/
  lastRebalanced : Pubkey
  /-- The signer that pays for the anchor and is named in the event. -/
  guardianAuthority : Pubkey
  /-- Address passed in for the system program. -/
  systemProgram : Pubkey

/-- Arguments of `execute_rebalance`. -/
structure ExecuteRebalanceArgs where
  /-- Carried along and unused at run time. -/
  policyKey : Pubkey
  /-- Requested action. -/
  action : RebalanceAction
  /-- Requested size in basis points. -/
  sizeBps : UInt16
  /-- Accepted slippage in basis points. -/
  maxSlippageBps : UInt16
  /-- Quoted output amount. -/
  expectedOut : UInt64
  /-- Least acceptable output amount. -/
  minOut : UInt64

/-- One `execute_rebalance` instruction. -/
abbrev Call := Invocation ExecuteRebalance ExecuteRebalanceArgs

/-- How `execute_rebalance` can fail. -/
abbrev Rejection := ProgramError SwigDelegationError

/-- Step 3 of the handler: the cross-multiplied slippage comparison in checked
u128 arithmetic. -/
def checkSlippage (args : ExecuteRebalanceArgs) : Except Rejection Unit := do
  let lhs ← checked (U128.mul (.ofUInt64 args.minOut) 10000)
  let tolerance ← checked (U128.sub 10000 (.ofUInt16 args.maxSlippageBps))
  let rhs ← checked (U128.mul (.ofUInt64 args.expectedOut) tolerance)
  require (rhs ≤ lhs) (.custom .slippageTooHigh)

/-- The handler: four gates in order, then the new anchor and the event. -/
def handle (now : Int64) (accounts : ExecuteRebalance) (bump : UInt8) (lr : LastRebalanced)
    (args : ExecuteRebalanceArgs) : Except Rejection (LastRebalanced × RebalanceExecutedEvent) := do
  let elapsed := saturatingSub now lr.timestamp
  require (lr.timestamp = 0 ∨ LastRebalanced.rateLimitSecs ≤ elapsed) (.custom .rebalanceTooSoon)
  require (args.action = .exit) (.custom .notImplemented)
  require (args.sizeBps ≤ 10000) (.custom .invalidSize)
  checkSlippage args
  return (⟨now, bump⟩,
    ⟨accounts.policy, accounts.guardianAuthority, args.action, args.sizeBps, now⟩)

/-- Constraints of `ExecuteRebalance` on the addresses: the signer, the system
program and the seeds of the anchor. -/
def checkAccounts (pda : PdaScheme) (call : Call) : Except Rejection Unit := do
  require (call.accounts.guardianAuthority ∈ call.signers) (.anchor .accountNotSigner)
  require (call.accounts.systemProgram = systemProgramId) (.anchor .invalidProgramId)
  require (call.accounts.lastRebalanced = pda.address call.accounts.policy)
    (.anchor .constraintSeeds)

/-- All constraints, with `init_if_needed`: a missing anchor is created. -/
def tryAccounts (pda : PdaScheme) (call : Call) (existing : Option LastRebalanced) :
    Except Rejection LastRebalanced := do
  checkAccounts pda call
  return existing.getD .zeroed

/-- The whole instruction on the account it names. -/
def executeRebalance (pda : PdaScheme) (existing : Option LastRebalanced) (call : Call) :
    Except Rejection (LastRebalanced × RebalanceExecutedEvent) := do
  let lr ← tryAccounts pda call existing
  handle call.unixTimestamp call.accounts (pda.bump call.accounts.policy) lr call.args

/-- The accounts that the program owns, by address. -/
abbrev Accounts := Pubkey → Option LastRebalanced

/-- The program over its accounts; the runtime reverts a failed transaction. -/
def program (pda : PdaScheme) :
    CellProgram Pubkey LastRebalanced Call Rejection RebalanceExecutedEvent where
  cell call := call.accounts.lastRebalanced
  act := executeRebalance pda

/-- Gates 1 to 3, which look at the arguments only; the sum is over the
mathematical integers. -/
def ArgsAccepted (args : ExecuteRebalanceArgs) : Prop :=
  args.action = .exit ∧ args.sizeBps.toNat ≤ 10000 ∧ args.maxSlippageBps.toNat ≤ 10000 ∧
    args.expectedOut.toNat * (10000 - args.maxSlippageBps.toNat) ≤ args.minOut.toNat * 10000

instance (args : ExecuteRebalanceArgs) : Decidable (ArgsAccepted args) :=
  inferInstanceAs (Decidable (_ ∧ _ ∧ _ ∧ _))

/-- Gate 0: never executed, or the last execution is at least 30 seconds ago. -/
def WindowOpen (now : Int64) (lr : LastRebalanced) : Prop :=
  lr.timestamp = 0 ∨ LastRebalanced.rateLimitSecs ≤ saturatingSub now lr.timestamp

instance (now : Int64) (lr : LastRebalanced) : Decidable (WindowOpen now lr) :=
  inferInstanceAs (Decidable (_ ∨ _))

/-- Constraints that do not depend on the content of the anchor. -/
def AccountsAccepted (pda : PdaScheme) (call : Call) : Prop :=
  call.accounts.guardianAuthority ∈ call.signers ∧ call.accounts.systemProgram = systemProgramId ∧
    call.accounts.lastRebalanced = pda.address call.accounts.policy

instance (pda : PdaScheme) (call : Call) : Decidable (AccountsAccepted pda call) :=
  inferInstanceAs (Decidable (_ ∧ _ ∧ _))

/-- The left product cannot overflow: `u64::MAX * 10000 < 2^128`. -/
theorem mul_tenThousand (n : UInt64) :
    U128.mul (.ofUInt64 n) 10000 = some ⟨n.toNat * 10000, by have h := n.toNat_lt; omega⟩ := by
  have h := n.toNat_lt
  exact dif_pos (show n.toNat * 10000 < 2 ^ 128 by omega)

/-- The tolerance exists exactly for slippage up to 10000 bps. -/
theorem sub_slippage (s : UInt16) :
    U128.sub 10000 (.ofUInt16 s) =
      if s.toNat ≤ 10000 then some ⟨10000 - s.toNat, by omega⟩ else none := rfl

/-- The right product cannot overflow either. -/
theorem mul_tolerance (n : UInt64) {k : ℕ} (hk : k ≤ 10000) :
    U128.mul (.ofUInt64 n) ⟨k, by omega⟩ = some ⟨n.toNat * k, by
      have h := n.toNat_lt; have hm := Nat.mul_le_mul h.le hk; omega⟩ := by
  have h := n.toNat_lt
  have hm := Nat.mul_le_mul h.le hk
  exact dif_pos (show n.toNat * k < 2 ^ 128 by omega)

/-- Outcome of the slippage step on every argument, abort included. -/
theorem checkSlippage_eq (args : ExecuteRebalanceArgs) :
    checkSlippage args =
      if args.maxSlippageBps.toNat ≤ 10000 then
        if args.expectedOut.toNat * (10000 - args.maxSlippageBps.toNat) ≤ args.minOut.toNat * 10000
        then .ok () else .error (.custom .slippageTooHigh)
      else .error .panic := by
  unfold checkSlippage
  rw [mul_tenThousand, sub_slippage]
  by_cases hs : args.maxSlippageBps.toNat ≤ 10000
  · rw [if_pos hs, if_pos hs]
    simp only [checked_some, bind, Except.bind]
    rw [mul_tolerance _ (by omega)]
    rfl
  · rw [if_neg hs, if_neg hs]
    rfl

/-- The anchor that an accepted call leaves behind. -/
def stamped (pda : PdaScheme) (call : Call) : LastRebalanced :=
  ⟨call.unixTimestamp, pda.bump call.accounts.policy⟩

/-- The event that an accepted call emits. -/
def executedEvent (call : Call) : RebalanceExecutedEvent :=
  ⟨call.accounts.policy, call.accounts.guardianAuthority, call.args.action, call.args.sizeBps,
    call.unixTimestamp⟩

/-- Steps 1 to 5 of the handler: what follows once the window is open. None of
them reads the anchor. -/
def afterWindow (pda : PdaScheme) (call : Call) :
    Except Rejection (LastRebalanced × RebalanceExecutedEvent) := do
  require (call.args.action = .exit) (.custom .notImplemented)
  require (call.args.sizeBps ≤ 10000) (.custom .invalidSize)
  checkSlippage call.args
  return (stamped pda call, executedEvent call)

/-- The instruction in three stages: address constraints, window, arguments.
Only the middle one depends on the present anchor. -/
theorem executeRebalance_eq (pda : PdaScheme) (existing : Option LastRebalanced) (call : Call) :
    executeRebalance pda existing call =
      (checkAccounts pda call >>= fun _ =>
        if WindowOpen call.unixTimestamp (existing.getD .zeroed) then afterWindow pda call
        else .error (.custom .rebalanceTooSoon)) := by
  unfold executeRebalance tryAccounts
  cases checkAccounts pda call with
  | error e => rfl
  | ok u =>
    change (require (WindowOpen call.unixTimestamp (existing.getD .zeroed))
      (ProgramError.custom .rebalanceTooSoon) >>= fun _ => afterWindow pda call) = _
    exact require_bind _ _ _

theorem checkAccounts_ok_iff {pda : PdaScheme} {call : Call} :
    checkAccounts pda call = .ok () ↔ AccountsAccepted pda call := by
  unfold checkAccounts AccountsAccepted
  rw [require_bind_ok_iff, require_bind_ok_iff]
  by_cases h : call.accounts.lastRebalanced = pda.address call.accounts.policy
  · rw [require_pos h]
    simp [h]
  · rw [require_neg h]
    simp [h]

theorem afterWindow_ok_iff {pda : PdaScheme} {call : Call}
    {r : LastRebalanced × RebalanceExecutedEvent} :
    afterWindow pda call = .ok r ↔
      ArgsAccepted call.args ∧ r = (stamped pda call, executedEvent call) := by
  have hsize : call.args.sizeBps ≤ 10000 ↔ call.args.sizeBps.toNat ≤ 10000 :=
    UInt16.le_iff_toNat_le
  unfold afterWindow ArgsAccepted
  simp only [require_bind_ok_iff, checkSlippage_eq, hsize]
  by_cases hs : call.args.maxSlippageBps.toNat ≤ 10000
  · rw [if_pos hs]
    split_ifs with hp
    · simp only [hs, hp, and_true, bind, Except.bind, pure, Except.pure, Except.ok.injEq,
        and_assoc, eq_comm]
    · simp [hp, bind, Except.bind]
  · rw [if_neg hs]
    simp [hs, bind, Except.bind]

/-- All constraints and gates of an instruction on the present anchor. -/
def Accepted (pda : PdaScheme) (existing : Option LastRebalanced) (call : Call) : Prop :=
  AccountsAccepted pda call ∧ WindowOpen call.unixTimestamp (existing.getD .zeroed) ∧
    ArgsAccepted call.args

instance (pda : PdaScheme) (existing : Option LastRebalanced) (call : Call) :
    Decidable (Accepted pda existing call) := inferInstanceAs (Decidable (_ ∧ _ ∧ _))

/-- The instruction succeeds exactly when everything is accepted. -/
theorem executeRebalance_ok_iff {pda : PdaScheme} {existing : Option LastRebalanced} {call : Call}
    {r : LastRebalanced × RebalanceExecutedEvent} :
    executeRebalance pda existing call = .ok r ↔
      Accepted pda existing call ∧ r = (stamped pda call, executedEvent call) := by
  rw [executeRebalance_eq]
  unfold Accepted
  rw [← checkAccounts_ok_iff]
  cases checkAccounts pda call with
  | error e => simp [bind, Except.bind]
  | ok u =>
    change ite _ _ _ = _ ↔ _
    by_cases hw : WindowOpen call.unixTimestamp (existing.getD .zeroed)
    · rw [if_pos hw, afterWindow_ok_iff]
      simp [hw]
    · simp [hw]

/-- Everything one call can do to the accounts: stamp the anchor of the policy
it names and emit its event, or fail and change nothing. -/
theorem step_cases (pda : PdaScheme) (s : Accounts) (call : Call) :
    (Accepted pda (s (pda.address call.accounts.policy)) call ∧
      (program pda).step s call =
        (Function.update s (pda.address call.accounts.policy) (some (stamped pda call)),
          .ok (executedEvent call))) ∨
    (¬Accepted pda (s (pda.address call.accounts.policy)) call ∧
      ∃ e, (program pda).step s call = (s, .error e)) := by
  by_cases hc : call.accounts.lastRebalanced = pda.address call.accounts.policy
  · rcases (program pda).step_cases s call with ⟨e, ha, hs⟩ | ⟨v, o, ha, hs⟩
    · refine Or.inr ⟨fun h => ?_, e, hs⟩
      have hok := executeRebalance_ok_iff.mpr ⟨h, rfl⟩
      rw [← hc] at hok
      exact nomatch hok.symm.trans ha
    · obtain ⟨h, hr⟩ := executeRebalance_ok_iff.mp ha
      cases hr
      change Accepted pda (s call.accounts.lastRebalanced) call at h
      change _ = (Function.update s call.accounts.lastRebalanced _, _) at hs
      rw [hc] at h hs
      exact Or.inl ⟨h, hs⟩
  · right
    refine ⟨fun h => hc h.1.2.2, ?_⟩
    rcases (program pda).step_cases s call with ⟨e, -, hs⟩ | ⟨v, o, ha, -⟩
    · exact ⟨e, hs⟩
    · exact absurd (executeRebalance_ok_iff.mp ha).1.1.2.2 hc

/-- What the acceptance of a call says about it and about the accounts. -/
theorem step_ok {pda : PdaScheme} {s : Accounts} {call : Call} {e : RebalanceExecutedEvent}
    (h : ((program pda).step s call).2 = .ok e) :
    Accepted pda (s (pda.address call.accounts.policy)) call ∧ e = executedEvent call ∧
      ((program pda).step s call).1 =
        Function.update s (pda.address call.accounts.policy) (some (stamped pda call)) := by
  rcases step_cases pda s call with ⟨hok, hs⟩ | ⟨-, e', hs⟩
  · rw [hs] at h ⊢
    cases h
    exact ⟨hok, rfl, rfl⟩
  · rw [hs] at h
    cases h

/-- With the right accounts, only the window can stop a call before its
arguments are looked at. -/
theorem step_answer_of_accounts {pda : PdaScheme} (s : Accounts) {call : Call}
    (h : AccountsAccepted pda call) :
    ((program pda).step s call).2 =
      if WindowOpen call.unixTimestamp ((s (pda.address call.accounts.policy)).getD .zeroed)
      then (afterWindow pda call).map Prod.snd else .error (.custom .rebalanceTooSoon) := by
  have hcell : (program pda).cell call = pda.address call.accounts.policy := h.2.2
  rw [(program pda).step_answer, hcell, CellProgram.answer]
  change Except.map Prod.snd (executeRebalance pda _ call) = _
  rw [executeRebalance_eq, checkAccounts_ok_iff.mpr h, ok_bind]
  split <;> rfl

end RiskClaw.SwigDelegation
