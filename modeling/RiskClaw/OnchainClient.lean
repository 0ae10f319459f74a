import RiskClaw.DevnetConfig
import RiskClaw.RiskPolicyProgram
import RiskClaw.SwigDelegation
import Mathlib.Data.List.Infix
import Mathlib.Data.Rat.Defs

/-!
# The RealClient of the onchain package

The client methods are cut at their `await`s: what runs before the first one
is one function, what runs after it is another, and everything that the second
remembers from the first is in a record. A method may therefore be overtaken
between its parts by other calls on the same caches. Signatures are identified
with the call that submitted the transaction.
-/

namespace RiskClaw.OnchainClient

open SolanaRuntime

/-- A JavaScript number. -/
inductive JsNumber where
  /-- A finite number. -/
  | finite (value : ℚ)
  /-- `Infinity`, or `-Infinity` when negative. -/
  | infinite (negative : Bool)
  /-- `NaN`. -/
  | nan
  deriving DecidableEq

/-- The comparison `x >= bound` with a finite bound. -/
def JsNumber.atLeast (bound : ℚ) : JsNumber → Bool
  | finite value => bound ≤ value
  | infinite negative => !negative
  | nan => false

/-- The test `/name/i.test(text)` for a name of letters. -/
def mentions (name text : String) : Bool :=
  (name.toList.map Char.toLower) <:+: (text.toList.map Char.toLower)

/-- A name is mentioned wherever it stands in a longer text. -/
theorem mentions_append (before name after : String) :
    mentions name (before ++ name ++ after) = true := by
  unfold mentions
  rw [decide_eq_true_iff, String.toList_append, String.toList_append, List.map_append,
    List.map_append]
  exact List.infix_append _ _ _

/-- The action of a plan. -/
inductive PlanAction where
  /-- `"REDUCE"`. -/
  | reduce
  /-- `"EXIT"`. -/
  | exit
  /-- `"HEDGE"`. -/
  | hedge
  deriving DecidableEq

/-- The literal of an action. -/
def PlanAction.text : PlanAction → String
  | reduce => "REDUCE"
  | exit => "EXIT"
  | hedge => "HEDGE"

/-- What the guardian asks the client to execute. -/
structure RebalancePlan where
  /-- Address of the policy in base58. -/
  positionId : String
  /-- Requested action. -/
  action : PlanAction
  /-- Requested size in basis points. -/
  sizeBps : JsNumber
  deriving DecidableEq

/-- Observed metrics of one position. -/
structure PositionMetrics where
  /-- The observed position. -/
  positionId : String
  /-- Its notional value. -/
  notionalUSD : JsNumber
  /-- Its drawdown in basis points. -/
  drawdownBps : JsNumber
  deriving DecidableEq

/-- The answer of a threshold check. -/
structure ThresholdCheckResult where
  /-- Whether the threshold is breached. -/
  breached : Bool
  /-- The score, passed through. -/
  score : JsNumber
  deriving DecidableEq

/-- A signature, named by the call whose transaction it signs. -/
abbrev TxSig := ℕ

/-- How a client method can reject. The cause is the text of the original error. -/
inductive ClientError where
  /-- `NotImplementedError`. -/
  | notImplemented (what : String) (cause : Option String)
  /-- `SlippageRejectedError`. -/
  | slippageRejected (message : String) (cause : Option String)
  /-- `OnchainRejectionError`. -/
  | onchainRejection (message : String) (cause : Option String)
  /-- An exception that no method wraps in a typed error. -/
  | untyped (text : String)
  deriving DecidableEq

/-- What the client takes from the shared configuration, from web3.js and from
Anchor's client library, with what it relies on. -/
structure Environment where
  /-- `RISK_POLICY_PROGRAM_ID`. -/
  riskPolicyProgramId : Option Pubkey
  /-- `SWIG_DELEGATION_PROGRAM_ID`. -/
  swigDelegationProgramId : Option Pubkey
  /-- `new PublicKey(text)`, or the text of its exception. -/
  publicKey : String → Except String Pubkey
  /-- Encoding of a `u16` argument; no value when the encoder throws. -/
  encodeU16 : JsNumber → Option UInt16
  /-- `String(err)` when the preflight refuses an `execute_rebalance`. -/
  preflightErrorText : SwigDelegation.Rejection → String
  /-- `String(err)` when the transaction of a call is refused: the text of the
  preflight, or what is left of an error found only at execution. -/
  refusalText : TxSig → SwigDelegation.Rejection → String
  /-- `String(err)` for a rejected instruction of `risk_policy`. -/
  policyErrorText : RiskPolicyProgram.Rejection → String
  /-- An integer is encoded as itself, or refused when out of range. -/
  encode_integer : ∀ n : ℤ, encodeU16 (.finite n) =
    if 0 ≤ n ∧ n ≤ 65535 then some (UInt16.ofNat n.toNat) else none
  /-- The preflight's text of a program error contains the error's name. -/
  names_error : ∀ e : SwigDelegation.SwigDelegationError,
    mentions e.name (preflightErrorText (.custom e)) = true

/-- Options of the client factory; an interface description is there or not. -/
structure CreateRealClientOpts where
  /-- Key of the provider's wallet. -/
  wallet : Pubkey
  /-- Read-side throttle window. -/
  readThrottleMs : Option ℤ
  /-- Write-side idempotency window. -/
  writeThrottleMs : Option ℤ
  /-- Whether the interface of `risk_policy` is passed in. -/
  riskPolicyIdl : Bool
  /-- Whether the interface of `swig_delegation` is passed in. -/
  swigDelegationIdl : Bool

/-- The read-only fields of a client. Times are whole milliseconds. -/
structure RealClient where
  /-- Key that signs every transaction of the client. -/
  wallet : Pubkey
  /-- Window of the read cache. -/
  readThrottleMs : ℤ
  /-- Window of the write cache. -/
  writeThrottleMs : ℤ
  /-- Whether `risk_policy` can be called. -/
  riskPolicy : Bool
  /-- Whether `swig_delegation` can be called. -/
  swigDelegation : Bool

/-- The constructor with its defaults. -/
def createRealClient (opts : CreateRealClientOpts) : RealClient where
  wallet := opts.wallet
  readThrottleMs := opts.readThrottleMs.getD 5000
  writeThrottleMs := opts.writeThrottleMs.getD 30000
  riskPolicy := opts.riskPolicyIdl
  swigDelegation := opts.swigDelegationIdl

/-- Entry of the read cache. -/
structure ReadEntry where
  /-- Client time of the evaluation. -/
  lastCheckedAt : ℤ
  /-- Its result. -/
  lastResult : ThresholdCheckResult
  deriving DecidableEq

/-- Entry of the write cache. -/
structure WriteEntry where
  /-- Signature of the confirmed transaction. -/
  lastTxSig : TxSig
  /-- Client time of the confirmation. -/
  lastExecutedAt : ℤ
  deriving DecidableEq

/-- The two maps of a client, keyed by position. -/
structure Caches where
  /-- `readCache`. -/
  readCache : String → Option ReadEntry
  /-- `writeCache`. -/
  writeCache : String → Option WriteEntry

/-- Both maps of a new client. -/
def Caches.empty : Caches := ⟨fun _ => none, fun _ => none⟩

/-- The deterministic stub that stands for the encrypted comparison. -/
def stubResult (metrics : PositionMetrics) : ThresholdCheckResult where
  breached := metrics.drawdownBps.atLeast 2500
  score := metrics.notionalUSD

/-- `checkThresholdBreach`, which runs without an `await`. -/
def checkThresholdBreach (client : RealClient) (now : ℤ) (caches : Caches) (positionId : String)
    (metrics : PositionMetrics) : Caches × ThresholdCheckResult :=
  match (caches.readCache positionId).filter
      fun cached => now - cached.lastCheckedAt < client.readThrottleMs with
  | some cached => (caches, cached.lastResult)
  | none =>
    ({ caches with readCache :=
        Function.update caches.readCache positionId (some ⟨now, stubResult metrics⟩) },
      stubResult metrics)

/-- What an `executePrivateRebalance` call keeps across its `await`. -/
structure Submission where
  /-- The plan. -/
  plan : RebalancePlan
  /-- The parsed policy key. -/
  policyPubkey : Pubkey
  /-- The encoded size; without one the transaction is never built. -/
  sizeBps : Option UInt16
  /-- The cache entry read before the submission. -/
  cachedWrite : Option WriteEntry

/-- Outcome of the part of `executePrivateRebalance` before its `await`. -/
inductive Begun where
  /-- The method rejects. -/
  | threw (error : ClientError)
  /-- The method resolves from the cache. -/
  | answered (sig : TxSig)
  /-- The method awaits its transaction. -/
  | submitted (submission : Submission)

/-- `executePrivateRebalance` up to its `await`. -/
def executePrivateRebalance (env : Environment) (client : RealClient) (now : ℤ) (caches : Caches)
    (plan : RebalancePlan) : Begun :=
  if plan.action = .reduce ∨ plan.action = .hedge then
    .threw (.notImplemented
      ("executePrivateRebalance action=\"" ++ plan.action.text ++
        "\" (only EXIT ships in v1)") none)
  else if client.swigDelegation = false ∨ env.swigDelegationProgramId = none then
    .threw (.notImplemented
      ("executePrivateRebalance requires swigDelegationIdl + SWIG_DELEGATION_PROGRAM_ID" ++
        " — run deploy-devnet.ts") none)
  else
    match env.publicKey plan.positionId with
    | .error text => .threw (.untyped text)
    | .ok policyPubkey =>
      let cachedWrite := caches.writeCache plan.positionId
      match cachedWrite.filter fun cached =>
        now - cached.lastExecutedAt < client.writeThrottleMs with
      | some cached => .answered cached.lastTxSig
      | none => .submitted ⟨plan, policyPubkey, env.encodeU16 plan.sizeBps, cachedWrite⟩

namespace Submission

/-- The instruction that Anchor builds for a submission, as it is executed at a
given clock. The numbers are those of the demo. -/
def call (pda : PdaScheme) (client : RealClient) (clock : Int64) (s : Submission) :
    Option SwigDelegation.Call :=
  s.sizeBps.map fun sizeBps =>
    { accounts := ⟨s.policyPubkey, pda.address s.policyPubkey, client.wallet, systemProgramId⟩
      args := ⟨s.policyPubkey, .exit, sizeBps, 100, 1000, 995⟩
      signers := [client.wallet]
      unixTimestamp := clock }

/-- After a confirmed transaction: the write cache is set. -/
def confirmed (s : Submission) (sig : TxSig) (now : ℤ) (caches : Caches) : Caches :=
  { caches with writeCache :=
      Function.update caches.writeCache s.plan.positionId (some ⟨sig, now⟩) }

/-- The `catch` branch on an error with the given text. -/
def caught (s : Submission) (msg : String) : Except ClientError TxSig :=
  match s.cachedWrite.filter fun _ => mentions "RebalanceTooSoon" msg with
  | some cached => .ok cached.lastTxSig
  | none =>
    if mentions "SlippageTooHigh" msg then
      .error (.slippageRejected "onchain slippage gate rejected" (some msg))
    else if mentions "NotImplemented" msg then
      .error (.notImplemented s.plan.action.text (some msg))
    else .error (.onchainRejection "executePrivateRebalance failed" (some msg))

end Submission

/-- The instruction of a full EXIT. -/
def fullExit (pda : PdaScheme) (client : RealClient) (policy : Pubkey) (clock : Int64) :
    SwigDelegation.Call where
  accounts := ⟨policy, pda.address policy, client.wallet, systemProgramId⟩
  args := ⟨policy, .exit, 10000, 100, 1000, 995⟩
  signers := [client.wallet]
  unixTimestamp := clock

/-- `setEncryptedPolicy` up to its existence check: the byte pair to be stored,
with the zero handle of this version. -/
def setEncryptedPolicy (env : Environment) (client : RealClient) (ciphertext : List UInt8) :
    Except ClientError RiskPolicyProgram.PolicyArgs :=
  if client.riskPolicy = false ∨ env.riskPolicyProgramId = none then
    .error (.notImplemented
      ("setEncryptedPolicy requires riskPolicyIdl + RISK_POLICY_PROGRAM_ID" ++
        " — run deploy-devnet.ts") none)
  else if h : ciphertext.length = 64 then
    .ok ⟨⟨ciphertext.toArray, by simpa using h⟩, .replicate 32 0⟩
  else
    .error (.onchainRejection
      ("ciphertext must be 64 bytes (got " ++ toString ciphertext.length ++ ")") none)

/-- The instruction that is submitted after the existence check. -/
def policyAttempt (pda : PdaScheme) (client : RealClient) (multisig : Pubkey) (existed : Bool)
    (args : RiskPolicyProgram.PolicyArgs) (clock : Int64) : RiskPolicyProgram.Attempt :=
  if existed then .update ⟨⟨pda.address multisig, multisig⟩, args, [client.wallet], clock⟩
  else
    .init ⟨⟨pda.address multisig, multisig, client.wallet, systemProgramId⟩, args, [client.wallet],
      clock⟩

/-- What `setEncryptedPolicy` makes of the verdict on its transaction. -/
def policyOutcome (env : Environment) (existed : Bool) (sig : TxSig) :
    Except RiskPolicyProgram.Rejection Unit → Except ClientError TxSig
  | .ok _ => .ok sig
  | .error e =>
    .error (.onchainRejection
      ("setEncryptedPolicy " ++ (if existed then "update" else "init") ++ " failed")
      (some (env.policyErrorText e)))

/-- A position that was checked within the window is answered from the cache,
any other is evaluated and remembered. -/
theorem checkThresholdBreach_cases (client : RealClient) (now : ℤ) (caches : Caches)
    (positionId : String) (metrics : PositionMetrics) :
    (∃ cached, caches.readCache positionId = some cached ∧
      now - cached.lastCheckedAt < client.readThrottleMs ∧
      checkThresholdBreach client now caches positionId metrics = (caches, cached.lastResult)) ∨
    ((∀ cached, caches.readCache positionId = some cached →
        client.readThrottleMs ≤ now - cached.lastCheckedAt) ∧
      checkThresholdBreach client now caches positionId metrics =
        (⟨Function.update caches.readCache positionId (some ⟨now, stubResult metrics⟩),
          caches.writeCache⟩, stubResult metrics)) := by
  unfold checkThresholdBreach
  cases hc : caches.readCache positionId with
  | none => exact Or.inr ⟨(fun _ h => nomatch h), rfl⟩
  | some cached =>
    by_cases hfresh : now - cached.lastCheckedAt < client.readThrottleMs
    · exact Or.inl ⟨cached, rfl, hfresh, by simp [Option.filter_some, hfresh]⟩
    · refine Or.inr ⟨fun c h => ?_, by simp [Option.filter_some, hfresh]⟩
      cases h
      omega

/-- A call throws before its `await`, or its plan is an EXIT on a parsed key
and the cache entry decides: a young one answers, otherwise the call submits
and remembers the entry. -/
theorem executePrivateRebalance_cases (env : Environment) (client : RealClient) (now : ℤ)
    (caches : Caches) (plan : RebalancePlan) :
    (∃ e, executePrivateRebalance env client now caches plan = .threw e) ∨
    (plan.action = .exit ∧ ∃ policyPubkey, env.publicKey plan.positionId = .ok policyPubkey ∧
      ((∃ cached, caches.writeCache plan.positionId = some cached ∧
        now - cached.lastExecutedAt < client.writeThrottleMs ∧
        executePrivateRebalance env client now caches plan = .answered cached.lastTxSig) ∨
      ((∀ cached, caches.writeCache plan.positionId = some cached →
          client.writeThrottleMs ≤ now - cached.lastExecutedAt) ∧
        executePrivateRebalance env client now caches plan =
          .submitted ⟨plan, policyPubkey, env.encodeU16 plan.sizeBps,
            caches.writeCache plan.positionId⟩))) := by
  unfold executePrivateRebalance
  by_cases haction : plan.action = .reduce ∨ plan.action = .hedge
  · exact Or.inl ⟨_, if_pos haction⟩
  have hexit : plan.action = .exit := by
    cases h : plan.action with
    | exit => rfl
    | reduce => exact absurd (Or.inl h) haction
    | hedge => exact absurd (Or.inr h) haction
  rw [if_neg haction]
  by_cases hready : client.swigDelegation = false ∨ env.swigDelegationProgramId = none
  · exact Or.inl ⟨_, if_pos hready⟩
  rw [if_neg hready]
  cases hkey : env.publicKey plan.positionId with
  | error text => exact Or.inl ⟨_, rfl⟩
  | ok policyPubkey =>
    refine Or.inr ⟨hexit, policyPubkey, rfl, ?_⟩
    cases hc : caches.writeCache plan.positionId with
    | none => exact Or.inr ⟨(fun _ h => nomatch h), rfl⟩
    | some cached =>
      by_cases hyoung : now - cached.lastExecutedAt < client.writeThrottleMs
      · exact Or.inl ⟨cached, rfl, hyoung, by simp [Option.filter_some, hyoung]⟩
      · refine Or.inr ⟨fun c h => ?_, by simp [Option.filter_some, hyoung]⟩
        cases h
        omega

/-- The `catch` branch resolves exactly for a mentioned `RebalanceTooSoon` with
a remembered entry, and then with the signature of that entry. -/
theorem Submission.caught_cases (s : Submission) (msg : String) :
    (∃ cached, s.cachedWrite = some cached ∧ mentions "RebalanceTooSoon" msg = true ∧
      s.caught msg = .ok cached.lastTxSig) ∨
    ((s.cachedWrite = none ∨ mentions "RebalanceTooSoon" msg = false) ∧
      ∃ e, s.caught msg = .error e) := by
  unfold caught
  cases hc : s.cachedWrite with
  | none =>
    refine Or.inr ⟨Or.inl rfl, ?_⟩
    simp only [Option.filter_none]
    split_ifs <;> exact ⟨_, rfl⟩
  | some cached =>
    cases hm : mentions "RebalanceTooSoon" msg with
    | true => exact Or.inl ⟨cached, rfl, rfl, rfl⟩
    | false =>
      refine Or.inr ⟨Or.inr rfl, ?_⟩
      simp only [Option.filter_some, Bool.false_eq_true, if_false]
      split_ifs <;> exact ⟨_, rfl⟩

section Devnet

open SwigDelegation

/-- Number of a typed error, as Anchor prints it. -/
def errorNumber : SwigDelegationError → String
  | .rebalanceTooSoon => "6000"
  | .slippageTooHigh => "6001"
  | .notImplemented => "6002"
  | .invalidSize => "6003"

/-- Text that Anchor gives to an `execute_rebalance` that the preflight refuses. -/
def anchorErrorText : Rejection → String
  | .custom e => "AnchorError occurred. Error Code: " ++ e.name ++
      (". Error Number: " ++ errorNumber e ++ ". Error Message: " ++ e.msg ++ ".")
  | .anchor _ => "AnchorError caused by account."
  | .panic => "Error: failed to send transaction: Program failed to complete"

/-- Little-endian write of a number into two bytes: out of range throws, a
fraction is cut off and `NaN` is written as zero. -/
def writeUInt16 : JsNumber → Option UInt16
  | .finite value =>
    if 0 ≤ value ∧ value ≤ 65535 then some (UInt16.ofNat value.floor.toNat) else none
  | .infinite _ => none
  | .nan => some 0

theorem writeUInt16_integer (n : ℤ) : writeUInt16 (.finite n) =
    if 0 ≤ n ∧ n ≤ 65535 then some (UInt16.ofNat n.toNat) else none := by
  have hlow : (0 : ℚ) ≤ n ↔ 0 ≤ n := Rat.intCast_le_intCast
  have hhigh : (n : ℚ) ≤ 65535 ↔ n ≤ 65535 := Rat.intCast_le_intCast
  unfold writeUInt16
  simp only [hlow, hhigh, Rat.floor_intCast]

/-- The deployed programs, with the one position of the recorded demo. -/
def devnet : Environment where
  riskPolicyProgramId := some DevnetConfig.riskPolicyProgramId
  swigDelegationProgramId := some DevnetConfig.swigDelegationProgramId
  publicKey text := if text = "DpKAer9JUmzMfyJ3G3k3M7xGHp3WnGrg5Ppv1Uy5a1jB"
    then .ok DevnetConfig.operatorPolicy else .error "Error: Non-base58 character"
  encodeU16 := writeUInt16
  preflightErrorText := anchorErrorText
  refusalText _ := anchorErrorText
  policyErrorText _ := "Error: failed to send transaction"
  encode_integer := writeUInt16_integer
  names_error e := mentions_append "AnchorError occurred. Error Code: " e.name _

/-- The client of the demo scripts, with both windows at their defaults. -/
def demoClient : RealClient :=
  createRealClient ⟨DevnetConfig.guardianAgent, none, none, true, true⟩

/-- An EXIT of the demo position. -/
def demoExit (sizeBps : ℤ) : RebalancePlan :=
  ⟨"DpKAer9JUmzMfyJ3G3k3M7xGHp3WnGrg5Ppv1Uy5a1jB", .exit, .finite sizeBps⟩

end Devnet

end RiskClaw.OnchainClient
