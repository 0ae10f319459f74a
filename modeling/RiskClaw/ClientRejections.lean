import RiskClaw.OnchainClient

/-!
# What the client methods reject with

The errors of the package are subclasses of one class and keep the original
error as their cause. Here every method is followed to its end, for every
behaviour of the RPC. Three places let an exception through that is of no such
class: the account lookup before the `try`, the parsing of the position, and
the registry lookup of a zone named like an inherited property. Derivation of
addresses does not fail.
-/

namespace RiskClaw.OnchainClient

open SolanaRuntime

namespace ClientError

/-- `instanceof RiskclawError`. -/
def isRiskclaw : ClientError → Bool
  | untyped _ => false
  | _ => true

/-- The original error that a typed error keeps. -/
def cause : ClientError → Option String
  | notImplemented _ cause => cause
  | slippageRejected _ cause => cause
  | onchainRejection _ cause => cause
  | untyped _ => none

end ClientError

/-- A registered agent. -/
structure AgentRegistryEntry where
  /-- Address of the identity asset. -/
  mint : Pubkey
  /-- Key of the agent. -/
  pubkey : Pubkey
  deriving DecidableEq

/-- Zones that can be registered. -/
inductive AgentZone where
  /-- `"read"`. -/
  | read
  /-- `"compute"`. -/
  | compute
  /-- `"execute"`. -/
  | execute
  deriving DecidableEq

/-- The zone with a given name. -/
def AgentZone.named (name : String) : Option AgentZone :=
  if name = "read" then some read
  else if name = "compute" then some compute
  else if name = "execute" then some execute
  else none

/-- What the client takes from `ids.ts` and from web3.js for agents. -/
structure AgentDirectory where
  /-- Own properties of `AGENT_REGISTRY`. -/
  agentRegistry : AgentZone → Option AgentRegistryEntry
  /-- `toBase58` of a key. -/
  toBase58 : Pubkey → String

/-- Properties that every object literal inherits. -/
def objectPrototype : List String :=
  ["constructor", "__defineGetter__", "__defineSetter__", "hasOwnProperty", "__lookupGetter__",
    "__lookupSetter__", "isPrototypeOf", "propertyIsEnumerable", "toString", "valueOf",
    "__proto__", "toLocaleString"]

/-- What the access `AGENT_REGISTRY[zone]` yields. -/
inductive RegistryValue where
  /-- No property of that name. -/
  | undefined
  /-- An own property. -/
  | entry (entry : AgentRegistryEntry)
  /-- An inherited function or object, which has no `pubkey`. -/
  | inherited

/-- The access `AGENT_REGISTRY[zone]`. -/
def AgentDirectory.access (directory : AgentDirectory) (zone : String) : RegistryValue :=
  match (AgentZone.named zone).bind directory.agentRegistry with
  | some entry => .entry entry
  | none => if zone ∈ objectPrototype then .inherited else .undefined

/-- The agent that a caller expects. -/
structure AgentConfig where
  /-- Name of its zone; nothing restricts it at run time. -/
  zone : String
  /-- Its key. -/
  publicKey : Pubkey

/-- `registerAgent`. -/
def registerAgent (directory : AgentDirectory) (agent : AgentConfig) : Except ClientError Pubkey :=
  match directory.access agent.zone with
  | .undefined =>
    .error (.onchainRejection
      ("no registered agent for zone=\"" ++ agent.zone ++ "\" — run scripts/register-agents.ts")
      none)
  | .inherited =>
    .error (.untyped "TypeError: Cannot read properties of undefined (reading 'equals')")
  | .entry entry =>
    if entry.pubkey ≠ agent.publicKey then
      .error (.onchainRejection
        ("zone=\"" ++ agent.zone ++ "\" pubkey mismatch: registry has " ++
          directory.toBase58 entry.pubkey ++ ", caller passed " ++
          directory.toBase58 agent.publicKey ++ " — caller config is stale") none)
    else .ok entry.mint

/-- `delegateToGuardian`, which reads none of its arguments. -/
def delegateToGuardian : Except ClientError TxSig :=
  .error (.notImplemented "delegateToGuardian — Pkg-19 (Q2 spike: Swig SDK API)" none)

end RiskClaw.OnchainClient

namespace RiskClaw.ClientRejections

open SolanaRuntime OnchainClient

/-- How the RPC behaves during one call; errors are given by their text. -/
structure RpcBehaviour where
  /-- `getAccountInfo`: whether there is an account. -/
  accountInfo : Except String Bool
  /-- Encoding, sending and confirming a transaction. -/
  transaction : Except String TxSig

/-- One call of a method, with the behaviour of the RPC where it is used. -/
inductive Request where
  /-- `setEncryptedPolicy`. -/
  | setEncryptedPolicy (multisig : Pubkey) (ciphertext : List UInt8) (rpc : RpcBehaviour)
  /-- `delegateToGuardian`. -/
  | delegateToGuardian (multisig guardian : Pubkey)
  /-- `checkThresholdBreach`. -/
  | checkThresholdBreach (positionId : String) (metrics : PositionMetrics)
  /-- `executePrivateRebalance`; an argument that cannot be encoded fails with
  the given text. -/
  | executePrivateRebalance (plan : RebalancePlan) (encoderError : String) (rpc : RpcBehaviour)
  /-- `registerAgent`. -/
  | registerAgent (agent : AgentConfig)

/-- What a method resolves with. -/
inductive Value where
  /-- A signature. -/
  | signature (sig : TxSig)
  /-- The answer of a threshold check. -/
  | check (result : ThresholdCheckResult)
  /-- The address of an identity asset. -/
  | mint (mint : Pubkey)
  deriving DecidableEq

/-- How a call ends, and the error that the RPC, the encoder or the program
raised during the call. -/
structure Outcome where
  /-- What the method resolves or rejects with. -/
  result : Except ClientError Value
  /-- The underlying error. -/
  raised : Option String

variable (env : Environment) (directory : AgentDirectory) (client : RealClient)

/-- `setEncryptedPolicy` to its end. -/
def endOfSetEncryptedPolicy (ciphertext : List UInt8) (rpc : RpcBehaviour) : Outcome :=
  match setEncryptedPolicy env client ciphertext with
  | .error e => ⟨.error e, none⟩
  | .ok _ =>
    -- The lookup is awaited before the `try`.
    match rpc.accountInfo with
    | .error text => ⟨.error (.untyped text), some text⟩
    | .ok existed =>
      match rpc.transaction with
      | .ok sig => ⟨.ok (.signature sig), none⟩
      | .error text =>
        ⟨.error (.onchainRejection
          ("setEncryptedPolicy " ++ (if existed then "update" else "init") ++ " failed")
          (some text)), some text⟩

/-- What the `try` of `executePrivateRebalance` meets. -/
def submit (s : Submission) (encoderError : String) (rpc : RpcBehaviour) : Except String TxSig :=
  if s.sizeBps.isSome then rpc.transaction else .error encoderError

/-- `executePrivateRebalance` to its end. -/
def endOfExecutePrivateRebalance (now : ℤ) (caches : Caches) (plan : RebalancePlan)
    (encoderError : String) (rpc : RpcBehaviour) : Outcome :=
  match executePrivateRebalance env client now caches plan with
  | .threw e => ⟨.error e, none⟩
  | .answered sig => ⟨.ok (.signature sig), none⟩
  | .submitted s =>
    match submit s encoderError rpc with
    | .ok sig => ⟨.ok (.signature sig), none⟩
    | .error text => ⟨(s.caught text).map .signature, some text⟩

/-- Any method on a client with any caches, at any client time. -/
def respond (now : ℤ) (caches : Caches) : Request → Outcome
  | .setEncryptedPolicy _ ciphertext rpc => endOfSetEncryptedPolicy env client ciphertext rpc
  | .delegateToGuardian _ _ => ⟨delegateToGuardian.map .signature, none⟩
  | .checkThresholdBreach positionId metrics =>
    ⟨.ok (.check (checkThresholdBreach client now caches positionId metrics).2), none⟩
  | .executePrivateRebalance plan encoderError rpc =>
    endOfExecutePrivateRebalance env client now caches plan encoderError rpc
  | .registerAgent agent => ⟨(registerAgent directory agent).map .mint, none⟩

/-- The method resolves, or rejects with a typed error that keeps the
underlying one. -/
def Typed (o : Outcome) : Prop :=
  ∀ e, o.result = .error e → e.isRiskclaw = true ∧ ∀ text, o.raised = some text →
    e.cause = some text

/-- The account lookup succeeds if it is reached, the position is a key if it
is parsed, and the zone is not the name of an inherited property. -/
def Covered : Request → Prop
  | .setEncryptedPolicy _ ciphertext rpc =>
    client.riskPolicy = true → env.riskPolicyProgramId ≠ none → ciphertext.length = 64 →
      ∃ existed, rpc.accountInfo = .ok existed
  | .executePrivateRebalance plan _ _ =>
    plan.action = .exit → client.swigDelegation = true → env.swigDelegationProgramId ≠ none →
      ∃ key, env.publicKey plan.positionId = .ok key
  | .registerAgent agent => agent.zone ∉ objectPrototype
  | .delegateToGuardian _ _ => True
  | .checkThresholdBreach _ _ => True

variable {env directory client}

theorem Typed.resolved {v : Value} {raised : Option String} : Typed ⟨.ok v, raised⟩ :=
  fun _ h => nomatch h

theorem not_typed_untyped {text : String} {raised : Option String} :
    ¬Typed ⟨.error (.untyped text), raised⟩ := fun h => nomatch (h _ rfl).1

theorem Typed.rejected {e : ClientError} (h : e.isRiskclaw = true) : Typed ⟨.error e, none⟩ := by
  intro e' he
  cases he
  exact ⟨h, fun _ ht => nomatch ht⟩

theorem Typed.wrapped {e : ClientError} {text : String} (h : e.isRiskclaw = true)
    (hcause : e.cause = some text) : Typed ⟨.error e, some text⟩ := by
  intro e' he
  cases he
  refine ⟨h, fun t ht => ?_⟩
  cases ht
  exact hcause

/-- The method is refused with a typed error of its own, or it passes its
checks and reaches the account lookup. -/
theorem setEncryptedPolicy_cases (env : Environment) (client : RealClient)
    (ciphertext : List UInt8) :
    (¬(client.riskPolicy = true ∧ env.riskPolicyProgramId ≠ none ∧ ciphertext.length = 64) ∧
      ∃ e, setEncryptedPolicy env client ciphertext = .error e ∧ e.isRiskclaw = true) ∨
    (client.riskPolicy = true ∧ env.riskPolicyProgramId ≠ none ∧ ciphertext.length = 64 ∧
      ∃ args, setEncryptedPolicy env client ciphertext = .ok args) := by
  unfold setEncryptedPolicy
  by_cases hready : client.riskPolicy = false ∨ env.riskPolicyProgramId = none
  · rw [if_pos hready]
    refine Or.inl ⟨fun h => ?_, _, rfl, rfl⟩
    rcases hready with hidl | hid
    · exact nomatch hidl.symm.trans h.1
    · exact h.2.1 hid
  · rw [if_neg hready]
    obtain ⟨hidl, hid⟩ := not_or.mp hready
    by_cases hlen : ciphertext.length = 64
    · rw [dif_pos hlen]
      exact Or.inr ⟨Bool.eq_true_of_not_eq_false hidl, hid, hlen, _, rfl⟩
    · rw [dif_neg hlen]
      exact Or.inl ⟨fun h => hlen h.2.2, _, rfl, rfl⟩

/-- The method is refused with a typed error of its own, or it passes its
checks and parses the position: what fails there is thrown as it is, and what
succeeds is answered or submitted. -/
theorem executePrivateRebalance_checked (env : Environment) (client : RealClient) (now : ℤ)
    (caches : Caches) (plan : RebalancePlan) :
    (¬(plan.action = .exit ∧ client.swigDelegation = true ∧ env.swigDelegationProgramId ≠ none) ∧
      ∃ e, executePrivateRebalance env client now caches plan = .threw e ∧
        e.isRiskclaw = true) ∨
    (plan.action = .exit ∧ client.swigDelegation = true ∧ env.swigDelegationProgramId ≠ none ∧
      ((∃ text, env.publicKey plan.positionId = .error text ∧
          executePrivateRebalance env client now caches plan = .threw (.untyped text)) ∨
        ∃ key, env.publicKey plan.positionId = .ok key ∧
          ((∃ sig, executePrivateRebalance env client now caches plan = .answered sig) ∨
            ∃ s, executePrivateRebalance env client now caches plan = .submitted s))) := by
  unfold executePrivateRebalance
  by_cases hexit : plan.action = .exit
  · have hships : ¬(plan.action = .reduce ∨ plan.action = .hedge) := by simp [hexit]
    rw [if_neg hships]
    by_cases hready : client.swigDelegation = false ∨ env.swigDelegationProgramId = none
    · rw [if_pos hready]
      refine Or.inl ⟨fun h => ?_, _, rfl, rfl⟩
      rcases hready with hidl | hid
      · exact nomatch hidl.symm.trans h.2.1
      · exact h.2.2 hid
    · obtain ⟨hidl, hid⟩ := not_or.mp hready
      rw [if_neg hready]
      refine Or.inr ⟨hexit, Bool.eq_true_of_not_eq_false hidl, hid, ?_⟩
      cases hkey : env.publicKey plan.positionId with
      | error text => exact Or.inl ⟨text, rfl, rfl⟩
      | ok key =>
        refine Or.inr ⟨key, rfl, ?_⟩
        dsimp only
        split
        · exact Or.inl ⟨_, rfl⟩
        · exact Or.inr ⟨_, rfl⟩
  · refine Or.inl ⟨fun h => hexit h.1, ?_⟩
    cases haction : plan.action with
    | exit => exact absurd haction hexit
    | reduce => exact ⟨_, if_pos (Or.inl rfl), rfl⟩
    | hedge => exact ⟨_, if_pos (Or.inr rfl), rfl⟩

/-- The `catch` branch wraps every error in a typed one, or answers. -/
theorem caught_typed (s : Submission) (msg : String) :
    Typed ⟨(s.caught msg).map .signature, some msg⟩ := by
  unfold Submission.caught
  split
  · exact Typed.resolved
  · split_ifs
    · exact Typed.wrapped rfl rfl
    · exact Typed.wrapped rfl rfl
    · exact Typed.wrapped rfl rfl

theorem setEncryptedPolicy_typed_iff {multisig : Pubkey} {ciphertext : List UInt8}
    {rpc : RpcBehaviour} :
    Typed (endOfSetEncryptedPolicy env client ciphertext rpc) ↔
      Covered env client (.setEncryptedPolicy multisig ciphertext rpc) := by
  unfold endOfSetEncryptedPolicy Covered
  rcases setEncryptedPolicy_cases env client ciphertext with
    ⟨hrefused, e, he, htyped⟩ | ⟨hidl, hid, hlen, args, hargs⟩
  · rw [he]
    exact iff_of_true (Typed.rejected htyped) fun hidl hid hlen => absurd ⟨hidl, hid, hlen⟩ hrefused
  · rw [hargs]
    cases hinfo : rpc.accountInfo with
    | error text =>
      refine iff_of_false not_typed_untyped fun h => ?_
      obtain ⟨existed, hok⟩ := h hidl hid hlen
      exact nomatch hinfo.symm.trans hok
    | ok existed =>
      refine iff_of_true ?_ fun _ _ _ => ⟨existed, hinfo⟩
      cases rpc.transaction with
      | ok sig => exact Typed.resolved
      | error text => exact Typed.wrapped rfl rfl

theorem executePrivateRebalance_typed_iff {now : ℤ} {caches : Caches} {plan : RebalancePlan}
    {encoderError : String} {rpc : RpcBehaviour} :
    Typed (endOfExecutePrivateRebalance env client now caches plan encoderError rpc) ↔
      Covered env client (.executePrivateRebalance plan encoderError rpc) := by
  unfold endOfExecutePrivateRebalance Covered
  rcases executePrivateRebalance_checked env client now caches plan with
    ⟨hrefused, e, he, htyped⟩ |
      ⟨hexit, hidl, hid, ⟨text, hkey, hs⟩ | ⟨key, hkey, ⟨sig, hs⟩ | ⟨s, hs⟩⟩⟩
  · rw [he]
    exact iff_of_true (Typed.rejected htyped)
      fun hexit hidl hid => absurd ⟨hexit, hidl, hid⟩ hrefused
  · rw [hs]
    refine iff_of_false not_typed_untyped fun h => ?_
    obtain ⟨key, hok⟩ := h hexit hidl hid
    exact nomatch hkey.symm.trans hok
  · rw [hs]
    exact iff_of_true Typed.resolved fun _ _ _ => ⟨key, hkey⟩
  · rw [hs]
    refine iff_of_true ?_ fun _ _ _ => ⟨key, hkey⟩
    dsimp only
    cases submit s encoderError rpc with
    | ok sig => exact Typed.resolved
    | error text => exact caught_typed s text

/-- No zone has the name of an inherited property. -/
theorem named_not_inherited {name : String} {zone : AgentZone}
    (h : AgentZone.named name = some zone) : name ∉ objectPrototype := by
  unfold AgentZone.named at h
  split_ifs at h with hread hcompute hexecute
  · rw [hread]
    decide
  · rw [hcompute]
    decide
  · rw [hexecute]
    decide

/-- The registry lookup yields an inherited value exactly on its name. -/
theorem access_cases (directory : AgentDirectory) (name : String) :
    (name ∈ objectPrototype ∧ directory.access name = .inherited) ∨
    (name ∉ objectPrototype ∧ (directory.access name = .undefined ∨
      ∃ entry, directory.access name = .entry entry)) := by
  unfold AgentDirectory.access
  cases hentry : (AgentZone.named name).bind directory.agentRegistry with
  | some entry =>
    obtain ⟨zone, hzone, -⟩ := Option.bind_eq_some_iff.mp hentry
    exact Or.inr ⟨named_not_inherited hzone, Or.inr ⟨entry, rfl⟩⟩
  | none =>
    by_cases hname : name ∈ objectPrototype
    · exact Or.inl ⟨hname, if_pos hname⟩
    · exact Or.inr ⟨hname, Or.inl (if_neg hname)⟩

theorem registerAgent_typed_iff {agent : AgentConfig} :
    Typed ⟨(registerAgent directory agent).map .mint, none⟩ ↔
      Covered env client (.registerAgent agent) := by
  unfold registerAgent Covered
  rcases access_cases directory agent.zone with
    ⟨hname, hvalue⟩ | ⟨hname, hvalue | ⟨entry, hvalue⟩⟩
  · rw [hvalue]
    exact iff_of_false not_typed_untyped (not_not.mpr hname)
  · rw [hvalue]
    exact iff_of_true (Typed.rejected rfl) hname
  · rw [hvalue]
    refine iff_of_true ?_ hname
    dsimp only
    split_ifs
    · exact Typed.rejected rfl
    · exact Typed.resolved

/-- For every configuration, argument, cache state and behaviour of the RPC a
method resolves or rejects with a typed error that keeps the underlying one if
and only if the call is covered. -/
theorem rejections_typed_iff (env : Environment) (directory : AgentDirectory)
    (client : RealClient) (now : ℤ) (caches : Caches) (request : Request) :
    Typed (respond env directory client now caches request) ↔ Covered env client request := by
  cases request with
  | setEncryptedPolicy multisig ciphertext rpc => exact setEncryptedPolicy_typed_iff
  | delegateToGuardian multisig guardian => exact iff_of_true (Typed.rejected rfl) trivial
  | checkThresholdBreach positionId metrics => exact iff_of_true Typed.resolved trivial
  | executePrivateRebalance plan encoderError rpc => exact executePrivateRebalance_typed_iff
  | registerAgent agent => exact registerAgent_typed_iff

/-- A directory before any agent is registered. -/
def demoDirectory : AgentDirectory where
  agentRegistry _ := none
  toBase58 _ := ""

/-- An RPC that is down. -/
def rpcDown : RpcBehaviour := ⟨.error "TypeError: fetch failed", .error "TypeError: fetch failed"⟩

/-- Three calls that reject with an exception of no typed class: a policy write
while the account lookup fails, a rebalance of a position that is no key, and
an agent whose zone is called like an inherited property. -/
theorem untyped_rejections :
    (respond devnet demoDirectory demoClient 0 .empty
      (.setEncryptedPolicy DevnetConfig.guardianAgent (List.replicate 64 0) rpcDown)).result =
        .error (.untyped "TypeError: fetch failed") ∧
    (respond devnet demoDirectory demoClient 0 .empty
      (.executePrivateRebalance ⟨"pos-1", .exit, .finite 10000⟩ "" rpcDown)).result =
        .error (.untyped "Error: Non-base58 character") ∧
    (respond devnet demoDirectory demoClient 0 .empty
      (.registerAgent ⟨"constructor", DevnetConfig.guardianAgent⟩)).result =
        .error (.untyped "TypeError: Cannot read properties of undefined (reading 'equals')") ∧
    ∀ text raised, ¬Typed ⟨.error (.untyped text), raised⟩ :=
  ⟨rfl, rfl, rfl, fun _ _ => not_typed_untyped⟩

end RiskClaw.ClientRejections
