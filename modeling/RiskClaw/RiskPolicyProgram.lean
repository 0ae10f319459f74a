import RiskClaw.AccountStore
import RiskClaw.SolanaRuntime

/-!
# The risk_policy program

Two instructions over the `RiskPolicy` accounts. `init_policy` creates the
account at the address derived from the vault; `update_policy` rewrites the
ciphertext of an existing one. They guard the same account by different
constraint sets: `init` with fresh seeds, and the stored bump with `has_one`.
Clients pass the mutability of accounts as the interface declares it.
-/

namespace RiskClaw.RiskPolicyProgram

open ReactiveMachine AccountStore SolanaRuntime

/-- One encrypted policy, in the order of its serialized fields. -/
structure RiskPolicy where
  /-- The only key that may mutate this policy. -/
  owningMultisigVault : Pubkey
  /-- Inline ciphertext of the threshold. -/
  ciphertextRef : Vector UInt8 64
  /-- Handle of the computation definition, opaque here. -/
  arciumHandle : Vector UInt8 32
  /-- Fold of ciphertext and handle. -/
  policyHash : Vector UInt8 32
  /-- Clock at the last mutation. -/
  updatedAt : Int64
  /-- Reserved for the read-side rate limit. -/
  lastCheckAt : Int64
  /-- Bump of the account's address. -/
  bump : UInt8
  deriving DecidableEq

/-- Content of an account just created by `init`. -/
def RiskPolicy.zeroed : RiskPolicy :=
  ⟨⟨.replicate 32 0⟩, .replicate 64 0, .replicate 32 0, .replicate 32 0, 0, 0, 0⟩

/-- The loop of `recompute_hash`: byte `i` is added by XOR to cell `i % 32`. -/
def foldBytes (bytes : List UInt8) : Vector UInt8 32 :=
  bytes.zipIdx.foldl
    (fun tag entry => tag.set (entry.2 % 32) (tag[entry.2 % 32] ^^^ entry.1))
    (.replicate 32 0)

/-- `RiskPolicy::recompute_hash`: fold the two stored byte fields in a chain. -/
def RiskPolicy.recomputeHash (p : RiskPolicy) : RiskPolicy :=
  { p with policyHash := foldBytes (p.ciphertextRef.toList ++ p.arciumHandle.toList) }

/-- Typed errors; all are reserved for instructions of later versions. -/
inductive RiskClawError where
  /-- Reserved for the threshold check. -/
  | unauthorizedAnalyst
  /-- Reserved for the threshold check. -/
  | checkTooSoon
  /-- Ciphertext of the wrong size. -/
  | invalidCiphertextSize
  deriving DecidableEq

/-- Accounts of `init_policy`. -/
structure InitPolicy where
  /-- Address passed in for the policy. -/
  policy : Pubkey
  /-- The vault, which must sign. -/
  owningMultisigVault : Pubkey
  /-- Payer of the rent, which must sign. -/
  payer : Pubkey
  /-- Address passed in for the system program. -/
  systemProgram : Pubkey

/-- Accounts of `update_policy`. -/
structure UpdatePolicy where
  /-- Address passed in for the policy. -/
  policy : Pubkey
  /-- The vault, which must sign. -/
  owningMultisigVault : Pubkey

/-- Arguments of both instructions. -/
structure PolicyArgs where
  /-- New ciphertext. -/
  ciphertextRef : Vector UInt8 64
  /-- New computation handle. -/
  arciumHandle : Vector UInt8 32

/-- How an instruction of this program can fail. -/
abbrev Rejection := ProgramError RiskClawError

/-- The handler of `init_policy` on the account just created. -/
def InitPolicy.handle (now : Int64) (accounts : InitPolicy) (bump : UInt8) (p : RiskPolicy)
    (args : PolicyArgs) : RiskPolicy :=
  RiskPolicy.recomputeHash
    { p with
      owningMultisigVault := accounts.owningMultisigVault
      ciphertextRef := args.ciphertextRef
      arciumHandle := args.arciumHandle
      updatedAt := now
      lastCheckAt := 0
      bump := bump }

/-- The handler of `update_policy` on the stored account. -/
def UpdatePolicy.handle (now : Int64) (p : RiskPolicy) (args : PolicyArgs) : RiskPolicy :=
  RiskPolicy.recomputeHash
    { p with
      ciphertextRef := args.ciphertextRef
      arciumHandle := args.arciumHandle
      updatedAt := now }

/-- `init_policy` with its constraints: signers, system program, canonical
address, and an address that holds no account yet. -/
def initPolicy (pda : PdaScheme) (existing : Option RiskPolicy)
    (call : Invocation InitPolicy PolicyArgs) : Except Rejection (RiskPolicy × Unit) := do
  require (call.accounts.owningMultisigVault ∈ call.signers) (.anchor .accountNotSigner)
  require (call.accounts.payer ∈ call.signers) (.anchor .accountNotSigner)
  require (call.accounts.systemProgram = systemProgramId) (.anchor .invalidProgramId)
  require (call.accounts.policy = pda.address call.accounts.owningMultisigVault)
    (.anchor .constraintSeeds)
  require (existing = none) (.anchor .accountAlreadyInUse)
  return (InitPolicy.handle call.unixTimestamp call.accounts
    (pda.bump call.accounts.owningMultisigVault) .zeroed call.args, ())

/-- `update_policy` with its constraints: an existing account, the signer, the
seeds with the stored bump, and `has_one`. -/
def updatePolicy (pda : PdaScheme) (existing : Option RiskPolicy)
    (call : Invocation UpdatePolicy PolicyArgs) : Except Rejection (RiskPolicy × Unit) :=
  match existing with
  | none => .error (.anchor .accountNotInitialized)
  | some p => do
    require (call.accounts.owningMultisigVault ∈ call.signers) (.anchor .accountNotSigner)
    require (pda.createProgramAddress call.accounts.owningMultisigVault p.bump =
      some call.accounts.policy) (.anchor .constraintSeeds)
    require (p.owningMultisigVault = call.accounts.owningMultisigVault) (.anchor .constraintHasOne)
    return (UpdatePolicy.handle call.unixTimestamp p call.args, ())

/-- One attempt on the program. -/
inductive Attempt where
  /-- An `init_policy` instruction. -/
  | init (call : Invocation InitPolicy PolicyArgs)
  /-- An `update_policy` instruction. -/
  | update (call : Invocation UpdatePolicy PolicyArgs)

namespace Attempt

/-- The policy address passed in. -/
def policy : Attempt → Pubkey
  | init call => call.accounts.policy
  | update call => call.accounts.policy

/-- The key passed in as the owning vault. -/
def vault : Attempt → Pubkey
  | init call => call.accounts.owningMultisigVault
  | update call => call.accounts.owningMultisigVault

/-- Keys that signed the transaction. -/
def signers : Attempt → List Pubkey
  | init call => call.signers
  | update call => call.signers

/-- The byte pair to be stored. -/
def args : Attempt → PolicyArgs
  | init call => call.args
  | update call => call.args

/-- Clock at execution. -/
def unixTimestamp : Attempt → Int64
  | init call => call.unixTimestamp
  | update call => call.unixTimestamp

end Attempt

/-- Either instruction on the account that it names. -/
def execute (pda : PdaScheme) (existing : Option RiskPolicy) :
    Attempt → Except Rejection (RiskPolicy × Unit)
  | .init call => initPolicy pda existing call
  | .update call => updatePolicy pda existing call

/-- The accounts that the program owns, by address. -/
abbrev Accounts := Pubkey → Option RiskPolicy

/-- The program over its accounts; the runtime reverts a failed transaction. -/
def program (pda : PdaScheme) : CellProgram Pubkey RiskPolicy Attempt Rejection Unit where
  cell := Attempt.policy
  act := execute pda

/-- The stored policy of a vault after a write of the given bytes and clock. -/
def stored (pda : PdaScheme) (vault : Pubkey) (args : PolicyArgs) (clock : Int64) : RiskPolicy where
  owningMultisigVault := vault
  ciphertextRef := args.ciphertextRef
  arciumHandle := args.arciumHandle
  policyHash := foldBytes (args.ciphertextRef.toList ++ args.arciumHandle.toList)
  updatedAt := clock
  lastCheckAt := 0
  bump := pda.bump vault

/-- What `init_policy` accepts, and what it stores. -/
theorem initPolicy_ok_iff {pda : PdaScheme} {existing : Option RiskPolicy}
    {call : Invocation InitPolicy PolicyArgs} {r : RiskPolicy × Unit} :
    initPolicy pda existing call = .ok r ↔
      call.accounts.owningMultisigVault ∈ call.signers ∧ call.accounts.payer ∈ call.signers ∧
        call.accounts.systemProgram = systemProgramId ∧
        call.accounts.policy = pda.address call.accounts.owningMultisigVault ∧ existing = none ∧
        (stored pda call.accounts.owningMultisigVault call.args call.unixTimestamp, ()) = r := by
  unfold initPolicy
  simp only [require_bind_ok_iff, pure, Except.pure, Except.ok.injEq]
  rfl

/-- What `update_policy` accepts, and what it stores. -/
theorem updatePolicy_ok_iff {pda : PdaScheme} {existing : Option RiskPolicy}
    {call : Invocation UpdatePolicy PolicyArgs} {r : RiskPolicy × Unit} :
    updatePolicy pda existing call = .ok r ↔
      ∃ p, existing = some p ∧ call.accounts.owningMultisigVault ∈ call.signers ∧
        pda.createProgramAddress call.accounts.owningMultisigVault p.bump =
          some call.accounts.policy ∧
        p.owningMultisigVault = call.accounts.owningMultisigVault ∧
        (UpdatePolicy.handle call.unixTimestamp p call.args, ()) = r := by
  cases existing with
  | none => simp [updatePolicy]
  | some p =>
    simp only [updatePolicy, require_bind_ok_iff, pure, Except.pure, Except.ok.injEq,
      Option.some.injEq, exists_eq_left']

/-- An update of a stored policy is again a stored policy. -/
theorem handle_stored (pda : PdaScheme) (vault : Pubkey) (old new : PolicyArgs)
    (before now : Int64) :
    UpdatePolicy.handle now (stored pda vault old before) new = stored pda vault new now := rfl

end RiskClaw.RiskPolicyProgram
