import Mathlib.Data.Vector.Basic
import Mathlib.Logic.Equiv.Basic

/-!
# What both programs use of the Solana runtime and of Anchor

Addresses, machine integers with their checked and saturating operations,
program-derived addresses, the framework's own rejections and the data that
reaches a handler. Address derivation is not part of the repository: it is a
parameter with the documented laws of the runtime. Payers are assumed funded,
so lamports are not modelled.
-/

namespace RiskClaw.SolanaRuntime

/-- A 32-byte account address. -/
structure Pubkey where
  /-- The address as raw bytes. -/
  bytes : Vector UInt8 32
  deriving DecidableEq

/-- Address of the system program, `11111111111111111111111111111111`. -/
def systemProgramId : Pubkey := ⟨Vector.replicate 32 0⟩

/-- `i64::saturating_sub`: the exact difference clamped to the i64 range. -/
def saturatingSub (a b : Int64) : Int64 :=
  Int64.ofInt (max (-2 ^ 63) (min (2 ^ 63 - 1) (a.toInt - b.toInt)))

theorem saturatingSub_toInt (a b : Int64) :
    (saturatingSub a b).toInt = max (-2 ^ 63) (min (2 ^ 63 - 1) (a.toInt - b.toInt)) := by
  unfold saturatingSub
  rw [Int64.toInt_ofInt_of_le] <;> omega

/-- A u128 value; its bound is part of the type. -/
abbrev U128 := Fin (2 ^ 128)

/-- `u64 as u128`. -/
def U128.ofUInt64 (n : UInt64) : U128 := ⟨n.toNat, by have h := n.toNat_lt; omega⟩

/-- `u16 as u128`. -/
def U128.ofUInt16 (n : UInt16) : U128 := ⟨n.toNat, by have h := n.toNat_lt; omega⟩

/-- Checked u128 product: with overflow checks on, an overflow aborts. -/
def U128.mul (a b : U128) : Option U128 :=
  if h : a.val * b.val < 2 ^ 128 then some ⟨a.val * b.val, h⟩ else none

/-- Checked u128 difference: with overflow checks on, an underflow aborts. -/
def U128.sub (a b : U128) : Option U128 :=
  if b.val ≤ a.val then some ⟨a.val - b.val, by omega⟩ else none

/-- Rejections raised by the framework before a handler runs. -/
inductive AnchorError where
  /-- A `Signer` account did not sign the transaction. -/
  | accountNotSigner
  /-- A `Program` account is not the expected program. -/
  | invalidProgramId
  /-- The address passed in is not the one derived from the seeds. -/
  | constraintSeeds
  /-- A `has_one` field differs from the account passed in. -/
  | constraintHasOne
  /-- No initialised account of this program at the address. -/
  | accountNotInitialized
  /-- `init` on an address that already holds an account. -/
  | accountAlreadyInUse
  deriving DecidableEq

/-- How an instruction of a program with error type `ε` can fail. -/
inductive ProgramError (ε : Type) where
  /-- An account constraint of the framework. -/
  | anchor (error : AnchorError)
  /-- A typed error of the program. -/
  | custom (error : ε)
  /-- An arithmetic abort, which carries no typed error. -/
  | panic
  deriving DecidableEq

/-- `require!`: fail with the given error unless the condition holds. -/
def require {ε : Type} (condition : Prop) [Decidable condition] (error : ε) : Except ε Unit :=
  if condition then .ok () else .error error

/-- Checked arithmetic inside a handler: no value means the handler aborts. -/
def checked {α ε : Type} : Option α → Except (ProgramError ε) α
  | some a => .ok a
  | none => .error .panic

@[simp] theorem checked_some {α ε : Type} (a : α) :
    (checked (some a) : Except (ProgramError ε) α) = .ok a := rfl

theorem error_bind {ε α β : Type} (e : ε) (f : α → Except ε β) :
    (Except.error e >>= f) = .error e := rfl

theorem ok_bind {ε α β : Type} (a : α) (f : α → Except ε β) : (Except.ok a >>= f) = f a := rfl

theorem require_pos {ε : Type} {c : Prop} [Decidable c] (h : c) (e : ε) :
    require c e = .ok () := if_pos h

theorem require_neg {ε : Type} {c : Prop} [Decidable c] (h : ¬c) (e : ε) :
    require c e = .error e := if_neg h

/-- A guarded continuation runs only when the guard holds. -/
theorem require_bind {ε β : Type} (c : Prop) [Decidable c] (e : ε) (f : Unit → Except ε β) :
    require c e >>= f = if c then f () else .error e := by
  by_cases h : c
  · rw [require_pos h, if_pos h]
    rfl
  · rw [require_neg h, if_neg h]
    rfl

/-- A guarded continuation succeeds exactly when the guard holds and the
continuation succeeds. -/
theorem require_bind_ok_iff {ε β : Type} {c : Prop} [Decidable c] {e : ε}
    {f : Unit → Except ε β} {b : β} : require c e >>= f = .ok b ↔ c ∧ f () = .ok b := by
  rw [require_bind]
  by_cases h : c <;> simp [h]

/-- Addresses derived from one constant seed, one 32-byte key and a bump, for
one program. The two laws are what the runtime documents. -/
structure PdaScheme where
  /-- `Pubkey::create_program_address` with an explicit bump. -/
  createProgramAddress : Pubkey → UInt8 → Option Pubkey
  /-- `Pubkey::find_program_address`: the address with its canonical bump. -/
  findProgramAddress : Pubkey → Pubkey × UInt8
  /-- The address found is the one created with the bump found. -/
  find_create : ∀ key,
    createProgramAddress key (findProgramAddress key).2 = some (findProgramAddress key).1
  /-- Derivation is collision-free. -/
  collision_free : ∀ key bump key' bump' address,
    createProgramAddress key bump = some address →
      createProgramAddress key' bump' = some address → key = key' ∧ bump = bump'

namespace PdaScheme

variable (pda : PdaScheme)

/-- The address that the client libraries and a bare `bump` constraint derive. -/
def address (key : Pubkey) : Pubkey := (pda.findProgramAddress key).1

/-- The canonical bump of that address. -/
def bump (key : Pubkey) : UInt8 := (pda.findProgramAddress key).2

theorem create_bump (key : Pubkey) :
    pda.createProgramAddress key (pda.bump key) = some (pda.address key) := pda.find_create key

theorem address_injective {key key' : Pubkey} (h : pda.address key = pda.address key') :
    key = key' :=
  (pda.collision_free _ _ _ _ _ (pda.create_bump key) (h ▸ pda.create_bump key')).1

/-- A scheme with one known derivation, `key ↦ (target, canonical)`. It lets
runs on known addresses be evaluated; the other keys are only permuted. -/
def ofDerivation (key target : Pubkey) (canonical : UInt8) : PdaScheme where
  createProgramAddress k b := if b = canonical then some (Equiv.swap key target k) else none
  findProgramAddress k := (Equiv.swap key target k, canonical)
  find_create _ := if_pos rfl
  collision_free k b k' b' a h h' := by
    split_ifs at h h' with hb hb'
    have he := (Option.some.inj h).trans (Option.some.inj h').symm
    exact ⟨(Equiv.swap key target).injective he, hb.trans hb'.symm⟩

end PdaScheme

/-- One instruction as the runtime hands it to a program: the accounts passed
in, the decoded arguments, the keys whose signatures were verified and the
`Clock` sysvar at execution. -/
structure Invocation (α β : Type) where
  /-- Accounts in the order of the `Accounts` structure. -/
  accounts : α
  /-- Borsh-decoded instruction arguments. -/
  args : β
  /-- Keys that signed the transaction. -/
  signers : List Pubkey
  /-- `Clock::get()?.unix_timestamp`. -/
  unixTimestamp : Int64

end RiskClaw.SolanaRuntime
