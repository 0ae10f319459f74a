import RiskClaw.SerializedCells
import RiskClaw.AccountLayout

/-!
# Instructions and accounts as bytes

A program gets the bytes of an instruction with the keys of its accounts. The
first eight bytes choose the instruction, the arguments and the accounts follow
in declared order, and more bytes and more accounts are passed over. Accounts and
events are written with their own discriminators. The discriminators are those
of the interface descriptions.
-/

namespace RiskClaw.WireFormat

open FixedFormats SolanaRuntime RiskPolicyProgram AccountLayout
open SwigDelegation (LastRebalanced RebalanceAction RebalanceExecutedEvent ExecuteRebalance
  ExecuteRebalanceArgs)

/-- A raw instruction with the runtime's data. -/
structure RawInstruction where
  /-- `instruction.data`. -/
  data : List UInt8
  /-- Keys of the accounts passed in. -/
  accounts : List Pubkey
  /-- Keys that signed the transaction. -/
  signers : List Pubkey
  /-- `Clock::get()?.unix_timestamp`. -/
  unixTimestamp : Int64

/-- How the entry of a program can refuse a raw instruction. -/
inductive EntryError where
  /-- No instruction has this discriminator. -/
  | instructionFallbackNotFound
  /-- The arguments cannot be read. -/
  | instructionDidNotDeserialize
  /-- There are too few accounts. -/
  | accountNotEnoughKeys
  deriving DecidableEq

section Formats

/-- `Pubkey`. -/
def pubkey : Format Pubkey :=
  (Format.bytes 32).equiv ⟨Pubkey.bytes, Pubkey.mk, fun _ => rfl, fun _ => rfl⟩

/-- `u16`. -/
def u16 : Format UInt16 :=
  (Format.number 2).equiv
    ⟨fun n => ⟨n.toNat, n.toNat_lt⟩, fun n => UInt16.ofNat n, fun _ => UInt16.ofNat_toNat,
      fun n => Fin.ext (UInt16.toNat_ofNat_of_lt' n.isLt)⟩

/-- `u64`. -/
def u64 : Format UInt64 :=
  (Format.number 8).equiv
    ⟨fun n => ⟨n.toNat, n.toNat_lt⟩, fun n => UInt64.ofNat n, fun _ => UInt64.ofNat_toNat,
      fun n => Fin.ext (UInt64.toNat_ofNat_of_lt' n.isLt)⟩

/-- `i64`, in two's complement. -/
def i64 : Format Int64 :=
  u64.equiv ⟨Int64.toUInt64, UInt64.toInt64, fun _ => rfl, fun _ => rfl⟩

/-- The tag of a `RebalanceAction`. -/
def actionTag : RebalanceAction → UInt8
  | .reduce => 0
  | .exit => 1
  | .hedge => 2

/-- The action of a tag. -/
def actionOf (tag : UInt8) : Option RebalanceAction :=
  if tag = 0 then some .reduce
  else if tag = 1 then some .exit
  else if tag = 2 then some .hedge
  else none

theorem actionOf_eq_some {tag : UInt8} {action : RebalanceAction} :
    actionOf tag = some action ↔ tag = actionTag action := by
  unfold actionOf
  constructor
  · intro h
    split_ifs at h with hreduce hexit hhedge
    · cases h
      exact hreduce
    · cases h
      exact hexit
    · cases h
      exact hhedge
  · rintro rfl
    cases action <;> rfl

/-- `RebalanceAction`. -/
def rebalanceAction : Format RebalanceAction :=
  Format.byte.via actionTag actionOf actionOf_eq_some

/-- The fields of a `RiskPolicy`. -/
def policyFields : RiskPolicy ≃ Pubkey × Vector UInt8 64 × Vector UInt8 32 × Vector UInt8 32 ×
    Int64 × Int64 × UInt8 where
  toFun p := (p.owningMultisigVault, p.ciphertextRef, p.arciumHandle, p.policyHash, p.updatedAt,
    p.lastCheckAt, p.bump)
  invFun t := ⟨t.1, t.2.1, t.2.2.1, t.2.2.2.1, t.2.2.2.2.1, t.2.2.2.2.2.1, t.2.2.2.2.2.2⟩
  left_inv _ := rfl
  right_inv _ := rfl

/-- A `RiskPolicy` account. -/
def riskPolicyAccount : Format RiskPolicy :=
  ((pubkey.pair ((Format.bytes 64).pair ((Format.bytes 32).pair ((Format.bytes 32).pair
    (i64.pair (i64.pair Format.byte)))))).equiv policyFields).tagged riskPolicyDiscriminator

/-- A `LastRebalanced` account. -/
def lastRebalancedAccount : Format LastRebalanced :=
  ((i64.pair Format.byte).equiv ⟨fun lr => (lr.timestamp, lr.bump), fun t => ⟨t.1, t.2⟩,
    fun _ => rfl, fun _ => rfl⟩).tagged lastRebalancedDiscriminator

/-- The arguments of `init_policy` and `update_policy`. -/
def policyArgs : Format PolicyArgs :=
  ((Format.bytes 64).pair (Format.bytes 32)).equiv
    ⟨fun args => (args.ciphertextRef, args.arciumHandle), fun t => ⟨t.1, t.2⟩, fun _ => rfl,
      fun _ => rfl⟩

/-- The arguments of `execute_rebalance`, in declared order. -/
def rebalanceFields : ExecuteRebalanceArgs ≃ Pubkey × RebalanceAction × UInt16 × UInt16 × UInt64 ×
    UInt64 where
  toFun args := (args.policyKey, args.action, args.sizeBps, args.maxSlippageBps, args.expectedOut,
    args.minOut)
  invFun t := ⟨t.1, t.2.1, t.2.2.1, t.2.2.2.1, t.2.2.2.2.1, t.2.2.2.2.2⟩
  left_inv _ := rfl
  right_inv _ := rfl

/-- The arguments of `execute_rebalance`. -/
def rebalanceArgs : Format ExecuteRebalanceArgs :=
  (pubkey.pair (rebalanceAction.pair (u16.pair (u16.pair (u64.pair u64))))).equiv rebalanceFields

/-- Discriminator of a `RebalanceExecutedEvent`. -/
def eventDiscriminator : List UInt8 := [114, 34, 215, 49, 130, 101, 33, 2]

/-- A `RebalanceExecutedEvent`, as it is logged. -/
def rebalanceExecutedEvent : Format RebalanceExecutedEvent :=
  ((pubkey.pair (pubkey.pair (rebalanceAction.pair (u16.pair i64)))).equiv
    ⟨fun e => (e.policy, e.guardianAuthority, e.action, e.sizeBps, e.ts),
      fun t => ⟨t.1, t.2.1, t.2.2.1, t.2.2.2.1, t.2.2.2.2⟩, fun _ => rfl,
      fun _ => rfl⟩).tagged eventDiscriminator

theorem riskPolicyAccount_write (p : RiskPolicy) : riskPolicyAccount.write p = policyData p := by
  have hfields : riskPolicyAccount.write p = riskPolicyDiscriminator ++
      (p.owningMultisigVault.bytes.toList ++ (p.ciphertextRef.toList ++ (p.arciumHandle.toList ++
        (p.policyHash.toList ++ (borshI64 p.updatedAt ++ (borshI64 p.lastCheckAt ++
          [p.bump])))))) := rfl
  rw [hfields, policyData]
  simp only [List.append_assoc]

theorem lastRebalancedAccount_write (lr : LastRebalanced) :
    lastRebalancedAccount.write lr = lastRebalancedData lr := by
  have hfields : lastRebalancedAccount.write lr =
      lastRebalancedDiscriminator ++ (borshI64 lr.timestamp ++ [lr.bump]) := rfl
  rw [hfields, lastRebalancedData, List.append_assoc]

end Formats

section Entries

/-- Discriminator of `init_policy`. -/
def initPolicyDiscriminator : List UInt8 := [45, 234, 110, 100, 209, 146, 191, 86]

/-- Discriminator of `update_policy`. -/
def updatePolicyDiscriminator : List UInt8 := [212, 245, 246, 7, 163, 151, 18, 57]

/-- Discriminator of `execute_rebalance`. -/
def executeRebalanceDiscriminator : List UInt8 := [36, 232, 110, 192, 96, 226, 100, 120]

/-- The arguments behind the discriminator. -/
def arguments {α : Type} (f : Format α) (data : List UInt8) : Except EntryError α :=
  match f.read (data.drop 8) with
  | none => .error .instructionDidNotDeserialize
  | some r => .ok r.1

/-- The accounts of `init_policy`. -/
def initPolicyAccounts : List Pubkey → Except EntryError InitPolicy
  | policy :: vault :: payer :: system :: _ => .ok ⟨policy, vault, payer, system⟩
  | _ => .error .accountNotEnoughKeys

/-- The accounts of `update_policy`. -/
def updatePolicyAccounts : List Pubkey → Except EntryError UpdatePolicy
  | policy :: vault :: _ => .ok ⟨policy, vault⟩
  | _ => .error .accountNotEnoughKeys

/-- The accounts of `execute_rebalance`. -/
def executeRebalanceAccounts : List Pubkey → Except EntryError ExecuteRebalance
  | policy :: lastRebalanced :: guardian :: system :: _ =>
    .ok ⟨policy, lastRebalanced, guardian, system⟩
  | _ => .error .accountNotEnoughKeys

/-- An instruction whose arguments and accounts are read. -/
def invocation {α β : Type} (f : Format β) (accounts : List Pubkey → Except EntryError α)
    (t : RawInstruction) : Except EntryError (Invocation α β) := do
  let args ← arguments f t.data
  let a ← accounts t.accounts
  return ⟨a, args, t.signers, t.unixTimestamp⟩

/-- The entry of `risk_policy`. -/
def riskPolicyEntry (t : RawInstruction) : Except EntryError Attempt :=
  if initPolicyDiscriminator <+: t.data then
    (invocation policyArgs initPolicyAccounts t).map .init
  else if updatePolicyDiscriminator <+: t.data then
    (invocation policyArgs updatePolicyAccounts t).map .update
  else .error .instructionFallbackNotFound

/-- The entry of `swig_delegation`. -/
def swigDelegationEntry (t : RawInstruction) : Except EntryError SwigDelegation.Call :=
  if executeRebalanceDiscriminator <+: t.data then
    invocation rebalanceArgs executeRebalanceAccounts t
  else .error .instructionFallbackNotFound

/-- The bytes that clients send for an attempt. -/
def attemptData : Attempt → List UInt8
  | .init call => initPolicyDiscriminator ++ policyArgs.write call.args
  | .update call => updatePolicyDiscriminator ++ policyArgs.write call.args

/-- The keys that clients pass for an attempt. -/
def attemptKeys : Attempt → List Pubkey
  | .init call => [call.accounts.policy, call.accounts.owningMultisigVault, call.accounts.payer,
      call.accounts.systemProgram]
  | .update call => [call.accounts.policy, call.accounts.owningMultisigVault]

/-- The bytes that clients send for a call. -/
def callData (call : SwigDelegation.Call) : List UInt8 :=
  executeRebalanceDiscriminator ++ rebalanceArgs.write call.args

/-- The keys that clients pass for a call. -/
def callKeys (call : SwigDelegation.Call) : List Pubkey :=
  [call.accounts.policy, call.accounts.lastRebalanced, call.accounts.guardianAuthority,
    call.accounts.systemProgram]

/-- Arguments are read exactly when they are written behind the discriminator. -/
theorem arguments_ok {α : Type} {f : Format α} {discriminator data : List UInt8} {args : α}
    (hlength : discriminator.length = 8) :
    discriminator <+: data ∧ arguments f data = .ok args ↔
      ∃ rest, data = discriminator ++ f.write args ++ rest := by
  constructor
  · rintro ⟨⟨behind, rfl⟩, h⟩
    unfold arguments at h
    rw [List.drop_left' hlength] at h
    cases hread : f.read behind with
    | none =>
      rw [hread] at h
      cases h
    | some r =>
      rw [hread] at h
      cases h
      exact ⟨r.2, by rw [List.append_assoc, ← f.read_iff.mp hread]⟩
  · rintro ⟨rest, rfl⟩
    rw [List.append_assoc]
    refine ⟨List.prefix_append _ _, ?_⟩
    rw [arguments, List.drop_left' hlength, f.read_write]

theorem initPolicyAccounts_ok {keys : List Pubkey} {a : InitPolicy} :
    initPolicyAccounts keys = .ok a ↔
      ∃ more, keys = [a.policy, a.owningMultisigVault, a.payer, a.systemProgram] ++ more := by
  constructor
  · intro h
    unfold initPolicyAccounts at h
    split at h
    · cases h
      exact ⟨_, rfl⟩
    · cases h
  · rintro ⟨more, rfl⟩
    rfl

theorem updatePolicyAccounts_ok {keys : List Pubkey} {a : UpdatePolicy} :
    updatePolicyAccounts keys = .ok a ↔
      ∃ more, keys = [a.policy, a.owningMultisigVault] ++ more := by
  constructor
  · intro h
    unfold updatePolicyAccounts at h
    split at h
    · cases h
      exact ⟨_, rfl⟩
    · cases h
  · rintro ⟨more, rfl⟩
    rfl

theorem executeRebalanceAccounts_ok {keys : List Pubkey} {a : ExecuteRebalance} :
    executeRebalanceAccounts keys = .ok a ↔
      ∃ more,
        keys = [a.policy, a.lastRebalanced, a.guardianAuthority, a.systemProgram] ++ more := by
  constructor
  · intro h
    unfold executeRebalanceAccounts at h
    split at h
    · cases h
      exact ⟨_, rfl⟩
    · cases h
  · rintro ⟨more, rfl⟩
    rfl

/-- What an instruction is read from. -/
theorem invocation_ok {α β : Type} {f : Format β} {accounts : List Pubkey → Except EntryError α}
    {t : RawInstruction} {call : Invocation α β} :
    invocation f accounts t = .ok call ↔
      arguments f t.data = .ok call.args ∧ accounts t.accounts = .ok call.accounts ∧
        t.signers = call.signers ∧ t.unixTimestamp = call.unixTimestamp := by
  unfold invocation
  cases hargs : arguments f t.data with
  | error e => simp [error_bind]
  | ok args =>
    cases haccounts : accounts t.accounts with
    | error e => simp [ok_bind]
    | ok a =>
      constructor
      · intro h
        cases h
        exact ⟨rfl, rfl, rfl, rfl⟩
      · rintro ⟨hargs', haccounts', hsigners, hclock⟩
        cases hargs'
        cases haccounts'
        rw [hsigners, hclock]
        rfl

/-- What an instruction behind its discriminator is read from. -/
theorem entry_ok {α β : Type} {f : Format β} {accounts : List Pubkey → Except EntryError α}
    {keys : α → List Pubkey}
    (haccounts : ∀ {ks a}, accounts ks = .ok a ↔ ∃ more, ks = keys a ++ more)
    {discriminator : List UInt8} (hlength : discriminator.length = 8) {t : RawInstruction}
    {call : Invocation α β} :
    discriminator <+: t.data ∧ invocation f accounts t = .ok call ↔
      ∃ rest more, t.data = discriminator ++ f.write call.args ++ rest ∧
        t.accounts = keys call.accounts ++ more ∧ t.signers = call.signers ∧
        t.unixTimestamp = call.unixTimestamp := by
  rw [invocation_ok, haccounts, ← and_assoc, arguments_ok hlength]
  constructor
  · rintro ⟨⟨rest, hdata⟩, ⟨more, hkeys⟩, hsigners, hclock⟩
    exact ⟨rest, more, hdata, hkeys, hsigners, hclock⟩
  · rintro ⟨rest, more, hdata, hkeys, hsigners, hclock⟩
    exact ⟨⟨rest, hdata⟩, ⟨more, hkeys⟩, hsigners, hclock⟩

/-- No data begins with both discriminators of `risk_policy`. -/
theorem not_init_of_update {data : List UInt8} (h : updatePolicyDiscriminator <+: data) :
    ¬initPolicyDiscriminator <+: data := by
  rintro ⟨behind, rfl⟩
  obtain ⟨behind', h⟩ := h
  have hfirst : some (212 : UInt8) = some 45 := congrArg List.head? h
  exact absurd hfirst (by decide)

theorem map_ok_iff {ε α β : Type} {x : Except ε α} {g : α → β} {b : β} :
    x.map g = .ok b ↔ ∃ a, x = .ok a ∧ g a = b := by
  cases x with
  | error e => simp [Except.map]
  | ok a => simp [Except.map]

/-- Exactly the bytes and keys that clients send for an attempt, with anything behind
them, are taken for it. -/
theorem riskPolicyEntry_ok {t : RawInstruction} {a : Attempt} :
    riskPolicyEntry t = .ok a ↔
      ∃ rest more, t.data = attemptData a ++ rest ∧ t.accounts = attemptKeys a ++ more ∧
        t.signers = a.signers ∧ t.unixTimestamp = a.unixTimestamp := by
  unfold riskPolicyEntry
  cases a with
  | init call =>
    have hentry : initPolicyDiscriminator <+: t.data ∧
        invocation policyArgs initPolicyAccounts t = .ok call ↔ ∃ rest more,
          t.data = attemptData (.init call) ++ rest ∧
          t.accounts = attemptKeys (.init call) ++ more ∧
          t.signers = call.signers ∧ t.unixTimestamp = call.unixTimestamp :=
      entry_ok initPolicyAccounts_ok rfl
    refine Iff.trans ?_ hentry
    by_cases hinit : initPolicyDiscriminator <+: t.data
    · rw [if_pos hinit, map_ok_iff, and_iff_right hinit]
      simp
    · rw [if_neg hinit]
      split_ifs
      · simp [map_ok_iff, hinit]
      · simp [hinit]
  | update call =>
    have hentry : updatePolicyDiscriminator <+: t.data ∧
        invocation policyArgs updatePolicyAccounts t = .ok call ↔ ∃ rest more,
          t.data = attemptData (.update call) ++ rest ∧
          t.accounts = attemptKeys (.update call) ++ more ∧
          t.signers = call.signers ∧ t.unixTimestamp = call.unixTimestamp :=
      entry_ok updatePolicyAccounts_ok rfl
    refine Iff.trans ?_ hentry
    by_cases hupdate : updatePolicyDiscriminator <+: t.data
    · rw [if_neg (not_init_of_update hupdate), if_pos hupdate, map_ok_iff, and_iff_right hupdate]
      simp
    · rw [if_neg hupdate]
      split_ifs
      · simp [map_ok_iff, hupdate]
      · simp [hupdate]

theorem swigDelegationEntry_ok {t : RawInstruction} {call : SwigDelegation.Call} :
    swigDelegationEntry t = .ok call ↔
      ∃ rest more, t.data = callData call ++ rest ∧ t.accounts = callKeys call ++ more ∧
        t.signers = call.signers ∧ t.unixTimestamp = call.unixTimestamp := by
  have hentry : executeRebalanceDiscriminator <+: t.data ∧
      invocation rebalanceArgs executeRebalanceAccounts t = .ok call ↔ ∃ rest more,
        t.data = callData call ++ rest ∧ t.accounts = callKeys call ++ more ∧
        t.signers = call.signers ∧ t.unixTimestamp = call.unixTimestamp :=
    entry_ok executeRebalanceAccounts_ok rfl
  refine Iff.trans ?_ hentry
  unfold swigDelegationEntry
  by_cases hexecute : executeRebalanceDiscriminator <+: t.data
  · rw [if_pos hexecute, and_iff_right hexecute]
  · rw [if_neg hexecute]
    simp [hexecute]

/-- Each program takes a raw instruction for exactly the one whose bytes and keys it begins
with, whatever follows them, and no two instructions look alike. -/
theorem instructions_read_back (t : RawInstruction) :
    (∀ a, riskPolicyEntry t = .ok a ↔
      ∃ rest more, t.data = attemptData a ++ rest ∧ t.accounts = attemptKeys a ++ more ∧
        t.signers = a.signers ∧ t.unixTimestamp = a.unixTimestamp) ∧
    (∀ call, swigDelegationEntry t = .ok call ↔
      ∃ rest more, t.data = callData call ++ rest ∧ t.accounts = callKeys call ++ more ∧
        t.signers = call.signers ∧ t.unixTimestamp = call.unixTimestamp) ∧
    (∀ a b : Attempt, attemptData a = attemptData b → attemptKeys a = attemptKeys b →
      a.signers = b.signers → a.unixTimestamp = b.unixTimestamp → a = b) ∧
    ∀ c d : SwigDelegation.Call, callData c = callData d → callKeys c = callKeys d →
      c.signers = d.signers → c.unixTimestamp = d.unixTimestamp → c = d := by
  refine ⟨fun a => riskPolicyEntry_ok, fun call => swigDelegationEntry_ok, ?_, ?_⟩
  · intro a b hdata hkeys hsigners hclock
    have ha : riskPolicyEntry ⟨attemptData a, attemptKeys a, a.signers, a.unixTimestamp⟩ = .ok a :=
      riskPolicyEntry_ok.mpr ⟨[], [], (List.append_nil _).symm, (List.append_nil _).symm, rfl, rfl⟩
    have hb : riskPolicyEntry ⟨attemptData a, attemptKeys a, a.signers, a.unixTimestamp⟩ = .ok b :=
      riskPolicyEntry_ok.mpr ⟨[], [], by simp [hdata], by simp [hkeys], hsigners, hclock⟩
    exact Except.ok.inj (ha.symm.trans hb)
  · intro c d hdata hkeys hsigners hclock
    have hc : swigDelegationEntry ⟨callData c, callKeys c, c.signers, c.unixTimestamp⟩ = .ok c :=
      swigDelegationEntry_ok.mpr
        ⟨[], [], (List.append_nil _).symm, (List.append_nil _).symm, rfl, rfl⟩
    have hd : swigDelegationEntry ⟨callData c, callKeys c, c.signers, c.unixTimestamp⟩ = .ok d :=
      swigDelegationEntry_ok.mpr ⟨[], [], by simp [hdata], by simp [hkeys], hsigners, hclock⟩
    exact Except.ok.inj (hc.symm.trans hd)

end Entries

end RiskClaw.WireFormat
