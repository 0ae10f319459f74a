import RiskClaw.DevnetConfig
import RiskClaw.RiskPolicyProgram

/-!
# The policy book, and who can write in it

Abstractly the program keeps a book: for every vault, the last accepted write
or nothing. The accounts represent the book exactly, with one account per
vault at the vault's derived address. From this follow the representation
invariant of every reachable account and the control of a policy by its vault
alone, compared over two arbitrary runs.
-/

namespace RiskClaw.RiskPolicyControl

open ReactiveMachine AccountStore SolanaRuntime RiskPolicyProgram

/-- One accepted write: the bytes and the clock. -/
structure PolicyWrite where
  /-- The stored byte pair. -/
  args : PolicyArgs
  /-- Clock of the write. -/
  clock : Int64

/-- The last accepted write of every vault. -/
abbrev Book := Pubkey → Option PolicyWrite

/-- What an attempt writes when it is accepted. -/
def write (a : Attempt) : PolicyWrite := ⟨a.args, a.unixTimestamp⟩

variable (pda : PdaScheme)

/-- The accounts hold the book: each written vault at its own derived address
with the bytes, clock, hash and bump of its last write, and nothing else. -/
def Represents (book : Book) (s : Accounts) : Prop :=
  ∀ address p, s address = some p ↔ ∃ vault w, book vault = some w ∧
    address = pda.address vault ∧ p = stored pda vault w.args w.clock

variable {pda}

/-- An accepted attempt comes from its signing vault, names the vault's own
address and stores its bytes there. -/
theorem Represents.accepted {book : Book} {s : Accounts} (h : Represents pda book s)
    {a : Attempt} {r : RiskPolicy × Unit} (ha : execute pda (s a.policy) a = .ok r) :
    a.vault ∈ a.signers ∧ a.policy = pda.address a.vault ∧
      r = (stored pda a.vault a.args a.unixTimestamp, ()) := by
  cases a with
  | init call =>
    obtain ⟨hsig, -, -, haddr, -, rfl⟩ := initPolicy_ok_iff.mp ha
    exact ⟨hsig, haddr, rfl⟩
  | update call =>
    obtain ⟨p, hp, hsig, -, howner, rfl⟩ := updatePolicy_ok_iff.mp ha
    obtain ⟨vault, w, -, haddr, rfl⟩ := (h _ _).mp hp
    change vault = call.accounts.owningMultisigVault at howner
    subst howner
    exact ⟨hsig, haddr, by rw [handle_stored]; rfl⟩

/-- Recording a write in the book is storing it at the vault's address. -/
theorem Represents.record {book : Book} {s : Accounts} (h : Represents pda book s)
    (vault : Pubkey) (w : PolicyWrite) :
    Represents pda (Function.update book vault (some w))
      (Function.update s (pda.address vault) (some (stored pda vault w.args w.clock))) := by
  intro address p
  by_cases hk : address = pda.address vault
  · subst hk
    rw [Function.update_self, Option.some.injEq]
    constructor
    · rintro rfl
      exact ⟨vault, w, Function.update_self _ _ _, rfl, rfl⟩
    · rintro ⟨vault', w', hb, he, rfl⟩
      cases pda.address_injective he
      rw [Function.update_self] at hb
      cases hb
      rfl
  · rw [Function.update_of_ne hk, h address p]
    constructor
    · rintro ⟨vault', w', hb, rfl, rfl⟩
      refine ⟨vault', w', ?_, rfl, rfl⟩
      rwa [Function.update_of_ne fun hv => hk (congrArg pda.address hv)]
    · rintro ⟨vault', w', hb, rfl, rfl⟩
      refine ⟨vault', w', ?_, rfl, rfl⟩
      rwa [Function.update_of_ne fun hv => hk (congrArg pda.address hv)] at hb

/-- The accounts follow the book through every attempt: an accepted one is
recorded for its vault, a refused one leaves no trace. -/
theorem Represents.step_cases {book : Book} {s : Accounts} (h : Represents pda book s)
    (a : Attempt) :
    (a.vault ∈ a.signers ∧ a.policy = pda.address a.vault ∧
      (program pda).step s a = (Function.update s (pda.address a.vault)
        (some (stored pda a.vault a.args a.unixTimestamp)), .ok ()) ∧
      Represents pda (Function.update book a.vault (some (write a))) ((program pda).step s a).1) ∨
    ∃ e, (program pda).step s a = (s, .error e) := by
  rcases (program pda).step_cases s a with ⟨e, -, hs⟩ | ⟨v, o, ha, hs⟩
  · exact Or.inr ⟨e, hs⟩
  · obtain ⟨hsig, haddr, hr⟩ := h.accepted ha
    cases hr
    change _ = (Function.update s a.policy _, _) at hs
    rw [haddr] at hs
    refine Or.inl ⟨hsig, haddr, hs, ?_⟩
    rw [hs]
    exact h.record a.vault (write a)

/-- After any attempt the accounts again hold some book. -/
theorem Represents.step {s : Accounts} (h : ∃ book, Represents pda book s) (a : Attempt) :
    ∃ book, Represents pda book ((program pda).step s a).1 := by
  obtain ⟨book, h⟩ := h
  rcases h.step_cases a with ⟨-, -, -, hnext⟩ | ⟨e, hs⟩
  · exact ⟨_, hnext⟩
  · rw [hs]
    exact ⟨book, h⟩

/-- An executed attempt with its surroundings. -/
abbrev AttemptTransition := Transition Accounts Attempt (Except Rejection Unit)

/-- The last accepted attempt of a vault in a history. -/
def lastAccepted (vault : Pubkey) (history : List AttemptTransition) : Option Attempt :=
  ((history.filter fun t => t.output.isOk && t.input.vault = vault).getLast?).map
    Transition.input

/-- The book that a history has written. -/
def bookOf (history : List AttemptTransition) : Book :=
  fun vault => (lastAccepted vault history).map write

theorem bookOf_ok (history : List AttemptTransition) {t : AttemptTransition}
    (ht : t.output = .ok ()) :
    bookOf (history ++ [t]) =
      Function.update (bookOf history) t.input.vault (some (write t.input)) := by
  funext vault
  by_cases hv : t.input.vault = vault
  · subst hv
    rw [Function.update_self]
    simp [bookOf, lastAccepted, List.filter_append, ht, Except.isOk, Except.toBool]
  · rw [Function.update_of_ne (Ne.symm hv)]
    simp [bookOf, lastAccepted, List.filter_append, hv]

theorem bookOf_error (history : List AttemptTransition) {t : AttemptTransition} {e : Rejection}
    (ht : t.output = .error e) : bookOf (history ++ [t]) = bookOf history := by
  funext vault
  simp [bookOf, lastAccepted, List.filter_append, ht, Except.isOk, Except.toBool]

/-- Executed attempts of a run from the empty store. -/
def historyOf (pda : PdaScheme) (attempts : List Attempt) : List AttemptTransition :=
  (program pda).machine.trace (fun _ => none) attempts

/-- Accounts after a run from the empty store. -/
def accountsAfter (pda : PdaScheme) (attempts : List Attempt) : Accounts :=
  (program pda).machine.run (fun _ => none) attempts

/-- After every run the accounts represent the book of the run. -/
theorem represents_run (pda : PdaScheme) (attempts : List Attempt) :
    Represents pda (bookOf (historyOf pda attempts)) (accountsAfter pda attempts) := by
  refine (program pda).machine.history_induction (A := fun _ => True)
    (P := fun h s => Represents pda (bookOf h) s) ?_ ?_ fun _ _ => trivial
  · intro address p
    simp [bookOf, lastAccepted]
  · intro h s a _ hr
    rw [CellProgram.machine_step]
    rcases hr.step_cases a with ⟨-, -, hs, hnext⟩ | ⟨e, hs⟩
    · have ht : ((program pda).machine.transition s a).output = .ok () := congrArg Prod.snd hs
      rw [bookOf_ok h ht]
      exact hnext
    · have ht : ((program pda).machine.transition s a).output = .error e := congrArg Prod.snd hs
      rw [bookOf_error h ht, hs]
      exact hr

/-- An attempt never changes the vault or the bump of an existing account. -/
theorem run_keeps_identity {book : Book} {s : Accounts} (h : Represents pda book s)
    {address : Pubkey} {p : RiskPolicy} (hp : s address = some p) (attempts : List Attempt) :
    ∃ p', (program pda).machine.run s attempts address = some p' ∧
      p'.owningMultisigVault = p.owningMultisigVault ∧ p'.bump = p.bump := by
  induction attempts generalizing book s p with
  | nil => exact ⟨p, hp, rfl, rfl⟩
  | cons a attempts ih =>
    rw [Machine.run_cons, CellProgram.machine_step]
    rcases h.step_cases a with ⟨-, -, hs, hnext⟩ | ⟨e, hs⟩
    · obtain ⟨vault, w, -, rfl, rfl⟩ := (h _ _).mp hp
      by_cases hv : a.vault = vault
      · subst hv
        refine ih hnext (p := stored pda a.vault a.args a.unixTimestamp) ?_
        rw [hs]
        exact Function.update_self _ _ _
      · refine ih hnext ?_
        rw [hs]
        exact (Function.update_of_ne (fun he => hv (pda.address_injective he).symm) _ _).trans hp
    · rw [hs]
      exact ih h hp

/-- In every reachable state each policy account sits at the derived address of
its vault with the canonical bump, holds the pair, the clock and the hash of
the last accepted instruction for that vault, and has never been checked; its
vault and bump never change, and no vault has two accounts. -/
theorem policy_accounts_well_formed (pda : PdaScheme) (attempts : List Attempt) :
    (∀ address p, accountsAfter pda attempts address = some p →
      address = pda.address p.owningMultisigVault ∧
      pda.createProgramAddress p.owningMultisigVault p.bump = some address ∧
      (∃ a, lastAccepted p.owningMultisigVault (historyOf pda attempts) = some a ∧
        p.ciphertextRef = a.args.ciphertextRef ∧ p.arciumHandle = a.args.arciumHandle ∧
        p.updatedAt = a.unixTimestamp) ∧
      p.policyHash = foldBytes (p.ciphertextRef.toList ++ p.arciumHandle.toList) ∧
      p.lastCheckAt = 0) ∧
    (∀ before after, attempts = before ++ after →
      ∀ address p, accountsAfter pda before address = some p →
        ∃ p', accountsAfter pda attempts address = some p' ∧
          p'.owningMultisigVault = p.owningMultisigVault ∧ p'.bump = p.bump) ∧
    (∀ address address' p p', accountsAfter pda attempts address = some p →
      accountsAfter pda attempts address' = some p' →
      p.owningMultisigVault = p'.owningMultisigVault → address = address') := by
  have h := represents_run pda attempts
  refine ⟨?_, ?_, ?_⟩
  · intro address p hp
    obtain ⟨vault, w, hb, rfl, rfl⟩ := (h address p).mp hp
    obtain ⟨a, ha, rfl⟩ := Option.map_eq_some_iff.mp hb
    exact ⟨rfl, pda.create_bump vault, ⟨a, ha, rfl, rfl, rfl⟩, rfl, rfl⟩
  · rintro before after rfl address p hp
    obtain ⟨p', hp', hid⟩ := run_keeps_identity (represents_run pda before) hp after
    refine ⟨p', ?_, hid⟩
    rw [accountsAfter, Machine.run_append]
    exact hp'
  · intro address address' p p' hp hp' hv
    obtain ⟨vault, w, -, rfl, rfl⟩ := (h address p).mp hp
    obtain ⟨vault', w', -, rfl, rfl⟩ := (h address' p').mp hp'
    exact congrArg pda.address hv

section Control

/-- The vault's own signature stands in the slot that the program checks. -/
def signedBy (vault : Pubkey) (a : Attempt) : Bool := a.vault = vault ∧ vault ∈ a.signers

/-- An attempt that the vault did not sign leaves the vault's policy alone. -/
theorem step_not_signed {book : Book} {s : Accounts} (h : Represents pda book s)
    {vault : Pubkey} {a : Attempt} (ha : signedBy vault a = false) :
    ((program pda).step s a).1 (pda.address vault) = s (pda.address vault) := by
  rcases h.step_cases a with ⟨hsig, -, hs, -⟩ | ⟨e, hs⟩
  · rw [hs]
    refine Function.update_of_ne (fun he => ?_) _ _
    have hv := (pda.address_injective he).symm
    rw [signedBy, decide_eq_false_iff_not] at ha
    exact ha ⟨hv, hv ▸ hsig⟩
  · rw [hs]

/-- An attempt in the vault's name is decided by the vault's account alone: on
any other address it is refused. -/
theorem step_signed {book book' : Book} {s t : Accounts} (hs : Represents pda book s)
    (ht : Represents pda book' t) {vault : Pubkey} {a : Attempt} (ha : a.vault = vault)
    (hv : s (pda.address vault) = t (pda.address vault)) :
    ((program pda).step s a).1 (pda.address vault) =
        ((program pda).step t a).1 (pda.address vault) ∧
      ((program pda).step s a).2.isOk = ((program pda).step t a).2.isOk := by
  subst ha
  by_cases hc : a.policy = pda.address a.vault
  · have hcell : (program pda).cell a = pda.address a.vault := hc
    rw [← hcell] at hv ⊢
    have hl := (program pda).step_local hv
    exact ⟨hl.1, congrArg _ hl.2⟩
  · have hrefused : ∀ {b : Book} {r : Accounts}, Represents pda b r →
        ∃ e, (program pda).step r a = (r, .error e) := by
      intro b r hr
      rcases hr.step_cases a with ⟨-, haddr, -⟩ | h
      · exact absurd haddr hc
      · exact h
    obtain ⟨e, he⟩ := hrefused hs
    obtain ⟨e', he'⟩ := hrefused ht
    rw [he, he']
    exact ⟨hv, rfl⟩

/-- Seen from the vault's policy, attempts that the vault did not sign are
invisible. -/
theorem vault_unwinding (pda : PdaScheme) (vault : Pubkey) :
    (program pda).machine.Unwinding (fun s => ∃ book, Represents pda book s)
      (fun s => s (pda.address vault)) (signedBy vault) (fun _ o => o.isOk) where
  invariant _ a h := Represents.step h a
  respects _ _ := fun ⟨_, h⟩ ha => step_not_signed h ha
  consistent _ _ _ := fun ⟨_, hs⟩ ⟨_, ht⟩ hv ha =>
    step_signed hs ht (of_decide_eq_true ha).1 hv

/-- Two runs that contain the same attempts signed by a vault, at the same
clocks, leave the vault's policy in the same state and accept the same of these
attempts; no other attempt of a run changes a byte of that policy. -/
theorem vault_controls_policy (pda : PdaScheme) (vault : Pubkey) (left right : List Attempt)
    (hsame : left.filter (signedBy vault) = right.filter (signedBy vault)) :
    accountsAfter pda left (pda.address vault) = accountsAfter pda right (pda.address vault) ∧
    (program pda).machine.observed (signedBy vault) (fun _ o => o.isOk) (fun _ => none) left =
      (program pda).machine.observed (signedBy vault) (fun _ o => o.isOk) (fun _ => none) right ∧
    ∀ t ∈ historyOf pda left, signedBy vault t.input = false →
      t.post (pda.address vault) = t.pre (pda.address vault) := by
  have hempty : ∃ book, Represents pda book fun _ => none := ⟨_, represents_run pda []⟩
  obtain ⟨hview, hobs⟩ := (vault_unwinding pda vault).same_view hempty hempty rfl hsame
  refine ⟨hview, hobs, ?_⟩
  intro t ht hsig
  obtain ⟨before, a, after, -, rfl⟩ := (program pda).machine.mem_trace_iff.mp ht
  exact step_not_signed (represents_run pda before) hsig

/-- Ciphertext of a single repeated byte. -/
def demoArgs (byte : UInt8) : PolicyArgs := ⟨.replicate 64 byte, .replicate 32 0⟩

/-- An `init_policy` attempt on the operator's policy with any signer. -/
def demoInit (signer : Pubkey) (byte : UInt8) : Attempt :=
  .init ⟨⟨DevnetConfig.operatorPolicy, DevnetConfig.operatorWallet, signer, systemProgramId⟩,
    demoArgs byte, [signer], 100⟩

/-- An `update_policy` attempt on the operator's policy under any vault. -/
def demoUpdate (vault : Pubkey) (byte : UInt8) : Attempt :=
  .update ⟨⟨DevnetConfig.operatorPolicy, vault⟩, demoArgs byte, [vault], 200⟩

/-- The rule on a run in which the observer's key tries to create the operator's
policy, to update it under its own signature and to create it again. -/
theorem vault_controls_policy_demo :
    accountsAfter DevnetConfig.policyPda
      [demoInit DevnetConfig.observerAgent 9, demoInit DevnetConfig.operatorWallet 1,
        demoUpdate DevnetConfig.observerAgent 9, demoInit DevnetConfig.observerAgent 9,
        demoUpdate DevnetConfig.operatorWallet 2]
      (DevnetConfig.policyPda.address DevnetConfig.operatorWallet) =
    accountsAfter DevnetConfig.policyPda
      [demoInit DevnetConfig.operatorWallet 1, demoUpdate DevnetConfig.operatorWallet 2]
      (DevnetConfig.policyPda.address DevnetConfig.operatorWallet) :=
  (vault_controls_policy DevnetConfig.policyPda DevnetConfig.operatorWallet
    [demoInit DevnetConfig.observerAgent 9, demoInit DevnetConfig.operatorWallet 1,
      demoUpdate DevnetConfig.observerAgent 9, demoInit DevnetConfig.observerAgent 9,
      demoUpdate DevnetConfig.operatorWallet 2]
    [demoInit DevnetConfig.operatorWallet 1, demoUpdate DevnetConfig.operatorWallet 2]
    rfl).1

end Control

end RiskClaw.RiskPolicyControl
