import RiskClaw.OnchainClient
import RiskClaw.RiskPolicyControl

/-!
# Overlapping writes of one policy

`setEncryptedPolicy` looks whether the policy account exists and then submits
an update or a creation. Other calls may fall between the look and the landing
of the transaction, so that two calls can both try to create the account. The
calls are those of one client for its own wallet as the vault; attempts without
the vault's signature may come at any time. What the look sees is whether there
is a policy: nobody funds the address of one that does not exist. No two calls
under way carry the same transaction.
-/

namespace RiskClaw.PolicyWrites

open ReactiveMachine AccountStore SolanaRuntime RiskPolicyProgram RiskPolicyControl OnchainClient

/-- A call that has made its existence check. -/
structure PolicyCall where
  /-- The byte pair to be stored. -/
  args : PolicyArgs
  /-- What the existence check saw. -/
  existed : Bool
  /-- What the chain made of the transaction, once executed. -/
  landed : Option (Except Rejection Unit)
  /-- Whether the continuation has run. -/
  returned : Bool

/-- The program's accounts, the chain's clock and the calls. -/
structure Ledger where
  /-- Accounts of `risk_policy`. -/
  accounts : Accounts
  /-- The chain's clock. -/
  clock : Int64
  /-- The calls by number. -/
  calls : ℕ → Option PolicyCall

/-- One step of a call, of the chain or of somebody else. -/
inductive PolicyAction where
  /-- The chain's clock is read anew. -/
  | clock (clock : Int64)
  /-- `setEncryptedPolicy`, up to the answer to its existence check. -/
  | check (call : ℕ) (ciphertext : List UInt8)
  /-- The chain executes the transaction of a call. -/
  | land (call : ℕ)
  /-- The continuation of a call runs. -/
  | settle (call : ℕ)
  /-- An attempt that the vault did not sign. -/
  | foreign (attempt : Attempt)

/-- What is seen of a step. -/
inductive PolicyAnswer where
  /-- Nothing. -/
  | idle
  /-- A call has made its existence check. -/
  | checked (call : ℕ)
  /-- The transaction of a call was executed. -/
  | landed (call : ℕ) (result : Except Rejection Unit)
  /-- A call returned. -/
  | returned (outcome : Except ClientError TxSig)

/-- Record the state of a call. -/
def Ledger.track (w : Ledger) (i : ℕ) (c : PolicyCall) : Ledger :=
  { w with calls := Function.update w.calls i (some c) }

variable (pda : PdaScheme) (env : Environment) (client : RealClient)

/-- The address of the client's own policy. -/
def ownPolicy : Pubkey := pda.address client.wallet

/-- The accounts and the verdict when the chain executes the transaction of a call. -/
def executed (w : Ledger) (args : PolicyArgs) (existed : Bool) : Accounts × Except Rejection Unit :=
  (program pda).step w.accounts (policyAttempt pda client client.wallet existed args w.clock)

/-- One step. A call number is used once, a transaction is executed at most
once and a continuation runs at most once. -/
def step (w : Ledger) : PolicyAction → Ledger × PolicyAnswer
  | .clock clock => ({ w with clock := clock }, .idle)
  | .check i ciphertext =>
    match w.calls i with
    | some _ => (w, .idle)
    | none =>
      match setEncryptedPolicy env client ciphertext with
      | .error e => (w, .returned (.error e))
      | .ok args =>
        (w.track i ⟨args, (w.accounts (ownPolicy pda client)).isSome, none, false⟩, .checked i)
  | .land i =>
    match w.calls i with
    | some ⟨args, existed, none, returned⟩ =>
      let r := executed pda client w args existed
      ({ w.track i ⟨args, existed, some r.2, returned⟩ with accounts := r.1 }, .landed i r.2)
    | _ => (w, .idle)
  | .settle i =>
    match w.calls i with
    | some ⟨args, existed, some r, false⟩ =>
      (w.track i ⟨args, existed, some r, true⟩, .returned (policyOutcome env existed i r))
    | _ => (w, .idle)
  | .foreign a =>
    if signedBy client.wallet a then (w, .idle)
    else ({ w with accounts := ((program pda).step w.accounts a).1 }, .idle)

/-- The machine of the calls. -/
def writes : Machine Ledger PolicyAction PolicyAnswer := ⟨step pda env client⟩

/-- Everything a step can do. -/
inductive PolicyEffect (w : Ledger) : PolicyAction → Ledger → PolicyAnswer → Prop where
  /-- An impossible step. -/
  | idle (a : PolicyAction) : PolicyEffect w a w .idle
  /-- A clock reading. -/
  | clock (clock : Int64) : PolicyEffect w (.clock clock) { w with clock := clock } .idle
  /-- A call rejects before its existence check. -/
  | threw (i : ℕ) (ciphertext : List UInt8) (e : ClientError) :
    PolicyEffect w (.check i ciphertext) w (.returned (.error e))
  /-- A call makes its existence check. -/
  | checked (i : ℕ) (ciphertext : List UInt8) (args : PolicyArgs) (hnew : w.calls i = none) :
    PolicyEffect w (.check i ciphertext)
      (w.track i ⟨args, (w.accounts (ownPolicy pda client)).isSome, none, false⟩) (.checked i)
  /-- The chain executes a transaction. -/
  | landed (i : ℕ) (c : PolicyCall) (hc : w.calls i = some c) (hopen : c.landed = none) :
    PolicyEffect w (.land i)
      { w.track i { c with landed := some (executed pda client w c.args c.existed).2 } with
        accounts := (executed pda client w c.args c.existed).1 }
      (.landed i (executed pda client w c.args c.existed).2)
  /-- A call returns. -/
  | settled (i : ℕ) (c : PolicyCall) (r : Except Rejection Unit) (hc : w.calls i = some c)
    (hr : c.landed = some r) :
    PolicyEffect w (.settle i) (w.track i { c with returned := true })
      (.returned (policyOutcome env c.existed i r))
  /-- The chain executes an attempt that the vault did not sign. -/
  | foreign (a : Attempt) (ha : signedBy client.wallet a = false) :
    PolicyEffect w (.foreign a) { w with accounts := ((program pda).step w.accounts a).1 } .idle

/-- Every step has one of the listed effects. -/
theorem step_effect (w : Ledger) (a : PolicyAction) :
    PolicyEffect pda env client w a (step pda env client w a).1 (step pda env client w a).2 := by
  cases a with
  | clock clock => exact .clock clock
  | check i ciphertext =>
    cases hc : w.calls i with
    | some c => simpa only [step, hc] using PolicyEffect.idle _
    | none =>
      cases hset : setEncryptedPolicy env client ciphertext with
      | error e => simpa only [step, hc, hset] using PolicyEffect.threw i ciphertext e
      | ok args => simpa only [step, hc, hset] using PolicyEffect.checked i ciphertext args hc
  | land i =>
    rcases hc : w.calls i with - | ⟨args, existed, - | r, returned⟩
    · simpa only [step, hc] using PolicyEffect.idle _
    · simpa only [step, hc] using PolicyEffect.landed i _ hc rfl
    · simpa only [step, hc] using PolicyEffect.idle _
  | settle i =>
    rcases hc : w.calls i with - | ⟨args, existed, - | r, - | -⟩
    · simpa only [step, hc] using PolicyEffect.idle _
    · simpa only [step, hc] using PolicyEffect.idle _
    · simpa only [step, hc] using PolicyEffect.idle _
    · simpa only [step, hc] using PolicyEffect.settled i _ r hc rfl
    · simpa only [step, hc] using PolicyEffect.idle _
  | foreign a =>
    cases ha : signedBy client.wallet a with
    | true => simpa only [step, ha, if_true] using PolicyEffect.idle _
    | false =>
      simpa only [step, ha, Bool.false_eq_true, if_false] using PolicyEffect.foreign a ha

section Execution

variable {pda client}

/-- The submitted attempt is accepted exactly when the existence check still
tells the truth. -/
theorem executed_ok_iff {w : Ledger} (h : ∃ book, Represents pda book w.accounts)
    (args : PolicyArgs) (existed : Bool) :
    (executed pda client w args existed).2 = .ok () ↔
      (w.accounts (ownPolicy pda client)).isSome = existed := by
  obtain ⟨book, h⟩ := h
  unfold executed
  cases existed with
  | false =>
    rw [Option.isSome_eq_false_iff, Option.isNone_iff_eq_none]
    constructor
    · intro hok
      obtain ⟨v, ha, -⟩ := (program pda).step_of_output_ok hok
      exact (initPolicy_ok_iff.mp ha).2.2.2.2.1
    · intro hnone
      have ha : execute pda (w.accounts (ownPolicy pda client))
          (policyAttempt pda client client.wallet false args w.clock) =
          .ok (stored pda client.wallet args w.clock, ()) :=
        initPolicy_ok_iff.mpr ⟨List.mem_singleton_self _, List.mem_singleton_self _, rfl, rfl,
          hnone, rfl⟩
      rw [(program pda).step_ok (s := w.accounts)
        (i := policyAttempt pda client client.wallet false args w.clock) ha]
  | true =>
    rw [Option.isSome_iff_exists]
    constructor
    · intro hok
      obtain ⟨v, ha, -⟩ := (program pda).step_of_output_ok hok
      obtain ⟨p, hp, -⟩ := updatePolicy_ok_iff.mp ha
      exact ⟨p, hp⟩
    · rintro ⟨p, hp⟩
      obtain ⟨vault, _, -, haddr, rfl⟩ := (h _ _).mp hp
      cases pda.address_injective haddr
      have ha : execute pda (w.accounts (ownPolicy pda client))
          (policyAttempt pda client client.wallet true args w.clock) =
          .ok (stored pda client.wallet args w.clock, ()) :=
        updatePolicy_ok_iff.mpr ⟨_, hp, List.mem_singleton_self _, pda.create_bump client.wallet,
          rfl, rfl⟩
      rw [(program pda).step_ok (s := w.accounts)
        (i := policyAttempt pda client client.wallet true args w.clock) ha]

/-- An accepted transaction stores the call's own bytes, a refused one nothing. -/
theorem executed_cases {w : Ledger} (h : ∃ book, Represents pda book w.accounts)
    (args : PolicyArgs) (existed : Bool) :
    ((executed pda client w args existed).2 = .ok () ∧
      (executed pda client w args existed).1 (ownPolicy pda client) =
        some (stored pda client.wallet args w.clock)) ∨
    ∃ e, executed pda client w args existed = (w.accounts, .error e) := by
  obtain ⟨book, h⟩ := h
  unfold executed
  rcases h.step_cases (policyAttempt pda client client.wallet existed args w.clock) with
    ⟨-, -, hs, -⟩ | ⟨e, hs⟩
  · have hattempt : (policyAttempt pda client client.wallet existed args w.clock).vault =
        client.wallet ∧ (policyAttempt pda client client.wallet existed args w.clock).args = args ∧
        (policyAttempt pda client client.wallet existed args w.clock).unixTimestamp = w.clock := by
      cases existed <;> exact ⟨rfl, rfl, rfl⟩
    obtain ⟨hvault, hargs, hclock⟩ := hattempt
    rw [hvault, hargs, hclock] at hs
    rw [hs]
    exact Or.inl ⟨rfl, Function.update_self _ _ _⟩
  · exact Or.inr ⟨e, hs⟩

end Execution

namespace PolicyEffect

variable {pda env client} {w w' : Ledger} {a : PolicyAction} {o : PolicyAnswer}

/-- How the calls can change: one is new, or one was executed, or one has
returned. -/
theorem call_cases (he : PolicyEffect pda env client w a w' o) {j : ℕ} {c' : PolicyCall}
    (hc' : w'.calls j = some c') :
    w.calls j = some c' ∨
    (∃ c, w.calls j = some c ∧ c' = { c with returned := true }) ∨
    (∃ c, w.calls j = some c ∧ c' = { c with
      landed := some (executed pda client w c.args c.existed).2 } ∧
      o = .landed j (executed pda client w c.args c.existed).2) ∨
    ∃ args, w.calls j = none ∧ o = .checked j ∧
      c' = ⟨args, (w.accounts (ownPolicy pda client)).isSome, none, false⟩ := by
  cases he with
  | idle | clock | threw | foreign => exact Or.inl hc'
  | checked i ciphertext args hnew =>
    rcases update_cases hc' with ⟨rfl, rfl⟩ | ⟨-, hold⟩
    · exact Or.inr (Or.inr (Or.inr ⟨args, hnew, rfl, rfl⟩))
    · exact Or.inl hold
  | landed i c hc =>
    rcases update_cases hc' with ⟨rfl, rfl⟩ | ⟨-, hold⟩
    · exact Or.inr (Or.inr (Or.inl ⟨c, hc, rfl, rfl⟩))
    · exact Or.inl hold
  | settled i c r hc =>
    rcases update_cases hc' with ⟨rfl, rfl⟩ | ⟨-, hold⟩
    · exact Or.inr (Or.inl ⟨c, hc, rfl⟩)
    · exact Or.inl hold

/-- A call keeps its bytes, what it saw and its verdict. -/
theorem call_stays (he : PolicyEffect pda env client w a w' o) {j : ℕ} {c : PolicyCall}
    (hc : w.calls j = some c) :
    ∃ c', w'.calls j = some c' ∧ c'.args = c.args ∧
      ∀ r, c.landed = some r → c'.landed = some r := by
  cases he with
  | idle | clock | threw | foreign => exact ⟨c, hc, rfl, fun _ hr => hr⟩
  | checked i _ _ hnew => exact ⟨c, update_of_empty hnew hc, rfl, fun _ hr => hr⟩
  | landed i g hg hopen =>
    rcases update_keeps hg hc with hold | ⟨rfl, hnew⟩
    · exact ⟨c, hold, rfl, fun _ hr => hr⟩
    · exact ⟨_, hnew, rfl, fun r hr => nomatch hr.symm.trans hopen⟩
  | settled i g _ hg =>
    rcases update_keeps hg hc with hold | ⟨rfl, hnew⟩
    · exact ⟨c, hold, rfl, fun _ hr => hr⟩
    · exact ⟨_, hnew, rfl, fun _ hr => hr⟩

/-- Only the landing of a call's transaction can touch the own policy. -/
theorem accounts_cases (he : PolicyEffect pda env client w a w' o)
    (h : ∃ book, Represents pda book w.accounts) :
    (w'.accounts (ownPolicy pda client) = w.accounts (ownPolicy pda client) ∧
      ∀ i r, o ≠ .landed i r) ∨
    ∃ i c, w.calls i = some c ∧ w'.accounts = (executed pda client w c.args c.existed).1 ∧
      w'.calls i = some { c with landed := some (executed pda client w c.args c.existed).2 } ∧
      o = .landed i (executed pda client w c.args c.existed).2 := by
  cases he with
  | idle | clock | threw | checked | settled => exact Or.inl ⟨rfl, fun _ _ hc => nomatch hc⟩
  | landed i c hc => exact Or.inr ⟨i, c, hc, rfl, Function.update_self _ _ _, rfl⟩
  | foreign a ha =>
    obtain ⟨book, h⟩ := h
    exact Or.inl ⟨step_not_signed h ha, fun _ _ hc => nomatch hc⟩

theorem represents (he : PolicyEffect pda env client w a w' o)
    (h : ∃ book, Represents pda book w.accounts) : ∃ book, Represents pda book w'.accounts := by
  cases he with
  | idle | clock | threw | checked | settled => exact h
  | landed | foreign => exact Represents.step h _

/-- A check is answered to an unused number. -/
theorem checked_cases (he : PolicyEffect pda env client w a w' o) {j : ℕ} (ho : o = .checked j) :
    w.calls j = none ∧ ∃ c, w'.calls j = some c := by
  cases he with
  | checked i ciphertext args hnew =>
    cases ho
    exact ⟨hnew, _, Function.update_self _ _ _⟩
  | idle | clock | threw | landed | settled | foreign => cases ho

end PolicyEffect

section Log

/-- The landing that an answer reports. -/
def landing : PolicyAnswer → Option (ℕ × Except Rejection Unit)
  | .landed i r => some (i, r)
  | _ => none

/-- The landings of a log, with their verdicts, in order. -/
def landings (log : List PolicyAnswer) : List (ℕ × Except Rejection Unit) := log.filterMap landing

/-- Whether an answer is a landing. -/
def isLanding (o : PolicyAnswer) : Bool := (landing o).isSome

/-- The call whose existence check an answer reports. -/
def check : PolicyAnswer → Option ℕ
  | .checked i => some i
  | _ => none

/-- The calls that made their existence check before the first landing. -/
def early (log : List PolicyAnswer) : List ℕ := (before isLanding log).filterMap check

theorem any_isLanding {log : List PolicyAnswer} :
    log.any isLanding = true ↔ landings log ≠ [] := by
  unfold landings isLanding
  rw [Ne, List.filterMap_eq_nil_iff, List.any_eq_true, not_forall]
  simp [Option.isSome_iff_ne_none]

theorem check_eq_some {o : PolicyAnswer} {i : ℕ} : check o = some i ↔ o = .checked i := by
  cases o <;> simp [check]

theorem landings_concat (log : List PolicyAnswer) (o : PolicyAnswer) :
    landings (log ++ [o]) = landings log ++ [o].filterMap landing := List.filterMap_append

theorem landings_concat_of_ne (log : List PolicyAnswer) {o : PolicyAnswer}
    (h : ∀ i r, o ≠ .landed i r) : landings (log ++ [o]) = landings log := by
  rw [landings_concat]
  cases o with
  | landed i r => exact absurd rfl (h i r)
  | _ => exact List.append_nil _

theorem checked_of_early {log : List PolicyAnswer} {i : ℕ} (h : i ∈ early log) :
    .checked i ∈ log := by
  obtain ⟨o, ho, hi⟩ := List.mem_filterMap.mp h
  rw [check_eq_some] at hi
  exact before_subset _ _ (hi ▸ ho)

/-- Before the first landing every check is early. -/
theorem mem_early_iff {log : List PolicyAnswer} (hnone : log.any isLanding = false) {i : ℕ} :
    i ∈ early log ↔ .checked i ∈ log := by
  refine ⟨checked_of_early, fun h => ?_⟩
  unfold early
  rw [before_eq_self hnone]
  exact List.mem_filterMap.mpr ⟨_, h, rfl⟩

/-- From the first landing on no further check is early. -/
theorem early_concat_of_any {log : List PolicyAnswer} (hany : log.any isLanding = true)
    (o : PolicyAnswer) : early (log ++ [o]) = early log := by
  unfold early
  rw [before_append_of_any hany]

/-- Only a check makes a call early, and only its own. -/
theorem mem_early_concat {log : List PolicyAnswer} {o : PolicyAnswer} {i : ℕ}
    (h : o ≠ .checked i) : i ∈ early (log ++ [o]) ↔ i ∈ early log := by
  cases hany : log.any isLanding with
  | true => rw [early_concat_of_any hany]
  | false =>
    cases ho : isLanding o with
    | true =>
      unfold early
      rw [before_concat_of_not_any hany ho, before_eq_self hany]
    | false =>
      have hboth : (log ++ [o]).any isLanding = false := by simp [hany, ho]
      rw [mem_early_iff hany, mem_early_iff hboth, List.mem_append, List.mem_singleton,
        or_iff_left (Ne.symm h)]

end Log

/-- What the log, the calls and the accounts have in common. `existed₀` says
whether the policy was there at the start. -/
structure Written (pda : PdaScheme) (client : RealClient) (existed₀ : Bool)
    (log : List PolicyAnswer) (w : Ledger) : Prop where
  /-- The accounts hold a book. -/
  book : ∃ book, Represents pda book w.accounts
  /-- The policy exists from the start or from the first landing on. -/
  account : (w.accounts (ownPolicy pda client)).isSome = (existed₀ || log.any isLanding)
  /-- The calls are those whose checks the log names. -/
  checked : ∀ i, .checked i ∈ log ↔ ∃ c, w.calls i = some c
  /-- A call saw the policy unless its check was early. -/
  existed : ∀ i c, w.calls i = some c → (c.existed = true ↔ existed₀ = true ∨ i ∉ early log)
  /-- The first landing is accepted. -/
  first : ∀ x, (landings log).head? = some x → x.2 = .ok ()
  /-- A later landing is accepted exactly for a call that saw the policy. -/
  later : ∀ x ∈ (landings log).tail, x.2 = .ok () ↔ existed₀ = true ∨ x.1 ∉ early log
  /-- The landings are the verdicts on the calls. -/
  landed : ∀ i r, (i, r) ∈ landings log ↔ ∃ c, w.calls i = some c ∧ c.landed = some r
  /-- The policy holds the bytes of the last accepted landing. -/
  stored : ∀ i, ((landings log).filter fun x => x.2.isOk).getLast?.map Prod.fst = some i →
    ∃ c p, w.calls i = some c ∧ w.accounts (ownPolicy pda client) = some p ∧
      p.ciphertextRef = c.args.ciphertextRef

namespace Written

variable {pda : PdaScheme} {env : Environment} {client : RealClient} {existed₀ : Bool}
  {log : List PolicyAnswer} {w w' : Ledger} {a : PolicyAction} {o : PolicyAnswer}

/-- The verdict on the transaction of a call: accepted when it is the first to
land, and otherwise exactly when the call saw the policy. -/
theorem verdict_iff (h : Written pda client existed₀ log w) {i : ℕ} {c : PolicyCall}
    (hc : w.calls i = some c) :
    (executed pda client w c.args c.existed).2 = .ok () ↔
      log.any isLanding = false ∨ existed₀ = true ∨ i ∉ early log := by
  rw [executed_ok_iff h.book, h.account, ← h.existed i c hc]
  cases hany : log.any isLanding with
  | true =>
    rw [Bool.or_true]
    exact ⟨fun h => Or.inr h.symm, fun h => (h.resolve_left (by decide)).symm⟩
  | false =>
    have hearly : i ∈ early log := (mem_early_iff hany).mpr ((h.checked i).mpr ⟨c, hc⟩)
    have hsaw := h.existed i c hc
    rw [or_iff_left (not_not.mpr hearly)] at hsaw
    have hsame : existed₀ = c.existed := Bool.eq_iff_iff.mpr hsaw.symm
    exact iff_of_true (by rw [Bool.or_false, hsame]) (Or.inl rfl)

theorem account_step (h : Written pda client existed₀ log w)
    (he : PolicyEffect pda env client w a w' o) :
    (w'.accounts (ownPolicy pda client)).isSome = (existed₀ || (log ++ [o]).any isLanding) := by
  rw [List.any_append]
  rcases he.accounts_cases h.book with ⟨hsame, hne⟩ | ⟨i, c, hc, hnew, -, rfl⟩
  · have ho : isLanding o = false := by
      cases o with
      | landed i r => exact absurd rfl (hne i r)
      | _ => rfl
    rw [hsame, h.account]
    simp [ho]
  · have hlanding : isLanding (.landed i (executed pda client w c.args c.existed).2) = true := rfl
    rw [hnew, List.any_cons, hlanding, Bool.true_or, Bool.or_true, Bool.or_true]
    rcases executed_cases h.book c.args c.existed with ⟨-, hs⟩ | ⟨e, hs⟩
    · rw [hs]
      rfl
    · -- A refused landing is not the first, so the policy was there already.
      have hany : log.any isLanding = true := by
        by_contra hnone
        have hok := (h.verdict_iff hc).mpr (Or.inl (Bool.eq_false_of_not_eq_true hnone))
        rw [hs] at hok
        cases hok
      rw [hs, h.account, hany, Bool.or_true]

theorem checked_step (h : Written pda client existed₀ log w)
    (he : PolicyEffect pda env client w a w' o) (i : ℕ) :
    .checked i ∈ log ++ [o] ↔ ∃ c, w'.calls i = some c := by
  rw [List.mem_append, List.mem_singleton, h.checked i]
  constructor
  · rintro (⟨c, hc⟩ | ho)
    · obtain ⟨c', hc', -⟩ := he.call_stays hc
      exact ⟨c', hc'⟩
    · exact (he.checked_cases ho.symm).2
  · rintro ⟨c', hc'⟩
    rcases he.call_cases hc' with hc | ⟨c, hc, -⟩ | ⟨c, hc, -⟩ | ⟨_, -, ho, -⟩
    · exact Or.inl ⟨c', hc⟩
    · exact Or.inl ⟨c, hc⟩
    · exact Or.inl ⟨c, hc⟩
    · exact Or.inr ho.symm

theorem existed_step (h : Written pda client existed₀ log w)
    (he : PolicyEffect pda env client w a w' o) {i : ℕ} {c' : PolicyCall}
    (hc' : w'.calls i = some c') :
    c'.existed = true ↔ existed₀ = true ∨ i ∉ early (log ++ [o]) := by
  -- A call that was known before is not checked again.
  have hold : ∀ {c}, w.calls i = some c → (i ∈ early (log ++ [o]) ↔ i ∈ early log) := by
    refine fun hc => mem_early_concat fun ho => ?_
    exact nomatch hc.symm.trans (he.checked_cases ho).1
  rcases he.call_cases hc' with hc | ⟨c, hc, rfl⟩ | ⟨c, hc, rfl, -⟩ | ⟨_, hnew, rfl, rfl⟩
  · rw [hold hc]
    exact h.existed i c' hc
  · rw [hold hc]
    exact h.existed i c hc
  · rw [hold hc]
    exact h.existed i c hc
  · change (w.accounts (ownPolicy pda client)).isSome = true ↔ _
    rw [h.account]
    cases hany : log.any isLanding with
    | true =>
      have hfresh : i ∉ early log := fun hi => by
        obtain ⟨c, hc⟩ := (h.checked i).mp (checked_of_early hi)
        exact nomatch hc.symm.trans hnew
      rw [early_concat_of_any hany]
      simp [hfresh]
    | false =>
      have hboth : (log ++ [PolicyAnswer.checked i]).any isLanding = false := by
        rw [List.any_append, hany]
        rfl
      rw [mem_early_iff hboth]
      simp

theorem first_step (h : Written pda client existed₀ log w)
    (he : PolicyEffect pda env client w a w' o) {x : ℕ × Except Rejection Unit}
    (hx : (landings (log ++ [o])).head? = some x) : x.2 = .ok () := by
  rcases he.accounts_cases h.book with ⟨-, hne⟩ | ⟨i, c, hc, -, -, rfl⟩
  · rw [landings_concat_of_ne log hne] at hx
    exact h.first x hx
  · rw [landings_concat] at hx
    cases hl : landings log with
    | nil =>
      have hany : log.any isLanding = false := by
        rw [← Bool.not_eq_true, any_isLanding, not_not]
        exact hl
      rw [hl] at hx
      cases hx
      exact (h.verdict_iff hc).mpr (Or.inl hany)
    | cons y ys =>
      rw [hl] at hx
      exact h.first x (by rw [hl]; exact hx)

theorem later_step (h : Written pda client existed₀ log w)
    (he : PolicyEffect pda env client w a w' o) {x : ℕ × Except Rejection Unit}
    (hx : x ∈ (landings (log ++ [o])).tail) :
    x.2 = .ok () ↔ existed₀ = true ∨ x.1 ∉ early (log ++ [o]) := by
  cases hany : log.any isLanding with
  | false =>
    have hnil : landings log = [] := by
      rw [← Bool.not_eq_true, any_isLanding, not_not] at hany
      exact hany
    rw [landings_concat, hnil] at hx
    cases o <;> cases hx
  | true =>
    rw [early_concat_of_any hany]
    rcases he.accounts_cases h.book with ⟨-, hne⟩ | ⟨i, c, hc, -, -, rfl⟩
    · rw [landings_concat_of_ne log hne] at hx
      exact h.later x hx
    · rw [landings_concat, List.tail_append_of_ne_nil (any_isLanding.mp hany),
        List.mem_append] at hx
      rcases hx with hx | hx
      · exact h.later x hx
      · cases List.mem_singleton.mp hx
        have hverdict := h.verdict_iff hc
        rw [hany] at hverdict
        simpa using hverdict

theorem landed_step (h : Written pda client existed₀ log w)
    (he : PolicyEffect pda env client w a w' o) (i : ℕ) (r : Except Rejection Unit) :
    (i, r) ∈ landings (log ++ [o]) ↔ ∃ c, w'.calls i = some c ∧ c.landed = some r := by
  rw [landings_concat, List.mem_append]
  constructor
  · rintro (hold | hnew)
    · obtain ⟨c, hc, hr⟩ := (h.landed i r).mp hold
      obtain ⟨c', hc', -, hl⟩ := he.call_stays hc
      exact ⟨c', hc', hl r hr⟩
    · rcases he.accounts_cases h.book with ⟨-, hne⟩ | ⟨j, c, hc, -, hc', rfl⟩
      · cases o with
        | landed i r => exact absurd rfl (hne i r)
        | _ => cases hnew
      · cases List.mem_singleton.mp hnew
        exact ⟨_, hc', rfl⟩
  · rintro ⟨c', hc', hr⟩
    rcases he.call_cases hc' with hc | ⟨c, hc, rfl⟩ | ⟨c, hc, rfl, rfl⟩ | ⟨_, -, -, rfl⟩
    · exact Or.inl ((h.landed i r).mpr ⟨c', hc, hr⟩)
    · exact Or.inl ((h.landed i r).mpr ⟨c, hc, hr⟩)
    · cases hr
      exact Or.inr (List.mem_singleton_self _)
    · cases hr

theorem stored_step (h : Written pda client existed₀ log w)
    (he : PolicyEffect pda env client w a w' o) {i : ℕ}
    (hi : ((landings (log ++ [o])).filter fun x => x.2.isOk).getLast?.map Prod.fst = some i) :
    ∃ c p, w'.calls i = some c ∧ w'.accounts (ownPolicy pda client) = some p ∧
      p.ciphertextRef = c.args.ciphertextRef := by
  -- Without an accepted landing both the record and the policy stay.
  have hkeep : w'.accounts (ownPolicy pda client) = w.accounts (ownPolicy pda client) →
      ((landings log).filter fun x => x.2.isOk).getLast?.map Prod.fst = some i →
      ∃ c p, w'.calls i = some c ∧ w'.accounts (ownPolicy pda client) = some p ∧
        p.ciphertextRef = c.args.ciphertextRef := by
    intro hsame hold
    obtain ⟨c, p, hc, hp, hbytes⟩ := h.stored i hold
    obtain ⟨c', hc', hargs, -⟩ := he.call_stays hc
    exact ⟨c', p, hc', hsame.trans hp, by rw [hbytes, hargs]⟩
  rcases he.accounts_cases h.book with ⟨hsame, hne⟩ | ⟨j, c, hc, hnew, hc', rfl⟩
  · rw [landings_concat_of_ne log hne] at hi
    exact hkeep hsame hi
  · rw [landings_concat, List.filter_append] at hi
    rcases executed_cases h.book c.args c.existed with ⟨hok, hs⟩ | ⟨e, hs⟩
    · have hj : [PolicyAnswer.landed j (executed pda client w c.args c.existed).2].filterMap landing
          = [(j, .ok ())] := by rw [hok]; rfl
      rw [hj] at hi
      simp only [List.filter_cons, List.filter_nil, Except.isOk, Except.toBool, if_true,
        List.getLast?_append, List.getLast?_singleton, Option.some_or, Option.map_some,
        Option.some.injEq] at hi
      subst hi
      exact ⟨_, _, hc', by rw [hnew, hs], rfl⟩
    · have hj : [PolicyAnswer.landed j (executed pda client w c.args c.existed).2].filterMap landing
          = [(j, .error e)] := by rw [hs]; rfl
      rw [hj] at hi
      simp only [List.filter_cons, List.filter_nil, Except.isOk, Except.toBool, Bool.false_eq_true,
        if_false, List.append_nil] at hi
      exact hkeep (by rw [hnew, hs]) hi

/-- Every step keeps the record. -/
theorem step (h : Written pda client existed₀ log w)
    (he : PolicyEffect pda env client w a w' o) : Written pda client existed₀ (log ++ [o]) w' where
  book := he.represents h.book
  account := h.account_step he
  checked := h.checked_step he
  existed _ _ := h.existed_step he
  first _ := h.first_step he
  later _ := h.later_step he
  landed := h.landed_step he
  stored _ := h.stored_step he

/-- Nothing is written at the start, in whatever state the program is. -/
theorem initial (pda : PdaScheme) (client : RealClient) (past : List Attempt) :
    Written pda client (accountsAfter pda past (ownPolicy pda client)).isSome []
      ⟨accountsAfter pda past, 0, fun _ => none⟩ where
  book := ⟨_, represents_run pda past⟩
  account := (Bool.or_false _).symm
  checked _ := ⟨(fun h => nomatch h), (fun ⟨_, h⟩ => nomatch h)⟩
  existed _ _ h := nomatch h
  first _ h := nomatch h
  later _ h := nomatch h
  landed _ _ := ⟨(fun h => nomatch h), (fun ⟨_, h, _⟩ => nomatch h)⟩
  stored _ h := nomatch h

end Written

/-- The answers of a run of calls on a program with some past, oldest first. -/
def writeLog (past : List Attempt) (actions : List PolicyAction) : List PolicyAnswer :=
  (writes pda env client).outputs ⟨accountsAfter pda past, 0, fun _ => none⟩ actions

/-- The ledger after a run of calls on a program with some past. -/
def ledgerAfter (past : List Attempt) (actions : List PolicyAction) : Ledger :=
  (writes pda env client).run ⟨accountsAfter pda past, 0, fun _ => none⟩ actions

theorem Written.of_run (past : List Attempt) (actions : List PolicyAction) :
    Written pda client (accountsAfter pda past (ownPolicy pda client)).isSome
      (writeLog pda env client past actions) (ledgerAfter pda env client past actions) :=
  (writes pda env client).answer_induction (A := fun _ => True) (initial pda client past)
    (fun _ w a _ h => h.step (step_effect pda env client w a)) fun _ _ => trivial

/-- Every executed call resolves with its own signature, and the policy holds
the bytes of the call that landed last. -/
def Linearizable (log : List PolicyAnswer) (w : Ledger) : Prop :=
  (∀ i c r, w.calls i = some c → c.landed = some r → policyOutcome env c.existed i r = .ok i) ∧
  ∀ i, (landings log).getLast?.map Prod.fst = some i → ∃ c p, w.calls i = some c ∧
    w.accounts (ownPolicy pda client) = some p ∧ p.ciphertextRef = c.args.ciphertextRef

/-- The policy is there from the start, or every call that lands after the
first landing has also made its existence check after it. -/
def ChecksInTime (existed₀ : Bool) (log : List PolicyAnswer) : Prop :=
  existed₀ = true ∨ ∀ x ∈ (landings log).tail, x.1 ∉ early log

variable {pda env client}

/-- All landings are accepted exactly when no check came too early. -/
theorem Written.all_accepted_iff {existed₀ : Bool} {log : List PolicyAnswer} {w : Ledger}
    (h : Written pda client existed₀ log w) :
    (∀ x ∈ landings log, x.2 = .ok ()) ↔ ChecksInTime existed₀ log := by
  have hfirst := h.first
  have hlater := h.later
  unfold ChecksInTime
  cases hl : landings log with
  | nil => simp
  | cons y ys =>
    rw [hl] at hfirst hlater
    rw [List.forall_mem_cons, List.tail_cons]
    rw [List.tail_cons] at hlater
    constructor
    · rintro ⟨-, hall⟩
      by_cases he : existed₀ = true
      · exact Or.inl he
      · exact Or.inr fun x hx => ((hlater x hx).mp (hall x hx)).resolve_left he
    · intro hcond
      refine ⟨hfirst y rfl, fun x hx => (hlater x hx).mpr ?_⟩
      exact hcond.imp_right fun hall => hall x hx

theorem Written.linearizable_iff {existed₀ : Bool} {log : List PolicyAnswer} {w : Ledger}
    (h : Written pda client existed₀ log w) :
    Linearizable pda env client log w ↔ ChecksInTime existed₀ log := by
  rw [← h.all_accepted_iff]
  constructor
  · rintro ⟨hresolves, -⟩ ⟨i, r⟩ hx
    obtain ⟨c, hc, hr⟩ := (h.landed i r).mp hx
    have hok := hresolves i c r hc hr
    cases r with
    | ok u => rfl
    | error e => cases hok
  · intro hall
    have hfilter : (landings log).filter (fun x => x.2.isOk) = landings log := by
      refine List.filter_eq_self.mpr fun x hx => ?_
      rw [hall x hx]
      rfl
    refine ⟨fun i c r hc hr => ?_, fun i hi => h.stored i (by rw [hfilter, hi])⟩
    have hok : r = .ok () := hall _ ((h.landed i r).mpr ⟨c, hc, hr⟩)
    rw [hok]
    rfl

/-- In every run every executed call resolves and the policy ends with the
bytes of the last landing if and only if the checks come in time; and in any
case an accepted transaction stores the bytes of its own call. -/
theorem policy_writes_linearizable_iff (pda : PdaScheme) (env : Environment) (client : RealClient)
    (past : List Attempt) (actions : List PolicyAction) :
    (Linearizable pda env client (writeLog pda env client past actions)
        (ledgerAfter pda env client past actions) ↔
      ChecksInTime (accountsAfter pda past (ownPolicy pda client)).isSome
        (writeLog pda env client past actions)) ∧
    ∀ i, (step pda env client (ledgerAfter pda env client past actions) (.land i)).2 =
        .landed i (.ok ()) →
      ∃ c p, (step pda env client (ledgerAfter pda env client past actions) (.land i)).1.calls i =
          some c ∧
        (step pda env client (ledgerAfter pda env client past actions) (.land i)).1.accounts
          (ownPolicy pda client) = some p ∧ p.ciphertextRef = c.args.ciphertextRef := by
  have h := Written.of_run pda env client past actions
  refine ⟨h.linearizable_iff, fun i hi => ?_⟩
  have hnext := h.step (step_effect pda env client _ (.land i))
  rw [hi] at hnext
  refine hnext.stored i ?_
  rw [landings_concat, List.filter_append, List.getLast?_append]
  rfl

/-- The client of the operator, whose wallet is the vault of its policy. -/
def operatorClient : RealClient :=
  createRealClient ⟨DevnetConfig.operatorWallet, none, none, true, true⟩

/-- Two first writes at once: both checks come before the first landing. -/
def firstWrites : List PolicyAction :=
  [.check 0 (List.replicate 64 1), .check 1 (List.replicate 64 2), .land 0, .land 1, .settle 0,
    .settle 1]

/-- The second of the two first writes is refused and rejects, and its
ciphertext is lost. -/
theorem first_write_lost :
    writeLog DevnetConfig.policyPda devnet operatorClient [] firstWrites =
      [.checked 0, .checked 1, .landed 0 (.ok ()),
        .landed 1 (.error (.anchor .accountAlreadyInUse)), .returned (.ok 0),
        .returned (.error (.onchainRejection "setEncryptedPolicy init failed"
          (some "Error: failed to send transaction")))] ∧
    ((ledgerAfter DevnetConfig.policyPda devnet operatorClient [] firstWrites).accounts
      DevnetConfig.operatorPolicy).map RiskPolicy.ciphertextRef =
      some (Vector.replicate 64 1) :=
  ⟨rfl, by decide⟩

end RiskClaw.PolicyWrites
