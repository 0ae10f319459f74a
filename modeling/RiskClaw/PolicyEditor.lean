import RiskClaw.PolicyWrites
import RiskClaw.ThresholdPacking

/-!
# The policy editor

The page packs the position of its slider and passes it to `setEncryptedPolicy`
of a client of the connected wallet. The call runs on while the slider, the
wallet and the chain move, and it outlives its page when that is left. The page
shows a proposal as made only after the chain has accepted it. As for the client's
writes, nobody funds the address of a policy that does not exist, and no two calls
under way carry the same transaction.
-/

namespace RiskClaw.PolicyEditor

open ReactiveMachine AccountStore SolanaRuntime RiskPolicyProgram RiskPolicyControl OnchainClient
open ThresholdPacking
open PolicyWrites (executed executed_ok_iff executed_cases)

/-- A position of the range input: from 100 to 10000 in steps of 100. -/
structure Slider where
  /-- Drawdown limit in basis points. -/
  bps : ℕ
  /-- `min`. -/
  least : 100 ≤ bps
  /-- `max`. -/
  most : bps ≤ 10000
  /-- `step`. -/
  stepped : 100 ∣ bps
  deriving DecidableEq

/-- `ProposalState`. -/
inductive ProposalState where
  /-- Nothing has been proposed. -/
  | idle
  /-- A call is under way. -/
  | proposing
  /-- A call has resolved. -/
  | proposed (txSig : TxSig)
  /-- A call has rejected. -/
  | error (message : String)
  deriving DecidableEq

/-- The page, as far as a proposal depends on it. The other three inputs are not
passed on. -/
structure Page where
  /-- Number of the page; it is a new one each time that it is opened. -/
  mount : ℕ
  /-- Key of the connected wallet. -/
  wallet : Option Pubkey
  /-- `drawdownBps`. -/
  drawdownBps : Slider
  /-- `state`. -/
  state : ProposalState

/-- The page when it is opened. -/
def Page.opened (mount : ℕ) : Page :=
  ⟨mount, none, ⟨2000, by decide, by decide, by decide⟩, .idle⟩

/-- How far a call of `setEncryptedPolicy` is. -/
inductive Stage where
  /-- The existence check is under way. -/
  | asking
  /-- The transaction is under way. -/
  | sent (existed : Bool)
  /-- The chain has executed the transaction. -/
  | landed (existed : Bool) (result : Except Rejection Unit)

/-- A call of `setEncryptedPolicy` by the page, with what `onSubmit` has read. -/
structure Proposal where
  /-- The page that made the call. -/
  mount : ℕ
  /-- `publicKey`, the vault and the key of the client. -/
  publicKey : Pubkey
  /-- The position of the slider. -/
  drawdownBps : Slider
  /-- The byte pair to be stored. -/
  args : PolicyArgs
  /-- How far the call is. -/
  stage : Stage
  /-- Whether the call has settled. -/
  returned : Bool

/-- The chain, the page and all calls so far, in their order. -/
structure Site where
  /-- Accounts of `risk_policy`. -/
  accounts : Accounts
  /-- The chain's clock. -/
  clock : Int64
  /-- The page. -/
  page : Page
  /-- The calls. The number of a call stands for the signature of its transaction. -/
  proposals : List Proposal

/-- A step of the user, of a call, of the chain or of somebody else. -/
inductive EditorAction where
  /-- The chain's clock is read anew. -/
  | clock (clock : Int64)
  /-- Anybody's attempt is executed. -/
  | foreign (attempt : Attempt)
  /-- The wallet connects, disconnects or changes. -/
  | wallet (publicKey : Option Pubkey)
  /-- The slider moves. -/
  | slide (position : Slider)
  /-- The page is left and opened again. -/
  | reload
  /-- The form is submitted. -/
  | submit
  /-- The existence check of a call is answered. -/
  | answer (call : ℕ)
  /-- The chain executes the transaction of a call. -/
  | land (call : ℕ)
  /-- The verdict on its transaction reaches a call. -/
  | settle (call : ℕ)
  /-- A request of a call throws: the wallet refuses, the network fails, or the
  confirmation is given up, whether or not the transaction lands. -/
  | raise (call : ℕ) (text : String)

/-- `useOnchainClient` with a connected wallet. -/
def useOnchainClient (publicKey : Pubkey) : RealClient :=
  createRealClient ⟨publicKey, none, none, true, true⟩

/-- `err.message` of a rejection. -/
def message : ClientError → String
  | .notImplemented what _ => "not implemented in v1: " ++ what
  | .slippageRejected message _ => message
  | .onchainRejection message _ => message
  | .untyped text => text

/-- How a call rejects when a request throws: only the transaction is submitted
inside the `try`. -/
def raised (text : String) : Stage → ClientError
  | .asking => .untyped text
  | .sent existed | .landed existed _ =>
    .onchainRejection ("setEncryptedPolicy " ++ (if existed then "update" else "init") ++ " failed")
      (some text)

/-- What the continuation of `onSubmit` shows. -/
def shown : Except ClientError TxSig → ProposalState
  | .ok txSig => .proposed txSig
  | .error e => .error (message e)

/-- `canSubmit`, which enables the only button of the form. -/
def canSubmit (multisig : Option Pubkey) (page : Page) : Bool :=
  page.wallet.isSome && multisig.isSome && decide (page.state ≠ .proposing)

variable (pda : PdaScheme) (env : Environment) (multisig : Option Pubkey)

/-- The transaction of a proposal. -/
def Proposal.attempt (p : Proposal) (existed : Bool) (clock : Int64) : Attempt :=
  policyAttempt pda (useOnchainClient p.publicKey) p.publicKey existed p.args clock

/-- A call goes on. -/
def Proposal.reach (p : Proposal) (stage : Stage) : Proposal := { p with stage := stage }

/-- The chain executes an attempt. -/
def Site.execute (w : Site) (a : Attempt) : Site :=
  { w with accounts := ((program pda).step w.accounts a).1 }

/-- The page shows another state. -/
def Site.present (w : Site) (state : ProposalState) : Site :=
  { w with page := { w.page with state := state } }

/-- A call changes. -/
def Site.record (w : Site) (i : ℕ) (p : Proposal) : Site :=
  { w with proposals := w.proposals.set i p }

/-- A call settles; its page shows the outcome if it is still there. -/
def Site.finish (w : Site) (i : ℕ) (p : Proposal) (outcome : Except ClientError TxSig) : Site :=
  if p.mount = w.page.mount then
    (w.record i { p with returned := true }).present (shown outcome)
  else w.record i { p with returned := true }

/-- One step, with the attempt that the chain executes in it. -/
def step (w : Site) : EditorAction → Site × Option Attempt
  | .clock clock => ({ w with clock := clock }, none)
  | .foreign a => (w.execute pda a, some a)
  | .wallet publicKey => ({ w with page := { w.page with wallet := publicKey } }, none)
  | .slide position => ({ w with page := { w.page with drawdownBps := position } }, none)
  | .reload => ({ w with page := .opened (w.page.mount + 1) }, none)
  | .submit =>
    match w.page.wallet.filter fun _ => canSubmit multisig w.page with
    | none => (w, none)
    | some publicKey =>
      match setEncryptedPolicy env (useOnchainClient publicKey)
          (encryptThreshold w.page.drawdownBps.bps) with
      | .error e => (w.present (.error (message e)), none)
      | .ok args =>
        let p : Proposal := ⟨w.page.mount, publicKey, w.page.drawdownBps, args, .asking, false⟩
        ({ w.present .proposing with proposals := w.proposals ++ [p] }, none)
  | .answer i =>
    match w.proposals[i]? with
    | some p =>
      match p.stage, p.returned with
      | .asking, false =>
        let existed := (w.accounts (pda.address p.publicKey)).isSome
        (w.record i (p.reach (.sent existed)), none)
      | _, _ => (w, none)
    | none => (w, none)
  | .land i =>
    match w.proposals[i]? with
    | some p =>
      match p.stage with
      | .sent existed =>
        let a := p.attempt pda existed w.clock
        let result := ((program pda).step w.accounts a).2
        ((w.execute pda a).record i (p.reach (.landed existed result)), some a)
      | _ => (w, none)
    | none => (w, none)
  | .settle i =>
    match w.proposals[i]? with
    | some p =>
      match p.stage, p.returned with
      | .landed existed result, false => (w.finish i p (policyOutcome env existed i result), none)
      | _, _ => (w, none)
    | none => (w, none)
  | .raise i text =>
    match w.proposals[i]? with
    | some p =>
      if p.returned then (w, none) else (w.finish i p (.error (raised text p.stage)), none)
    | none => (w, none)

/-- The machine of the site. -/
def site : Machine Site EditorAction (Option Attempt) := ⟨step pda env multisig⟩

/-- The page is opened on a program with some past. -/
def opened (past : List Attempt) : Site := ⟨accountsAfter pda past, 0, .opened 0, []⟩

/-- The threshold that is stored for a vault, as `_testDecryptPlaceholder` reads it. -/
def threshold (w : Site) (vault : Pubkey) : Option (Except String ℤ) :=
  (w.accounts (pda.address vault)).map fun p => testDecryptPlaceholder p.ciphertextRef.toList

/-- The attempts that the chain executes in a run. -/
def attemptsOf (w : Site) (actions : List EditorAction) : List Attempt :=
  ((site pda env multisig).outputs w actions).filterMap id

section Steps

@[simp] theorem finish_accounts (w : Site) (i : ℕ) (p : Proposal)
    (outcome : Except ClientError TxSig) : (w.finish i p outcome).accounts = w.accounts := by
  unfold Site.finish
  split_ifs <;> rfl

@[simp] theorem finish_proposals (w : Site) (i : ℕ) (p : Proposal)
    (outcome : Except ClientError TxSig) :
    (w.finish i p outcome).proposals = w.proposals.set i { p with returned := true } := by
  unfold Site.finish
  split_ifs <;> rfl

@[simp] theorem finish_mount (w : Site) (i : ℕ) (p : Proposal)
    (outcome : Except ClientError TxSig) : (w.finish i p outcome).page.mount = w.page.mount := by
  unfold Site.finish
  split_ifs <;> rfl

theorem finish_state (w : Site) (i : ℕ) (p : Proposal) (outcome : Except ClientError TxSig) :
    (w.finish i p outcome).page.state =
      if p.mount = w.page.mount then shown outcome else w.page.state := by
  unfold Site.finish
  split_ifs <;> rfl

/-- Everything a step can do. -/
inductive Effect (w : Site) : EditorAction → Site → Option Attempt → Prop where
  /-- An impossible step. -/
  | idle (a : EditorAction) : Effect w a w none
  /-- A clock reading. -/
  | clock (clock : Int64) : Effect w (.clock clock) { w with clock := clock } none
  /-- Anybody's attempt. -/
  | foreign (a : Attempt) : Effect w (.foreign a) (w.execute pda a) (some a)
  /-- Another wallet. -/
  | wallet (publicKey : Option Pubkey) :
    Effect w (.wallet publicKey) { w with page := { w.page with wallet := publicKey } } none
  /-- Another position. -/
  | slide (position : Slider) :
    Effect w (.slide position) { w with page := { w.page with drawdownBps := position } } none
  /-- A new page. -/
  | reload : Effect w .reload { w with page := .opened (w.page.mount + 1) } none
  /-- A call rejects at once. -/
  | refused (e : ClientError) (hcan : canSubmit multisig w.page = true) :
    Effect w .submit (w.present (.error (message e))) none
  /-- A call begins. -/
  | submitted (publicKey : Pubkey) (args : PolicyArgs) (hwallet : w.page.wallet = some publicKey)
    (hcan : canSubmit multisig w.page = true)
    (hargs : setEncryptedPolicy env (useOnchainClient publicKey)
      (encryptThreshold w.page.drawdownBps.bps) = .ok args) :
    Effect w .submit
      { w.present .proposing with proposals := w.proposals ++
        [⟨w.page.mount, publicKey, w.page.drawdownBps, args, .asking, false⟩] } none
  /-- The existence check of a call is answered. -/
  | answered (i : ℕ) (p : Proposal) (hp : w.proposals[i]? = some p) (hstage : p.stage = .asking)
    (hopen : p.returned = false) :
    Effect w (.answer i)
      (w.record i (p.reach (.sent (w.accounts (pda.address p.publicKey)).isSome))) none
  /-- The transaction of a call is executed. -/
  | landed (i : ℕ) (p : Proposal) (existed : Bool) (hp : w.proposals[i]? = some p)
    (hstage : p.stage = .sent existed) :
    Effect w (.land i)
      ((w.execute pda (p.attempt pda existed w.clock)).record i (p.reach (.landed existed
        ((program pda).step w.accounts (p.attempt pda existed w.clock)).2)))
      (some (p.attempt pda existed w.clock))
  /-- A call returns the verdict. -/
  | settled (i : ℕ) (p : Proposal) (existed : Bool) (result : Except Rejection Unit)
    (hp : w.proposals[i]? = some p) (hstage : p.stage = .landed existed result)
    (hopen : p.returned = false) :
    Effect w (.settle i) (w.finish i p (policyOutcome env existed i result)) none
  /-- A call rejects. -/
  | raised (i : ℕ) (text : String) (p : Proposal) (hp : w.proposals[i]? = some p)
    (hopen : p.returned = false) :
    Effect w (.raise i text) (w.finish i p (.error (raised text p.stage))) none

/-- A submission that is possible finds a wallet. -/
theorem submit_cases (w : Site) :
    (w.page.wallet.filter fun _ => canSubmit multisig w.page) = none ∨
    ∃ publicKey, (w.page.wallet.filter fun _ => canSubmit multisig w.page) = some publicKey ∧
      w.page.wallet = some publicKey ∧ canSubmit multisig w.page = true := by
  cases h : w.page.wallet.filter fun _ => canSubmit multisig w.page with
  | none => exact Or.inl rfl
  | some publicKey =>
    obtain ⟨hwallet, hcan⟩ := Option.filter_eq_some_iff.mp h
    exact Or.inr ⟨publicKey, rfl, hwallet, hcan⟩

/-- Every step has one of the listed effects. -/
theorem step_effect (w : Site) (a : EditorAction) :
    Effect pda env multisig w a (step pda env multisig w a).1 (step pda env multisig w a).2 := by
  cases a with
  | clock clock => exact .clock clock
  | foreign a => exact .foreign a
  | wallet publicKey => exact .wallet publicKey
  | slide position => exact .slide position
  | reload => exact .reload
  | submit =>
    rcases submit_cases multisig w with hnone | ⟨publicKey, hsome, hwallet, hcan⟩
    · simpa only [step, hnone] using Effect.idle _
    · cases hargs : setEncryptedPolicy env (useOnchainClient publicKey)
        (encryptThreshold w.page.drawdownBps.bps) with
      | error e => simpa only [step, hsome, hargs] using Effect.refused e hcan
      | ok args =>
        simpa only [step, hsome, hargs] using Effect.submitted publicKey args hwallet hcan hargs
  | answer i =>
    cases hp : w.proposals[i]? with
    | none => simpa only [step, hp] using Effect.idle _
    | some p =>
      cases hstage : p.stage with
      | asking =>
        cases hopen : p.returned with
        | false => simpa only [step, hp, hstage, hopen] using Effect.answered i p hp hstage hopen
        | true => simpa only [step, hp, hstage, hopen] using Effect.idle _
      | sent existed => simpa only [step, hp, hstage] using Effect.idle _
      | landed existed result => simpa only [step, hp, hstage] using Effect.idle _
  | land i =>
    cases hp : w.proposals[i]? with
    | none => simpa only [step, hp] using Effect.idle _
    | some p =>
      cases hstage : p.stage with
      | asking => simpa only [step, hp, hstage] using Effect.idle _
      | sent existed => simpa only [step, hp, hstage] using Effect.landed i p existed hp hstage
      | landed existed result => simpa only [step, hp, hstage] using Effect.idle _
  | settle i =>
    cases hp : w.proposals[i]? with
    | none => simpa only [step, hp] using Effect.idle _
    | some p =>
      cases hstage : p.stage with
      | asking => simpa only [step, hp, hstage] using Effect.idle _
      | sent existed => simpa only [step, hp, hstage] using Effect.idle _
      | landed existed result =>
        cases hopen : p.returned with
        | false =>
          simpa only [step, hp, hstage, hopen] using
            Effect.settled i p existed result hp hstage hopen
        | true => simpa only [step, hp, hstage, hopen] using Effect.idle _
  | raise i text =>
    cases hp : w.proposals[i]? with
    | none => simpa only [step, hp] using Effect.idle _
    | some p =>
      cases hopen : p.returned with
      | false =>
        simpa only [step, hp, hopen, Bool.false_eq_true, if_false] using
          Effect.raised i text p hp hopen
      | true => simpa only [step, hp, hopen, if_true] using Effect.idle _

end Steps

namespace Effect

variable {pda env multisig} {w w' : Site} {a : EditorAction} {o : Option Attempt}

/-- What a call keeps while it goes on: only its stage changes, and once it has
settled it stays so. -/
structure Carries (p q : Proposal) : Prop where
  /-- The page. -/
  mount : q.mount = p.mount
  /-- The vault. -/
  publicKey : q.publicKey = p.publicKey
  /-- The position of the slider. -/
  drawdownBps : q.drawdownBps = p.drawdownBps
  /-- The bytes. -/
  args : q.args = p.args
  /-- A settled call. -/
  returned : q.returned = false → p.returned = false

theorem Carries.refl (p : Proposal) : Carries p p := ⟨rfl, rfl, rfl, rfl, id⟩

/-- A list with one entry replaced. -/
theorem set_cases {ps : List Proposal} {i j : ℕ} {p q : Proposal}
    (h : (ps.set i p)[j]? = some q) : ps[j]? = some q ∨ (i = j ∧ q = p) := by
  rw [List.getElem?_set] at h
  split_ifs at h with hij hlt
  · exact Or.inr ⟨hij, (Option.some.inj h).symm⟩
  · exact Or.inl h

/-- A list with one entry more. -/
theorem concat_cases {ps : List Proposal} {j : ℕ} {p q : Proposal}
    (h : (ps ++ [p])[j]? = some q) : ps[j]? = some q ∨ (j = ps.length ∧ q = p) := by
  rcases Nat.lt_or_ge j ps.length with hj | hj
  · exact Or.inl ((List.getElem?_append_left hj).symm.trans h)
  · rw [List.getElem?_append_right hj, List.getElem?_singleton] at h
    split_ifs at h with hzero
    exact Or.inr ⟨by omega, (Option.some.inj h).symm⟩

/-- Where a call after a step comes from. -/
theorem proposal_cases (he : Effect pda env multisig w a w' o) {j : ℕ} {q : Proposal}
    (hq : w'.proposals[j]? = some q) :
    (∃ p, w.proposals[j]? = some p ∧ Carries p q) ∨
    (a = .submit ∧ j = w.proposals.length ∧ canSubmit multisig w.page = true ∧
      w.page.wallet = some q.publicKey ∧ q.drawdownBps = w.page.drawdownBps ∧
      q.mount = w.page.mount ∧ q.stage = .asking ∧ w'.page.state = .proposing ∧
      setEncryptedPolicy env (useOnchainClient q.publicKey)
        (encryptThreshold q.drawdownBps.bps) = .ok q.args) := by
  cases he with
  | idle | clock | foreign | wallet | slide | reload | refused =>
    exact Or.inl ⟨q, hq, .refl q⟩
  | submitted publicKey args hwallet hcan hargs =>
    rcases concat_cases hq with hold | ⟨hj, rfl⟩
    · exact Or.inl ⟨q, hold, .refl q⟩
    · exact Or.inr ⟨rfl, hj, hcan, hwallet, rfl, rfl, rfl, rfl, hargs⟩
  | answered i p hp =>
    rcases set_cases hq with hold | ⟨rfl, rfl⟩
    · exact Or.inl ⟨q, hold, .refl q⟩
    · exact Or.inl ⟨p, hp, rfl, rfl, rfl, rfl, id⟩
  | landed i p existed hp =>
    rcases set_cases hq with hold | ⟨rfl, rfl⟩
    · exact Or.inl ⟨q, hold, .refl q⟩
    · exact Or.inl ⟨p, hp, rfl, rfl, rfl, rfl, id⟩
  | settled i p existed result hp hstage hopen =>
    rw [finish_proposals] at hq
    rcases set_cases hq with hold | ⟨rfl, rfl⟩
    · exact Or.inl ⟨q, hold, .refl q⟩
    · exact Or.inl ⟨p, hp, rfl, rfl, rfl, rfl, fun _ => hopen⟩
  | raised i text p hp hopen =>
    rw [finish_proposals] at hq
    rcases set_cases hq with hold | ⟨rfl, rfl⟩
    · exact Or.inl ⟨q, hold, .refl q⟩
    · exact Or.inl ⟨p, hp, rfl, rfl, rfl, rfl, fun _ => hopen⟩

/-- A verdict is that of a landing. -/
theorem landed_cases (he : Effect pda env multisig w a w' o) {j : ℕ} {q : Proposal}
    (hq : w'.proposals[j]? = some q) {existed : Bool} {result : Except Rejection Unit}
    (hstage : q.stage = .landed existed result) :
    (∃ p, w.proposals[j]? = some p ∧ p.stage = .landed existed result) ∨
    (a = .land j ∧ ∃ p, w.proposals[j]? = some p ∧ p.stage = .sent existed ∧
      o = some (p.attempt pda existed w.clock) ∧
      (program pda).step w.accounts (p.attempt pda existed w.clock) = (w'.accounts, result)) := by
  cases he with
  | idle | clock | foreign | wallet | slide | reload | refused =>
    exact Or.inl ⟨q, hq, hstage⟩
  | submitted publicKey args hwallet hcan hargs =>
    rcases concat_cases hq with hold | ⟨-, rfl⟩
    · exact Or.inl ⟨q, hold, hstage⟩
    · cases hstage
  | answered i p hp =>
    rcases set_cases hq with hold | ⟨rfl, rfl⟩
    · exact Or.inl ⟨q, hold, hstage⟩
    · cases hstage
  | landed i p known hp hsent =>
    rcases set_cases hq with hold | ⟨rfl, rfl⟩
    · exact Or.inl ⟨q, hold, hstage⟩
    · cases hstage
      exact Or.inr ⟨rfl, p, hp, hsent, rfl, rfl⟩
  | settled i p known verdict hp =>
    rw [finish_proposals] at hq
    rcases set_cases hq with hold | ⟨rfl, rfl⟩
    · exact Or.inl ⟨q, hold, hstage⟩
    · exact Or.inl ⟨p, hp, hstage⟩
  | raised i text p hp =>
    rw [finish_proposals] at hq
    rcases set_cases hq with hold | ⟨rfl, rfl⟩
    · exact Or.inl ⟨q, hold, hstage⟩
    · exact Or.inl ⟨p, hp, hstage⟩

/-- A replaced entry is there. -/
theorem set_self {ps : List Proposal} {i : ℕ} {p q : Proposal} (hp : ps[i]? = some p) :
    (ps.set i q)[i]? = some q := by
  rw [List.getElem?_set_self']
  rw [hp]
  rfl

/-- No call is forgotten, and a verdict stays. -/
theorem stays (he : Effect pda env multisig w a w' o) {j : ℕ} {p : Proposal}
    (hp : w.proposals[j]? = some p) :
    ∃ q, w'.proposals[j]? = some q ∧
      ∀ existed result, p.stage = .landed existed result → q.stage = .landed existed result := by
  have hset : ∀ {i : ℕ} {old new : Proposal}, w.proposals[i]? = some old →
      (∀ existed result, old.stage = .landed existed result →
        new.stage = .landed existed result) →
      ∃ q, (w.proposals.set i new)[j]? = some q ∧
        ∀ existed result, p.stage = .landed existed result → q.stage = .landed existed result := by
    intro i old new hold hkeep
    by_cases hij : i = j
    · subst hij
      cases hold.symm.trans hp
      exact ⟨new, set_self hp, hkeep⟩
    · exact ⟨p, (List.getElem?_set_ne hij).trans hp, fun _ _ h => h⟩
  cases he with
  | idle | clock | foreign | wallet | slide | reload | refused => exact ⟨p, hp, fun _ _ h => h⟩
  | submitted =>
    have hj : j < w.proposals.length := (List.getElem?_eq_some_iff.mp hp).1
    exact ⟨p, (List.getElem?_append_left hj).trans hp, fun _ _ h => h⟩
  | answered i old hold hstage => exact hset hold fun _ _ h => nomatch hstage.symm.trans h
  | landed i old known hold hstage => exact hset hold fun _ _ h => nomatch hstage.symm.trans h
  | settled i old known verdict hold =>
    rw [finish_proposals]
    exact hset hold fun _ _ h => h
  | raised i text old hold =>
    rw [finish_proposals]
    exact hset hold fun _ _ h => h

/-- A proposal is shown as made when a call returns an accepted verdict. -/
theorem shown_cases (he : Effect pda env multisig w a w' o) {i : ℕ}
    (hshown : w'.page.state = .proposed i) :
    w.page.state = .proposed i ∨
      ∃ p existed, w.proposals[i]? = some p ∧ p.stage = .landed existed (.ok ()) := by
  cases he with
  | idle | clock | foreign | wallet | slide | answered | landed => exact Or.inl hshown
  | reload | refused | submitted => cases hshown
  | settled j p existed result hp hstage =>
    rw [finish_state] at hshown
    split_ifs at hshown with hmount
    · cases result with
      | ok u =>
        cases hshown
        exact Or.inr ⟨p, existed, hp, hstage⟩
      | error e => cases hshown
    · exact Or.inl hshown
  | raised j text p hp =>
    rw [finish_state] at hshown
    split_ifs at hshown with hmount
    · cases hshown
    · exact Or.inl hshown

/-- The chain is touched by executed attempts alone. -/
theorem accounts_cases (he : Effect pda env multisig w a w' o) :
    w'.accounts = (program pda).machine.run w.accounts o.toList := by
  cases he with
  | idle | clock | foreign | wallet | slide | reload | refused | submitted | answered | landed =>
    rfl
  | settled | raised => exact finish_accounts _ _ _ _

/-- A page keeps its number or is a new one. -/
theorem mount_le (he : Effect pda env multisig w a w' o) : w.page.mount ≤ w'.page.mount := by
  cases he with
  | idle | clock | foreign | wallet | slide | refused | submitted | answered | landed =>
    exact le_rfl
  | reload => exact Nat.le_succ _
  | settled | raised => rw [finish_mount]

/-- A page that waits stops waiting when its call settles, or when it is left. -/
theorem waiting_cases (he : Effect pda env multisig w a w' o)
    (hstate : w.page.state = .proposing) :
    w'.page.state = .proposing ∨ w.page.mount < w'.page.mount ∨
      ∃ i : ℕ, ∃ p : Proposal, w.proposals[i]? = some p ∧ p.mount = w.page.mount ∧
        p.returned = false ∧ ∀ q : Proposal, w'.proposals[i]? = some q → q.returned = true := by
  have hfinish : ∀ {i : ℕ} {p : Proposal} (outcome : Except ClientError TxSig),
      w.proposals[i]? = some p → p.returned = false →
      (w.finish i p outcome).page.state = .proposing ∨
        w.page.mount < (w.finish i p outcome).page.mount ∨
        ∃ i' : ℕ, ∃ p' : Proposal, w.proposals[i']? = some p' ∧ p'.mount = w.page.mount ∧
          p'.returned = false ∧ ∀ q : Proposal, (w.finish i p outcome).proposals[i']? = some q →
            q.returned = true := by
    intro i p outcome hp hopen
    by_cases hmount : p.mount = w.page.mount
    · refine Or.inr (Or.inr ⟨i, p, hp, hmount, hopen, fun q hq => ?_⟩)
      rw [finish_proposals, set_self hp] at hq
      cases hq
      rfl
    · rw [finish_state, if_neg hmount]
      exact Or.inl hstate
  cases he with
  | idle | clock | foreign | wallet | slide | answered | landed => exact Or.inl hstate
  | submitted => exact Or.inl rfl
  | reload => exact Or.inr (Or.inl (Nat.lt_succ_self _))
  | refused e hcan =>
    rw [canSubmit, hstate] at hcan
    simp at hcan
  | settled i p existed result hp hstage hopen => exact hfinish _ hp hopen
  | raised i text p hp hopen => exact hfinish _ hp hopen

end Effect

/-- What holds in every state: the chain keeps a book, and of the calls of the
present page only one can be open, the one that the page waits for. -/
structure Consistent (w : Site) : Prop where
  /-- The chain represents a book. -/
  book : ∃ book, Represents pda book w.accounts
  /-- No call is of a later page. -/
  mount : ∀ (i : ℕ) (p : Proposal), w.proposals[i]? = some p → p.mount ≤ w.page.mount
  /-- The page waits for its open call. -/
  busy : ∀ (i : ℕ) (p : Proposal), w.proposals[i]? = some p → p.mount = w.page.mount →
    p.returned = false → w.page.state = .proposing
  /-- There is one open call at most. -/
  single : ∀ (i j : ℕ) (p q : Proposal), w.proposals[i]? = some p → w.proposals[j]? = some q →
    p.mount = w.page.mount → q.mount = w.page.mount → p.returned = false → q.returned = false →
    i = j
  /-- Every call stores a position of the slider. -/
  packed : ∀ (i : ℕ) (p : Proposal), w.proposals[i]? = some p →
    setEncryptedPolicy env (useOnchainClient p.publicKey) (encryptThreshold p.drawdownBps.bps) =
      .ok p.args

namespace Consistent

variable {pda env multisig} {w w' : Site} {a : EditorAction} {o : Option Attempt}

theorem opened_site (pda : PdaScheme) (env : Environment) (past : List Attempt) :
    Consistent pda env (opened pda past) where
  book := ⟨_, represents_run pda past⟩
  mount _ _ hp := by cases hp
  busy _ _ hp := by cases hp
  single _ _ _ _ hp := by cases hp
  packed _ _ hp := by cases hp

/-- Attempts keep a book. -/
theorem book_run {s : Accounts} (h : ∃ book, Represents pda book s) (attempts : List Attempt) :
    ∃ book, Represents pda book ((program pda).machine.run s attempts) :=
  (program pda).machine.run_invariant (I := fun s => ∃ book, Represents pda book s)
    (fun _ a hs => Represents.step hs a) h attempts

/-- A call of the present page was one before the step. -/
theorem present (h : Consistent pda env w) (he : Effect pda env multisig w a w' o) {i : ℕ}
    {p q : Proposal} (hp : w.proposals[i]? = some p) (hc : Effect.Carries p q)
    (hq : q.mount = w'.page.mount) : p.mount = w.page.mount := by
  have hold := h.mount i p hp
  have hgrow := he.mount_le
  have hcarry := hc.mount
  omega

theorem step (h : Consistent pda env w) (he : Effect pda env multisig w a w' o) :
    Consistent pda env w' where
  book := by
    rw [he.accounts_cases]
    exact book_run h.book _
  mount i q hq := by
    have hgrow := he.mount_le
    rcases he.proposal_cases hq with ⟨p, hp, hc⟩ | ⟨-, -, -, -, -, hmount, -⟩
    · have hold := h.mount i p hp
      rw [hc.mount]
      exact hold.trans hgrow
    · rw [hmount]
      exact hgrow
  busy i q hq hmount hopen := by
    rcases he.proposal_cases hq with ⟨p, hp, hc⟩ | ⟨-, -, -, -, -, -, -, hstate, -⟩
    · have hpresent := h.present he hp hc hmount
      have hstate := h.busy i p hp hpresent (hc.returned hopen)
      rcases he.waiting_cases hstate with hwait | hleft | ⟨j, p', hp', hmount', hopen', hsettled⟩
      · exact hwait
      · have hcarry := hc.mount
        omega
      · have hij := h.single i j p p' hp hp' hpresent hmount' (hc.returned hopen) hopen'
        subst hij
        exact absurd (hsettled q hq) (by rw [hopen]; exact Bool.false_ne_true)
    · exact hstate
  single i j q q' hq hq' hmount hmount' hopen hopen' := by
    -- A call begins only while the page does not wait, so no other one is open.
    have hfirst : ∀ {k : ℕ} {p r : Proposal}, w.proposals[k]? = some p → Effect.Carries p r →
        r.mount = w'.page.mount → r.returned = false → canSubmit multisig w.page = true →
        False := by
      intro k p r hp hc hr hropen hcan
      have hstate := h.busy k p hp (h.present he hp hc hr) (hc.returned hropen)
      rw [canSubmit, hstate] at hcan
      simp at hcan
    rcases he.proposal_cases hq with ⟨p, hp, hc⟩ | ⟨-, hi, hcan, -⟩
    · rcases he.proposal_cases hq' with ⟨p', hp', hc'⟩ | ⟨-, -, hcan, -⟩
      · exact h.single i j p p' hp hp' (h.present he hp hc hmount) (h.present he hp' hc' hmount')
          (hc.returned hopen) (hc'.returned hopen')
      · exact (hfirst hp hc hmount hopen hcan).elim
    · rcases he.proposal_cases hq' with ⟨p', hp', hc'⟩ | ⟨-, hj, -⟩
      · exact (hfirst hp' hc' hmount' hopen' hcan).elim
      · rw [hi, hj]
  packed i q hq := by
    rcases he.proposal_cases hq with ⟨p, hp, hc⟩ | ⟨-, -, -, -, -, -, -, -, hargs⟩
    · rw [hc.publicKey, hc.drawdownBps, hc.args]
      exact h.packed i p hp
    · exact hargs

theorem run (h : Consistent pda env w) (multisig : Option Pubkey) (actions : List EditorAction) :
    Consistent pda env ((site pda env multisig).run w actions) :=
  (site pda env multisig).run_invariant (fun r a hr => hr.step (step_effect pda env multisig r a)) h
    actions

end Consistent

section Stored

variable {pda env multisig}

/-- A position of the slider is read back as it is. -/
theorem threshold_stored {w : Site} {vault : Pubkey} {position : Slider} {args : PolicyArgs}
    {clock : Int64} (hargs : args.ciphertextRef.toList = encryptThreshold position.bps)
    (h : w.accounts (pda.address vault) = some (stored pda vault args clock)) :
    threshold pda w vault = some (.ok position.bps) := by
  have hrange : (position.bps : ℤ) % 2 ^ 64 = position.bps := by
    have := position.most
    omega
  have hread := decrypt_encrypt position.bps
  rw [hrange, ← hargs] at hread
  rw [threshold, h]
  exact congrArg some hread

/-- The transaction of a call is accepted and stores its bytes, or it is refused
without a trace. -/
theorem attempt_cases {s : Accounts} (h : ∃ book, Represents pda book s) (p : Proposal)
    (existed : Bool) (clock : Int64) :
    (((program pda).step s (p.attempt pda existed clock)).2 = .ok () ∧
      ((program pda).step s (p.attempt pda existed clock)).1 (pda.address p.publicKey) =
        some (stored pda p.publicKey p.args clock)) ∨
    ∃ e, (program pda).step s (p.attempt pda existed clock) = (s, .error e) :=
  @executed_cases pda (useOnchainClient p.publicKey) ⟨s, clock, fun _ => none⟩ h p.args existed

/-- An accepted transaction of a call stores its bytes. -/
theorem accepted_stored {s s' : Accounts} (h : ∃ book, Represents pda book s) {p : Proposal}
    {existed : Bool} {clock : Int64}
    (hstep : (program pda).step s (p.attempt pda existed clock) = (s', .ok ())) :
    s' (pda.address p.publicKey) = some (stored pda p.publicKey p.args clock) := by
  rcases attempt_cases h p existed clock with ⟨-, hstored⟩ | ⟨e, he⟩
  · rw [hstep] at hstored
    exact hstored
  · cases hstep.symm.trans he

/-- Attempts without the signature of a vault leave its threshold. -/
theorem run_not_signed {s : Accounts} (h : ∃ book, Represents pda book s) {vault : Pubkey}
    {attempts : List Attempt} (hsigned : ∀ x ∈ attempts, signedBy vault x = false) :
    (program pda).machine.run s attempts (pda.address vault) = s (pda.address vault) := by
  have hnone : attempts.filter (signedBy vault) = [].filter (signedBy vault) :=
    List.filter_eq_nil_iff.mpr fun x hx hsig => by
      rw [hsigned x hx] at hsig
      exact Bool.false_ne_true hsig
  exact ((vault_unwinding pda vault).same_view h h rfl hnone).1

/-- The accounts of a run are those of its attempts. -/
theorem accounts_run (w : Site) (actions : List EditorAction) :
    ((site pda env multisig).run w actions).accounts =
      (program pda).machine.run w.accounts (attemptsOf pda env multisig w actions) := by
  induction actions generalizing w with
  | nil => rfl
  | cons a actions ih =>
    have heffect := (step_effect pda env multisig w a).accounts_cases
    have hattempts : attemptsOf pda env multisig w (a :: actions) =
        (step pda env multisig w a).2.toList ++
          attemptsOf pda env multisig (step pda env multisig w a).1 actions := by
      rw [attemptsOf, Machine.outputs_cons, List.filterMap_cons]
      cases hout : ((site pda env multisig).step w a).2 with
      | none =>
        have hnone : (step pda env multisig w a).2 = none := hout
        rw [hnone]
        rfl
      | some x =>
        have hsome : (step pda env multisig w a).2 = some x := hout
        rw [hsome]
        rfl
    rw [Machine.run_cons, ih, hattempts, Machine.run_append, ← heffect]
    rfl

/-- Without another write of its vault a threshold stays. -/
theorem threshold_kept (multisig : Option Pubkey) {w : Site}
    (h : ∃ book, Represents pda book w.accounts) {vault : Pubkey}
    {actions : List EditorAction}
    (hsigned : ∀ x ∈ attemptsOf pda env multisig w actions, signedBy vault x = false) :
    threshold pda ((site pda env multisig).run w actions) vault = threshold pda w vault := by
  rw [threshold, accounts_run, run_not_signed h hsigned]
  rfl

end Stored

end RiskClaw.PolicyEditor
