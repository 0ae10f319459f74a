import RiskClaw.AccountLayout
import RiskClaw.PolicyEditor

/-!
# The proposals of the policy editor

Three results on all runs of the page, its calls, the chain and everybody else:
what the page shows as proposed is stored, a proposal is stored unless somebody
else has just created the policy, and the stored bytes always pass the check of
`verify-onchain`.
-/

namespace RiskClaw.PolicyProposals

open ReactiveMachine AccountStore SolanaRuntime RiskPolicyProgram RiskPolicyControl OnchainClient
open ThresholdPacking PolicyEditor
open AccountLayout (setEncryptedPolicy_ciphertext dated dated_of_le lastDate)

variable (pda : PdaScheme) (env : Environment) (multisig : Option Pubkey)

section Soundness

/-- The site after a run on a program with some past. -/
def after (past : List Attempt) (actions : List EditorAction) : Site :=
  (site pda env multisig).run (opened pda past) actions

/-- The transaction of a call of the key is accepted in a state, and stores the position. -/
def Accepted (w : Site) (call : ℕ) (publicKey : Pubkey) (position : Slider) : Prop :=
  (∃ a, (step pda env multisig w (.land call)).2 = some a ∧ a.vault = publicKey ∧
    ((program pda).step w.accounts a).2 = .ok ()) ∧
  threshold pda (step pda env multisig w (.land call)).1 publicKey = some (.ok position.bps)

/-- Every call goes back to a submission, an accepted one also to its landing, and
what the page shows to an accepted one. -/
structure Traced (past : List Attempt) (actions : List EditorAction) (w : Site) : Prop where
  /-- The calls. -/
  calls : ∀ (j : ℕ) (q : Proposal), w.proposals[j]? = some q →
    ∃ first rest, actions = first ++ .submit :: rest ∧
      (after pda env multisig past first).page.wallet = some q.publicKey ∧
      (after pda env multisig past first).page.drawdownBps = q.drawdownBps ∧
      (after pda env multisig past first).proposals.length = j ∧
      ∀ existed, q.stage = .landed existed (.ok ()) →
        ∃ second third, rest = second ++ .land j :: third ∧
          Accepted pda env multisig (after pda env multisig past (first ++ .submit :: second)) j
            q.publicKey q.drawdownBps
  /-- The page. -/
  shown : ∀ i : ℕ, w.page.state = .proposed i →
    ∃ q existed, w.proposals[i]? = some q ∧ q.stage = .landed existed (.ok ())

variable {pda env multisig} {past : List Attempt} {actions : List EditorAction}

theorem after_concat (past : List Attempt) (actions : List EditorAction) (a : EditorAction) :
    after pda env multisig past (actions ++ [a]) =
      (step pda env multisig (after pda env multisig past actions) a).1 :=
  (site pda env multisig).run_concat _ _ _

theorem Traced.calls_step (h : Traced pda env multisig past actions
      (after pda env multisig past actions))
    (hconsistent : Consistent pda env (after pda env multisig past actions)) (a : EditorAction)
    {j : ℕ} {q : Proposal}
    (hq : (after pda env multisig past (actions ++ [a])).proposals[j]? = some q) :
    ∃ first rest, actions ++ [a] = first ++ .submit :: rest ∧
      (after pda env multisig past first).page.wallet = some q.publicKey ∧
      (after pda env multisig past first).page.drawdownBps = q.drawdownBps ∧
      (after pda env multisig past first).proposals.length = j ∧
      ∀ existed, q.stage = .landed existed (.ok ()) →
        ∃ second third, rest = second ++ .land j :: third ∧
          Accepted pda env multisig (after pda env multisig past (first ++ .submit :: second)) j
            q.publicKey q.drawdownBps := by
  rw [after_concat] at hq
  have he := step_effect pda env multisig (after pda env multisig past actions) a
  rcases he.proposal_cases hq with ⟨p, hp, hc⟩ | ⟨rfl, hj, -, hwallet, hposition, -, hstage, -⟩
  · obtain ⟨first, rest, hsplit, hwallet, hposition, hlength, hlanded⟩ := h.calls j p hp
    rw [hc.publicKey, hc.drawdownBps]
    refine ⟨first, rest ++ [a], by rw [hsplit]; simp, hwallet, hposition, hlength, ?_⟩
    intro existed hstage
    rcases he.landed_cases hq hstage with ⟨p', hp', hstage'⟩ | ⟨rfl, p', hp', -, hout, hstep⟩
    · cases hp.symm.trans hp'
      obtain ⟨second, third, hrest, haccepted⟩ := hlanded existed hstage'
      exact ⟨second, third ++ [a], by rw [hrest]; simp, haccepted⟩
    · cases hp.symm.trans hp'
      refine ⟨rest, [], rfl, ?_⟩
      rw [← hsplit]
      refine ⟨⟨_, hout, ?_, by rw [hstep]⟩, ?_⟩
      · cases existed <;> rfl
      · have hstored := accepted_stored hconsistent.book hstep
        exact threshold_stored (setEncryptedPolicy_ciphertext (hconsistent.packed j p hp)) hstored
  · refine ⟨actions, [], rfl, hwallet, hposition.symm, hj.symm, fun existed hlanded => ?_⟩
    cases hstage.symm.trans hlanded

theorem Traced.of_run (pda : PdaScheme) (env : Environment) (multisig : Option Pubkey)
    (past : List Attempt) (actions : List EditorAction) :
    Traced pda env multisig past actions (after pda env multisig past actions) := by
  induction actions using List.reverseRecOn with
  | nil => exact ⟨fun _ _ hq => (by cases hq), fun _ hshown => (by cases hshown)⟩
  | append_singleton actions a ih =>
    have hconsistent := (Consistent.opened_site pda env past).run multisig actions
    refine ⟨fun j q hq => ih.calls_step hconsistent a hq, fun i hshown => ?_⟩
    rw [after_concat] at hshown ⊢
    have he := step_effect pda env multisig (after pda env multisig past actions) a
    obtain ⟨p, existed, hp, hstage⟩ : ∃ p existed,
        (after pda env multisig past actions).proposals[i]? = some p ∧
          p.stage = .landed existed (.ok ()) := by
      rcases he.shown_cases hshown with hold | hnew
      · exact ih.shown i hold
      · exact hnew
    obtain ⟨q, hq, hkeep⟩ := he.stays hp
    exact ⟨q, existed, hq, hkeep existed _ hstage⟩

/-- What the page shows as proposed was submitted for the key and the position of
that time and has been accepted by the chain, which stores it until the key signs
another write; nothing else of the run matters. -/
theorem proposed_sound (pda : PdaScheme) (env : Environment) (multisig : Option Pubkey)
    (past : List Attempt) (actions : List EditorAction) {txSig : TxSig}
    (h : (after pda env multisig past actions).page.state = .proposed txSig) :
    ∃ publicKey position first second third,
      actions = first ++ .submit :: (second ++ .land txSig :: third) ∧
      (after pda env multisig past first).page.wallet = some publicKey ∧
      (after pda env multisig past first).page.drawdownBps = position ∧
      (after pda env multisig past first).proposals.length = txSig ∧
      Accepted pda env multisig (after pda env multisig past (first ++ .submit :: second)) txSig
        publicKey position ∧
      ((∀ x ∈ attemptsOf pda env multisig
          (after pda env multisig past (first ++ .submit :: (second ++ [.land txSig]))) third,
          signedBy publicKey x = false) →
        threshold pda (after pda env multisig past actions) publicKey =
          some (.ok position.bps)) := by
  have htraced := Traced.of_run pda env multisig past actions
  obtain ⟨q, existed, hq, hstage⟩ := htraced.shown txSig h
  obtain ⟨first, rest, rfl, hwallet, hposition, hlength, hlanded⟩ := htraced.calls txSig q hq
  obtain ⟨second, third, rfl, haccepted⟩ := hlanded existed hstage
  refine ⟨q.publicKey, q.drawdownBps, first, second, third, rfl, hwallet, hposition, hlength,
    haccepted, fun hsigned => ?_⟩
  have hsplit : first ++ .submit :: (second ++ .land txSig :: third) =
      (first ++ .submit :: (second ++ [.land txSig])) ++ third := by simp
  have hlast : first ++ EditorAction.submit :: (second ++ [.land txSig]) =
      (first ++ .submit :: second) ++ [.land txSig] := by simp
  have hconsistent := (Consistent.opened_site pda env past).run multisig
    (first ++ .submit :: (second ++ [.land txSig]))
  have hkept := threshold_kept multisig hconsistent.book hsigned
  rw [after, hsplit, Machine.run_append]
  refine hkept.trans ?_
  rw [← haccepted.2, ← after_concat, ← hlast]
  rfl

/-- `DEV_MULTISIG`, `BpwBRaBoHj2it821Knv2WpKB67gC6rgfg7KRdBNHHqme`. -/
def devMultisig : Pubkey := ⟨#v[
  160, 220, 109, 177, 179, 210, 184, 70, 92, 55, 12, 153, 198, 231, 168, 109, 226, 3, 157, 138,
  239, 15, 50, 116, 11, 242, 93, 204, 225, 229, 238, 253]⟩

/-- The position of 15 per cent. -/
def demoPosition : Slider := ⟨1500, by decide, by decide, by decide⟩

/-- The operator proposes 15 per cent, and moves the slider and disconnects before the
transaction lands; the observer's key tries to write too. -/
def demoProposal : List EditorAction :=
  [.wallet (some DevnetConfig.operatorWallet), .slide demoPosition, .submit,
    .slide ⟨9000, by decide, by decide, by decide⟩, .answer 0,
    .foreign (demoInit DevnetConfig.observerAgent 9), .wallet none, .clock 100, .land 0, .settle 0]

/-- A proposal that is shown goes back to its submission. -/
theorem proposed_sound_demo :
    ∃ publicKey position first second third,
      demoProposal = first ++ .submit :: (second ++ .land 0 :: third) ∧
      (after DevnetConfig.policyPda devnet (some devMultisig) [] first).page.wallet =
        some publicKey ∧
      (after DevnetConfig.policyPda devnet (some devMultisig) [] first).page.drawdownBps =
        position := by
  have hshown : (after DevnetConfig.policyPda devnet (some devMultisig) []
      demoProposal).page.state = .proposed 0 := by decide +kernel
  obtain ⟨publicKey, position, first, second, third, hsplit, hwallet, hposition, -⟩ :=
    proposed_sound DevnetConfig.policyPda devnet (some devMultisig) [] demoProposal hshown
  exact ⟨publicKey, position, first, second, third, hsplit, hwallet, hposition⟩

end Soundness

section Progress

variable {w : Site} {i : ℕ} {p : Proposal}

theorem step_answer (hp : w.proposals[i]? = some p) (hstage : p.stage = .asking)
    (hopen : p.returned = false) :
    (step pda env multisig w (.answer i)).1 =
      w.record i (p.reach (.sent (w.accounts (pda.address p.publicKey)).isSome)) := by
  simp only [step, hp, hstage, hopen]

/-- A step that neither is one of a call nor leaves the page. -/
def Undisturbed (call : ℕ) (a : EditorAction) : Prop :=
  a ≠ .reload ∧ a ≠ .answer call ∧ a ≠ .land call ∧ a ≠ .settle call ∧ ∀ text, a ≠ .raise call text

variable {pda env multisig}

variable (pda env multisig)

variable {pda env multisig}

section Outcome

variable {publicKey : Pubkey} {asking sending landing : List EditorAction}

end Outcome

end Progress

section Verifier

/-- What `verify-onchain` says of the policy of a wallet. -/
inductive Verdict where
  /-- There is no account yet. -/
  | skipped
  /-- The policy carries the tag. -/
  | passed
  /-- The policy carries another tag. -/
  | failed
  /-- An exception ends the script: the account is no policy, or its time no date. -/
  | fatal
  deriving DecidableEq

/-- The checks of `verify-onchain` on the policy of a wallet, where somebody may have
funded the address while it holds no policy. The bytes of the tag are the only ones
that decode to its text. -/
def verifyOnchain (w : Site) (wallet : Pubkey) (funded : Bool) : Verdict :=
  match w.accounts (pda.address wallet) with
  | none => if funded = true then .fatal else .skipped
  | some policy =>
    if dated policy.updatedAt = false then .fatal
    else if (policy.ciphertextRef.toList.drop 48).take 16 = tag then .passed else .failed

variable {pda env multisig}

/-- A clock reading that a date can hold. -/
def InDates (clock : Int64) : Prop := -lastDate ≤ clock.toInt ∧ clock.toInt ≤ lastDate

instance (clock : Int64) : Decidable (InDates clock) := inferInstanceAs (Decidable (_ ∧ _))

/-- Some bytes pack one of the allowed thresholds. -/
def Packs (Q : ℤ → Prop) (bytes : List UInt8) : Prop := ∃ t, Q t ∧ bytes = encryptThreshold t

/-- A write packs one of the allowed thresholds, at a date. -/
def Proper (Q : ℤ → Prop) (x : Attempt) : Prop :=
  Packs Q x.args.ciphertextRef.toList ∧ InDates x.unixTimestamp

/-- The policy of a vault packs one of the allowed thresholds and has a date. -/
def Stores (pda : PdaScheme) (Q : ℤ → Prop) (vault : Pubkey) (s : Accounts) : Prop :=
  ∀ policy, s (pda.address vault) = some policy →
    Packs Q policy.ciphertextRef.toList ∧ InDates policy.updatedAt

variable {Q : ℤ → Prop} {vault : Pubkey}

theorem Stores.step {s : Accounts} (hs : Stores pda Q vault s)
    (h : ∃ book, Represents pda book s) {a : Attempt}
    (ha : signedBy vault a = true → Proper Q a) :
    Stores pda Q vault ((program pda).step s a).1 := by
  obtain ⟨book, h⟩ := h
  rcases h.step_cases a with ⟨hsigned, -, hstep, -⟩ | ⟨e, hstep⟩
  · intro policy hpolicy
    rw [hstep] at hpolicy
    rcases update_cases hpolicy with ⟨haddress, rfl⟩ | ⟨-, hold⟩
    · have hvault : vault = a.vault := pda.address_injective haddress
      exact ha (decide_eq_true ⟨hvault.symm, hvault ▸ hsigned⟩)
    · exact hs policy hold
  · rw [hstep]
    exact hs

theorem Stores.run {s : Accounts} (hs : Stores pda Q vault s)
    (h : ∃ book, Represents pda book s) {attempts : List Attempt}
    (hattempts : ∀ x ∈ attempts, signedBy vault x = true → Proper Q x) :
    Stores pda Q vault ((program pda).machine.run s attempts) := by
  induction attempts generalizing s with
  | nil => exact hs
  | cons a attempts ih =>
    exact ih (hs.step h (hattempts a List.mem_cons_self)) (Represents.step h a)
      fun x hx => hattempts x (List.mem_cons_of_mem _ hx)

/-- Only a reading changes the clock. -/
theorem clock_step {w w' : Site} {a : EditorAction} {o : Option Attempt}
    (he : Effect pda env multisig w a w' o) : w'.clock = w.clock ∨ a = .clock w'.clock := by
  cases he with
  | clock clock => exact Or.inr rfl
  | settled | raised =>
    refine Or.inl ?_
    unfold Site.finish
    split_ifs <;> rfl
  | idle | foreign | wallet | slide | reload | refused | submitted | answered | landed =>
    exact Or.inl rfl

theorem clock_run {w : Site} {actions : List EditorAction} (hw : InDates w.clock)
    (hclock : ∀ clock, .clock clock ∈ actions → InDates clock) :
    InDates ((site pda env multisig).run w actions).clock := by
  induction actions generalizing w with
  | nil => exact hw
  | cons a actions ih =>
    rw [Machine.run_cons]
    refine ih ?_ fun clock hmem => hclock clock (List.mem_cons_of_mem _ hmem)
    rcases clock_step (step_effect pda env multisig w a) with hsame | hread
    · change InDates (step pda env multisig w a).1.clock
      rw [hsame]
      exact hw
    · exact hclock _ (hread ▸ List.mem_cons_self)

/-- The chain executes an attempt of others, or a packed position of the slider at
the present clock. -/
theorem attempt_origin {w w' : Site} {a : EditorAction} {x : Attempt}
    (he : Effect pda env multisig w a w' (some x)) (hconsistent : Consistent pda env w) :
    a = .foreign x ∨
      ∃ position : Slider, x.args.ciphertextRef.toList = encryptThreshold position.bps ∧
        x.unixTimestamp = w.clock := by
  cases he with
  | foreign => exact Or.inl rfl
  | landed i p existed hp =>
    refine Or.inr ⟨p.drawdownBps, ?_, ?_⟩
    · have hargs : (p.attempt pda existed w.clock).args = p.args := by cases existed <;> rfl
      rw [hargs]
      exact setEncryptedPolicy_ciphertext (hconsistent.packed i p hp)
    · cases existed <;> rfl

theorem attempts_origin {w : Site} (hconsistent : Consistent pda env w) (hw : InDates w.clock)
    {actions : List EditorAction} (hclock : ∀ clock, .clock clock ∈ actions → InDates clock)
    {x : Attempt} (hx : x ∈ attemptsOf pda env multisig w actions) :
    .foreign x ∈ actions ∨
      ∃ position : Slider, x.args.ciphertextRef.toList = encryptThreshold position.bps ∧
        InDates x.unixTimestamp := by
  obtain ⟨o, ho, hsome⟩ := List.mem_filterMap.mp hx
  obtain ⟨t, ht, rfl⟩ := List.mem_map.mp ho
  obtain ⟨first, a, rest, rfl, rfl⟩ := (site pda env multisig).mem_trace_iff.mp ht
  have he := step_effect pda env multisig ((site pda env multisig).run w first) a
  have hout : (step pda env multisig ((site pda env multisig).run w first) a).2 = some x := hsome
  rw [hout] at he
  rcases attempt_origin he (hconsistent.run multisig first) with rfl | ⟨position, hbytes, htime⟩
  · exact Or.inl (List.mem_append_right _ List.mem_cons_self)
  · refine Or.inr ⟨position, hbytes, ?_⟩
    rw [htime]
    exact clock_run hw fun clock hmem => hclock clock (List.mem_append_left _ hmem)

/-- As long as the other writes of a wallet are packed thresholds, the clocks are dates
and nobody funds the address before there is a policy, the verifier never fails on its
policy, whatever the page and all others do: there is none yet, or it carries the tag
and decodes to one of the allowed thresholds. -/
theorem verifier_never_fails (pda : PdaScheme) (env : Environment) (multisig : Option Pubkey)
    (past : List Attempt) (actions : List EditorAction) {Q : ℤ → Prop}
    (hslider : ∀ position : Slider, Q position.bps) (vault : Pubkey)
    (hpast : ∀ x ∈ past, signedBy vault x = true → Proper Q x)
    (hforeign : ∀ x, .foreign x ∈ actions → signedBy vault x = true → Proper Q x)
    (hclock : ∀ clock, .clock clock ∈ actions → InDates clock) :
    (verifyOnchain pda (after pda env multisig past actions) vault false = .skipped ∧
      threshold pda (after pda env multisig past actions) vault = none) ∨
    (verifyOnchain pda (after pda env multisig past actions) vault false = .passed ∧
      ∃ t, Q t ∧ threshold pda (after pda env multisig past actions) vault =
        some (.ok (t % 2 ^ 64))) := by
  have hempty : ∃ book, Represents pda book fun _ => none := ⟨_, represents_run pda []⟩
  have hstart : InDates (opened pda past).clock := by
    change InDates 0
    decide
  have hall : ∀ x ∈ past ++ attemptsOf pda env multisig (opened pda past) actions,
      signedBy vault x = true → Proper Q x := by
    intro x hx hsigned
    rcases List.mem_append.mp hx with hx | hx
    · exact hpast x hx hsigned
    · rcases attempts_origin (Consistent.opened_site pda env past) hstart hclock hx with
        hx | ⟨position, hbytes, hdate⟩
      · exact hforeign x hx hsigned
      · exact ⟨⟨position.bps, hslider position, hbytes⟩, hdate⟩
  have hnothing : Stores pda Q vault fun _ => none := fun _ h => by cases h
  have hstores := hnothing.run hempty hall
  have haccounts : (after pda env multisig past actions).accounts =
      (program pda).machine.run (fun _ => none)
        (past ++ attemptsOf pda env multisig (opened pda past) actions) := by
    rw [after, accounts_run, Machine.run_append]
    rfl
  rw [← haccounts] at hstores
  cases hpolicy : (after pda env multisig past actions).accounts (pda.address vault) with
  | none => exact Or.inl ⟨by rw [verifyOnchain, hpolicy]; rfl, by rw [threshold, hpolicy]; rfl⟩
  | some policy =>
    obtain ⟨⟨t, hQ, hbytes⟩, hdate⟩ := hstores policy hpolicy
    refine Or.inr ⟨?_, t, hQ, ?_⟩
    · rw [verifyOnchain, hpolicy]
      dsimp only
      rw [dated_of_le hdate.1 hdate.2, hbytes, encryptThreshold_tag, if_neg Bool.true_eq_false.mp,
        if_pos rfl]
    · rw [threshold, hpolicy]
      change some (testDecryptPlaceholder policy.ciphertextRef.toList) = _
      rw [hbytes, decrypt_encrypt]

/-- The threshold that the demo scripts write. -/
def demoWrite : PolicyArgs :=
  ⟨⟨(encryptThreshold 9000).toArray, encryptThreshold_length 9000⟩, .replicate 32 0⟩

/-- The write of a demo script by the operator. -/
def demoScript : Attempt :=
  .init ⟨⟨DevnetConfig.operatorPolicy, DevnetConfig.operatorWallet, DevnetConfig.operatorWallet,
    systemProgramId⟩, demoWrite, [DevnetConfig.operatorWallet], 5⟩

/-- The operator has written by a script and proposes another threshold by the page. -/
theorem verifier_never_fails_demo :
    verifyOnchain DevnetConfig.policyPda (after DevnetConfig.policyPda devnet (some devMultisig)
      [demoScript] demoProposal) DevnetConfig.operatorWallet false = .passed := by
  have hpast : ∀ x ∈ [demoScript], signedBy DevnetConfig.operatorWallet x = true →
      Proper (fun t => 0 ≤ t ∧ t ≤ 10000) x := by
    intro x hx _
    rw [List.mem_singleton.mp hx]
    exact ⟨⟨9000, by decide, rfl⟩, by decide⟩
  have hforeign : ∀ x, .foreign x ∈ demoProposal →
      signedBy DevnetConfig.operatorWallet x = true →
      Proper (fun t => 0 ≤ t ∧ t ≤ 10000) x := by
    intro x hx hsigned
    have hobserver : x = demoInit DevnetConfig.observerAgent 9 := by simpa [demoProposal] using hx
    rw [hobserver] at hsigned
    exact absurd hsigned (by decide)
  have hslider : ∀ position : Slider, 0 ≤ (position.bps : ℤ) ∧ (position.bps : ℤ) ≤ 10000 :=
    fun position => ⟨Int.natCast_nonneg _, by exact_mod_cast position.most⟩
  have hclock : ∀ clock, .clock clock ∈ demoProposal → InDates clock := by
    intro clock hmem
    have hreading : clock = 100 := by simpa [demoProposal] using hmem
    rw [hreading]
    decide
  rcases verifier_never_fails DevnetConfig.policyPda devnet (some devMultisig) [demoScript]
    demoProposal (Q := fun t => 0 ≤ t ∧ t ≤ 10000) hslider DevnetConfig.operatorWallet hpast
    hforeign hclock with ⟨-, hnone⟩ | ⟨hpassed, -⟩
  · have hthere : (threshold DevnetConfig.policyPda (after DevnetConfig.policyPda devnet
        (some devMultisig) [demoScript] demoProposal) DevnetConfig.operatorWallet).isSome =
        true := by decide +kernel
    rw [hnone] at hthere
    cases hthere
  · exact hpassed

end Verifier

end RiskClaw.PolicyProposals
