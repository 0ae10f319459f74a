import RiskClaw.ClientSignatures

/-!
# The client's write window against the chain's

The client answers from its cache for 30000 ms after it saw a confirmation;
the chain refuses for 30 s after the whole second in which it executed. With
both clocks on the same time, the two windows end together only when no time
passes between that second and the confirmation.
-/

namespace RiskClaw.ClientWindow

open ReactiveMachine AccountStore SolanaRuntime SwigDelegation OnchainClient ClientRuns
  ClientSignatures

/-- An executed step of the client's world. -/
abbrev ClientTransition := Transition World Action Answer

/-- The client's clock goes forward from the first full second on, and the
chain's clock shows the same time in whole seconds. -/
def Synchronized (t : ClientTransition) : Prop :=
  t.pre.ms ≤ t.post.ms ∧ 1000 ≤ t.post.ms ∧ t.post.clock.toInt = t.post.ms / 1000

instance (t : ClientTransition) : Decidable (Synchronized t) :=
  inferInstanceAs (Decidable (_ ∧ _ ∧ _))

/-- Every call on the policy at this moment, whoever signs it and whatever its
arguments, is refused as too soon. -/
def ChainRefuses (pda : PdaScheme) (w : World) (policy : Pubkey) : Prop :=
  ∀ call : Call, AccountsAccepted pda call → call.accounts.policy = policy →
    call.unixTimestamp = w.clock →
    ((program pda).step w.accounts call).2 = .error (.custom .rebalanceTooSoon)

theorem fullExit_accounts (pda : PdaScheme) (client : RealClient) (policy : Pubkey)
    (clock : Int64) : AccountsAccepted pda (fullExit pda client policy clock) :=
  ⟨List.mem_singleton_self _, rfl, rfl⟩

theorem fullExit_args (policy : Pubkey) : ArgsAccepted ⟨policy, .exit, 10000, 100, 1000, 995⟩ :=
  ⟨rfl, show (10000 : UInt16).toNat ≤ 10000 by decide, show (100 : UInt16).toNat ≤ 10000 by decide,
    show (1000 : UInt64).toNat * (10000 - (100 : UInt16).toNat) ≤ (995 : UInt64).toNat * 10000 by
      decide⟩

/-- In an open window the full EXIT is executed. -/
theorem fullExit_accepted {pda : PdaScheme} (client : RealClient) {w : World} {policy : Pubkey}
    (hopen : WindowOpen w.clock ((w.accounts (pda.address policy)).getD .zeroed)) :
    ((program pda).step w.accounts (fullExit pda client policy w.clock)).2 =
      .ok (executedEvent (fullExit pda client policy w.clock)) := by
  rw [step_answer_of_accounts _ (fullExit_accounts pda client policy w.clock)]
  refine (if_pos hopen).trans ?_
  rw [afterWindow_ok_iff.mpr ⟨fullExit_args policy, rfl⟩]
  rfl

/-- With agreeing clocks the chain refuses up to 30000 ms after the start of
the second that the policy's anchor holds, and not longer. -/
theorem chainRefuses_iff {pda : PdaScheme} (client : RealClient) {w : World} {policy : Pubkey}
    {lr : LastRebalanced} (hlr : w.accounts (pda.address policy) = some lr)
    (hpos : 0 < lr.timestamp.toInt) (hle : lr.timestamp.toInt ≤ w.clock.toInt)
    (hagree : w.clock.toInt = w.ms / 1000) :
    ChainRefuses pda w policy ↔ w.ms < 1000 * (lr.timestamp.toInt + 30) := by
  have hopen : WindowOpen w.clock ((w.accounts (pda.address policy)).getD .zeroed) ↔
      lr.timestamp.toInt + 30 ≤ w.clock.toInt := by
    rw [hlr, Option.getD_some]
    exact SwigRateLimit.windowOpen_iff_of_pos hpos
  constructor
  · intro h
    by_contra hlate
    have hok := fullExit_accepted client (hopen.mpr (by omega))
    rw [h _ (fullExit_accounts pda client policy w.clock) rfl rfl] at hok
    cases hok
  · intro hms call hacc hp hclock
    rw [step_answer_of_accounts _ hacc, hp, hclock, if_neg]
    rw [hopen]
    omega

/-- For an entry of the cache: the chain refuses while the age of the entry and its lag
behind the start of that second are together less than 30000 ms. -/
theorem chainRefuses_iff_age {pda : PdaScheme} (client : RealClient) {w : World}
    {policy : Pubkey} {lr : LastRebalanced} (hlr : w.accounts (pda.address policy) = some lr)
    (hpos : 0 < lr.timestamp.toInt) (hle : lr.timestamp.toInt ≤ w.clock.toInt)
    (hagree : w.clock.toInt = w.ms / 1000) (entry : WriteEntry) :
    ChainRefuses pda w policy ↔ (w.ms - entry.lastExecutedAt) +
      (entry.lastExecutedAt - 1000 * lr.timestamp.toInt) < 30000 := by
  rw [chainRefuses_iff client hlr hpos hle hagree]
  omega

/-- A call at a clock not before the stamp never sets an anchor back. -/
theorem anchor_grows {pda : PdaScheme} {s : Accounts} {address : Pubkey} {lr : LastRebalanced}
    (h : s address = some lr) {call : Call}
    (hle : lr.timestamp.toInt ≤ call.unixTimestamp.toInt) :
    ∃ lr', ((program pda).step s call).1 address = some lr' ∧
      lr.timestamp.toInt ≤ lr'.timestamp.toInt ∧
      lr'.timestamp.toInt ≤ call.unixTimestamp.toInt := by
  rcases step_cases pda s call with ⟨-, hs⟩ | ⟨-, e, hs⟩
  · rw [hs]
    by_cases ha : address = pda.address call.accounts.policy
    · subst ha
      exact ⟨_, Function.update_self _ _ _, hle, le_rfl⟩
    · exact ⟨lr, (Function.update_of_ne ha _ _).trans h, le_rfl, hle⟩
  · rw [hs]
    exact ⟨lr, h, le_rfl, hle⟩

/-- The anchor of a policy holds a clock between a given one and the present. -/
def AnchoredSince (pda : PdaScheme) (w : World) (policy : Pubkey) (ts : Int64) : Prop :=
  ∃ lr, w.accounts (pda.address policy) = some lr ∧ ts.toInt ≤ lr.timestamp.toInt ∧
    lr.timestamp.toInt ≤ w.clock.toInt

theorem AnchoredSince.step {pda : PdaScheme} {env : Environment} {client : RealClient}
    {w w' : World} {a : Action} {o : Answer} (he : Effect pda env client w a w' o)
    (hclock : w.clock.toInt ≤ w'.clock.toInt) {policy : Pubkey} {ts : Int64}
    (h : AnchoredSince pda w policy ts) : AnchoredSince pda w' policy ts := by
  obtain ⟨lr, hlr, hts, hle⟩ := h
  rcases he.accounts_cases with hsame | ⟨call, hcall, hnew⟩
  · exact ⟨lr, by rw [hsame, hlr], hts, hle.trans hclock⟩
  · obtain ⟨lr', hlr', hgrow, hle'⟩ :=
      anchor_grows hlr (show _ ≤ call.unixTimestamp.toInt by rwa [hcall])
    rw [hcall] at hle'
    exact ⟨lr', by rw [hnew, hlr'], hts.trans hgrow, hle'.trans hclock⟩

/-- What synchronized clocks guarantee of the anchors and of the cache. -/
structure Timed (pda : PdaScheme) (w : World) : Prop where
  /-- The clocks agree. -/
  agree : w.clock.toInt = w.ms / 1000
  /-- The anchor of an executed call is not older than its event. -/
  anchored : ∀ i f e, w.flights i = some f → f.landed = some (.ok e) →
    0 < e.ts.toInt ∧ AnchoredSince pda w f.submission.policyPubkey e.ts
  /-- A cache entry is not older than the event it confirms. -/
  cached : ∀ p entry, w.caches.writeCache p = some entry → ∃ f e,
    w.flights entry.lastTxSig = some f ∧ f.landed = some (.ok e) ∧
      f.submission.plan.positionId = p ∧ 1000 * e.ts.toInt ≤ entry.lastExecutedAt

namespace Timed

variable {pda : PdaScheme} {env : Environment} {client : RealClient} {w w' : World} {a : Action}
  {o : Answer}

theorem initial (accounts : Accounts) : Timed pda (World.initial accounts) where
  agree := rfl
  anchored _ _ _ h := nomatch h
  cached _ _ h := nomatch h

theorem anchored_step (h : Timed pda w) (he : Effect pda env client w a w' o)
    (hforward : w.ms ≤ w'.ms) (hpos : 1000 ≤ w'.ms) (hagree : w'.clock.toInt = w'.ms / 1000)
    {i : ℕ} {f' : Flight} {e : RebalanceExecutedEvent} (hf' : w'.flights i = some f')
    (hok : f'.landed = some (.ok e)) :
    0 < e.ts.toInt ∧ AnchoredSince pda w' f'.submission.policyPubkey e.ts := by
  have hclock : w.clock.toInt ≤ w'.clock.toInt := by
    rw [h.agree, hagree]
    omega
  rcases he.flight_cases hf' with
    hf | ⟨f, hf, rfl⟩ | ⟨f, call, hf, -, hcall, rfl, haccounts, hsame, -⟩ |
      ⟨_, _, -, -, -, -, -, rfl⟩
  · obtain ⟨hts, hanchor⟩ := h.anchored i f' e hf hok
    exact ⟨hts, hanchor.step he hclock⟩
  · obtain ⟨hts, hanchor⟩ := h.anchored i f e hf hok
    exact ⟨hts, hanchor.step he hclock⟩
  · obtain ⟨hpolicy, -, -, -, hts⟩ := event_of_call hcall (Option.some.inj hok)
    obtain ⟨-, -, hstep⟩ := step_ok (Option.some.inj hok)
    obtain ⟨_, -, rfl⟩ := Option.map_eq_some_iff.mp hcall
    rw [hts, ← hsame]
    refine ⟨by omega, ⟨w.clock, pda.bump f.submission.policyPubkey⟩, ?_, ?_, ?_⟩
    · rw [haccounts, hstep]
      exact Function.update_self _ _ _
    · rw [hsame]
    · rw [hsame]
  · cases hok

theorem cached_step (h : Timed pda w) (he : Effect pda env client w a w' o) {p : String}
    {entry : WriteEntry} (hc : w'.caches.writeCache p = some entry) :
    ∃ f e, w'.flights entry.lastTxSig = some f ∧ f.landed = some (.ok e) ∧
      f.submission.plan.positionId = p ∧ 1000 * e.ts.toInt ≤ entry.lastExecutedAt := by
  have hpast : ∃ f e, w.flights entry.lastTxSig = some f ∧ f.landed = some (.ok e) ∧
      f.submission.plan.positionId = p ∧ 1000 * e.ts.toInt ≤ entry.lastExecutedAt := by
    rcases he.cache_cases with ⟨hsame, -⟩ | ⟨i, f, e, hf, hok, -, hnew⟩
    · rw [hsame] at hc
      exact h.cached p entry hc
    · rw [hnew] at hc
      rcases update_cases hc with ⟨rfl, rfl⟩ | ⟨-, hold⟩
      · obtain ⟨-, lr, -, hts, hle⟩ := h.anchored i f e hf hok
        have hagree := h.agree
        exact ⟨f, e, hf, hok, rfl, show 1000 * e.ts.toInt ≤ w.ms by omega⟩
      · exact h.cached p entry hold
  obtain ⟨f, e, hf, hok, hp, hts⟩ := hpast
  obtain ⟨f', hf', hs, hl⟩ := he.flight_stays hf
  exact ⟨f', e, hf', hl _ hok, by rw [hs, hp], hts⟩

/-- The guarantee holds after every synchronized run of a new client. -/
theorem of_run (pda : PdaScheme) (env : Environment) (client : RealClient) (accounts : Accounts)
    {actions : List Action}
    (hsync : ∀ t ∈ (machine pda env client).trace (World.initial accounts) actions,
      Synchronized t) : Timed pda (worldAfter pda env client accounts actions) :=
  (machine pda env client).history_induction (P := fun _ w => Timed pda w) (initial accounts)
    (fun _ w a ht h =>
      have he := step_effect pda env client w a
      ⟨ht.2.2, fun _ _ _ => h.anchored_step he ht.1 ht.2.1 ht.2.2, fun _ _ => h.cached_step he⟩)
    hsync

end Timed

/-- In a synchronized run with the default window, an answer from the cache
agrees with the chain exactly until 30000 ms after the start of the second in
which the policy's last call was executed; always so when the cached success
was confirmed at the start of its second. Where the chain does refuse, the call
would have resolved with the same signature had it submitted. -/
theorem shortcut_agrees_iff (pda : PdaScheme) (env : Environment) (client : RealClient)
    (accounts : Accounts) (actions : List Action) (hwindow : client.writeThrottleMs = 30000)
    (hsync : ∀ t ∈ (machine pda env client).trace (World.initial accounts) actions, Synchronized t)
    {i : ℕ} {plan : RebalancePlan} {sig : TxSig}
    (h : (ClientRuns.step pda env client (worldAfter pda env client accounts actions)
      (.invoke i plan)).2 = .answered sig) :
    ∃ policy lr entry e, env.publicKey plan.positionId = .ok policy ∧
      (worldAfter pda env client accounts actions).accounts (pda.address policy) = some lr ∧
      .confirmed plan.positionId entry ∈ logOf pda env client accounts actions ∧
      entry.lastTxSig = sig ∧ .landed sig (.ok e) ∈ logOf pda env client accounts actions ∧
      (ChainRefuses pda (worldAfter pda env client accounts actions) policy ↔
        (worldAfter pda env client accounts actions).ms < 1000 * (lr.timestamp.toInt + 30)) ∧
      (entry.lastExecutedAt ≤ 1000 * e.ts.toInt →
        ChainRefuses pda (worldAfter pda env client accounts actions) policy) ∧
      ∀ sizeBps, Submission.caught ⟨plan, policy, sizeBps, some entry⟩
        (env.preflightErrorText (.custom .rebalanceTooSoon)) = .ok sig := by
  have hr := Recorded.of_run pda env client accounts actions
  have ht := Timed.of_run pda env client accounts hsync
  obtain ⟨_, _, policy, entry, ha, -, hkey, hcached, rfl, hyoung⟩ :=
    (step_effect pda env client _ (.invoke i plan)).answered_cases h
  cases ha
  obtain ⟨f, e, hf, hok, hp, hlag⟩ := ht.cached _ _ hcached
  have hpolicy : f.submission.policyPubkey = policy := by
    have hs := (flights_sound pda env client accounts actions _ f hf).key
    rw [hp, hkey] at hs
    exact (Except.ok.inj hs).symm
  obtain ⟨hpos, lr, hlr, hts, hle⟩ := ht.anchored _ f e hf hok
  rw [hpolicy] at hlr
  have hiff := chainRefuses_iff client hlr (by omega) hle ht.agree
  have hconfirmed : .confirmed plan.positionId entry ∈ logOf pda env client accounts actions := by
    rw [hr.cached] at hcached
    exact mem_confirmationsOn.mp (List.mem_of_getLast? hcached)
  refine ⟨policy, lr, entry, e, hkey, hlr, hconfirmed, rfl, hr.landed _ f _ hf hok, hiff, ?_, ?_⟩
  · intro hnolag
    -- Without lag, the age alone decides, and the client answers while it is below.
    rw [chainRefuses_iff_age client hlr (by omega) hle ht.agree entry]
    omega
  · intro sizeBps
    rcases Submission.caught_cases ⟨plan, policy, sizeBps, some entry⟩
      (env.preflightErrorText (.custom .rebalanceTooSoon)) with ⟨c, hc, -, hok⟩ | ⟨hc | hm, -⟩
    · cases hc
      exact hok
    · cases hc
    · exact absurd ((env.names_error .rebalanceTooSoon).symm.trans hm) (by decide)

/-- An EXIT executed in the first second and confirmed five seconds later, with
another plan at a given time. -/
def confirmedLate (nextMs : ℤ) (nextClock : Int64) : List Action :=
  [.clocks 1000 1, .invoke 0 (demoExit 10000), .land 0, .clocks 6000 6, .settle 0,
    .clocks nextMs nextClock]

/-- The rule one millisecond before the chain's window ends. -/
theorem shortcut_agrees_iff_demo :
    ChainRefuses DevnetConfig.lastRebalancedPda
      (worldAfter DevnetConfig.lastRebalancedPda devnet demoClient (fun _ => none)
        (confirmedLate 30999 30)) DevnetConfig.operatorPolicy := by
  obtain ⟨policy, lr, _, _, hkey, hlr, -, -, -, hiff, -⟩ := shortcut_agrees_iff
    DevnetConfig.lastRebalancedPda devnet demoClient (fun _ => none) (confirmedLate 30999 30)
    rfl (by decide)
    (show (ClientRuns.step DevnetConfig.lastRebalancedPda devnet demoClient
      (worldAfter DevnetConfig.lastRebalancedPda devnet demoClient (fun _ => none)
        (confirmedLate 30999 30)) (.invoke 1 (demoExit 10000))).2 = .answered 0 from rfl)
  cases (show Except.ok DevnetConfig.operatorPolicy = Except.ok policy from hkey)
  cases (show some ⟨1, 254⟩ = some lr from hlr)
  exact hiff.mpr (by decide)

/-- From then on until 36000 ms the client answers from its cache although the
chain would execute the EXIT. -/
theorem shortcut_suppresses_exit :
    (∀ t ∈ (machine DevnetConfig.lastRebalancedPda devnet demoClient).trace
      (World.initial fun _ => none) (confirmedLate 31000 31), Synchronized t) ∧
    (ClientRuns.step DevnetConfig.lastRebalancedPda devnet demoClient
      (worldAfter DevnetConfig.lastRebalancedPda devnet demoClient (fun _ => none)
        (confirmedLate 31000 31)) (.invoke 1 (demoExit 10000))).2 = .answered 0 ∧
    ((program DevnetConfig.lastRebalancedPda).step
      (worldAfter DevnetConfig.lastRebalancedPda devnet demoClient (fun _ => none)
        (confirmedLate 31000 31)).accounts
      (fullExit DevnetConfig.lastRebalancedPda demoClient DevnetConfig.operatorPolicy 31)).2 =
      .ok ⟨DevnetConfig.operatorPolicy, DevnetConfig.guardianAgent, .exit, 10000, 31⟩ :=
  ⟨by decide, rfl, rfl⟩

end RiskClaw.ClientWindow
