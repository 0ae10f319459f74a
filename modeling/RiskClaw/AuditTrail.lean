import RiskClaw.AccountLayout
import RiskClaw.EventFeed
import RiskClaw.KeyTexts
import RiskClaw.SwigIsolation

/-!
# The audit page

While a wallet is connected the page listens for the events of `swig_delegation`.
It puts a row for each event that arrives in front of the others and shows them
with the latest time first. The listener throws at an event whose time is no safe
number, and a row whose time is no date cannot be shown, so the chain's clock is
taken to stay within the dates. The program executes the rebalances of one policy 30
seconds apart, so in whatever order events arrive, the rows of a policy are its
executed rebalances from the latest one on.
-/

namespace RiskClaw.AuditTrail

open ReactiveMachine AccountStore SpacedTimes SolanaRuntime SwigDelegation SwigRateLimit
open SwigIsolation EventFeed KeyTexts
open AccountLayout (milliseconds milliseconds_of_le lastDate)

/-- A row of the kind `rebalance-executed`, the only kind that the page makes. -/
structure AuditEvent where
  /-- Time in milliseconds. -/
  ts : ℤ
  /-- Text of the policy. -/
  policyHash : String
  /-- The action. -/
  action : String
  /-- Size in basis points. -/
  sizeBps : ℕ
  /-- Slippage in basis points. -/
  slippageBps : ℕ
  /-- Text of the guardian. -/
  guardian : String
  /-- Note in the place of a signature. -/
  txSig : String
  deriving DecidableEq

/-- The row of an event with a given time. -/
def rowAt (keys : PubkeyTexts) (e : RebalanceExecutedEvent) (ts : ℤ) : AuditEvent where
  ts := ts
  policyHash := (keys.toBase58 e.policy).text
  action := "EXIT"
  sizeBps := e.sizeBps.toNat
  slippageBps := 0
  guardian := (keys.toBase58 e.guardianAuthority).text
  txSig := "(see explorer — RebalanceExecutedEvent)"

/-- The row that the listener makes of an event, if it does not throw. -/
def row (keys : PubkeyTexts) (e : RebalanceExecutedEvent) : Option AuditEvent :=
  (milliseconds e.ts).map (rowAt keys e)

/-- The chain and the page. -/
structure Trail where
  /-- Accounts of `swig_delegation`. -/
  accounts : Accounts
  /-- The listener of the page and its messages. -/
  feed : Feed RebalanceExecutedEvent

/-- A step of the chain, of the page or of the network. -/
inductive AuditAction where
  /-- The chain executes a call of anybody. -/
  | execute (call : Call)
  /-- The wallet or the connection changes: the effect is cleaned up and runs
  again, and listens if there is a wallet. -/
  | wallet (connected : Bool)
  /-- A message arrives. -/
  | deliver (k : ℕ)

/-- One step, with the event that it emits. -/
def step (pda : PdaScheme) (w : Trail) : AuditAction → Trail × Option RebalanceExecutedEvent
  | .execute call =>
    match (program pda).step w.accounts call with
    | (accounts, .ok e) => (⟨accounts, w.feed.publish e⟩, some e)
    | (accounts, .error _) => (⟨accounts, w.feed⟩, none)
  | .wallet connected => (⟨w.accounts, w.feed.resubscribe connected⟩, none)
  | .deliver k => (⟨w.accounts, w.feed.deliver k⟩, none)

/-- The machine of the chain and the page. -/
def trail (pda : PdaScheme) : Machine Trail AuditAction (Option RebalanceExecutedEvent) :=
  ⟨step pda⟩

/-- `events`. -/
def events (keys : PubkeyTexts) (w : Trail) : List AuditEvent :=
  w.feed.received.filterMap (row keys)

/-- `sorted`, the rows of the table. -/
def sorted (keys : PubkeyTexts) (w : Trail) : List AuditEvent :=
  (events keys w).mergeSort fun a b => decide (b.ts ≤ a.ts)

/-- A page that is opened on a chain with some past. -/
def opened (pda : PdaScheme) (past : List Call) : Trail := ⟨accountsAfter pda past, .empty⟩

/-- The call of an action. -/
def callOf : AuditAction → Option Call
  | .execute call => some call
  | _ => none

/-- The calls of a run, on any policy. -/
def callsOf (actions : List AuditAction) : List Call := actions.filterMap callOf

section Log

variable (pda : PdaScheme)

/-- An executed call is published, and a refused one is not. -/
theorem step_execute (w : Trail) (call : Call) :
    step pda w (.execute call) =
      match ((program pda).step w.accounts call).2 with
      | .ok e => (⟨((program pda).step w.accounts call).1, w.feed.publish e⟩, some e)
      | .error _ => (⟨((program pda).step w.accounts call).1, w.feed⟩, none) := by
  rw [step]
  rcases (program pda).step w.accounts call with ⟨accounts, e | e⟩
  · rfl
  · rfl

/-- The events of a run, oldest first. -/
def logOf (w : Trail) (actions : List AuditAction) : List RebalanceExecutedEvent :=
  ((trail pda).outputs w actions).filterMap id

theorem logOf_cons (w : Trail) (a : AuditAction) (actions : List AuditAction) :
    logOf pda w (a :: actions) =
      (step pda w a).2.toList ++ logOf pda (step pda w a).1 actions := by
  rw [logOf, Machine.outputs_cons, List.filterMap_cons]
  cases hout : ((trail pda).step w a).2 with
  | none =>
    have hnone : (step pda w a).2 = none := hout
    rw [hnone]
    rfl
  | some e =>
    have hsome : (step pda w a).2 = some e := hout
    rw [hsome]
    rfl

/-- What the page and the network do does not touch the chain. -/
theorem log_eq_trace (w : Trail) (actions : List AuditAction) :
    logOf pda w actions =
      ((program pda).machine.trace w.accounts (callsOf actions)).filterMap
        fun t => t.output.toOption := by
  induction actions generalizing w with
  | nil => rfl
  | cons a actions ih =>
    rw [logOf_cons, ih]
    cases a with
    | execute call =>
      have hcalls : callsOf (.execute call :: actions) = call :: callsOf actions := rfl
      have hanswer : ((program pda).machine.transition w.accounts call).output =
          ((program pda).step w.accounts call).2 := rfl
      rw [hcalls, Machine.trace_cons, List.filterMap_cons, hanswer, step_execute]
      cases ((program pda).step w.accounts call).2 with
      | ok e => rfl
      | error _ => rfl
    | wallet connected => rfl
    | deliver k => rfl

/-- The events of one policy in a run are those of the chain. -/
theorem log_filter (w : Trail) (actions : List AuditAction) (policy : Pubkey) :
    (logOf pda w actions).filter (fun e => e.policy = policy) =
      eventsOf policy ((program pda).machine.trace w.accounts (callsOf actions)) := by
  rw [log_eq_trace, eventsOf]

variable {pda} {log : List RebalanceExecutedEvent} {w : Trail}

/-- Every event is known once at most, and none that has not been emitted. -/
theorem known_step (h : w.feed.known.Subperm log) (a : AuditAction) :
    (step pda w a).1.feed.known.Subperm (log ++ (step pda w a).2.toList) := by
  cases a with
  | execute call =>
    rw [step_execute]
    cases ((program pda).step w.accounts call).2 with
    | ok e =>
      change (w.feed.publish e).known.Subperm (log ++ [e])
      rcases w.feed.known_publish e with hsame | hmore
      · rw [hsame]
        exact h.trans (List.sublist_append_left log [e]).subperm
      · rw [hmore]
        exact (List.subperm_append_right [e]).mpr h
    | error _ => exact h.trans (List.sublist_append_left log []).subperm
  | wallet connected =>
    change (w.feed.resubscribe connected).known.Subperm (log ++ [])
    rw [w.feed.known_resubscribe, List.append_nil]
    exact h
  | deliver k =>
    change (w.feed.deliver k).known.Subperm (log ++ [])
    rw [List.append_nil]
    exact (w.feed.known_deliver k).trans h

theorem known_run (pda : PdaScheme) (h : w.feed.known.Subperm log) (actions : List AuditAction) :
    ((trail pda).run w actions).feed.known.Subperm (log ++ logOf pda w actions) := by
  induction actions generalizing w log with
  | nil =>
    have hnil : logOf pda w [] = [] := rfl
    rw [hnil, List.append_nil]
    exact h
  | cons a actions ih =>
    rw [Machine.run_cons, logOf_cons, ← List.append_assoc]
    exact ih (known_step h a)

/-- The page receives no event twice, and none that was not emitted since it was
opened. -/
theorem received_subperm (pda : PdaScheme) (past : List Call) (actions : List AuditAction) :
    ((trail pda).run (opened pda past) actions).feed.received.Subperm
      (logOf pda (opened pda past) actions) := by
  have hempty : (opened pda past).feed.known.Subperm [] := List.Subperm.refl []
  have hknown := known_run pda hempty actions
  exact (List.sublist_append_left _ _).subperm.trans hknown

end Log

section Table

variable {pda : PdaScheme} {past calls : List Call}

/-- Time of an event in seconds. -/
def time (e : RebalanceExecutedEvent) : ℤ := e.ts.toInt

/-- The events of calls that follow others keep the rate limit. -/
theorem events_spaced (pda : PdaScheme)
    (hclock : ∀ call ∈ past ++ calls, 0 < call.unixTimestamp.toInt)
    (policy : Pubkey) :
    Spaced 30 ((eventsOf policy
      ((program pda).machine.trace (accountsAfter pda past) calls)).map time) := by
  have hall := (Recorded.of_run pda policy hclock).spaced
  rw [eventTimes, Machine.trace_append, eventsOf_append, List.map_append] at hall
  exact hall.sublist (List.sublist_append_right _ _)

theorem ok_of_toOption {r : Except Rejection RebalanceExecutedEvent} {e : RebalanceExecutedEvent}
    (h : r.toOption = some e) : r = .ok e := by
  cases r with
  | ok x => exact congrArg _ (Option.some.inj h)
  | error x => cases h

/-- Every event is that of an exit. -/
theorem events_exit {s : Accounts} {policy : Pubkey} {e : RebalanceExecutedEvent}
    (he : e ∈ eventsOf policy ((program pda).machine.trace s calls)) : e.action = .exit := by
  obtain ⟨t, ht, hanswer⟩ := List.mem_filterMap.mp (List.mem_filter.mp he).1
  obtain ⟨front, call, back, -, rfl⟩ := (program pda).machine.mem_trace_iff.mp ht
  obtain ⟨haccepted, rfl, -⟩ := step_ok (ok_of_toOption hanswer)
  exact haccepted.2.2.1

/-- A positive clock reading that a date can hold. -/
def Datable (clock : Int64) : Prop := 0 < clock.toInt ∧ clock.toInt ≤ lastDate

instance (clock : Int64) : Decidable (Datable clock) := inferInstanceAs (Decidable (_ ∧ _))

/-- An event has the clock of a call of the run. -/
theorem log_datable {w : Trail} {actions : List AuditAction}
    (hclock : ∀ call ∈ callsOf actions, Datable call.unixTimestamp) {e : RebalanceExecutedEvent}
    (he : e ∈ logOf pda w actions) : Datable e.ts := by
  rw [log_eq_trace] at he
  obtain ⟨t, ht, hanswer⟩ := List.mem_filterMap.mp he
  obtain ⟨front, call, back, hcalls, rfl⟩ := (program pda).machine.mem_trace_iff.mp ht
  have hcall : call ∈ callsOf actions := by
    rw [hcalls]
    exact List.mem_append_right _ List.mem_cons_self
  obtain ⟨-, rfl, -⟩ := step_ok (ok_of_toOption hanswer)
  exact hclock call hcall

variable (keys : PubkeyTexts) {w : Trail}

/-- The row that a datable event gets. -/
def dueRow (e : RebalanceExecutedEvent) : AuditEvent := rowAt keys e (e.ts.toInt * 1000)

theorem row_eq {e : RebalanceExecutedEvent} (he : Datable e.ts) :
    row keys e = some (dueRow keys e) := by
  have hlow : -lastDate ≤ e.ts.toInt := by
    have hpositive := he.1
    have hbound : (0 : ℤ) ≤ lastDate := by decide
    omega
  rw [row, milliseconds_of_le hlow he.2]
  rfl

theorem rows_eq {es : List RebalanceExecutedEvent} (hes : ∀ e ∈ es, Datable e.ts) :
    (es.map (dueRow keys)).map some = es.map (row keys) := by
  rw [List.map_map]
  exact List.map_congr_left fun e he => (row_eq keys (hes e he)).symm

/-- The rows are sorted like their events. -/
theorem sorted_eq {w : Trail} (hw : ∀ e ∈ w.feed.received, Datable e.ts) :
    sorted keys w = (newestFirst time w.feed.received).map (dueRow keys) := by
  have hevents : events keys w = w.feed.received.map (dueRow keys) := by
    rw [events, ← List.filterMap_eq_map]
    exact List.filterMap_congr fun e he => row_eq keys (hw e he)
  rw [sorted, hevents]
  refine (List.map_mergeSort fun a _ b _ => ?_).symm
  have hscale : (dueRow keys b).ts ≤ (dueRow keys a).ts ↔ time b ≤ time a := by
    change b.ts.toInt * 1000 ≤ a.ts.toInt * 1000 ↔ b.ts.toInt ≤ a.ts.toInt
    omega
  exact decide_eq_decide.mpr hscale.symm

/-- The row of an event names its policy. -/
theorem row_policy (e : RebalanceExecutedEvent) (policy : Pubkey) :
    (dueRow keys e).policyHash = (keys.toBase58 policy).text ↔ e.policy = policy := by
  constructor
  · intro htext
    refine keys.toBase58_injective ?_
    have hsame : (keys.toBase58 e.policy).text = (keys.toBase58 policy).text := htext
    generalize keys.toBase58 e.policy = a at hsame
    generalize keys.toBase58 policy = b at hsame
    cases a
    cases b
    cases hsame
    rfl
  · rintro rfl
    rfl

/-- The rows of a policy in the table. -/
def rowsOf (w : Trail) (policy : Pubkey) : List AuditEvent :=
  (sorted keys w).filter fun r => r.policyHash = (keys.toBase58 policy).text

theorem rowsOf_eq {log : List RebalanceExecutedEvent} (hknown : w.feed.received.Subperm log)
    (hlog : ∀ e ∈ log, Datable e.ts) (policy : Pubkey)
    (hspaced : Spaced 30 ((log.filter fun e => e.policy = policy).map time)) :
    rowsOf keys w policy =
      ((log.filter fun e => e.policy = policy).filter fun e =>
        e ∈ w.feed.received).reverse.map (dueRow keys) := by
  have hshown := newestFirst_filter (p := fun e => decide (e.policy = policy)) hknown
    (hspaced.strictly_increasing (by decide))
  have hrows : (fun r : AuditEvent => decide (r.policyHash = (keys.toBase58 policy).text)) ∘
      dueRow keys = fun e => decide (e.policy = policy) :=
    funext fun e => decide_eq_decide.mpr (row_policy keys e policy)
  have hreceived : ∀ e ∈ w.feed.received, Datable e.ts := fun e he => hlog e (hknown.subset he)
  rw [rowsOf, sorted_eq keys hreceived, List.filter_map, hrows, hshown]

/-- Whatever the wallet and the network do, the rows of a policy are executed
exits in the opposite order of the chain, 30 seconds apart. -/
theorem rows_in_chain_order (pda : PdaScheme) (past : List Call) (actions : List AuditAction)
    (hclock : ∀ call ∈ past ++ callsOf actions, Datable call.unixTimestamp) (policy : Pubkey) :
    ∃ shown : List RebalanceExecutedEvent, shown.Sublist (eventsOf policy
        ((program pda).machine.trace (accountsAfter pda past) (callsOf actions))) ∧
      (rowsOf keys ((trail pda).run (opened pda past) actions) policy).map some =
        shown.reverse.map (row keys) ∧
      (∀ e ∈ shown, e.action = .exit) ∧
      (rowsOf keys ((trail pda).run (opened pda past) actions) policy).Pairwise
        fun a b => b.ts + 30000 ≤ a.ts := by
  have hlog := log_filter pda (opened pda past) actions policy
  have hspaced := events_spaced pda (fun call hcall => (hclock call hcall).1) policy
  have hdatable : ∀ e ∈ logOf pda (opened pda past) actions, Datable e.ts := fun e =>
    log_datable fun call hcall => hclock call (List.mem_append_right _ hcall)
  have hrows := rowsOf_eq keys (received_subperm pda past actions) hdatable policy (hlog ▸ hspaced)
  have hshown : ∀ e ∈ ((logOf pda (opened pda past) actions).filter fun e =>
      e.policy = policy).filter fun e =>
        e ∈ ((trail pda).run (opened pda past) actions).feed.received, Datable e.ts :=
    fun e he => hdatable e (List.mem_filter.mp (List.mem_filter.mp he).1).1
  rw [hlog] at hrows hshown
  obtain ⟨shown, hsub, hrows, hshown⟩ : ∃ shown : List RebalanceExecutedEvent, shown.Sublist
      (eventsOf policy
        ((program pda).machine.trace (accountsAfter pda past) (callsOf actions))) ∧
      rowsOf keys ((trail pda).run (opened pda past) actions) policy =
        shown.reverse.map (dueRow keys) ∧ ∀ e ∈ shown, Datable e.ts :=
    ⟨_, List.filter_sublist, hrows, hshown⟩
  refine ⟨shown, hsub, ?_, fun e he => events_exit (hsub.subset he), ?_⟩
  · rw [hrows]
    exact rows_eq keys fun e he => hshown e (List.mem_reverse.mp he)
  · rw [hrows, List.pairwise_map, List.pairwise_reverse]
    have htimes := List.pairwise_map.mp (hspaced.sublist (hsub.map time))
    refine htimes.imp fun {a b} hab => ?_
    change a.ts.toInt * 1000 + 30000 ≤ b.ts.toInt * 1000
    have hseconds : a.ts.toInt + 30 ≤ b.ts.toInt := hab
    omega

/-- Five calls of two keys on the demo policy, one of them too early; the last
events arrive in the wrong order, and the second one never. -/
def demoActions : List AuditAction :=
  [.wallet true, .execute (demoCall 100 DevnetConfig.guardianAgent 5000),
    .execute (demoCall 110 DevnetConfig.guardianAgent 5000),
    .execute (demoCall 150 DevnetConfig.operatorWallet 4000),
    .execute (demoCall 180 DevnetConfig.guardianAgent 3000),
    .execute (demoCall 210 DevnetConfig.guardianAgent 2000), .deliver 3, .deliver 0, .deliver 1]

/-- The rows of a run, in which the events have arrived in another order. -/
theorem rows_in_chain_order_demo :
    ((trail DevnetConfig.lastRebalancedPda).run (opened DevnetConfig.lastRebalancedPda [])
      demoActions).feed.received.map time = [180, 100, 210] ∧
    (rowsOf base58Texts ((trail DevnetConfig.lastRebalancedPda).run
      (opened DevnetConfig.lastRebalancedPda []) demoActions)
      DevnetConfig.operatorPolicy).Pairwise fun a b => b.ts + 30000 ≤ a.ts := by
  refine ⟨by decide +kernel, ?_⟩
  obtain ⟨-, -, -, -, hspaced⟩ := rows_in_chain_order base58Texts DevnetConfig.lastRebalancedPda []
    demoActions (by decide) DevnetConfig.operatorPolicy
  exact hspaced

/-- A step while the page keeps listening. -/
theorem reaches_step {log : List RebalanceExecutedEvent} {i : ℕ} {a : AuditAction}
    (ha : ∀ connected, a ≠ .wallet connected) (h : w.feed.Reaches log i) :
    (step pda w a).1.feed.Reaches (log ++ (step pda w a).2.toList) i := by
  cases a with
  | execute call =>
    rw [step_execute]
    cases ((program pda).step w.accounts call).2 with
    | ok e => exact h.publish e
    | error _ =>
      change w.feed.Reaches (log ++ []) i
      rw [List.append_nil]
      exact h
  | wallet connected => exact absurd rfl (ha connected)
  | deliver k =>
    change (w.feed.deliver k).Reaches (log ++ []) i
    rw [List.append_nil]
    exact h.deliver k

theorem reaches_run (pda : PdaScheme) {log : List RebalanceExecutedEvent} {i : ℕ}
    {actions : List AuditAction}
    (hactions : ∀ a ∈ actions, ∀ connected, a ≠ .wallet connected) (h : w.feed.Reaches log i) :
    ((trail pda).run w actions).feed.Reaches (log ++ logOf pda w actions) i := by
  induction actions generalizing w log with
  | nil =>
    have hnil : logOf pda w [] = [] := rfl
    rw [hnil, List.append_nil]
    exact h
  | cons a actions ih =>
    rw [Machine.run_cons, logOf_cons, ← List.append_assoc]
    exact ih (fun b hb => hactions b (List.mem_cons_of_mem _ hb))
      (reaches_step (hactions a List.mem_cons_self) h)

/-- Once all messages of a page that has been listening have arrived, its rows of a
policy are all rebalances executed since it listens, in front of earlier ones. -/
theorem rows_complete (pda : PdaScheme) (past : List Call) (before during : List AuditAction)
    (hclock : ∀ call ∈ past ++ callsOf (before ++ .wallet true :: during),
      Datable call.unixTimestamp)
    (hlistening : ∀ a ∈ during, ∀ connected, a ≠ .wallet connected)
    (hsettled : ((trail pda).run (opened pda past)
      (before ++ .wallet true :: during)).feed.Settled) (policy : Pubkey) :
    ∃ earlier : List RebalanceExecutedEvent, earlier.Sublist (eventsOf policy
        ((program pda).machine.trace (accountsAfter pda past) (callsOf before))) ∧
      (rowsOf keys ((trail pda).run (opened pda past) (before ++ .wallet true :: during))
        policy).map some =
        (earlier ++ eventsOf policy ((program pda).machine.trace
          ((trail pda).run (opened pda past) before).accounts (callsOf during))).reverse.map
          (row keys) := by
  -- The page at the moment when it begins to listen.
  obtain ⟨w, hw⟩ : ∃ w,
      w = (step pda ((trail pda).run (opened pda past) before) (.wallet true)).1 := ⟨_, rfl⟩
  have hstart : w.feed.Reaches [] ((trail pda).run (opened pda past) before).feed.subscriptions :=
    hw ▸ Feed.Reaches.start _
  have haccounts : w.accounts = ((trail pda).run (opened pda past) before).accounts := by
    rw [hw]
    rfl
  have hrun : (trail pda).run (opened pda past) (before ++ .wallet true :: during) =
      (trail pda).run w during := by
    rw [Machine.run_append, hw]
    rfl
  have hsplit : logOf pda (opened pda past) (before ++ .wallet true :: during) =
      logOf pda (opened pda past) before ++ logOf pda w during := by
    rw [logOf, Machine.outputs_append, List.filterMap_append, hw]
    rfl
  have hspaced := events_spaced pda (fun call hcall => (hclock call hcall).1) policy
  have hlog := log_filter pda (opened pda past) (before ++ .wallet true :: during) policy
  have hdatable : ∀ e ∈ logOf pda (opened pda past) (before ++ .wallet true :: during),
      Datable e.ts := fun e =>
    log_datable fun call hcall => hclock call (List.mem_append_right _ hcall)
  have hrows := rowsOf_eq keys (received_subperm pda past _) hdatable policy (hlog ▸ hspaced)
  have hreceived := (reaches_run pda hlistening hstart).received (hrun ▸ hsettled)
  have hall : ((logOf pda w during).filter fun e => e.policy = policy).filter (fun e =>
      e ∈ ((trail pda).run w during).feed.received) = eventsOf policy
        ((program pda).machine.trace w.accounts (callsOf during)) := by
    rw [← log_filter]
    exact List.filter_eq_self.mpr fun e he =>
      decide_eq_true (hreceived e (List.mem_filter.mp he).1)
  rw [hsplit] at hdatable
  rw [hsplit, List.filter_append, List.filter_append, log_filter, hrun, hall, haccounts] at hrows
  obtain ⟨earlier, hsub, hrows⟩ : ∃ earlier : List RebalanceExecutedEvent, earlier.Sublist
      (eventsOf policy
        ((program pda).machine.trace (accountsAfter pda past) (callsOf before))) ∧
      rowsOf keys ((trail pda).run w during) policy =
        (earlier ++ eventsOf policy ((program pda).machine.trace
          ((trail pda).run (opened pda past) before).accounts (callsOf during))).reverse.map
          (dueRow keys) := ⟨_, List.filter_sublist, hrows⟩
  refine ⟨earlier, hsub, ?_⟩
  rw [hrun, hrows]
  refine rows_eq keys fun e he => hdatable e ?_
  rcases List.mem_append.mp (List.mem_reverse.mp he) with hbefore | hduring
  · have hmem : e ∈ (logOf pda (opened pda past) before).filter fun e => e.policy = policy :=
      log_filter pda (opened pda past) before policy ▸ hsub.subset hbefore
    exact List.mem_append_left _ (List.mem_filter.mp hmem).1
  · rw [← haccounts, ← log_filter] at hduring
    exact List.mem_append_right _ (List.mem_filter.mp hduring).1

/-- A page that is opened, listens, and gets both events of another order. -/
theorem rows_complete_demo :
    (rowsOf base58Texts ((trail DevnetConfig.lastRebalancedPda).run
      (opened DevnetConfig.lastRebalancedPda [])
        ([] ++ .wallet true :: [.execute (demoCall 100 DevnetConfig.guardianAgent 5000),
          .execute (demoCall 140 DevnetConfig.guardianAgent 4000), .deliver 1, .deliver 0]))
      DevnetConfig.operatorPolicy).map some =
    [row base58Texts (executedEvent (demoCall 140 DevnetConfig.guardianAgent 4000)),
      row base58Texts (executedEvent (demoCall 100 DevnetConfig.guardianAgent 5000))] := by
  obtain ⟨earlier, hearlier, hrows⟩ := rows_complete base58Texts DevnetConfig.lastRebalancedPda []
    [] [.execute (demoCall 100 DevnetConfig.guardianAgent 5000),
      .execute (demoCall 140 DevnetConfig.guardianAgent 4000), .deliver 1, .deliver 0] (by decide)
    (by simp) (by decide +kernel) DevnetConfig.operatorPolicy
  have hnone : earlier = [] := List.sublist_nil.mp hearlier
  rw [hrows, hnone]
  decide +kernel

end Table

end RiskClaw.AuditTrail
