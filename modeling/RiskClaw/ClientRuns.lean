import RiskClaw.OnchainClient
import RiskClaw.SwigRateLimit

/-!
# Overlapping calls through one client

One client, the `swig_delegation` program and the two clocks form a machine.
A call is invoked, its transaction is executed by the chain (or refused by the
preflight, which changes nothing either), and its continuation runs in the
client; other calls may fall between any two of these. A transaction may also be
lost or fail in transport, and third parties call the program as they like.
`Effect` lists everything a step can do.
-/

namespace RiskClaw.ClientRuns

open ReactiveMachine AccountStore SolanaRuntime SwigDelegation OnchainClient

/-- A call that awaits, or has awaited, its transaction. -/
structure Flight where
  /-- What the call remembers across its `await`. -/
  submission : Submission
  /-- What the chain made of the transaction, once executed. -/
  landed : Option (Except Rejection RebalanceExecutedEvent)
  /-- Whether the continuation has run. -/
  returned : Bool

/-- The client, the program's accounts, the clocks and the calls. -/
structure World where
  /-- The client's two maps. -/
  caches : Caches
  /-- Accounts of `swig_delegation`. -/
  accounts : Accounts
  /-- `Date.now()` of the client. -/
  ms : ℤ
  /-- The chain's clock. -/
  clock : Int64
  /-- The submitted calls by number. -/
  flights : ℕ → Option Flight

namespace World

/-- A new client on a chain in any state, before the first clock reading. -/
def initial (accounts : Accounts) : World := ⟨.empty, accounts, 0, 0, fun _ => none⟩

/-- Record the state of a call. -/
def track (w : World) (i : ℕ) (f : Flight) : World :=
  { w with flights := Function.update w.flights i (some f) }

end World

/-- One step of the client, of the chain or of a clock. -/
inductive Action where
  /-- Both clocks are read anew. -/
  | clocks (ms : ℤ) (clock : Int64)
  /-- `checkThresholdBreach`. -/
  | check (positionId : String) (metrics : PositionMetrics)
  /-- `executePrivateRebalance`, up to its `await`. -/
  | invoke (call : ℕ) (plan : RebalancePlan)
  /-- The chain executes the transaction of a call. -/
  | land (call : ℕ)
  /-- The continuation of a call runs with what the chain answered. -/
  | settle (call : ℕ)
  /-- The continuation of a call runs with an error of the transport. -/
  | fault (call : ℕ) (error : String)
  /-- Somebody else calls the program. -/
  | foreign (call : Call)

/-- What is seen of a step. -/
inductive Answer where
  /-- Nothing: the step was not possible, or a clock was read. -/
  | idle
  /-- Result of a threshold check. -/
  | checked (result : ThresholdCheckResult)
  /-- A call rejected. -/
  | failed (error : ClientError)
  /-- A call resolved from the cache without submitting. -/
  | answered (sig : TxSig)
  /-- A call submitted its transaction. -/
  | submitted (call : ℕ)
  /-- The transaction of a call was executed. -/
  | landed (call : ℕ) (result : Except Rejection RebalanceExecutedEvent)
  /-- A call resolved with its own transaction and cached this entry. -/
  | confirmed (positionId : String) (entry : WriteEntry)
  /-- A call resolved from its `catch` branch. -/
  | recovered (sig : TxSig)
  /-- Answer to a third party. -/
  | foreign (result : Except Rejection RebalanceExecutedEvent)

/-- The outcome of a `catch` branch as it is seen. -/
def Answer.ofCaught : Except ClientError TxSig → Answer
  | .ok sig => recovered sig
  | .error e => failed e

/-- A `catch` branch is seen as a recovery or as a failure, and as nothing else. -/
theorem Answer.ofCaught_eq {r : Except ClientError TxSig} {o : Answer} (h : ofCaught r = o) :
    (∃ sig, r = .ok sig ∧ o = .recovered sig) ∨ ∃ e, r = .error e ∧ o = .failed e := by
  cases r with
  | ok sig => exact Or.inl ⟨sig, rfl, h.symm⟩
  | error e => exact Or.inr ⟨e, rfl, h.symm⟩

variable (pda : PdaScheme) (env : Environment) (client : RealClient)

/-- One step. A call number is used for one submission only, a transaction is
executed at most once and a continuation runs at most once. -/
def step (w : World) : Action → World × Answer
  | .clocks ms clock => ({ w with ms := ms, clock := clock }, .idle)
  | .check positionId metrics =>
    let r := checkThresholdBreach client w.ms w.caches positionId metrics
    ({ w with caches := r.1 }, .checked r.2)
  | .invoke i plan =>
    match w.flights i with
    | some _ => (w, .idle)
    | none =>
      match executePrivateRebalance env client w.ms w.caches plan with
      | .threw e => (w, .failed e)
      | .answered sig => (w, .answered sig)
      | .submitted s => (w.track i ⟨s, none, false⟩, .submitted i)
  | .land i =>
    match w.flights i with
    | some ⟨s, none, returned⟩ =>
      match s.call pda client w.clock with
      | none => (w, .idle)
      | some call =>
        let r := (program pda).step w.accounts call
        ({ w.track i ⟨s, some r.2, returned⟩ with accounts := r.1 }, .landed i r.2)
    | _ => (w, .idle)
  | .settle i =>
    match w.flights i with
    | some ⟨s, some (.ok e), false⟩ =>
      ({ w.track i ⟨s, some (.ok e), true⟩ with caches := s.confirmed i w.ms w.caches },
        .confirmed s.plan.positionId ⟨i, w.ms⟩)
    | some ⟨s, some (.error e), false⟩ =>
      (w.track i ⟨s, some (.error e), true⟩, .ofCaught (s.caught (env.refusalText i e)))
    | _ => (w, .idle)
  | .fault i error =>
    match w.flights i with
    | some ⟨s, landed, false⟩ => (w.track i ⟨s, landed, true⟩, .ofCaught (s.caught error))
    | _ => (w, .idle)
  | .foreign call =>
    let r := (program pda).step w.accounts { call with unixTimestamp := w.clock }
    ({ w with accounts := r.1 }, .foreign r.2)

/-- The machine of one client. -/
def machine : Machine World Action Answer := ⟨step pda env client⟩

/-- Everything a step can do, with what must hold for it. -/
inductive Effect (w : World) : Action → World → Answer → Prop where
  /-- A clock reading. -/
  | clocks (ms : ℤ) (clock : Int64) :
    Effect w (.clocks ms clock) { w with ms := ms, clock := clock } .idle
  /-- A threshold check, which leaves the write cache alone. -/
  | check (positionId : String) (metrics : PositionMetrics) :
    Effect w (.check positionId metrics)
      { w with caches := (checkThresholdBreach client w.ms w.caches positionId metrics).1 }
      (.checked (checkThresholdBreach client w.ms w.caches positionId metrics).2)
  /-- An impossible step. -/
  | idle (a : Action) : Effect w a w .idle
  /-- A call throws before its `await`. -/
  | threw (i : ℕ) (plan : RebalancePlan) (e : ClientError) :
    Effect w (.invoke i plan) w (.failed e)
  /-- A call is answered from a young cache entry. -/
  | answered (i : ℕ) (plan : RebalancePlan) (policyPubkey : Pubkey) (cached : WriteEntry)
    (hexit : plan.action = .exit) (hkey : env.publicKey plan.positionId = .ok policyPubkey)
    (hcached : w.caches.writeCache plan.positionId = some cached)
    (hyoung : w.ms - cached.lastExecutedAt < client.writeThrottleMs) :
    Effect w (.invoke i plan) w (.answered cached.lastTxSig)
  /-- A call submits and remembers the cache entry. -/
  | submitted (i : ℕ) (plan : RebalancePlan) (policyPubkey : Pubkey)
    (hnew : w.flights i = none) (hexit : plan.action = .exit)
    (hkey : env.publicKey plan.positionId = .ok policyPubkey) :
    Effect w (.invoke i plan)
      (w.track i ⟨⟨plan, policyPubkey, env.encodeU16 plan.sizeBps,
        w.caches.writeCache plan.positionId⟩, none, false⟩) (.submitted i)
  /-- The chain executes a transaction. -/
  | landed (i : ℕ) (f : Flight) (call : Call) (hf : w.flights i = some f) (hopen : f.landed = none)
    (hcall : f.submission.call pda client w.clock = some call) :
    Effect w (.land i)
      { w.track i { f with landed := some ((program pda).step w.accounts call).2 } with
        accounts := ((program pda).step w.accounts call).1 }
      (.landed i ((program pda).step w.accounts call).2)
  /-- A call resolves with its own transaction. -/
  | confirmed (i : ℕ) (f : Flight) (e : RebalanceExecutedEvent) (hf : w.flights i = some f)
    (hok : f.landed = some (.ok e)) (hwaits : f.returned = false) :
    Effect w (.settle i)
      { w.track i { f with returned := true } with
        caches := f.submission.confirmed i w.ms w.caches }
      (.confirmed f.submission.plan.positionId ⟨i, w.ms⟩)
  /-- A call learns that its transaction was refused. -/
  | refused (i : ℕ) (f : Flight) (e : Rejection) (hf : w.flights i = some f)
    (herr : f.landed = some (.error e)) (hwaits : f.returned = false) :
    Effect w (.settle i) (w.track i { f with returned := true })
      (.ofCaught (f.submission.caught (env.refusalText i e)))
  /-- A call learns of an error of the transport. -/
  | faulted (i : ℕ) (f : Flight) (error : String) (hf : w.flights i = some f)
    (hwaits : f.returned = false) :
    Effect w (.fault i error) (w.track i { f with returned := true })
      (.ofCaught (f.submission.caught error))
  /-- The chain executes a third party's call. -/
  | foreign (call : Call) :
    Effect w (.foreign call)
      { w with accounts :=
          ((program pda).step w.accounts { call with unixTimestamp := w.clock }).1 }
      (.foreign ((program pda).step w.accounts { call with unixTimestamp := w.clock }).2)

/-- Every step has one of the listed effects. -/
theorem step_effect (w : World) (a : Action) :
    Effect pda env client w a (step pda env client w a).1 (step pda env client w a).2 := by
  cases a with
  | clocks ms clock => exact .clocks ms clock
  | check positionId metrics => exact .check positionId metrics
  | invoke i plan =>
    cases hf : w.flights i with
    | some f => simpa only [step, hf] using Effect.idle _
    | none =>
      rcases executePrivateRebalance_cases env client w.ms w.caches plan with
        ⟨e, he⟩ | ⟨hexit, policyPubkey, hkey, ⟨cached, hc, hyoung, he⟩ | ⟨-, he⟩⟩
      · simpa only [step, hf, he] using Effect.threw i plan e
      · simpa only [step, hf, he] using
          Effect.answered i plan policyPubkey cached hexit hkey hc hyoung
      · simpa only [step, hf, he] using Effect.submitted i plan policyPubkey hf hexit hkey
  | land i =>
    rcases hf : w.flights i with - | ⟨s, - | r, returned⟩
    · simpa only [step, hf] using Effect.idle _
    · cases hcall : s.call pda client w.clock with
      | none => simpa only [step, hf, hcall] using Effect.idle _
      | some call => simpa only [step, hf, hcall] using Effect.landed i _ call hf rfl hcall
    · simpa only [step, hf] using Effect.idle _
  | settle i =>
    rcases hf : w.flights i with - | ⟨s, - | e | e, - | -⟩
    · simpa only [step, hf] using Effect.idle _
    · simpa only [step, hf] using Effect.idle _
    · simpa only [step, hf] using Effect.idle _
    · simpa only [step, hf] using Effect.refused i _ e hf rfl rfl
    · simpa only [step, hf] using Effect.idle _
    · simpa only [step, hf] using Effect.confirmed i _ e hf rfl rfl
    · simpa only [step, hf] using Effect.idle _
  | fault i error =>
    rcases hf : w.flights i with - | ⟨s, landed, - | -⟩
    · simpa only [step, hf] using Effect.idle _
    · simpa only [step, hf] using Effect.faulted i _ error hf rfl
    · simpa only [step, hf] using Effect.idle _
  | foreign call => exact .foreign call

namespace Effect

variable {pda env client} {w w' : World} {a : Action} {o : Answer}

/-- How the calls can change: one is new, or one was executed, or one has
returned; all others are as they were. -/
theorem flight_cases (h : Effect pda env client w a w' o) {j : ℕ} {f' : Flight}
    (hf' : w'.flights j = some f') :
    w.flights j = some f' ∨
    (∃ f, w.flights j = some f ∧ f' = { f with returned := true }) ∨
    (∃ f call, w.flights j = some f ∧ f.landed = none ∧
      f.submission.call pda client w.clock = some call ∧
      f' = { f with landed := some ((program pda).step w.accounts call).2 } ∧
      w'.accounts = ((program pda).step w.accounts call).1 ∧ w'.clock = w.clock ∧
      o = .landed j ((program pda).step w.accounts call).2) ∨
    ∃ plan policyPubkey, a = .invoke j plan ∧ w.flights j = none ∧ plan.action = .exit ∧
      env.publicKey plan.positionId = .ok policyPubkey ∧ o = .submitted j ∧
      f' = ⟨⟨plan, policyPubkey, env.encodeU16 plan.sizeBps,
        w.caches.writeCache plan.positionId⟩, none, false⟩ := by
  cases h with
  | clocks | check | idle | threw | answered | foreign => exact Or.inl hf'
  | submitted i plan policyPubkey hnew hexit hkey =>
    rcases update_cases hf' with ⟨rfl, rfl⟩ | ⟨-, hold⟩
    · exact Or.inr (Or.inr (Or.inr ⟨plan, policyPubkey, rfl, hnew, hexit, hkey, rfl, rfl⟩))
    · exact Or.inl hold
  | landed i f call hf hopen hcall =>
    rcases update_cases hf' with ⟨rfl, rfl⟩ | ⟨-, hold⟩
    · exact Or.inr (Or.inr (Or.inl ⟨f, call, hf, hopen, hcall, rfl, rfl, rfl, rfl⟩))
    · exact Or.inl hold
  | confirmed i f _ hf | refused i f _ hf | faulted i f _ hf =>
    rcases update_cases hf' with ⟨rfl, rfl⟩ | ⟨-, hold⟩
    · exact Or.inr (Or.inl ⟨f, hf, rfl⟩)
    · exact Or.inl hold

/-- A submitted call stays, with its submission and with its verdict. -/
theorem flight_stays (h : Effect pda env client w a w' o) {j : ℕ} {f : Flight}
    (hf : w.flights j = some f) :
    ∃ f', w'.flights j = some f' ∧ f'.submission = f.submission ∧
      ∀ r, f.landed = some r → f'.landed = some r := by
  cases h with
  | clocks | check | idle | threw | answered | foreign => exact ⟨f, hf, rfl, fun _ hr => hr⟩
  | submitted i _ _ hnew => exact ⟨f, update_of_empty hnew hf, rfl, fun _ hr => hr⟩
  | landed i g call hg hopen =>
    rcases update_keeps hg hf with hold | ⟨rfl, hnew⟩
    · exact ⟨f, hold, rfl, fun _ hr => hr⟩
    · exact ⟨_, hnew, rfl, fun r hr => nomatch hr.symm.trans hopen⟩
  | confirmed i g _ hg | refused i g _ hg | faulted i g _ hg =>
    rcases update_keeps hg hf with hold | ⟨rfl, hnew⟩
    · exact ⟨f, hold, rfl, fun _ hr => hr⟩
    · exact ⟨_, hnew, rfl, fun _ hr => hr⟩

/-- Only a confirmation writes the write cache, at its own position. -/
theorem cache_cases (h : Effect pda env client w a w' o) :
    (w'.caches.writeCache = w.caches.writeCache ∧ ∀ p entry, o ≠ .confirmed p entry) ∨
    ∃ i f e, w.flights i = some f ∧ f.landed = some (.ok e) ∧
      o = .confirmed f.submission.plan.positionId ⟨i, w.ms⟩ ∧
      w'.caches.writeCache = Function.update w.caches.writeCache f.submission.plan.positionId
        (some ⟨i, w.ms⟩) := by
  cases h with
  | check positionId metrics =>
    refine Or.inl ⟨?_, fun _ _ hc => nomatch hc⟩
    rcases checkThresholdBreach_cases client w.ms w.caches positionId metrics with
      ⟨_, -, -, hr⟩ | ⟨-, hr⟩ <;> simp only [hr]
  | clocks | idle | threw | answered | submitted | landed | foreign =>
    exact Or.inl ⟨rfl, fun _ _ hc => nomatch hc⟩
  | refused | faulted =>
    refine Or.inl ⟨rfl, fun _ _ hc => ?_⟩
    rcases Answer.ofCaught_eq hc with ⟨_, -, h⟩ | ⟨_, -, h⟩ <;> cases h
  | confirmed i f e hf hok => exact Or.inr ⟨i, f, e, hf, hok, rfl, rfl⟩

/-- The accounts change by executing a call at the chain's clock, if at all. -/
theorem accounts_cases (h : Effect pda env client w a w' o) :
    w'.accounts = w.accounts ∨ ∃ call : Call, call.unixTimestamp = w.clock ∧
      w'.accounts = ((program pda).step w.accounts call).1 := by
  cases h with
  | landed i f call hf hopen hcall =>
    obtain ⟨_, -, rfl⟩ := Option.map_eq_some_iff.mp hcall
    exact Or.inr ⟨_, rfl, rfl⟩
  | foreign call => exact Or.inr ⟨_, rfl, rfl⟩
  | clocks | check | idle | threw | answered | submitted | confirmed | refused | faulted =>
    exact Or.inl rfl

/-- A submission is the answer to an invocation of an unused number. -/
theorem submitted_cases (h : Effect pda env client w a w' o) {j : ℕ} (ho : o = .submitted j) :
    w.flights j = none ∧ ∃ f, w'.flights j = some f := by
  cases h with
  | submitted i plan policyPubkey hnew =>
    cases ho
    exact ⟨hnew, _, Function.update_self _ _ _⟩
  | refused | faulted => rcases Answer.ofCaught_eq ho with ⟨_, -, h⟩ | ⟨_, -, h⟩ <;> cases h
  | clocks | check | idle | threw | answered | landed | confirmed | foreign => cases ho

/-- Only a threshold check touches the read cache. -/
theorem readCache_eq (h : Effect pda env client w a w' o) (ha : ∀ p metrics, a ≠ .check p metrics) :
    w'.caches.readCache = w.caches.readCache := by
  cases h with
  | check p metrics => exact absurd rfl (ha p metrics)
  | clocks | idle | threw | answered | submitted | landed | confirmed | refused | faulted
  | foreign => rfl

/-- Only an invocation submits. -/
theorem flight_new (h : Effect pda env client w a w' o) {j : ℕ} {f : Flight}
    (hnew : w.flights j = none) (hf : w'.flights j = some f) :
    ∃ plan policyPubkey, a = .invoke j plan ∧ env.publicKey plan.positionId = .ok policyPubkey ∧
      f.submission = ⟨plan, policyPubkey, env.encodeU16 plan.sizeBps,
        w.caches.writeCache plan.positionId⟩ := by
  rcases h.flight_cases hf with
    hold | ⟨g, hold, -⟩ | ⟨g, _, hold, -⟩ | ⟨plan, policyPubkey, ha, -, -, hkey, -, rfl⟩
  · exact nomatch hnew.symm.trans hold
  · exact nomatch hnew.symm.trans hold
  · exact nomatch hnew.symm.trans hold
  · exact ⟨plan, policyPubkey, ha, hkey, rfl⟩

/-- An answer from the cache comes from a young entry on the plan's position. -/
theorem answered_cases (h : Effect pda env client w a w' o) {sig : TxSig} (ho : o = .answered sig) :
    ∃ i plan policyPubkey entry, a = .invoke i plan ∧ plan.action = .exit ∧
      env.publicKey plan.positionId = .ok policyPubkey ∧
      w.caches.writeCache plan.positionId = some entry ∧ entry.lastTxSig = sig ∧
      w.ms - entry.lastExecutedAt < client.writeThrottleMs := by
  cases h with
  | answered i plan policyPubkey cached hexit hkey hcached hyoung =>
    cases ho
    exact ⟨i, plan, policyPubkey, cached, rfl, hexit, hkey, hcached, rfl, hyoung⟩
  | refused | faulted => rcases Answer.ofCaught_eq ho with ⟨_, -, h⟩ | ⟨_, -, h⟩ <;> cases h
  | clocks | check | idle | threw | submitted | landed | confirmed | foreign => cases ho

end Effect

/-- The answers of a run of a new client, oldest first. -/
def logOf (accounts : Accounts) (actions : List Action) : List Answer :=
  (machine pda env client).outputs (World.initial accounts) actions

/-- The world after a run of a new client. -/
def worldAfter (accounts : Accounts) (actions : List Action) : World :=
  (machine pda env client).run (World.initial accounts) actions

end RiskClaw.ClientRuns
