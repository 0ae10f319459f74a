import RiskClaw.ClientRuns

/-!
# The agent loop on a real client

A metrics tick is evaluated at once by the analyst; the handler goes on later,
and on a breach the guardian submits a full EXIT. Handlers are not awaited, so
any number of them may be open while the chain and the clocks go on. What the
read cache holds always comes from a tick of its own position.
-/

namespace RiskClaw.AgentLoop

open ReactiveMachine AccountStore SolanaRuntime OnchainClient ClientRuns

/-- `evaluate` of the analyst. -/
def evaluate (client : RealClient) (now : ℤ) (caches : Caches) (metrics : PositionMetrics) :
    Caches × ThresholdCheckResult :=
  checkThresholdBreach client now caches metrics.positionId metrics

/-- The plan that the handler gives to the guardian. -/
def exitPlan (metrics : PositionMetrics) : RebalancePlan :=
  ⟨metrics.positionId, .exit, .finite 10000⟩

/-- One run of the handler given to `onMetrics`. -/
structure Handler where
  /-- The metrics of the tick. -/
  metrics : PositionMetrics
  /-- What the analyst answered. -/
  result : ThresholdCheckResult
  /-- Whether the handler has gone on. -/
  resumed : Bool

/-- The client's world and the open handlers, one for each tick. -/
structure State where
  /-- Client, chain and clocks. -/
  world : World
  /-- Handlers by the number of their tick. -/
  handlers : ℕ → Option Handler

/-- A new loop on a new client, started at a client time. -/
def State.initial (accounts : SwigDelegation.Accounts) (ms : ℤ) : State :=
  ⟨{ World.initial accounts with ms := ms }, fun _ => none⟩

/-- One step of the loop or of what surrounds it. -/
inductive LoopAction where
  /-- The observer emits metrics. -/
  | tick (i : ℕ) (metrics : PositionMetrics)
  /-- The handler of a tick goes on. -/
  | resume (i : ℕ)
  /-- A clock, the chain, a continuation of the client or a third party. -/
  | other (action : Action)

/-- What is seen of a step of the loop. -/
inductive LoopAnswer where
  /-- Nothing. -/
  | idle
  /-- A tick was evaluated at this client time. -/
  | ticked (i : ℕ) (ms : ℤ) (metrics : PositionMetrics)
  /-- A handler went on, with the guardian's call if it made one. -/
  | resumed (i : ℕ) (call : Option Answer)
  /-- What is seen of anything else. -/
  | other (answer : Answer)

/-- The client's methods are called by the loop only. -/
def callsClient : Action → Bool
  | .invoke _ _ => true
  | .check _ _ => true
  | _ => false

variable (pda : PdaScheme) (env : Environment) (client : RealClient)

/-- One step of the loop. The guardian's call takes the number of its tick. -/
def step (s : State) : LoopAction → State × LoopAnswer
  | .tick i metrics =>
    match s.handlers i with
    | some _ => (s, .idle)
    | none =>
      let r := evaluate client s.world.ms s.world.caches metrics
      (⟨{ s.world with caches := r.1 },
        Function.update s.handlers i (some ⟨metrics, r.2, false⟩)⟩, .ticked i s.world.ms metrics)
  | .resume i =>
    match s.handlers i with
    | some ⟨metrics, result, false⟩ =>
      let handlers := Function.update s.handlers i (some ⟨metrics, result, true⟩)
      if result.breached then
        let r := ClientRuns.step pda env client s.world (.invoke i (exitPlan metrics))
        (⟨r.1, handlers⟩, .resumed i (some r.2))
      else (⟨s.world, handlers⟩, .resumed i none)
    | _ => (s, .idle)
  | .other a =>
    if callsClient a then (s, .idle)
    else
      let r := ClientRuns.step pda env client s.world a
      (⟨r.1, s.handlers⟩, .other r.2)

/-- The machine of the loop. -/
def loop : Machine State LoopAction LoopAnswer := ⟨step pda env client⟩

/-- Everything a step of the loop can do. -/
inductive LoopEffect (s : State) : LoopAction → State → LoopAnswer → Prop where
  /-- An impossible step. -/
  | idle (a : LoopAction) : LoopEffect s a s .idle
  /-- A tick is evaluated. -/
  | ticked (i : ℕ) (metrics : PositionMetrics) (hnew : s.handlers i = none) :
    LoopEffect s (.tick i metrics)
      ⟨{ s.world with caches := (evaluate client s.world.ms s.world.caches metrics).1 },
        Function.update s.handlers i
          (some ⟨metrics, (evaluate client s.world.ms s.world.caches metrics).2, false⟩)⟩
      (.ticked i s.world.ms metrics)
  /-- A handler ends without a breach. -/
  | calm (i : ℕ) (h : Handler) (hh : s.handlers i = some h) (hwaits : h.resumed = false) :
    LoopEffect s (.resume i)
      ⟨s.world, Function.update s.handlers i (some { h with resumed := true })⟩ (.resumed i none)
  /-- A handler calls the guardian. -/
  | fired (i : ℕ) (h : Handler) (hh : s.handlers i = some h) (hwaits : h.resumed = false)
    (hbreach : h.result.breached = true) :
    LoopEffect s (.resume i)
      ⟨(ClientRuns.step pda env client s.world (.invoke i (exitPlan h.metrics))).1,
        Function.update s.handlers i (some { h with resumed := true })⟩
      (.resumed i
        (some (ClientRuns.step pda env client s.world (.invoke i (exitPlan h.metrics))).2))
  /-- Anything else happens. -/
  | other (a : Action) (ha : callsClient a = false) :
    LoopEffect s (.other a) ⟨(ClientRuns.step pda env client s.world a).1, s.handlers⟩
      (.other (ClientRuns.step pda env client s.world a).2)

/-- Every step of the loop has one of the listed effects. -/
theorem step_effect (s : State) (a : LoopAction) :
    LoopEffect pda env client s a (step pda env client s a).1 (step pda env client s a).2 := by
  cases a with
  | tick i metrics =>
    cases hh : s.handlers i with
    | some h => simpa only [step, hh] using LoopEffect.idle _
    | none => simpa only [step, hh] using LoopEffect.ticked i metrics hh
  | resume i =>
    rcases hh : s.handlers i with - | ⟨metrics, ⟨breached, score⟩, - | -⟩
    · simpa only [step, hh] using LoopEffect.idle _
    · cases breached with
      | false =>
        simpa only [step, hh, Bool.false_eq_true, if_false] using LoopEffect.calm i _ hh rfl
      | true => simpa only [step, hh, if_true] using LoopEffect.fired i _ hh rfl rfl
    · simpa only [step, hh] using LoopEffect.idle _
  | other a =>
    cases ha : callsClient a with
    | true => simpa only [step, ha, if_true] using LoopEffect.idle _
    | false => simpa only [step, ha, Bool.false_eq_true, if_false] using LoopEffect.other a ha

namespace LoopEffect

variable {pda env client} {s s' : State} {a : LoopAction} {o : LoopAnswer}

/-- How the handlers can change: one is new, or one has gone on. -/
theorem handler_cases (he : LoopEffect pda env client s a s' o) {j : ℕ} {h' : Handler}
    (hh' : s'.handlers j = some h') :
    s.handlers j = some h' ∨
    (∃ h, s.handlers j = some h ∧ h' = { h with resumed := true }) ∨
    ∃ metrics, o = .ticked j s.world.ms metrics ∧
      h' = ⟨metrics, (evaluate client s.world.ms s.world.caches metrics).2, false⟩ := by
  cases he with
  | idle | other => exact Or.inl hh'
  | ticked i metrics =>
    rcases update_cases hh' with ⟨rfl, rfl⟩ | ⟨-, hold⟩
    · exact Or.inr (Or.inr ⟨metrics, rfl, rfl⟩)
    · exact Or.inl hold
  | calm i h hh | fired i h hh =>
    rcases update_cases hh' with ⟨rfl, rfl⟩ | ⟨-, hold⟩
    · exact Or.inr (Or.inl ⟨h, hh, rfl⟩)
    · exact Or.inl hold

/-- A handler that has gone on stays so. -/
theorem resumed_stays (he : LoopEffect pda env client s a s' o) {j : ℕ}
    (hj : ∃ h, s.handlers j = some h ∧ h.resumed = true) :
    ∃ h, s'.handlers j = some h ∧ h.resumed = true := by
  obtain ⟨h, hh, hdone⟩ := hj
  cases he with
  | idle | other => exact ⟨h, hh, hdone⟩
  | ticked i _ hnew => exact ⟨h, update_of_empty hnew hh, hdone⟩
  | calm i g hg | fired i g hg =>
    rcases update_keeps hg hh with hold | ⟨-, hnew⟩
    · exact ⟨h, hold, hdone⟩
    · exact ⟨_, hnew, rfl⟩

/-- A handler goes on from waiting. -/
theorem resumed_cases (he : LoopEffect pda env client s a s' o) {j : ℕ} {call : Option Answer}
    (ho : o = .resumed j call) :
    (∃ h, s.handlers j = some h ∧ h.resumed = false) ∧
      ∃ h, s'.handlers j = some h ∧ h.resumed = true := by
  cases he with
  | idle | ticked | other => cases ho
  | calm i h hh hwaits | fired i h hh hwaits =>
    cases ho
    exact ⟨⟨h, hh, hwaits⟩, _, Function.update_self _ _ _, rfl⟩

/-- Only a tick writes the read cache. -/
theorem cache_cases (he : LoopEffect pda env client s a s' o) :
    s'.world.caches.readCache = s.world.caches.readCache ∨
    ∃ i metrics, o = .ticked i s.world.ms metrics ∧
      s'.world.caches = (evaluate client s.world.ms s.world.caches metrics).1 := by
  cases he with
  | idle | calm => exact Or.inl rfl
  | ticked i metrics => exact Or.inr ⟨i, metrics, rfl, rfl⟩
  | fired i h =>
    exact Or.inl ((ClientRuns.step_effect pda env client s.world _).readCache_eq
      fun _ _ hc => nomatch hc)
  | other a ha =>
    refine Or.inl ((ClientRuns.step_effect pda env client s.world a).readCache_eq ?_)
    rintro p metrics rfl
    cases ha

/-- Only a handler that saw a breach submits, in the number of its tick. -/
theorem flight_new (he : LoopEffect pda env client s a s' o) {j : ℕ} {f : Flight}
    (hnew : s.world.flights j = none) (hf : s'.world.flights j = some f) :
    ∃ h policyPubkey, a = .resume j ∧ s.handlers j = some h ∧ h.result.breached = true ∧
      env.publicKey h.metrics.positionId = .ok policyPubkey ∧
      f.submission = ⟨exitPlan h.metrics, policyPubkey, env.encodeU16 (.finite 10000),
        s.world.caches.writeCache h.metrics.positionId⟩ := by
  cases he with
  | idle | ticked | calm => exact nomatch hnew.symm.trans hf
  | fired i h hh hwaits hbreach =>
    obtain ⟨plan, policyPubkey, ha, hkey, hs⟩ :=
      (ClientRuns.step_effect pda env client s.world _).flight_new hnew hf
    cases ha
    exact ⟨h, policyPubkey, rfl, hh, hbreach, hkey, hs⟩
  | other a ha =>
    obtain ⟨plan, policyPubkey, rfl, -⟩ :=
      (ClientRuns.step_effect pda env client s.world a).flight_new hnew hf
    cases ha

end LoopEffect

variable {pda env client}

/-- A breach on a position that is fresh at a time: a tick of the position with
a drawdown of its own, at that time or less than the read window before it. -/
def FreshBreach (client : RealClient) (log : List LoopAnswer) (positionId : String) (ms : ℤ) :
    Prop :=
  ∃ j ms₀ metrics, .ticked j ms₀ metrics ∈ log ∧ metrics.positionId = positionId ∧
    metrics.drawdownBps.atLeast 2500 = true ∧ ms₀ ≤ ms ∧
    (ms₀ = ms ∨ ms - ms₀ < client.readThrottleMs)

theorem FreshBreach.mono {log : List LoopAnswer} {positionId : String} {ms : ℤ}
    (h : FreshBreach client log positionId ms) (later : List LoopAnswer) :
    FreshBreach client (log ++ later) positionId ms := by
  obtain ⟨j, ms₀, metrics, hm, hrest⟩ := h
  exact ⟨j, ms₀, metrics, List.mem_append_left _ hm, hrest⟩

/-- A cache entry is the evaluation of a tick of its position in the past. -/
def FromTick (log : List LoopAnswer) (now : ℤ) (positionId : String) (entry : ReadEntry) : Prop :=
  ∃ j metrics, .ticked j entry.lastCheckedAt metrics ∈ log ∧ metrics.positionId = positionId ∧
    entry.lastResult = stubResult metrics ∧ entry.lastCheckedAt ≤ now

theorem FromTick.mono {log : List LoopAnswer} {now now' : ℤ} {positionId : String}
    {entry : ReadEntry} (h : FromTick log now positionId entry) (hnow : now ≤ now')
    (later : List LoopAnswer) : FromTick (log ++ later) now' positionId entry := by
  obtain ⟨j, metrics, hm, hp, hresult, hle⟩ := h
  exact ⟨j, metrics, List.mem_append_left _ hm, hp, hresult, hle.trans hnow⟩

/-- What the log says about the handlers and about the read cache. -/
structure Justified (client : RealClient) (log : List LoopAnswer) (s : State) : Prop where
  /-- A handler is that of a tick, and reports a fresh breach only. -/
  handler : ∀ i h, s.handlers i = some h → ∃ ms, .ticked i ms h.metrics ∈ log ∧
    (h.result.breached = true → FreshBreach client log h.metrics.positionId ms)
  /-- The read cache holds evaluations of ticks. -/
  cached : ∀ p entry, s.world.caches.readCache p = some entry → FromTick log s.world.ms p entry
  /-- A handler in the log has gone on. -/
  resumed : ∀ i call, .resumed i call ∈ log → ∃ h, s.handlers i = some h ∧ h.resumed = true

namespace Justified

variable {log : List LoopAnswer} {s s' : State} {a : LoopAction} {o : LoopAnswer}

theorem initial (accounts : SwigDelegation.Accounts) (ms : ℤ) :
    Justified client [] (.initial accounts ms) where
  handler _ _ h := nomatch h
  cached _ _ h := nomatch h
  resumed _ _ h := nomatch h

/-- A breach that the analyst reports on a tick is the tick's own, or a cached
one that is still fresh. -/
theorem evaluate_breached (h : Justified client log s) (i : ℕ) (metrics : PositionMetrics)
    (hbreach : (evaluate client s.world.ms s.world.caches metrics).2.breached = true) :
    FreshBreach client (log ++ [.ticked i s.world.ms metrics]) metrics.positionId s.world.ms := by
  rcases checkThresholdBreach_cases client s.world.ms s.world.caches metrics.positionId metrics with
    ⟨cached, hc, hyoung, hr⟩ | ⟨-, hr⟩ <;> rw [evaluate, hr] at hbreach
  · obtain ⟨j, metrics', hm, hp, hresult, hle⟩ := h.cached _ cached hc
    rw [hresult] at hbreach
    exact ⟨j, _, metrics', List.mem_append_left _ hm, hp, hbreach, hle, Or.inr hyoung⟩
  · exact ⟨i, _, metrics, List.mem_append_right _ (List.mem_singleton_self _), rfl, hbreach, le_rfl,
      Or.inl rfl⟩

/-- After a tick the read cache still holds evaluations of ticks. -/
theorem evaluate_cached (h : Justified client log s) (i : ℕ) (metrics : PositionMetrics)
    {p : String} {entry : ReadEntry}
    (hp : (evaluate client s.world.ms s.world.caches metrics).1.readCache p = some entry) :
    FromTick (log ++ [.ticked i s.world.ms metrics]) s.world.ms p entry := by
  rcases checkThresholdBreach_cases client s.world.ms s.world.caches metrics.positionId metrics with
    ⟨cached, -, -, hr⟩ | ⟨-, hr⟩ <;> rw [evaluate, hr] at hp
  · exact (h.cached p entry hp).mono le_rfl _
  · rcases update_cases hp with ⟨rfl, rfl⟩ | ⟨-, hold⟩
    · exact ⟨i, metrics, List.mem_append_right _ (List.mem_singleton_self _), rfl, rfl, le_rfl⟩
    · exact (h.cached p entry hold).mono le_rfl _

/-- Every step at a client time that does not go back keeps this. -/
theorem step (h : Justified client log s) (he : LoopEffect pda env client s a s' o)
    (hms : s.world.ms ≤ s'.world.ms) : Justified client (log ++ [o]) s' where
  handler i h' hh' := by
    rcases he.handler_cases hh' with hh | ⟨g, hh, rfl⟩ | ⟨metrics, rfl, rfl⟩
    · obtain ⟨ms, hm, hb⟩ := h.handler i h' hh
      exact ⟨ms, List.mem_append_left _ hm, fun hbreach => (hb hbreach).mono _⟩
    · obtain ⟨ms, hm, hb⟩ := h.handler i g hh
      exact ⟨ms, List.mem_append_left _ hm, fun hbreach => (hb hbreach).mono _⟩
    · exact ⟨_, List.mem_append_right _ (List.mem_singleton_self _), h.evaluate_breached i metrics⟩
  cached p entry hp := by
    rcases he.cache_cases with hsame | ⟨i, metrics, rfl, hnew⟩
    · rw [hsame] at hp
      exact (h.cached p entry hp).mono hms _
    · rw [hnew] at hp
      obtain ⟨j, metrics', hm, hpos, hresult, hle⟩ := h.evaluate_cached i metrics hp
      exact ⟨j, metrics', hm, hpos, hresult, hle.trans hms⟩
  resumed i call hi := by
    rw [List.mem_append, List.mem_singleton] at hi
    rcases hi with hi | ho
    · exact he.resumed_stays (h.resumed i call hi)
    · exact (he.resumed_cases ho.symm).2

end Justified

/-- The answers of a run of a new loop, oldest first. -/
def loopLogOf (pda : PdaScheme) (env : Environment) (client : RealClient)
    (accounts : SwigDelegation.Accounts) (ms : ℤ) (actions : List LoopAction) : List LoopAnswer :=
  (loop pda env client).outputs (.initial accounts ms) actions

/-- The state after a run of a new loop. -/
def stateAfter (pda : PdaScheme) (env : Environment) (client : RealClient)
    (accounts : SwigDelegation.Accounts) (ms : ℤ) (actions : List LoopAction) : State :=
  (loop pda env client).run (.initial accounts ms) actions

/-- The client's time does not go back in a step. -/
def Forward (t : Transition State LoopAction LoopAnswer) : Prop := t.pre.world.ms ≤ t.post.world.ms

instance (t : Transition State LoopAction LoopAnswer) : Decidable (Forward t) :=
  inferInstanceAs (Decidable (_ ≤ _))

theorem Justified.of_run (pda : PdaScheme) (env : Environment) (client : RealClient)
    (accounts : SwigDelegation.Accounts) (ms : ℤ) {actions : List LoopAction}
    (hforward : ∀ t ∈ (loop pda env client).trace (.initial accounts ms) actions, Forward t) :
    Justified client (loopLogOf pda env client accounts ms actions)
      (stateAfter pda env client accounts ms actions) :=
  (loop pda env client).answer_induction (initial accounts ms)
    (fun _ s a hms h => h.step (step_effect pda env client s a) hms) hforward

/-- Whether an answer is a submission for the tick `i`. -/
def submission (i : ℕ) : LoopAnswer → Bool
  | .resumed j (some (.submitted _)) => j = i
  | _ => false

theorem resumed_of_submission {i : ℕ} {o : LoopAnswer} (h : submission i o = true) :
    ∃ call, o = .resumed i call := by
  match o, h with
  | .resumed j (some (.submitted _)), h =>
    cases of_decide_eq_true h
    exact ⟨_, rfl⟩

/-- Each tick leads to one submission at most. -/
theorem submissions_le_one (pda : PdaScheme) (env : Environment) (client : RealClient)
    (accounts : SwigDelegation.Accounts) (ms : ℤ) {actions : List LoopAction}
    (hforward : ∀ t ∈ (loop pda env client).trace (.initial accounts ms) actions, Forward t)
    (i : ℕ) :
    (loopLogOf pda env client accounts ms actions).countP (submission i) ≤ 1 := by
  refine ((loop pda env client).answer_induction
    (P := fun log s => Justified client log s ∧ log.countP (submission i) ≤ 1)
    ⟨Justified.initial accounts ms, Nat.zero_le 1⟩ ?_ hforward).2
  rintro log s a hms ⟨h, hcount⟩
  have he := step_effect pda env client s a
  refine ⟨h.step he hms, ?_⟩
  change (log ++ [(step pda env client s a).2]).countP (submission i) ≤ 1
  rw [List.countP_append]
  cases ho : submission i (step pda env client s a).2 with
  | false =>
    have hzero : [(step pda env client s a).2].countP (submission i) = 0 := by simpa using ho
    omega
  | true =>
    obtain ⟨call, hcall⟩ := resumed_of_submission ho
    obtain ⟨⟨g, hg, hwaits⟩, -⟩ := he.resumed_cases hcall
    -- The handler was still waiting, so the log holds no earlier answer of it.
    have hnone : log.countP (submission i) = 0 := by
      rw [List.countP_eq_zero]
      intro o hmem hsub
      obtain ⟨_, rfl⟩ := resumed_of_submission hsub
      obtain ⟨g', hg', hdone⟩ := h.resumed i _ hmem
      cases hg.symm.trans hg'
      exact absurd (hwaits.symm.trans hdone) (by decide)
    have hone := List.countP_le_length (p := submission i) (l := [(step pda env client s a).2])
    rw [List.length_singleton] at hone
    omega

/-- In every run whose client time does not go back, each submission is made by
the handler of a tick, is a full EXIT on the policy of that tick's position,
and rests on a breach of the same position that is fresh at the tick; and each
tick leads to one submission at most. -/
theorem submissions_justified (pda : PdaScheme) (env : Environment) (client : RealClient)
    (accounts : SwigDelegation.Accounts) (ms : ℤ) (actions : List LoopAction)
    (hforward : ∀ t ∈ (loop pda env client).trace (.initial accounts ms) actions, Forward t) :
    (∀ a j f, (stateAfter pda env client accounts ms actions).world.flights j = none →
      (step pda env client (stateAfter pda env client accounts ms actions) a).1.world.flights j =
        some f →
      a = .resume j ∧ ∃ tickMs metrics,
        .ticked j tickMs metrics ∈ loopLogOf pda env client accounts ms actions ∧
        f.submission.plan = exitPlan metrics ∧
        env.publicKey metrics.positionId = .ok f.submission.policyPubkey ∧
        (∀ clock, f.submission.call pda client clock =
          some (fullExit pda client f.submission.policyPubkey clock)) ∧
        FreshBreach client (loopLogOf pda env client accounts ms actions) metrics.positionId
          tickMs) ∧
    ∀ i, (loopLogOf pda env client accounts ms actions).countP (submission i) ≤ 1 := by
  refine ⟨?_, submissions_le_one pda env client accounts ms hforward⟩
  intro a j f hnew hf
  obtain ⟨h, policyPubkey, rfl, hh, hbreach, hkey, hs⟩ :=
    (step_effect pda env client (stateAfter pda env client accounts ms actions) a).flight_new
      hnew hf
  obtain ⟨tickMs, hm, hfresh⟩ :=
    (Justified.of_run pda env client accounts ms hforward).handler j h hh
  have hsize : env.encodeU16 (.finite 10000) = some 10000 := env.encode_integer 10000
  rw [hsize] at hs
  rw [hs]
  exact ⟨rfl, tickMs, h.metrics, hm, rfl, hkey, fun _ => rfl, hfresh hbreach⟩

/-- Metrics of the demo position with a given drawdown. -/
def demoMetrics (drawdownBps : ℚ) : PositionMetrics :=
  ⟨"DpKAer9JUmzMfyJ3G3k3M7xGHp3WnGrg5Ppv1Uy5a1jB", .finite 9000, .finite drawdownBps⟩

/-- A tick with a breach, and one three seconds later that has recovered. -/
def breachThenCalm : List LoopAction :=
  [.other (.clocks 1000 1), .tick 0 (demoMetrics 3000), .other (.clocks 4000 4),
    .tick 1 (demoMetrics 0)]

/-- The rule on the second handler, which fires on the cached breach. -/
theorem submissions_justified_demo :
    ∃ ms, FreshBreach demoClient
      (loopLogOf DevnetConfig.lastRebalancedPda devnet demoClient (fun _ => none) 0 breachThenCalm)
      "DpKAer9JUmzMfyJ3G3k3M7xGHp3WnGrg5Ppv1Uy5a1jB" ms := by
  obtain ⟨-, ms, metrics, -, hplan, -, -, hfresh⟩ :=
    (submissions_justified DevnetConfig.lastRebalancedPda devnet demoClient (fun _ => none) 0
      breachThenCalm (by decide)).1 (.resume 1) 1 _ rfl rfl
  have hp : "DpKAer9JUmzMfyJ3G3k3M7xGHp3WnGrg5Ppv1Uy5a1jB" = metrics.positionId :=
    congrArg RebalancePlan.positionId hplan
  rw [hp]
  exact ⟨ms, hfresh⟩

end RiskClaw.AgentLoop
