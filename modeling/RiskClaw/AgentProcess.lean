import RiskClaw.AgentLoop
import RiskClaw.ClientWindow
import RiskClaw.ObserverEmissions

/-!
# The agent process

The process reads its configuration, registers one handler and starts the
observer; every emission of the observer is a tick of the loop. Here the loop
runs on a real client. The loop's part of a run is a run of the loop, and the
number of a tick is its place on the drift curve, so an EXIT can be traced back
to the phase of the curve that has caused it.
-/

namespace RiskClaw.AgentProcess

open ReactiveMachine AccountStore SolanaRuntime OnchainClient ClientRuns AgentLoop
open ObserverLifecycle (ObserverOpts metricsAt driftCurve emissions handledIn)

/-- What the process reads from its environment. -/
structure Variables where
  /-- `HELIUS_API_KEY`. -/
  heliusApiKey : Option String
  /-- `POSITION_IDS`. -/
  positionIds : Option String

namespace Variables

/-- The positions: the parts between commas that are not empty. -/
def positions (v : Variables) : List String :=
  match v.positionIds with
  | none => []
  | some text => ((text.toList.splitOn ',').map String.ofList).filter fun part => part ≠ ""

/-- The configuration of the observer. -/
def opts (v : Variables) : ObserverOpts := ⟨v.heliusApiKey.getD "", v.positions, none, none⟩

end Variables

/-- The observer and the loop of a process. -/
structure State where
  /-- The observer. -/
  observer : ObserverLifecycle.State
  /-- The loop on its client. -/
  loop : AgentLoop.State
  /-- Handlers started so far. -/
  emitted : ℕ
  /-- The process has ended with an exception of `main`. -/
  exited : Bool

/-- The process before it starts the observer: the handler is registered, or the
key is missing and the process has ended. -/
def State.initial (v : Variables) (accounts : SwigDelegation.Accounts) (ms : ℤ) : State where
  observer := { ObserverLifecycle.created with handler := some 0 }
  loop := .initial accounts ms
  emitted := 0
  exited := v.heliusApiKey.getD "" = ""

/-- One step of the process. -/
inductive ProcessAction where
  /-- `main` starts the observer. -/
  | start (constructor : Except String Unit)
  /-- An interval is due. -/
  | due (interval : ℕ)
  /-- A socket is open. -/
  | opened (socket : ℕ)
  /-- The handler of a tick goes on. -/
  | resume (i : ℕ)
  /-- A clock, the chain, a continuation of the client or a third party. -/
  | other (action : Action)

/-- What is seen of a step. -/
inductive ProcessAnswer where
  /-- Nothing. -/
  | idle
  /-- What the observer does without an emission. -/
  | observer (answer : ObserverLifecycle.Answer)
  /-- What is seen of the loop. -/
  | loop (answer : LoopAnswer)

/-- Metrics as the client takes them. -/
def toMetrics (m : ObserverLifecycle.PositionMetrics) : PositionMetrics :=
  ⟨m.positionId, .finite m.notionalUSD, .finite m.drawdownBps⟩

/-- The metrics that a call of the observer emits. -/
def emission (answer : ObserverLifecycle.Answer) : Option PositionMetrics :=
  (answer.effects.filterMap handledIn).head?.map fun e => toMetrics e.2

variable (v : Variables) (pda : PdaScheme) (env : Environment) (client : RealClient)

/-- What the loop gets to do in a step; the time of a tick is the client's. -/
def loopInput (s : State) : ProcessAction → Option LoopAction
  | .due interval =>
    (emission (ObserverLifecycle.due v.opts s.observer interval s.loop.world.ms).2).map
      (LoopAction.tick s.emitted)
  | .resume i => some (.resume i)
  | .other a => some (.other a)
  | _ => none

/-- The observer after a step. -/
def observerAfter (s : State) : ProcessAction → ObserverLifecycle.State × ObserverLifecycle.Answer
  | .start constructor => ObserverLifecycle.start v.opts s.observer constructor
  | .due interval => ObserverLifecycle.due v.opts s.observer interval s.loop.world.ms
  | .opened socket => ObserverLifecycle.opened v.opts s.observer socket
  | _ => (s.observer, ⟨.ok (), []⟩)

/-- Whether an answer is an exception, which ends the process when `main` meets it. -/
def rejects (answer : ObserverLifecycle.Answer) : Bool :=
  match answer.result with
  | .ok _ => false
  | .error _ => true

/-- The handlers that an emission starts. -/
def ticks : ProcessAction → ℕ
  | .due _ => 1
  | _ => 0

/-- One step of the process. -/
def step (s : State) (a : ProcessAction) : State × ProcessAnswer :=
  if s.exited then (s, .idle)
  else
    let o := observerAfter v s a
    match loopInput v s a with
    | none => ({ s with observer := o.1, exited := rejects o.2 }, .observer o.2)
    | some i =>
      let r := AgentLoop.step pda env client s.loop i
      ({ s with observer := o.1, loop := r.1, emitted := s.emitted + ticks a }, .loop r.2)

/-- The machine of the process. -/
def agents : Machine State ProcessAction ProcessAnswer := ⟨step v pda env client⟩

section Views

variable {v pda env client}

theorem step_exited {s : State} (h : s.exited = true) (a : ProcessAction) :
    step v pda env client s a = (s, .idle) := if_pos h

theorem step_quiet {s : State} (h : s.exited = false) {a : ProcessAction}
    (ha : loopInput v s a = none) :
    step v pda env client s a = ({ s with
      observer := (observerAfter v s a).1, exited := rejects (observerAfter v s a).2 },
      .observer (observerAfter v s a).2) := by
  unfold step
  rw [h, if_neg Bool.false_ne_true, ha]

theorem step_loop {s : State} (h : s.exited = false) {a : ProcessAction} {i : LoopAction}
    (ha : loopInput v s a = some i) :
    step v pda env client s a = ({ s with
      observer := (observerAfter v s a).1
      loop := (AgentLoop.step pda env client s.loop i).1
      emitted := s.emitted + ticks a }, .loop (AgentLoop.step pda env client s.loop i).2) := by
  unfold step
  rw [h, if_neg Bool.false_ne_true, ha]

/-- The loop's part of a process. -/
def loopView (v : Variables) (pda : PdaScheme) (env : Environment) (client : RealClient) :
    (agents v pda env client).View (loop pda env client) (fun _ => True) (fun _ => True) where
  state s := s.loop
  input s a := if s.exited then none else loopInput v s a
  output _ o :=
    match o with
    | .loop answer => answer
    | _ => .idle
  invariant _ _ _ _ := trivial
  visible s a i _ _ hi := by
    cases hexited : s.exited with
    | true => simp [hexited] at hi
    | false =>
      rw [hexited, if_neg Bool.false_ne_true] at hi
      have hstep : (agents v pda env client).step s a = _ := step_loop hexited hi
      rw [hstep]
      rfl
  invisible s a _ _ hi := by
    change (step v pda env client s a).1.loop = s.loop
    cases hexited : s.exited with
    | true => rw [step_exited hexited]
    | false =>
      rw [hexited, if_neg Bool.false_ne_true] at hi
      rw [step_quiet hexited hi]

end Views

section Loop

variable {pda env client} {s s' : AgentLoop.State} {a : LoopAction} {o : LoopAnswer}

/-- A handler stays. -/
theorem handler_stays (he : LoopEffect pda env client s a s' o) {j : ℕ}
    (hj : ∃ h, s.handlers j = some h) : ∃ h, s'.handlers j = some h := by
  obtain ⟨h, hh⟩ := hj
  cases he with
  | idle | other => exact ⟨h, hh⟩
  | ticked i _ hnew => exact ⟨h, update_of_empty hnew hh⟩
  | calm i g hg | fired i g hg =>
    rcases update_keeps hg hh with hold | ⟨-, hnew⟩
    · exact ⟨h, hold⟩
    · exact ⟨_, hnew⟩

/-- Every submission has the handler of its tick. -/
theorem owned_step (he : LoopEffect pda env client s a s' o)
    (h : ∀ j f, s.world.flights j = some f → ∃ g, s.handlers j = some g) :
    ∀ j f, s'.world.flights j = some f → ∃ g, s'.handlers j = some g := by
  intro j f hf
  refine handler_stays he ?_
  cases hold : s.world.flights j with
  | none =>
    obtain ⟨g, _, -, hg, -⟩ := he.flight_new hold hf
    exact ⟨g, hg⟩
  | some f' => exact h j f' hold

/-- Only a tick of an unused number brings a new handler. -/
theorem handler_none (he : LoopEffect pda env client s a s' o) {j : ℕ} (hj : s.handlers j = none)
    (ho : ∀ ms metrics, o ≠ .ticked j ms metrics) : s'.handlers j = none := by
  cases hnew : s'.handlers j with
  | none => rfl
  | some h' =>
    rcases he.handler_cases hnew with hold | ⟨h, hold, -⟩ | ⟨metrics, hticked, -⟩
    · exact nomatch hj.symm.trans hold
    · exact nomatch hj.symm.trans hold
    · exact absurd hticked (ho _ _)

/-- Only a tick is answered as one. -/
theorem ticked_input (he : LoopEffect pda env client s a s' o) {j : ℕ} {ms : ℤ}
    {metrics : PositionMetrics} (ho : o = .ticked j ms metrics) : a = .tick j metrics := by
  cases he with
  | ticked i m =>
    cases ho
    rfl
  | idle | calm | fired | other => cases ho

/-- A tick of an unused number is evaluated. -/
theorem step_tick (pda : PdaScheme) (env : Environment) (client : RealClient) {j : ℕ}
    (hnew : s.handlers j = none) (metrics : PositionMetrics) :
    AgentLoop.step pda env client s (.tick j metrics) =
      (⟨{ s.world with caches := (evaluate client s.world.ms s.world.caches metrics).1 },
        Function.update s.handlers j
          (some ⟨metrics, (evaluate client s.world.ms s.world.caches metrics).2, false⟩)⟩,
        .ticked j s.world.ms metrics) := by
  simp only [AgentLoop.step, hnew]

section Liveness

variable {w : World}

/-- An EXIT on a parsed key without a young entry is submitted. -/
theorem exit_submits (now : ℤ) (caches : Caches) (plan : RebalancePlan) {policy : Pubkey}
    (hready : client.swigDelegation = true) (hprogram : env.swigDelegationProgramId.isSome = true)
    (hexit : plan.action = .exit) (hkey : env.publicKey plan.positionId = .ok policy)
    (hold : ∀ cached, caches.writeCache plan.positionId = some cached →
      client.writeThrottleMs ≤ now - cached.lastExecutedAt) :
    executePrivateRebalance env client now caches plan =
      .submitted ⟨plan, policy, env.encodeU16 plan.sizeBps, caches.writeCache plan.positionId⟩ := by
  have hprogram' : env.swigDelegationProgramId ≠ none := Option.isSome_iff_ne_none.mp hprogram
  unfold executePrivateRebalance
  rw [if_neg (by simp [hexit]), if_neg (by simp [hready, hprogram']), hkey]
  cases hc : caches.writeCache plan.positionId with
  | none => rfl
  | some cached =>
    have hle := hold cached hc
    have hnot : ¬now - cached.lastExecutedAt < client.writeThrottleMs := not_lt.mpr hle
    simp [Option.filter_some, hnot]

/-- A submission whose call the chain accepts is executed and confirmed. -/
theorem submission_runs (w : World) {n : ℕ} {plan : RebalancePlan} {submission : Submission}
    (call : SwigDelegation.Call) {e : SwigDelegation.RebalanceExecutedEvent}
    (hnew : w.flights n = none)
    (hsubmits : executePrivateRebalance env client w.ms w.caches plan = .submitted submission)
    (hcall : submission.call pda client w.clock = some call)
    (hok : ((SwigDelegation.program pda).step w.accounts call).2 = .ok e) :
    (machine pda env client).outputs w [.invoke n plan, .land n, .settle n] =
        [.submitted n, .landed n (.ok e), .confirmed submission.plan.positionId ⟨n, w.ms⟩] ∧
      ((machine pda env client).run w [.invoke n plan, .land n, .settle n]).accounts =
        ((SwigDelegation.program pda).step w.accounts call).1 := by
  have hinvoke : ClientRuns.step pda env client w (.invoke n plan) =
      (w.track n ⟨submission, none, false⟩, .submitted n) := by
    simp only [ClientRuns.step, hnew, hsubmits]
  have hland : ClientRuns.step pda env client (w.track n ⟨submission, none, false⟩) (.land n) =
      ({ w.track n ⟨submission, none, false⟩ with
          flights := Function.update (w.track n ⟨submission, none, false⟩).flights n
            (some ⟨submission, some (.ok e), false⟩)
          accounts := ((SwigDelegation.program pda).step w.accounts call).1 },
        .landed n (.ok e)) := by
    simp only [ClientRuns.step, World.track, Function.update_self, hcall, hok]
  simp only [Machine.outputs_cons, Machine.run_cons, Machine.run_nil, machine, hinvoke, hland]
  simp only [ClientRuns.step, World.track, Function.update_self, and_true]
  rfl

end Liveness

end Loop

/-- What the answers of a process and its state have in common. -/
structure Paced (v : Variables) (log : List ProcessAnswer) (s : State) : Prop where
  /-- The handler of `main` stays registered. -/
  handler : s.observer.handler = some 0
  /-- The counter of the curve is the number of handlers. -/
  tick : (∃ p, v.opts.positionIds.head? = some p ∧ p ≠ "") → s.observer.tick = s.emitted
  /-- Later numbers are unused. -/
  unused : ∀ j, s.emitted ≤ j → s.loop.handlers j = none
  /-- Every submission has the handler of its tick. -/
  owned : ∀ j f, s.loop.world.flights j = some f → ∃ g, s.loop.handlers j = some g
  /-- The metrics of a tick are those of its place on the curve. -/
  ticked : ∀ j ms metrics, .loop (.ticked j ms metrics) ∈ log → ∃ p,
    v.opts.positionIds.head? = some p ∧ metrics = toMetrics (metricsAt p (j + 1) ms)

namespace Paced

variable {v pda env client} {log : List ProcessAnswer} {s : State}

theorem initial (v : Variables) (accounts : SwigDelegation.Accounts) (ms : ℤ) :
    Paced v [] (.initial v accounts ms) where
  handler := rfl
  tick _ := rfl
  unused _ _ := rfl
  owned _ _ h := nomatch h
  ticked _ _ _ h := nomatch h

/-- What happens without the loop keeps the counter and the handler. -/
theorem quiet_observer (h : Paced v log s) {a : ProcessAction} (ha : loopInput v s a = none) :
    (observerAfter v s a).1.handler = some 0 ∧
      ((∃ p, v.opts.positionIds.head? = some p ∧ p ≠ "") →
        (observerAfter v s a).1.tick = s.observer.tick) := by
  cases a with
  | start constructor =>
    have hhandler := ObserverLifecycle.step_handler v.opts s.observer (.start constructor)
    have htick := (ObserverLifecycle.other_emits_nothing v.opts s.observer
      (.start constructor) (by rintro _ _ ⟨⟩)).1
    exact ⟨hhandler.trans h.handler, fun _ => htick⟩
  | due interval =>
    rcases ObserverLifecycle.due_cases v.opts s.observer interval s.loop.world.ms with
      ⟨handler, p, -, -, -, -, hs⟩ | ⟨-, hhandler, htick⟩
    · simp [loopInput, emission, hs, handledIn] at ha
    · exact ⟨hhandler.trans h.handler, htick⟩
  | opened socket =>
    have hhandler := ObserverLifecycle.step_handler v.opts s.observer (.opened socket)
    have htick := (ObserverLifecycle.other_emits_nothing v.opts s.observer
      (.opened socket) (by rintro _ _ ⟨⟩)).1
    exact ⟨hhandler.trans h.handler, fun _ => htick⟩
  | resume | other => cases ha

/-- A step without the loop. -/
theorem quiet (h : Paced v log s) (hexited : s.exited = false) {a : ProcessAction}
    (ha : loopInput v s a = none) :
    Paced v (log ++ [(step v pda env client s a).2]) (step v pda env client s a).1 := by
  obtain ⟨hhandler, htick⟩ := h.quiet_observer ha
  rw [step_quiet hexited ha]
  refine ⟨hhandler, fun hp => (htick hp).trans (h.tick hp), h.unused, h.owned, ?_⟩
  intro j ms metrics hmem
  rcases List.mem_append.mp hmem with hmem | hmem
  · exact h.ticked j ms metrics hmem
  · cases List.mem_singleton.mp hmem

/-- An emission of the observer. -/
theorem emitted (h : Paced v log s) (hexited : s.exited = false) {interval : ℕ} {i : LoopAction}
    (ha : loopInput v s (.due interval) = some i) :
    ∃ p, v.opts.positionIds.head? = some p ∧
      i = .tick s.emitted (toMetrics (metricsAt p (s.emitted + 1) s.loop.world.ms)) ∧
      Paced v (log ++ [(step v pda env client s (.due interval)).2])
        (step v pda env client s (.due interval)).1 := by
  rcases ObserverLifecycle.due_cases v.opts s.observer interval s.loop.world.ms with
    ⟨handler, p, -, hposition, hne, -, hs⟩ | ⟨hnone, -⟩
  · have htick := h.tick ⟨p, hposition, hne⟩
    have hi : i = .tick s.emitted (toMetrics (metricsAt p (s.emitted + 1) s.loop.world.ms)) := by
      rw [loopInput, hs, htick] at ha
      exact (Option.some.inj ha).symm
    refine ⟨p, hposition, hi, ?_⟩
    have hunused := h.unused s.emitted le_rfl
    have heffect := step_effect pda env client s.loop i
    have hstep : step v pda env client s (.due interval) = ({ s with
        observer := { s.observer with tick := s.observer.tick + 1 }
        loop := (AgentLoop.step pda env client s.loop i).1
        emitted := s.emitted + 1 }, .loop (AgentLoop.step pda env client s.loop i).2) := by
      rw [step_loop hexited ha, observerAfter, hs]
      rfl
    rw [hstep]
    refine ⟨h.handler, fun hp => ?_, fun j hj => ?_, owned_step heffect h.owned, ?_⟩
    · change s.observer.tick + 1 = s.emitted + 1
      rw [htick]
    · change s.emitted + 1 ≤ j at hj
      refine handler_none heffect (h.unused j (by omega)) fun ms metrics ho => ?_
      have hnumber := ticked_input heffect ho
      rw [hi] at hnumber
      cases hnumber
      omega
    · intro j ms metrics hmem
      rcases List.mem_append.mp hmem with hmem | hmem
      · exact h.ticked j ms metrics hmem
      · rw [hi, step_tick pda env client hunused] at hmem
        cases List.mem_singleton.mp hmem
        exact ⟨p, hposition, rfl⟩
  · simp [loopInput, emission, hnone] at ha

/-- A step of the loop that is no tick. -/
theorem continued (h : Paced v log s) (hexited : s.exited = false) {a : ProcessAction}
    {i : LoopAction} (ha : loopInput v s a = some i) (hdue : ∀ interval, a ≠ .due interval) :
    Paced v (log ++ [(step v pda env client s a).2]) (step v pda env client s a).1 := by
  have heffect := step_effect pda env client s.loop i
  have hnotick : ∀ j metrics, i ≠ .tick j metrics := by
    rintro j metrics rfl
    cases a with
    | due interval => exact hdue interval rfl
    | start | opened | resume | other => cases ha
  have hstep : step v pda env client s a = ({ s with
      loop := (AgentLoop.step pda env client s.loop i).1 },
      .loop (AgentLoop.step pda env client s.loop i).2) := by
    rw [step_loop hexited ha]
    cases a with
    | due interval => exact absurd rfl (hdue interval)
    | start | opened => cases ha
    | resume | other => rfl
  rw [hstep]
  refine ⟨h.handler, h.tick, fun j hj => ?_, owned_step heffect h.owned, ?_⟩
  · exact handler_none heffect (h.unused j hj) fun ms metrics ho =>
      hnotick _ _ (ticked_input heffect ho)
  · intro j ms metrics hmem
    rcases List.mem_append.mp hmem with hmem | hmem
    · exact h.ticked j ms metrics hmem
    · have ho := ProcessAnswer.loop.inj (List.mem_singleton.mp hmem)
      exact absurd (ticked_input heffect ho.symm) (hnotick _ _)

/-- Every step keeps this. -/
theorem step (h : Paced v log s) (a : ProcessAction) :
    Paced v (log ++ [(AgentProcess.step v pda env client s a).2])
      (AgentProcess.step v pda env client s a).1 := by
  cases hexited : s.exited with
  | true =>
    rw [step_exited hexited]
    refine ⟨h.handler, h.tick, h.unused, h.owned, fun j ms metrics hmem => ?_⟩
    rcases List.mem_append.mp hmem with hmem | hmem
    · exact h.ticked j ms metrics hmem
    · cases List.mem_singleton.mp hmem
  | false =>
    cases ha : loopInput v s a with
    | none => exact h.quiet hexited ha
    | some i =>
      by_cases hdue : ∃ interval, a = .due interval
      · obtain ⟨interval, rfl⟩ := hdue
        exact (h.emitted hexited ha).choose_spec.2.2
      · exact h.continued hexited ha fun interval hcall => hdue ⟨interval, hcall⟩

/-- It holds of every run of the process. -/
theorem of_run (v : Variables) (pda : PdaScheme) (env : Environment) (client : RealClient)
    (accounts : SwigDelegation.Accounts) (ms : ℤ) (actions : List ProcessAction) :
    Paced v ((agents v pda env client).outputs (.initial v accounts ms) actions)
      ((agents v pda env client).run (.initial v accounts ms) actions) :=
  (agents v pda env client).answer_induction (A := fun _ => True) (initial v accounts ms)
    (fun _ _ a _ h => h.step a) fun _ _ => trivial

end Paced

/-- The answers of a run of the process, oldest first. -/
def processLog (accounts : SwigDelegation.Accounts) (ms : ℤ) (actions : List ProcessAction) :
    List ProcessAnswer :=
  (agents v pda env client).outputs (.initial v accounts ms) actions

/-- The process after a run. -/
def processAfter (accounts : SwigDelegation.Accounts) (ms : ℤ) (actions : List ProcessAction) :
    State :=
  (agents v pda env client).run (.initial v accounts ms) actions

/-- The client's time does not go back in a step. -/
def Forward (t : Transition State ProcessAction ProcessAnswer) : Prop :=
  t.pre.loop.world.ms ≤ t.post.loop.world.ms

instance (t : Transition State ProcessAction ProcessAnswer) : Decidable (Forward t) :=
  inferInstanceAs (Decidable (_ ≤ _))

section Runs

variable {v pda env client}

/-- What the loop has ticked stands in the log of the process. -/
theorem ticked_mem {s : State} {actions : List ProcessAction} {j : ℕ} {ms : ℤ}
    {metrics : PositionMetrics}
    (h : .ticked j ms metrics ∈ (loopView v pda env client).outputs s actions) :
    .loop (.ticked j ms metrics) ∈ (agents v pda env client).outputs s actions := by
  obtain ⟨first, a, rest, _, rfl, -, ho⟩ := (loopView v pda env client).mem_outputs h
  have hmem : ((agents v pda env client).step ((agents v pda env client).run s first) a).2 ∈
      (agents v pda env client).outputs s (first ++ a :: rest) := by
    rw [Machine.outputs_append, Machine.outputs_cons]
    exact List.mem_append_right _ List.mem_cons_self
  change _ =
    (match ((agents v pda env client).step ((agents v pda env client).run s first) a).2 with
    | .loop answer => answer
    | _ => .idle) at ho
  split at ho
  · rename_i answer hanswer
    rw [hanswer, ← ho] at hmem
    exact hmem
  · cases ho

/-- The loop of a process is justified by its own ticks. -/
theorem justified_of_run (v : Variables) (pda : PdaScheme) (env : Environment) (client : RealClient)
    (accounts : SwigDelegation.Accounts) (ms : ℤ) {actions : List ProcessAction}
    (hforward : ∀ t ∈ (agents v pda env client).trace (.initial v accounts ms) actions, Forward t) :
    Justified client
      ((loopView v pda env client).outputs (.initial v accounts ms) actions)
      (processAfter v pda env client accounts ms actions).loop := by
  obtain ⟨hrun, houtputs⟩ := (loopView v pda env client).run_view (.initial v accounts ms) actions
    trivial fun _ _ => trivial
  have hticks : ∀ t' ∈ (loop pda env client).trace (.initial accounts ms)
      ((loopView v pda env client).inputs (.initial v accounts ms) actions),
      AgentLoop.Forward t' := by
    intro t' ht'
    obtain ⟨t, ht, -, hpre, hpost⟩ := (loopView v pda env client).mem_trace
      (.initial v accounts ms) trivial (fun _ _ => trivial) ht'
    have hms := hforward t ht
    unfold AgentLoop.Forward
    rw [hpre, hpost]
    exact hms
  change (processAfter v pda env client accounts ms actions).loop = _ at hrun
  rw [← houtputs, hrun]
  exact Justified.of_run pda env client accounts ms hticks

/-- On the curve a drawdown that the client takes for a breach is in a phase
from 38 on. -/
theorem breach_phase {p : String} {n : ℕ} {now : ℤ}
    (h : (toMetrics (metricsAt p n now)).drawdownBps.atLeast 2500 = true) : 38 ≤ n % 60 := by
  have hle : (2500 : ℚ) ≤ (driftCurve n : ℕ) := of_decide_eq_true h
  exact (ObserverLifecycle.driftCurve_breach n).mp (by exact_mod_cast hle)

variable (v pda env client)

/-- In every run of the process whose clock does not go back: a submission is
made by the handler of an emission, is a full EXIT on the policy of the first
configured position, and goes back to an emission in a phase from 38 to 59 of
the curve, that one itself or one less than the read window older. -/
theorem exits_follow_emissions (accounts : SwigDelegation.Accounts) (ms : ℤ)
    (actions : List ProcessAction)
    (hforward : ∀ t ∈ (agents v pda env client).trace (.initial v accounts ms) actions, Forward t)
    (a : ProcessAction) {j : ℕ} {f : Flight}
    (hnew : (processAfter v pda env client accounts ms actions).loop.world.flights j = none)
    (hf : (step v pda env client
      (processAfter v pda env client accounts ms actions) a).1.loop.world.flights j = some f) :
    ∃ p tickMs k breachMs, v.opts.positionIds.head? = some p ∧ a = .resume j ∧
      .loop (.ticked j tickMs (toMetrics (metricsAt p (j + 1) tickMs))) ∈
        processLog v pda env client accounts ms actions ∧
      .loop (.ticked k breachMs (toMetrics (metricsAt p (k + 1) breachMs))) ∈
        processLog v pda env client accounts ms actions ∧
      38 ≤ (k + 1) % 60 ∧ breachMs ≤ tickMs ∧
      (breachMs = tickMs ∨ tickMs - breachMs < client.readThrottleMs) ∧
      env.publicKey p = .ok f.submission.policyPubkey ∧
      ∀ clock, f.submission.call pda client clock =
        some (fullExit pda client f.submission.policyPubkey clock) := by
  have hpaced : Paced v (processLog v pda env client accounts ms actions)
      (processAfter v pda env client accounts ms actions) :=
    Paced.of_run v pda env client accounts ms actions
  have hjustified := justified_of_run v pda env client accounts ms hforward
  generalize processAfter v pda env client accounts ms actions = s at *
  cases hexited : s.exited with
  | true =>
    rw [step_exited hexited] at hf
    exact nomatch hnew.symm.trans hf
  | false =>
    cases ha : loopInput v s a with
    | none =>
      rw [step_quiet hexited ha] at hf
      exact nomatch hnew.symm.trans hf
    | some i =>
      rw [step_loop hexited ha] at hf
      obtain ⟨h, policyPubkey, rfl, hh, hbreach, hkey, hs⟩ :=
        (step_effect pda env client s.loop i).flight_new hnew hf
      have hresume : a = .resume j := by
        cases a with
        | due interval =>
          obtain ⟨_, -, htick⟩ := Option.map_eq_some_iff.mp ha
          cases htick
        | resume i =>
          cases ha
          rfl
        | start | opened | other => cases ha
      obtain ⟨tickMs, htick, hfresh⟩ := hjustified.handler j h hh
      obtain ⟨k, breachMs, metrics, hbreached, hposition, hlarge, hle, hyoung⟩ := hfresh hbreach
      obtain ⟨p, hp, hmetrics⟩ := hpaced.ticked j tickMs _ (ticked_mem htick)
      obtain ⟨q, hq, rfl⟩ := hpaced.ticked k breachMs _ (ticked_mem hbreached)
      cases Option.some.inj (hp.symm.trans hq)
      rw [hmetrics] at htick hkey hs
      have hsize : env.encodeU16 (.finite 10000) = some 10000 := env.encode_integer 10000
      rw [hsize] at hs
      rw [hs]
      exact ⟨p, tickMs, k, breachMs, hp, hresume, ticked_mem htick, ticked_mem hbreached,
        breach_phase hlarge, hle, hyoung, hkey, fun _ => rfl⟩

/-- The operator's environment with the demo position. -/
def demoVariables : Variables := ⟨some "key", some "DpKAer9JUmzMfyJ3G3k3M7xGHp3WnGrg5Ppv1Uy5a1jB"⟩

/-- The process up to the emission before the first breach, with a clock reading
five minutes later. -/
def untilBreach : List ProcessAction :=
  .start (.ok ()) :: (List.replicate 37 (.due 0) ++ [.other (.clocks 300000 300)])

/-- The rule on the first EXIT of the demo: its emission is in phase 38. -/
theorem exits_follow_emissions_demo :
    ∃ k, 38 ≤ (k + 1) % 60 ∧ ∃ p ms, .loop (.ticked k ms (toMetrics (metricsAt p (k + 1) ms))) ∈
      processLog demoVariables DevnetConfig.lastRebalancedPda devnet demoClient (fun _ => none) 0
        (untilBreach ++ [.due 0]) := by
  obtain ⟨f, hf⟩ := Option.isSome_iff_exists.mp (show ((step demoVariables
    DevnetConfig.lastRebalancedPda devnet demoClient (processAfter demoVariables
      DevnetConfig.lastRebalancedPda devnet demoClient (fun _ => none) 0 (untilBreach ++ [.due 0]))
      (.resume 37)).1.loop.world.flights 37).isSome = true by decide +kernel)
  have hrule := @exits_follow_emissions demoVariables DevnetConfig.lastRebalancedPda devnet
    demoClient (fun _ => none) 0 (untilBreach ++ [.due 0]) (by decide +kernel) (.resume 37) 37 f
  obtain ⟨p, _, k, ms, -, -, -, hk, hphase, -⟩ :=
    hrule (Option.isNone_iff_eq_none.mp (by decide +kernel)) hf
  exact ⟨k, hphase, p, ms, hk⟩

variable {v pda env client}

/-- The configured positions are not empty texts. -/
theorem position_ne_empty {p : String} (h : v.opts.positionIds.head? = some p) : p ≠ "" := by
  have hmem : p ∈ v.positions := List.mem_of_head? h
  unfold Variables.positions at hmem
  split at hmem
  · cases hmem
  · exact of_decide_eq_true (List.mem_filter.mp hmem).2

/-- A tick that the analyst evaluates to a breach leads to an executed full EXIT
when the handler goes on, the transaction lands and the call returns. -/
theorem breach_runs {s : AgentLoop.State} {n : ℕ} (metrics : PositionMetrics) {policy : Pubkey}
    (hhandler : s.handlers n = none) (hflight : s.world.flights n = none)
    (hbreach : (evaluate client s.world.ms s.world.caches metrics).2.breached = true)
    (hready : client.swigDelegation = true) (hprogram : env.swigDelegationProgramId.isSome = true)
    (hkey : env.publicKey metrics.positionId = .ok policy)
    (hold : ∀ cached, s.world.caches.writeCache metrics.positionId = some cached →
      client.writeThrottleMs ≤ s.world.ms - cached.lastExecutedAt)
    (hopen : SwigDelegation.WindowOpen s.world.clock
      ((s.world.accounts (pda.address policy)).getD .zeroed)) :
    (loop pda env client).outputs s
        [.tick n metrics, .resume n, .other (.land n), .other (.settle n)] =
        [.ticked n s.world.ms metrics, .resumed n (some (.submitted n)),
          .other (.landed n (.ok (SwigDelegation.executedEvent
            (fullExit pda client policy s.world.clock)))),
          .other (.confirmed metrics.positionId ⟨n, s.world.ms⟩)] ∧
      ((loop pda env client).run s [.tick n metrics, .resume n, .other (.land n),
        .other (.settle n)]).world.accounts (pda.address policy) =
        some (SwigDelegation.stamped pda (fullExit pda client policy s.world.clock)) := by
  generalize hr : evaluate client s.world.ms s.world.caches metrics = r at hbreach
  -- The evaluation leaves the write cache alone.
  have hwrite : r.1.writeCache = s.world.caches.writeCache := by
    rw [← hr, evaluate]
    rcases checkThresholdBreach_cases client s.world.ms s.world.caches metrics.positionId metrics
      with ⟨_, -, -, h⟩ | ⟨-, h⟩ <;> rw [h]
  have hsubmits := exit_submits s.world.ms r.1 (exitPlan metrics)
    hready hprogram rfl hkey (by rw [hwrite]; exact hold)
  have hsize : env.encodeU16 (exitPlan metrics).sizeBps = some 10000 := env.encode_integer 10000
  rw [hsize] at hsubmits
  have hok := ClientWindow.fullExit_accepted client hopen
  obtain ⟨hanswers, haccounts⟩ := submission_runs { s.world with caches := r.1 }
    (fullExit pda client policy s.world.clock) hflight hsubmits rfl hok
  have htick := step_tick pda env client hhandler metrics
  rw [hr] at htick
  simp only [Machine.outputs_cons, Machine.run_cons, Machine.run_nil, machine] at hanswers haccounts
  simp only [Machine.outputs_cons, Machine.run_cons, Machine.run_nil, loop, htick]
  simp only [AgentLoop.step, Function.update_self, hbreach, if_true, callsClient,
    Bool.false_eq_true, if_false]
  obtain ⟨hfirst, hrest⟩ := List.cons.inj hanswers
  obtain ⟨hsecond, hrest⟩ := List.cons.inj hrest
  have hthird := (List.cons.inj hrest).1
  rw [hfirst, hsecond, hthird, haccounts, (SwigDelegation.step_ok hok).2.2]
  exact ⟨rfl, Function.update_self _ _ _⟩

/-- What a step of the process that is no emission gives to the loop. -/
def direct : ProcessAction → Option LoopAction
  | .resume i => some (.resume i)
  | .other a => some (.other a)
  | _ => none

/-- Such steps are those of the loop. -/
theorem direct_run (s : State) (hexited : s.exited = false) {actions : List ProcessAction}
    {is : List LoopAction} (his : actions.map direct = is.map some) :
    (agents v pda env client).outputs s actions =
        ((loop pda env client).outputs s.loop is).map .loop ∧
      ((agents v pda env client).run s actions).loop = (loop pda env client).run s.loop is := by
  induction actions generalizing s is with
  | nil =>
    obtain rfl := List.map_eq_nil_iff.mp his.symm
    exact ⟨rfl, rfl⟩
  | cons a actions ih =>
    cases is with
    | nil => cases his
    | cons i is =>
      obtain ⟨ha, his⟩ := List.cons.inj his
      have hinput : loopInput v s a = some i := by
        cases a with
        | resume | other => exact ha
        | start | due | opened => cases ha
      have hstep : (agents v pda env client).step s a = _ := step_loop hexited hinput
      rw [Machine.outputs_cons, Machine.run_cons, hstep]
      obtain ⟨houtputs, hrun⟩ := ih { s with
        observer := (observerAfter v s a).1
        loop := (AgentLoop.step pda env client s.loop i).1
        emitted := s.emitted + ticks a } hexited his
      rw [houtputs, hrun]
      exact ⟨rfl, rfl⟩

/-- Without a young entry that says otherwise, the analyst reports the breach. -/
theorem evaluate_breach {now : ℤ} {caches : Caches} {metrics : PositionMetrics}
    (hlarge : metrics.drawdownBps.atLeast 2500 = true)
    (hread : ∀ cached, caches.readCache metrics.positionId = some cached →
      now - cached.lastCheckedAt < client.readThrottleMs → cached.lastResult.breached = true) :
    (evaluate client now caches metrics).2.breached = true := by
  rcases checkThresholdBreach_cases client now caches metrics.positionId metrics with
    ⟨cached, hcached, hyoung, hs⟩ | ⟨-, hs⟩ <;> rw [evaluate, hs]
  · exact hread cached hcached hyoung
  · exact hlarge

variable (v pda env client)

/-- From every state that a run of the process can reach: when a live interval
is due in a phase from 38 on, no cache holds the EXIT back and the window of the
policy is open, then the emission, its handler, the landing and the return lead
to an executed and confirmed full EXIT, with the clock in the policy's anchor. -/
theorem breach_executes (accounts : SwigDelegation.Accounts) (ms : ℤ)
    (actions : List ProcessAction) {s : State}
    (hs : s = processAfter v pda env client accounts ms actions) (hexited : s.exited = false)
    {interval : ℕ} (hlive : ∃ i ∈ s.observer.live, i.id = interval) {p : String}
    (hposition : v.opts.positionIds.head? = some p) (hphase : 38 ≤ (s.emitted + 1) % 60)
    (hread : ∀ cached, s.loop.world.caches.readCache p = some cached →
      s.loop.world.ms - cached.lastCheckedAt < client.readThrottleMs →
      cached.lastResult.breached = true)
    (hready : client.swigDelegation = true) (hprogram : env.swigDelegationProgramId.isSome = true)
    {policy : Pubkey} (hkey : env.publicKey p = .ok policy)
    (hwrite : ∀ cached, s.loop.world.caches.writeCache p = some cached →
      client.writeThrottleMs ≤ s.loop.world.ms - cached.lastExecutedAt)
    (hopen : SwigDelegation.WindowOpen s.loop.world.clock
      ((s.loop.world.accounts (pda.address policy)).getD .zeroed)) :
    (agents v pda env client).outputs s [.due interval, .resume s.emitted,
        .other (.land s.emitted), .other (.settle s.emitted)] =
      [.loop (.ticked s.emitted s.loop.world.ms
          (toMetrics (metricsAt p (s.emitted + 1) s.loop.world.ms))),
        .loop (.resumed s.emitted (some (.submitted s.emitted))),
        .loop (.other (.landed s.emitted (.ok (SwigDelegation.executedEvent
          (fullExit pda client policy s.loop.world.clock))))),
        .loop (.other (.confirmed p ⟨s.emitted, s.loop.world.ms⟩))] ∧
    ((agents v pda env client).run s [.due interval, .resume s.emitted, .other (.land s.emitted),
        .other (.settle s.emitted)]).loop.world.accounts (pda.address policy) =
      some (SwigDelegation.stamped pda (fullExit pda client policy s.loop.world.clock)) := by
  have hpaced : Paced v (processLog v pda env client accounts ms actions) s := by
    rw [hs]
    exact Paced.of_run v pda env client accounts ms actions
  have hne := position_ne_empty hposition
  have hdue := ObserverLifecycle.due_emits v.opts s.observer s.loop.world.ms hpaced.handler
    hposition hne hlive
  have htick := hpaced.tick ⟨p, hposition, hne⟩
  rw [htick] at hdue
  have hinput : loopInput v s (.due interval) = some (.tick s.emitted
      (toMetrics (metricsAt p (s.emitted + 1) s.loop.world.ms))) := by
    rw [loopInput, hdue]
    rfl
  have hlarge : (toMetrics (metricsAt p (s.emitted + 1) s.loop.world.ms)).drawdownBps.atLeast 2500 =
      true := by
    have hcurve := (ObserverLifecycle.driftCurve_breach (s.emitted + 1)).mpr hphase
    refine decide_eq_true (show (2500 : ℚ) ≤ (driftCurve (s.emitted + 1) : ℕ) from ?_)
    exact_mod_cast hcurve
  have hhandler := hpaced.unused s.emitted le_rfl
  have hflight : s.loop.world.flights s.emitted = none := by
    cases hf : s.loop.world.flights s.emitted with
    | none => rfl
    | some f =>
      obtain ⟨g, hg⟩ := hpaced.owned s.emitted f hf
      exact nomatch hhandler.symm.trans hg
  obtain ⟨hanswers, haccounts⟩ := breach_runs
    (toMetrics (metricsAt p (s.emitted + 1) s.loop.world.ms)) hhandler hflight
    (evaluate_breach hlarge hread) hready hprogram hkey hwrite hopen
  have hstep : (agents v pda env client).step s (.due interval) = _ := step_loop hexited hinput
  rw [Machine.outputs_cons] at hanswers
  rw [Machine.run_cons] at haccounts
  obtain ⟨hfirst, hrest⟩ := List.cons.inj hanswers
  have hdirect : ([.resume s.emitted, .other (.land s.emitted), .other (.settle s.emitted)] :
      List ProcessAction).map direct =
      [.resume s.emitted, .other (.land s.emitted), .other (.settle s.emitted)].map some := rfl
  rw [Machine.outputs_cons, Machine.run_cons, hstep]
  obtain ⟨houtputs, hrun⟩ := direct_run { s with
      observer := (observerAfter v s (.due interval)).1
      loop := (AgentLoop.step pda env client s.loop (.tick s.emitted
        (toMetrics (metricsAt p (s.emitted + 1) s.loop.world.ms)))).1
      emitted := s.emitted + ticks (.due interval) } hexited hdirect
  rw [houtputs, hrun]
  change (loop pda env client).outputs (AgentLoop.step pda env client s.loop _).1 _ = _ at hrest
  change ((loop pda env client).run (AgentLoop.step pda env client s.loop _).1 _).world.accounts _ =
    _ at haccounts
  rw [hrest]
  refine ⟨?_, haccounts⟩
  change ProcessAnswer.loop ((loop pda env client).step s.loop _).2 :: _ = _
  rw [hfirst]
  rfl

/-- The state of the demo before its first breach. -/
def beforeBreach : State :=
  processAfter demoVariables DevnetConfig.lastRebalancedPda devnet demoClient (fun _ => none) 0
    untilBreach

/-- From there the EXIT is executed. -/
theorem breach_executes_demo :
    ((agents demoVariables DevnetConfig.lastRebalancedPda devnet demoClient).run beforeBreach
      [.due 0, .resume beforeBreach.emitted, .other (.land beforeBreach.emitted),
        .other (.settle beforeBreach.emitted)]).loop.world.accounts
      (DevnetConfig.lastRebalancedPda.address DevnetConfig.operatorPolicy) =
    some (SwigDelegation.stamped DevnetConfig.lastRebalancedPda (fullExit
      DevnetConfig.lastRebalancedPda demoClient DevnetConfig.operatorPolicy
      beforeBreach.loop.world.clock)) := by
  have hexited : beforeBreach.exited = false := by decide +kernel
  have hlive : ∃ i ∈ beforeBreach.observer.live, i.id = 0 := by decide +kernel
  have hposition : demoVariables.opts.positionIds.head? =
      some "DpKAer9JUmzMfyJ3G3k3M7xGHp3WnGrg5Ppv1Uy5a1jB" := by decide +kernel
  have hphase : 38 ≤ (beforeBreach.emitted + 1) % 60 := by decide +kernel
  have hold : (beforeBreach.loop.world.caches.readCache
      "DpKAer9JUmzMfyJ3G3k3M7xGHp3WnGrg5Ppv1Uy5a1jB").all (fun cached =>
        !decide (beforeBreach.loop.world.ms - cached.lastCheckedAt < demoClient.readThrottleMs)) =
      true := by decide +kernel
  have hnone : (beforeBreach.loop.world.caches.writeCache
      "DpKAer9JUmzMfyJ3G3k3M7xGHp3WnGrg5Ppv1Uy5a1jB").isNone = true := by decide +kernel
  have hopen : SwigDelegation.WindowOpen beforeBreach.loop.world.clock
      ((beforeBreach.loop.world.accounts
        (DevnetConfig.lastRebalancedPda.address DevnetConfig.operatorPolicy)).getD .zeroed) := by
    decide +kernel
  have hrule := @breach_executes demoVariables DevnetConfig.lastRebalancedPda devnet demoClient
    (fun _ => none) 0 untilBreach beforeBreach rfl hexited 0 hlive _ hposition hphase
  refine (hrule ?_ rfl rfl rfl ?_ hopen).2
  · intro cached hcached hyoung
    rw [hcached] at hold
    simp [hyoung] at hold
  · intro cached hcached
    rw [hcached] at hnone
    cases hnone

end Runs

end RiskClaw.AgentProcess
