import RiskClaw.GreedySampling
import RiskClaw.OnchainClient

/-!
# The read throttle of the client

Runs of `checkThresholdBreach` calls on one client, at arbitrary client times.
The cache entry of a position stands for the call evaluated last, so seen from
one position the client is a greedy sampler of the calls on it; calls on other
positions are invisible.
-/

namespace RiskClaw.ReadThrottle

open ReactiveMachine SpacedTimes GreedySampling OnchainClient

/-- One call of `checkThresholdBreach`. -/
structure Check where
  /-- Client time of the call. -/
  now : ℤ
  /-- The position asked about. -/
  positionId : String
  /-- Its metrics. -/
  metrics : PositionMetrics
  deriving DecidableEq

/-- An answered call. -/
structure Answer where
  /-- The call. -/
  call : Check
  /-- Whether the call evaluated its own metrics. -/
  evaluated : Bool
  /-- What the call returned. -/
  result : ThresholdCheckResult
  deriving DecidableEq

/-- A call evaluates its metrics unless the entry of its position is young. -/
def evaluates (client : RealClient) (caches : Caches) (c : Check) : Bool :=
  ((caches.readCache c.positionId).filter
    fun cached => c.now - cached.lastCheckedAt < client.readThrottleMs).isNone

/-- Execute one call on the caches. -/
def step (client : RealClient) (caches : Caches) (c : Check) : Caches × Answer :=
  ((checkThresholdBreach client c.now caches c.positionId c.metrics).1,
    ⟨c, evaluates client caches c,
      (checkThresholdBreach client c.now caches c.positionId c.metrics).2⟩)

/-- The client as a machine that answers checks. -/
def reads (client : RealClient) : Machine Caches Check Answer := ⟨step client⟩

@[simp] theorem reads_step (client : RealClient) (caches : Caches) (c : Check) :
    (reads client).step caches c = step client caches c := rfl

/-- The call is on the given position. -/
def onPosition (positionId : String) (c : Check) : Bool := c.positionId = positionId

/-- The answers on one position in a run of a new client. -/
def answersOf (client : RealClient) (positionId : String) (calls : List Check) : List Answer :=
  ((reads client).outputs .empty calls).filter fun a => onPosition positionId a.call

/-- The cache entry of an evaluated call. -/
def entry (c : Check) : ReadEntry := ⟨c.now, stubResult c.metrics⟩

/-- The answer of the client that a sample stands for. -/
def answer (s : Sample Check) : Answer := ⟨s.event, s.taken, stubResult s.source.metrics⟩

variable {client : RealClient}

theorem evaluates_of_young {caches : Caches} {c : Check} {cached : ReadEntry}
    (hc : caches.readCache c.positionId = some cached)
    (hyoung : c.now - cached.lastCheckedAt < client.readThrottleMs) :
    evaluates client caches c = false := by
  simp [evaluates, hc, Option.filter_some, hyoung]

theorem evaluates_of_old {caches : Caches} {c : Check}
    (hold : ∀ cached, caches.readCache c.positionId = some cached →
      client.readThrottleMs ≤ c.now - cached.lastCheckedAt) : evaluates client caches c = true := by
  unfold evaluates
  cases hc : caches.readCache c.positionId with
  | none => rfl
  | some cached =>
    have hnot : ¬c.now - cached.lastCheckedAt < client.readThrottleMs := not_lt.mpr (hold cached hc)
    rw [Option.filter_some_neg (by simpa using hnot)]
    rfl

/-- A call is answered from a young entry, or it is evaluated and remembered. -/
theorem reads_cases (client : RealClient) (caches : Caches) (c : Check) :
    (∃ cached, caches.readCache c.positionId = some cached ∧
      c.now - cached.lastCheckedAt < client.readThrottleMs ∧
      (reads client).step caches c = (caches, ⟨c, false, cached.lastResult⟩)) ∨
    ((∀ cached, caches.readCache c.positionId = some cached →
        client.readThrottleMs ≤ c.now - cached.lastCheckedAt) ∧
      (reads client).step caches c =
        (⟨Function.update caches.readCache c.positionId (some (entry c)), caches.writeCache⟩,
          ⟨c, true, stubResult c.metrics⟩)) := by
  simp only [reads_step, step]
  rcases checkThresholdBreach_cases client c.now caches c.positionId c.metrics with
    ⟨cached, hc, hyoung, hs⟩ | ⟨hold, hs⟩
  · refine Or.inl ⟨cached, hc, hyoung, ?_⟩
    rw [hs, evaluates_of_young hc hyoung]
  · refine Or.inr ⟨hold, ?_⟩
    rw [hs, evaluates_of_old hold]
    rfl

/-- Calls on other positions do not touch the entry of a position, and a call
on it is decided by the entry alone. -/
theorem position_unwinding (client : RealClient) (positionId : String) :
    (reads client).Unwinding (fun _ => True) (fun caches => caches.readCache positionId)
      (onPosition positionId) (fun _ o => o) where
  invariant _ _ _ := trivial
  respects caches c _ hc := by
    rw [onPosition, decide_eq_false_iff_not] at hc
    rcases reads_cases client caches c with ⟨_, -, -, hs⟩ | ⟨-, hs⟩
    · rw [hs]
    · rw [hs]
      exact Function.update_of_ne (Ne.symm hc) _ _
  consistent s t c _ _ hview hc := by
    obtain rfl := of_decide_eq_true hc
    rcases reads_cases client s c with ⟨cached, hcached, hyoung, hs⟩ | ⟨hold, hs⟩
    · rcases reads_cases client t c with ⟨cached', hcached', -, ht⟩ | ⟨hold', -⟩
      · have hsame := Option.some.inj (hcached.symm.trans (hview.trans hcached'))
        rw [hs, ht, hsame]
        exact ⟨hview, rfl⟩
      · have := hold' cached (hview.symm.trans hcached)
        omega
    · rcases reads_cases client t c with ⟨cached', hcached', hyoung', -⟩ | ⟨-, ht⟩
      · have := hold cached' (hview.trans hcached')
        omega
      · rw [hs, ht]
        refine ⟨?_, rfl⟩
        change Function.update _ _ _ _ = Function.update _ _ _ _
        rw [Function.update_self, Function.update_self]

/-- On one position the client is the greedy sampler of the calls. -/
theorem outputs_eq_sampler {positionId : String} {calls : List Check}
    (hcalls : ∀ c ∈ calls, onPosition positionId c = true) (caches : Caches) (last : Option Check)
    (hlast : caches.readCache positionId = last.map entry) :
    (reads client).outputs caches calls =
      ((sampler Check.now client.readThrottleMs).outputs last calls).map answer := by
  induction calls generalizing caches last with
  | nil => rfl
  | cons c calls ih =>
    obtain rfl := of_decide_eq_true (hcalls c List.mem_cons_self)
    have hrest : ∀ d ∈ calls, onPosition c.positionId d = true :=
      fun d hd => hcalls d (List.mem_cons_of_mem _ hd)
    rw [Machine.outputs_cons, Machine.outputs_cons, List.map_cons]
    rcases reads_cases client caches c with ⟨cached, hcached, hyoung, hs⟩ | ⟨hold, hs⟩
    · obtain ⟨b, rfl, rfl⟩ := Option.map_eq_some_iff.mp (hlast.symm.trans hcached)
      change c.now - b.now < client.readThrottleMs at hyoung
      rcases sampler_cases (W := client.readThrottleMs) Check.now (some b) c with
        ⟨b', hb', -, hsample⟩ | ⟨hfar, -⟩
      · cases hb'
        rw [hs, hsample, ih hrest caches (some b) hlast]
        rfl
      · have := hfar b rfl
        omega
    · rcases sampler_cases (W := client.readThrottleMs) Check.now last c with
        ⟨b, rfl, hnear, -⟩ | ⟨-, hsample⟩
      · have hyoung : client.readThrottleMs ≤ c.now - b.now := hold (entry b) hlast
        omega
      · rw [hs, hsample, ih hrest _ (some c) (Function.update_self _ _ _)]
        rfl

/-- The answers on a position are those of its own calls alone. -/
theorem answersOf_eq_alone (client : RealClient) (positionId : String) (calls : List Check) :
    answersOf client positionId calls =
      (reads client).outputs .empty (calls.filter (onPosition positionId)) := by
  have hobserved : answersOf client positionId calls =
      (reads client).observed (onPosition positionId) (fun _ o => o) .empty calls := by
    unfold answersOf Machine.outputs Machine.observed
    rw [List.filter_map]
    refine congrArg (List.map _) (List.filter_congr fun t ht => ?_)
    obtain ⟨before, c, after, -, rfl⟩ := (reads client).mem_trace_iff.mp ht
    rfl
  have hpurge := ((position_unwinding client positionId).purge calls (s := .empty) (t := .empty)
    trivial trivial rfl).2
  rw [hobserved, hpurge]
  exact (reads client).observed_all (fun c hc => (List.mem_filter.mp hc).2) _

/-- The answers on a position are those of the greedy sampler of its calls. -/
theorem answersOf_eq_sampler (client : RealClient) (positionId : String) (calls : List Check) :
    answersOf client positionId calls =
      ((sampler Check.now client.readThrottleMs).outputs none
        (calls.filter (onPosition positionId))).map answer := by
  rw [answersOf_eq_alone]
  exact outputs_eq_sampler (fun c hc => (List.mem_filter.mp hc).2) _ none rfl

/-- The last evaluated call among some answers. -/
def lastEvaluated (answers : List Answer) : Option Answer :=
  (answers.filter Answer.evaluated).getLast?

/-- The last evaluated call is the last sample taken. -/
theorem lastEvaluated_map (samples : List (Sample Check)) :
    (lastEvaluated (samples.map answer)).map Answer.call = lastTaken samples := by
  have hfilter : (samples.map answer).filter Answer.evaluated =
      (samples.filter Sample.taken).map answer := List.filter_map
  rw [lastEvaluated, hfilter, List.getLast?_map, Option.map_map]
  rfl

/-- The throttle is an exact greedy sampler. On every position all calls are
answered, the evaluated ones are the greedy subsequence and are spaced by the
window; each answer is the result of the call evaluated last, which is the call
itself or less than the window older; and the position is answered as if its
calls were alone. -/
theorem read_throttle_greedy (client : RealClient) (hW : 0 ≤ client.readThrottleMs)
    (calls : List Check) (positionId : String) :
    (answersOf client positionId calls).map Answer.call = calls.filter (onPosition positionId) ∧
    ((answersOf client positionId calls).filter Answer.evaluated).map Answer.call =
      greedy Check.now client.readThrottleMs (calls.filter (onPosition positionId)) ∧
    Spaced client.readThrottleMs
      (((answersOf client positionId calls).filter Answer.evaluated).map fun a => a.call.now) ∧
    (∀ before x after, answersOf client positionId calls = before ++ x :: after →
      ∃ y, lastEvaluated (before ++ [x]) = some y ∧
        x.result = ⟨y.call.metrics.drawdownBps.atLeast 2500, y.call.metrics.notionalUSD⟩ ∧
        (x.evaluated = true → x.call = y.call) ∧
        (x.evaluated = false → x.call.now < y.call.now + client.readThrottleMs)) ∧
    answersOf client positionId calls =
      (reads client).outputs .empty (calls.filter (onPosition positionId)) := by
  have hsampler := answersOf_eq_sampler client positionId calls
  have hgreedy : ((answersOf client positionId calls).filter Answer.evaluated).map Answer.call =
      greedy Check.now client.readThrottleMs (calls.filter (onPosition positionId)) := by
    rw [hsampler, ← taken_eq_greedy, List.filter_map, List.map_map]
    rfl
  refine ⟨?_, hgreedy, ?_, ?_, answersOf_eq_alone client positionId calls⟩
  · rw [hsampler, List.map_map]
    exact sampler_events none _
  · have htimes := congrArg (List.map Check.now) hgreedy
    rw [List.map_map] at htimes
    exact htimes ▸ greedy_spaced hW _
  · intro before x after hsplit
    rw [hsampler] at hsplit
    obtain ⟨before', rest', hrun, rfl, hrest⟩ := List.map_eq_append_iff.mp hsplit
    obtain ⟨x', after', rfl, rfl, rfl⟩ := List.map_eq_cons_iff.mp hrest
    have hrecord : Sampled Check.now client.readThrottleMs _ _ :=
      Sampled.of_run (calls.filter (onPosition positionId))
    obtain ⟨hlast, htaken, hcached⟩ := hrecord.source before' x' after' hrun
    rw [← lastEvaluated_map, List.map_append] at hlast
    obtain ⟨y, hy, hcall⟩ := Option.map_eq_some_iff.mp hlast
    refine ⟨y, hy, ?_, fun h => ?_, fun h => ?_⟩
    · rw [hcall]
      rfl
    · rw [hcall]
      exact (htaken h).symm
    · rw [hcall]
      exact hcached h

/-- A client with a window of 50 ms. -/
def throttledClient : RealClient :=
  createRealClient ⟨DevnetConfig.observerAgent, some 50, none, false, false⟩

/-- A check with the given drawdown. -/
def demoCheck (now : ℤ) (positionId : String) (drawdownBps : ℚ) : Check :=
  ⟨now, positionId, ⟨positionId, .finite 9000, .finite drawdownBps⟩⟩

/-- Checks inside the window and at its edge, with another position between. -/
def demoChecks : List Check :=
  [demoCheck 0 "pos-1" 100, demoCheck 20 "pos-2" 5000, demoCheck 49 "pos-1" 5000,
    demoCheck 50 "pos-1" 5000, demoCheck 60 "pos-1" 0]

/-- The throttle on these checks: the one at 49 ms gets the answer from 0 ms,
the one at 60 ms that from 50 ms. -/
theorem read_throttle_greedy_demo :
    (answersOf throttledClient "pos-1" demoChecks).map (fun a => (a.evaluated, a.result.breached)) =
      [(true, false), (false, false), (true, true), (false, true)] ∧
    Spaced 50 (((answersOf throttledClient "pos-1" demoChecks).filter Answer.evaluated).map
      fun a => a.call.now) :=
  ⟨by decide, (read_throttle_greedy throttledClient (by decide) demoChecks "pos-1").2.2.1⟩

end RiskClaw.ReadThrottle
