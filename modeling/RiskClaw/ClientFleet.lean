import RiskClaw.ClientSignatures
import RiskClaw.SwigSampling

/-!
# Many client processes on one chain

The agents, the operator application and the scripts each make a client of
their own, and a process that is started again begins with empty caches. The
processes share nothing but the chain. Seen from one of them, the others are
third parties, so what holds of one client among third parties holds of every
process; and seen from the chain, all of them are one sequence of calls.
-/

namespace RiskClaw.ClientFleet

open ReactiveMachine AccountStore SpacedTimes GreedySampling SolanaRuntime SwigDelegation
open OnchainClient ClientRuns ClientSignatures

/-- A running process: its client, the client's maps, its clock and its calls. -/
structure Process where
  /-- The client it has made. -/
  client : RealClient
  /-- The client's two maps. -/
  caches : Caches
  /-- Its `Date.now()`. -/
  ms : ℤ
  /-- The submitted calls by number. -/
  flights : ℕ → Option Flight

/-- A process that has just made its client. -/
def Process.launched (client : RealClient) (ms : ℤ) : Process := ⟨client, .empty, ms, fun _ => none⟩

/-- All processes, and the chain. -/
structure Fleet where
  /-- The processes by number. -/
  processes : ℕ → Process
  /-- Accounts of `swig_delegation`. -/
  accounts : Accounts
  /-- The chain's clock. -/
  clock : Int64

namespace Fleet

/-- What one process has to do with. -/
def world (s : Fleet) (k : ℕ) : World where
  caches := (s.processes k).caches
  accounts := s.accounts
  ms := (s.processes k).ms
  clock := s.clock
  flights := (s.processes k).flights

/-- The fleet after a step of one process. -/
def update (s : Fleet) (k : ℕ) (w : World) : Fleet where
  processes := Function.update s.processes k ⟨(s.processes k).client, w.caches, w.ms, w.flights⟩
  accounts := w.accounts
  clock := w.clock

end Fleet

/-- One step of a process, of a clock or of a third party. -/
inductive FleetAction where
  /-- A process is started, or started again. -/
  | launch (k : ℕ) (client : RealClient) (ms : ℤ)
  /-- The clock of a process is read anew. -/
  | date (k : ℕ) (ms : ℤ)
  /-- A call, a transaction or a continuation of a process. -/
  | own (k : ℕ) (a : Action)
  /-- The chain's clock goes on. -/
  | clock (clock : Int64)
  /-- Somebody else calls the program. -/
  | foreign (call : Call)

/-- What is seen of a step. -/
inductive FleetAnswer where
  /-- Nothing. -/
  | idle
  /-- What the process sees. -/
  | of (k : ℕ) (answer : Answer)
  /-- Answer to a third party. -/
  | foreign (result : Except Rejection RebalanceExecutedEvent)

/-- Clocks and third parties are no part of a process. -/
def ofProcess : Action → Bool
  | .clocks _ _ => false
  | .foreign _ => false
  | _ => true

variable (pda : PdaScheme) (env : Environment)

/-- One step of the fleet. -/
def step (s : Fleet) : FleetAction → Fleet × FleetAnswer
  | .launch k client ms =>
    ({ s with processes := Function.update s.processes k (.launched client ms) }, .idle)
  | .date k ms =>
    ({ s with processes := Function.update s.processes k { s.processes k with ms := ms } }, .idle)
  | .own k a =>
    if ofProcess a then
      let r := ClientRuns.step pda env (s.processes k).client (s.world k) a
      (s.update k r.1, .of k r.2)
    else (s, .idle)
  | .clock clock => ({ s with clock := clock }, .idle)
  | .foreign call =>
    let r := (program pda).step s.accounts { call with unixTimestamp := s.clock }
    ({ s with accounts := r.1 }, .foreign r.2)

/-- The machine of the fleet. -/
def fleet : Machine Fleet FleetAction FleetAnswer := ⟨step pda env⟩

/-- The call that a step of a process makes the chain execute. -/
def landing (client : RealClient) (w : World) : Action → Option Call
  | .land i =>
    match w.flights i with
    | some ⟨s, none, _⟩ => s.call pda client w.clock
    | _ => none
  | _ => none

section Landing

variable {pda env} {client : RealClient} {w : World}

/-- The call is executed at the present clock. -/
theorem landing_clock {a : Action} {call : Call} (h : landing pda client w a = some call) :
    call.unixTimestamp = w.clock := by
  unfold landing at h
  split at h
  · split at h
    · obtain ⟨_, -, rfl⟩ := Option.map_eq_some_iff.mp h
      rfl
    · cases h
  · cases h

/-- A step of a process makes the chain execute a call, or leaves the accounts
alone. -/
theorem step_landing (env : Environment) (client : RealClient) (w : World) {a : Action}
    (ha : ofProcess a = true) :
    (∃ i call, a = .land i ∧ landing pda client w a = some call ∧
      (ClientRuns.step pda env client w a).1.accounts = ((program pda).step w.accounts call).1 ∧
      (ClientRuns.step pda env client w a).2 = .landed i ((program pda).step w.accounts call).2) ∨
    (landing pda client w a = none ∧
      (ClientRuns.step pda env client w a).1.accounts = w.accounts) := by
  cases a with
  | clocks | foreign => cases ha
  | check => exact Or.inr ⟨rfl, rfl⟩
  | invoke i plan =>
    refine Or.inr ⟨rfl, ?_⟩
    simp only [ClientRuns.step]
    split
    · rfl
    · split <;> rfl
  | land i =>
    rcases hf : w.flights i with - | ⟨s, - | r, returned⟩
    · exact Or.inr ⟨by simp only [landing, hf], by simp only [ClientRuns.step, hf]⟩
    · cases hcall : s.call pda client w.clock with
      | none =>
        exact Or.inr ⟨by simp only [landing, hf, hcall], by simp only [ClientRuns.step, hf, hcall]⟩
      | some call =>
        exact Or.inl ⟨i, call, rfl, by simp only [landing, hf, hcall],
          by simp only [ClientRuns.step, hf, hcall], by simp only [ClientRuns.step, hf, hcall]⟩
    · exact Or.inr ⟨by simp only [landing, hf], by simp only [ClientRuns.step, hf]⟩
  | settle i =>
    refine Or.inr ⟨rfl, ?_⟩
    simp only [ClientRuns.step]
    split <;> rfl
  | fault i error =>
    refine Or.inr ⟨rfl, ?_⟩
    simp only [ClientRuns.step]
    split <;> rfl

/-- A step of a process leaves both clocks alone. -/
theorem step_clocks {a : Action} (ha : ofProcess a = true) :
    (ClientRuns.step pda env client w a).1.clock = w.clock ∧
      (ClientRuns.step pda env client w a).1.ms = w.ms := by
  have he := step_effect pda env client w a
  generalize ClientRuns.step pda env client w a = r at he
  obtain ⟨w', o⟩ := r
  cases he with
  | clocks | foreign => cases ha
  | check | idle | threw | answered | submitted | landed | confirmed | refused | faulted =>
    exact ⟨rfl, rfl⟩

/-- Only a call that the chain executes is answered with a verdict. -/
theorem landing_of_answer {a : Action} {i : ℕ} {r : Except Rejection RebalanceExecutedEvent}
    (h : (ClientRuns.step pda env client w a).2 = .landed i r) :
    ∃ call, landing pda client w a = some call := by
  have he := step_effect pda env client w a
  generalize ClientRuns.step pda env client w a = next at he h
  obtain ⟨w', o⟩ := next
  cases he with
  | landed i f call hf hopen hcall =>
    obtain ⟨s, landed, returned⟩ := f
    cases hopen
    exact ⟨call, by simp only [landing, hf, hcall]⟩
  | refused | faulted => rcases Answer.ofCaught_eq h with ⟨_, -, ho⟩ | ⟨_, -, ho⟩ <;> cases ho
  | clocks | check | idle | threw | answered | submitted | confirmed | foreign => cases h

end Landing

section Views

variable {pda env}

/-- A step of a process is one of its client on its world. -/
theorem step_own (s : Fleet) (k : ℕ) {a : Action} (ha : ofProcess a = true) :
    step pda env s (.own k a) =
      (s.update k (ClientRuns.step pda env (s.processes k).client (s.world k) a).1,
        .of k (ClientRuns.step pda env (s.processes k).client (s.world k) a).2) := if_pos ha

/-- Anything else is no step of a process. -/
theorem step_not_own (s : Fleet) (k : ℕ) {a : Action} (ha : ofProcess a = false) :
    step pda env s (.own k a) = (s, .idle) := if_neg (by rw [ha]; exact Bool.false_ne_true)

/-- What a process sees of a step. -/
def inputOf (pda : PdaScheme) (k : ℕ) (s : Fleet) : FleetAction → Option Action
  | .launch _ _ _ => none
  | .date j ms => if j = k then some (.clocks ms s.clock) else none
  | .own j a =>
    if ofProcess a = false then none
    else if j = k then some a
    else (landing pda (s.processes j).client (s.world j) a).map Action.foreign
  | .clock clock => some (.clocks (s.processes k).ms clock)
  | .foreign call => some (.foreign call)

/-- What a process sees of an answer: the transactions of others are those of
third parties. -/
def outputOf (k : ℕ) (_ : FleetAction) : FleetAnswer → Answer
  | .idle => .idle
  | .of j answer =>
    if j = k then answer
    else
      match answer with
      | .landed _ r => .foreign r
      | _ => .idle
  | .foreign r => .foreign r

/-- The process is started anew. -/
def FleetAction.launches (k : ℕ) : FleetAction → Prop
  | .launch j _ _ => j = k
  | _ => False

theorem update_world_self (s : Fleet) (k : ℕ) (w : World) : (s.update k w).world k = w := by
  simp [Fleet.update, Fleet.world]

theorem update_world_other (s : Fleet) {j k : ℕ} (h : k ≠ j) (w : World) :
    (s.update j w).world k =
      { s.world k with accounts := w.accounts, clock := w.clock } := by
  simp [Fleet.update, Fleet.world, Function.update_of_ne h]

/-- A process keeps its client until it is started anew. -/
theorem step_keeps_client (pda : PdaScheme) (env : Environment) (s : Fleet) {k : ℕ}
    {a : FleetAction} (ha : ¬a.launches k) :
    ((step pda env s a).1.processes k).client = (s.processes k).client := by
  have hupdate : ∀ (j : ℕ) (p : Process), p.client = (s.processes j).client →
      (Function.update s.processes j p k).client = (s.processes k).client := by
    intro j p hp
    by_cases hj : k = j
    · subst hj
      rw [Function.update_self, hp]
    · rw [Function.update_of_ne hj]
  cases a with
  | launch j client ms =>
    have hne : k ≠ j := fun h => ha h.symm
    simp only [step, Function.update_of_ne hne]
  | date j ms => exact hupdate j _ rfl
  | own j a =>
    cases hown : ofProcess a with
    | false => rw [step_not_own s j hown]
    | true =>
      rw [step_own s j hown]
      exact hupdate j _ rfl
  | clock | foreign => rfl

/-- A transaction of another process is a third party's call. -/
theorem foreign_of_landing (s : Fleet) {j k : ℕ} (hj : k ≠ j) {a : Action}
    (ha : ofProcess a = true) {call : Call}
    (hcall : landing pda (s.processes j).client (s.world j) a = some call) (client : RealClient) :
    ClientRuns.step pda env client (s.world k) (.foreign call) =
      ((step pda env s (.own j a)).1.world k,
        outputOf k (.own j a) (step pda env s (.own j a)).2) := by
  rw [step_own s j ha, update_world_other s hj, (step_clocks ha).1]
  rcases step_landing env (s.processes j).client (s.world j) ha with
    ⟨i, call', rfl, hcall', haccounts, hanswer⟩ | ⟨hnone, -⟩
  · cases hcall.symm.trans hcall'
    have hclock := landing_clock hcall
    have hnow : ({ call with unixTimestamp := (s.world k).clock } : Call) = call := by
      change call.unixTimestamp = s.clock at hclock
      cases call
      cases hclock
      rfl
    rw [haccounts, hanswer]
    simp only [ClientRuns.step, hnow, outputOf, if_neg (Ne.symm hj)]
    rfl
  · exact absurd (hcall.symm.trans hnone) (Option.some_ne_none call)

/-- As long as it is not started anew, a process is one client for which the
other processes are third parties. -/
def processView (pda : PdaScheme) (env : Environment) (client : RealClient) (k : ℕ) :
    (fleet pda env).View (machine pda env client) (fun s => (s.processes k).client = client)
      (fun a => ¬a.launches k) where
  state s := s.world k
  input := inputOf pda k
  output := outputOf k
  invariant s a hs ha := (step_keeps_client pda env s ha).trans hs
  visible s a b hs ha hb := by
    subst hs
    cases a with
    | launch => cases hb
    | date j ms =>
      simp only [inputOf, Option.ite_none_right_eq_some, Option.some.injEq] at hb
      obtain ⟨rfl, rfl⟩ := hb
      simp [fleet, machine, step, ClientRuns.step, Fleet.world, outputOf]
    | own j a =>
      simp only [inputOf] at hb
      cases hown : ofProcess a with
      | false => simp [hown] at hb
      | true =>
        rw [hown, if_neg (by decide)] at hb
        by_cases hj : j = k
        · subst hj
          rw [if_pos rfl] at hb
          cases hb
          change _ = ((step pda env s (.own j b)).1.world j, outputOf j (.own j b)
            (step pda env s (.own j b)).2)
          rw [step_own s j hown, update_world_self]
          simp only [outputOf, if_true]
          rfl
        · rw [if_neg hj] at hb
          obtain ⟨call, hcall, rfl⟩ := Option.map_eq_some_iff.mp hb
          exact foreign_of_landing s (Ne.symm hj) hown hcall (s.processes k).client
    | clock c =>
      cases hb
      rfl
    | foreign call =>
      cases hb
      rfl
  invisible s a hs ha hb := by
    cases a with
    | launch j c ms =>
      have hne : k ≠ j := fun h => ha h.symm
      simp [fleet, step, Fleet.world, Function.update_of_ne hne]
    | date j ms =>
      have hne : k ≠ j := by
        rintro rfl
        simp [inputOf] at hb
      simp [fleet, step, Fleet.world, Function.update_of_ne hne]
    | own j a =>
      change (step pda env s (.own j a)).1.world k = s.world k
      cases hown : ofProcess a with
      | false => rw [step_not_own s j hown]
      | true =>
        simp only [inputOf, hown] at hb
        rw [if_neg (by decide)] at hb
        by_cases hj : j = k
        · rw [if_pos hj] at hb
          cases hb
        rw [if_neg hj] at hb
        have hnone := Option.map_eq_none_iff.mp hb
        rw [step_own s j hown, update_world_other s (Ne.symm hj), (step_clocks hown).1]
        rcases step_landing env (s.processes j).client (s.world j) hown with
          ⟨_, _, -, hcall, -⟩ | ⟨-, haccounts⟩
        · exact nomatch hcall.symm.trans hnone
        · rw [haccounts]
          rfl
    | clock | foreign => cases hb

/-- The call that a step of the fleet makes the chain execute. -/
def executes (pda : PdaScheme) (s : Fleet) : FleetAction → Option Call
  | .own k a =>
    if ofProcess a = false then none else landing pda (s.processes k).client (s.world k) a
  | .foreign call => some { call with unixTimestamp := s.clock }
  | _ => none

/-- The chain's verdict in an answer. -/
def verdictOf (_ : FleetAction) : FleetAnswer → Except Rejection RebalanceExecutedEvent
  | .of _ (.landed _ r) => r
  | .foreign r => r
  | _ => .error .panic

/-- A call is executed at the chain's clock. -/
theorem executes_clock {s : Fleet} {a : FleetAction} {call : Call}
    (h : executes pda s a = some call) : call.unixTimestamp = s.clock := by
  cases a with
  | own k a =>
    cases hown : ofProcess a with
    | false => simp [executes, hown] at h
    | true =>
      simp only [executes, hown] at h
      rw [if_neg (by decide)] at h
      exact landing_clock h
  | foreign call =>
    cases h
    rfl
  | launch | date | clock => cases h

/-- Seen from the chain, the fleet is one sequence of calls. -/
def chainView (pda : PdaScheme) (env : Environment) :
    (fleet pda env).View (program pda).machine (fun _ => True) (fun _ => True) where
  state s := s.accounts
  input := executes pda
  output := verdictOf
  invariant _ _ _ _ := trivial
  visible s a call _ _ hcall := by
    cases a with
    | own k a =>
      cases hown : ofProcess a with
      | false => simp [executes, hown] at hcall
      | true =>
        simp only [executes, hown] at hcall
        rw [if_neg (by decide)] at hcall
        change _ = ((step pda env s (.own k a)).1.accounts,
          verdictOf (.own k a) (step pda env s (.own k a)).2)
        rw [step_own s k hown]
        rcases step_landing env (s.processes k).client (s.world k) hown with
          ⟨i, call', rfl, hcall', haccounts, hanswer⟩ | ⟨hnone, -⟩
        · cases hcall.symm.trans hcall'
          rw [hanswer]
          exact Prod.ext haccounts.symm rfl
        · exact nomatch hcall.symm.trans hnone
    | foreign call =>
      cases hcall
      rfl
    | launch | date | clock => cases hcall
  invisible s a _ _ hnone := by
    cases a with
    | own k a =>
      change (step pda env s (.own k a)).1.accounts = s.accounts
      cases hown : ofProcess a with
      | false => rw [step_not_own s k hown]
      | true =>
        simp only [executes, hown] at hnone
        rw [if_neg (by decide)] at hnone
        rw [step_own s k hown]
        rcases step_landing env (s.processes k).client (s.world k) hown with
          ⟨_, _, -, hcall, -⟩ | ⟨-, haccounts⟩
        · exact nomatch hcall.symm.trans hnone
        · exact haccounts
    | foreign call => cases hnone
    | launch | date | clock => rfl

end Views

section Runs

/-- The event of an executed call in an answer. -/
def executedIn : FleetAnswer → Option RebalanceExecutedEvent
  | .of _ (.landed _ (.ok e)) => some e
  | .foreign (.ok e) => some e
  | _ => none

/-- The events of one policy in the answers of a fleet, oldest first. -/
def fleetEvents (policy : Pubkey) (log : List FleetAnswer) : List RebalanceExecutedEvent :=
  (log.filterMap executedIn).filter fun e => e.policy = policy

variable {pda env}

/-- An answer carries an event exactly when the chain executed a call for it. -/
theorem executedIn_step (s : Fleet) (a : FleetAction) :
    executedIn (step pda env s a).2 =
      (executes pda s a).bind fun _ => (verdictOf a (step pda env s a).2).toOption := by
  cases a with
  | own k a =>
    cases hown : ofProcess a with
    | false =>
      rw [step_not_own s k hown]
      simp [executes, hown, executedIn]
    | true =>
      rw [step_own s k hown]
      simp only [executes, hown]
      rw [if_neg (by decide)]
      rcases step_landing env (s.processes k).client (s.world k) hown with
        ⟨i, call, rfl, hcall, -, hanswer⟩ | ⟨hnone, -⟩
      · rw [hcall, hanswer]
        cases ((program pda).step (s.world k).accounts call).2 <;> rfl
      · rw [hnone]
        -- Without an executed call the answer is no verdict.
        cases hanswer : (ClientRuns.step pda env (s.processes k).client (s.world k) a).2 with
        | landed i r =>
          obtain ⟨call, hcall⟩ := landing_of_answer hanswer
          exact nomatch hcall.symm.trans hnone
        | idle | checked | failed | answered | submitted | confirmed | recovered | foreign => rfl
  | foreign call =>
    simp only [step, executes, verdictOf]
    cases ((program pda).step s.accounts { call with unixTimestamp := s.clock }).2 <;> rfl
  | launch | date | clock => rfl

/-- The events of a fleet are those of the program on the calls of all. -/
theorem fleetEvents_eq (s : Fleet) (actions : List FleetAction) (policy : Pubkey) :
    fleetEvents policy ((fleet pda env).outputs s actions) =
      SwigRateLimit.eventsOf policy
        ((program pda).machine.trace s.accounts ((chainView pda env).inputs s actions)) := by
  have hview := ((chainView pda env).run_view s actions trivial fun _ _ => trivial).2
  have hevents : ((fleet pda env).outputs s actions).filterMap executedIn =
      ((chainView pda env).outputs s actions).filterMap Except.toOption := by
    clear hview
    induction actions generalizing s with
    | nil => rfl
    | cons a actions ih =>
      have hstep : executedIn ((fleet pda env).step s a).2 = (executes pda s a).bind fun _ =>
          (verdictOf a ((fleet pda env).step s a).2).toOption := executedIn_step s a
      rw [Machine.outputs_cons, Machine.View.outputs, List.filterMap_append, List.filterMap_cons,
        hstep, ih]
      change _ = List.filterMap _ ((executes pda s a).map fun _ =>
        verdictOf a ((fleet pda env).step s a).2).toList ++ _
      cases executes pda s a with
      | none => rfl
      | some call => cases verdictOf a ((fleet pda env).step s a).2 <;> rfl
  rw [fleetEvents, hevents, ← hview, SwigRateLimit.eventsOf, Machine.outputs, List.filterMap_map]
  rfl

/-- The chain's clock stays positive. -/
theorem clock_positive {s : Fleet} (hs : 0 < s.clock.toInt) {actions : List FleetAction}
    (hclock : ∀ c, .clock c ∈ actions → 0 < c.toInt) :
    0 < ((fleet pda env).run s actions).clock.toInt := by
  induction actions generalizing s with
  | nil => exact hs
  | cons a actions ih =>
    refine ih ?_ fun c hc => hclock c (List.mem_cons_of_mem _ hc)
    change 0 < (step pda env s a).1.clock.toInt
    cases a with
    | clock c => exact hclock c List.mem_cons_self
    | own k a =>
      cases hown : ofProcess a with
      | false =>
        rw [step_not_own s k hown]
        exact hs
      | true =>
        have hsame : (step pda env s (.own k a)).1.clock = s.clock := by
          rw [step_own s k hown]
          exact (step_clocks hown).1
        rw [hsame]
        exact hs
    | launch | date | foreign => exact hs

variable (pda env)

/-- Whatever processes, restarts and third parties there are: at positive clock
readings the executed calls of a policy are the greedy sample of all candidates
of all parties. They are at least 30 seconds apart, and every window of `T`
seconds holds at most `T/30+1` of them. -/
theorem fleet_rate_limited (s : Fleet) (actions : List FleetAction)
    (hempty : s.accounts = fun _ => none) (hpos : 0 < s.clock.toInt)
    (hclock : ∀ c, .clock c ∈ actions → 0 < c.toInt) (policy : Pubkey) :
    fleetEvents policy ((fleet pda env).outputs s actions) =
      (greedy SwigSampling.clock 30 (((chainView pda env).inputs s actions).filter
        (SwigSampling.candidate pda policy))).map executedEvent ∧
    Spaced 30 ((fleetEvents policy ((fleet pda env).outputs s actions)).map fun e => e.ts.toInt) ∧
    ∀ a T : ℤ, 0 ≤ T →
      ((((fleetEvents policy ((fleet pda env).outputs s actions)).map fun e => e.ts.toInt).filter
        fun x => a ≤ x ∧ x ≤ a + T).length : ℤ) ≤ T / 30 + 1 := by
  have hcalls : ∀ call ∈ (chainView pda env).inputs s actions, 0 < SwigSampling.clock call := by
    intro call hcall
    obtain ⟨first, a, rest, rfl, ha⟩ := (chainView pda env).mem_inputs hcall
    have hnow := executes_clock ha
    rw [SwigSampling.clock, hnow]
    exact clock_positive hpos fun c hc => hclock c (List.mem_append_left _ hc)
  have hgreedy : fleetEvents policy ((fleet pda env).outputs s actions) =
      (greedy SwigSampling.clock 30 (((chainView pda env).inputs s actions).filter
        (SwigSampling.candidate pda policy))).map executedEvent := by
    rw [fleetEvents_eq, hempty, (SwigSampling.Remembers.initial pda policy).events_eq hcalls,
      ← taken_eq_greedy, List.map_map]
    rfl
  have hspaced : Spaced 30
      ((fleetEvents policy ((fleet pda env).outputs s actions)).map fun e => e.ts.toInt) := by
    rw [hgreedy, List.map_map]
    exact greedy_spaced (by decide) _
  exact ⟨hgreedy, hspaced, fun a T hT => hspaced.count_window (by decide) a hT⟩

/-- Processes of the guardian's client, on a chain without accounts. -/
def demoFleet : Fleet := ⟨fun _ => .launched demoClient 0, fun _ => none, 1⟩

/-- Two processes submit an EXIT of the demo position; the second one lands first. -/
def race : List FleetAction :=
  [.clock 1000, .own 0 (.invoke 0 (demoExit 10000)), .own 1 (.invoke 0 (demoExit 10000)),
    .own 1 (.land 0), .own 0 (.land 0)]

theorem race_launches : ∀ a ∈ race, ¬a.launches 1 := by
  simp [race, FleetAction.launches]

/-- The events of the race: one of the two transactions is executed. -/
theorem fleet_rate_limited_demo :
    (fleetEvents DevnetConfig.operatorPolicy
      ((fleet DevnetConfig.lastRebalancedPda devnet).outputs demoFleet race)).map (fun e => e.ts) =
      [1000] ∧
    Spaced 30 ((fleetEvents DevnetConfig.operatorPolicy
      ((fleet DevnetConfig.lastRebalancedPda devnet).outputs demoFleet race)).map
        fun e => e.ts.toInt) :=
  ⟨rfl, (fleet_rate_limited DevnetConfig.lastRebalancedPda devnet demoFleet race rfl (by decide)
    (by simp [race]) DevnetConfig.operatorPolicy).2.1⟩

/-- The fleet when a process has just been started. -/
def launched (s : Fleet) (before : List FleetAction) (k : ℕ) (client : RealClient) (ms : ℤ) :
    Fleet :=
  (fleet pda env).run s (before ++ [.launch k client ms])

/-- What a process has seen since it was started: first the clocks. -/
def seenSince (s : Fleet) (k : ℕ) (client : RealClient) (ms : ℤ) (after : List FleetAction) :
    List Action :=
  .clocks ms s.clock :: (processView pda env client k).inputs s after

variable {pda env}

/-- A process that has just been started has seen the clocks. -/
theorem launched_world (pda : PdaScheme) (env : Environment) (s : Fleet)
    (before : List FleetAction) (k : ℕ) (client : RealClient) (ms : ℤ) :
    ((launched pda env s before k client ms).processes k).client = client ∧
      (launched pda env s before k client ms).world k =
        (ClientRuns.step pda env client
          (World.initial (launched pda env s before k client ms).accounts)
          (.clocks ms (launched pda env s before k client ms).clock)).1 := by
  rw [launched, Machine.run_concat]
  simp [fleet, step, Fleet.world, ClientRuns.step, World.initial, Process.launched]

/-- Since its start a process has run as one client. -/
theorem world_since (pda : PdaScheme) (env : Environment) (s : Fleet)
    (before : List FleetAction) {after : List FleetAction} {k : ℕ}
    (client : RealClient) (ms : ℤ) (hafter : ∀ a ∈ after, ¬a.launches k) :
    ((fleet pda env).run (launched pda env s before k client ms) after).world k =
        worldAfter pda env client (launched pda env s before k client ms).accounts
          (seenSince pda env (launched pda env s before k client ms) k client ms after) ∧
      logOf pda env client (launched pda env s before k client ms).accounts
          (seenSince pda env (launched pda env s before k client ms) k client ms after) =
        .idle :: (processView pda env client k).outputs (launched pda env s before k client ms)
          after := by
  obtain ⟨hclient, hworld⟩ := launched_world pda env s before k client ms
  obtain ⟨hrun, houtputs⟩ := (processView pda env client k).run_view _ after hclient hafter
  change Fleet.world _ k = (machine pda env client).run (Fleet.world _ k) _ at hrun
  change (machine pda env client).outputs (Fleet.world _ k) _ = _ at houtputs
  rw [hworld] at hrun houtputs
  refine ⟨hrun, ?_⟩
  rw [← houtputs]
  rfl

variable (pda env)

/-- From every start of a process until its next one, its caches, its clock and
its calls are those of a run of a single client on the chain of that moment,
with empty caches, in which the transactions of all other processes are calls
of third parties; and it is answered as in that run. -/
theorem process_is_client (s : Fleet) (before after : List FleetAction) (k : ℕ)
    (client : RealClient) (ms : ℤ) (hafter : ∀ a ∈ after, ¬a.launches k) :
    ((fleet pda env).run s (before ++ .launch k client ms :: after)).world k =
      worldAfter pda env client (launched pda env s before k client ms).accounts
        (seenSince pda env (launched pda env s before k client ms) k client ms after) ∧
    (processView pda env client k).outputs (launched pda env s before k client ms) after =
      (logOf pda env client (launched pda env s before k client ms).accounts
        (seenSince pda env (launched pda env s before k client ms) k client ms after)).tail := by
  obtain ⟨hworld, hlog⟩ := world_since pda env s before client ms hafter
  rw [hlog, List.append_cons, Machine.run_append]
  exact ⟨hworld, rfl⟩

/-- The second process in the race is one client among third parties. -/
theorem process_is_client_demo :
    ((fleet DevnetConfig.lastRebalancedPda devnet).run demoFleet
      ([] ++ .launch 1 demoClient 1000000 :: race)).world 1 =
      worldAfter DevnetConfig.lastRebalancedPda devnet demoClient
        (launched DevnetConfig.lastRebalancedPda devnet demoFleet [] 1 demoClient 1000000).accounts
        (seenSince DevnetConfig.lastRebalancedPda devnet
          (launched DevnetConfig.lastRebalancedPda devnet demoFleet [] 1 demoClient 1000000) 1
          demoClient 1000000 race) :=
  (process_is_client DevnetConfig.lastRebalancedPda devnet demoFleet [] race 1 demoClient 1000000
    race_launches).1

variable {pda env}

/-- A verdict on a transaction of the process's own was seen by the process. -/
theorem own_verdict {s : Fleet} {k : ℕ} {client : RealClient} {after : List FleetAction} {i : ℕ}
    {r : Except Rejection RebalanceExecutedEvent}
    (h : .landed i r ∈ (processView pda env client k).outputs s after) :
    .of k (.landed i r) ∈ (fleet pda env).outputs s after := by
  obtain ⟨first, a, rest, _, rfl, -, ho⟩ := (processView pda env client k).mem_outputs h
  have hmem : ((fleet pda env).step ((fleet pda env).run s first) a).2 ∈
      (fleet pda env).outputs s (first ++ a :: rest) := by
    rw [Machine.outputs_append, Machine.outputs_cons]
    exact List.mem_append_right _ List.mem_cons_self
  change _ = outputOf k a _ at ho
  cases hanswer : ((fleet pda env).step ((fleet pda env).run s first) a).2 with
  | idle | foreign =>
    rw [hanswer] at ho
    cases ho
  | of j answer =>
    rw [hanswer] at ho hmem
    by_cases hj : j = k
    · subst hj
      simp only [outputOf, if_true] at ho
      subst ho
      exact hmem
    · simp only [outputOf, if_neg hj] at ho
      split at ho <;> cases ho

/-- The executed transactions of a client carry its wallet. -/
theorem flights_signed (pda : PdaScheme) (env : Environment) (client : RealClient)
    (accounts : Accounts) (actions : List Action) :
    ∀ i f e, (worldAfter pda env client accounts actions).flights i = some f →
      f.landed = some (.ok e) → e.guardianAuthority = client.wallet := by
  refine (machine pda env client).run_invariant
    (I := fun w => ∀ i f e, w.flights i = some f → f.landed = some (.ok e) →
      e.guardianAuthority = client.wallet) ?_ ?_ actions
  · intro w a ih i f' e hf' he
    rcases (step_effect pda env client w a).flight_cases hf' with
      hf | ⟨f, hf, rfl⟩ | ⟨f, call, hf, -, hcall, rfl, -⟩ | ⟨_, _, -, -, -, -, -, rfl⟩
    · exact ih i f' e hf he
    · exact ih i f e hf he
    · obtain ⟨-, rfl, -⟩ := step_ok (Option.some.inj he)
      obtain ⟨_, -, rfl⟩ := Option.map_eq_some_iff.mp hcall
      rfl
    · cases he
  · exact fun _ _ _ hf => nomatch hf

/-- Between its starts a process keeps its client. -/
theorem run_keeps_client (pda : PdaScheme) (env : Environment) (s : Fleet) {k : ℕ}
    {after : List FleetAction}
    (hafter : ∀ a ∈ after, ¬a.launches k) :
    (((fleet pda env).run s after).processes k).client = (s.processes k).client := by
  induction after generalizing s with
  | nil => rfl
  | cons a after ih =>
    have hstep := step_keeps_client pda env s (hafter a List.mem_cons_self)
    exact (ih _ fun b hb => hafter b (List.mem_cons_of_mem _ hb)).trans hstep

variable (pda env)

/-- A process resolves an EXIT only with the signature of a transaction that it
has submitted itself since it was started, and that executed an EXIT on the
plan's policy under its own wallet. No signature of another process or from
before a restart is ever returned. -/
theorem process_signatures_sound (s : Fleet) (before after : List FleetAction) (k : ℕ)
    (client : RealClient) (ms : ℤ) (hafter : ∀ a ∈ after, ¬a.launches k) (a : Action) (o : Answer)
    (sig : TxSig)
    (ho : ((fleet pda env).step
      ((fleet pda env).run s (before ++ .launch k client ms :: after)) (.own k a)).2 = .of k o)
    (hsig : resolvedWith o = some sig) :
    ∃ plan e, planOf (((fleet pda env).run s (before ++ .launch k client ms :: after)).world k) a =
        some plan ∧
      plan.action = .exit ∧
      .of k (.landed sig (.ok e)) ∈
        (fleet pda env).outputs (launched pda env s before k client ms) after ∧
      e.guardianAuthority = client.wallet ∧ e.action = .exit ∧
      env.publicKey plan.positionId = .ok e.policy ∧ e.sizeBps.toNat ≤ 10000 := by
  obtain ⟨hworld, hlog⟩ := world_since pda env s before client ms hafter
  have hclient := (run_keeps_client pda env (launched pda env s before k client ms) hafter).trans
    (launched_world pda env s before k client ms).1
  rw [List.append_cons, Machine.run_append] at ho ⊢
  change ((fleet pda env).step ((fleet pda env).run (launched pda env s before k client ms) after)
    (.own k a)).2 = .of k o at ho
  change ∃ plan e, planOf (((fleet pda env).run (launched pda env s before k client ms)
    after).world k) a = some plan ∧ _
  generalize hend : (fleet pda env).run (launched pda env s before k client ms) after = final at *
  cases hown : ofProcess a with
  | false =>
    have hidle : ((fleet pda env).step final (.own k a)).2 = .idle :=
      congrArg Prod.snd (step_not_own final k hown)
    rw [hidle] at ho
    cases ho
  | true =>
    have hanswer : ((fleet pda env).step final (.own k a)).2 =
        .of k (ClientRuns.step pda env client (final.world k) a).2 := by
      rw [← hclient]
      exact congrArg Prod.snd (step_own final k hown)
    rw [hanswer] at ho
    cases ho
    have hrecord := Recorded.of_run pda env client (launched pda env s before k client ms).accounts
      (seenSince pda env (launched pda env s before k client ms) k client ms after)
    have hsound := flights_sound pda env client (launched pda env s before k client ms).accounts
      (seenSince pda env (launched pda env s before k client ms) k client ms after)
    have hsigned := flights_signed pda env client (launched pda env s before k client ms).accounts
      (seenSince pda env (launched pda env s before k client ms) k client ms after)
    rw [hlog, ← hworld] at hrecord
    rw [← hworld] at hsound hsigned
    -- What has landed in the log of the process has landed in the fleet.
    have hown_landed : ∀ {i f e}, (final.world k).flights i = some f →
        f.landed = some (.ok e) → .of k (.landed i (.ok e)) ∈
          (fleet pda env).outputs (launched pda env s before k client ms) after := by
      intro i f e hf hok
      rcases List.mem_cons.mp (hrecord.landed i f _ hf hok) with hidle | hmem
      · cases hidle
      · exact own_verdict hmem
    rcases resolved_cases hrecord hsound (step_effect pda env client (final.world k) a) hsig with
      ⟨f, e, rfl, hf, hok⟩ | ⟨plan, entry, hplan, hexit, rfl, hconfirmed, -⟩
    · have hflight := hsound sig f hf
      obtain ⟨hpolicy, haction, -, hle⟩ := hflight.event e hok
      exact ⟨f.submission.plan, e, by simp [planOf, hf], hflight.exit, hown_landed hf hok,
        hsigned sig f e hf hok, haction, by rw [hflight.key, hpolicy], hle⟩
    · obtain ⟨f, e, hf, hok, hposition⟩ := hrecord.confirmed _ entry hconfirmed
      have hflight := hsound _ f hf
      obtain ⟨hpolicy, haction, -, hle⟩ := hflight.event e hok
      exact ⟨plan, e, hplan, hexit, hown_landed hf hok, hsigned _ f e hf hok, haction,
        by rw [← hposition, hflight.key, hpolicy], hle⟩

/-- The signature that the second process resolves with is of its own transaction. -/
theorem process_signatures_sound_demo :
    ∃ e, .of 1 (.landed 0 (.ok e)) ∈ (fleet DevnetConfig.lastRebalancedPda devnet).outputs
        (launched DevnetConfig.lastRebalancedPda devnet demoFleet [] 1 demoClient 1000000) race ∧
      e.guardianAuthority = demoClient.wallet := by
  obtain ⟨_, e, -, -, hland, hwallet, -⟩ := process_signatures_sound DevnetConfig.lastRebalancedPda
    devnet demoFleet [] race 1 demoClient 1000000 race_launches (.settle 0)
    (.confirmed "DpKAer9JUmzMfyJ3G3k3M7xGHp3WnGrg5Ppv1Uy5a1jB" ⟨0, 1000000⟩) 0 rfl rfl
  exact ⟨e, hland, hwallet⟩

end Runs

end RiskClaw.ClientFleet
