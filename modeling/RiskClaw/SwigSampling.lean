import RiskClaw.GreedySampling
import RiskClaw.SwigIsolation

/-!
# The rate limit as a greedy sampler

A call on a policy that passes every check except the window is a candidate.
Seen from one policy, the program is the greedy sampler of its candidates with
a window of 30 seconds: it executes the first one and then each that comes 30
seconds after the one executed last. When the clock does not go back, no choice
of candidates that keeps the rate limit executes more of them.
-/

namespace RiskClaw.SwigSampling

open ReactiveMachine AccountStore SpacedTimes GreedySampling SolanaRuntime SwigDelegation
open SwigRateLimit SwigIsolation

/-- Clock of a call as an integer. -/
def clock (call : Call) : ℤ := call.unixTimestamp.toInt

/-- A call on the policy that only the window can refuse. -/
def candidate (pda : PdaScheme) (policy : Pubkey) (call : Call) : Bool :=
  call.accounts.policy = policy ∧ AccountsAccepted pda call ∧ ArgsAccepted call.args

/-- The anchor of the policy carries the clock of the call executed last. -/
structure Remembers (pda : PdaScheme) (policy : Pubkey) (s : Accounts) (last : Option Call) :
    Prop where
  /-- The anchor's clock. -/
  anchor : (s (pda.address policy)).map LastRebalanced.timestamp = last.map Invocation.unixTimestamp
  /-- The clock is not the sentinel. -/
  positive : ∀ call, last = some call → 0 < clock call

namespace Remembers

variable {pda : PdaScheme} {policy : Pubkey} {s : Accounts} {last : Option Call}

theorem initial (pda : PdaScheme) (policy : Pubkey) :
    Remembers pda policy (fun _ => none) none :=
  ⟨rfl, (fun _ h => nomatch h)⟩

/-- The window is open exactly outside the window of the sampler. -/
theorem windowOpen_iff (h : Remembers pda policy s last) (now : Int64) :
    WindowOpen now ((s (pda.address policy)).getD .zeroed) ↔
      ∀ call, last = some call → clock call + 30 ≤ now.toInt := by
  cases last with
  | none =>
    have hanchor : s (pda.address policy) = none := by
      have hmap := h.anchor
      rwa [Option.map_none, Option.map_eq_none_iff] at hmap
    rw [hanchor]
    exact ⟨(fun _ _ hc => nomatch hc), fun _ => Or.inl rfl⟩
  | some call =>
    obtain ⟨lr, hlr, hts⟩ := Option.map_eq_some_iff.mp h.anchor
    have hpos : 0 < lr.timestamp.toInt := by
      rw [hts]
      exact h.positive call rfl
    rw [hlr, Option.getD_some, windowOpen_iff_of_pos hpos, hts]
    constructor
    · rintro hle _ ⟨⟩
      exact hle
    · intro hall
      exact hall call rfl

/-- The policy of an executed candidate remembers it. -/
theorem stamp {call : Call} (hp : call.accounts.policy = policy) (hpos : 0 < clock call) :
    Remembers pda policy
      (Function.update s (pda.address call.accounts.policy) (some (stamped pda call)))
      (some call) := by
  subst hp
  refine ⟨?_, ?_⟩
  · rw [Function.update_self]
    rfl
  · rintro _ ⟨⟩
    exact hpos

/-- A candidate is executed when the sampler takes it, and then remembered. -/
theorem candidate_step (h : Remembers pda policy s last) {call : Call} (hpos : 0 < clock call)
    (hcall : candidate pda policy call = true) :
    Remembers pda policy ((program pda).step s call).1 ((sampler clock 30).step last call).1 ∧
      eventsOf policy [(program pda).machine.transition s call] =
        if ((sampler clock 30).step last call).2.taken = true then [executedEvent call]
        else [] := by
  obtain ⟨hp, haccounts, hargs⟩ := of_decide_eq_true hcall
  have hwindow := h.windowOpen_iff call.unixTimestamp
  rw [← hp] at hwindow
  rcases sampler_cases (W := 30) clock last call with ⟨b, hb, hnear, hs⟩ | ⟨hfar, hs⟩ <;> rw [hs]
  · -- The last executed call is less than 30 seconds old.
    have hclosed : ¬Accepted pda (s (pda.address call.accounts.policy)) call := by
      intro hok
      have hle := hwindow.mp hok.2.1 b hb
      change clock b + 30 ≤ clock call at hle
      omega
    rcases step_cases pda s call with ⟨hok, -⟩ | ⟨-, e, hstep⟩
    · exact absurd hok hclosed
    · have ht : ((program pda).machine.transition s call).output = .error e :=
        congrArg Prod.snd hstep
      rw [hstep, eventsOf_error policy ht]
      exact ⟨h, rfl⟩
  · have hopen : Accepted pda (s (pda.address call.accounts.policy)) call :=
      ⟨haccounts, hwindow.mpr hfar, hargs⟩
    rcases step_cases pda s call with ⟨-, hstep⟩ | ⟨hrefused, -⟩
    · have ht : ((program pda).machine.transition s call).output = .ok (executedEvent call) :=
        congrArg Prod.snd hstep
      rw [hstep, eventsOf_ok policy ht, if_pos (show (executedEvent call).policy = policy from hp)]
      exact ⟨stamp hp hpos, rfl⟩
    · exact absurd hopen hrefused

/-- Any other call leaves the policy as it is. -/
theorem other_step (h : Remembers pda policy s last) {call : Call}
    (hcall : candidate pda policy call = false) :
    Remembers pda policy ((program pda).step s call).1 last ∧
      eventsOf policy [(program pda).machine.transition s call] = [] := by
  rcases step_cases pda s call with ⟨hok, hstep⟩ | ⟨-, e, hstep⟩
  · have hp : call.accounts.policy ≠ policy := by
      intro hp
      exact of_decide_eq_false hcall ⟨hp, hok.1, hok.2.2⟩
    have ht : ((program pda).machine.transition s call).output = .ok (executedEvent call) :=
      congrArg Prod.snd hstep
    refine ⟨⟨?_, h.positive⟩, ?_⟩
    · rw [step_other_policy pda s hp]
      exact h.anchor
    · rw [eventsOf_ok policy ht, if_neg (show (executedEvent call).policy ≠ policy from hp)]
  · have ht : ((program pda).machine.transition s call).output = .error e :=
      congrArg Prod.snd hstep
    rw [hstep, eventsOf_error policy ht]
    exact ⟨h, rfl⟩

/-- The events of a policy are those of the samples taken. -/
theorem events_eq (h : Remembers pda policy s last) {calls : List Call}
    (hclock : ∀ call ∈ calls, 0 < clock call) :
    eventsOf policy ((program pda).machine.trace s calls) =
      (((sampler clock 30).outputs last (calls.filter (candidate pda policy))).filter
        Sample.taken).map fun x => executedEvent x.event := by
  induction calls generalizing s last with
  | nil => rfl
  | cons call calls ih =>
    have hpos := hclock call List.mem_cons_self
    have hrest : ∀ c ∈ calls, 0 < clock c := fun c hc => hclock c (List.mem_cons_of_mem _ hc)
    rw [Machine.trace_cons, ← List.singleton_append, eventsOf_append, List.filter_cons]
    cases hcall : candidate pda policy call with
    | false =>
      obtain ⟨hnext, hnone⟩ := h.other_step hcall
      rw [hnone, List.nil_append, if_neg Bool.false_ne_true]
      exact ih hnext hrest
    | true =>
      obtain ⟨hnext, hevents⟩ := h.candidate_step hpos hcall
      have hevent : ((sampler clock 30).step last call).2.event = call := by
        rcases sampler_cases (W := 30) clock last call with ⟨_, -, -, hs⟩ | ⟨-, hs⟩ <;> rw [hs]
      rw [if_pos rfl, Machine.outputs_cons, List.filter_cons, hevents]
      have htail := ih hnext hrest
      rw [CellProgram.machine_step, htail]
      split
      · rw [List.map_cons, hevent]
        rfl
      · rfl

end Remembers

/-- At any positive clock readings, a policy's events are those of the greedy
sample of its candidates: the first one, and each that comes at least 30 seconds
after the one executed last. No other call has any influence on them. -/
theorem executions_greedy (pda : PdaScheme) (calls : List Call)
    (hclock : ∀ call ∈ calls, 0 < call.unixTimestamp.toInt) (policy : Pubkey) :
    eventsOf policy (historyOf pda calls) =
      (greedy clock 30 (calls.filter (candidate pda policy))).map executedEvent := by
  have hevents := (Remembers.initial pda policy).events_eq hclock
  rw [historyOf, hevents, ← taken_eq_greedy, List.map_map]
  rfl

/-- Calls of the guardian on the demo policy, the second one inside the window. -/
def demoCalls : List Call :=
  [demoCall 100 DevnetConfig.guardianAgent 5000, demoCall 129 DevnetConfig.guardianAgent 10000,
    demoCall 131 DevnetConfig.guardianAgent 10000]

/-- The sample of these calls. -/
theorem executions_greedy_demo :
    eventTimes DevnetConfig.operatorPolicy (historyOf DevnetConfig.lastRebalancedPda demoCalls) =
      [100, 131] ∧
    eventsOf DevnetConfig.operatorPolicy (historyOf DevnetConfig.lastRebalancedPda demoCalls) =
      (greedy clock 30 (demoCalls.filter
        (candidate DevnetConfig.lastRebalancedPda DevnetConfig.operatorPolicy))).map
        executedEvent :=
  ⟨by decide, executions_greedy DevnetConfig.lastRebalancedPda demoCalls (by decide) _⟩

/-- When the clock does not go back, the program executes as many candidates of
a policy as can be executed 30 seconds apart. -/
theorem executions_longest (pda : PdaScheme) (calls : List Call)
    (hclock : ∀ call ∈ calls, 0 < call.unixTimestamp.toInt)
    (hordered : (calls.map clock).Pairwise (· ≤ ·)) (policy : Pubkey) {chosen : List Call}
    (hchosen : chosen.Sublist (calls.filter (candidate pda policy)))
    (hspaced : Spaced 30 (chosen.map clock)) :
    chosen.length ≤ (eventsOf policy (historyOf pda calls)).length := by
  have hcandidates : ((calls.filter (candidate pda policy)).map clock).Pairwise (· ≤ ·) :=
    hordered.sublist (List.filter_sublist.map clock)
  rw [executions_greedy pda calls hclock policy, List.length_map]
  exact greedy_longest hcandidates hchosen hspaced

/-- The rule for the first and the third call. -/
theorem executions_longest_demo :
    [demoCall 100 DevnetConfig.guardianAgent 5000,
        demoCall 131 DevnetConfig.guardianAgent 10000].length ≤
      (eventsOf DevnetConfig.operatorPolicy
        (historyOf DevnetConfig.lastRebalancedPda demoCalls)).length := by
  have hall : demoCalls.filter
      (candidate DevnetConfig.lastRebalancedPda DevnetConfig.operatorPolicy) = demoCalls :=
    List.filter_eq_self.mpr (by decide)
  have hchosen : [demoCall 100 DevnetConfig.guardianAgent 5000,
      demoCall 131 DevnetConfig.guardianAgent 10000].Sublist demoCalls :=
    .cons_cons _ (.cons _ (.cons_cons _ .slnil))
  exact executions_longest DevnetConfig.lastRebalancedPda demoCalls (by decide) (by decide)
    DevnetConfig.operatorPolicy (hall ▸ hchosen) (by decide)

end RiskClaw.SwigSampling
