import RiskClaw.DevnetConfig
import RiskClaw.SpacedTimes
import RiskClaw.SwigDelegation

/-!
# The 30-second window over whole runs

For any mix of policies, signers, arguments and positive clock readings, the
accepted calls of one policy are spaced by the rate limit, and its anchor is
the record of its latest event. The clock may jump: a reading before the last
stamp is refused like any other reading inside the window.
-/

namespace RiskClaw.SwigRateLimit

open ReactiveMachine AccountStore SpacedTimes SolanaRuntime SwigDelegation

/-- An executed call with its surroundings. -/
abbrev CallTransition := Transition Accounts Call (Except Rejection RebalanceExecutedEvent)

/-- The events that one policy emitted in a history, oldest first. -/
def eventsOf (policy : Pubkey) (history : List CallTransition) : List RebalanceExecutedEvent :=
  (history.filterMap fun t => t.output.toOption).filter fun e => e.policy = policy

/-- Clocks of the events of one policy, oldest first. -/
def eventTimes (policy : Pubkey) (history : List CallTransition) : List ℤ :=
  (eventsOf policy history).map fun e => e.ts.toInt

theorem eventsOf_append (policy : Pubkey) (earlier later : List CallTransition) :
    eventsOf policy (earlier ++ later) = eventsOf policy earlier ++ eventsOf policy later := by
  simp only [eventsOf, List.filterMap_append, List.filter_append]

theorem eventsOf_ok (policy : Pubkey) {t : CallTransition} {e : RebalanceExecutedEvent}
    (ht : t.output = .ok e) : eventsOf policy [t] = if e.policy = policy then [e] else [] := by
  by_cases he : e.policy = policy <;> simp [eventsOf, ht, Except.toOption, he]

theorem eventsOf_error (policy : Pubkey) {t : CallTransition} {e : Rejection}
    (ht : t.output = .error e) : eventsOf policy [t] = [] := by
  simp [eventsOf, ht, Except.toOption]

/-- The window is open without a stamp, and exactly from 30 seconds after the
stamp on; the saturation never matters, at whatever clock readings. -/
theorem windowOpen_iff {now : Int64} {lr : LastRebalanced} :
    WindowOpen now lr ↔ lr.timestamp = 0 ∨ lr.timestamp.toInt + 30 ≤ now.toInt := by
  have hrate : LastRebalanced.rateLimitSecs.toInt = 30 := by decide
  unfold WindowOpen
  rw [Int64.le_iff_toInt_le, saturatingSub_toInt, hrate]
  refine or_congr_right ?_
  omega

/-- A positive stamp is not the sentinel. -/
theorem windowOpen_iff_of_pos {now : Int64} {lr : LastRebalanced}
    (hlr : 0 < lr.timestamp.toInt) :
    WindowOpen now lr ↔ lr.timestamp.toInt + 30 ≤ now.toInt := by
  have hzero : lr.timestamp ≠ 0 := by
    intro h
    rw [h] at hlr
    exact absurd hlr (by decide)
  rw [windowOpen_iff, or_iff_right hzero]

/-- Once open, the window stays open until the next stamp. -/
theorem windowOpen_mono {now later : Int64} {lr : LastRebalanced} (h : WindowOpen now lr)
    (hle : now.toInt ≤ later.toInt) : WindowOpen later lr := by
  rw [windowOpen_iff] at h ⊢
  exact h.imp_right fun hold => hold.trans hle

/-- What a history and the accounts after it have in common, for one policy. -/
structure Recorded (pda : PdaScheme) (policy : Pubkey) (history : List CallTransition)
    (s : Accounts) : Prop where
  /-- The events are spaced by the rate limit. -/
  spaced : Spaced 30 (eventTimes policy history)
  /-- No event carries the sentinel clock. -/
  positive : ∀ e ∈ eventsOf policy history, 0 < e.ts.toInt
  /-- The anchor holds the clock of the latest event, and is missing without one. -/
  anchor : (s (pda.address policy)).map (fun lr => lr.timestamp) =
    (eventsOf policy history).getLast?.map (fun e => e.ts)

namespace Recorded

variable {pda : PdaScheme} {policy : Pubkey} {history : List CallTransition} {s : Accounts}

theorem initial : Recorded pda policy [] fun _ => none :=
  ⟨List.Pairwise.nil, fun _ h => absurd h List.not_mem_nil, rfl⟩

/-- A step without an event of the policy that leaves its anchor alone. -/
theorem skip (h : Recorded pda policy history s) {t : CallTransition} {s' : Accounts}
    (hnone : eventsOf policy [t] = [])
    (hanchor : s' (pda.address policy) = s (pda.address policy)) :
    Recorded pda policy (history ++ [t]) s' := by
  have hevents := eventsOf_append policy history [t]
  rw [hnone, List.append_nil] at hevents
  refine ⟨?_, ?_, ?_⟩
  · rw [eventTimes, hevents]
    exact h.spaced
  · rw [hevents]
    exact h.positive
  · rw [hevents, hanchor]
    exact h.anchor

/-- A call that passes the window comes 30 seconds after the latest event. -/
theorem gap (h : Recorded pda policy history s) {now : Int64}
    (hopen : WindowOpen now ((s (pda.address policy)).getD .zeroed)) {l : ℤ}
    (hl : (eventTimes policy history).getLast? = some l) : l + 30 ≤ now.toInt := by
  rw [eventTimes, List.getLast?_map] at hl
  obtain ⟨e, he, rfl⟩ := Option.map_eq_some_iff.mp hl
  have hanchor := h.anchor
  rw [he] at hanchor
  obtain ⟨lr, hs, hts⟩ := Option.map_eq_some_iff.mp hanchor
  have hpos := h.positive e (List.mem_of_getLast? he)
  rw [hs, Option.getD_some, windowOpen_iff_of_pos (by rwa [hts]), hts] at hopen
  exact hopen

/-- One accepted call on the policy extends its record. -/
theorem accept (h : Recorded pda policy history s) {call : Call}
    (hclock : 0 < call.unixTimestamp.toInt) (hpolicy : call.accounts.policy = policy)
    (hok : Accepted pda (s (pda.address policy)) call) {t : CallTransition}
    (ht : t.output = .ok (executedEvent call)) :
    Recorded pda policy (history ++ [t])
      (Function.update s (pda.address policy) (some (stamped pda call))) := by
  have hevents := eventsOf_append policy history [t]
  rw [eventsOf_ok policy ht,
    if_pos (show (executedEvent call).policy = policy from hpolicy)] at hevents
  refine ⟨?_, ?_, ?_⟩
  · rw [eventTimes, hevents, List.map_append]
    exact h.spaced.concat (by decide) fun l hl => h.gap hok.2.1 hl
  · intro e he
    rw [hevents] at he
    rcases List.mem_append.mp he with he | he
    · exact h.positive e he
    · rw [List.mem_singleton.mp he]
      exact hclock
  · rw [hevents, Function.update_self, List.getLast?_append]
    rfl

/-- Every call, accepted or not and on whatever policy, preserves the record. -/
theorem step (h : Recorded pda policy history s) {call : Call}
    (hclock : 0 < call.unixTimestamp.toInt) :
    Recorded pda policy (history ++ [(program pda).machine.transition s call])
      ((program pda).machine.step s call).1 := by
  rw [CellProgram.machine_step]
  rcases step_cases pda s call with ⟨hok, hs⟩ | ⟨-, e, hs⟩
  · have ht : ((program pda).machine.transition s call).output = .ok (executedEvent call) :=
      congrArg Prod.snd hs
    rw [hs]
    by_cases hp : call.accounts.policy = policy
    · rw [hp] at hok ⊢
      exact h.accept hclock hp hok ht
    · have hnone := eventsOf_ok policy ht
      rw [if_neg (show (executedEvent call).policy ≠ policy from hp)] at hnone
      have hcell : pda.address policy ≠ pda.address call.accounts.policy :=
        fun he => hp (pda.address_injective he).symm
      exact h.skip hnone (Function.update_of_ne hcell _ _)
  · have ht : ((program pda).machine.transition s call).output = .error e := congrArg Prod.snd hs
    rw [hs]
    exact h.skip (eventsOf_error policy ht) rfl

/-- The record holds after every run from the empty store. -/
theorem of_run (pda : PdaScheme) (policy : Pubkey) {calls : List Call}
    (hclock : ∀ call ∈ calls, 0 < call.unixTimestamp.toInt) :
    Recorded pda policy ((program pda).machine.trace (fun _ => none) calls)
      ((program pda).machine.run (fun _ => none) calls) :=
  (program pda).machine.history_induction (A := fun t => 0 < t.input.unixTimestamp.toInt)
    initial (fun _ _ _ hc hr => hr.step hc)
    fun _ ht => hclock _ ((program pda).machine.input_mem_of_mem_trace ht)

end Recorded

/-- Executed calls of a run from the empty store. -/
def historyOf (pda : PdaScheme) (calls : List Call) : List CallTransition :=
  (program pda).machine.trace (fun _ => none) calls

/-- Accounts after a run from the empty store. -/
def accountsAfter (pda : PdaScheme) (calls : List Call) : Accounts :=
  (program pda).machine.run (fun _ => none) calls

/-- At any positive clock readings, the events of one policy come in strictly
increasing time at least 30 seconds apart, every window of `T` seconds holds at
most `T/30+1` of them, and the anchor exists exactly after the first event and
carries the clock of the latest. -/
theorem rebalances_rate_limited (pda : PdaScheme) (calls : List Call)
    (hclock : ∀ call ∈ calls, 0 < call.unixTimestamp.toInt) (policy : Pubkey) :
    (eventTimes policy (historyOf pda calls)).Pairwise (· < ·) ∧
    (eventTimes policy (historyOf pda calls)).Pairwise (fun a b => a + 30 ≤ b) ∧
    (∀ a T : ℤ, 0 ≤ T →
      (((eventTimes policy (historyOf pda calls)).filter fun x => a ≤ x ∧ x ≤ a + T).length : ℤ) ≤
        T / 30 + 1) ∧
    ((∃ lr, accountsAfter pda calls (pda.address policy) = some lr) ↔
      eventsOf policy (historyOf pda calls) ≠ []) ∧
    ∀ lr, accountsAfter pda calls (pda.address policy) = some lr →
      ∃ e, (eventsOf policy (historyOf pda calls)).getLast? = some e ∧ lr.timestamp = e.ts := by
  have h := Recorded.of_run pda policy hclock
  have hanchor : (accountsAfter pda calls (pda.address policy)).map (fun lr => lr.timestamp) =
      (eventsOf policy (historyOf pda calls)).getLast?.map (fun e => e.ts) := h.anchor
  refine ⟨h.spaced.strictly_increasing (by decide), h.spaced,
    fun a T hT => h.spaced.count_window (by decide) a hT, ?_, ?_⟩
  · rw [← Option.isSome_iff_exists, ← Option.isSome_map, hanchor, Option.isSome_map,
      List.getLast?_isSome]
  · intro lr hlr
    rw [hlr, Option.map_some] at hanchor
    obtain ⟨e, he, hts⟩ := Option.map_eq_some_iff.mp hanchor.symm
    exact ⟨e, he, hts.symm⟩

/-- The call that the guardian agent makes on the demo policy. -/
def demoCall (clock : Int64) (guardian : Pubkey) (sizeBps : UInt16) : Call where
  accounts := ⟨DevnetConfig.operatorPolicy, DevnetConfig.operatorAnchor, guardian, systemProgramId⟩
  args := ⟨DevnetConfig.operatorPolicy, .exit, sizeBps, 100, 1000, 995⟩
  signers := [guardian]
  unixTimestamp := clock

/-- The rule on three calls, the second of them inside the window and the last
one at the top of the clock range. -/
theorem rebalances_rate_limited_demo :
    eventTimes DevnetConfig.operatorPolicy (historyOf DevnetConfig.lastRebalancedPda
      [demoCall 100 DevnetConfig.guardianAgent 5000, demoCall 129 DevnetConfig.guardianAgent 10000,
        demoCall Int64.maxValue DevnetConfig.guardianAgent 10000]) =
      [100, 9223372036854775807] ∧
    (eventTimes DevnetConfig.operatorPolicy (historyOf DevnetConfig.lastRebalancedPda
      [demoCall 100 DevnetConfig.guardianAgent 5000, demoCall 129 DevnetConfig.guardianAgent 10000,
        demoCall Int64.maxValue DevnetConfig.guardianAgent 10000])).Pairwise (· < ·) :=
  ⟨by decide, (rebalances_rate_limited DevnetConfig.lastRebalancedPda
    [demoCall 100 DevnetConfig.guardianAgent 5000, demoCall 129 DevnetConfig.guardianAgent 10000,
      demoCall Int64.maxValue DevnetConfig.guardianAgent 10000]
    (by decide) DevnetConfig.operatorPolicy).1⟩

end RiskClaw.SwigRateLimit
