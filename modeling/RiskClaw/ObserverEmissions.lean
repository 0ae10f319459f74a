import RiskClaw.ObserverLifecycle

/-!
# What the observer emits over its whole life

Only an interval that is due calls the handler, and the handler called is the
one registered last. The counter of the drift curve survives every stop and
every start, so the emissions of a whole life, in their order, carry the values
of the curve one after another; in every 60 of them that follow each other
exactly 22 have a drawdown of 2500 bps or more.
-/

namespace RiskClaw.ObserverLifecycle

open ReactiveMachine

/-- The call of a handler among the effects. -/
def handledIn : Effect → Option (ℕ × PositionMetrics)
  | .handled handler metrics => some (handler, metrics)
  | _ => none

/-- The calls of handlers in a history, oldest first. -/
def emissions (history : List CallTransition) : List (ℕ × PositionMetrics) :=
  (history.flatMap fun t => t.output.effects).filterMap handledIn

/-- The handler that a call registers. -/
def registration : Call → Option ℕ
  | .onMetrics handler => some handler
  | _ => none

/-- The handler registered last. -/
def registered (history : List CallTransition) : Option ℕ :=
  (history.filterMap fun t => registration t.input).getLast?

section Steps

variable {opts : ObserverOpts} {s : State}

theorem mem_emissions_singleton {t : CallTransition} {handler : ℕ} {metrics : PositionMetrics} :
    (handler, metrics) ∈ emissions [t] ↔ .handled handler metrics ∈ t.output.effects := by
  unfold emissions
  rw [List.flatMap_singleton, List.mem_filterMap]
  constructor
  · rintro ⟨e, he, heq⟩
    cases e with
    | handled h m =>
      cases heq
      exact he
    | _ => cases heq
  · exact fun h => ⟨_, h, rfl⟩

theorem emissions_append (earlier later : List CallTransition) :
    emissions (earlier ++ later) = emissions earlier ++ emissions later := by
  simp only [emissions, List.flatMap_append, List.filterMap_append]

/-- An interval that is due calls the registered handler with the next value of
the curve, or nothing happens to the counter that an emission would need. -/
theorem due_cases (opts : ObserverOpts) (s : State) (interval : ℕ) (now : ℤ) :
    (∃ handler positionId, s.handler = some handler ∧ opts.positionIds.head? = some positionId ∧
      positionId ≠ "" ∧ (∃ i ∈ s.live, i.id = interval) ∧
      due opts s interval now = ({ s with tick := s.tick + 1 },
        ⟨.ok (), [.handled handler (metricsAt positionId (s.tick + 1) now)]⟩)) ∨
    ((due opts s interval now).2.effects = [] ∧ (due opts s interval now).1.handler = s.handler ∧
      ((∃ positionId, opts.positionIds.head? = some positionId ∧ positionId ≠ "") →
        (due opts s interval now).1.tick = s.tick)) := by
  unfold due
  by_cases hlive : (s.live.any fun i => i.id = interval) = true
  · rw [if_pos hlive]
    have hinterval : ∃ i ∈ s.live, i.id = interval := by
      obtain ⟨i, hi, hid⟩ := List.any_eq_true.mp hlive
      exact ⟨i, hi, of_decide_eq_true hid⟩
    unfold tickOnce
    cases hhandler : s.handler with
    | none => exact Or.inr ⟨rfl, hhandler, fun _ => rfl⟩
    | some handler =>
      cases hposition : opts.positionIds.head? with
      | none => exact Or.inr ⟨rfl, rfl, fun ⟨_, h, _⟩ => nomatch h⟩
      | some positionId =>
        dsimp only
        by_cases hempty : positionId = ""
        · rw [if_pos hempty]
          refine Or.inr ⟨rfl, rfl, ?_⟩
          rintro ⟨_, ⟨⟩, hne⟩
          exact absurd hempty hne
        · rw [if_neg hempty]
          exact Or.inl ⟨handler, positionId, rfl, rfl, hempty, hinterval, rfl⟩
  · rw [if_neg hlive]
    exact Or.inr ⟨rfl, rfl, fun _ => rfl⟩

/-- A live interval that is due calls a registered handler for a position. -/
theorem due_emits (opts : ObserverOpts) (s : State) {handler interval : ℕ} {positionId : String}
    (now : ℤ) (hhandler : s.handler = some handler)
    (hposition : opts.positionIds.head? = some positionId) (hne : positionId ≠ "")
    (hlive : ∃ i ∈ s.live, i.id = interval) :
    due opts s interval now = ({ s with tick := s.tick + 1 },
      ⟨.ok (), [.handled handler (metricsAt positionId (s.tick + 1) now)]⟩) := by
  obtain ⟨i, hi, hid⟩ := hlive
  have hany : (s.live.any fun i => i.id = interval) = true :=
    List.any_eq_true.mpr ⟨i, hi, decide_eq_true hid⟩
  rw [due, if_pos hany, tickOnce, hhandler]
  dsimp only
  rw [hposition]
  dsimp only
  rw [if_neg hne]

/-- Any other call emits nothing and leaves the counter alone. -/
theorem other_emits_nothing (opts : ObserverOpts) (s : State) (call : Call)
    (hcall : ∀ interval now, call ≠ .due interval now) :
    (step opts s call).1.tick = s.tick ∧
      ∀ handler metrics, .handled handler metrics ∉ (step opts s call).2.effects := by
  cases call with
  | start constructor =>
    have heffect := start_effect opts s constructor
    change (start opts s constructor).1.tick = _ ∧
      ∀ handler metrics, _ ∉ (start opts s constructor).2.effects
    generalize start opts s constructor = answer at heffect ⊢
    cases heffect with
    | repeated | refused | threw => exact ⟨rfl, fun _ _ => List.not_mem_nil⟩
    | started => exact ⟨rfl, by simp⟩
  | stop =>
    refine ⟨rfl, fun handler metrics h => ?_⟩
    change _ ∈ (s.interval.map Effect.cleared).toList ++ (s.ws.map Effect.closed).toList at h
    simp at h
  | onMetrics handler => exact ⟨rfl, fun _ _ => List.not_mem_nil⟩
  | due interval now => exact absurd rfl (hcall interval now)
  | opened socket =>
    change (opened opts s socket).1.tick = _ ∧
      ∀ handler metrics, _ ∉ (opened opts s socket).2.effects
    unfold opened
    split_ifs
    · cases s.ws with
      | none => exact ⟨rfl, fun _ _ => List.not_mem_nil⟩
      | some w =>
        refine ⟨rfl, fun handler metrics h => ?_⟩
        obtain ⟨_, _, hsent⟩ := List.mem_mapIdx.mp h
        cases hsent
    · exact ⟨rfl, fun _ _ => List.not_mem_nil⟩

/-- Only a registration changes the handler. -/
theorem step_handler (opts : ObserverOpts) (s : State) (call : Call) :
    (step opts s call).1.handler = (registration call).or s.handler := by
  cases call with
  | start constructor =>
    have heffect := start_effect opts s constructor
    change (start opts s constructor).1.handler = _
    generalize start opts s constructor = answer at heffect ⊢
    cases heffect <;> rfl
  | stop | onMetrics => rfl
  | due interval now =>
    change (due opts s interval now).1.handler = s.handler
    rcases due_cases opts s interval now with ⟨_, _, -, -, -, -, hs⟩ | ⟨-, hs, -⟩
    · rw [hs]
    · exact hs
  | opened socket =>
    change (opened opts s socket).1.handler = s.handler
    unfold opened
    split_ifs
    · cases s.ws <;> rfl
    · rfl

end Steps

/-- What a history and the observer after it have in common. -/
structure Emitted (opts : ObserverOpts) (history : List CallTransition) (s : State) : Prop where
  /-- The handler is the one registered last. -/
  handler : s.handler = registered history
  /-- With a position to emit for, the counter is the number of emissions. -/
  tick : (∃ positionId, opts.positionIds.head? = some positionId ∧ positionId ≠ "") →
    s.tick = (emissions history).length
  /-- The emissions follow the curve. -/
  metrics : ∀ i handler m, (emissions history)[i]? = some (handler, m) → ∃ positionId,
    opts.positionIds.head? = some positionId ∧ positionId ≠ "" ∧
      m = metricsAt positionId (i + 1) m.observedAtUnixMs

namespace Emitted

variable {opts : ObserverOpts} {history : List CallTransition} {s : State}

theorem initial : Emitted opts [] created := ⟨rfl, fun _ => rfl, fun _ _ _ h => nomatch h⟩

theorem registered_concat (history : List CallTransition) (t : CallTransition) :
    registered (history ++ [t]) = (registration t.input).or (registered history) := by
  unfold registered
  rw [List.filterMap_append, List.getLast?_append]
  cases hregistration : registration t.input with
  | none => simp [hregistration]
  | some handler => simp [hregistration]

/-- A step that emits nothing and leaves the counter alone. -/
theorem silent (h : Emitted opts history s) {t : CallTransition} (hnone : emissions [t] = [])
    (hhandler : t.post.handler = (registration t.input).or s.handler)
    (htick : (∃ positionId, opts.positionIds.head? = some positionId ∧ positionId ≠ "") →
      t.post.tick = s.tick) : Emitted opts (history ++ [t]) t.post := by
  have hemissions : emissions (history ++ [t]) = emissions history := by
    rw [emissions_append, hnone, List.append_nil]
  refine ⟨?_, ?_, ?_⟩
  · rw [registered_concat, hhandler, h.handler]
  · intro hposition
    rw [hemissions, htick hposition]
    exact h.tick hposition
  · rw [hemissions]
    exact h.metrics

/-- Every call keeps this. -/
theorem step (h : Emitted opts history s) (call : Call) :
    Emitted opts (history ++ [(observer opts).transition s call])
      ((observer opts).step s call).1 := by
  have hhandler := step_handler opts s call
  have hempty : ∀ {t : CallTransition},
      (∀ handler metrics, .handled handler metrics ∉ t.output.effects) → emissions [t] = [] := by
    intro t ht
    refine List.eq_nil_iff_forall_not_mem.mpr ?_
    rintro ⟨handler, metrics⟩ hmem
    exact ht handler metrics (mem_emissions_singleton.mp hmem)
  by_cases hdue : ∃ interval now, call = .due interval now
  · obtain ⟨interval, now, rfl⟩ := hdue
    rcases due_cases opts s interval now with
      ⟨handler, positionId, hh, hposition, hne, -, hs⟩ | ⟨hnone, -, htick⟩
    · have hlength := h.tick ⟨positionId, hposition, hne⟩
      have hone : emissions [(observer opts).transition s (.due interval now)] =
          [(handler, metricsAt positionId (s.tick + 1) now)] := by
        have heffects : ((observer opts).transition s (.due interval now)).output.effects =
            [.handled handler (metricsAt positionId (s.tick + 1) now)] := by
          change (due opts s interval now).2.effects = _
          rw [hs]
        rw [emissions, List.flatMap_singleton, heffects]
        rfl
      have hpost : ((observer opts).step s (.due interval now)).1 =
          { s with tick := s.tick + 1 } := congrArg Prod.fst hs
      refine ⟨?_, ?_, ?_⟩
      · rw [registered_concat, hpost]
        exact h.handler
      · intro _
        rw [hpost, emissions_append, hone, List.length_append, List.length_singleton, ← hlength]
      · intro i handler' m hm
        rw [emissions_append, hone] at hm
        rcases Nat.lt_or_ge i (emissions history).length with hi | hi
        · rw [List.getElem?_append_left hi] at hm
          exact h.metrics i handler' m hm
        · rw [List.getElem?_append_right hi, List.getElem?_singleton] at hm
          split_ifs at hm with hlast
          cases hm
          refine ⟨positionId, hposition, hne, ?_⟩
          have hi' : i = s.tick := by omega
          rw [hi']
          rfl
    · exact h.silent (hempty fun handler metrics hmem => by
        change _ ∈ (due opts s interval now).2.effects at hmem
        rw [hnone] at hmem
        cases hmem) hhandler htick
  · have hother : ∀ interval now, call ≠ .due interval now :=
      fun interval now hcall => hdue ⟨interval, now, hcall⟩
    obtain ⟨htick, hnone⟩ := other_emits_nothing opts s call hother
    exact h.silent (hempty hnone) hhandler fun _ => htick

/-- It holds of every life of an observer. -/
theorem of_run (opts : ObserverOpts) (calls : List Call) :
    Emitted opts (historyOf opts calls) ((observer opts).run created calls) :=
  (observer opts).history_induction (A := fun _ => True) initial (fun _ _ call _ h => h.step call)
    fun _ _ => trivial

end Emitted

/-- A drawdown of 2500 bps is reached in the phases from 38 on. -/
theorem driftCurve_breach (t : ℕ) : 2500 ≤ driftCurve t ↔ 38 ≤ t % 60 := by
  unfold driftCurve
  omega

theorem driftCurve_le (t : ℕ) : driftCurve t ≤ 4000 := Nat.min_le_left _ _

/-- Wherever 60 ticks in a row begin, 22 of them are at 2500 bps or more. -/
theorem sixty_ticks (start : ℕ) :
    (List.range' start 60).countP (fun t => 2500 ≤ driftCurve t) = 22 := by
  induction start with
  | zero => decide
  | succ start ih =>
    -- The window loses its first tick and gains one of the same phase.
    have hfirst : List.range' start 61 = start :: List.range' (start + 1) 60 := rfl
    have hlast : List.range' start 61 = List.range' start 60 ++ [start + 60] :=
      List.range'_concat
    have hphase : decide (2500 ≤ driftCurve (start + 60)) = decide (2500 ≤ driftCurve start) := by
      rw [decide_eq_decide, driftCurve_breach, driftCurve_breach, Nat.add_mod_right]
    have hcount := congrArg (List.countP fun t => decide (2500 ≤ driftCurve t))
      (hfirst.symm.trans hlast)
    rw [List.countP_cons, List.countP_append, List.countP_singleton, hphase, ih] at hcount
    omega

/-- Over a whole life with any starts, stops, failures and handlers: what is
emitted at a call comes from an interval that is live and due, goes to the
handler registered last, and is the metrics of the first position at the point
of the curve that is the number of all emissions so far. -/
theorem emission_spec (opts : ObserverOpts) (calls : List Call) (before after : List CallTransition)
    {t : CallTransition} (hsplit : historyOf opts calls = before ++ t :: after) {handler : ℕ}
    {metrics : PositionMetrics} (hemit : .handled handler metrics ∈ t.output.effects) :
    ∃ positionId interval now, opts.positionIds.head? = some positionId ∧ positionId ≠ "" ∧
      t.input = .due interval now ∧ (∃ i ∈ t.pre.live, i.id = interval) ∧
      registered before = some handler ∧
      metrics = ⟨positionId, 2000000, driftCurve ((emissions before).length + 1), 100, now⟩ := by
  obtain ⟨first, call, rest, rfl, rfl, rfl⟩ := (observer opts).trace_split hsplit
  have hrecord := Emitted.of_run opts first
  change .handled handler metrics ∈ (step opts ((observer opts).run created first) call).2.effects
    at hemit
  cases call with
  | due interval now =>
    rcases due_cases opts ((observer opts).run created first) interval now with
      ⟨handler', positionId, hh, hposition, hne, hlive, hs⟩ | ⟨hnone, -⟩
    · change _ ∈ (due opts _ interval now).2.effects at hemit
      rw [hs, List.mem_singleton] at hemit
      cases hemit
      have htick := hrecord.tick ⟨positionId, hposition, hne⟩
      refine ⟨positionId, interval, now, hposition, hne, rfl, hlive,
        hrecord.handler.symm.trans hh, ?_⟩
      rw [htick]
      rfl
    · change _ ∈ (due opts _ interval now).2.effects at hemit
      rw [hnone] at hemit
      cases hemit
  | start | stop | onMetrics | opened =>
    exact absurd hemit ((other_emits_nothing opts _ _ (by rintro _ _ ⟨⟩)).2 handler metrics)

/-- The rule on the first emission of an observer with the handler 7. -/
theorem emission_spec_demo :
    registered (historyOf demoOpts [.onMetrics 7, .start (.ok ())]) = some 7 := by
  obtain ⟨_, _, _, -, -, -, -, hregistered, -⟩ := emission_spec demoOpts
    [.onMetrics 7, .start (.ok ()), .due 0 5000]
    (historyOf demoOpts [.onMetrics 7, .start (.ok ())]) [] rfl
    (List.mem_singleton_self _)
  exact hregistered

/-- Any 60 emissions in a row hold exactly 22 with a drawdown of 2500 bps or
more, and none is above 4000 bps, whatever happens between them. -/
theorem emissions_periodic (opts : ObserverOpts) (calls : List Call) :
    (∀ e ∈ emissions (historyOf opts calls), e.2.drawdownBps ≤ 4000) ∧
    ∀ n, n + 60 ≤ (emissions (historyOf opts calls)).length →
      (((emissions (historyOf opts calls)).drop n).take 60).countP
        (fun e => 2500 ≤ e.2.drawdownBps) = 22 := by
  have hrecord := Emitted.of_run opts calls
  have hcurve : (emissions (historyOf opts calls)).map (fun e => e.2.drawdownBps) =
      (List.range' 1 (emissions (historyOf opts calls)).length).map driftCurve := by
    refine List.ext_getElem (by simp) fun i hi hj => ?_
    rw [List.length_map] at hi
    obtain ⟨positionId, -, -, hm⟩ := hrecord.metrics i _ _ (List.getElem?_eq_getElem hi)
    have hdrawdown := congrArg PositionMetrics.drawdownBps hm
    rw [List.getElem_map, List.getElem_map, List.getElem_range', Nat.one_mul, Nat.add_comm 1]
    exact hdrawdown
  refine ⟨?_, ?_⟩
  · intro e he
    have hmem : e.2.drawdownBps ∈ (emissions (historyOf opts calls)).map fun e =>
        e.2.drawdownBps := List.mem_map_of_mem he
    rw [hcurve] at hmem
    obtain ⟨t, -, ht⟩ := List.mem_map.mp hmem
    rw [← ht]
    exact driftCurve_le t
  · intro n hn
    have hwindow : ((List.range' 1 (emissions (historyOf opts calls)).length).drop n).take 60 =
        List.range' (1 + n) 60 := by
      rw [List.drop_range', List.take_range'_of_length_ge (by omega), Nat.mul_one]
    have hcount : (((emissions (historyOf opts calls)).drop n).take 60).countP
        (fun e => 2500 ≤ e.2.drawdownBps) =
        ((((emissions (historyOf opts calls)).map fun e => e.2.drawdownBps).drop n).take
          60).countP fun d => 2500 ≤ d := by
      rw [← List.map_drop, ← List.map_take, List.countP_map]
      rfl
    rw [hcount, hcurve, ← List.map_drop, ← List.map_take, hwindow, List.countP_map]
    exact sixty_ticks (1 + n)

end RiskClaw.ObserverLifecycle
