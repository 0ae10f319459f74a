import RiskClaw.ReactiveMachine
import Mathlib.Data.List.DropRight

/-!
# The lifecycle of the observer

An observer keeps four variables between calls: the handler, the socket, the
interval and the flag that it has been started. `start` sets the flag before it
constructs the socket, so an exception of the constructor leaves the flag set
with nothing behind it. The surroundings are part of the state: the intervals
that are live, and the sockets that have not been closed.
-/

namespace RiskClaw.ObserverLifecycle

open ReactiveMachine

/-- What an observer is configured with. -/
structure ObserverOpts where
  /-- Key of the RPC provider. -/
  heliusApiKey : String
  /-- The accounts to observe. -/
  positionIds : List String
  /-- Another WebSocket server than the default one. -/
  wsEndpoint : Option String
  /-- Another tick rate than the default one, in milliseconds. -/
  tickMs : Option ℤ

namespace ObserverOpts

/-- The URL of the socket. -/
def wsUrl (opts : ObserverOpts) : String :=
  opts.wsEndpoint.getD "wss://devnet.helius-rpc.com" ++ "/?api-key=" ++ opts.heliusApiKey

/-- The tick rate. -/
def tickRate (opts : ObserverOpts) : ℤ := opts.tickMs.getD 5000

/-- Both checks of `start` pass. -/
def Complete (opts : ObserverOpts) : Prop := opts.heliusApiKey ≠ "" ∧ opts.positionIds.length ≠ 0

end ObserverOpts

/-- What the observer emits. -/
structure PositionMetrics where
  /-- The observed position. -/
  positionId : String
  /-- Its notional value. -/
  notionalUSD : ℕ
  /-- Its drawdown in basis points. -/
  drawdownBps : ℕ
  /-- Its share of the pool's liquidity in basis points. -/
  liquidityShareBps : ℕ
  /-- Time of the observation. -/
  observedAtUnixMs : ℤ
  deriving DecidableEq

/-- A constructed WebSocket. -/
structure Socket where
  /-- Its number among all sockets of the observer. -/
  id : ℕ
  /-- The URL it was constructed with. -/
  url : String
  deriving DecidableEq

/-- An interval of the event loop. -/
structure Interval where
  /-- Its number among all intervals of the observer. -/
  id : ℕ
  /-- Its period in milliseconds. -/
  periodMs : ℤ
  deriving DecidableEq

/-- The request for the changes of one account. -/
structure Subscription where
  /-- Version of the protocol. -/
  jsonrpc : String
  /-- Number of the request. -/
  id : ℕ
  /-- Name of the method. -/
  method : String
  /-- The account. -/
  account : String
  /-- Encoding of the account data. -/
  encoding : String
  /-- Commitment of the changes. -/
  commitment : String
  deriving DecidableEq

/-- The variables of an observer, and what it has in the surroundings. -/
structure State where
  /-- Name of the handler. -/
  handler : Option ℕ
  /-- The socket variable. -/
  ws : Option Socket
  /-- The interval variable. -/
  interval : Option Interval
  /-- The flag. -/
  started : Bool
  /-- Ticks with a handler so far. -/
  tick : ℕ
  /-- Intervals that are set and not cleared. -/
  live : List Interval
  /-- Sockets that are constructed and not closed. -/
  sockets : List Socket
  /-- Intervals set so far. -/
  intervalsSet : ℕ
  /-- Sockets constructed so far. -/
  socketsConstructed : ℕ
  deriving DecidableEq

/-- A new observer. -/
def created : State := ⟨none, none, none, false, 0, [], [], 0, 0⟩

/-- What a call does besides changing variables. -/
inductive Effect where
  /-- A socket is constructed. -/
  | constructed (socket : Socket)
  /-- An interval is set. -/
  | intervalSet (interval : Interval)
  /-- An interval is cleared. -/
  | cleared (interval : Interval)
  /-- A socket is closed. -/
  | closed (socket : Socket)
  /-- A request is sent. -/
  | sent (socket : Socket) (request : Subscription)
  /-- The handler is called. -/
  | handled (handler : ℕ) (metrics : PositionMetrics)
  deriving DecidableEq

/-- How a call ends, and its effects. -/
structure Answer where
  /-- Whether the call resolves, or the text of its error. -/
  result : Except String Unit
  /-- The effects, in order. -/
  effects : List Effect
  deriving DecidableEq

/-- The drawdown at a tick: from 0 to 4000 bps over 60 ticks, then again. On the
60 phases the quotient of doubles and this one have the same integer part. -/
def driftCurve (t : ℕ) : ℕ := min 4000 (t % 60 * 4000 / 60)

/-- The metrics of a tick. -/
def metricsAt (positionId : String) (tick : ℕ) (now : ℤ) : PositionMetrics :=
  ⟨positionId, 2000000, driftCurve tick, 100, now⟩

/-- The request for the account at a place of the list. -/
def subscription (i : ℕ) (account : String) : Subscription :=
  ⟨"2.0", i + 1, "accountSubscribe", account, "base64", "confirmed"⟩

/-- One thing that happens to an observer. The handlers of the socket's other
events only write to the log. -/
inductive Call where
  /-- `start`; the constructor of the WebSocket succeeds or throws if it is reached. -/
  | start (constructor : Except String Unit)
  /-- `stop`. -/
  | stop
  /-- `onMetrics`. -/
  | onMetrics (handler : ℕ)
  /-- The interval of this number is due. -/
  | due (interval : ℕ) (now : ℤ)
  /-- The socket of this number is open. -/
  | opened (socket : ℕ)
  deriving DecidableEq

section Step

variable (opts : ObserverOpts) (s : State)

/-- The socket that `start` constructs. -/
def newSocket : Socket := ⟨s.socketsConstructed, opts.wsUrl⟩

/-- The interval that `start` sets. -/
def newInterval : Interval := ⟨s.intervalsSet, opts.tickRate⟩

/-- After the constructor has returned: the socket and the interval are there. -/
def running : State :=
  { s with
    ws := some (newSocket opts s)
    interval := some (newInterval opts s)
    live := s.live ++ [newInterval opts s]
    sockets := s.sockets ++ [newSocket opts s]
    intervalsSet := s.intervalsSet + 1
    socketsConstructed := s.socketsConstructed + 1 }

/-- `start`. -/
def start (constructor : Except String Unit) : State × Answer :=
  if s.started = true then (s, ⟨.ok (), []⟩)
  else if opts.heliusApiKey = "" then
    (s, ⟨.error "HELIUS_API_KEY required for Observer", []⟩)
  else if opts.positionIds.length = 0 then
    (s, ⟨.error "POSITION_IDS empty — pass at least one Solana account", []⟩)
  else
    let s := { s with started := true }
    match constructor with
    | .error text => (s, ⟨.error text, []⟩)
    | .ok _ =>
      (running opts s,
        ⟨.ok (), [.constructed (newSocket opts s), .intervalSet (newInterval opts s)]⟩)

/-- `stop`. -/
def stop : State × Answer :=
  ({ s with
      ws := none
      interval := none
      started := false
      live := s.live.filter fun i => some i ≠ s.interval
      sockets := s.sockets.filter fun w => some w ≠ s.ws },
    ⟨.ok (), (s.interval.map Effect.cleared).toList ++ (s.ws.map Effect.closed).toList⟩)

/-- What an interval runs when it is due. -/
def tickOnce (now : ℤ) : State × Answer :=
  match s.handler with
  | none => (s, ⟨.ok (), []⟩)
  | some handler =>
    let s := { s with tick := s.tick + 1 }
    match opts.positionIds.head? with
    | none => (s, ⟨.ok (), []⟩)
    | some positionId =>
      if positionId = "" then (s, ⟨.ok (), []⟩)
      else (s, ⟨.ok (), [.handled handler (metricsAt positionId s.tick now)]⟩)

/-- A live interval runs its function; others are never due. -/
def due (interval : ℕ) (now : ℤ) : State × Answer :=
  if s.live.any (fun i => i.id = interval) then tickOnce opts s now else (s, ⟨.ok (), []⟩)

/-- The handler of the `open` event; it sends through the variable. -/
def opened (socket : ℕ) : State × Answer :=
  if s.sockets.any (fun w => w.id = socket) then
    match s.ws with
    | none => (s, ⟨.ok (), []⟩)
    | some w =>
      (s, ⟨.ok (), opts.positionIds.mapIdx fun i account => .sent w (subscription i account)⟩)
  else (s, ⟨.ok (), []⟩)

/-- One call. -/
def step : Call → State × Answer
  | .start constructor => start opts s constructor
  | .stop => stop s
  | .onMetrics handler => ({ s with handler := some handler }, ⟨.ok (), []⟩)
  | .due interval now => due opts s interval now
  | .opened socket => opened opts s socket

end Step

/-- The observer as a machine. -/
def observer (opts : ObserverOpts) : Machine State Call Answer := ⟨step opts⟩

/-- An executed call with the states around it. -/
abbrev CallTransition := Transition State Call Answer

/-- What has happened to a new observer. -/
def historyOf (opts : ObserverOpts) (calls : List Call) : List CallTransition :=
  (observer opts).trace created calls

/-- A call of `stop`. -/
def Call.isStop : Call → Bool
  | .stop => true
  | _ => false

/-- The construction of a socket. -/
def Effect.isConstructed : Effect → Bool
  | .constructed _ => true
  | _ => false

/-- The calls since the last `stop`. -/
def sinceStop (history : List CallTransition) : List CallTransition :=
  history.rtakeWhile fun t => !t.input.isStop

/-- Sockets constructed in some calls. -/
def constructions (history : List CallTransition) : ℕ :=
  (history.flatMap fun t => t.output.effects).countP Effect.isConstructed

/-- Exactly one interval is live and exactly one socket is open, and the
variables know them. -/
structure Running (s : State) : Prop where
  /-- The flag is set. -/
  started : s.started = true
  /-- The live intervals. -/
  interval : ∃ i, s.interval = some i ∧ s.live = [i]
  /-- The open sockets. -/
  socket : ∃ w, s.ws = some w ∧ s.sockets = [w]

/-- No interval is live and no socket is open. -/
structure Stopped (s : State) : Prop where
  /-- The flag is clear. -/
  started : s.started = false
  /-- No interval. -/
  interval : s.interval = none ∧ s.live = []
  /-- No socket. -/
  socket : s.ws = none ∧ s.sockets = []

/-- Running with one socket constructed since the last stop, or stopped with none. -/
def Regular (history : List CallTransition) (s : State) : Prop :=
  (Running s ∧ constructions (sinceStop history) = 1) ∨
  (Stopped s ∧ constructions (sinceStop history) = 0)

/-- The live interval calls every handler that is set, for a position that is
not the empty text. -/
def Emits (opts : ObserverOpts) (s : State) : Prop :=
  ∃ i ∈ s.live, ∀ handler positionId now, s.handler = some handler →
    opts.positionIds.head? = some positionId → positionId ≠ "" →
    (due opts s i.id now).2.effects = [.handled handler (metricsAt positionId (s.tick + 1) now)]

/-- The call is a `start` that gets to constructing the socket, where the
constructor throws. -/
def ConstructionThrows (opts : ObserverOpts) (t : CallTransition) : Prop :=
  t.pre.started = false ∧ opts.Complete ∧ ∃ text, t.input = .start (.error text)

/-- The lifecycle of an observer over a history. -/
structure Lifecycle (opts : ObserverOpts) (history : List CallTransition) : Prop where
  /-- After each call the observer is running or stopped. -/
  regular : ∀ before t after, history = before ++ t :: after → Regular (before ++ [t]) t.post
  /-- A repeated start resolves and does nothing. -/
  repeated : ∀ t ∈ history, ∀ constructor, t.input = .start constructor → Running t.pre →
    t.post = t.pre ∧ t.output = ⟨.ok (), []⟩
  /-- A start that rejects leaves the observer stopped. -/
  rejected : ∀ t ∈ history, ∀ constructor text, t.input = .start constructor →
    t.output.result = .error text → Stopped t.post
  /-- After a start that rejects, a later one whose constructor succeeds starts
  emission, without a stop in between. Without a complete configuration no start
  gets to the constructor. -/
  restarted : ∀ before t between u after, history = before ++ t :: (between ++ u :: after) →
    ∀ constructor text, t.input = .start constructor → t.output.result = .error text →
    (∀ v ∈ between, v.input.isStop = false) → u.input = .start (.ok ()) → opts.Complete →
    Running u.post ∧ Emits opts u.post

/-- Everything `start` can do. -/
inductive StartEffect (opts : ObserverOpts) (s : State) :
    Except String Unit → State × Answer → Prop where
  /-- The observer has been started. -/
  | repeated (hstarted : s.started = true) (constructor : Except String Unit) :
    StartEffect opts s constructor (s, ⟨.ok (), []⟩)
  /-- The configuration is not complete. -/
  | refused (hstarted : s.started = false) (hopts : ¬opts.Complete) (text : String)
    (constructor : Except String Unit) : StartEffect opts s constructor (s, ⟨.error text, []⟩)
  /-- The constructor throws. -/
  | threw (hstarted : s.started = false) (hopts : opts.Complete) (text : String) :
    StartEffect opts s (.error text) ({ s with started := true }, ⟨.error text, []⟩)
  /-- The socket and the interval are there. -/
  | started (hstarted : s.started = false) (hopts : opts.Complete) :
    StartEffect opts s (.ok ()) (running opts { s with started := true },
      ⟨.ok (), [.constructed (newSocket opts s), .intervalSet (newInterval opts s)]⟩)

theorem start_effect (opts : ObserverOpts) (s : State) (constructor : Except String Unit) :
    StartEffect opts s constructor (start opts s constructor) := by
  unfold start
  split_ifs with hstarted hkey hpositions
  · exact .repeated hstarted constructor
  · exact .refused (Bool.eq_false_of_not_eq_true hstarted) (fun h => h.1 hkey) _ _
  · exact .refused (Bool.eq_false_of_not_eq_true hstarted) (fun h => h.2 hpositions) _ _
  · have hcomplete : opts.Complete := ⟨hkey, hpositions⟩
    cases constructor with
    | error text => exact .threw (Bool.eq_false_of_not_eq_true hstarted) hcomplete text
    | ok _ => exact .started (Bool.eq_false_of_not_eq_true hstarted) hcomplete

/-- The variables and the surroundings that `start` and `stop` care about are
the same in two states. -/
structure SameResources (s s' : State) : Prop where
  /-- The flag. -/
  started : s'.started = s.started
  /-- The interval variable and the live intervals. -/
  interval : s'.interval = s.interval ∧ s'.live = s.live
  /-- The socket variable and the open sockets. -/
  socket : s'.ws = s.ws ∧ s'.sockets = s.sockets

namespace SameResources

variable {s s' : State}

theorem running (h : SameResources s s') (hs : Running s) : Running s' := by
  refine ⟨h.started.trans hs.started, ?_, ?_⟩
  · rw [h.interval.1, h.interval.2]
    exact hs.interval
  · rw [h.socket.1, h.socket.2]
    exact hs.socket

theorem stopped (h : SameResources s s') (hs : Stopped s) : Stopped s' := by
  refine ⟨h.started.trans hs.started, ?_, ?_⟩
  · rw [h.interval.1, h.interval.2]
    exact hs.interval
  · rw [h.socket.1, h.socket.2]
    exact hs.socket

end SameResources

section Steps

variable {opts : ObserverOpts} {s : State}

theorem tickOnce_effects (opts : ObserverOpts) (s : State) (now : ℤ) :
    SameResources s (tickOnce opts s now).1 ∧
      (tickOnce opts s now).2.effects.countP Effect.isConstructed = 0 := by
  unfold tickOnce
  cases s.handler with
  | none => exact ⟨⟨rfl, ⟨rfl, rfl⟩, rfl, rfl⟩, rfl⟩
  | some handler =>
    cases opts.positionIds.head? with
    | none => exact ⟨⟨rfl, ⟨rfl, rfl⟩, rfl, rfl⟩, rfl⟩
    | some positionId =>
      dsimp only
      split_ifs
      · exact ⟨⟨rfl, ⟨rfl, rfl⟩, rfl, rfl⟩, rfl⟩
      · exact ⟨⟨rfl, ⟨rfl, rfl⟩, rfl, rfl⟩, rfl⟩

/-- An interval that is due constructs nothing and clears nothing. -/
theorem due_effects (opts : ObserverOpts) (s : State) (interval : ℕ) (now : ℤ) :
    SameResources s (due opts s interval now).1 ∧
      (due opts s interval now).2.effects.countP Effect.isConstructed = 0 := by
  unfold due
  split_ifs
  · exact tickOnce_effects opts s now
  · exact ⟨⟨rfl, ⟨rfl, rfl⟩, rfl, rfl⟩, rfl⟩

/-- Nor does an open socket. -/
theorem opened_effects (opts : ObserverOpts) (s : State) (socket : ℕ) :
    SameResources s (opened opts s socket).1 ∧
      (opened opts s socket).2.effects.countP Effect.isConstructed = 0 := by
  unfold opened
  split_ifs
  · cases s.ws with
    | none => exact ⟨⟨rfl, ⟨rfl, rfl⟩, rfl, rfl⟩, rfl⟩
    | some w =>
      refine ⟨⟨rfl, ⟨rfl, rfl⟩, rfl, rfl⟩, List.countP_eq_zero.mpr ?_⟩
      intro e he
      obtain ⟨i, hi, rfl⟩ := List.mem_mapIdx.mp he
      exact Bool.false_ne_true
  · exact ⟨⟨rfl, ⟨rfl, rfl⟩, rfl, rfl⟩, rfl⟩

/-- A stopped observer that is started with success runs. -/
theorem running_of_stopped (opts : ObserverOpts) (hs : Stopped s) :
    Running (running opts { s with started := true }) := by
  refine ⟨rfl, ⟨newInterval opts s, rfl, ?_⟩, ⟨newSocket opts s, rfl, ?_⟩⟩
  · change s.live ++ [newInterval opts s] = _
    rw [hs.interval.2, List.nil_append]
  · change s.sockets ++ [newSocket opts s] = _
    rw [hs.socket.2, List.nil_append]

/-- Stopping a running or stopped observer leaves nothing behind. -/
theorem stop_stopped (hs : Running s ∨ Stopped s) : Stopped (stop s).1 := by
  rcases hs with hs | hs
  · obtain ⟨i, hi, hlive⟩ := hs.interval
    obtain ⟨w, hw, hsockets⟩ := hs.socket
    refine ⟨rfl, ⟨rfl, ?_⟩, rfl, ?_⟩
    · change s.live.filter _ = []
      rw [hi, hlive]
      simp
    · change s.sockets.filter _ = []
      rw [hw, hsockets]
      simp
  · refine ⟨rfl, ⟨rfl, ?_⟩, rfl, ?_⟩
    · change s.live.filter _ = []
      rw [hs.interval.2, List.filter_nil]
    · change s.sockets.filter _ = []
      rw [hs.socket.2, List.filter_nil]

/-- A running observer emits. -/
theorem emits_of_running (opts : ObserverOpts) (hs : Running s) : Emits opts s := by
  obtain ⟨i, -, hlive⟩ := hs.interval
  refine ⟨i, by rw [hlive]; exact List.mem_singleton_self i, ?_⟩
  intro handler positionId now hhandler hposition hne
  have hany : s.live.any (fun j => j.id = i.id) = true := by simp [hlive]
  rw [due, if_pos hany, tickOnce, hhandler]
  dsimp only
  rw [hposition]
  dsimp only
  rw [if_neg hne]

end Steps

section Histories

variable {opts : ObserverOpts} {history : List CallTransition} {s : State}

/-- Sockets constructed since the last stop, one call later. -/
theorem constructions_concat (history : List CallTransition) (t : CallTransition) :
    constructions (sinceStop (history ++ [t])) =
      if t.input.isStop = true then 0
      else constructions (sinceStop history) + t.output.effects.countP Effect.isConstructed := by
  unfold constructions sinceStop
  rw [List.rtakeWhile_concat]
  cases hstop : t.input.isStop with
  | true => rfl
  | false =>
    rw [if_pos (by decide), if_neg Bool.false_ne_true, List.flatMap_append, List.countP_append,
      List.flatMap_singleton]

/-- A call that is no stop, constructs nothing and keeps the resources keeps
the observer regular. -/
theorem Regular.same (h : Regular history s) {t : CallTransition}
    (hstop : t.input.isStop = false) (hsame : SameResources s t.post)
    (hnone : t.output.effects.countP Effect.isConstructed = 0) :
    Regular (history ++ [t]) t.post := by
  have hcount : constructions (sinceStop (history ++ [t])) = constructions (sinceStop history) := by
    rw [constructions_concat, hstop, if_neg Bool.false_ne_true, hnone, Nat.add_zero]
  unfold Regular
  rw [hcount]
  rcases h with ⟨hs, hone⟩ | ⟨hs, hzero⟩
  · exact Or.inl ⟨hsame.running hs, hone⟩
  · exact Or.inr ⟨hsame.stopped hs, hzero⟩

theorem Regular.running_or_stopped (h : Regular history s) : Running s ∨ Stopped s :=
  h.imp And.left And.left

/-- A regular observer whose flag is clear is stopped. -/
theorem Regular.stopped_of_flag (h : Regular history s) (hs : s.started = false) :
    Stopped s ∧ constructions (sinceStop history) = 0 := by
  rcases h with ⟨hrunning, -⟩ | hstopped
  · exact nomatch hs.symm.trans hrunning.started
  · exact hstopped

/-- Every call but a start whose constructor throws keeps the observer regular. -/
theorem Regular.step (h : Regular history s) (call : Call)
    (hsafe : ¬ConstructionThrows opts ((observer opts).transition s call)) :
    Regular (history ++ [(observer opts).transition s call]) ((observer opts).step s call).1 := by
  have hrefl : SameResources s s := ⟨rfl, ⟨rfl, rfl⟩, rfl, rfl⟩
  cases call with
  | start constructor =>
    have heffect := start_effect opts s constructor
    have hout : (observer opts).transition s (.start constructor) =
      ⟨s, .start constructor, (start opts s constructor).2, (start opts s constructor).1⟩ := rfl
    have hpost : ((observer opts).step s (.start constructor)).1 =
      (start opts s constructor).1 := rfl
    rw [hout] at hsafe ⊢
    rw [hpost]
    generalize start opts s constructor = answer at heffect hsafe ⊢
    cases heffect with
    | repeated hstarted => exact h.same rfl hrefl rfl
    | refused hstarted hopts text => exact h.same rfl hrefl rfl
    | threw hstarted hopts text => exact absurd ⟨hstarted, hopts, text, rfl⟩ hsafe
    | started hstarted hopts =>
      obtain ⟨hs, hzero⟩ := h.stopped_of_flag hstarted
      refine Or.inl ⟨running_of_stopped opts hs, ?_⟩
      rw [constructions_concat, hzero]
      rfl
  | stop =>
    refine Or.inr ⟨stop_stopped h.running_or_stopped, ?_⟩
    rw [constructions_concat]
    rfl
  | onMetrics handler => exact h.same rfl ⟨rfl, ⟨rfl, rfl⟩, rfl, rfl⟩ rfl
  | due interval now =>
    obtain ⟨hsame, hnone⟩ := due_effects opts s interval now
    exact h.same rfl hsame hnone
  | opened socket =>
    obtain ⟨hsame, hnone⟩ := opened_effects opts s socket
    exact h.same rfl hsame hnone

/-- As long as no constructor throws, the observer is regular. -/
theorem Regular.of_run {calls : List Call}
    (hsafe : ∀ t ∈ historyOf opts calls, ¬ConstructionThrows opts t) :
    Regular (historyOf opts calls) ((observer opts).run created calls) := by
  have hcreated : Regular [] created := Or.inr ⟨⟨rfl, ⟨rfl, rfl⟩, rfl, rfl⟩, rfl⟩
  exact (observer opts).history_induction hcreated
    (fun _ _ call hcall h => h.step call hcall) hsafe

/-- In front of a call stands a regular observer, if no constructor throws. -/
theorem regular_before {calls : List Call} {before after : List CallTransition} {t : CallTransition}
    (hsafe : ∀ t ∈ historyOf opts calls, ¬ConstructionThrows opts t)
    (hsplit : historyOf opts calls = before ++ t :: after) :
    Regular before t.pre ∧ t = (observer opts).transition t.pre t.input := by
  obtain ⟨first, call, rest, rfl, rfl, rfl⟩ := (observer opts).trace_split hsplit
  refine ⟨Regular.of_run fun u hu => hsafe u ?_, rfl⟩
  rw [hsplit]
  exact List.mem_append_left _ hu

theorem regular_after {calls : List Call} {before after : List CallTransition} {t : CallTransition}
    (hsafe : ∀ t ∈ historyOf opts calls, ¬ConstructionThrows opts t)
    (hsplit : historyOf opts calls = before ++ t :: after) :
    Regular (before ++ [t]) t.post := by
  obtain ⟨hregular, ht⟩ := regular_before hsafe hsplit
  have ht' : ¬ConstructionThrows opts ((observer opts).transition t.pre t.input) := by
    rw [← ht]
    exact hsafe t (by rw [hsplit]; simp)
  have h := hregular.step t.input ht'
  rw [← ht] at h
  have hpost : t.post = ((observer opts).step t.pre t.input).1 := congrArg Transition.post ht
  rw [hpost]
  exact h

/-- A start that rejects leaves an observer stopped, if no constructor throws. -/
theorem rejected_stopped {constructor : Except String Unit} {text : String}
    (hs : Running s ∨ Stopped s)
    (hsafe : ¬ConstructionThrows opts ((observer opts).transition s (.start constructor)))
    (hrejected : (start opts s constructor).2.result = .error text) :
    Stopped (start opts s constructor).1 := by
  have hflag : s.started = false → Stopped s := by
    intro hclear
    rcases hs with hs | hs
    · exact nomatch hclear.symm.trans hs.started
    · exact hs
  have heffect := start_effect opts s constructor
  generalize start opts s constructor = answer at heffect hrejected ⊢
  cases heffect with
  | repeated hstarted => cases hrejected
  | refused hstarted hopts text => exact hflag hstarted
  | threw hstarted hopts text => exact absurd ⟨hstarted, hopts, text, rfl⟩ hsafe
  | started hstarted hopts => cases hrejected

/-- A start whose constructor succeeds leaves an observer running. -/
theorem start_running (hs : Running s ∨ Stopped s) (hopts : opts.Complete) :
    Running (start opts s (.ok ())).1 := by
  have heffect := start_effect opts s (.ok ())
  generalize start opts s (.ok ()) = answer at heffect ⊢
  cases heffect with
  | repeated hstarted =>
    rcases hs with hs | hs
    · exact hs
    · exact nomatch hstarted.symm.trans hs.started
  | refused hstarted hnot => exact absurd hopts hnot
  | started hstarted hcomplete =>
    rcases hs with hs | hs
    · exact nomatch hstarted.symm.trans hs.started
    · exact running_of_stopped opts hs

/-- A start on a running observer does nothing. -/
theorem start_repeated (hs : Running s) (constructor : Except String Unit) :
    start opts s constructor = (s, ⟨.ok (), []⟩) := if_pos hs.started

/-- A constructor that throws makes `start` reject, with the flag set. -/
theorem throwing_start {t : CallTransition} {calls : List Call} (ht : t ∈ historyOf opts calls)
    (hthrows : ConstructionThrows opts t) :
    (∃ text, t.input = .start (.error text) ∧ t.output.result = .error text) ∧
      t.post.started = true := by
  obtain ⟨hstarted, hopts, text, hin⟩ := hthrows
  obtain ⟨first, call, rest, -, rfl⟩ := (observer opts).mem_trace_iff.mp ht
  change ((observer opts).run created first).started = false at hstarted
  change call = _ at hin
  subst hin
  have heffect := start_effect opts ((observer opts).run created first) (.error text)
  change (∃ text', _ ∧ (start opts _ (.error text)).2.result = _) ∧
    (start opts _ (.error text)).1.started = true
  generalize start opts ((observer opts).run created first) (.error text) = answer at heffect ⊢
  cases heffect with
  | repeated hset => exact nomatch hstarted.symm.trans hset
  | refused _ hnot => exact absurd hopts hnot
  | threw _ _ => exact ⟨⟨text, rfl, rfl⟩, rfl⟩

/-- For every configuration and every sequence of calls the lifecycle is kept if
and only if no start gets to the construction of the socket and finds the
constructor throw. -/
theorem lifecycle_iff (opts : ObserverOpts) (calls : List Call) :
    Lifecycle opts (historyOf opts calls) ↔
      ∀ t ∈ historyOf opts calls, ¬ConstructionThrows opts t := by
  constructor
  · intro h t ht hthrows
    obtain ⟨⟨text, hin, hrejected⟩, hflag⟩ := throwing_start ht hthrows
    have hstopped := h.rejected t ht _ _ hin hrejected
    exact nomatch hflag.symm.trans hstopped.started
  · intro hsafe
    have hbefore : ∀ t ∈ historyOf opts calls, ∀ call, t.input = call →
        (Running t.pre ∨ Stopped t.pre) ∧ t.output = (step opts t.pre call).2 ∧
          t.post = (step opts t.pre call).1 := by
      rintro t ht call rfl
      obtain ⟨before, after, hsplit⟩ := List.append_of_mem ht
      obtain ⟨hregular, heq⟩ := regular_before hsafe hsplit
      exact ⟨hregular.running_or_stopped, congrArg Transition.output heq,
        congrArg Transition.post heq⟩
    refine ⟨fun before t after hsplit => regular_after hsafe hsplit, ?_, ?_, ?_⟩
    · intro t ht constructor hin hrunning
      obtain ⟨-, hout, hpost⟩ := hbefore t ht _ hin
      rw [hout, hpost]
      change (start opts t.pre constructor).1 = _ ∧ (start opts t.pre constructor).2 = _
      rw [start_repeated hrunning]
      exact ⟨rfl, rfl⟩
    · intro t ht constructor text hin hrejected
      obtain ⟨hs, hout, hpost⟩ := hbefore t ht _ hin
      have hcall : ¬ConstructionThrows opts
          ((observer opts).transition t.pre (.start constructor)) := by
        rintro ⟨hclear, hopts, text', htext⟩
        exact hsafe t ht ⟨hclear, hopts, text', hin.trans htext⟩
      rw [hout] at hrejected
      rw [hpost]
      exact rejected_stopped hs hcall hrejected
    · intro before t between u after hsplit _ _ _ _ _ hin hopts
      have hu : u ∈ historyOf opts calls := by
        rw [hsplit]
        simp
      obtain ⟨hs, -, hpost⟩ := hbefore u hu _ hin
      have hrunning : Running u.post := by
        rw [hpost]
        exact start_running hs hopts
      exact ⟨hrunning, emits_of_running opts hrunning⟩

end Histories

/-- The operator's configuration. -/
def demoOpts : ObserverOpts := ⟨"key", ["3KBZiL2g8C7tiJ32hTv5v3KM7aK9htpqTw4cTXz1HvPp"], none, none⟩

/-- A start whose constructor throws, and one whose constructor would succeed. -/
def demoCalls : List Call := [.start (.error "ReferenceError: WebSocket is not defined"),
  .start (.ok ())]

/-- The second start resolves and does nothing, though no interval is live: the
first one has left the flag set. -/
theorem failed_start_blocks :
    demoOpts.Complete ∧
    (observer demoOpts).outputs created demoCalls =
      [⟨.error "ReferenceError: WebSocket is not defined", []⟩, ⟨.ok (), []⟩] ∧
    ((observer demoOpts).run created demoCalls).live = [] ∧
    ¬Lifecycle demoOpts (historyOf demoOpts demoCalls) := by
  refine ⟨⟨by decide, by decide⟩, rfl, rfl, fun h => ?_⟩
  have hstopped := h.rejected _ List.mem_cons_self _ _ rfl rfl
  exact nomatch hstopped.started

end RiskClaw.ObserverLifecycle
