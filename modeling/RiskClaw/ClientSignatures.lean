import RiskClaw.ClientRuns

/-!
# Which signatures the client returns

The write cache is the record of the last confirmation on each position, and a
waiting call remembers the record of the moment at which it read the cache.
Every signature that a call resolves with is therefore of an executed EXIT on
its own position: its own transaction, or one confirmed earlier.
-/

namespace RiskClaw.ClientSignatures

open ReactiveMachine AccountStore SolanaRuntime SwigDelegation OnchainClient ClientRuns

section Log

/-- The cache entry of a confirmation on a position. -/
def confirmedOn (positionId : String) : Answer → Option WriteEntry
  | .confirmed position entry => if position = positionId then some entry else none
  | _ => none

/-- The confirmations on a position, in the order in which the calls completed. -/
def confirmationsOn (positionId : String) (log : List Answer) : List WriteEntry :=
  log.filterMap (confirmedOn positionId)

/-- Whether an answer is the submission of a call. -/
def submits (i : ℕ) : Answer → Bool
  | .submitted j => j = i
  | _ => false

/-- What was answered before a call read the cache and submitted. -/
def beforeRead (i : ℕ) (log : List Answer) : List Answer := before (submits i) log

theorem confirmationsOn_append (positionId : String) (log later : List Answer) :
    confirmationsOn positionId (log ++ later) =
      confirmationsOn positionId log ++ confirmationsOn positionId later :=
  List.filterMap_append

theorem confirmationsOn_none (positionId : String) {o : Answer}
    (h : ∀ p entry, o ≠ .confirmed p entry) : confirmationsOn positionId [o] = [] := by
  cases o with
  | confirmed p entry => exact absurd rfl (h p entry)
  | _ => rfl

theorem confirmationsOn_confirmed (positionId : String) (p : String) (entry : WriteEntry) :
    confirmationsOn positionId [.confirmed p entry] = if p = positionId then [entry] else [] := by
  by_cases h : p = positionId <;> simp [confirmationsOn, confirmedOn, h]

theorem mem_confirmationsOn {positionId : String} {log : List Answer} {entry : WriteEntry} :
    entry ∈ confirmationsOn positionId log ↔ .confirmed positionId entry ∈ log := by
  unfold confirmationsOn
  rw [List.mem_filterMap]
  constructor
  · rintro ⟨o, ho, he⟩
    cases o with
    | confirmed p entry' =>
      simp only [confirmedOn, Option.ite_none_right_eq_some, Option.some.injEq] at he
      obtain ⟨rfl, rfl⟩ := he
      exact ho
    | _ => cases he
  · exact fun h => ⟨_, h, by simp [confirmedOn]⟩

@[simp] theorem submits_self (i : ℕ) : submits i (.submitted i) = true := decide_eq_true rfl

theorem any_submits {i : ℕ} {log : List Answer} :
    log.any (submits i) = true ↔ .submitted i ∈ log := by
  rw [List.any_eq_true]
  constructor
  · rintro ⟨o, ho, hs⟩
    cases o with
    | submitted j =>
      cases of_decide_eq_true hs
      exact ho
    | _ => cases hs
  · exact fun h => ⟨_, h, submits_self i⟩

end Log

section Flights

/-- What every submitted call carries. -/
structure SoundFlight (env : Environment) (f : Flight) : Prop where
  /-- Only EXIT plans are submitted. -/
  exit : f.submission.plan.action = .exit
  /-- The policy key is the parsed position. -/
  key : env.publicKey f.submission.plan.positionId = .ok f.submission.policyPubkey
  /-- The size is the encoded size of the plan. -/
  size : f.submission.sizeBps = env.encodeU16 f.submission.plan.sizeBps
  /-- An accepted transaction executed just this. -/
  event : ∀ e, f.landed = some (.ok e) → e.policy = f.submission.policyPubkey ∧
    e.action = .exit ∧ f.submission.sizeBps = some e.sizeBps ∧ e.sizeBps.toNat ≤ 10000

/-- The event of an accepted transaction is that of the submission. -/
theorem event_of_call {pda : PdaScheme} {client : RealClient} {clock : Int64} {s : Submission}
    {call : Call} (hcall : s.call pda client clock = some call) {accounts : Accounts}
    {e : RebalanceExecutedEvent} (h : ((program pda).step accounts call).2 = .ok e) :
    e.policy = s.policyPubkey ∧ e.action = .exit ∧ s.sizeBps = some e.sizeBps ∧
      e.sizeBps.toNat ≤ 10000 ∧ e.ts = clock := by
  obtain ⟨⟨-, -, -, hsize, -⟩, rfl, -⟩ := step_ok h
  obtain ⟨sizeBps, hs, rfl⟩ := Option.map_eq_some_iff.mp hcall
  exact ⟨rfl, rfl, hs, hsize, rfl⟩

/-- Every submitted call of every run is sound. -/
theorem flights_sound (pda : PdaScheme) (env : Environment) (client : RealClient)
    (accounts : Accounts) (actions : List Action) :
    ∀ i f, (worldAfter pda env client accounts actions).flights i = some f → SoundFlight env f := by
  refine (machine pda env client).run_invariant
    (I := fun w => ∀ i f, w.flights i = some f → SoundFlight env f) ?_ ?_ actions
  · intro w a ih i f' hf'
    rcases (step_effect pda env client w a).flight_cases hf' with
      hf | ⟨f, hf, rfl⟩ | ⟨f, call, hf, -, hcall, rfl, -⟩ | ⟨plan, key, -, -, hexit, hkey, -, rfl⟩
    · exact ih i f' hf
    · have h := ih i f hf
      exact ⟨h.exit, h.key, h.size, h.event⟩
    · have h := ih i f hf
      refine ⟨h.exit, h.key, h.size, fun e he => ?_⟩
      obtain ⟨hpolicy, haction, hsize, hle, -⟩ := event_of_call hcall (Option.some.inj he)
      exact ⟨hpolicy, haction, hsize, hle⟩
    · exact ⟨hexit, hkey, rfl, fun _ he => nomatch he⟩
  · exact fun _ _ hf => nomatch hf

end Flights

/-- What the log and the world have in common. -/
structure Recorded (log : List Answer) (w : World) : Prop where
  /-- The write cache holds the last confirmation on each position. -/
  cached : ∀ p, w.caches.writeCache p = (confirmationsOn p log).getLast?
  /-- The submitted calls are those that the log names. -/
  submitted : ∀ i, .submitted i ∈ log ↔ ∃ f, w.flights i = some f
  /-- A call remembers the last confirmation before its read. -/
  captured : ∀ i f, w.flights i = some f → f.submission.cachedWrite =
    (confirmationsOn f.submission.plan.positionId (beforeRead i log)).getLast?
  /-- The verdict on a transaction stands in the log. -/
  landed : ∀ i f r, w.flights i = some f → f.landed = some r → .landed i r ∈ log
  /-- A confirmation is of an accepted transaction on the position. -/
  confirmed : ∀ p entry, .confirmed p entry ∈ log → ∃ f e, w.flights entry.lastTxSig = some f ∧
    f.landed = some (.ok e) ∧ f.submission.plan.positionId = p

namespace Recorded

variable {pda : PdaScheme} {env : Environment} {client : RealClient}
  {log : List Answer} {w w' : World} {a : Action} {o : Answer}

theorem initial (accounts : Accounts) : Recorded [] (World.initial accounts) where
  cached _ := rfl
  submitted _ := ⟨(fun h => nomatch h), (fun ⟨_, h⟩ => nomatch h)⟩
  captured _ _ h := nomatch h
  landed _ _ _ h := nomatch h
  confirmed _ _ h := nomatch h

theorem cached_step (h : Recorded log w) (he : Effect pda env client w a w' o) (p : String) :
    w'.caches.writeCache p = (confirmationsOn p (log ++ [o])).getLast? := by
  rw [confirmationsOn_append]
  rcases he.cache_cases with ⟨hsame, hnone⟩ | ⟨i, f, e, -, -, rfl, hnew⟩
  · rw [hsame, confirmationsOn_none p hnone, List.append_nil]
    exact h.cached p
  · rw [hnew, confirmationsOn_confirmed]
    by_cases hp : f.submission.plan.positionId = p
    · rw [if_pos hp, List.getLast?_concat, hp, Function.update_self]
    · rw [if_neg hp, List.append_nil, Function.update_of_ne (Ne.symm hp)]
      exact h.cached p

theorem submitted_step (h : Recorded log w) (he : Effect pda env client w a w' o) (i : ℕ) :
    .submitted i ∈ log ++ [o] ↔ ∃ f, w'.flights i = some f := by
  rw [List.mem_append, List.mem_singleton, h.submitted i]
  constructor
  · rintro (⟨f, hf⟩ | ho)
    · obtain ⟨f', hf', -⟩ := he.flight_stays hf
      exact ⟨f', hf'⟩
    · exact (he.submitted_cases ho.symm).2
  · rintro ⟨f', hf'⟩
    rcases he.flight_cases hf' with hf | ⟨f, hf, -⟩ | ⟨f, _, hf, -⟩ | ⟨_, _, -, -, -, -, ho, -⟩
    · exact Or.inl ⟨f', hf⟩
    · exact Or.inl ⟨f, hf⟩
    · exact Or.inl ⟨f, hf⟩
    · exact Or.inr ho.symm

/-- A call that was submitted earlier keeps its past. -/
theorem beforeRead_step (h : Recorded log w) {i : ℕ} {f : Flight} (hf : w.flights i = some f) :
    beforeRead i (log ++ [o]) = beforeRead i log :=
  before_append_of_any (any_submits.mpr ((h.submitted i).mpr ⟨f, hf⟩)) _

theorem captured_step (h : Recorded log w) (he : Effect pda env client w a w' o) {i : ℕ}
    {f' : Flight} (hf' : w'.flights i = some f') : f'.submission.cachedWrite =
      (confirmationsOn f'.submission.plan.positionId (beforeRead i (log ++ [o]))).getLast? := by
  rcases he.flight_cases hf' with
    hf | ⟨f, hf, rfl⟩ | ⟨f, _, hf, -, -, rfl, -⟩ | ⟨plan, _, -, hnew, -, -, rfl, rfl⟩
  · rw [h.beforeRead_step hf]
    exact h.captured i f' hf
  · rw [h.beforeRead_step hf]
    exact h.captured i f hf
  · rw [h.beforeRead_step hf]
    exact h.captured i f hf
  · have hfresh : log.any (submits i) = false := by
      rw [← Bool.not_eq_true, any_submits, h.submitted i]
      rintro ⟨f, hf⟩
      exact nomatch hf.symm.trans hnew
    rw [beforeRead, before_concat_of_not_any hfresh (submits_self i)]
    exact h.cached plan.positionId

theorem landed_step (h : Recorded log w) (he : Effect pda env client w a w' o) {i : ℕ}
    {f' : Flight} {r : Except Rejection RebalanceExecutedEvent} (hf' : w'.flights i = some f')
    (hr : f'.landed = some r) : .landed i r ∈ log ++ [o] := by
  rw [List.mem_append, List.mem_singleton]
  rcases he.flight_cases hf' with
    hf | ⟨f, hf, rfl⟩ | ⟨f, _, -, -, -, rfl, -, -, rfl⟩ | ⟨_, _, -, -, -, -, -, rfl⟩
  · exact Or.inl (h.landed i f' r hf hr)
  · exact Or.inl (h.landed i f r hf hr)
  · cases hr
    exact Or.inr rfl
  · cases hr

theorem confirmed_step (h : Recorded log w) (he : Effect pda env client w a w' o) {p : String}
    {entry : WriteEntry} (hc : .confirmed p entry ∈ log ++ [o]) :
    ∃ f e, w'.flights entry.lastTxSig = some f ∧ f.landed = some (.ok e) ∧
      f.submission.plan.positionId = p := by
  have hpast : ∃ f e, w.flights entry.lastTxSig = some f ∧ f.landed = some (.ok e) ∧
      f.submission.plan.positionId = p := by
    rw [List.mem_append, List.mem_singleton] at hc
    rcases hc with hc | rfl
    · exact h.confirmed p entry hc
    · rcases he.cache_cases with ⟨-, hnone⟩ | ⟨i, f, e, hf, hok, ho, -⟩
      · exact absurd rfl (hnone p entry)
      · cases ho
        exact ⟨f, e, hf, hok, rfl⟩
  obtain ⟨f, e, hf, hok, hp⟩ := hpast
  obtain ⟨f', hf', hs, hl⟩ := he.flight_stays hf
  exact ⟨f', e, hf', hl _ hok, by rw [hs, hp]⟩

/-- Every step keeps the record. -/
theorem step (h : Recorded log w) (he : Effect pda env client w a w' o) :
    Recorded (log ++ [o]) w' where
  cached := h.cached_step he
  submitted := h.submitted_step he
  captured _ _ := h.captured_step he
  landed _ _ _ := h.landed_step he
  confirmed _ _ := h.confirmed_step he

/-- The record holds after every run of a new client. -/
theorem of_run (pda : PdaScheme) (env : Environment) (client : RealClient) (accounts : Accounts)
    (actions : List Action) :
    Recorded (logOf pda env client accounts actions) (worldAfter pda env client accounts actions) :=
  (machine pda env client).answer_induction (A := fun _ => True) (initial accounts)
    (fun _ w a _ h => h.step (step_effect pda env client w a)) fun _ _ => trivial

end Recorded

section Soundness

/-- The signature that an answer resolves with. -/
def resolvedWith : Answer → Option TxSig
  | .answered sig => some sig
  | .recovered sig => some sig
  | .confirmed _ entry => some entry.lastTxSig
  | _ => none

/-- The plan of the call that a step belongs to. -/
def planOf (w : World) : Action → Option RebalancePlan
  | .invoke _ plan => some plan
  | .settle i => (w.flights i).map fun f => f.submission.plan
  | .fault i _ => (w.flights i).map fun f => f.submission.plan
  | _ => none

/-- The text of the error with which a continuation starts. -/
def errorOf (env : Environment) (w : World) : Action → Option String
  | .settle i =>
    match (w.flights i).bind Flight.landed with
    | some (.error e) => some (env.refusalText i e)
    | _ => none
  | .fault _ error => some error
  | _ => none

variable (pda : PdaScheme) (env : Environment) (client : RealClient)

/-- Why an earlier signature may be returned: the entry is younger than the
window, or the chain, or the transport in its name, said `RebalanceTooSoon`. -/
def AnswersForPrior (w : World) (entry : WriteEntry) (a : Action) : Prop :=
  (∃ i plan, a = .invoke i plan ∧ w.ms - entry.lastExecutedAt < client.writeThrottleMs) ∨
    ∃ msg, errorOf env w a = some msg ∧ mentions "RebalanceTooSoon" msg = true

/-- A confirmed entry in the log is of an accepted EXIT on the position. -/
theorem confirmed_event {accounts : Accounts} {actions : List Action} {p : String}
    {entry : WriteEntry} (h : .confirmed p entry ∈ logOf pda env client accounts actions) :
    ∃ e, .landed entry.lastTxSig (.ok e) ∈ logOf pda env client accounts actions ∧
      env.publicKey p = .ok e.policy ∧ e.action = .exit ∧ e.sizeBps.toNat ≤ 10000 := by
  have hr := Recorded.of_run pda env client accounts actions
  obtain ⟨f, e, hf, hok, rfl⟩ := hr.confirmed p entry h
  have hs := flights_sound pda env client accounts actions _ f hf
  obtain ⟨hpolicy, haction, -, hle⟩ := hs.event e hok
  exact ⟨e, hr.landed _ f _ hf hok, by rw [hs.key, hpolicy], haction, hle⟩

/-- An integer size in range is executed as it was planned. -/
theorem encoded_integer {env : Environment} {n : ℤ} {k : UInt16}
    (h : env.encodeU16 (.finite n) = some k) : (k.toNat : ℤ) = n := by
  rw [env.encode_integer] at h
  split_ifs at h with hn
  cases h
  rw [UInt16.toNat_ofNat']
  omega

variable {pda env client}

/-- The entry that a waiting call remembers was confirmed on its position. -/
theorem captured_confirmed {log : List Answer} {w : World} (h : Recorded log w) {i : ℕ} {f : Flight}
    (hf : w.flights i = some f) {entry : WriteEntry} (hc : f.submission.cachedWrite = some entry) :
    .confirmed f.submission.plan.positionId entry ∈ log := by
  rw [h.captured i f hf] at hc
  exact before_subset _ _ (mem_confirmationsOn.mp (List.mem_of_getLast? hc))

/-- A call resolves with its own accepted transaction, or with an entry that
was confirmed earlier on its position. -/
theorem resolved_cases {log : List Answer} {w w' : World} {a : Action} {o : Answer}
    (h : Recorded log w) (hsound : ∀ i f, w.flights i = some f → SoundFlight env f)
    (he : Effect pda env client w a w' o) {sig : TxSig} (ho : resolvedWith o = some sig) :
    (∃ f e, a = .settle sig ∧ w.flights sig = some f ∧ f.landed = some (.ok e)) ∨
    ∃ plan entry, planOf w a = some plan ∧ plan.action = .exit ∧ entry.lastTxSig = sig ∧
      .confirmed plan.positionId entry ∈ log ∧ AnswersForPrior env client w entry a := by
  cases he with
  | clocks | check | idle | threw | submitted | landed | foreign => cases ho
  | answered i plan policyPubkey cached hexit hkey hcached hyoung =>
    refine Or.inr ⟨plan, cached, rfl, hexit, Option.some.inj ho, ?_, Or.inl ⟨i, plan, rfl, hyoung⟩⟩
    rw [h.cached] at hcached
    exact mem_confirmationsOn.mp (List.mem_of_getLast? hcached)
  | confirmed i f e hf hok =>
    cases ho
    exact Or.inl ⟨f, e, rfl, hf, hok⟩
  | refused i f e hf herr =>
    have herror : errorOf env w (.settle i) = some (env.refusalText i e) := by
      simp [errorOf, hf, herr]
    rcases f.submission.caught_cases (env.refusalText i e) with
      ⟨entry, hc, hm, hr⟩ | ⟨-, _, hr⟩ <;> rw [hr] at ho <;> cases ho
    exact Or.inr ⟨_, entry, by simp [planOf, hf], (hsound i f hf).exit, rfl,
      captured_confirmed h hf hc, Or.inr ⟨_, herror, hm⟩⟩
  | faulted i f error hf =>
    rcases f.submission.caught_cases error with ⟨entry, hc, hm, hr⟩ | ⟨-, _, hr⟩ <;>
      rw [hr] at ho <;> cases ho
    exact Or.inr ⟨_, entry, by simp [planOf, hf], (hsound i f hf).exit, rfl,
      captured_confirmed h hf hc, Or.inr ⟨_, rfl, hm⟩⟩

variable (pda env client)

/-- Whenever a call resolves, its plan is an EXIT and the signature is of an
executed EXIT of at most 10000 bps on the plan's policy: either of the call's
own transaction, which executed the planned size, or of a transaction that was
confirmed earlier on the same position. -/
theorem resolved_signatures_sound (accounts : Accounts) (actions : List Action) (a : Action)
    {sig : TxSig}
    (h : resolvedWith
      (ClientRuns.step pda env client (worldAfter pda env client accounts actions) a).2 =
        some sig) :
    ∃ plan e, planOf (worldAfter pda env client accounts actions) a = some plan ∧
      .landed sig (.ok e) ∈ logOf pda env client accounts actions ∧
      plan.action = .exit ∧ e.action = .exit ∧ env.publicKey plan.positionId = .ok e.policy ∧
      e.sizeBps.toNat ≤ 10000 ∧
      ((a = .settle sig ∧ env.encodeU16 plan.sizeBps = some e.sizeBps ∧
        ∀ n : ℤ, plan.sizeBps = .finite n → (e.sizeBps.toNat : ℤ) = n) ∨
      ∃ entry, entry.lastTxSig = sig ∧
        .confirmed plan.positionId entry ∈ logOf pda env client accounts actions ∧
        AnswersForPrior env client (worldAfter pda env client accounts actions) entry a) := by
  have hr := Recorded.of_run pda env client accounts actions
  have hsound := flights_sound pda env client accounts actions
  rcases resolved_cases hr hsound (step_effect pda env client _ a) h with
    ⟨f, e, rfl, hf, hok⟩ | ⟨plan, entry, hplan, hexit, rfl, hc, hwhy⟩
  · have hs := hsound sig f hf
    obtain ⟨hpolicy, haction, hsize, hle⟩ := hs.event e hok
    have hencoded := hs.size.symm.trans hsize
    refine ⟨f.submission.plan, e, by simp [planOf, hf], hr.landed sig f _ hf hok, hs.exit, haction,
      by rw [hs.key, hpolicy], hle, Or.inl ⟨rfl, hencoded, fun n hn => ?_⟩⟩
    rw [hn] at hencoded
    exact encoded_integer hencoded
  · obtain ⟨e, hland, hkey, haction, hle⟩ := confirmed_event pda env client hc
    exact ⟨plan, e, hplan, hland, hexit, haction, hkey, hle, Or.inr ⟨entry, rfl, hc, hwhy⟩⟩

/-- A first EXIT of the demo position by half, executed and confirmed. -/
def halfExit : List Action :=
  [.clocks 1000 1, .invoke 0 (demoExit 5000), .land 0, .settle 0]

theorem halfExit_log :
    logOf DevnetConfig.lastRebalancedPda devnet demoClient (fun _ => none) halfExit =
      [.idle, .submitted 0, .landed 0 (.ok ⟨DevnetConfig.operatorPolicy,
        DevnetConfig.guardianAgent, .exit, 5000, 1⟩),
        .confirmed "DpKAer9JUmzMfyJ3G3k3M7xGHp3WnGrg5Ppv1Uy5a1jB" ⟨0, 1000⟩] := rfl

/-- The rule on a full EXIT right after the half one: its answer is of an
executed EXIT on the policy. -/
theorem resolved_signatures_sound_demo :
    ∃ e, .landed 0 (.ok e) ∈ logOf DevnetConfig.lastRebalancedPda devnet demoClient
        (fun _ => none) halfExit ∧ e.action = .exit ∧ e.sizeBps.toNat ≤ 10000 := by
  obtain ⟨plan, e, -, hland, -, haction, -, hle, -⟩ := resolved_signatures_sound
    DevnetConfig.lastRebalancedPda devnet demoClient (fun _ => none) halfExit
    (.invoke 1 (demoExit 10000)) (show _ = some 0 from rfl)
  exact ⟨e, hland, haction, hle⟩

/-- The full EXIT is answered with the signature of the half one, which is of
no transaction that executed the planned size. -/
theorem larger_exit_answered_by_smaller :
    resolvedWith (ClientRuns.step DevnetConfig.lastRebalancedPda devnet demoClient
      (worldAfter DevnetConfig.lastRebalancedPda devnet demoClient (fun _ => none) halfExit)
      (.invoke 1 (demoExit 10000))).2 = some 0 ∧
    ¬∃ e, .landed 0 (.ok e) ∈ logOf DevnetConfig.lastRebalancedPda devnet demoClient
        (fun _ => none) halfExit ∧
      devnet.encodeU16 (demoExit 10000).sizeBps = some e.sizeBps := by
  refine ⟨rfl, ?_⟩
  rintro ⟨e, hland, hsize⟩
  rw [halfExit_log] at hland
  simp only [List.mem_cons, reduceCtorEq, Answer.landed.injEq, Except.ok.injEq, false_or, or_false,
    true_and, List.not_mem_nil] at hland
  subst hland
  exact absurd hsize (by decide)

end Soundness

end RiskClaw.ClientSignatures
