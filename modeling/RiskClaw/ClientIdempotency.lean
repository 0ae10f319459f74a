import RiskClaw.ClientSignatures

/-!
# Calls that the chain refuses as too soon

A waiting call answers a refusal with the cache entry that it read before its
submission, if the text of the error names the refusal; it does when the
preflight refuses, and need not when a transaction has passed the preflight and
is refused at its execution. The entry is the last completion of the moment of
the read, which need not be the most recently landed success by the time the
call returns, and there may have been none yet.
-/

namespace RiskClaw.ClientIdempotency

open ReactiveMachine AccountStore SolanaRuntime SwigDelegation OnchainClient ClientRuns
  ClientSignatures

/-- The call whose transaction was accepted. -/
def acceptedLanding : Answer → Option TxSig
  | .landed i (.ok _) => some i
  | _ => none

/-- The accepted transactions of the client, in the order in which they landed. -/
def landings (log : List Answer) : List TxSig := log.filterMap acceptedLanding

/-- The most recently landed of the successes completed on a position. -/
def latestLanded (positionId : String) (log : List Answer) : Option TxSig :=
  ((landings log).filter fun sig =>
    sig ∈ (confirmationsOn positionId log).map WriteEntry.lastTxSig).getLast?

/-- The last call to complete on the position before the cache read of call `i`
is the most recently landed of all that have completed by now. -/
def ReadsLatest (positionId : String) (i : ℕ) (log : List Answer) : Prop :=
  ∃ entry, (confirmationsOn positionId (beforeRead i log)).getLast? = some entry ∧
    latestLanded positionId log = some entry.lastTxSig

variable (pda : PdaScheme) (env : Environment) (client : RealClient)

/-- The continuation of call `i` resolves with the most recently landed of the
successes completed on the position. -/
def ResolvesWithLatest (positionId : String) (i : ℕ) (log : List Answer) (w : World) : Prop :=
  ∃ sig, (ClientRuns.step pda env client w (.settle i)).2 = .recovered sig ∧
    latestLanded positionId log = some sig

variable {pda env client}

theorem settle_refused {w : World} {i : ℕ} {f : Flight} {e : Rejection}
    (hf : w.flights i = some f) (herr : f.landed = some (.error e)) (hwaits : f.returned = false) :
    (ClientRuns.step pda env client w (.settle i)).2 =
      .ofCaught (f.submission.caught (env.refusalText i e)) := by
  obtain ⟨s, landed, returned⟩ := f
  cases herr
  cases hwaits
  simp only [ClientRuns.step, hf]

/-- A refused call resolves exactly when the error names `RebalanceTooSoon` and
the call remembers an entry, and then with its signature. -/
theorem settle_recovers_iff {w : World} {i : ℕ} {f : Flight} {e : Rejection}
    (hf : w.flights i = some f) (herr : f.landed = some (.error e)) (hwaits : f.returned = false)
    {sig : TxSig} :
    (ClientRuns.step pda env client w (.settle i)).2 = .recovered sig ↔
      mentions "RebalanceTooSoon" (env.refusalText i e) = true ∧
        ∃ entry, f.submission.cachedWrite = some entry ∧ entry.lastTxSig = sig := by
  rw [settle_refused hf herr hwaits]
  rcases f.submission.caught_cases (env.refusalText i e) with
    ⟨entry, hc, hm, hr⟩ | ⟨hc | hm, error, hr⟩
  · rw [hr, hc, hm]
    simp [Answer.ofCaught]
  · rw [hr, hc]
    simp [Answer.ofCaught]
  · rw [hr, hm]
    simp [Answer.ofCaught]

/-- Without an entry the refused call throws. -/
theorem settle_uncached {w : World} {i : ℕ} {f : Flight} {e : Rejection}
    (hf : w.flights i = some f) (herr : f.landed = some (.error e)) (hwaits : f.returned = false)
    (hc : f.submission.cachedWrite = none) :
    ∃ error, (ClientRuns.step pda env client w (.settle i)).2 = .failed error := by
  rw [settle_refused hf herr hwaits]
  rcases f.submission.caught_cases (env.refusalText i e) with ⟨entry, hc', -⟩ | ⟨-, error, hr⟩
  · exact nomatch hc.symm.trans hc'
  · exact ⟨error, by rw [hr]; rfl⟩

/-- In every run, a call that the chain refused as too soon resolves with the
most recently landed of the successes completed on its position if and only if
the error's text names the refusal and the call read that one as the last
completion. -/
theorem too_soon_resolves_with_latest_iff (pda : PdaScheme) (env : Environment)
    (client : RealClient) (accounts : Accounts) (actions : List Action) (i : ℕ) (f : Flight)
    (hf : (worldAfter pda env client accounts actions).flights i = some f)
    (herr : f.landed = some (.error (.custom .rebalanceTooSoon))) (hwaits : f.returned = false) :
    ResolvesWithLatest pda env client f.submission.plan.positionId i
        (logOf pda env client accounts actions) (worldAfter pda env client accounts actions) ↔
      mentions "RebalanceTooSoon" (env.refusalText i (.custom .rebalanceTooSoon)) = true ∧
        ReadsLatest f.submission.plan.positionId i (logOf pda env client accounts actions) := by
  have hcaptured := (Recorded.of_run pda env client accounts actions).captured i f hf
  unfold ResolvesWithLatest ReadsLatest
  simp only [settle_recovers_iff hf herr hwaits, hcaptured]
  constructor
  · rintro ⟨sig, ⟨hnamed, entry, hentry, rfl⟩, hlatest⟩
    exact ⟨hnamed, entry, hentry, hlatest⟩
  · rintro ⟨hnamed, entry, hentry, hlatest⟩
    exact ⟨entry.lastTxSig, ⟨hnamed, entry, hentry, rfl⟩, hlatest⟩

/-- A success, a third party's call that restarts the window, and a retry. -/
def retryAfterForeign : List Action :=
  [.clocks 100000 100, .invoke 0 (demoExit 10000), .land 0, .settle 0, .clocks 131000 131,
    .foreign (SwigRateLimit.demoCall 0 DevnetConfig.observerAgent 10000),
    .invoke 1 (demoExit 10000), .land 1]

/-- A success, and much later two calls at once: the third call reads the cache
before the second one, which landed first, has completed. -/
def staleRead : List Action :=
  [.clocks 100000 100, .invoke 0 (demoExit 10000), .land 0, .settle 0, .clocks 140000 140,
    .invoke 1 (demoExit 10000), .invoke 2 (demoExit 10000), .land 1, .settle 1, .land 2]

/-- The programs on devnet, where the transactions of all calls pass the preflight
and an error of their execution arrives without its name. -/
def afterPreflight : Environment :=
  { devnet with refusalText := fun _ _ => "Error: Unknown action" }

/-- The rule on both runs: the retry resolves as promised, but not with an error
that does not name the refusal, and the stale read does not. -/
theorem too_soon_resolves_with_latest_iff_demo :
    ResolvesWithLatest DevnetConfig.lastRebalancedPda devnet demoClient
      "DpKAer9JUmzMfyJ3G3k3M7xGHp3WnGrg5Ppv1Uy5a1jB" 1
      (logOf DevnetConfig.lastRebalancedPda devnet demoClient (fun _ => none) retryAfterForeign)
      (worldAfter DevnetConfig.lastRebalancedPda devnet demoClient (fun _ => none)
        retryAfterForeign) ∧
    ¬ResolvesWithLatest DevnetConfig.lastRebalancedPda afterPreflight demoClient
      "DpKAer9JUmzMfyJ3G3k3M7xGHp3WnGrg5Ppv1Uy5a1jB" 1
      (logOf DevnetConfig.lastRebalancedPda afterPreflight demoClient (fun _ => none)
        retryAfterForeign)
      (worldAfter DevnetConfig.lastRebalancedPda afterPreflight demoClient (fun _ => none)
        retryAfterForeign) ∧
    ¬ResolvesWithLatest DevnetConfig.lastRebalancedPda devnet demoClient
      "DpKAer9JUmzMfyJ3G3k3M7xGHp3WnGrg5Ppv1Uy5a1jB" 2
      (logOf DevnetConfig.lastRebalancedPda devnet demoClient (fun _ => none) staleRead)
      (worldAfter DevnetConfig.lastRebalancedPda devnet demoClient (fun _ => none) staleRead) := by
  refine ⟨?_, fun h => ?_, fun h => ?_⟩
  · exact (too_soon_resolves_with_latest_iff DevnetConfig.lastRebalancedPda devnet demoClient
      (fun _ => none) retryAfterForeign 1 _ rfl rfl rfl).mpr
        ⟨devnet.names_error .rebalanceTooSoon, ⟨0, 100000⟩, rfl, rfl⟩
  · obtain ⟨hnamed, -⟩ := (too_soon_resolves_with_latest_iff DevnetConfig.lastRebalancedPda
      afterPreflight demoClient (fun _ => none) retryAfterForeign 1 _ rfl rfl rfl).mp h
    exact absurd hnamed (by decide)
  · obtain ⟨-, entry, hentry, hlatest⟩ := (too_soon_resolves_with_latest_iff
      DevnetConfig.lastRebalancedPda devnet demoClient (fun _ => none) staleRead 2 _
      rfl rfl rfl).mp h
    cases (show some ⟨0, 100000⟩ = some entry from hentry)
    exact absurd (show some 1 = some 0 from hlatest) (by decide)

/-- Two calls at once: the second reads the cache before the first completes,
and is executed after it. -/
def overlapping : List Action :=
  [.clocks 100000 100, .invoke 0 (demoExit 10000), .invoke 1 (demoExit 10000), .land 0, .settle 0,
    .land 1]

/-- The chain refuses the second call as too soon when the first has already
completed, and yet the second call throws. -/
theorem overlapping_call_throws :
    logOf DevnetConfig.lastRebalancedPda devnet demoClient (fun _ => none) overlapping =
      [.idle, .submitted 0, .submitted 1, .landed 0 (.ok ⟨DevnetConfig.operatorPolicy,
        DevnetConfig.guardianAgent, .exit, 10000, 100⟩),
        .confirmed "DpKAer9JUmzMfyJ3G3k3M7xGHp3WnGrg5Ppv1Uy5a1jB" ⟨0, 100000⟩,
        .landed 1 (.error (.custom .rebalanceTooSoon))] ∧
    ∃ error, (ClientRuns.step DevnetConfig.lastRebalancedPda devnet demoClient
      (worldAfter DevnetConfig.lastRebalancedPda devnet demoClient (fun _ => none) overlapping)
      (.settle 1)).2 = .failed error :=
  ⟨rfl, settle_uncached rfl rfl rfl rfl⟩

end RiskClaw.ClientIdempotency
