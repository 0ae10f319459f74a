import RiskClaw.WireFormat
import RiskClaw.SwigRateLimit

/-!
# Both programs on bytes

The programs as they are deployed: raw instructions on raw account data. Whatever
bytes and keys anybody sends, the data are the bytes of the accounts that the
readable instructions leave, so what is known of the programs on values holds of
their bytes.
-/

namespace RiskClaw.WirePrograms

open ReactiveMachine AccountStore SpacedTimes FixedFormats SerializedCells WireFormat
open SolanaRuntime RiskPolicyProgram RiskPolicyControl AccountLayout OnchainClient
open SwigDelegation (LastRebalanced RebalanceExecutedEvent)
open SwigRateLimit (Recorded eventsOf)

/-- Account data by address. -/
abbrev RawAccounts := Pubkey → Option (List UInt8)

/-- What a raw instruction is answered. -/
abbrev RawAnswer (ε ο : Type) := Except (WireError EntryError (ProgramError ε)) ο

variable (pda : PdaScheme)

/-- `risk_policy` on bytes. -/
def riskPolicy : Machine RawAccounts RawInstruction (RawAnswer RiskClawError Unit) :=
  endpoint (RiskPolicyProgram.program pda) riskPolicyAccount riskPolicyEntry

/-- `swig_delegation` on bytes. -/
def swigDelegation : Machine RawAccounts RawInstruction
    (RawAnswer SwigDelegation.SwigDelegationError RebalanceExecutedEvent) :=
  endpoint (SwigDelegation.program pda) lastRebalancedAccount swigDelegationEntry

section Policies

/-- Attempts that raw instructions are taken for. -/
def attempts (raw : List RawInstruction) : List Attempt := readable riskPolicyEntry raw

/-- Data of `risk_policy` after raw instructions. -/
def policiesAfter (raw : List RawInstruction) : RawAccounts :=
  (riskPolicy pda).run (fun _ => none) raw

theorem riskPolicyAccount_image (s : Accounts) :
    image riskPolicyAccount s = fun address => (s address).map policyData := by
  funext address
  exact congrArg (Option.map · (s address)) (funext riskPolicyAccount_write)

/-- The data are the bytes of the accounts. -/
theorem policiesAfter_eq (raw : List RawInstruction) :
    policiesAfter pda raw = fun address =>
      (accountsAfter pda (attempts raw) address).map policyData :=
  (endpoint_run (RiskPolicyProgram.program pda) riskPolicyAccount riskPolicyEntry
    (fun _ => none) raw).trans (riskPolicyAccount_image _)

/-- Data at an address are those of the last accepted write of its vault. -/
theorem policiesAfter_some_iff (raw : List RawInstruction) (address : Pubkey)
    (data : List UInt8) :
    policiesAfter pda raw address = some data ↔
      ∃ vault a, lastAccepted vault (historyOf pda (attempts raw)) = some a ∧
        address = pda.address vault ∧
        data = policyData (stored pda vault a.args a.unixTimestamp) := by
  rw [policiesAfter_eq, Option.map_eq_some_iff]
  constructor
  · rintro ⟨p, hp, rfl⟩
    obtain ⟨vault, w, hbook, rfl, rfl⟩ := (represents_run pda (attempts raw) address p).mp hp
    obtain ⟨a, ha, rfl⟩ := Option.map_eq_some_iff.mp hbook
    exact ⟨vault, a, ha, rfl, rfl⟩
  · rintro ⟨vault, a, ha, rfl, rfl⟩
    exact ⟨_, account_of_lastAccepted ha, rfl⟩

/-- No data are ever found unreadable. -/
theorem riskPolicy_reads (raw : List RawInstruction) (t : RawInstruction) :
    ((riskPolicy pda).step (policiesAfter pda raw) t).2 ≠ .error .cell := by
  have hreads := endpoint_reads (RiskPolicyProgram.program pda) riskPolicyAccount riskPolicyEntry
    (accountsAfter pda (attempts raw)) t
  rw [riskPolicyAccount_image, ← policiesAfter_eq] at hreads
  exact hreads

/-- Without the signature of its vault no instruction changes the data of a policy. -/
theorem policiesAfter_not_signed (raw : List RawInstruction) {t : RawInstruction} {vault : Pubkey}
    (h : vault ∉ t.signers) :
    policiesAfter pda (raw ++ [t]) (pda.address vault) =
      policiesAfter pda raw (pda.address vault) := by
  have hconcat : attempts (raw ++ [t]) = attempts raw ++ (riskPolicyEntry t).toOption.toList :=
    readable_concat _ _ _
  rw [policiesAfter_eq, policiesAfter_eq, hconcat]
  cases hentry : riskPolicyEntry t with
  | error e =>
    change (accountsAfter pda (attempts raw ++ []) (pda.address vault)).map policyData = _
    rw [List.append_nil]
  | ok a =>
    obtain ⟨-, -, -, -, hsigners, -⟩ := riskPolicyEntry_ok.mp hentry
    have hsigned : signedBy vault a = false :=
      decide_eq_false fun hboth => h (hsigners ▸ hboth.2)
    have hstep := step_not_signed (represents_run pda (attempts raw)) hsigned
    change (accountsAfter pda (attempts raw ++ [a]) (pda.address vault)).map policyData = _
    rw [accountsAfter, Machine.run_concat]
    exact congrArg (Option.map policyData) hstep

/-- Raw instructions on `risk_policy` leave the bytes of a vault's last accepted write at
its own address, and nothing else. The readers find it there, no account is ever found
unreadable, and no instruction without the vault's signature changes a byte of it. -/
theorem raw_policies_controlled (pda : PdaScheme) (raw : List RawInstruction) :
    (∀ address data, policiesAfter pda raw address = some data ↔
      ∃ vault a, lastAccepted vault (historyOf pda (attempts raw)) = some a ∧
        address = pda.address vault ∧
        data = policyData (stored pda vault a.args a.unixTimestamp)) ∧
    (∀ vault a, lastAccepted vault (historyOf pda (attempts raw)) = some a →
      ∃ data, policiesAfter pda raw (pda.address vault) = some data ∧ data.length = 8 + 177 ∧
        riskPolicyAccount.read data = some (stored pda vault a.args a.unixTimestamp, []) ∧
        onChainCiphertext data = a.args.ciphertextRef.toList) ∧
    (∀ answer ∈ (riskPolicy pda).outputs (fun _ => none) raw, answer ≠ .error .cell) ∧
    ∀ earlier t later, raw = earlier ++ t :: later → ∀ vault, vault ∉ t.signers →
      policiesAfter pda (earlier ++ [t]) (pda.address vault) =
        policiesAfter pda earlier (pda.address vault) := by
  refine ⟨policiesAfter_some_iff pda raw, ?_, ?_, ?_⟩
  · intro vault a ha
    have hread := riskPolicyAccount.read_written (stored pda vault a.args a.unixTimestamp)
    rw [riskPolicyAccount_write] at hread
    exact ⟨_, (policiesAfter_some_iff pda raw _ _).mpr ⟨vault, a, ha, rfl, rfl⟩,
      policyData_length _, hread, onChainCiphertext_policyData _⟩
  · intro answer hanswer
    obtain ⟨t, ht, rfl⟩ := List.mem_map.mp hanswer
    obtain ⟨first, r, rest, -, rfl⟩ := (riskPolicy pda).mem_trace_iff.mp ht
    exact riskPolicy_reads pda first r
  · rintro earlier t later - vault h
    exact policiesAfter_not_signed pda earlier h

end Policies

section Rebalances

/-- Calls that raw instructions are taken for. -/
def calls (raw : List RawInstruction) : List SwigDelegation.Call :=
  readable swigDelegationEntry raw

/-- Data of `swig_delegation` after raw instructions. -/
def anchorsAfter (raw : List RawInstruction) : RawAccounts :=
  (swigDelegation pda).run (fun _ => none) raw

/-- What the program logs, oldest first. -/
def logs (raw : List RawInstruction) : List (List UInt8) :=
  (((swigDelegation pda).outputs (fun _ => none) raw).filterMap Except.toOption).map
    rebalanceExecutedEvent.write

/-- The events that a listener reads in the logs. -/
def eventsRead (logs : List (List UInt8)) : List RebalanceExecutedEvent :=
  logs.filterMap fun data => (rebalanceExecutedEvent.read data).map Prod.fst

theorem lastRebalancedAccount_image (s : SwigDelegation.Accounts) :
    image lastRebalancedAccount s = fun address => (s address).map lastRebalancedData := by
  funext address
  exact congrArg (Option.map · (s address)) (funext lastRebalancedAccount_write)

/-- The data are the bytes of the anchors. -/
theorem anchorsAfter_eq (raw : List RawInstruction) :
    anchorsAfter pda raw = fun address =>
      (SwigRateLimit.accountsAfter pda (calls raw) address).map lastRebalancedData :=
  (endpoint_run (SwigDelegation.program pda) lastRebalancedAccount swigDelegationEntry
    (fun _ => none) raw).trans (lastRebalancedAccount_image _)

/-- What is logged is read back. -/
theorem eventsRead_write (events : List RebalanceExecutedEvent) :
    eventsRead (events.map rebalanceExecutedEvent.write) = events := by
  rw [eventsRead, List.filterMap_map]
  have hread : (fun data => (rebalanceExecutedEvent.read data).map Prod.fst) ∘
      rebalanceExecutedEvent.write = some := by
    funext e
    exact congrArg (Option.map Prod.fst) (rebalanceExecutedEvent.read_written e)
  rw [hread, List.filterMap_some]

/-- The logged events of a policy are those of the calls. -/
theorem eventsRead_logs (raw : List RawInstruction) (policy : Pubkey) :
    (eventsRead (logs pda raw)).filter (fun e => e.policy = policy) =
      eventsOf policy (SwigRateLimit.historyOf pda (calls raw)) := by
  have hanswers := endpoint_answers (SwigDelegation.program pda) lastRebalancedAccount
    swigDelegationEntry (fun _ => none) raw
  rw [logs, eventsRead_write, eventsOf, SwigRateLimit.historyOf]
  refine congrArg (List.filter _) (hanswers.trans ?_)
  rw [Machine.outputs, List.filterMap_map]
  rfl

/-- Calls are executed at the clock of their instructions. -/
theorem calls_clock {raw : List RawInstruction}
    (hclock : ∀ t ∈ raw, 0 < t.unixTimestamp.toInt) :
    ∀ call ∈ calls raw, 0 < call.unixTimestamp.toInt := by
  intro call hcall
  obtain ⟨t, ht, hentry⟩ := List.mem_filterMap.mp hcall
  have hok : swigDelegationEntry t = .ok call := by
    cases h : swigDelegationEntry t with
    | error e =>
      rw [h] at hentry
      cases hentry
    | ok c =>
      rw [h] at hentry
      exact congrArg _ (Option.some.inj hentry)
  obtain ⟨-, -, -, -, -, hsame⟩ := swigDelegationEntry_ok.mp hok
  rw [← hsame]
  exact hclock t ht

/-- Whatever raw instructions anybody sends at positive clock readings, the events that are
read in the logs for one policy are 30 seconds apart; the data at the address of its anchor
exist after the first one, and the reader finds in them the time of the latest. -/
theorem raw_rebalances_rate_limited (pda : PdaScheme) (raw : List RawInstruction)
    (hclock : ∀ t ∈ raw, 0 < t.unixTimestamp.toInt) (policy : Pubkey) :
    Spaced 30 (((eventsRead (logs pda raw)).filter fun e => e.policy = policy).map
      fun e => e.ts.toInt) ∧
    (((eventsRead (logs pda raw)).filter fun e => e.policy = policy) = [] ↔
      anchorsAfter pda raw (pda.address policy) = none) ∧
    ∀ e, ((eventsRead (logs pda raw)).filter fun e => e.policy = policy).getLast? = some e →
      ∃ data, anchorsAfter pda raw (pda.address policy) = some data ∧ data.length = 8 + 9 ∧
        (e.ts.toInt.natAbs < 2 ^ 53 →
          lastRebalancedTimestamp data = some (.finite e.ts.toInt)) := by
  have hrecorded := Recorded.of_run pda policy (calls_clock hclock)
  have hanchor := hrecorded.anchor
  rw [eventsRead_logs, anchorsAfter_eq]
  refine ⟨hrecorded.spaced, ?_, ?_⟩
  · change eventsOf policy
      ((SwigDelegation.program pda).machine.trace (fun _ => none) (calls raw)) = [] ↔ _
    rw [Option.map_eq_none_iff, ← List.getLast?_eq_none_iff, ← Option.map_eq_none_iff,
      ← hanchor, Option.map_eq_none_iff]
    rfl
  · intro e he
    have hlast : (eventsOf policy
        ((SwigDelegation.program pda).machine.trace (fun _ => none) (calls raw))).getLast? =
        some e := he
    rw [hlast] at hanchor
    obtain ⟨lr, hlr, hts⟩ := Option.map_eq_some_iff.mp hanchor
    have haccounts : SwigRateLimit.accountsAfter pda (calls raw) (pda.address policy) = some lr :=
      hlr
    have hlength : (lastRebalancedData lr).length = 8 + 9 := by
      simp [lastRebalancedData, lastRebalancedDiscriminator, borshI64_length]
    have htime : lr.timestamp = e.ts := hts
    refine ⟨lastRebalancedData lr, congrArg (Option.map lastRebalancedData) haccounts, hlength,
      fun hsmall => ?_⟩
    rw [← htime] at hsmall ⊢
    exact lastRebalancedTimestamp_data hsmall

/-- The raw instruction of a call. -/
def rawCall (call : SwigDelegation.Call) : RawInstruction :=
  ⟨callData call, callKeys call, call.signers, call.unixTimestamp⟩

/-- Two calls that are executed, one that is too early, cut-off bytes and an unknown
instruction. -/
def demoInstructions : List RawInstruction :=
  [rawCall (SwigRateLimit.demoCall 100 DevnetConfig.guardianAgent 5000),
    rawCall (SwigRateLimit.demoCall 110 DevnetConfig.guardianAgent 5000),
    ⟨executeRebalanceDiscriminator ++ [1, 2, 3], [], [], 120⟩,
    ⟨[1, 2, 3, 4, 5, 6, 7, 8], [], [], 125⟩,
    rawCall (SwigRateLimit.demoCall 150 DevnetConfig.operatorWallet 4000)]

theorem raw_rebalances_rate_limited_demo :
    ((eventsRead (logs DevnetConfig.lastRebalancedPda demoInstructions)).filter
      fun e => e.policy = DevnetConfig.operatorPolicy).map (fun e => e.ts.toInt) = [100, 150] ∧
    Spaced 30 (((eventsRead (logs DevnetConfig.lastRebalancedPda demoInstructions)).filter
      fun e => e.policy = DevnetConfig.operatorPolicy).map fun e => e.ts.toInt) :=
  ⟨by decide +kernel, (raw_rebalances_rate_limited DevnetConfig.lastRebalancedPda demoInstructions
    (by decide) DevnetConfig.operatorPolicy).1⟩

end Rebalances

end RiskClaw.WirePrograms
