import RiskClaw.SwigRateLimit

/-!
# What calls of others can change

Calls on different policies are independent: a run answers the calls of one
policy as the run of these calls alone does, and neighbours on different
policies commute. On one policy there is no authority check, so an accepted
call of any signer restarts the window. Rejected calls change nothing, and
accepted ones matter to a later call for 30 seconds only.
-/

namespace RiskClaw.SwigIsolation

open ReactiveMachine AccountStore SolanaRuntime SwigDelegation SwigRateLimit

section Policies

variable (pda : PdaScheme)

/-- The calls that name a policy. -/
def onPolicy (policy : Pubkey) (call : Call) : Bool := call.accounts.policy = policy

/-- With a wrong anchor address the content of the named account is never read. -/
theorem executeRebalance_wrong_anchor {call : Call}
    (hc : call.accounts.lastRebalanced ≠ pda.address call.accounts.policy)
    (a b : Option LastRebalanced) :
    executeRebalance pda a call = executeRebalance pda b call := by
  rw [executeRebalance_eq, executeRebalance_eq]
  cases h : checkAccounts pda call with
  | error e => rw [error_bind, error_bind]
  | ok u => exact absurd (checkAccounts_ok_iff.mp h).2.2 hc

/-- The answer to a call is a function of the anchor of its policy. -/
theorem step_answer_eq (s : Accounts) (call : Call) :
    ((program pda).step s call).2 =
      (executeRebalance pda (s (pda.address call.accounts.policy)) call).map Prod.snd := by
  rw [(program pda).step_answer, CellProgram.answer]
  by_cases hc : call.accounts.lastRebalanced = pda.address call.accounts.policy
  · rw [← hc]
    rfl
  · exact congrArg (Except.map Prod.snd) (executeRebalance_wrong_anchor pda hc _ _)

/-- Where a call comes to the same result on two stores, it is answered alike
and changes nothing in both, or stamps the anchor of its policy alike in both. -/
theorem step_alike {s t : Accounts} {c : Call}
    (h : executeRebalance pda (s (pda.address c.accounts.policy)) c =
      executeRebalance pda (t (pda.address c.accounts.policy)) c) :
    ((program pda).step s c).2 = ((program pda).step t c).2 ∧
    ((((program pda).step s c).1 = s ∧ ((program pda).step t c).1 = t) ∨
      (((program pda).step s c).1 =
          Function.update s (pda.address c.accounts.policy) (some (stamped pda c)) ∧
        ((program pda).step t c).1 =
          Function.update t (pda.address c.accounts.policy) (some (stamped pda c)))) := by
  have hanswer : ((program pda).step s c).2 = ((program pda).step t c).2 := by
    rw [step_answer_eq, step_answer_eq, h]
  refine ⟨hanswer, ?_⟩
  cases hs : ((program pda).step s c).2 with
  | error e =>
    have ht := hanswer.symm.trans hs
    exact Or.inl ⟨((program pda).step_of_output_error hs).2,
      ((program pda).step_of_output_error ht).2⟩
  | ok e =>
    have ht := hanswer.symm.trans hs
    exact Or.inr ⟨(step_ok hs).2.2, (step_ok ht).2.2⟩

/-- Calls on other policies leave the anchor of this policy alone. -/
theorem step_other_policy (s : Accounts) {policy : Pubkey} {call : Call}
    (hp : call.accounts.policy ≠ policy) :
    ((program pda).step s call).1 (pda.address policy) = s (pda.address policy) := by
  rcases step_cases pda s call with ⟨-, hs⟩ | ⟨-, e, hs⟩
  · rw [hs]
    exact Function.update_of_ne (fun he => hp (pda.address_injective he).symm) _ _
  · rw [hs]

/-- A call on this policy depends on the anchor of this policy only. -/
theorem step_same_policy {s t : Accounts} {policy : Pubkey} {c : Call}
    (hp : c.accounts.policy = policy)
    (hv : s (pda.address policy) = t (pda.address policy)) :
    ((program pda).step s c).1 (pda.address policy) =
        ((program pda).step t c).1 (pda.address policy) ∧
      ((program pda).step s c).2 = ((program pda).step t c).2 := by
  subst hp
  obtain ⟨hanswer, ⟨hs, ht⟩ | ⟨hs, ht⟩⟩ := step_alike pda (s := s) (t := t) (c := c) (by rw [hv])
  · rw [hs, ht]
    exact ⟨hv, hanswer⟩
  · rw [hs, ht, Function.update_self, Function.update_self]
    exact ⟨rfl, hanswer⟩

/-- Seen from the anchor of one policy, calls on other policies are invisible. -/
theorem policy_unwinding (policy : Pubkey) :
    (program pda).machine.Unwinding (fun _ => True) (fun s => s (pda.address policy))
      (onPolicy policy) (fun _ o => o) where
  invariant _ _ _ := trivial
  respects s _ _ hc := step_other_policy pda s (of_decide_eq_false hc)
  consistent _ _ _ _ _ hv hc := step_same_policy pda (of_decide_eq_true hc) hv

/-- The events of a policy are those among the answers to its own calls. -/
theorem eventsOf_eq_observed (policy : Pubkey) (s : Accounts) (calls : List Call) :
    eventsOf policy ((program pda).machine.trace s calls) =
      ((program pda).machine.observed (onPolicy policy) (fun _ o => o) s calls).filterMap
        Except.toOption := by
  induction calls generalizing s with
  | nil => rfl
  | cons call calls ih =>
    rw [Machine.trace_cons, ← List.singleton_append, eventsOf_append, ih, Machine.observed_cons]
    rcases step_cases pda s call with ⟨-, hs⟩ | ⟨-, e, hs⟩
    · have ht : ((program pda).machine.transition s call).output = .ok (executedEvent call) :=
        congrArg Prod.snd hs
      rw [eventsOf_ok policy ht, ← Machine.transition_output, ht]
      by_cases hp : call.accounts.policy = policy
      · rw [if_pos (show (executedEvent call).policy = policy from hp),
          if_pos (show onPolicy policy call = true from decide_eq_true hp)]
        rfl
      · rw [if_neg (show (executedEvent call).policy ≠ policy from hp),
          if_neg (show ¬onPolicy policy call = true from fun h => hp (of_decide_eq_true h))]
        rfl
    · have ht : ((program pda).machine.transition s call).output = .error e :=
        congrArg Prod.snd hs
      rw [eventsOf_error policy ht, ← Machine.transition_output, ht]
      split <;> rfl

/-- Calls on different policies commute. -/
theorem step_comm_of_policies {c d : Call} (hcd : c.accounts.policy ≠ d.accounts.policy)
    (s : Accounts) :
    ((program pda).step ((program pda).step s c).1 d).1 =
        ((program pda).step ((program pda).step s d).1 c).1 ∧
      ((program pda).step ((program pda).step s c).1 d).2 = ((program pda).step s d).2 ∧
      ((program pda).step ((program pda).step s d).1 c).2 = ((program pda).step s c).2 := by
  have hd := step_same_policy pda (s := ((program pda).step s c).1) (t := s) (c := d) rfl
    (step_other_policy pda s hcd)
  have hc := step_same_policy pda (s := ((program pda).step s d).1) (t := s) (c := c) rfl
    (step_other_policy pda s hcd.symm)
  refine ⟨?_, hd.2, hc.2⟩
  by_cases hcell : (program pda).cell c = (program pda).cell d
  · -- One of the two names a wrong anchor and is refused in every state.
    have hrefused : ∀ {e : Call} (r : Accounts),
        e.accounts.lastRebalanced ≠ pda.address e.accounts.policy →
          ((program pda).step r e).1 = r := by
      intro e r he
      rcases step_cases pda r e with ⟨ha, -⟩ | ⟨-, x, hs⟩
      · exact absurd ha.1.2.2 he
      · rw [hs]
    by_cases h : c.accounts.lastRebalanced = pda.address c.accounts.policy
    · have hne : d.accounts.lastRebalanced ≠ pda.address d.accounts.policy := fun hd' =>
        hcd (pda.address_injective (h.symm.trans (hcell.trans hd')))
      rw [hrefused _ hne, hrefused s hne]
    · rw [hrefused s h, hrefused _ h]
  · exact ((program pda).step_comm hcell s).1

end Policies

/-- For every run from any accounts and every policy: the answers to its calls,
its events and its final anchor are those of the run of its own calls alone,
and two neighbours on different policies can change places without any change
to the accounts or to any answer. -/
theorem policies_independent (pda : PdaScheme) (s : Accounts) (calls : List Call) :
    (∀ policy,
      (program pda).machine.observed (onPolicy policy) (fun _ o => o) s calls =
        (program pda).machine.outputs s (calls.filter (onPolicy policy)) ∧
      eventsOf policy ((program pda).machine.trace s calls) =
        eventsOf policy ((program pda).machine.trace s (calls.filter (onPolicy policy))) ∧
      (program pda).machine.run s calls (pda.address policy) =
        (program pda).machine.run s (calls.filter (onPolicy policy)) (pda.address policy)) ∧
    ∀ before c d after, calls = before ++ c :: d :: after →
      c.accounts.policy ≠ d.accounts.policy →
      (program pda).machine.run s calls =
        (program pda).machine.run s (before ++ d :: c :: after) ∧
      ∃ first a b rest, first.length = before.length ∧
        (program pda).machine.outputs s calls = first ++ a :: b :: rest ∧
        (program pda).machine.outputs s (before ++ d :: c :: after) = first ++ b :: a :: rest := by
  constructor
  · intro policy
    obtain ⟨hview, hobs⟩ :=
      (policy_unwinding pda policy).purge calls (s := s) (t := s) trivial trivial rfl
    have hall : (program pda).machine.observed (onPolicy policy) (fun _ o => o) s
        (calls.filter (onPolicy policy)) =
          (program pda).machine.outputs s (calls.filter (onPolicy policy)) :=
      (program pda).machine.observed_all (fun c hc => (List.mem_filter.mp hc).2) s
    refine ⟨hobs.trans hall, ?_, hview⟩
    rw [eventsOf_eq_observed, eventsOf_eq_observed, hobs]
  · rintro before c d after rfl hcd
    obtain ⟨hrun, first, a, b, rest, hl, hr, hlen⟩ :=
      (program pda).machine.run_swap (i := c) (j := d) (step_comm_of_policies pda hcd) s
        before after
    exact ⟨hrun, first, a, b, rest, hlen, hl, hr⟩

section Guardian

/-- A call that the guardian signed, in the slot that the program reads. -/
def signedBy (guardian : Pubkey) (call : Call) : Bool :=
  call.accounts.guardianAuthority = guardian ∧ guardian ∈ call.signers

/-- A call on the policy that somebody else signed. -/
def foreign (policy guardian : Pubkey) (call : Call) : Bool :=
  onPolicy policy call && !signedBy guardian call

/-- Answers to the guardian's own calls, oldest first. -/
def guardianResults (pda : PdaScheme) (guardian : Pubkey) (s : Accounts) (calls : List Call) :
    List (Except Rejection RebalanceExecutedEvent) :=
  (program pda).machine.observed (signedBy guardian) (fun _ o => o) s calls

/-- A third party does interfere: its accepted call restarts the window, so the
guardian's next call is refused, and its event enters the policy's record. -/
theorem third_party_interferes :
    ¬∀ (pda : PdaScheme) (policy guardian : Pubkey) (left right : List Call),
      left.filter (fun c => !foreign policy guardian c) =
        right.filter (fun c => !foreign policy guardian c) →
      guardianResults pda guardian (fun _ => none) left =
          guardianResults pda guardian (fun _ => none) right ∧
        eventsOf policy (historyOf pda left) = eventsOf policy (historyOf pda right) := by
  intro h
  have hresults := (h DevnetConfig.lastRebalancedPda DevnetConfig.operatorPolicy
    DevnetConfig.guardianAgent [demoCall 129 DevnetConfig.guardianAgent 10000]
    [demoCall 100 DevnetConfig.observerAgent 0, demoCall 129 DevnetConfig.guardianAgent 10000]
    rfl).1
  exact absurd hresults (by decide)

/-- The anchor decides about the window and about nothing else. -/
theorem executeRebalance_differs (pda : PdaScheme) (a b : Option LastRebalanced) (call : Call) :
    executeRebalance pda a call = executeRebalance pda b call ∨
      executeRebalance pda a call = .error (.custom .rebalanceTooSoon) ∨
      executeRebalance pda b call = .error (.custom .rebalanceTooSoon) := by
  rw [executeRebalance_eq, executeRebalance_eq]
  cases checkAccounts pda call with
  | error e =>
    left
    rw [error_bind, error_bind]
  | ok u =>
    rw [ok_bind, ok_bind]
    by_cases ha : WindowOpen call.unixTimestamp (a.getD .zeroed)
    · by_cases hb : WindowOpen call.unixTimestamp (b.getD .zeroed)
      · rw [if_pos ha, if_pos hb]
        exact Or.inl rfl
      · rw [if_neg hb]
        exact Or.inr (Or.inr rfl)
    · rw [if_neg ha]
      exact Or.inr (Or.inl rfl)

/-- A call on the policy that the guardian signed. -/
def own (policy guardian : Pubkey) (call : Call) : Bool :=
  onPolicy policy call && signedBy guardian call

/-- No foreign call on the policy was accepted less than 30 seconds before a
later call of the guardian on it. -/
def Undisturbed (policy guardian : Pubkey) (history : List CallTransition) : Prop :=
  history.Pairwise fun t u => foreign policy guardian t.input = true → t.output.isOk = true →
    own policy guardian u.input = true →
      t.input.unixTimestamp.toInt + 30 ≤ u.input.unixTimestamp.toInt

instance (policy guardian : Pubkey) (history : List CallTransition) :
    Decidable (Undisturbed policy guardian history) :=
  inferInstanceAs (Decidable (history.Pairwise _))

/-- The accounts of a run against those of the same run without the foreign
calls: they differ in the anchor of the policy only, and if they do, then both
anchors leave the window open for every own call that is still to come. -/
structure Shadowed (pda : PdaScheme) (policy guardian : Pubkey) (later : List Call)
    (s t : Accounts) : Prop where
  /-- All other anchors agree. -/
  others : ∀ k, k ≠ pda.address policy → s k = t k
  /-- The anchors agree, or neither matters to the guardian. -/
  anchor : s (pda.address policy) = t (pda.address policy) ∨
    ∀ u ∈ later, own policy guardian u = true →
      WindowOpen u.unixTimestamp ((s (pda.address policy)).getD .zeroed) ∧
      WindowOpen u.unixTimestamp ((t (pda.address policy)).getD .zeroed)

namespace Shadowed

variable {pda : PdaScheme} {policy guardian : Pubkey} {later : List Call} {s t : Accounts}
  {c : Call}

theorem refl (pda : PdaScheme) (policy guardian : Pubkey) (later : List Call) (s : Accounts) :
    Shadowed pda policy guardian later s s := ⟨fun _ _ => rfl, Or.inl rfl⟩

theorem tail (h : Shadowed pda policy guardian (c :: later) s t) :
    Shadowed pda policy guardian later s t :=
  ⟨h.others, h.anchor.imp_right fun hopen u hu => hopen u (List.mem_cons_of_mem _ hu)⟩

/-- A foreign call happens in the one run only. If it is accepted, then the
window had been open in both, and is open again for all own calls to come. -/
theorem foreign_step (h : Shadowed pda policy guardian (c :: later) s t)
    (hc : foreign policy guardian c = true)
    (hgap : ((program pda).step s c).2.isOk = true → ∀ u ∈ later, own policy guardian u = true →
      c.unixTimestamp.toInt + 30 ≤ u.unixTimestamp.toInt) :
    Shadowed pda policy guardian later ((program pda).step s c).1 t := by
  have hp : c.accounts.policy = policy := of_decide_eq_true (Bool.and_eq_true_iff.mp hc).1
  rcases step_cases pda s c with ⟨hok, hs⟩ | ⟨-, e, hs⟩
  · have haccounts : ((program pda).step s c).1 =
        Function.update s (pda.address policy) (some (stamped pda c)) := by rw [hs, hp]
    rw [hp] at hok
    rw [haccounts]
    refine ⟨fun k hk => (Function.update_of_ne hk _ _).trans (h.others k hk),
      Or.inr fun u hu hown => ?_⟩
    have hold := hgap (by rw [hs]; rfl) u hu hown
    constructor
    · rw [Function.update_self, Option.getD_some]
      exact windowOpen_iff.mpr (Or.inr hold)
    · rcases h.anchor with hsame | hopen
      · rw [← hsame]
        exact windowOpen_mono hok.2.1 (by omega)
      · exact (hopen u (List.mem_cons_of_mem _ hu) hown).2
  · rw [hs]
    exact h.tail

/-- Any other call happens in both runs, with the same answer: on another
policy it sees the same anchor, and on this one it is an own call, for which
the anchors agree or the window is open in both. -/
theorem kept_step (h : Shadowed pda policy guardian (c :: later) s t)
    (hc : foreign policy guardian c = false) :
    ((program pda).step s c).2 = ((program pda).step t c).2 ∧
      Shadowed pda policy guardian later ((program pda).step s c).1
        ((program pda).step t c).1 := by
  have hother : c.accounts.policy ≠ policy →
      pda.address policy ≠ pda.address c.accounts.policy :=
    fun hp he => hp (pda.address_injective he.symm)
  have halike : executeRebalance pda (s (pda.address c.accounts.policy)) c =
      executeRebalance pda (t (pda.address c.accounts.policy)) c := by
    by_cases hp : c.accounts.policy = policy
    · have hon : onPolicy policy c = true := decide_eq_true hp
      have hown : own policy guardian c = true := by
        rw [foreign, hon, Bool.true_and, Bool.not_eq_false'] at hc
        rw [own, hon, hc, Bool.true_and]
      rw [hp]
      rcases h.anchor with hsame | hopen
      · rw [hsame]
      · obtain ⟨hs, ht⟩ := hopen c List.mem_cons_self hown
        simp only [executeRebalance_eq, if_pos hs, if_pos ht]
    · rw [h.others _ (hother hp).symm]
  obtain ⟨hanswer, ⟨hs, ht⟩ | ⟨hs, ht⟩⟩ := step_alike pda halike
  · rw [hs, ht]
    exact ⟨hanswer, h.tail⟩
  · refine ⟨hanswer, ?_⟩
    rw [hs, ht]
    constructor
    · intro k hk
      by_cases hkc : k = pda.address c.accounts.policy
      · rw [hkc, Function.update_self, Function.update_self]
      · rw [Function.update_of_ne hkc, Function.update_of_ne hkc]
        exact h.others k hk
    · by_cases hp : c.accounts.policy = policy
      · rw [hp, Function.update_self, Function.update_self]
        exact Or.inl rfl
      · rw [Function.update_of_ne (hother hp), Function.update_of_ne (hother hp)]
        exact h.tail.anchor

end Shadowed

/-- In an undisturbed run the guardian gets the answers that it would get had
nobody else called on the policy. -/
theorem guardianResults_of_shadowed {pda : PdaScheme} {policy guardian : Pubkey}
    {calls : List Call} {s t : Accounts} (h : Shadowed pda policy guardian calls s t)
    (hquiet : Undisturbed policy guardian ((program pda).machine.trace s calls)) :
    guardianResults pda guardian s calls =
      guardianResults pda guardian t (calls.filter fun c => !foreign policy guardian c) := by
  unfold guardianResults
  induction calls generalizing s t with
  | nil => rfl
  | cons c calls ih =>
    obtain ⟨hfirst, hrest⟩ := List.pairwise_cons.mp hquiet
    cases hc : foreign policy guardian c with
    | true =>
      have hsigned : ¬signedBy guardian c = true := by
        rw [Bool.not_eq_true, ← Bool.not_eq_true']
        exact (Bool.and_eq_true_iff.mp hc).2
      rw [List.filter_cons_of_neg (by rw [hc]; decide), Machine.observed_cons, if_neg hsigned]
      refine ih (h.foreign_step hc fun hok u hu hown => ?_) hrest
      rw [← (program pda).machine.trace_inputs ((program pda).step s c).1 calls] at hu
      obtain ⟨x, hx, rfl⟩ := List.mem_map.mp hu
      exact hfirst x hx hc hok hown
    | false =>
      obtain ⟨hanswer, hnext⟩ := h.kept_step hc
      rw [List.filter_cons_of_pos (by rw [hc]; rfl), Machine.observed_cons, Machine.observed_cons,
        CellProgram.machine_step, CellProgram.machine_step, hanswer, ih hnext hrest]

/-- All executed calls but the refused foreign ones on the policy. -/
def keeps (policy guardian : Pubkey) (t : CallTransition) : Bool :=
  !(foreign policy guardian t.input && t.output.toOption.isNone)

/-- The calls of a run without those foreign calls on the policy that were
refused in it. -/
def withoutRefusedForeign (pda : PdaScheme) (policy guardian : Pubkey) (s : Accounts)
    (calls : List Call) : List Call :=
  (program pda).machine.kept (keeps policy guardian) s calls

theorem eventsOf_filter (policy : Pubkey) {keep : CallTransition → Bool}
    (hkeep : ∀ t, keep t = false → t.output.toOption = none) (history : List CallTransition) :
    eventsOf policy (history.filter keep) = eventsOf policy history := by
  unfold eventsOf
  congr 1
  rw [List.filterMap_filter]
  congr 1
  funext t
  cases hk : keep t with
  | true => rfl
  | false => rw [hkeep t hk]; rfl

/-- What is dropped was refused, so it changed nothing. -/
theorem keeps_idle (pda : PdaScheme) (policy guardian : Pubkey) (r : Accounts) (call : Call)
    (hk : keeps policy guardian ((program pda).machine.transition r call) = false) :
    ((program pda).machine.step r call).1 = r := by
  cases ho : ((program pda).step r call).2 with
  | error e => exact ((program pda).step_of_output_error ho).2
  | ok e =>
    rw [keeps, Machine.transition_output, CellProgram.machine_step, ho] at hk
    simp [Except.toOption] at hk

/-- The guardian's answers stand among the calls that are kept. -/
theorem guardianResults_eq_kept (pda : PdaScheme) (policy guardian : Pubkey) (s : Accounts)
    (calls : List Call) :
    guardianResults pda guardian s calls =
      ((((program pda).machine.trace s calls).filter (keeps policy guardian)).filter
        fun t => signedBy guardian t.input).map fun t => t.output := by
  rw [List.filter_filter]
  unfold guardianResults Machine.observed
  congr 2
  funext t
  cases hs : signedBy guardian t.input <;> simp [keeps, foreign, hs]

/-- So do all events. -/
theorem eventsOf_eq_kept (policy guardian : Pubkey) (history : List CallTransition) :
    eventsOf policy history = eventsOf policy (history.filter (keeps policy guardian)) := by
  refine (eventsOf_filter policy (fun t hk => ?_) history).symm
  rw [keeps, Bool.not_eq_false', Bool.and_eq_true] at hk
  exact Option.isNone_iff_eq_none.mp hk.2

/-- Third parties get in the guardian's way only by an accepted call less than
30 seconds before it. Without such a call, two runs that agree on all calls but
the foreign ones on the policy give the guardian the same answers. Two runs that
differ in refused foreign calls only have the same events and accounts besides.
And after any two runs a next call is answered alike, or one of them finds the
window closed. -/
theorem only_recent_calls_interfere (pda : PdaScheme) (policy guardian : Pubkey)
    (s : Accounts) (left right : List Call) :
    (left.filter (fun c => !foreign policy guardian c) =
        right.filter (fun c => !foreign policy guardian c) →
      Undisturbed policy guardian ((program pda).machine.trace s left) →
      Undisturbed policy guardian ((program pda).machine.trace s right) →
      guardianResults pda guardian s left = guardianResults pda guardian s right) ∧
    (withoutRefusedForeign pda policy guardian s left =
      withoutRefusedForeign pda policy guardian s right →
      guardianResults pda guardian s left = guardianResults pda guardian s right ∧
      eventsOf policy ((program pda).machine.trace s left) =
        eventsOf policy ((program pda).machine.trace s right) ∧
      (program pda).machine.run s left = (program pda).machine.run s right) ∧
    ∀ call, ((program pda).step ((program pda).machine.run s left) call).2 =
        ((program pda).step ((program pda).machine.run s right) call).2 ∨
      ((program pda).step ((program pda).machine.run s left) call).2 =
        .error (.custom .rebalanceTooSoon) ∨
      ((program pda).step ((program pda).machine.run s right) call).2 =
        .error (.custom .rebalanceTooSoon) := by
  refine ⟨?_, ?_, ?_⟩
  · intro hsame hleft hright
    rw [guardianResults_of_shadowed (Shadowed.refl pda policy guardian left s) hleft,
      guardianResults_of_shadowed (Shadowed.refl pda policy guardian right s) hright, hsame]
  · intro hsame
    have hleft := (program pda).machine.run_kept (keeps_idle pda policy guardian) s left
    have hright := (program pda).machine.run_kept (keeps_idle pda policy guardian) s right
    have htrace : ((program pda).machine.trace s left).filter (keeps policy guardian) =
        ((program pda).machine.trace s right).filter (keeps policy guardian) := by
      rw [← hleft.2, ← hright.2]
      exact congrArg _ hsame
    refine ⟨?_, ?_, ?_⟩
    · rw [guardianResults_eq_kept pda policy, guardianResults_eq_kept pda policy, htrace]
    · exact (eventsOf_eq_kept policy guardian _).trans
        (htrace ▸ (eventsOf_eq_kept policy guardian _).symm)
    · rw [← hleft.1, ← hright.1]
      exact congrArg _ hsame
  · intro call
    rw [step_answer_eq, step_answer_eq]
    rcases executeRebalance_differs pda
      ((program pda).machine.run s left (pda.address call.accounts.policy))
      ((program pda).machine.run s right (pda.address call.accounts.policy)) call with h | h | h
    · exact Or.inl (congrArg (Except.map Prod.snd) h)
    · exact Or.inr (Or.inl (congrArg (Except.map Prod.snd) h))
    · exact Or.inr (Or.inr (congrArg (Except.map Prod.snd) h))

/-- The rule on an accepted call of the observer's key 30 seconds before the
guardian's, which is accepted with and without it. -/
theorem only_recent_calls_interfere_demo :
    guardianResults DevnetConfig.lastRebalancedPda DevnetConfig.guardianAgent (fun _ => none)
        [demoCall 100 DevnetConfig.observerAgent 10000,
          demoCall 130 DevnetConfig.guardianAgent 10000] =
      guardianResults DevnetConfig.lastRebalancedPda DevnetConfig.guardianAgent (fun _ => none)
        [demoCall 130 DevnetConfig.guardianAgent 10000] :=
  (only_recent_calls_interfere DevnetConfig.lastRebalancedPda DevnetConfig.operatorPolicy
    DevnetConfig.guardianAgent (fun _ => none)
    [demoCall 100 DevnetConfig.observerAgent 10000, demoCall 130 DevnetConfig.guardianAgent 10000]
    [demoCall 130 DevnetConfig.guardianAgent 10000]).1 rfl (by decide) (by decide)

end Guardian

end RiskClaw.SwigIsolation
