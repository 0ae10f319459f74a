import Mathlib.Data.Bool.Basic
import Mathlib.Data.List.Induction
import Mathlib.Data.List.TakeWhile

/-!
# Deterministic machines answering a sequence of inputs

A machine reads one input at a time, changes its state and answers with one
output. A run retains every executed transition, so that histories, results
and reachable states are all read from the same list. The rules collected
here are invariant induction, history induction, erasure of inputs that had
no effect, and the comparison of two runs through a view of the state.
-/

namespace RiskClaw.ReactiveMachine

section History

variable {ο : Type*} {p : ο → Bool}

/-- The part of a history before its first entry of a kind. -/
def before (p : ο → Bool) (history : List ο) : List ο := history.takeWhile fun o => !p o

theorem before_subset (p : ο → Bool) (history : List ο) : before p history ⊆ history :=
  (List.takeWhile_prefix _).subset

/-- Once an entry of the kind is there, later entries do not matter. -/
theorem before_append_of_any {history : List ο} (h : history.any p = true) (later : List ο) :
    before p (history ++ later) = before p history := by
  induction history with
  | nil => cases h
  | cons o history ih =>
    unfold before at ih ⊢
    rw [List.cons_append, List.takeWhile_cons, List.takeWhile_cons]
    cases hp : p o with
    | true => rfl
    | false =>
      rw [List.any_cons, hp, Bool.false_or] at h
      rw [ih h]

/-- Without an entry of the kind the whole history stands before it. -/
theorem before_eq_self {history : List ο} (h : history.any p = false) :
    before p history = history := by
  have hall : ∀ x ∈ history, (!p x) = true := by
    intro x hx
    rw [Bool.not_eq_true']
    exact Bool.eq_false_of_not_eq_true (List.any_eq_false.mp h x hx)
  exact List.takeWhile_eq_self_iff.mpr hall

/-- Before the first entry of the kind stands the whole history so far. -/
theorem before_concat_of_not_any {history : List ο} {o : ο} (h : history.any p = false)
    (ho : p o = true) : before p (history ++ [o]) = history := by
  have hself := before_eq_self h
  unfold before at hself ⊢
  rw [List.takeWhile_append, hself, if_pos rfl, List.takeWhile_cons, ho]
  exact List.append_nil _

end History

/-- A total step function from a state and an input to a state and an output. -/
structure Machine (σ ι ο : Type*) where
  /-- Successor state and answer; a refused input is answered too. -/
  step : σ → ι → σ × ο

/-- One executed step together with the states around it. -/
structure Transition (σ ι ο : Type*) where
  /-- State in which the input arrived. -/
  pre : σ
  /-- The input itself. -/
  input : ι
  /-- The answer given to the input. -/
  output : ο
  /-- State left behind. -/
  post : σ

namespace Machine

variable {σ ι ο α β : Type*} (m : Machine σ ι ο)

/-- The transition that input `i` causes in state `s`. -/
def transition (s : σ) (i : ι) : Transition σ ι ο := ⟨s, i, (m.step s i).2, (m.step s i).1⟩

/-- State reached after all inputs. -/
def run (s : σ) : List ι → σ
  | [] => s
  | i :: is => run (m.step s i).1 is

/-- Every executed transition, oldest first. -/
def trace (s : σ) : List ι → List (Transition σ ι ο)
  | [] => []
  | i :: is => m.transition s i :: trace (m.step s i).1 is

/-- The answers of a run, oldest first. -/
def outputs (s : σ) (is : List ι) : List ο := (m.trace s is).map Transition.output

@[simp] theorem run_nil (s : σ) : m.run s [] = s := rfl

@[simp] theorem run_cons (s : σ) (i : ι) (is : List ι) :
    m.run s (i :: is) = m.run (m.step s i).1 is := rfl

@[simp] theorem trace_nil (s : σ) : m.trace s [] = [] := rfl

@[simp] theorem trace_cons (s : σ) (i : ι) (is : List ι) :
    m.trace s (i :: is) = m.transition s i :: m.trace (m.step s i).1 is := rfl

@[simp] theorem outputs_cons (s : σ) (i : ι) (is : List ι) :
    m.outputs s (i :: is) = (m.step s i).2 :: m.outputs (m.step s i).1 is := rfl

@[simp] theorem transition_input (s : σ) (i : ι) : (m.transition s i).input = i := rfl

@[simp] theorem transition_output (s : σ) (i : ι) :
    (m.transition s i).output = (m.step s i).2 := rfl

theorem run_append (s : σ) (xs ys : List ι) :
    m.run s (xs ++ ys) = m.run (m.run s xs) ys := by
  induction xs generalizing s with
  | nil => rfl
  | cons x xs ih => exact ih _

theorem trace_append (s : σ) (xs ys : List ι) :
    m.trace s (xs ++ ys) = m.trace s xs ++ m.trace (m.run s xs) ys := by
  induction xs generalizing s with
  | nil => rfl
  | cons x xs ih =>
    rw [List.cons_append, trace_cons, ih]
    rfl

theorem outputs_append (s : σ) (xs ys : List ι) :
    m.outputs s (xs ++ ys) = m.outputs s xs ++ m.outputs (m.run s xs) ys := by
  simp only [outputs, trace_append, List.map_append]

theorem run_concat (s : σ) (xs : List ι) (i : ι) :
    m.run s (xs ++ [i]) = (m.step (m.run s xs) i).1 := by
  rw [run_append]
  rfl

theorem trace_concat (s : σ) (xs : List ι) (i : ι) :
    m.trace s (xs ++ [i]) = m.trace s xs ++ [m.transition (m.run s xs) i] := by
  rw [trace_append]
  rfl

@[simp] theorem outputs_length (s : σ) (is : List ι) : (m.outputs s is).length = is.length := by
  induction is generalizing s with
  | nil => rfl
  | cons i is ih => simp [ih]

theorem trace_inputs (s : σ) (is : List ι) : (m.trace s is).map Transition.input = is := by
  induction is generalizing s with
  | nil => rfl
  | cons i is ih => simp [ih]

/-- A transition belongs to a run exactly when its input stands somewhere in
the sequence and its states are the ones reached there. -/
theorem mem_trace_iff {s : σ} {is : List ι} {t : Transition σ ι ο} :
    t ∈ m.trace s is ↔
      ∃ before i after, is = before ++ i :: after ∧ t = m.transition (m.run s before) i := by
  induction is generalizing s with
  | nil => simp
  | cons i is ih =>
    rw [trace_cons, List.mem_cons, ih]
    constructor
    · rintro (rfl | ⟨before, j, after, rfl, rfl⟩)
      · exact ⟨[], i, is, rfl, rfl⟩
      · exact ⟨i :: before, j, after, rfl, rfl⟩
    · rintro ⟨before, j, after, he, rfl⟩
      cases before with
      | nil =>
        cases he
        exact Or.inl rfl
      | cons k before =>
        cases he
        exact Or.inr ⟨before, j, after, rfl, rfl⟩

/-- A transition inside a trace was caused by an input at the same place, after
the run of the inputs before it. -/
theorem trace_split {s : σ} {is : List ι} {before after : List (Transition σ ι ο)}
    {t : Transition σ ι ο} (h : m.trace s is = before ++ t :: after) :
    ∃ first i rest, is = first ++ i :: rest ∧ m.trace s first = before ∧
      t = m.transition (m.run s first) i := by
  induction is generalizing s before with
  | nil => exact absurd h.symm (List.append_ne_nil_of_right_ne_nil _ (List.cons_ne_nil _ _))
  | cons i is ih =>
    cases before with
    | nil =>
      have ht := (List.cons.inj h).1
      exact ⟨[], i, is, rfl, rfl, ht.symm⟩
    | cons b before =>
      obtain ⟨hb, hrest⟩ := List.cons.inj h
      obtain ⟨first, j, rest, rfl, rfl, ht⟩ := ih hrest
      exact ⟨i :: first, j, rest, rfl, by rw [trace_cons, hb], ht⟩

theorem input_mem_of_mem_trace {s : σ} {is : List ι} {t : Transition σ ι ο}
    (ht : t ∈ m.trace s is) : t.input ∈ is := by
  have hin : t.input ∈ (m.trace s is).map Transition.input := List.mem_map_of_mem ht
  rwa [trace_inputs] at hin

/-- History induction: a relation between the transitions executed so far and
the present state holds after every run when each further step preserves it.
`A` is what every step of the run is known to satisfy. -/
theorem history_induction {P : List (Transition σ ι ο) → σ → Prop} {A : Transition σ ι ο → Prop}
    {s : σ} (hs : P [] s)
    (hstep : ∀ h r i, A (m.transition r i) → P h r → P (h ++ [m.transition r i]) (m.step r i).1)
    {is : List ι} (hok : ∀ t ∈ m.trace s is, A t) : P (m.trace s is) (m.run s is) := by
  induction is using List.reverseRecOn with
  | nil => exact hs
  | append_singleton is i ih =>
    rw [trace_concat] at hok ⊢
    rw [run_concat]
    exact hstep _ _ _ (hok _ (by simp)) (ih fun t ht => hok t (by simp [ht]))

/-- Answer induction: the same rule for a relation with the answers alone. -/
theorem answer_induction {P : List ο → σ → Prop} {A : Transition σ ι ο → Prop} {s : σ}
    (hs : P [] s)
    (hstep : ∀ os r i, A (m.transition r i) → P os r → P (os ++ [(m.step r i).2]) (m.step r i).1)
    {is : List ι} (hok : ∀ t ∈ m.trace s is, A t) : P (m.outputs s is) (m.run s is) := by
  refine m.history_induction (P := fun h r => P (h.map Transition.output) r) hs ?_ hok
  intro h r i hi hr
  rw [List.map_append]
  exact hstep _ r i hi hr

/-- Invariant induction over a run. -/
theorem run_invariant {I : σ → Prop} (hstep : ∀ r i, I r → I (m.step r i).1)
    {s : σ} (hs : I s) (is : List ι) : I (m.run s is) :=
  m.history_induction (P := fun _ r => I r) (A := fun _ => True) hs
    (fun _ r i _ hr => hstep r i hr) (fun _ _ => trivial)

/-- The inputs of a run whose transition passes a test of its own result. -/
def kept (keep : Transition σ ι ο → Bool) (s : σ) (is : List ι) : List ι :=
  ((m.trace s is).filter keep).map Transition.input

theorem kept_cons (keep : Transition σ ι ο → Bool) (s : σ) (i : ι) (is : List ι) :
    m.kept keep s (i :: is) = if keep (m.transition s i) = true
      then i :: m.kept keep (m.step s i).1 is else m.kept keep (m.step s i).1 is := by
  unfold kept
  rw [trace_cons, List.filter_cons]
  split <;> rfl

/-- Inputs that left the state as it was can be erased from a run: the rest
is answered as before and ends in the same state. -/
theorem run_kept {keep : Transition σ ι ο → Bool}
    (hidle : ∀ r i, keep (m.transition r i) = false → (m.step r i).1 = r)
    (s : σ) (is : List ι) :
    m.run s (m.kept keep s is) = m.run s is ∧
      m.trace s (m.kept keep s is) = (m.trace s is).filter keep := by
  induction is generalizing s with
  | nil => exact ⟨rfl, rfl⟩
  | cons i is ih =>
    obtain ⟨hrun, htrace⟩ := ih (m.step s i).1
    rw [kept_cons, trace_cons, List.filter_cons]
    by_cases hk : keep (m.transition s i) = true
    · simp only [if_pos hk, run_cons, trace_cons]
      exact ⟨hrun, by rw [htrace]⟩
    · have hs : (m.step s i).1 = s := hidle s i (Bool.eq_false_of_not_eq_true hk)
      simp only [if_neg hk, run_cons]
      rw [hs] at hrun htrace ⊢
      exact ⟨hrun, htrace⟩

/-- Adjacent inputs that commute can be exchanged anywhere in a run: the final
state and all other answers stay, and the two answers change places. -/
theorem run_swap {i j : ι}
    (hcomm : ∀ r, (m.step (m.step r i).1 j).1 = (m.step (m.step r j).1 i).1 ∧
      (m.step (m.step r i).1 j).2 = (m.step r j).2 ∧ (m.step (m.step r j).1 i).2 = (m.step r i).2)
    (s : σ) (before after : List ι) :
    m.run s (before ++ i :: j :: after) = m.run s (before ++ j :: i :: after) ∧
      ∃ first a b rest, m.outputs s (before ++ i :: j :: after) = first ++ a :: b :: rest ∧
        m.outputs s (before ++ j :: i :: after) = first ++ b :: a :: rest ∧
        first.length = before.length := by
  obtain ⟨hstate, hj, hi⟩ := hcomm (m.run s before)
  refine ⟨?_, m.outputs s before, (m.step (m.run s before) i).2, (m.step (m.run s before) j).2,
    m.outputs (m.step (m.step (m.run s before) i).1 j).1 after, ?_, ?_, ?_⟩
  · simp only [run_append, run_cons, hstate]
  · simp only [outputs_append, outputs_cons, hj]
  · simp only [outputs_append, outputs_cons, hi, hstate]
  · exact m.outputs_length s before

/-- What is observed of the relevant inputs of a run, oldest first. -/
def observed (relevant : ι → Bool) (obs : ι → ο → β) (s : σ) (is : List ι) : List β :=
  ((m.trace s is).filter fun t => relevant t.input).map fun t => obs t.input t.output

theorem observed_cons (relevant : ι → Bool) (obs : ι → ο → β) (s : σ) (i : ι) (is : List ι) :
    m.observed relevant obs s (i :: is) = if relevant i = true
      then obs i (m.step s i).2 :: m.observed relevant obs (m.step s i).1 is
      else m.observed relevant obs (m.step s i).1 is := by
  unfold observed
  rw [trace_cons, List.filter_cons, transition_input]
  split <;> rfl

/-- When every input is relevant, observing the answers is reading them all. -/
theorem observed_all {relevant : ι → Bool} {is : List ι} (h : ∀ i ∈ is, relevant i = true)
    (s : σ) : m.observed relevant (fun _ o => o) s is = m.outputs s is := by
  unfold observed outputs
  rw [List.filter_eq_self.mpr]
  exact fun t ht => h _ (m.input_mem_of_mem_trace ht)

section Unwinding

variable {I : σ → Prop} {view : σ → α} {relevant : ι → Bool} {obs : ι → ο → β}

/-- The two local conditions that make irrelevant inputs invisible: they do
not touch the view, and a relevant input treats states of equal view alike. -/
structure Unwinding (I : σ → Prop) (view : σ → α) (relevant : ι → Bool) (obs : ι → ο → β) :
    Prop where
  /-- The condition on states that both runs maintain. -/
  invariant : ∀ s i, I s → I (m.step s i).1
  /-- An irrelevant input leaves the view unchanged. -/
  respects : ∀ s i, I s → relevant i = false → view (m.step s i).1 = view s
  /-- The view and the observation after a relevant input depend on the view. -/
  consistent : ∀ s t i, I s → I t → view s = view t → relevant i = true →
    view (m.step s i).1 = view (m.step t i).1 ∧ obs i (m.step s i).2 = obs i (m.step t i).2

variable {m}

/-- Erasing the irrelevant inputs changes neither the final view nor any
observation of the relevant ones. -/
theorem Unwinding.purge (h : m.Unwinding I view relevant obs) (is : List ι) {s t : σ}
    (hs : I s) (ht : I t) (hv : view s = view t) :
    view (m.run s is) = view (m.run t (is.filter relevant)) ∧
      m.observed relevant obs s is = m.observed relevant obs t (is.filter relevant) := by
  induction is generalizing s t with
  | nil => exact ⟨hv, rfl⟩
  | cons i is ih =>
    by_cases hi : relevant i = true
    · obtain ⟨hview, hobs⟩ := h.consistent s t i hs ht hv hi
      have hc := ih (h.invariant s i hs) (h.invariant t i ht) hview
      rw [List.filter_cons_of_pos hi, run_cons, run_cons, observed_cons, observed_cons,
        if_pos hi, if_pos hi, hobs]
      exact ⟨hc.1, by rw [hc.2]⟩
    · have hi' := Bool.eq_false_of_not_eq_true hi
      have hview := (h.respects s i hs hi').trans hv
      have hc := ih (h.invariant s i hs) ht hview
      rw [List.filter_cons_of_neg hi, run_cons, observed_cons, if_neg hi]
      exact hc

/-- Two runs that contain the same relevant inputs end in the same view and
make the same observations, however the irrelevant inputs differ. -/
theorem Unwinding.same_view (h : m.Unwinding I view relevant obs) {is js : List ι} {s t : σ}
    (hs : I s) (ht : I t) (hv : view s = view t) (hf : is.filter relevant = js.filter relevant) :
    view (m.run s is) = view (m.run t js) ∧
      m.observed relevant obs s is = m.observed relevant obs t js := by
  have hleft := h.purge is hs hs rfl
  have hright := h.purge js ht hs hv.symm
  rw [hf] at hleft
  exact ⟨hleft.1.trans hright.1.symm, hleft.2.trans hright.2.symm⟩

end Unwinding

section Views

variable {σ' ι' ο' : Type*}

/-- A machine seen as another one, from states with an invariant and on the
allowed inputs. An input stands for an input of the other machine, or for
nothing; the invariant holds after every allowed input. -/
structure View (m : Machine σ ι ο) (m' : Machine σ' ι' ο') (I : σ → Prop) (allowed : ι → Prop) where
  /-- What is seen of a state. -/
  state : σ → σ'
  /-- What an input in a state is seen as. -/
  input : σ → ι → Option ι'
  /-- What an answer is seen as. -/
  output : ι → ο → ο'
  /-- The invariant is kept. -/
  invariant : ∀ s i, I s → allowed i → I (m.step s i).1
  /-- A visible input is a step of the other machine. -/
  visible : ∀ s i j, I s → allowed i → input s i = some j →
    m'.step (state s) j = (state (m.step s i).1, output i (m.step s i).2)
  /-- An invisible input leaves what is seen of the state. -/
  invisible : ∀ s i, I s → allowed i → input s i = none → state (m.step s i).1 = state s

namespace View

variable {m} {m' : Machine σ' ι' ο'} {I : σ → Prop} {allowed : ι → Prop}
  (v : View m m' I allowed)

/-- What is seen of the inputs of a run. -/
def inputs (s : σ) : List ι → List ι'
  | [] => []
  | i :: is => (v.input s i).toList ++ inputs (m.step s i).1 is

/-- What is seen of the answers of a run. -/
def outputs (s : σ) : List ι → List ο'
  | [] => []
  | i :: is =>
    ((v.input s i).map fun _ => v.output i (m.step s i).2).toList ++ outputs (m.step s i).1 is

/-- What is seen of a run is a run of the other machine. -/
theorem run_view (s : σ) (is : List ι) (hs : I s) (his : ∀ i ∈ is, allowed i) :
    v.state (m.run s is) = m'.run (v.state s) (v.inputs s is) ∧
      m'.outputs (v.state s) (v.inputs s is) = v.outputs s is := by
  induction is generalizing s with
  | nil => exact ⟨rfl, rfl⟩
  | cons i is ih =>
    have hi := his i List.mem_cons_self
    obtain ⟨hrun, houtputs⟩ := ih _ (v.invariant s i hs hi) fun j hj =>
      his j (List.mem_cons_of_mem _ hj)
    rw [run_cons, inputs, outputs]
    cases hj : v.input s i with
    | none =>
      rw [v.invisible s i hs hi hj] at hrun houtputs
      exact ⟨hrun, houtputs⟩
    | some j =>
      have hstep := v.visible s i j hs hi hj
      have hstate : (m'.step (v.state s) j).1 = v.state (m.step s i).1 := by rw [hstep]
      have houtput : (m'.step (v.state s) j).2 = v.output i (m.step s i).2 := by rw [hstep]
      rw [← hstate] at hrun houtputs
      refine ⟨hrun, ?_⟩
      change m'.outputs (v.state s) (j :: v.inputs (m.step s i).1 is) =
        v.output i (m.step s i).2 :: v.outputs (m.step s i).1 is
      rw [outputs_cons, houtputs, houtput]

/-- A seen input stands for an input of the run, in the state reached there. -/
theorem mem_inputs {s : σ} {is : List ι} {j : ι'} (hj : j ∈ v.inputs s is) :
    ∃ first i rest, is = first ++ i :: rest ∧ v.input (m.run s first) i = some j := by
  induction is generalizing s with
  | nil => exact absurd hj List.not_mem_nil
  | cons i is ih =>
    rcases List.mem_append.mp hj with hhead | htail
    · exact ⟨[], i, is, rfl, Option.mem_toList.mp hhead⟩
    · obtain ⟨first, k, rest, rfl, hk⟩ := ih htail
      exact ⟨i :: first, k, rest, rfl, hk⟩

/-- A seen answer is that to a visible input of the run. -/
theorem mem_outputs {s : σ} {is : List ι} {o : ο'} (ho : o ∈ v.outputs s is) :
    ∃ first i rest j, is = first ++ i :: rest ∧ v.input (m.run s first) i = some j ∧
      o = v.output i (m.step (m.run s first) i).2 := by
  induction is generalizing s with
  | nil => exact absurd ho List.not_mem_nil
  | cons i is ih =>
    rcases List.mem_append.mp ho with hhead | htail
    · obtain ⟨j, hj, hoj⟩ := Option.map_eq_some_iff.mp (Option.mem_toList.mp hhead)
      exact ⟨[], i, is, j, rfl, hj, hoj.symm⟩
    · obtain ⟨first, k, rest, j, rfl, hj, hoj⟩ := ih htail
      exact ⟨i :: first, k, rest, j, rfl, hj, hoj⟩

/-- A step of the seen run is what is seen of a step of the run. -/
theorem mem_trace (s : σ) {is : List ι} (hs : I s) (his : ∀ i ∈ is, allowed i)
    {t' : Transition σ' ι' ο'} (ht' : t' ∈ m'.trace (v.state s) (v.inputs s is)) :
    ∃ t ∈ m.trace s is, v.input t.pre t.input = some t'.input ∧ t'.pre = v.state t.pre ∧
      t'.post = v.state t.post := by
  induction is generalizing s with
  | nil => exact absurd ht' List.not_mem_nil
  | cons i is ih =>
    have hi := his i List.mem_cons_self
    have hnext := v.invariant s i hs hi
    have hrest : ∀ j ∈ is, allowed j := fun j hj => his j (List.mem_cons_of_mem _ hj)
    rw [inputs] at ht'
    cases hj : v.input s i with
    | none =>
      rw [hj] at ht'
      change t' ∈ m'.trace (v.state s) (v.inputs (m.step s i).1 is) at ht'
      rw [← v.invisible s i hs hi hj] at ht'
      obtain ⟨t, ht, hseen⟩ := ih _ hnext hrest ht'
      exact ⟨t, List.mem_cons_of_mem _ ht, hseen⟩
    | some j =>
      rw [hj] at ht'
      change t' ∈ m'.trace (v.state s) (j :: v.inputs (m.step s i).1 is) at ht'
      have hstep := v.visible s i j hs hi hj
      have hstate : (m'.step (v.state s) j).1 = v.state (m.step s i).1 := by rw [hstep]
      rw [trace_cons, hstate, List.mem_cons] at ht'
      rcases ht' with rfl | ht'
      · exact ⟨m.transition s i, List.mem_cons_self, hj, rfl, hstate⟩
      · obtain ⟨t, ht, hseen⟩ := ih _ hnext hrest ht'
        exact ⟨t, List.mem_cons_of_mem _ ht, hseen⟩

end View

end Views

end Machine

end RiskClaw.ReactiveMachine
