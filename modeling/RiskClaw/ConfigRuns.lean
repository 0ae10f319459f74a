import RiskClaw.AgentIdentity
import RiskClaw.PatchFrame

/-!
# The configuration over runs of the registration script

The registries that the script itself saves have no references, so for its runs
only the layout of the configuration matters. Where the expression matches whole
items once, it does so after every run, whatever fails in them, and all other
declarations stay.
-/

namespace RiskClaw.ConfigRuns

open LeftmostSearch ConfigPatch ConfigGrammar RegistryBlock PatchFrame AgentRegistration
open TextPieces ReactiveMachine

section Registered

/-- A registry after a write is not empty. -/
theorem set_ne_nil (registry : Registry) (zone : String) (entry : AgentEntry) :
    registry.set zone entry ≠ [] := by
  cases registry with
  | nil => exact List.cons_ne_nil _ _
  | cons m registry =>
    rw [Registry.set]
    split_ifs
    · exact List.cons_ne_nil _ _
    · exact List.cons_ne_nil _ _

/-- After a zone that does not end the run, the registry is not empty. -/
theorem registerZone_registers (input : RunFaults) (p : Progress) (z : Zone) :
    Ends (fun q => q.registry ≠ []) (fun _ => True) (registerZone input p z) := by
  have heffect := registerZone_effect input p z
  generalize registerZone input p z = part at heffect ⊢
  cases heffect with
  | unkeyed _ => trivial
  | found _ hfound =>
    intro hnil
    have hregistry : p.registry = [] := hnil
    rw [alreadyMinted, hregistry] at hfound
    cases hfound
  | unrecorded _ _ _ => trivial
  | unsaved _ _ _ _ => trivial
  | recorded _ _ _ _ => exact set_ne_nil _ _ _

/-- A run that comes to the patch has a registry. -/
theorem registerZones_registers (input : RunFaults) (w : World) :
    Ends (fun q => q.registry ≠ []) (fun _ => True) (registerZones input w) := by
  obtain ⟨first, rest, hzones⟩ : ∃ first rest, zones = first :: rest := ⟨_, _, rfl⟩
  have hstart : Ends (fun _ => True) (fun _ => True) (preflight input w) := by
    cases preflight input w <;> trivial
  rw [registerZones, hzones]
  refine hstart.bind fun p _ _ => ?_
  rw [List.foldlM_cons]
  exact (registerZone_registers input p first).bind fun q _ hq =>
    Ends.foldlM rest (fun r y _ _ => registerZone_registers input r y) hq

end Registered

section Runs

variable {c : Config} {w : World} {input : RunFaults}

/-- A registry without `$` has no references. -/
theorem literal_of_plain {registry : Registry} (h : Plain registry) : Literal registry :=
  fun s hs => followed_of_not_mem (h.strings s hs)

/-- The write of the configuration is not cut off. -/
def Uncut (input : RunFaults) : Prop := ∀ n, input.configWrite ≠ .cut n

/-- A run whose write of the configuration is not cut off leaves it, or it patches it
with the registry of its end. -/
theorem run_config (w : World) (huncut : Uncut input) :
    (run w input).2.finished = false ∧ (run w input).1.config = w.config ∨
    registerZones input w = .ok (registerZones input w).done ∧
      (registerZones input w).done.registry ≠ [] ∧
      patchConfig (registerZones input w).done.registry w.config = .ok (run w input).1.config ∧
      ((run w input).2.finished = true ∨ input.configWrite = .late) := by
  rcases run_cases w input with hrun | ⟨hzones, after, hpatch, hrun⟩
  · rw [hrun]
    exact Or.inl ⟨rfl, ((Extends.zones input w).done fun _ hp => hp).config⟩
  · have hregisters := registerZones_registers input w
    rw [hzones] at hregisters
    rcases hrun with hrun | ⟨-, -, hopen, hrun⟩
    · rw [hrun]
      exact Or.inr ⟨hzones, hregisters, hpatch, Or.inl rfl⟩
    · rw [hrun]
      cases hwrite : input.configWrite with
      | done => exact absurd hwrite hopen
      | late => exact Or.inr ⟨hzones, hregisters, hpatch, Or.inr rfl⟩
      | cut n => exact absurd hwrite (huncut n)
      | refused => exact Or.inl ⟨rfl, rfl⟩

/-- The text is a configuration with the other declarations of `c` in which the
expression matches whole items, if at all. -/
def Keeps (c : Config) (text : Text) : Prop :=
  ∃ d : Config, text = d.text ∧ others d.items = others c.items ∧
    ∀ m, findBlock d.text = some m → Aligned d m

/-- A patch without references keeps the other declarations. -/
theorem Keeps.patched {text : Text} {r : Registry} (h : Keeps c text) (hr : r ≠ [])
    (hliteral : Literal r) : Keeps c (fileAfter r text) := by
  obtain ⟨d, rfl, hothers, haligned⟩ := h
  rcases thrown_or_written hr hliteral haligned with ⟨e, hthrow⟩ | ⟨front, back, hwritten⟩
  · have hfile : fileAfter r d.text = d.text := by rw [fileAfter, hthrow]
    rw [hfile]
    exact ⟨d, rfl, hothers, haligned⟩
  · rw [fileAfter_ok hwritten.patched]
    refine ⟨layout front r back, rfl, ?_, fun m hm => ?_⟩
    · rw [others_layout, hwritten.kept, hothers]
    · exact aligned_layout hr hwritten.unmarked hwritten.single hm

/-- One run keeps the other declarations, and a registry file without `$`. -/
theorem run_keeps (h : Keeps c w.config) (hw : TidyFile w) (huncut : Uncut input) :
    Keeps c (run w input).1.config ∧ TidyFile (run w input).1 := by
  refine ⟨?_, run_tidy hw input⟩
  rcases run_config w huncut with ⟨-, hsame⟩ | ⟨-, hne, hpatched, -⟩
  · rw [hsame]
    exact h
  · have hplain := ((registerZones_tidy hw input).done fun _ hp => hp).1
    have hkept := h.patched hne (literal_of_plain hplain)
    rw [fileAfter_ok hpatched] at hkept
    exact hkept

/-- Runs one after the other whose writes of the configuration are not cut off,
whatever else fails in them, keep every declaration but that of the agents. -/
theorem runs_keep (w : World) (hw : TidyFile w) (hconfig : w.config = c.text)
    (haligned : ∀ m, findBlock c.text = some m → Aligned c m) (inputs : List RunFaults)
    (huncut : ∀ input ∈ inputs, Uncut input) :
    ∃ d : Config, (script.run w inputs).config = d.text ∧ others d.items = others c.items := by
  have hrun : Keeps c (script.run w inputs).config := by
    have hkeeps : Keeps c w.config := ⟨c, hconfig, rfl, haligned⟩
    clear hconfig
    induction inputs generalizing w with
    | nil => exact hkeeps
    | cons input inputs ih =>
      have hnext := run_keeps hkeeps hw (huncut input List.mem_cons_self)
      exact ih (run w input).1 hnext.2 (fun later hlater =>
        huncut later (List.mem_cons_of_mem _ hlater)) hnext.1
  obtain ⟨d, htext, hothers, -⟩ := hrun
  exact ⟨d, htext, hothers⟩

/-- Two first runs, with another asset in the second one, on a configuration with two
declarations around that of the agents. -/
theorem runs_keep_demo :
    ∃ d : Config, (script.run (fresh (fun _ => none) (fun _ => .absent) severalLines.text)
      [demoRun observerAsset false, demoRun secondAsset true]).config = d.text ∧
      others d.items = others severalLines.items := by
  have hfile : TidyFile (fresh (fun _ => none) (fun _ => .absent) severalLines.text) :=
    fun _ h => by cases h
  refine runs_keep _ hfile rfl (fun m hm => (severalLines_safe.replaces m hm).1)
    [demoRun observerAsset false, demoRun secondAsset true] fun input hinput => ?_
  simp only [List.mem_cons, List.not_mem_nil, or_false] at hinput
  rcases hinput with rfl | rfl
  · exact nofun
  · exact nofun

end Runs

end RiskClaw.ConfigRuns
