import RiskClaw.KeyTexts
import RiskClaw.ClientRejections
import RiskClaw.SharedConfig

/-!
# The agents of a zone, from the script to the client

The client imports the agents that the shared configuration declares, and takes
a caller for the agent of a zone only with the key that stands there. The key
files, the registry, the text of the configuration and the chain agree on these
keys over all runs of both scripts, if no mint is confirmed with an error. So after
a registration that came to its end a caller is taken for the agent of a zone if and
only if it holds the key of this zone, and it gets an asset that this key owns.
-/

namespace RiskClaw.ZoneDirectory

open ReactiveMachine SolanaRuntime LeftmostSearch KeywordSegments ConfigPatch ConfigGrammar
open RegistryBlock AgentRegistration JsonText RegistryFile DeployScript SharedConfig ConfigRuns
open OnchainClient KeyTexts

section Import

/-- Name of a zone. -/
def zoneName : AgentZone → String
  | .read => "read"
  | .compute => "compute"
  | .execute => "execute"

/-- The entry of a zone in `AGENT_REGISTRY`, or the text of an exception. -/
def registryEntry (keys : PubkeyTexts) (agents : Registry) (zone : AgentZone) :
    Except String (Option AgentRegistryEntry) :=
  match agents.get (zoneName zone) with
  | none => .ok none
  | some entry => do
    let mint ← keys.publicKey entry.mint
    let pubkey ← keys.publicKey entry.pubkey
    .ok (some ⟨mint, pubkey⟩)

/-- `AGENT_REGISTRY`, or the text of an exception. -/
def agentRegistry (keys : PubkeyTexts) (agents : Registry) :
    Except String (AgentZone → Option AgentRegistryEntry) := do
  let read ← registryEntry keys agents .read
  let compute ← registryEntry keys agents .compute
  let execute ← registryEntry keys agents .execute
  .ok fun
    | .read => read
    | .compute => compute
    | .execute => execute

end Import

section Declared

variable {l : Layout} {ids : Ids} {r : Registry}

end Declared

section Growth

/-- Assets stay with their owners, and keys in their files. -/
structure Grows (w w' : World) : Prop where
  /-- The assets. -/
  assets : ∀ a owner, w.assets a = some owner → w'.assets a = some owner
  /-- The key files. -/
  keys : ∀ file owner, w.keys file = .value owner → w'.keys file = .value owner

theorem Grows.refl (w : World) : Grows w w := ⟨fun _ _ h => h, fun _ _ h => h⟩

theorem Grows.trans {w w' w'' : World} (h : Grows w w') (h' : Grows w' w'') : Grows w w'' :=
  ⟨fun a owner ha => h'.assets a owner (h.assets a owner ha),
    fun file owner hk => h'.keys file owner (h.keys file owner hk)⟩

theorem Grows.of_extends {p q : Progress} (h : Extends p q) : Grows p.world q.world :=
  ⟨h.assets, h.keys⟩

variable {w : World}

end Growth

section Backed

/-- The entry that the script records. -/
def entryFor (keys : PubkeyTexts) (z : Zone) (mint owner : Pubkey) : AgentEntry :=
  ⟨(keys.toBase58 mint).text, (keys.toBase58 owner).text, z.name⟩

/-- Every entry stands for a zone, with the key in the zone's file and an asset
that this key owns. -/
def Backed (keys : PubkeyTexts) (registry : Registry) (w : World) : Prop :=
  ∀ m ∈ registry, ∃ z ∈ zones, ∃ mint owner, m = (z.zone, entryFor keys z mint owner) ∧
    w.keys z.file = .value (keys.toBase58 owner) ∧
    w.assets (keys.toBase58 mint).text = some (keys.toBase58 owner)

/-- A text that is the text of a key. -/
def IsKey (keys : PubkeyTexts) (a : Address) : Prop := ∃ key, keys.toBase58 key = a

/-- The registry, the key files and the chain agree. -/
structure Agreed (keys : PubkeyTexts) (w : World) : Prop where
  /-- The registry is backed. -/
  backed : Backed keys (loaded w.registry) w
  /-- It has no zone twice. -/
  distinct : Distinct (loaded w.registry)
  /-- The key files hold keys. -/
  keys : ∀ file a, w.keys file = .value a → IsKey keys a

/-- What is generated during a run is a key, and no mint is confirmed with an error. -/
structure Proper (keys : PubkeyTexts) (input : RunFaults) : Prop where
  /-- The keys of the zones. -/
  generated : ∀ zone, IsKey keys (input.zone zone).generated
  /-- The addresses of the assets. -/
  signer : ∀ zone, IsKey keys (input.zone zone).signer
  /-- The mints. -/
  executed : ∀ zone, (input.zone zone).submission ≠ .failed

variable {keys : PubkeyTexts} {r : Registry} {w w' : World} {p q : Progress} {z : Zone}

theorem Backed.grows (h : Backed keys r w) (hgrows : Grows w w') : Backed keys r w' := by
  intro m hm
  obtain ⟨y, hy, mint, owner, hentry, hkey, hasset⟩ := h m hm
  exact ⟨y, hy, mint, owner, hentry, hgrows.keys _ _ hkey, hgrows.assets _ _ hasset⟩

/-- A run between two of its steps: the world agrees, and the registry in memory is
that of the file. -/
structure InStep (keys : PubkeyTexts) (p : Progress) : Prop where
  /-- The world. -/
  world : Agreed keys p.world
  /-- The registry. -/
  file : loaded p.world.registry = p.registry

/-- Reading or creating the key of a zone. -/
theorem InStep.withKey (h : InStep keys p) {faults : ZoneFaults}
    (hkey : IsKey keys faults.generated) (z : Zone) : InStep keys (withKey faults p z) := by
  have hgrows := Grows.of_extends (Extends.withKey faults p z)
  refine ⟨⟨h.world.backed.grows hgrows, h.world.distinct, fun file a ha => ?_⟩, h.file⟩
  change keysAfter faults p.world z file = .value a at ha
  unfold keysAfter at ha
  split_ifs at ha
  · by_cases hfile : file = z.file
    · rw [hfile, Function.update_self] at ha
      rcases Write.stored_eq_value ha with ⟨-, hold⟩ | rfl
      · cases hold
      · exact hkey
    · rw [Function.update_of_ne hfile] at ha
      exact h.world.keys file a ha
  · exact h.world.keys file a ha

/-- The key that is read or created stands in the zone's file. -/
theorem withKey_file {faults : ZoneFaults} {owner : Address}
    (h : ownerOf faults p.world z = some owner) :
    (withKey faults p z).world.keys z.file = .value owner := by
  change keysAfter faults p.world z z.file = _
  by_cases hfails : faults.keyFails = true
  · rw [ownerOf, if_pos hfails] at h
    cases h
  · rw [ownerOf, if_neg hfails] at h
    unfold keysAfter
    cases hfile : p.world.keys z.file with
    | absent =>
      rw [hfile] at h
      obtain ⟨hwrite, hgenerated⟩ := Option.ite_none_right_eq_some.mp h
      rw [if_pos ⟨Bool.eq_false_of_not_eq_true hfails, rfl⟩, Function.update_self, hwrite]
      exact congrArg Stored.value (Option.some.inj hgenerated)
    | value key =>
      rw [hfile] at h
      rw [if_neg (by simp), hfile]
      exact congrArg Stored.value (Option.some.inj h)
    | unreadable =>
      rw [hfile] at h
      cases h

/-- Whatever becomes of its transaction, a submitted mint is none of the registry. -/
theorem InStep.submitted (h : InStep keys p) (faults : ZoneFaults) (z : Zone) (owner : Address) :
    InStep keys (submitted faults p z owner) := by
  have hgrows := Grows.of_extends (Extends.submitted faults p z owner)
  obtain ⟨hfile, hmemory⟩ := submitted_registry faults p z owner
  have hkeys : (AgentRegistration.submitted faults p z owner).world.keys = p.world.keys := by
    unfold AgentRegistration.submitted
    split_ifs <;> rfl
  refine ⟨⟨?_, ?_, ?_⟩, ?_⟩
  · rw [hfile]
    exact h.world.backed.grows hgrows
  · rw [hfile]
    exact h.world.distinct
  · rw [hkeys]
    exact h.world.keys
  · rw [hfile, hmemory]
    exact h.file

/-- The registry with an asset on the chain for the key in the zone's file. -/
theorem InStep.recorded (h : InStep keys p) {faults : ZoneFaults} (hz : z ∈ zones)
    {mint owner : Pubkey} (hmint : keys.toBase58 mint = faults.signer)
    (howner : p.world.keys z.file = .value (keys.toBase58 owner))
    (hasset : p.world.assets faults.signer.text = some (keys.toBase58 owner)) :
    Backed keys (recorded faults p z (keys.toBase58 owner)) p.world ∧
      Distinct (recorded faults p z (keys.toBase58 owner)) := by
  have hbacked := h.world.backed
  have hdistinct := h.world.distinct
  rw [h.file] at hbacked hdistinct
  refine ⟨fun m hm => ?_, hdistinct.set _ _⟩
  rcases Registry.mem_set hm with rfl | hm
  · refine ⟨z, hz, mint, owner, ?_, howner, ?_⟩
    · rw [entryFor, hmint]
    · rw [hmint]
      exact hasset
  · exact hbacked m hm

/-- Saving such a registry, whatever becomes of the write. -/
theorem InStep.saved (h : InStep keys p) {faults : ZoneFaults} (hz : z ∈ zones)
    {mint owner : Pubkey} (hmint : keys.toBase58 mint = faults.signer)
    (howner : p.world.keys z.file = .value (keys.toBase58 owner))
    (hasset : p.world.assets faults.signer.text = some (keys.toBase58 owner)) :
    Agreed keys (saved faults p z (keys.toBase58 owner)).world := by
  obtain ⟨hbacked, hdistinct⟩ := h.recorded hz hmint howner hasset
  have hempty : Backed keys [] p.world := fun _ hm => nomatch hm
  unfold AgentRegistration.saved
  cases faults.save with
  | done => exact ⟨hbacked, hdistinct, h.world.keys⟩
  | late => exact ⟨hbacked, hdistinct, h.world.keys⟩
  | cut n => exact ⟨hempty, List.nodup_nil, h.world.keys⟩
  | refused => exact ⟨h.world.backed, h.world.distinct, h.world.keys⟩

/-- The loop body for one zone. -/
theorem InStep.registerZone (h : InStep keys p) (hz : z ∈ zones) {input : RunFaults}
    (hinput : Proper keys input) :
    Ends (InStep keys) (fun q => Agreed keys q.world) (registerZone input p z) := by
  have hkeyed := h.withKey (hinput.generated z.zone) z
  have hsubmitted := hkeyed.submitted (input.zone z.zone) z
  have hsaved : ∀ owner, ownerOf (input.zone z.zone) p.world z = some owner →
      returns (input.zone z.zone) p = true →
      Agreed keys (AgentRegistration.saved (input.zone z.zone) (AgentRegistration.submitted
        (input.zone z.zone) (AgentRegistration.withKey (input.zone z.zone) p z) z owner) z
        owner).world := by
    intro owner hkey hreturns
    have hfile := withKey_file hkey
    obtain ⟨key, rfl⟩ := hkeyed.world.keys _ _ hfile
    obtain ⟨mint, hmint⟩ := hinput.signer z.zone
    obtain ⟨hconfirmed, hunused⟩ :=
      (of_decide_eq_true hreturns).resolve_left (hinput.executed z.zone)
    have hlands : lands (input.zone z.zone)
        (AgentRegistration.withKey (input.zone z.zone) p z) = true :=
      decide_eq_true ⟨Or.inl hconfirmed, hunused⟩
    have hnew := hsubmitted (keys.toBase58 key)
    rw [AgentRegistration.submitted, if_pos hlands] at hnew ⊢
    exact hnew.saved hz hmint hfile (Function.update_self _ _ _)
  have heffect := registerZone_effect input p z
  generalize AgentRegistration.registerZone input p z = part at heffect ⊢
  cases heffect with
  | unkeyed _ => exact hkeyed.world
  | found _ _ => exact hkeyed
  | unrecorded _ _ _ => exact (hsubmitted _).world
  | unsaved hkey _ hreturns _ => exact hsaved _ hkey hreturns
  | recorded hkey _ hreturns hsave =>
    refine ⟨hsaved _ hkey hreturns, ?_⟩
    change loaded ((input.zone z.zone).save.stored _ _) = _
    rw [hsave]
    rfl

theorem registerZones_inStep (h : Agreed keys w) {input : RunFaults} (hinput : Proper keys input) :
    Ends (InStep keys) (fun q => Agreed keys q.world) (registerZones input w) :=
  Ends.zones (Ends.preflight ⟨h, rfl⟩ h) fun _ _ hreach hp => hp.registerZone hreach.mem hinput

theorem Agreed.run (h : Agreed keys w) {input : RunFaults} (hinput : Proper keys input) :
    Agreed keys (run w input).1 := by
  have hzones := (registerZones_inStep h hinput).done fun _ hp => hp.world
  obtain ⟨config, finished, hrun⟩ := run_world w input
  rw [hrun]
  exact ⟨hzones.backed, hzones.distinct, hzones.keys⟩

/-- A run of a script in which what is generated is a key, no mint is confirmed with an
error, and no write of the configuration is cut off. -/
structure Orderly (keys : PubkeyTexts) (next : ScriptRun) : Prop where
  /-- The registration. -/
  proper : ∀ input, next = .register input → Proper keys input
  /-- The configuration. -/
  uncut : next.Uncut

theorem Agreed.scripts (h : Agreed keys w) {runs : List ScriptRun}
    (hruns : ∀ next ∈ runs, Orderly keys next) : Agreed keys (scripts.run w runs) := by
  induction runs generalizing w with
  | nil => exact h
  | cons next runs ih =>
    have hnext := hruns next List.mem_cons_self
    refine ih ?_ fun later hlater => hruns later (List.mem_cons_of_mem _ hlater)
    cases next with
    | register input => exact h.run (hnext.proper input rfl)
    | deploy input => exact ⟨h.backed, h.distinct, h.keys⟩

end Backed

section Complete

variable {w : World} {input : RunFaults} {p q : Progress} {y z : Zone}

end Complete

section Served

variable {keys : PubkeyTexts} {r : Registry} {w : World} {z : Zone}

theorem mem_of_get {zone : String} {entry : AgentEntry} (h : r.get zone = some entry) :
    (zone, entry) ∈ r := by
  obtain ⟨front, back, rfl, -⟩ := List.lookup_eq_some_iff.mp h
  exact List.mem_append_right front List.mem_cons_self

theorem zones_unique : ∀ z ∈ zones, ∀ y ∈ zones, z.zone = y.zone → z = y := by decide

/-- The entry of a zone in a backed registry. -/
theorem Backed.get (h : Backed keys r w) (hz : z ∈ zones) (hentry : r.get z.zone ≠ none) :
    ∃ mint owner, r.get z.zone = some (entryFor keys z mint owner) ∧
      w.keys z.file = .value (keys.toBase58 owner) ∧
      w.assets (keys.toBase58 mint).text = some (keys.toBase58 owner) := by
  obtain ⟨entry, hget⟩ := Option.ne_none_iff_exists'.mp hentry
  obtain ⟨y, hy, mint, owner, hmember, hkey, hasset⟩ := h _ (mem_of_get hget)
  obtain ⟨hzone, hentry⟩ := Prod.mk.inj hmember
  have hsame := zones_unique z hz y hy hzone
  subst hsame
  exact ⟨mint, owner, hentry ▸ hget, hkey, hasset⟩

variable {directory : AgentDirectory} {agent : AgentConfig}

end Served

end RiskClaw.ZoneDirectory
