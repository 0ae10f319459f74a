import RiskClaw.ReactiveMachine
import RiskClaw.ConfigPatch
import Mathlib.Logic.Function.Basic

/-!
# Runs of the agent registration script

The script mints one identity asset for each of three zones. It keeps the key
of a zone in a file, records the assets in a registry file after every mint,
and patches the shared configuration at its end. A run may be aborted by an
exception at every point; what it has done by then stays. A file is truncated
before it is written, so a write that throws can leave it cut off. A re-run asks
the chain whether the recorded asset of a zone is alive, and takes every failure
of this question for a negative answer. Whether a confirmed transaction has
succeeded is not asked.
-/

namespace RiskClaw.AgentRegistration

open ReactiveMachine ConfigPatch

/-- The characters of base58. -/
def base58 : Text := "123456789ABCDEFGHJKLMNPQRSTUVWXYZabcdefghijkmnopqrstuvwxyz".toList

/-- The base58 text of an address. -/
structure Address where
  /-- The text. -/
  text : String
  /-- It is base58. -/
  valid : ∀ c ∈ text.toList, c ∈ base58
  deriving DecidableEq

/-- A row of the script's table of zones. -/
structure Zone where
  /-- Key of the zone in the registry. -/
  zone : String
  /-- Name of its agent. -/
  name : String
  /-- File of its key. -/
  file : String
  deriving DecidableEq

/-- `ZONES`. -/
def zones : List Zone :=
  [⟨"read", "Observer", "observer.json"⟩, ⟨"compute", "Analyst", "analyst.json"⟩,
    ⟨"execute", "Guardian", "guardian.json"⟩]

section Files

/-- How a write of a file ends. -/
inductive Write where
  /-- The file has the new text. -/
  | done
  /-- The file has the new text, and an exception is thrown after that. -/
  | late
  /-- The file is truncated, and an exception is thrown when at most so many
  characters of the new text, and not all, are written. -/
  | cut (length : ℕ)
  /-- An exception is thrown before the file is truncated. -/
  | refused
  deriving DecidableEq

/-- The text of a file after a write. -/
def Write.text (write : Write) (old new : Text) : Text :=
  match write with
  | .done => new
  | .late => new
  | .cut length => new.dropLast.take length
  | .refused => old

/-- What a file holds. -/
inductive Stored (α : Type) where
  /-- There is no file. -/
  | absent
  /-- Its text stands for a value. -/
  | value (a : α)
  /-- Reading its text throws. -/
  | unreadable
  deriving DecidableEq

/-- What a file holds after a write of the text of a value. -/
def Write.stored {α : Type} (write : Write) (old : Stored α) (new : α) : Stored α :=
  match write with
  | .done => .value new
  | .late => .value new
  | .cut _ => .unreadable
  | .refused => old

end Files

/-- What outlives a run. -/
structure World where
  /-- Owner of every asset on the chain. -/
  assets : String → Option Address
  /-- Address of the key in a key file. -/
  keys : String → Stored Address
  /-- The registry file. -/
  registry : Stored Registry
  /-- The text of the shared configuration. -/
  config : Text

/-- Whether the transaction of a mint is executed, and what the script learns
of it. -/
inductive Submission where
  /-- Executed and confirmed. -/
  | confirmed
  /-- Executed, but the confirmation fails. -/
  | unconfirmed
  /-- Confirmed with an error in its result, which the script does not read. -/
  | failed
  /-- Not executed. -/
  | lost
  deriving DecidableEq

/-- What the surroundings do while a run handles one zone. -/
structure ZoneFaults where
  /-- Making the directory of the keys or reading the key file throws. -/
  keyFails : Bool
  /-- What a newly generated key is. -/
  generated : Address
  /-- Writing the key file. -/
  keyWrite : Write
  /-- `fetchAssetV1` fails, whatever is on the chain. -/
  fetchFails : Bool
  /-- What the generated signer of a new asset is. -/
  signer : Address
  /-- What becomes of the transaction. -/
  submission : Submission
  /-- Writing the registry. -/
  save : Write

/-- What the surroundings do during one run. -/
structure RunFaults where
  /-- Importing the endpoint, or reading the wallet or its balance throws. -/
  walletFails : Bool
  /-- Balance of the wallet in lamports. -/
  balance : ℕ
  /-- Reading the registry throws. -/
  registryFails : Bool
  /-- The faults of a zone. -/
  zone : String → ZoneFaults
  /-- Reading the configuration throws. -/
  configReadFails : Bool
  /-- Writing the configuration. -/
  configWrite : Write

/-- A run between two of its steps. -/
structure Progress where
  /-- The world so far. -/
  world : World
  /-- The registry in memory. -/
  registry : Registry
  /-- Assets that the run has minted, with their zones. -/
  minted : List (String × Address)

/-- The part of a run that ends by going on, or by an exception. -/
abbrev Part := Except Progress Progress

/-- What a part has done, however it ends. -/
def Part.done : Part → Progress
  | .ok p => p
  | .error p => p

/-- The registry that `loadRegistry` returns; without a file it is empty. -/
def loaded : Stored Registry → Registry
  | .value registry => registry
  | _ => []

/-- A run that has loaded the registry and done nothing else. -/
def start (w : World) : Progress := ⟨w, loaded w.registry, []⟩

/-- The wallet preflight and `loadRegistry`; without a file there is nothing
to read. -/
def preflight (input : RunFaults) (w : World) : Part :=
  if input.walletFails = true ∨ input.balance < 50000000 then .error (start w)
  else
    match w.registry with
    | .absent => .ok (start w)
    | .unreadable => .error (start w)
    | .value _ => if input.registryFails = true then .error (start w) else .ok (start w)

/-- The key that `loadOrCreateZoneKeypair` returns, if it does not throw. -/
def ownerOf (faults : ZoneFaults) (w : World) (z : Zone) : Option Address :=
  if faults.keyFails = true then none
  else
    match w.keys z.file with
    | .value owner => some owner
    | .unreadable => none
    | .absent => if faults.keyWrite = .done then some faults.generated else none

/-- The key files after `loadOrCreateZoneKeypair`, however it ends. -/
def keysAfter (faults : ZoneFaults) (w : World) (z : Zone) : String → Stored Address :=
  if faults.keyFails = false ∧ w.keys z.file = .absent then
    Function.update w.keys z.file (faults.keyWrite.stored .absent faults.generated)
  else w.keys

/-- After `loadOrCreateZoneKeypair`. -/
def withKey (faults : ZoneFaults) (p : Progress) (z : Zone) : Progress :=
  { p with world := { p.world with keys := keysAfter faults p.world z } }

/-- `fetchAssetV1`: the owner of the asset, or an exception. -/
def fetchAsset (faults : ZoneFaults) (w : World) (mint : String) : Option Address :=
  if faults.fetchFails = true then none else w.assets mint

/-- The registry has the zone and the asset is found with the right owner. -/
def alreadyMinted (faults : ZoneFaults) (p : Progress) (z : Zone) (owner : Address) : Bool :=
  match p.registry.get z.zone with
  | none => false
  | some existing => fetchAsset faults p.world existing.mint = some owner

/-- The transaction is executed; the address of the asset must be unused. -/
def lands (faults : ZoneFaults) (p : Progress) : Bool :=
  (faults.submission = .confirmed ∨ faults.submission = .unconfirmed) ∧
    p.world.assets faults.signer.text = none

/-- `sendAndConfirm` does not throw. -/
def returns (faults : ZoneFaults) (p : Progress) : Bool :=
  faults.submission = .failed ∨
    (faults.submission = .confirmed ∧ p.world.assets faults.signer.text = none)

/-- After an executed mint. -/
def landed (faults : ZoneFaults) (p : Progress) (z : Zone) (owner : Address) : Progress where
  world :=
    { p.world with assets := Function.update p.world.assets faults.signer.text (some owner) }
  registry := p.registry
  minted := p.minted ++ [(z.zone, faults.signer)]

/-- After `sendAndConfirm`, however it ends. -/
def submitted (faults : ZoneFaults) (p : Progress) (z : Zone) (owner : Address) : Progress :=
  if lands faults p = true then landed faults p z owner else p

/-- The registry with the new asset of a zone. -/
def recorded (faults : ZoneFaults) (p : Progress) (z : Zone) (owner : Address) : Registry :=
  p.registry.set z.zone ⟨faults.signer.text, owner.text, z.name⟩

/-- After the asset is recorded in memory and `saveRegistry`, however it ends. -/
def saved (faults : ZoneFaults) (p : Progress) (z : Zone) (owner : Address) : Progress where
  world :=
    { p.world with
      registry := faults.save.stored p.world.registry (recorded faults p z owner) }
  registry := recorded faults p z owner
  minted := p.minted

/-- The fresh mint of a zone. -/
def mintZone (faults : ZoneFaults) (p : Progress) (z : Zone) (owner : Address) : Part :=
  if returns faults p = false then .error (submitted faults p z owner)
  else if faults.save = .done then .ok (saved faults (submitted faults p z owner) z owner)
  else .error (saved faults (submitted faults p z owner) z owner)

/-- The loop body for one zone. -/
def registerZone (input : RunFaults) (p : Progress) (z : Zone) : Part :=
  let faults := input.zone z.zone
  match ownerOf faults p.world z with
  | none => .error (withKey faults p z)
  | some owner =>
    if alreadyMinted faults (withKey faults p z) z owner then .ok (withKey faults p z)
    else mintZone faults (withKey faults p z) z owner

/-- `patchConfig` at the end of a run; an unchanged text is not written. -/
def patch (input : RunFaults) (p : Progress) : Part :=
  if input.configReadFails = true then .error p
  else
    match patchConfig p.registry p.world.config with
    | .error _ => .error p
    | .ok after =>
      if after = p.world.config then .ok p
      else
        let config := input.configWrite.text p.world.config after
        if input.configWrite = .done then .ok { p with world := { p.world with config := config } }
        else .error { p with world := { p.world with config := config } }

/-- The `main` function up to the patch. -/
def registerZones (input : RunFaults) (w : World) : Part := do
  let p ← preflight input w
  zones.foldlM (registerZone input) p

/-- The `main` function of the script. -/
def main (input : RunFaults) (w : World) : Part := do
  let p ← registerZones input w
  patch input p

/-- What a run shows for itself. -/
structure RunResult where
  /-- The assets it has minted. -/
  minted : List (String × Address)
  /-- Whether it came to its end. -/
  finished : Bool
  deriving DecidableEq

/-- One run of the script. -/
def run (w : World) (input : RunFaults) : World × RunResult :=
  ((main input w).done.world, ⟨(main input w).done.minted, (main input w).isOk⟩)

/-- The script as a machine whose steps are whole runs. -/
def script : Machine World RunFaults RunResult := ⟨run⟩

/-- A world in which the script has never saved a registry. -/
def fresh (assets : String → Option Address) (keys : String → Stored Address) (config : Text) :
    World :=
  ⟨assets, keys, .absent, config⟩

section Parts

variable {I J K : Progress → Prop} {x : Part} {input : RunFaults} {w : World} {p : Progress}

/-- The part goes on with the first property, or ends by an exception with the
second one. -/
def Ends (I J : Progress → Prop) : Part → Prop
  | .ok p => I p
  | .error p => J p

theorem Ends.bind {f : Progress → Part} (h : Ends I J x)
    (hf : ∀ p, x = .ok p → I p → Ends K J (f p)) : Ends K J (x >>= f) := by
  cases x with
  | error p => exact h
  | ok p => exact hf p rfl h

/-- What the loop body keeps for each zone is kept by the loop. -/
theorem Ends.foldlM (rows : List Zone)
    (hstep : ∀ p, ∀ y ∈ rows, I p → Ends I J (registerZone input p y)) (hp : I p) :
    Ends I J (rows.foldlM (registerZone input) p) := by
  induction rows generalizing p with
  | nil => exact hp
  | cons y rows ih =>
    rw [List.foldlM_cons]
    exact (hstep p y List.mem_cons_self hp).bind fun q _ hq =>
      ih (fun p y hy => hstep p y (List.mem_cons_of_mem _ hy)) hq

/-- What holds in both cases holds of what is done. -/
theorem Ends.done (h : Ends I J x) (hJ : ∀ p, I p → J p) : J x.done := by
  cases x with
  | error p => exact h
  | ok p => exact hJ p h

/-- The run comes to the zone. -/
def Reaches (input : RunFaults) (w : World) (y : Zone) (p : Progress) : Prop :=
  ∃ front back, zones = front ++ y :: back ∧
    (preflight input w >>= fun p => front.foldlM (registerZone input) p) = .ok p

/-- What the preflight establishes and the loop body keeps where the run comes to is
established by the loop over all zones. -/
theorem Ends.zones (hstart : Ends I J (preflight input w))
    (hstep : ∀ y p, Reaches input w y p → I p → Ends I J (registerZone input p y)) :
    Ends I J (registerZones input w) := by
  have hloop : ∀ back front, AgentRegistration.zones = front ++ back → ∀ p,
      (preflight input w >>= fun p => front.foldlM (registerZone input) p) = .ok p → I p →
      Ends I J (back.foldlM (registerZone input) p) := by
    intro back
    induction back with
    | nil => exact fun _ _ p _ hp => hp
    | cons y back ih =>
      intro front hzones p hreach hp
      rw [List.foldlM_cons]
      refine (hstep y p ⟨front, back, hzones, hreach⟩ hp).bind fun q hq hI => ?_
      refine ih (front ++ [y]) (by rw [hzones, List.append_assoc]; rfl) q ?_ hI
      -- The next zone is reached through this one.
      simp only [List.foldlM_append, List.foldlM_cons, List.foldlM_nil]
      rw [← bind_assoc, hreach]
      change (registerZone input p y >>= fun q => pure q) = .ok q
      rw [hq]
      rfl
  exact hstart.bind fun p hp hI => hloop AgentRegistration.zones [] rfl p (by rw [hp]; rfl) hI

/-- The preflight does nothing. -/
theorem Ends.preflight (hI : I (start w)) (hJ : J (start w)) :
    Ends I J (preflight input w) := by
  unfold AgentRegistration.preflight
  by_cases hwallet : input.walletFails = true ∨ input.balance < 50000000
  · rw [if_pos hwallet]
    exact hJ
  · rw [if_neg hwallet]
    cases w.registry with
    | absent => exact hI
    | unreadable => exact hJ
    | value registry =>
      dsimp only
      split_ifs
      · exact hJ
      · exact hI

theorem zones_distinct : ∀ y ∈ zones, ∀ z ∈ zones, y ≠ z → y.zone ≠ z.zone := by decide

theorem Reaches.mem {y : Zone} (h : Reaches input w y p) : y ∈ zones := by
  obtain ⟨front, back, hzones, -⟩ := h
  rw [hzones]
  exact List.mem_append_right front List.mem_cons_self

/-- From a zone that the run comes to, the loop is the zone and those after it. -/
theorem Reaches.rest {y : Zone} (h : Reaches input w y p) :
    ∃ back : List Zone, (∀ z ∈ back, z ∈ zones ∧ z ≠ y) ∧
      registerZones input w =
        (registerZone input p y >>= fun q => back.foldlM (registerZone input) q) := by
  obtain ⟨front, back, hzones, hreach⟩ := h
  have hnodup : zones.Nodup := by decide
  rw [hzones] at hnodup
  have hnew := (List.nodup_cons.mp (List.nodup_append.mp hnodup).2.1).1
  refine ⟨back, fun z hz => ⟨?_, fun he => hnew (he ▸ hz)⟩, ?_⟩
  · rw [hzones]
    exact List.mem_append_right front (List.mem_cons_of_mem y hz)
  · unfold registerZones
    rw [hzones]
    simp only [List.foldlM_append, List.foldlM_cons]
    rw [← bind_assoc, hreach]
    rfl

end Parts

/-- Everything the loop body can do in a zone. -/
inductive ZoneEffect (faults : ZoneFaults) (p : Progress) (z : Zone) : Part → Prop where
  /-- The key cannot be read or written. -/
  | unkeyed (hkey : ownerOf faults p.world z = none) :
    ZoneEffect faults p z (.error (withKey faults p z))
  /-- The recorded asset is found. -/
  | found {owner : Address} (hkey : ownerOf faults p.world z = some owner)
    (hfound : alreadyMinted faults p z owner = true) :
    ZoneEffect faults p z (.ok (withKey faults p z))
  /-- No asset is found, and submitting the mint of one throws. -/
  | unrecorded {owner : Address} (hkey : ownerOf faults p.world z = some owner)
    (hfound : alreadyMinted faults p z owner = false) (hreturns : returns faults p = false) :
    ZoneEffect faults p z (.error (submitted faults (withKey faults p z) z owner))
  /-- An asset is recorded, and saving it throws. -/
  | unsaved {owner : Address} (hkey : ownerOf faults p.world z = some owner)
    (hfound : alreadyMinted faults p z owner = false) (hreturns : returns faults p = true)
    (hsave : faults.save ≠ .done) :
    ZoneEffect faults p z
      (.error (saved faults (submitted faults (withKey faults p z) z owner) z owner))
  /-- An asset is recorded and saved. -/
  | recorded {owner : Address} (hkey : ownerOf faults p.world z = some owner)
    (hfound : alreadyMinted faults p z owner = false) (hreturns : returns faults p = true)
    (hsave : faults.save = .done) :
    ZoneEffect faults p z
      (.ok (saved faults (submitted faults (withKey faults p z) z owner) z owner))

/-- The loop body has one of these effects. -/
theorem registerZone_effect (input : RunFaults) (p : Progress) (z : Zone) :
    ZoneEffect (input.zone z.zone) p z (registerZone input p z) := by
  -- Reading the key changes neither the registry nor the assets.
  have halready : ∀ owner, alreadyMinted (input.zone z.zone) (withKey (input.zone z.zone) p z) z
      owner = alreadyMinted (input.zone z.zone) p z owner := fun _ => rfl
  have hreturning : returns (input.zone z.zone) (withKey (input.zone z.zone) p z) =
      returns (input.zone z.zone) p := rfl
  unfold registerZone mintZone
  dsimp only
  cases hkey : ownerOf (input.zone z.zone) p.world z with
  | none => exact .unkeyed hkey
  | some owner =>
    dsimp only
    rw [halready, hreturning]
    split_ifs with hfound hreturns hsave
    · exact .found hkey hfound
    · exact .unrecorded hkey (Bool.eq_false_of_not_eq_true hfound) hreturns
    · exact .recorded hkey (Bool.eq_false_of_not_eq_true hfound)
        (Bool.eq_true_of_not_eq_false hreturns) hsave
    · exact .unsaved hkey (Bool.eq_false_of_not_eq_true hfound)
        (Bool.eq_true_of_not_eq_false hreturns) hsave

/-- What a run does not undo: assets, keys and the mints of the run stay, and
before the patch the configuration stays as it is. -/
structure Extends (p q : Progress) : Prop where
  /-- Assets stay with their owners. -/
  assets : ∀ a owner, p.world.assets a = some owner → q.world.assets a = some owner
  /-- Key files stay. -/
  keys : ∀ file key, p.world.keys file = .value key → q.world.keys file = .value key
  /-- Mints stay. -/
  minted : ∀ m ∈ p.minted, m ∈ q.minted
  /-- The configuration stays. -/
  config : q.world.config = p.world.config

namespace Extends

variable {input : RunFaults} {w : World}

theorem refl (p : Progress) : Extends p p :=
  ⟨fun _ _ h => h, fun _ _ h => h, fun _ h => h, rfl⟩

theorem trans {p q r : Progress} (h : Extends p q) (h' : Extends q r) : Extends p r where
  assets a owner ha := h'.assets a owner (h.assets a owner ha)
  keys file key hk := h'.keys file key (h.keys file key hk)
  minted m hm := h'.minted m (h.minted m hm)
  config := h'.config.trans h.config

/-- Reading or creating a key keeps the existing ones. -/
theorem withKey (faults : ZoneFaults) (p : Progress) (z : Zone) :
    Extends p (AgentRegistration.withKey faults p z) where
  assets _ _ h := h
  keys file key h := by
    change keysAfter faults p.world z file = _
    unfold keysAfter
    split_ifs with hnew
    · have hfile : file ≠ z.file := by
        rintro rfl
        rw [hnew.2] at h
        cases h
      rw [Function.update_of_ne hfile, h]
    · exact h
  minted _ h := h
  config := rfl

/-- A new asset has an unused address. -/
theorem submitted (faults : ZoneFaults) (p : Progress) (z : Zone) (owner : Address) :
    Extends p (AgentRegistration.submitted faults p z owner) := by
  unfold AgentRegistration.submitted
  split_ifs with hlands
  · refine ⟨fun a holder h => ?_, fun _ _ h => h, fun _ h => List.mem_append_left _ h, rfl⟩
    have hunused : p.world.assets faults.signer.text = none := (of_decide_eq_true hlands).2
    have hne : a ≠ faults.signer.text := by
      intro he
      rw [← he, h] at hunused
      cases hunused
    exact (Function.update_of_ne hne _ _).trans h
  · exact refl p

theorem saved (faults : ZoneFaults) (p : Progress) (z : Zone) (owner : Address) :
    Extends p (AgentRegistration.saved faults p z owner) :=
  ⟨fun _ _ h => h, fun _ _ h => h, fun _ h => h, rfl⟩

theorem registerZone (input : RunFaults) (p : Progress) (z : Zone) :
    Ends (Extends p) (Extends p) (AgentRegistration.registerZone input p z) := by
  have hkey := withKey (input.zone z.zone) p z
  have heffect := registerZone_effect input p z
  generalize AgentRegistration.registerZone input p z = part at heffect ⊢
  cases heffect with
  | unkeyed _ => exact hkey
  | found _ _ => exact hkey
  | unrecorded _ _ _ => exact hkey.trans (submitted _ _ z _)
  | unsaved _ _ _ _ => exact (hkey.trans (submitted _ _ z _)).trans (saved _ _ z _)
  | recorded _ _ _ _ => exact (hkey.trans (submitted _ _ z _)).trans (saved _ _ z _)

/-- What a step keeps of its own beginning it keeps of an earlier one. -/
theorem step {p q : Progress} (h : Extends p q) (input : RunFaults) (z : Zone) :
    Ends (Extends p) (Extends p) (AgentRegistration.registerZone input q z) := by
  have hstep := registerZone input q z
  generalize AgentRegistration.registerZone input q z = part at hstep ⊢
  cases part with
  | ok r => exact h.trans hstep
  | error r => exact h.trans hstep

theorem preflight (input : RunFaults) (w : World) :
    Ends (Extends (start w)) (Extends (start w)) (AgentRegistration.preflight input w) :=
  Ends.preflight (refl _) (refl _)

/-- The loop undoes nothing. -/
theorem zones (input : RunFaults) (w : World) :
    Ends (Extends (start w)) (Extends (start w)) (registerZones input w) :=
  Ends.zones (preflight input w) fun y _ _ hp => hp.step input y

/-- A zone that is reached comes after what was there before the run. -/
theorem reached {y : Zone} {p : Progress} (h : Reaches input w y p) : Extends (start w) p := by
  obtain ⟨front, back, -, hreach⟩ := h
  have hends := (preflight input w).bind fun p _ hp =>
    Ends.foldlM front (fun q y _ hq => hq.step input y) hp
  rw [hreach] at hends
  exact hends

end Extends

section Registries

variable {P : Registry → Prop} {input : RunFaults} {p : Progress} {w : World}

/-- The registry file is not concerned by a mint. -/
theorem submitted_registry (faults : ZoneFaults) (p : Progress) (y : Zone) (owner : Address) :
    (submitted faults p y owner).world.registry = p.world.registry ∧
      (submitted faults p y owner).registry = p.registry := by
  unfold submitted
  split_ifs
  · exact ⟨rfl, rfl⟩
  · exact ⟨rfl, rfl⟩

/-- What can be read after a write is the new value, or the old one if the write was
refused. -/
theorem Write.stored_eq_value {α : Type} {write : Write} {old : Stored α} {new a : α}
    (h : write.stored old new = .value a) : write = .refused ∧ old = .value a ∨ new = a := by
  cases write with
  | done => exact Or.inr (Stored.value.inj h)
  | late => exact Or.inr (Stored.value.inj h)
  | cut n => cases h
  | refused => exact Or.inl ⟨rfl, h⟩

/-- The registry in memory and the one in the file have the property. -/
def Both (P : Registry → Prop) (p : Progress) : Prop :=
  P p.registry ∧ ∀ registry, p.world.registry = .value registry → P registry

/-- A property that every entry of the zone leaves is kept by the loop body. -/
theorem Both.registerZone {y : Zone} (h : Both P p)
    (hset : ∀ registry (entry : Address × Address), P registry →
      P (registry.set y.zone ⟨entry.1.text, entry.2.text, y.name⟩)) :
    Ends (Both P) (Both P) (registerZone input p y) := by
  have hsubmitted : ∀ owner, Both P
      (submitted (input.zone y.zone) (withKey (input.zone y.zone) p y) y owner) := by
    intro owner
    obtain ⟨hfile, hmemory⟩ :=
      submitted_registry (input.zone y.zone) (withKey (input.zone y.zone) p y) y owner
    rw [Both, hfile, hmemory]
    exact h
  have hsaved : ∀ owner, Both P (saved (input.zone y.zone)
      (submitted (input.zone y.zone) (withKey (input.zone y.zone) p y) y owner) y owner) := by
    intro owner
    have hnew := hset _ ((input.zone y.zone).signer, owner) (hsubmitted owner).1
    refine ⟨hnew, fun registry hregistry => ?_⟩
    change (input.zone y.zone).save.stored _ _ = _ at hregistry
    rcases Write.stored_eq_value hregistry with ⟨-, hold⟩ | rfl
    · exact (hsubmitted owner).2 registry hold
    · exact hnew
  have heffect := registerZone_effect input p y
  generalize AgentRegistration.registerZone input p y = part at heffect ⊢
  cases heffect with
  | unkeyed _ => exact h
  | found _ _ => exact h
  | unrecorded _ _ _ => exact hsubmitted _
  | unsaved _ _ _ _ => exact hsaved _
  | recorded _ _ _ _ => exact hsaved _

/-- A property of the empty registry and of the one in the file that the entries of all
zones leave holds after the loop. -/
theorem Both.registerZones (hnil : P []) (hfile : ∀ registry, w.registry = .value registry →
    P registry) (hset : ∀ registry, ∀ y ∈ zones, ∀ entry : Address × Address, P registry →
      P (registry.set y.zone ⟨entry.1.text, entry.2.text, y.name⟩)) :
    Ends (Both P) (Both P) (registerZones input w) := by
  have hloaded : Both P (start w) := by
    refine ⟨?_, hfile⟩
    unfold start
    cases hregistry : w.registry with
    | absent => exact hnil
    | unreadable => exact hnil
    | value registry => exact hfile registry hregistry
  exact Ends.zones (Ends.preflight hloaded hloaded) fun y p hreach hp =>
    hp.registerZone fun registry => hset registry y hreach.mem

/-- Where the loop comes to its end, the registry in memory is the one that would be
loaded again. -/
theorem registerZones_loaded (input : RunFaults) (w : World) :
    Ends (fun p => loaded p.world.registry = p.registry) (fun _ => True)
      (registerZones input w) := by
  refine Ends.zones (Ends.preflight rfl trivial) fun y p _ hp => ?_
  have heffect := registerZone_effect input p y
  generalize registerZone input p y = part at heffect ⊢
  cases heffect with
  | unkeyed _ => trivial
  | found _ _ => exact hp
  | unrecorded _ _ _ => trivial
  | unsaved _ _ _ _ => trivial
  | recorded _ _ _ hsave =>
    change loaded ((input.zone y.zone).save.stored _ _) = _
    rw [hsave]
    rfl

end Registries

end RiskClaw.AgentRegistration
