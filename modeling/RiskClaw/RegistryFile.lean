import RiskClaw.RegistryTexts
import RiskClaw.AgentIdentity

/-!
# The runs of the registration script on its files

Here the files of the registration script hold texts, and a run parses what it
reads and writes what it has. So runs on files are runs on the values in them, and
no run fails on a file that a run has written as a whole.
-/

namespace RiskClaw.RegistryFile

open ReactiveMachine ConfigPatch AgentRegistration JsonText

section Script

/-- What outlives a run, with the texts of the files. -/
structure Files where
  /-- Owner of every asset on the chain. -/
  assets : String → Option Address
  /-- The texts of the key files. -/
  keyFiles : String → Option Text
  /-- The text of the registry file. -/
  registryFile : Option Text
  /-- The text of the shared configuration. -/
  config : Text

/-- A file after a write. -/
def file (write : Write) (old : Option Text) (new : Text) : Option Text :=
  match write with
  | .done => some new
  | .late => some new
  | .cut length => some (new.dropLast.take length)
  | .refused => old

/-- What the surroundings do while a run handles one zone. -/
structure Faults (scheme : KeyScheme) where
  /-- Making the directory of the keys or reading the key file throws. -/
  keyFails : Bool
  /-- `Keypair.generate()`. -/
  generated : Keypair scheme
  /-- Writing the key file. -/
  keyWrite : Write
  /-- `fetchAssetV1` fails, whatever is on the chain. -/
  fetchFails : Bool
  /-- What the generated signer of a new asset is. -/
  signer : Address
  /-- What becomes of the transaction. -/
  submission : Submission
  /-- Writing the registry. -/
  save : Write

/-- What the surroundings do during one run. -/
structure Surroundings (scheme : KeyScheme) where
  /-- Importing the endpoint, or reading the wallet or its balance throws. -/
  walletFails : Bool
  /-- Balance of the wallet in lamports. -/
  balance : ℕ
  /-- Reading the registry throws. -/
  registryFails : Bool
  /-- The faults of a zone. -/
  zone : String → Faults scheme
  /-- Reading the configuration throws. -/
  configReadFails : Bool
  /-- Writing the configuration. -/
  configWrite : Write

/-- A run between two of its steps. -/
structure FileProgress where
  /-- The files so far. -/
  files : Files
  /-- The registry in memory. -/
  registry : Registry
  /-- Assets that the run has minted, with their zones. -/
  minted : List (String × Address)

/-- The part of a run that ends by going on, or by an exception. -/
abbrev FilePart := Except FileProgress FileProgress

/-- What a part has done, however it ends. -/
def FilePart.done : FilePart → FileProgress
  | .ok p => p
  | .error p => p

variable {scheme : KeyScheme}

/-- The wallet preflight and `loadRegistry`. -/
def begin (input : Surroundings scheme) (files : Files) : FilePart :=
  if input.walletFails = true ∨ input.balance < 50000000 then .error ⟨files, [], []⟩
  else
    match files.registryFile with
    | none => .ok ⟨files, [], []⟩
    | some text =>
      if input.registryFails = true then .error ⟨files, [], []⟩
      else
        match loadRegistry text with
        | none => .error ⟨files, [], []⟩
        | some registry => .ok ⟨files, registry, []⟩

/-- After a text is written to a key file, however it ends. -/
def FileProgress.withKeyFile (p : FileProgress) (write : Write) (name : String) (text : Text) :
    FileProgress :=
  { p with files := { p.files with
      keyFiles := Function.update p.files.keyFiles name (file write none text) } }

/-- `loadOrCreateZoneKeypair`: the address of the zone's key. -/
def loadOrCreateZoneKeypair (faults : Faults scheme) (p : FileProgress) (z : Zone) :
    Except FileProgress (Address × FileProgress) :=
  if faults.keyFails = true then .error p
  else
    match p.files.keyFiles z.file with
    | some text =>
      match loadKey scheme text with
      | none => .error p
      | some owner => .ok (owner, p)
    | none =>
      let q := p.withKeyFile faults.keyWrite z.file (keyFile faults.generated.secretKey)
      if faults.keyWrite = .done then .ok (faults.generated.address, q) else .error q

/-- The registry has the zone and the asset is found with the right owner. -/
def isMinted (faults : Faults scheme) (p : FileProgress) (z : Zone) (owner : Address) : Bool :=
  match p.registry.get z.zone with
  | none => false
  | some existing =>
    (if faults.fetchFails = true then none else p.files.assets existing.mint) = some owner

/-- After `sendAndConfirm`, however it ends: the asset is minted, if the transaction is
executed and its address unused. -/
def FileProgress.submit (p : FileProgress) (faults : Faults scheme) (z : Zone) (owner : Address) :
    FileProgress :=
  if (faults.submission = .confirmed ∨ faults.submission = .unconfirmed) ∧
      p.files.assets faults.signer.text = none then
    { p with
      files := { p.files with
        assets := Function.update p.files.assets faults.signer.text (some owner) }
      minted := p.minted ++ [(z.zone, faults.signer)] }
  else p

/-- After `saveRegistry` with the new asset, however it ends. -/
def FileProgress.save (p : FileProgress) (faults : Faults scheme) (z : Zone) (owner : Address) :
    FileProgress :=
  let registry := p.registry.set z.zone ⟨faults.signer.text, owner.text, z.name⟩
  { p with
    files := { p.files with
      registryFile := file faults.save p.files.registryFile (stringify registry) }
    registry := registry }

/-- The fresh mint of a zone. A transaction that is confirmed with an error is recorded
like any other. -/
def mintOnFiles (faults : Faults scheme) (p : FileProgress) (z : Zone) (owner : Address) :
    FilePart :=
  let q := p.submit faults z owner
  if faults.submission = .failed ∨
      (faults.submission = .confirmed ∧ p.files.assets faults.signer.text = none) then
    if faults.save = .done then .ok (q.save faults z owner) else .error (q.save faults z owner)
  else .error q

/-- The loop body for one zone. -/
def registerOnFiles (input : Surroundings scheme) (p : FileProgress) (z : Zone) : FilePart := do
  let (owner, p) ← loadOrCreateZoneKeypair (input.zone z.zone) p z
  if isMinted (input.zone z.zone) p z owner then .ok p
  else mintOnFiles (input.zone z.zone) p z owner

/-- `patchConfig` at the end of a run; an unchanged text is not written. -/
def patchFile (input : Surroundings scheme) (p : FileProgress) : FilePart :=
  if input.configReadFails = true then .error p
  else
    match patchConfig p.registry p.files.config with
    | .error _ => .error p
    | .ok after =>
      if after = p.files.config then .ok p
      else
        let config := input.configWrite.text p.files.config after
        if input.configWrite = .done then .ok { p with files := { p.files with config := config } }
        else .error { p with files := { p.files with config := config } }

/-- The `main` function of the script. -/
def mainOnFiles (input : Surroundings scheme) (files : Files) : FilePart := do
  let p ← begin input files
  let p ← zones.foldlM (registerOnFiles input) p
  patchFile input p

/-- One run of the script on its files. -/
def runOnFiles (files : Files) (input : Surroundings scheme) : Files × RunResult :=
  ((mainOnFiles input files).done.files,
    ⟨(mainOnFiles input files).done.minted, (mainOnFiles input files).isOk⟩)

/-- The script on its files, as a machine whose steps are whole runs. -/
def fileScript (scheme : KeyScheme) : Machine Files (Surroundings scheme) RunResult := ⟨runOnFiles⟩

end Script

section Refinement

variable {scheme : KeyScheme} {files : Files} {p : FileProgress} {x : FilePart} {y : Part}

/-- The faults of a zone, as a run on values has them. -/
def Faults.seen (faults : Faults scheme) : ZoneFaults where
  keyFails := faults.keyFails
  generated := faults.generated.address
  keyWrite := faults.keyWrite
  fetchFails := faults.fetchFails
  signer := faults.signer
  submission := faults.submission
  save := faults.save

/-- The faults of a run, as a run on values has them. -/
def Surroundings.seen (input : Surroundings scheme) : RunFaults where
  walletFails := input.walletFails
  balance := input.balance
  registryFails := input.registryFails
  zone zone := (input.zone zone).seen
  configReadFails := input.configReadFails
  configWrite := input.configWrite

section Contents

variable {α : Type} {read : Text → Option α} {new : Text} {a : α}

/-- What a file holds for a reader. -/
def contents (read : Text → Option α) : Option Text → Stored α
  | none => .absent
  | some text =>
    match read text with
    | none => .unreadable
    | some a => .value a

theorem contents_value {text : Text} (h : read text = some a) :
    contents read (some text) = .value a := by
  simp only [contents, h]

theorem contents_unreadable {text : Text} (h : read text = none) :
    contents read (some text) = .unreadable := by
  simp only [contents, h]

/-- A write of a text whose front parts cannot be read is one of its value. -/
theorem contents_file (hnew : read new = some a)
    (hfront : ∀ n, read (new.dropLast.take n) = none) (write : Write) (old : Option Text) :
    contents read (file write old new) = write.stored (contents read old) a := by
  cases write with
  | done => exact contents_value hnew
  | late => exact contents_value hnew
  | cut n => exact contents_unreadable (hfront n)
  | refused => rfl

/-- What holds of the old text, of the new one and of its front parts holds after a
write. -/
theorem file_text {P : Text → Prop} {write : Write} {old : Option Text} {text : Text}
    (hold : ∀ text, old = some text → P text) (hnew : P new)
    (hfront : ∀ n, P (new.dropLast.take n)) (h : file write old new = some text) : P text := by
  cases write with
  | done =>
    cases h
    exact hnew
  | late =>
    cases h
    exact hnew
  | cut n =>
    cases h
    exact hfront n
  | refused => exact hold text h

end Contents

/-- The values in the files. -/
def Files.values (scheme : KeyScheme) (files : Files) : World where
  assets := files.assets
  keys name := contents (loadKey scheme) (files.keyFiles name)
  registry := contents loadRegistry files.registryFile
  config := files.config

/-- A key of digits alone, which an object puts in front of all others. -/
def isIndex (key : String) : Bool := key ≠ "" && key.toList.all Char.isDigit

/-- The registry has the order of its keys when it is an object. -/
structure Regular (registry : Registry) : Prop where
  /-- No key stands twice. -/
  distinct : Distinct registry
  /-- No key is an index. -/
  unindexed : ∀ m ∈ registry, isIndex m.1 = false

/-- The text is a registry, or what is left of one that is cut off. -/
def RegistryText (text : Text) : Prop :=
  ∃ registry, Regular registry ∧ (parse text = some (registryJson registry) ∨
    ∃ n, text = (stringify registry).dropLast.take n)

/-- The text is an array of bytes, or what is left of one that is cut off. -/
def KeyText (text : Text) : Prop :=
  ∃ bytes : List UInt8, parse text = some (.array (bytes.map byteJson)) ∨
    ∃ n, text = (keyFile bytes).dropLast.take n

/-- The files hold what the script writes into them, whole or cut off. -/
structure Sound (files : Files) : Prop where
  /-- The key files. -/
  keys : ∀ name text, files.keyFiles name = some text → KeyText text
  /-- The registry file. -/
  registry : ∀ text, files.registryFile = some text → RegistryText text

/-- The values of a run on files. -/
def FileProgress.values (scheme : KeyScheme) (p : FileProgress) : Progress :=
  ⟨p.files.values scheme, p.registry, p.minted⟩

/-- The files are sound, and the registry in memory is regular. -/
structure Consistent (p : FileProgress) : Prop where
  /-- The files. -/
  files : Sound p.files
  /-- The registry in memory. -/
  registry : Regular p.registry

theorem regular_nil : Regular [] := ⟨List.nodup_nil, List.forall_mem_nil _⟩

theorem Regular.set {registry : Registry} (h : Regular registry) {z : Zone} (hz : z ∈ zones)
    (entry : AgentEntry) : Regular (registry.set z.zone entry) := by
  have hzones : ∀ z ∈ zones, isIndex z.zone = false := by decide
  refine ⟨h.distinct.set z.zone entry, fun m hm => ?_⟩
  rcases Registry.mem_set hm with rfl | hm
  · exact hzones z hz
  · exact h.unindexed m hm

/-- A registry that is loaded from a sound file is regular. -/
theorem RegistryText.regular {text : Text} (h : RegistryText text) {registry : Registry}
    (hload : loadRegistry text = some registry) : Regular registry := by
  obtain ⟨written, hregular, hparse | ⟨n, rfl⟩⟩ := h
  · rw [loadRegistry, hparse, Option.bind_some, registryJson, registryOf,
      foldlM_addMember [] hregular.distinct] at hload
    cases hload
    exact hregular
  · rw [loadRegistry, loadRegistry_front] at hload
    cases hload

/-- A part of a run on files does what a part of a run on values does. -/
inductive Simulates (scheme : KeyScheme) : FilePart → Part → Prop where
  /-- Both go on. -/
  | ok {p : FileProgress} (h : Consistent p) : Simulates scheme (.ok p) (.ok (p.values scheme))
  /-- Both end by an exception. -/
  | error {p : FileProgress} {q : Progress} (h : Sound p.files)
    (hworld : q.world = p.files.values scheme) (hminted : q.minted = p.minted) :
    Simulates scheme (.error p) (.error q)

namespace Simulates

theorem failed (h : Sound p.files) :
    Simulates scheme (.error p) (.error (p.values scheme)) := .error h rfl rfl

theorem bind {f : FileProgress → FilePart} {g : Progress → Part} (h : Simulates scheme x y)
    (hnext : ∀ p, Consistent p → Simulates scheme (f p) (g (p.values scheme))) :
    Simulates scheme (x >>= f) (y >>= g) := by
  cases h with
  | ok h => exact hnext _ h
  | error h hworld hminted => exact .error h hworld hminted

theorem foldlM {input : Surroundings scheme} {rows : List Zone} (h : Consistent p)
    (hstep : ∀ p, ∀ z ∈ rows, Consistent p → Simulates scheme (registerOnFiles input p z)
      (registerZone input.seen (p.values scheme) z)) :
    Simulates scheme (rows.foldlM (registerOnFiles input) p)
      (rows.foldlM (registerZone input.seen) (p.values scheme)) := by
  induction rows generalizing p with
  | nil => exact .ok h
  | cons z rows ih =>
    rw [List.foldlM_cons, List.foldlM_cons]
    exact (hstep p z List.mem_cons_self h).bind fun q hq =>
      ih hq fun r y hy => hstep r y (List.mem_cons_of_mem z hy)

theorem done (h : Simulates scheme x y) :
    Sound x.done.files ∧ y.done.world = x.done.files.values scheme ∧
      y.done.minted = x.done.minted ∧ y.isOk = x.isOk := by
  cases h with
  | ok h => exact ⟨h.files, rfl, rfl, rfl⟩
  | error h hworld hminted => exact ⟨h, hworld, hminted, rfl⟩

end Simulates

theorem begin_simulates (h : Sound files) (input : Surroundings scheme) :
    Simulates scheme (begin input files) (preflight input.seen (files.values scheme)) := by
  have herror : Simulates scheme (.error ⟨files, [], []⟩)
      (.error (start (files.values scheme))) := .error h rfl rfl
  have hstart : start (files.values scheme) = (⟨files, loaded (contents loadRegistry
      files.registryFile), []⟩ : FileProgress).values scheme := rfl
  unfold begin preflight
  change Simulates scheme _ (if input.walletFails = true ∨ input.balance < 50000000 then _ else _)
  by_cases hwallet : input.walletFails = true ∨ input.balance < 50000000
  · rw [if_pos hwallet, if_pos hwallet]
    exact herror
  · rw [if_neg hwallet, if_neg hwallet]
    have hregistry : (files.values scheme).registry =
        contents loadRegistry files.registryFile := rfl
    rw [hregistry]
    cases hfile : files.registryFile with
    | none =>
      rw [hstart, hfile]
      exact .ok ⟨h, regular_nil⟩
    | some text =>
      cases hload : loadRegistry text with
      | none =>
        rw [contents_unreadable hload]
        dsimp only
        rw [hload]
        split_ifs
        · exact herror
        · exact herror
      | some registry =>
        rw [hfile, contents_value hload] at hstart
        rw [contents_value hload]
        dsimp only
        rw [hload]
        change Simulates scheme _ (if input.registryFails = true then _ else _)
        split_ifs
        · exact herror
        · rw [hstart]
          exact .ok ⟨h, (h.registry text hfile).regular hload⟩

/-- A new text in a key file is a new value there. -/
theorem contents_update (read : Text → Option Address) (keyFiles : String → Option Text)
    (name : String) (text : Option Text) :
    (fun other => contents read (Function.update keyFiles name text other)) =
      Function.update (fun other => contents read (keyFiles other)) name (contents read text) := by
  funext other
  by_cases hother : other = name
  · subst hother
    rw [Function.update_self, Function.update_self]
  · rw [Function.update_of_ne hother, Function.update_of_ne hother]

/-- Where no key is made, the values stay. -/
theorem withKey_kept (faults : Faults scheme) (p : FileProgress) (z : Zone)
    (hcase : faults.keyFails = true ∨ p.files.keyFiles z.file ≠ none) :
    withKey faults.seen (p.values scheme) z = p.values scheme := by
  have hkeys : (p.values scheme).world.keys z.file =
      contents (loadKey scheme) (p.files.keyFiles z.file) := rfl
  have hold : keysAfter faults.seen (p.values scheme).world z = (p.values scheme).world.keys := by
    refine if_neg fun hnew => ?_
    rcases hcase with hfails | hfile
    · exact nomatch hfails.symm.trans hnew.1
    · obtain ⟨text, htext⟩ := Option.ne_none_iff_exists'.mp hfile
      rw [hkeys, htext] at hnew
      cases hload : loadKey scheme text with
      | none => exact nomatch (contents_unreadable hload).symm.trans hnew.2
      | some owner => exact nomatch (contents_value hload).symm.trans hnew.2
  rw [withKey, hold]

/-- A new key is read back from its file, or not at all if this is cut off. -/
theorem withKeyFile_values (faults : Faults scheme) (p : FileProgress) (z : Zone)
    (hfails : faults.keyFails = false) (hfile : p.files.keyFiles z.file = none) :
    (p.withKeyFile faults.keyWrite z.file (keyFile faults.generated.secretKey)).values scheme =
      withKey faults.seen (p.values scheme) z := by
  have hread := loadKey_keyFile faults.generated
  have hfront : ∀ n, loadKey scheme ((keyFile faults.generated.secretKey).dropLast.take n) =
      none := by
    intro n
    rw [loadKey, loadKey_front]
    rfl
  have hkeys : (p.values scheme).world.keys z.file =
      contents (loadKey scheme) (p.files.keyFiles z.file) := rfl
  have hnew : keysAfter faults.seen (p.values scheme).world z =
      Function.update (p.values scheme).world.keys z.file
        (faults.keyWrite.stored .absent faults.generated.address) := by
    refine if_pos ⟨hfails, ?_⟩
    rw [hkeys, hfile]
    rfl
  have hupdate := contents_update (loadKey scheme) p.files.keyFiles z.file
    (file faults.keyWrite none (keyFile faults.generated.secretKey))
  rw [contents_file hread hfront] at hupdate
  rw [withKey, hnew, FileProgress.values, FileProgress.withKeyFile, Files.values]
  dsimp only
  rw [hupdate]
  rfl

/-- A new key file leaves the files sound. -/
theorem withKeyFile_sound (h : Sound p.files) (write : Write) (name : String)
    (secretKey : List UInt8) : Sound (p.withKeyFile write name (keyFile secretKey)).files := by
  refine ⟨fun other text htext => ?_, h.registry⟩
  change Function.update p.files.keyFiles name _ other = some text at htext
  by_cases hother : other = name
  · rw [hother, Function.update_self] at htext
    have hparse := parse_write (List.forall_mem_nil _) (keyJson_readable secretKey)
    have hnone : ∀ text, (none : Option Text) = some text → KeyText text := nofun
    exact file_text hnone ⟨secretKey, Or.inl hparse⟩ (fun n => ⟨secretKey, Or.inr ⟨n, rfl⟩⟩) htext
  · rw [Function.update_of_ne hother] at htext
    exact h.keys other text htext

/-- Loading or creating a key does what it does in the run on values. -/
theorem loadOrCreate_simulates (h : Consistent p) (faults : Faults scheme) (z : Zone) :
    (∃ q, loadOrCreateZoneKeypair faults p z = .error q ∧
      ownerOf faults.seen (p.values scheme).world z = none ∧ Sound q.files ∧
      q.values scheme = withKey faults.seen (p.values scheme) z) ∨
    ∃ owner q, loadOrCreateZoneKeypair faults p z = .ok (owner, q) ∧
      ownerOf faults.seen (p.values scheme).world z = some owner ∧ Consistent q ∧
      q.values scheme = withKey faults.seen (p.values scheme) z := by
  have hkeys : (p.values scheme).world.keys z.file =
      contents (loadKey scheme) (p.files.keyFiles z.file) := rfl
  have hkept := withKey_kept faults p z
  unfold loadOrCreateZoneKeypair ownerOf
  change (∃ q, (if faults.keyFails = true then _ else _) = _ ∧
    (if faults.keyFails = true then _ else _) = _ ∧ _) ∨ ∃ owner q,
    (if faults.keyFails = true then _ else _) = _ ∧
    (if faults.keyFails = true then _ else _) = _ ∧ _
  by_cases hfails : faults.keyFails = true
  · rw [if_pos hfails, if_pos hfails]
    exact Or.inl ⟨p, rfl, rfl, h.files, (hkept (Or.inl hfails)).symm⟩
  · rw [if_neg hfails, if_neg hfails, hkeys]
    cases hfile : p.files.keyFiles z.file with
    | some text =>
      have hold := (hkept (Or.inr (by rw [hfile]; exact Option.some_ne_none text))).symm
      cases hload : loadKey scheme text with
      | none =>
        rw [contents_unreadable hload]
        dsimp only
        rw [hload]
        exact Or.inl ⟨p, rfl, rfl, h.files, hold⟩
      | some owner =>
        rw [contents_value hload]
        dsimp only
        rw [hload]
        exact Or.inr ⟨owner, p, rfl, rfl, h, hold⟩
    | none =>
      have hvalues := withKeyFile_values faults p z (Bool.eq_false_of_not_eq_true hfails) hfile
      have hsound := withKeyFile_sound h.files faults.keyWrite z.file faults.generated.secretKey
      dsimp only [contents]
      change (∃ q, (if faults.keyWrite = .done then _ else _) = _ ∧
        (if faults.keyWrite = .done then _ else _) = _ ∧ _) ∨ ∃ owner q,
        (if faults.keyWrite = .done then _ else _) = _ ∧
        (if faults.keyWrite = .done then _ else _) = _ ∧ _
      by_cases hwrite : faults.keyWrite = .done
      · rw [if_pos hwrite, if_pos hwrite]
        exact Or.inr ⟨_, _, rfl, rfl, ⟨hsound, h.registry⟩, hvalues⟩
      · rw [if_neg hwrite, if_neg hwrite]
        exact Or.inl ⟨_, rfl, rfl, hsound, hvalues⟩

theorem isMinted_eq (faults : Faults scheme) (q : FileProgress) (z : Zone) (owner : Address) :
    isMinted faults q z owner = alreadyMinted faults.seen (q.values scheme) z owner := rfl

/-- Submitting a mint does what it does in the run on values. -/
theorem submit_values (p : FileProgress) (faults : Faults scheme) (z : Zone) (owner : Address) :
    (p.submit faults z owner).values scheme = submitted faults.seen (p.values scheme) z owner ∧
      (p.submit faults z owner).registry = p.registry ∧
      (p.submit faults z owner).files.keyFiles = p.files.keyFiles ∧
      (p.submit faults z owner).files.registryFile = p.files.registryFile := by
  unfold FileProgress.submit submitted lands
  simp only [decide_eq_true_eq]
  change (if (faults.submission = .confirmed ∨ faults.submission = .unconfirmed) ∧
    p.files.assets faults.signer.text = none then _ else _ : FileProgress).values scheme =
    (if (faults.submission = .confirmed ∨ faults.submission = .unconfirmed) ∧
    p.files.assets faults.signer.text = none then _ else _) ∧ _
  split_ifs
  · exact ⟨rfl, rfl, rfl, rfl⟩
  · exact ⟨rfl, rfl, rfl, rfl⟩

/-- Saving the registry does what it does in the run on values. -/
theorem save_values (h : Consistent p) (faults : Faults scheme) {z : Zone} (hz : z ∈ zones)
    (owner : Address) :
    (p.save faults z owner).values scheme = saved faults.seen (p.values scheme) z owner ∧
      Consistent (p.save faults z owner) := by
  have hregular : Regular (recorded faults.seen (p.values scheme) z owner) := h.registry.set hz _
  have hread := loadRegistry_stringify hregular.distinct
  have hfront : ∀ n, loadRegistry ((stringify (recorded faults.seen (p.values scheme) z
      owner)).dropLast.take n) = none := by
    intro n
    rw [loadRegistry, loadRegistry_front]
    rfl
  have hparse : parse (stringify (recorded faults.seen (p.values scheme) z owner)) =
      some (registryJson (recorded faults.seen (p.values scheme) z owner)) := by
    rw [stringify_eq_write]
    exact parse_write gap_blank (registryJson_readable _)
  refine ⟨?_, ⟨⟨h.files.keys, fun text htext => ?_⟩, hregular⟩⟩
  · have hfile := contents_file hread hfront faults.save p.files.registryFile
    exact congrArg (fun registry => (⟨{ p.files.values scheme with registry := registry },
      recorded faults.seen (p.values scheme) z owner, p.minted⟩ : Progress)) hfile
  · exact file_text h.files.registry ⟨_, hregular, Or.inl hparse⟩
      (fun n => ⟨_, hregular, Or.inr ⟨n, rfl⟩⟩) htext

/-- The mint of a zone does what it does in the run on values. -/
theorem mint_simulates (h : Consistent p) (faults : Faults scheme) {z : Zone} (hz : z ∈ zones)
    (owner : Address) :
    Simulates scheme (mintOnFiles faults p z owner)
      (mintZone faults.seen (p.values scheme) z owner) := by
  obtain ⟨hsubmitted, hregistry, hkeyFiles, hregistryFile⟩ := submit_values p faults z owner
  have hconsistent : Consistent (p.submit faults z owner) := by
    refine ⟨⟨?_, ?_⟩, ?_⟩
    · rw [hkeyFiles]
      exact h.files.keys
    · rw [hregistryFile]
      exact h.files.registry
    · rw [hregistry]
      exact h.registry
  obtain ⟨hsaved, hsound⟩ := save_values hconsistent faults hz owner
  have hreturns : returns faults.seen (p.values scheme) = false ↔
      ¬(faults.submission = .failed ∨
        (faults.submission = .confirmed ∧ p.files.assets faults.signer.text = none)) :=
    decide_eq_false_iff_not
  unfold mintOnFiles mintZone
  dsimp only
  rw [← hsubmitted, ← hsaved]
  by_cases hreturn : faults.submission = .failed ∨
      (faults.submission = .confirmed ∧ p.files.assets faults.signer.text = none)
  · rw [if_pos hreturn, if_neg fun hno => hreturns.mp hno hreturn]
    change Simulates scheme _ (if faults.save = .done then _ else _)
    split_ifs
    · exact .ok hsound
    · exact .failed hsound.files
  · rw [if_neg hreturn, if_pos (hreturns.mpr hreturn)]
    exact .failed hconsistent.files

/-- The loop body does what it does in the run on values. -/
theorem register_simulates (input : Surroundings scheme) (p : FileProgress) {z : Zone}
    (hz : z ∈ zones) (h : Consistent p) :
    Simulates scheme (registerOnFiles input p z)
      (registerZone input.seen (p.values scheme) z) := by
  have hseen : input.seen.zone z.zone = (input.zone z.zone).seen := rfl
  unfold registerOnFiles registerZone
  rcases loadOrCreate_simulates h (input.zone z.zone) z with
    ⟨q, hload, hkey, hsound, hvalues⟩ | ⟨owner, q, hload, hkey, hq, hvalues⟩
  · rw [hload, hseen]
    dsimp only
    rw [hkey, ← hvalues]
    exact .failed hsound
  · rw [hload, hseen]
    dsimp only
    rw [hkey, ← hvalues]
    dsimp only
    rw [← isMinted_eq]
    change Simulates scheme (if isMinted _ q z owner = true then _ else _) _
    split_ifs
    · exact .ok hq
    · exact mint_simulates hq _ hz owner

/-- The patch does what it does in the run on values. -/
theorem patch_simulates (h : Consistent p) (input : Surroundings scheme) :
    Simulates scheme (patchFile input p) (patch input.seen (p.values scheme)) := by
  unfold patchFile patch
  change Simulates scheme _ (if input.configReadFails = true then _ else
    match patchConfig p.registry p.files.config with
    | .error _ => _
    | .ok after => if after = p.files.config then _ else if input.configWrite = .done then _
      else _)
  cases patchConfig p.registry p.files.config with
  | error text =>
    dsimp only
    split_ifs
    · exact .failed h.files
    · exact .failed h.files
  | ok after =>
    dsimp only
    split_ifs
    · exact .failed h.files
    · exact .ok h
    · exact .ok ⟨⟨h.files.keys, h.files.registry⟩, h.registry⟩
    · exact .error ⟨h.files.keys, h.files.registry⟩ rfl rfl

/-- A run on files does what a run on the values in them does. -/
theorem main_simulates (h : Sound files) (input : Surroundings scheme) :
    Simulates scheme (mainOnFiles input files) (main input.seen (files.values scheme)) := by
  unfold mainOnFiles main registerZones
  rw [bind_assoc]
  refine (begin_simulates h input).bind fun p hp => ?_
  refine Simulates.bind (.foldlM hp fun q z hz => register_simulates input q hz) fun q hq => ?_
  exact patch_simulates hq input

/-- The script on its files, seen as the script on the values in them. -/
def valuesView (scheme : KeyScheme) :
    (fileScript scheme).View script Sound (fun _ => True) where
  state := Files.values scheme
  input _ input := some input.seen
  output _ result := result
  invariant files input h _ := (main_simulates h input).done.1
  visible files input j h _ hj := by
    cases hj
    obtain ⟨-, hworld, hminted, hok⟩ := (main_simulates h input).done
    change run (files.values scheme) input.seen = ((runOnFiles files input).1.values scheme,
      (runOnFiles files input).2)
    rw [run, runOnFiles, hworld, hminted, hok]
  invisible _ _ _ _ h := absurd h (Option.some_ne_none _)

theorem valuesView_inputs (files : Files) (inputs : List (Surroundings scheme)) :
    (valuesView scheme).inputs files inputs = inputs.map Surroundings.seen := by
  induction inputs generalizing files with
  | nil => rfl
  | cons input inputs ih =>
    rw [Machine.View.inputs, ih]
    rfl

theorem valuesView_outputs (files : Files) (inputs : List (Surroundings scheme)) :
    (valuesView scheme).outputs files inputs = (fileScript scheme).outputs files inputs := by
  induction inputs generalizing files with
  | nil => rfl
  | cons input inputs ih =>
    rw [Machine.View.outputs, ih]
    rfl

/-- No file holds a text that cannot be read. -/
structure Intact (w : World) : Prop where
  /-- The registry. -/
  registry : w.registry ≠ .unreadable
  /-- The keys. -/
  keys : ∀ name, w.keys name ≠ .unreadable

/-- No write of a key or of the registry is cut off. -/
def Whole (input : RunFaults) : Prop :=
  ∀ zone n, (input.zone zone).keyWrite ≠ .cut n ∧ (input.zone zone).save ≠ .cut n

theorem stored_intact {α : Type} {write : Write} (hwrite : ∀ n, write ≠ .cut n) {old : Stored α}
    (hold : old ≠ .unreadable) (new : α) : write.stored old new ≠ .unreadable := by
  cases write with
  | done => exact nofun
  | late => exact nofun
  | cut n => exact absurd rfl (hwrite n)
  | refused => exact hold

/-- Without a write that is cut off the loop body leaves no file unreadable. -/
theorem registerZone_intact {input : RunFaults} (hinput : Whole input) {p : Progress}
    (h : Intact p.world) (z : Zone) :
    Ends (fun q => Intact q.world) (fun q => Intact q.world) (registerZone input p z) := by
  have hkeyed : Intact (withKey (input.zone z.zone) p z).world := by
    refine ⟨h.registry, fun name => ?_⟩
    change keysAfter (input.zone z.zone) p.world z name ≠ _
    unfold keysAfter
    split_ifs
    · by_cases hname : name = z.file
      · rw [hname, Function.update_self]
        have habsent : (Stored.absent : Stored Address) ≠ .unreadable := nofun
        exact stored_intact (fun n => (hinput z.zone n).1) habsent _
      · rw [Function.update_of_ne hname]
        exact h.keys name
    · exact h.keys name
  have hsubmitted : ∀ owner, Intact
      (submitted (input.zone z.zone) (withKey (input.zone z.zone) p z) z owner).world := by
    intro owner
    unfold submitted
    split_ifs
    · exact ⟨hkeyed.registry, hkeyed.keys⟩
    · exact hkeyed
  have hsaved : ∀ owner, Intact (saved (input.zone z.zone)
      (submitted (input.zone z.zone) (withKey (input.zone z.zone) p z) z owner) z owner).world :=
    fun owner => ⟨stored_intact (fun n => (hinput z.zone n).2) (hsubmitted owner).registry _,
      (hsubmitted owner).keys⟩
  have heffect := registerZone_effect input p z
  generalize registerZone input p z = part at heffect ⊢
  cases heffect with
  | unkeyed _ => exact hkeyed
  | found _ _ => exact hkeyed
  | unrecorded _ _ _ => exact hsubmitted _
  | unsaved _ _ _ _ => exact hsaved _
  | recorded _ _ _ _ => exact hsaved _

theorem run_intact {w : World} (h : Intact w) {input : RunFaults} (hinput : Whole input) :
    Intact (run w input).1 := by
  have hloop : Ends (fun q => Intact q.world) (fun q => Intact q.world)
      (registerZones input w) :=
    Ends.zones (Ends.preflight h h) fun y p _ hp => registerZone_intact hinput hp y
  have hworld := hloop.done fun _ hp => hp
  obtain ⟨config, finished, hrun⟩ := run_world w input
  rw [hrun]
  exact ⟨hworld.registry, hworld.keys⟩

/-- Runs without a write that is cut off leave no file unreadable. -/
theorem runs_intact {w : World} (h : Intact w) (inputs : List RunFaults)
    (hinputs : ∀ input ∈ inputs, Whole input) : Intact (script.run w inputs) := by
  induction inputs generalizing w with
  | nil => exact h
  | cons input inputs ih =>
    exact ih (run_intact h (hinputs input List.mem_cons_self)) fun later hlater =>
      hinputs later (List.mem_cons_of_mem _ hlater)

/-- A checkout without files. -/
def freshFiles (assets : String → Option Address) (config : Text) : Files :=
  ⟨assets, fun _ => none, none, config⟩

theorem freshFiles_sound (assets : String → Option Address) (config : Text) :
    Sound (freshFiles assets config) :=
  ⟨fun _ _ h => (nomatch h), fun _ h => (nomatch h)⟩

/-- Runs on files of the script, whole or cut off, are the runs on the values in them:
they mint and finish alike, and leave such files again, with the values that these
leave. If no write is cut off, what could be read before can be read after them. -/
theorem runs_on_values (scheme : KeyScheme) (files : Files) (h : Sound files)
    (inputs : List (Surroundings scheme)) :
    ((fileScript scheme).run files inputs).values scheme =
        script.run (files.values scheme) (inputs.map Surroundings.seen) ∧
      (fileScript scheme).outputs files inputs =
        script.outputs (files.values scheme) (inputs.map Surroundings.seen) ∧
      Sound ((fileScript scheme).run files inputs) ∧
      (Intact (files.values scheme) → (∀ input ∈ inputs, Whole input.seen) →
        Intact (((fileScript scheme).run files inputs).values scheme)) := by
  have hview := (valuesView scheme).run_view files inputs h fun _ _ => trivial
  rw [valuesView_inputs, valuesView_outputs] at hview
  refine ⟨hview.1, hview.2.symm, ?_, fun hintact hwhole => ?_⟩
  · exact (fileScript scheme).run_invariant (I := Sound)
      (fun files input hfiles => (main_simulates hfiles input).done.1) h inputs
  · have hvalues : ((fileScript scheme).run files inputs).values scheme =
        script.run (files.values scheme) (inputs.map Surroundings.seen) := hview.1
    rw [hvalues]
    refine runs_intact hintact _ fun input hinput => ?_
    obtain ⟨faults, hfaults, rfl⟩ := List.mem_map.mp hinput
    exact hwhole faults hfaults

/-- Keys of 64 bytes, all with one address. -/
def demoScheme : KeyScheme :=
  fun secretKey => if secretKey.length = 64 then some observerKey else none

/-- A run whose only fault is in saving the observer's mint. -/
def demoSurroundings (save : Write) : Surroundings demoScheme where
  walletFails := false
  balance := 1000000000
  registryFails := false
  zone zone :=
    ⟨false, ⟨List.replicate 64 7, observerKey, rfl⟩, .done, false,
      if zone = "read" then observerAsset else if zone = "compute" then analystAsset
        else guardianAsset, .confirmed, if zone = "read" then save else .done⟩
  configReadFails := false
  configWrite := .done

/-- A second run finds in the files what the first one has minted; after a write that
is cut off it does nothing. -/
theorem runs_on_values_demo :
    (fileScript demoScheme).outputs (freshFiles (fun _ => none) demoConfig)
        [demoSurroundings .done, demoSurroundings .done] =
      [⟨[("read", observerAsset), ("compute", analystAsset), ("execute", guardianAsset)], true⟩,
        ⟨[], true⟩] ∧
    (fileScript demoScheme).outputs (freshFiles (fun _ => none) demoConfig)
        [demoSurroundings (.cut 20), demoSurroundings .done] =
      [⟨[("read", observerAsset)], false⟩, ⟨[], false⟩] := by
  have hvalues := runs_on_values demoScheme (freshFiles (fun _ => none) demoConfig)
    (freshFiles_sound _ _) [demoSurroundings .done, demoSurroundings .done]
  have hcut := runs_on_values demoScheme (freshFiles (fun _ => none) demoConfig)
    (freshFiles_sound _ _) [demoSurroundings (.cut 20), demoSurroundings .done]
  rw [hvalues.2.1, hcut.2.1]
  constructor
  · decide +kernel
  · decide +kernel

end Refinement

section Torn

variable {scheme : KeyScheme} {files : Files} {text : Text}

/-- A run that cannot read the registry ends before it does anything. -/
theorem run_unreadable (hfile : files.registryFile = some text) (hbad : loadRegistry text = none)
    (input : Surroundings scheme) : runOnFiles files input = (files, ⟨[], false⟩) := by
  have hbegin : begin input files = .error ⟨files, [], []⟩ := by
    unfold begin
    rw [hfile]
    dsimp only
    rw [hbad]
    split_ifs <;> rfl
  have hmain : mainOnFiles input files = .error ⟨files, [], []⟩ := by
    rw [mainOnFiles, hbegin]
    rfl
  rw [runOnFiles, hmain]
  rfl

/-- A registry that is written only in part is never taken for a registry: after
a write that is cut off, every run ends before it mints or writes anything. -/
theorem torn_registry_stops (scheme : KeyScheme) (files : Files) (registry : Registry)
    (front cut : Text) (hfile : files.registryFile = some front)
    (hcut : stringify registry = front ++ cut) (hne : cut ≠ [])
    (inputs : List (Surroundings scheme)) :
    (fileScript scheme).run files inputs = files ∧
      ∀ result ∈ (fileScript scheme).outputs files inputs, result = ⟨[], false⟩ := by
  have hbad : loadRegistry front = none := by
    rw [stringify_eq_write] at hcut
    rw [loadRegistry, parse_cut gap_blank (registryJson_readable registry)
      (registryJson_open registry) hcut hne]
    rfl
  have hstep : ∀ input, (fileScript scheme).step files input = (files, ⟨[], false⟩) :=
    fun input => run_unreadable hfile hbad input
  induction inputs with
  | nil => exact ⟨rfl, List.forall_mem_nil _⟩
  | cons input inputs ih =>
    rw [Machine.run_cons, Machine.outputs_cons, hstep]
    refine ⟨ih.1, fun result hresult => ?_⟩
    rcases List.mem_cons.mp hresult with rfl | hlater
    · rfl
    · exact ih.2 result hlater

/-- A registry without its last brace. -/
theorem torn_registry_stops_demo :
    (fileScript demoScheme).run ⟨fun _ => none, fun _ => none,
        some (stringify [("read", observerEntry)]).dropLast, []⟩ [demoSurroundings .done] =
      ⟨fun _ => none, fun _ => none, some (stringify [("read", observerEntry)]).dropLast, []⟩ :=
  (torn_registry_stops demoScheme _ [("read", observerEntry)]
    (stringify [("read", observerEntry)]).dropLast ['\x7d'] rfl (by decide +kernel) (by decide)
    [demoSurroundings .done]).1

end Torn

end RiskClaw.RegistryFile
