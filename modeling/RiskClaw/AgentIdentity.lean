import RiskClaw.AgentRegistration
import RiskClaw.ConfigGrammar

/-!
# The identity of an agent over the runs of the registration script

A zone is live when the registry file has a mint for it that is on the chain and
owned by the key of the zone. Later runs keep this mint, in the registry and in the
shared configuration, unless one of them takes a failed question for a negative
answer and replaces it, or leaves a file cut off that had it.
-/

namespace RiskClaw.AgentRegistration

open ReactiveMachine ConfigPatch ConfigGrammar

/-- The registry file holds an entry for the zone with this mint. -/
def Records (z : Zone) (mint : String) (file : Stored Registry) : Prop :=
  ∃ registry entry, file = .value registry ∧ registry.get z.zone = some entry ∧ entry.mint = mint

/-- The registry holds a mint for the zone that is on the chain and owned by the key
of the zone. -/
def Live (z : Zone) (mint : String) (w : World) : Prop :=
  Records z mint w.registry ∧
    ∃ owner, w.assets mint = some owner ∧ w.keys z.file = .value owner

/-- During a run: the zone is live, and no asset has been minted for it. -/
structure Kept (z : Zone) (mint : String) (p : Progress) : Prop where
  /-- The zone is live. -/
  live : Live z mint p.world
  /-- The run has not minted for the zone. -/
  unminted : ∀ m ∈ p.minted, m.1 ≠ z.zone

/-- The registry in memory is the one in the file. -/
def InFile (p : Progress) : Prop := p.world.registry = .value p.registry

section Kept

variable {z y : Zone} {mint : String} {p q : Progress} {faults : ZoneFaults} {input : RunFaults}
  {owner : Address}

/-- Since a run undoes no ownership, only the registry and the mints are to be
looked at. -/
theorem Kept.of_extends (h : Kept z mint p) (hext : Extends p q)
    (hrecords : Records z mint q.world.registry) (hunminted : ∀ m ∈ q.minted, m.1 ≠ z.zone) :
    Kept z mint q := by
  obtain ⟨-, holder, hasset, hkey⟩ := h.live
  have hasset' := hext.assets mint holder hasset
  have hkey' := hext.keys z.file holder hkey
  exact ⟨⟨hrecords, holder, hasset', hkey'⟩, hunminted⟩

theorem Kept.keyed (h : Kept z mint p) (faults : ZoneFaults) (y : Zone) :
    Kept z mint (withKey faults p y) :=
  h.of_extends (Extends.withKey faults p y) h.live.1 h.unminted

/-- A key that is there is the one that is read. -/
theorem owner_of_held {holder : Address} (hheld : p.world.keys z.file = .value holder)
    (hkey : ownerOf faults p.world z = some owner) : faults.keyFails = false ∧ owner = holder := by
  unfold ownerOf at hkey
  by_cases hfails : faults.keyFails = true
  · rw [if_pos hfails] at hkey
    cases hkey
  · rw [if_neg hfails, hheld] at hkey
    exact ⟨Bool.eq_false_of_not_eq_true hfails, (Option.some.inj hkey).symm⟩

/-- A mint for another zone, and one that is not executed, is none for this zone. -/
theorem Kept.submits (h : Kept z mint p) (faults : ZoneFaults)
    (hother : y.zone ≠ z.zone ∨ lands faults p = false)
    (owner : Address) : Kept z mint (submitted faults p y owner) := by
  refine h.of_extends (Extends.submitted faults p y owner) ?_ ?_
  · rw [(submitted_registry faults p y owner).1]
    exact h.live.1
  · unfold submitted
    split_ifs with hlands
    · intro m hm
      rcases List.mem_append.mp hm with hm | hm
      · exact h.unminted m hm
      · rw [List.mem_singleton.mp hm]
        exact hother.resolve_right (by rw [hlands]; exact nofun)
    · exact h.unminted

/-- Saving keeps a mint that the registry in memory has, unless the file is cut off. -/
theorem Kept.saves (h : Kept z mint p) (hcut : ∀ n, faults.save ≠ .cut n)
    (hentry : faults.save ≠ .refused →
      ∃ entry, (recorded faults p y owner).get z.zone = some entry ∧ entry.mint = mint) :
    Kept z mint (saved faults p y owner) := by
  refine h.of_extends (Extends.saved faults p y owner) ?_ h.unminted
  change Records z mint (faults.save.stored p.world.registry (recorded faults p y owner))
  cases hsave : faults.save with
  | done =>
    obtain ⟨entry, hget, hmint⟩ := hentry (by rw [hsave]; exact nofun)
    exact ⟨_, entry, rfl, hget, hmint⟩
  | late =>
    obtain ⟨entry, hget, hmint⟩ := hentry (by rw [hsave]; exact nofun)
    exact ⟨_, entry, rfl, hget, hmint⟩
  | cut n => exact absurd hsave (hcut n)
  | refused => exact h.live.1

/-- The registry in memory has the mint that the file has. -/
theorem Kept.entry (h : Kept z mint p) (hfile : InFile p) :
    ∃ entry, p.registry.get z.zone = some entry ∧ entry.mint = mint := by
  obtain ⟨registry, entry, hregistry, hget, hmint⟩ := h.live.1
  cases hfile.symm.trans hregistry
  exact ⟨entry, hget, hmint⟩

/-- In this zone the run writes the registry file, and the write is cut off. -/
def CutsRegistry (input : RunFaults) (p : Progress) (y : Zone) : Prop :=
  ∃ owner n, ownerOf (input.zone y.zone) p.world y = some owner ∧
    alreadyMinted (input.zone y.zone) p y owner = false ∧
    returns (input.zone y.zone) p = true ∧ (input.zone y.zone).save = .cut n

/-- A new asset is minted, or a transaction that minted none is recorded. -/
def Replaces (faults : ZoneFaults) (p : Progress) (mint : String) : Prop :=
  lands faults p = true ∨
    faults.submission = .failed ∧ faults.save ≠ .refused ∧ faults.signer.text ≠ mint

/-- The key of the zone is read, the question about the recorded asset fails, and it
is replaced. -/
def ReplacesAt (input : RunFaults) (p : Progress) (z : Zone) (mint : String) : Prop :=
  (input.zone z.zone).keyFails = false ∧ (input.zone z.zone).fetchFails = true ∧
    Replaces (input.zone z.zone) p mint

/-- A write to its end leaves the registry in memory in the file. -/
theorem inFile_saved (hsave : faults.save = .done) : InFile (saved faults p y owner) := by
  rw [InFile, saved, hsave]
  rfl

/-- The loop body for another zone keeps the zone, unless it cuts off the registry. -/
theorem Kept.registerZone_other (h : Kept z mint p) (hfile : InFile p) (hy : y.zone ≠ z.zone)
    (hcut : ¬CutsRegistry input p y) :
    Ends (fun q => Kept z mint q ∧ InFile q) (Kept z mint) (registerZone input p y) := by
  have hkeyed := h.keyed (input.zone y.zone) y
  have hkept := fun owner => hkeyed.submits (input.zone y.zone) (Or.inl hy) owner
  have hregistry := fun owner =>
    (submitted_registry (input.zone y.zone) (withKey (input.zone y.zone) p y) y owner).2
  have hentry : ∀ owner, ∃ entry, (recorded (input.zone y.zone) (submitted (input.zone y.zone)
      (withKey (input.zone y.zone) p y) y owner) y owner).get z.zone = some entry ∧
      entry.mint = mint := by
    intro owner
    obtain ⟨entry, hget, hmint⟩ := h.entry hfile
    refine ⟨entry, ?_, hmint⟩
    rw [recorded, hregistry, Registry.get_set_of_ne hy.symm]
    exact hget
  have heffect := registerZone_effect input p y
  generalize registerZone input p y = part at heffect ⊢
  cases heffect with
  | unkeyed _ => exact hkeyed
  | found _ _ => exact ⟨hkeyed, hfile⟩
  | unrecorded _ _ _ => exact hkept _
  | unsaved hkey hfound hreturns hsave =>
    have hsaves : ∀ n, (input.zone y.zone).save ≠ .cut n := fun n hn =>
      hcut ⟨_, n, hkey, hfound, hreturns, hn⟩
    exact (hkept _).saves hsaves fun _ => hentry _
  | recorded _ _ _ hsave =>
    have hsaves : ∀ n, (input.zone y.zone).save ≠ .cut n := by
      rw [hsave]
      exact nofun
    exact ⟨(hkept _).saves hsaves fun _ => hentry _, inFile_saved hsave⟩

/-- A mint is only tried after a failed question, and then nothing is to be replaced. -/
theorem Kept.unreplaced (h : Kept z mint p) (hfile : InFile p)
    (hsafe : ¬ReplacesAt input p z mint)
    (hkey : ownerOf (input.zone z.zone) p.world z = some owner)
    (hfound : alreadyMinted (input.zone z.zone) p z owner = false) :
    ¬Replaces (input.zone z.zone) p mint := by
  intro hreplaces
  obtain ⟨entry, hget, hmint⟩ := h.entry hfile
  obtain ⟨-, holder, hasset, hheld⟩ := h.live
  obtain ⟨hfails, rfl⟩ := owner_of_held hheld hkey
  refine hsafe ⟨hfails, ?_, hreplaces⟩
  by_contra hasked
  rw [alreadyMinted, hget] at hfound
  simp [fetchAsset, hasked, hmint, hasset] at hfound

/-- What returns without having replaced the mint is recorded under it, or not saved. -/
theorem recorded_of_returns (hreturns : returns faults p = true)
    (hreplaces : ¬Replaces faults p mint) (hsave : faults.save ≠ .refused) (q : Progress) :
    ∃ entry, (recorded faults q z owner).get z.zone = some entry ∧ entry.mint = mint := by
  refine ⟨_, Registry.get_set_self _ _ _, ?_⟩
  by_contra hnew
  refine hreplaces ?_
  rcases of_decide_eq_true hreturns with hfailed | ⟨hconfirmed, hunused⟩
  · exact Or.inr ⟨hfailed, hsave, hnew⟩
  · exact Or.inl (decide_eq_true ⟨Or.inl hconfirmed, hunused⟩)

/-- The loop body for the zone itself keeps it, unless the recorded asset is replaced
or the registry cut off. -/
theorem Kept.registerZone_self (h : Kept z mint p) (hfile : InFile p)
    (hcut : ¬CutsRegistry input p z) (hsafe : ¬ReplacesAt input p z mint) :
    Ends (fun q => Kept z mint q ∧ InFile q) (Kept z mint) (registerZone input p z) := by
  have hkeyed := h.keyed (input.zone z.zone) z
  have hkept : ∀ owner, ¬Replaces (input.zone z.zone) p mint →
      Kept z mint (submitted (input.zone z.zone) (withKey (input.zone z.zone) p z) z owner) := by
    intro owner hreplaces
    exact hkeyed.submits (input.zone z.zone)
      (Or.inr (Bool.eq_false_of_not_eq_true fun hlands => hreplaces (Or.inl hlands))) owner
  have heffect := registerZone_effect input p z
  generalize registerZone input p z = part at heffect ⊢
  cases heffect with
  | unkeyed _ => exact hkeyed
  | found _ _ => exact ⟨hkeyed, hfile⟩
  | unrecorded hkey hfound _ => exact hkept _ (h.unreplaced hfile hsafe hkey hfound)
  | unsaved hkey hfound hreturns hsave =>
    have hreplaces := h.unreplaced hfile hsafe hkey hfound
    have hsaves : ∀ n, (input.zone z.zone).save ≠ .cut n := fun n hn =>
      hcut ⟨_, n, hkey, hfound, hreturns, hn⟩
    exact (hkept _ hreplaces).saves hsaves fun hwritten =>
      recorded_of_returns hreturns hreplaces hwritten _
  | recorded hkey hfound hreturns hsave =>
    have hreplaces := h.unreplaced hfile hsafe hkey hfound
    have hsaves : ∀ n, (input.zone z.zone).save ≠ .cut n := by
      rw [hsave]
      exact nofun
    refine ⟨(hkept _ hreplaces).saves hsaves fun hwritten => ?_, inFile_saved hsave⟩
    exact recorded_of_returns hreturns hreplaces hwritten _

end Kept

section Replaced

variable {z y : Zone} {mint : String} {p : Progress} {input : RunFaults} {owner : Address}

/-- Every entry for the zone, in memory and in the file, has this mint. -/
def Names (z : Zone) (mint : String) : Progress → Prop :=
  Both fun registry => ∀ entry, registry.get z.zone = some entry → entry.mint = mint

theorem Names.registerZone_other (h : Names z mint p) (hy : y.zone ≠ z.zone) (input : RunFaults) :
    Ends (Names z mint) (Names z mint) (registerZone input p y) := by
  refine Both.registerZone h fun registry entry hregistry found hget => ?_
  rw [Registry.get_set_of_ne hy.symm] at hget
  exact hregistry found hget

/-- After a failed question the script goes on to the mint. -/
theorem mintZone_of_failed (hkey : ownerOf (input.zone z.zone) p.world z = some owner)
    (hasked : (input.zone z.zone).fetchFails = true) :
    registerZone input p z =
      mintZone (input.zone z.zone) (withKey (input.zone z.zone) p z) z owner := by
  have hfound : alreadyMinted (input.zone z.zone) (withKey (input.zone z.zone) p z) z owner =
      false := by
    unfold alreadyMinted
    split
    · rfl
    · rw [fetchAsset, if_pos hasked]
      exact decide_eq_false nofun
  unfold registerZone
  dsimp only
  rw [hkey]
  dsimp only
  rw [hfound]
  rfl

/-- A mint that lands shows among those of the run. -/
theorem mintZone_lands (faults : ZoneFaults) (p : Progress) (hlands : lands faults p = true)
    (z : Zone) (owner : Address) :
    (z.zone, faults.signer) ∈ (mintZone faults p z owner).done.minted := by
  have hmem : (z.zone, faults.signer) ∈ (submitted faults p z owner).minted := by
    rw [submitted, if_pos hlands]
    exact List.mem_append_right _ (List.mem_singleton_self _)
  unfold mintZone
  split_ifs
  · exact hmem
  · exact hmem
  · exact hmem

/-- A transaction that minted nothing is recorded like one that did. -/
theorem mintZone_failed {faults : ZoneFaults} (hfailed : faults.submission = .failed)
    (hsave : faults.save ≠ .refused) (p : Progress) (z : Zone) (owner : Address) :
    Ends (Names z faults.signer.text) (Names z faults.signer.text)
      (mintZone faults p z owner) := by
  have hreturns : ¬returns faults p = false := by
    rw [returns, decide_eq_false_iff_not, not_not]
    exact Or.inl hfailed
  have hmemory : ∀ entry, (recorded faults (submitted faults p z owner) z owner).get z.zone =
      some entry → entry.mint = faults.signer.text := by
    intro entry hget
    rw [recorded, Registry.get_set_self] at hget
    cases hget
    rfl
  have hnames : Names z faults.signer.text (saved faults (submitted faults p z owner) z owner) := by
    refine ⟨hmemory, fun registry hregistry => ?_⟩
    change faults.save.stored _ _ = _ at hregistry
    rcases Write.stored_eq_value hregistry with hold | rfl
    · exact absurd hold.1 hsave
    · exact hmemory
  unfold mintZone
  rw [if_neg hreturns]
  split_ifs
  · exact hnames
  · exact hnames

end Replaced

section Tidy

/-- The text of an address contains no `$`. -/
theorem address_plain (a : Address) : '$' ∉ a.text.toList :=
  fun h => absurd (a.valid _ h) (by decide)

/-- The registry file contains no `$`. -/
def TidyFile (w : World) : Prop := ∀ registry, w.registry = .value registry → Plain registry

theorem set_plain {registry : Registry} {z : Zone} (hz : z ∈ zones) (h : Plain registry)
    (mint owner : Address) : Plain (registry.set z.zone ⟨mint.text, owner.text, z.name⟩) := by
  have hzones : ∀ z ∈ zones, '$' ∉ z.zone.toList ∧ '$' ∉ z.name.toList := by decide
  intro m hm
  rcases Registry.mem_set hm with rfl | hm
  · exact ⟨(hzones z hz).1, address_plain _, address_plain _, (hzones z hz).2⟩
  · exact h m hm

theorem registerZones_tidy {w : World} (hw : TidyFile w) (input : RunFaults) :
    Ends (Both Plain) (Both Plain) (registerZones input w) :=
  Both.registerZones (fun _ h => nomatch h) hw fun _ _ hy entry h => set_plain hy h entry.1 entry.2

end Tidy

section Runs

variable {z : Zone} {mint : String} {w : World} {input : RunFaults}

/-- The run comes to the zone and replaces the recorded asset there. -/
def Remints (input : RunFaults) (w : World) (z : Zone) (mint : String) : Prop :=
  ∃ p, Reaches input w z p ∧ ReplacesAt input p z mint

/-- The run comes to a zone in which its write of the registry is cut off. -/
def TearsRegistry (input : RunFaults) (w : World) : Prop :=
  ∃ y p, Reaches input w y p ∧ CutsRegistry input p y

/-- The run comes to the patch, and its write of a changed configuration is cut off
inside or before the new declaration and leaves another text than the old one. -/
def TearsConfig (input : RunFaults) (w : World) : Prop :=
  ∃ p after n, registerZones input w = .ok p ∧ input.configReadFails = false ∧
    patchConfig p.registry w.config = .ok after ∧ after ≠ w.config ∧
    input.configWrite = .cut n ∧ n < (frontOf w.config ++ unclosed p.registry).length ∧
    after.dropLast.take n ≠ w.config

/-- The preflight keeps a live zone. -/
theorem preflight_kept (hw : Live z mint w) (input : RunFaults) :
    Ends (fun p => Kept z mint p ∧ InFile p) (Kept z mint) (preflight input w) := by
  have hkept : Kept z mint (start w) := ⟨hw, fun _ h => nomatch h⟩
  have hfile : InFile (start w) := by
    obtain ⟨⟨registry, entry, hregistry, -⟩, -⟩ := hw
    rw [InFile, start, hregistry]
    rfl
  exact Ends.preflight ⟨hkept, hfile⟩ hkept

/-- A live zone is kept by the loop unless its mint is replaced or the registry cut
off. -/
theorem registerZones_kept (hw : Live z mint w) (hz : z ∈ zones)
    (hremints : ¬Remints input w z mint) (htears : ¬TearsRegistry input w) :
    Ends (fun p => Kept z mint p ∧ InFile p) (Kept z mint) (registerZones input w) := by
  refine Ends.zones (preflight_kept hw input) fun y p hreach hp => ?_
  have hcut : ¬CutsRegistry input p y := fun hcut => htears ⟨y, p, hreach, hcut⟩
  by_cases hy : y = z
  · subst hy
    exact hp.1.registerZone_self hp.2 hcut fun hreplaces => hremints ⟨p, hreach, hreplaces⟩
  · exact hp.1.registerZone_other hp.2 (zones_distinct y hreach.mem z hz hy) hcut

/-- A run that replaces the mint of a zone shows it: by a mint of its own, or by the
entry in the registry. -/
theorem registerZones_remints (hw : Live z mint w) (h : Remints input w z mint) :
    (∃ a, (z.zone, a) ∈ (registerZones input w).done.minted) ∨
      ¬Records z mint (registerZones input w).done.world.registry := by
  obtain ⟨p, hreach, hfails, hasked, hreplaces⟩ := h
  obtain ⟨-, holder, -, hheld⟩ := hw
  have hkey : ownerOf (input.zone z.zone) p.world z = some holder := by
    rw [ownerOf, if_neg (by rw [hfails]; exact Bool.false_ne_true),
      (Extends.reached hreach).keys z.file holder hheld]
  have hbody := mintZone_of_failed hkey hasked
  obtain ⟨back, hback, hrest⟩ := hreach.rest
  rw [hrest, hbody]
  rcases hreplaces with hlands | ⟨hfailed, hsave, hnew⟩
  · refine Or.inl ⟨(input.zone z.zone).signer, ?_⟩
    have hmem :=
      mintZone_lands (input.zone z.zone) (withKey (input.zone z.zone) p z) hlands z holder
    generalize mintZone (input.zone z.zone) (withKey (input.zone z.zone) p z) z holder = part
      at hmem ⊢
    cases part with
    | error q => exact hmem
    | ok q =>
      have hloop := Ends.foldlM back (fun r y _ hr => Extends.step hr input y)
        (Extends.refl q)
      exact (hloop.done fun _ hr => hr).minted _ hmem
  · refine Or.inr ?_
    have hnames := mintZone_failed hfailed hsave (withKey (input.zone z.zone) p z) z holder
    have hends := hnames.bind fun q _ hq => Ends.foldlM back
      (fun r y hy hr => hr.registerZone_other
        (zones_distinct y (hback y hy).1 z hreach.mem (hback y hy).2) input) hq
    rintro ⟨registry, entry, hregistry, hget, hmint⟩
    exact hnew (((hends.done fun _ hr => hr).2 registry hregistry entry hget).symm.trans hmint)

/-- A run that cuts off the registry leaves it unreadable. -/
theorem registerZones_tears (h : TearsRegistry input w) :
    (registerZones input w).done.world.registry = .unreadable := by
  obtain ⟨y, p, hreach, owner, n, hkey, hfound, hreturns, hsave⟩ := h
  obtain ⟨back, -, hrest⟩ := hreach.rest
  have hbody : registerZone input p y = .error (saved (input.zone y.zone)
      (submitted (input.zone y.zone) (withKey (input.zone y.zone) p y) y owner) y owner) := by
    have hdone : ¬(input.zone y.zone).save = .done := by
      rw [hsave]
      exact nofun
    have halready : ¬alreadyMinted (input.zone y.zone) (withKey (input.zone y.zone) p y) y owner =
        true := by
      rw [show alreadyMinted (input.zone y.zone) (withKey (input.zone y.zone) p y) y owner = false
        from hfound]
      exact Bool.false_ne_true
    have hreturned : ¬returns (input.zone y.zone) (withKey (input.zone y.zone) p y) = false := by
      rw [show returns (input.zone y.zone) (withKey (input.zone y.zone) p y) = true from hreturns]
      exact nofun
    unfold registerZone
    dsimp only
    rw [hkey]
    dsimp only
    rw [if_neg halready, mintZone, if_neg hreturned, if_neg hdone]
  rw [hrest, hbody]
  change (input.zone y.zone).save.stored _ _ = _
  rw [hsave]
  rfl

/-- The patch throws and leaves the file, or the file has the new text, or the patch
throws with what its write of another text leaves. -/
theorem patch_cases (input : RunFaults) (p : Progress) :
    patch input p = .error p ∨
    ∃ after, patchConfig p.registry p.world.config = .ok after ∧
      (patch input p = .ok { p with world := { p.world with config := after } } ∨
        input.configReadFails = false ∧ after ≠ p.world.config ∧ input.configWrite ≠ .done ∧
          patch input p = .error { p with world :=
            { p.world with config := input.configWrite.text p.world.config after } }) := by
  unfold patch
  cases hpatch : patchConfig p.registry p.world.config with
  | error text =>
    dsimp only
    split_ifs
    · exact Or.inl rfl
    · exact Or.inl rfl
  | ok after =>
    dsimp only
    split_ifs with hread hsame hwrite
    · exact Or.inl rfl
    · refine Or.inr ⟨after, rfl, Or.inl ?_⟩
      rw [hsame]
    · refine Or.inr ⟨after, rfl, Or.inl ?_⟩
      rw [hwrite]
      rfl
    · exact Or.inr ⟨after, rfl, Or.inr ⟨Bool.eq_false_of_not_eq_true hread, hsame, hwrite, rfl⟩⟩

/-- A run ends by an exception with what the loop has done, or the loop comes to
its end and the patch succeeds, or it throws while it writes another text. -/
theorem run_cases (w : World) (input : RunFaults) :
    run w input = ((registerZones input w).done.world,
      ⟨(registerZones input w).done.minted, false⟩) ∨
    registerZones input w = .ok (registerZones input w).done ∧
    ∃ after, patchConfig (registerZones input w).done.registry w.config = .ok after ∧
      (run w input = ({ (registerZones input w).done.world with config := after },
          ⟨(registerZones input w).done.minted, true⟩) ∨
        input.configReadFails = false ∧ after ≠ w.config ∧ input.configWrite ≠ .done ∧
          run w input = ({ (registerZones input w).done.world with
            config := input.configWrite.text w.config after },
            ⟨(registerZones input w).done.minted, false⟩)) := by
  have hextends := Extends.zones input w
  unfold run main
  cases hzones : registerZones input w with
  | error p => exact Or.inl rfl
  | ok p =>
    rw [hzones] at hextends
    have hconfig : p.world.config = w.config := hextends.config
    have hbind : (Except.ok p >>= fun p => patch input p) = patch input p := rfl
    have hcases := patch_cases input p
    rw [hconfig] at hcases
    rw [hbind]
    rcases hcases with hpatch | ⟨after, hafter, hpatch | ⟨hread, hnew, hwrite, hpatch⟩⟩
    · rw [hpatch]
      exact Or.inl rfl
    · rw [hpatch]
      exact Or.inr ⟨rfl, after, hafter, Or.inl rfl⟩
    · rw [hpatch]
      exact Or.inr ⟨rfl, after, hafter, Or.inr ⟨hread, hnew, hwrite, rfl⟩⟩

/-- Apart from the configuration, the world after a run is that after the loop. -/
theorem run_world (w : World) (input : RunFaults) :
    ∃ config finished, run w input = ({ (registerZones input w).done.world with config := config },
      ⟨(registerZones input w).done.minted, finished⟩) := by
  rcases run_cases w input with hrun | ⟨-, after, -, hrun | ⟨-, -, -, hrun⟩⟩
  · exact ⟨_, _, hrun⟩
  · exact ⟨_, _, hrun⟩
  · exact ⟨_, _, hrun⟩

/-- A run leaves the registry file of its loop. -/
theorem run_registry (w : World) (input : RunFaults) :
    (run w input).1.registry = (registerZones input w).done.world.registry := by
  obtain ⟨config, finished, hrun⟩ := run_world w input
  rw [hrun]

/-- A run shows the mints of its loop. -/
theorem run_minted (w : World) (input : RunFaults) :
    (run w input).2.minted = (registerZones input w).done.minted := by
  obtain ⟨config, finished, hrun⟩ := run_world w input
  rw [hrun]

theorem run_tidy (hw : TidyFile w) (input : RunFaults) : TidyFile (run w input).1 := by
  have htidy := ((registerZones_tidy hw input).done fun _ h => h).2
  rw [TidyFile, run_registry]
  exact htidy

/-- What a write of the configuration leaves, if it does not cut off the declaration:
the old text, or one that declares the registry and no other. -/
theorem write_cases {registry : Registry} {after : Text} (hexposed : Exposed w.config)
    (hplain : Plain registry) (hpatch : patchConfig registry w.config = .ok after)
    {write : Write} (hwhole : ∀ n, write = .cut n →
      n < (frontOf w.config ++ unclosed registry).length → after.dropLast.take n = w.config) :
    write.text w.config after = w.config ∨
      Leads (frontOf w.config) registry (write.text w.config after) := by
  have hleads := patchConfig_leads hplain hexposed hpatch
  cases write with
  | done => exact Or.inr hleads
  | late => exact Or.inr hleads
  | refused => exact Or.inl rfl
  | cut n =>
    by_cases hlength : n < (frontOf w.config ++ unclosed registry).length
    · exact Or.inl (hwhole n rfl hlength)
    · obtain ⟨rest, hafter, -⟩ := patchConfig_written hplain hpatch
      have hbegin : after.dropLast.take n <+: after :=
        (List.take_prefix _ _).trans (List.dropLast_prefix after)
      refine Or.inr (hleads.cut hbegin ?_)
      -- The declaration is followed by its semicolon and the end of its line.
      rw [block_append] at hafter
      have htotal := congrArg List.length hafter
      change _ ≤ (after.dropLast.take n).length
      simp only [List.length_append, List.length_cons, List.length_take, List.length_dropLast]
        at htotal hlength ⊢
      omega

/-- An executed run with the worlds around it. -/
abbrev RunTransition := Transition World RunFaults RunResult

/-- The run has not minted for the zone, the registry still has its mint, and the
configuration declares exactly this registry or, if the run has not come to its end,
is what it was. -/
def Preserves (z : Zone) (mint : String) (t : RunTransition) : Prop :=
  (∀ m ∈ t.output.minted, m.1 ≠ z.zone) ∧
  ∃ registry entry, t.post.registry = .value registry ∧ registry.get z.zone = some entry ∧
    entry.mint = mint ∧
    ((∀ declared, Declares declared t.post.config ↔ declared = registry) ∨
      t.output.finished = false ∧ t.post.config = t.pre.config)

/-- A run that does not tear the configuration leaves it, or leaves one that declares
the registry of its end and no other. -/
theorem config_cases (hw : TidyFile w) (hexposed : Exposed w.config)
    (htears : ¬TearsConfig input w) :
    (run w input).2.finished = false ∧ (run w input).1.config = w.config ∨
      registerZones input w = .ok (registerZones input w).done ∧
        Leads (frontOf w.config) (registerZones input w).done.registry (run w input).1.config := by
  have hplain := ((registerZones_tidy hw input).done fun _ hp => hp).1
  rcases run_cases w input with hrun | ⟨hzones, after, hpatch, hrun | ⟨hread, hnew, -, hrun⟩⟩
  · rw [hrun]
    exact Or.inl ⟨rfl, ((Extends.zones input w).done fun _ hp => hp).config⟩
  · rw [hrun]
    exact Or.inr ⟨hzones, patchConfig_leads hplain hexposed hpatch⟩
  · have hwhole : ∀ n, input.configWrite = .cut n →
        n < (frontOf w.config ++ unclosed (registerZones input w).done.registry).length →
        after.dropLast.take n = w.config := by
      intro n hcut hlength
      by_contra hother
      exact htears ⟨_, after, n, hzones, hread, hpatch, hnew, hcut, hlength, hother⟩
    rw [hrun]
    exact (write_cases hexposed hplain hpatch hwhole).imp (fun hold => ⟨rfl, hold⟩)
      fun hleads => ⟨hzones, hleads⟩

theorem run_exposed (hw : TidyFile w) (hexposed : Exposed w.config)
    (htears : ¬TearsConfig input w) : Exposed (run w input).1.config := by
  rcases config_cases hw hexposed htears with ⟨-, hsame⟩ | ⟨-, hleads⟩
  · rw [hsame]
    exact hexposed
  · exact hleads.exposed

/-- A run neither replaces the mint of the zone nor tears a file. -/
def Careful (z : Zone) (mint : String) (input : RunFaults) (w : World) : Prop :=
  ¬Remints input w z mint ∧ ¬TearsRegistry input w ∧ ¬TearsConfig input w

/-- What a run leaves that mints nothing for a live zone and tears no file. -/
theorem preserves_of_careful (hlive : Live z mint w) (hz : z ∈ zones) (hw : TidyFile w)
    (hexposed : Exposed w.config) (h : Careful z mint input w) :
    Preserves z mint (script.transition w input) := by
  have hends := registerZones_kept hlive hz h.1 h.2.1
  have hkept := hends.done fun _ hp => hp.1
  obtain ⟨registry, entry, hregistry, hget, hmint⟩ := hkept.live.1
  have hunminted : ∀ m ∈ (run w input).2.minted, m.1 ≠ z.zone := by
    rw [run_minted]
    exact hkept.unminted
  have hfile : (run w input).1.registry = .value registry :=
    (run_registry w input).trans hregistry
  refine ⟨hunminted, registry, entry, hfile, hget, hmint, ?_⟩
  rcases config_cases hw hexposed h.2.2 with hsame | ⟨hzones, hleads⟩
  · exact Or.inr hsame
  · -- The loop came to its end, so the registry in memory is the one in the file.
    rw [hzones] at hends
    have hmemory : registry = (registerZones input w).done.registry := by
      have hboth := hregistry.symm.trans hends.2
      injection hboth
    rw [hmemory]
    exact Or.inl hleads.declares_iff

/-- A write of the configuration that is cut off leaves the front part of the new text. -/
theorem run_cut {p : Progress} {after : Text} {n : ℕ} (hzones : registerZones input w = .ok p)
    (hread : input.configReadFails = false) (hpatch : patchConfig p.registry w.config = .ok after)
    (hnew : after ≠ w.config) (hcut : input.configWrite = .cut n) :
    (run w input).1.config = after.dropLast.take n := by
  have hold : p.world.config = w.config := by
    have hextends := Extends.zones input w
    rw [hzones] at hextends
    exact hextends.config
  have hmain : main input w = .error { p with world :=
      { p.world with config := after.dropLast.take n } } := by
    rw [main, hzones]
    change patch input p = _
    rw [patch, if_neg (by rw [hread]; exact Bool.false_ne_true), hold, hpatch]
    dsimp only
    rw [if_neg hnew, if_neg (by rw [hcut]; exact nofun), hcut]
    rfl
  rw [run, hmain]
  rfl

/-- A run that preserves a live zone is careful. -/
theorem careful_of_preserves (hlive : Live z mint w) (hz : z ∈ zones) (hw : TidyFile w)
    (hexposed : Exposed w.config) (h : Preserves z mint (script.transition w input)) :
    Careful z mint input w := by
  obtain ⟨hunminted, registry, entry, hregistry, hget, hmint, hconfig⟩ := h
  have hfile : (registerZones input w).done.world.registry = .value registry :=
    (run_registry w input).symm.trans hregistry
  have hremints : ¬Remints input w z mint := by
    intro hremints
    rcases registerZones_remints hlive hremints with ⟨a, hmem⟩ | hrecords
    · refine hunminted (z.zone, a) ?_ rfl
      change (z.zone, a) ∈ (run w input).2.minted
      rw [run_minted]
      exact hmem
    · exact hrecords ⟨registry, entry, hfile, hget, hmint⟩
  have htears : ¬TearsRegistry input w := fun htears =>
    nomatch (registerZones_tears htears).symm.trans hfile
  refine ⟨hremints, htears, ?_⟩
  rintro ⟨p, after, n, hzones, hread, hpatch, hnew, hcut, hlength, hother⟩
  have hmemory := (registerZones_kept hlive hz hremints htears)
  rw [hzones] at hmemory hfile
  cases hmemory.2.symm.trans hfile
  have hplain : Plain p.registry := by
    have htidy := registerZones_tidy hw input
    rw [hzones] at htidy
    exact htidy.1
  have hleft := run_cut hzones hread hpatch hnew hcut
  have hbegin : after.dropLast.take n <+: after :=
    (List.take_prefix _ _).trans (List.dropLast_prefix after)
  have hshort : (after.dropLast.take n).length <
      (frontOf w.config ++ unclosed p.registry).length := by
    rw [List.length_take]
    exact lt_of_le_of_lt (min_le_left _ _) hlength
  rcases hconfig with hdeclares | ⟨-, hsame⟩
  · have hdeclared := (hdeclares p.registry).mpr rfl
    change Declares p.registry (run w input).1.config at hdeclared
    rw [hleft] at hdeclared
    exact (patchConfig_leads hplain hexposed hpatch).not_declares hbegin hshort hdeclared
  · change (run w input).1.config = w.config at hsame
    rw [hleft] at hsame
    exact hother hsame

/-- A zone that a careful run finds live is live after it. -/
theorem live_after (hlive : Live z mint w) (hz : z ∈ zones) (h : Careful z mint input w) :
    Live z mint (run w input).1 := by
  have hkept := (registerZones_kept hlive hz h.1 h.2.1).done fun _ hp => hp.1
  obtain ⟨config, finished, hrun⟩ := run_world w input
  rw [hrun]
  exact hkept.live

/-- Over a sequence of runs a live zone is preserved by all exactly when all are
careful. -/
theorem all_preserve_iff (hz : z ∈ zones) (later : List RunFaults) {w : World}
    (hlive : Live z mint w) (hw : TidyFile w) (hexposed : Exposed w.config) :
    (∀ t ∈ script.trace w later, Preserves z mint t) ↔
      ∀ t ∈ script.trace w later, Careful z mint t.input t.pre := by
  induction later generalizing w with
  | nil => exact iff_of_true (fun _ h => nomatch h) fun _ h => nomatch h
  | cons input later ih =>
    have hrest := fun h : Careful z mint input w =>
      ih (live_after hlive hz h) (run_tidy hw input) (run_exposed hw hexposed h.2.2)
    rw [Machine.trace_cons, List.forall_mem_cons, List.forall_mem_cons]
    constructor
    · rintro ⟨hpreserves, hlater⟩
      have h := careful_of_preserves hlive hz hw hexposed hpreserves
      exact ⟨h, (hrest h).mp hlater⟩
    · rintro ⟨h, hlater⟩
      exact ⟨preserves_of_careful hlive hz hw hexposed h, (hrest h).mpr hlater⟩

/-- The world after some runs in a checkout without a registry file. -/
def worldAfter (assets : String → Option Address) (keys : String → Stored Address)
    (config : Text) (runs : List RunFaults) : World :=
  script.run (fresh assets keys config) runs

theorem worldAfter_tidy (assets : String → Option Address) (keys : String → Stored Address)
    (config : Text) (runs : List RunFaults) : TidyFile (worldAfter assets keys config runs) := by
  have hfresh : TidyFile (fresh assets keys config) := by
    intro registry h
    cases h
  exact script.run_invariant (I := TidyFile) (fun _ input h => run_tidy h input) hfresh runs

/-- Once a zone is live, no later run mints for it, and the registry and finally
the configuration keep its mint, if and only if no later run replaces the mint
after a failed question or leaves a file cut off that had it. -/
theorem identity_kept_iff (assets : String → Option Address) (keys : String → Stored Address)
    (config : Text) (earlier later : List RunFaults) {z : Zone} (hz : z ∈ zones) {mint : String}
    (hlive : Live z mint (worldAfter assets keys config earlier))
    (hexposed : Exposed (worldAfter assets keys config earlier).config) :
    (∀ t ∈ script.trace (worldAfter assets keys config earlier) later, Preserves z mint t) ↔
      ∀ t ∈ script.trace (worldAfter assets keys config earlier) later,
        ¬Remints t.input t.pre z mint ∧ ¬TearsRegistry t.input t.pre ∧
          ¬TearsConfig t.input t.pre :=
  all_preserve_iff hz later hlive (worldAfter_tidy assets keys config earlier) hexposed

end Runs

/-- A text is base58 if the test of all its characters says so. -/
theorem base58_of_all {text : String} (h : text.toList.all base58.contains = true) :
    ∀ c ∈ text.toList, c ∈ base58 := by
  intro c hc
  exact List.contains_iff_mem.mp (List.all_eq_true.mp h c hc)

/-- The key of the observer. -/
def observerKey : Address :=
  ⟨"EsRmSkrcjfoqEzgh4Wzbo56KqymTZ2NMMy1kxJtHHFRR", base58_of_all (by decide)⟩

/-- The identity asset of the observer. -/
def observerAsset : Address :=
  ⟨"AERmaK7CD7HGp8zFHP3PEGtfEC6QWZUHYh6Xg8YHwLQU", base58_of_all (by decide)⟩

/-- The identity asset of the analyst. -/
def analystAsset : Address :=
  ⟨"Hq5VqNHUNtENWTNTk3ZqJz6jdJExrzw5cUCayAhVUjdo", base58_of_all (by decide)⟩

/-- The identity asset of the guardian. -/
def guardianAsset : Address :=
  ⟨"ERxDBEUU6heys5PrA93tGZwjWucvhY3jJdyQpsFE9YzH", base58_of_all (by decide)⟩

/-- Another asset. -/
def secondAsset : Address :=
  ⟨"DpKAer9JUmzMfyJ3G3k3M7xGHp3WnGrg5Ppv1Uy5a1jB", base58_of_all (by decide)⟩

/-- A run in which every mint lands and every write succeeds; the question about the
observer's asset fails or not. -/
def demoRun (signer : Address) (fetchFails : Bool) : RunFaults where
  walletFails := false
  balance := 1000000000
  registryFails := false
  zone zone :=
    if zone = "read" then ⟨false, observerKey, .done, fetchFails, signer, .confirmed, .done⟩
    else if zone = "compute" then
      ⟨false, observerKey, .done, false, analystAsset, .confirmed, .done⟩
    else ⟨false, observerKey, .done, false, guardianAsset, .confirmed, .done⟩
  configReadFails := false
  configWrite := .done

/-- The row of the observer. -/
def observerZone : Zone := ⟨"read", "Observer", "observer.json"⟩

/-- The registry's entry for the observer. -/
def observerEntry : AgentEntry := ⟨observerAsset.text, observerKey.text, "Observer"⟩

/-- A configuration with nothing but the endpoint. -/
def demoConfig : Text := "export const RPC_ENDPOINT = \"https://api.devnet.solana.com\";\n".toList

/-- The world after a first run to the end. -/
def registered : World :=
  worldAfter (fun _ => none) (fun _ => .absent) demoConfig [demoRun observerAsset false]

theorem registered_live : Live observerZone observerAsset.text registered :=
  ⟨⟨(registerZones (demoRun observerAsset false)
    (fresh (fun _ => none) (fun _ => .absent) demoConfig)).done.registry, observerEntry, by decide,
    by decide, rfl⟩, observerKey, by decide, by decide⟩

/-- While the observer's asset is live, a run in which the question about it
fails mints another one, to the run's regular end. -/
theorem transient_failure_remints :
    Live observerZone observerAsset.text registered ∧
    (run registered (demoRun secondAsset true)).2.minted = [("read", secondAsset)] ∧
    ¬Preserves observerZone observerAsset.text
      (script.transition registered (demoRun secondAsset true)) := by
  have hminted : (run registered (demoRun secondAsset true)).2.minted =
      [("read", secondAsset)] := by
    have hloop : (registerZones (demoRun secondAsset true) registered).done.minted =
        [("read", secondAsset)] := by decide
    exact (run_minted registered (demoRun secondAsset true)).trans hloop
  refine ⟨registered_live, hminted, fun h => ?_⟩
  have hmem : ("read", secondAsset) ∈ (run registered (demoRun secondAsset true)).2.minted := by
    rw [hminted]
    exact List.mem_singleton_self _
  exact h.1 _ hmem rfl

/-- A run in which every question is answered and every write succeeds is careful. -/
theorem careful_of_answered {z : Zone} {mint : String} {input : RunFaults} {w : World}
    (hasked : (input.zone z.zone).fetchFails = false)
    (hsave : ∀ zone, (input.zone zone).save = .done) (hwrite : input.configWrite = .done) :
    Careful z mint input w := by
  refine ⟨?_, ?_, ?_⟩
  · rintro ⟨p, -, -, hfails, -⟩
    exact nomatch hasked.symm.trans hfails
  · rintro ⟨y, p, -, owner, n, -, -, -, hcut⟩
    exact nomatch (hsave y.zone).symm.trans hcut
  · rintro ⟨p, after, n, -, -, -, -, hcut, -⟩
    exact nomatch hwrite.symm.trans hcut

theorem demoRun_careful (signer : Address) (w : World) :
    Careful observerZone observerAsset.text (demoRun signer false) w := by
  refine careful_of_answered rfl (fun zone => ?_) rfl
  change (if zone = "read" then _ else if zone = "compute" then _ else _ : ZoneFaults).save = _
  split_ifs
  · rfl
  · rfl
  · rfl

theorem registered_exposed : Exposed registered.config :=
  run_exposed (w := fresh (fun _ => none) (fun _ => .absent) demoConfig) (fun _ h => nomatch h)
    (by decide +kernel) (demoRun_careful observerAsset _).2.2

/-- A run in which the question is answered keeps the observer's asset. -/
theorem identity_kept_iff_demo :
    Live observerZone observerAsset.text registered ∧ Exposed registered.config ∧
    ∀ t ∈ script.trace registered [demoRun secondAsset false],
      Preserves observerZone observerAsset.text t := by
  refine ⟨registered_live, registered_exposed, (identity_kept_iff (fun _ => none)
    (fun _ => .absent) demoConfig [demoRun observerAsset false] [demoRun secondAsset false]
    (z := observerZone) (by decide) registered_live registered_exposed).mpr ?_⟩
  intro t ht
  rw [List.mem_singleton.mp ht]
  exact demoRun_careful secondAsset registered

end RiskClaw.AgentRegistration
