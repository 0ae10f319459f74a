import RiskClaw.JsonPrefixes
import RiskClaw.AgentRegistration
import Mathlib.Data.List.Nodup

/-!
# The texts in the files of the registration script

Between its runs the script keeps the registry and the keys of the zones in
JSON files. A registry and a key are read back as they were written, and cannot
be read where the write was cut off.
-/

namespace RiskClaw.RegistryFile

open ConfigPatch AgentRegistration JsonText

section Registry

/-- An entry of the registry as a JSON object. -/
def entryJson (entry : AgentEntry) : Json :=
  .object [("mint".toList, .string entry.mint.toList),
    ("pubkey".toList, .string entry.pubkey.toList), ("name".toList, .string entry.name.toList)]

/-- A registry as a JSON object. -/
def registryJson (registry : Registry) : Json :=
  .object (registry.map fun m => (m.1.toList, entryJson m.2))

/-- `value[key]` for an object; of two members with one key the later one counts. -/
def property (members : List (Text × Json)) (key : String) : Option Json :=
  List.lookup key.toList members.reverse

/-- A property that is a string. -/
def stringProperty (members : List (Text × Json)) (key : String) : Option String :=
  match property members key with
  | some (.string s) => some (String.ofList s)
  | _ => none

/-- The entry of the registry that a value is. -/
def entryOf : Json → Option AgentEntry
  | .object members => do
    let mint ← stringProperty members "mint"
    let pubkey ← stringProperty members "pubkey"
    let name ← stringProperty members "name"
    some ⟨mint, pubkey, name⟩
  | _ => none

/-- The registry with one more member of its object. -/
def addMember (registry : Registry) (m : Text × Json) : Option Registry :=
  (entryOf m.2).map fun entry => registry.set (String.ofList m.1) entry

/-- The registry that a value is. -/
def registryOf : Json → Option Registry
  | .object members => members.foldlM addMember []
  | _ => none

/-- `loadRegistry` where there is a file. -/
def loadRegistry (text : Text) : Option Registry := (parse text).bind registryOf

/-- No key stands twice in a registry. -/
def Distinct (registry : Registry) : Prop := (registry.map Prod.fst).Nodup

theorem write_entry (entry : AgentEntry) :
    write [' ', ' '] [' ', ' '] (entryJson entry) = stringifyEntry entry := by
  simp only [entryJson, write, writeMembers, stringifyEntry, ConfigPatch.member, List.append_assoc,
    List.append_nil]
  rfl

theorem write_agents (registry : Registry) :
    writeMembers [' ', ' '] [' ', ' '] (registry.map fun m => (m.1.toList, entryJson m.2)) =
      registry.flatMap fun m => ",".toList ++ stringifyAgent m := by
  induction registry with
  | nil => rfl
  | cons m registry ih =>
    rw [List.map_cons, writeMembers, write_entry, ih, List.flatMap_cons, stringifyAgent,
      ConfigPatch.member]
    simp only [List.append_assoc, List.cons_append]
    rfl

/-- The script's text of a registry is that of its JSON value. -/
theorem stringify_eq_write (registry : Registry) :
    stringify registry = write [' ', ' '] [] (registryJson registry) := by
  cases registry with
  | nil => rfl
  | cons m registry =>
    rw [registryJson, List.map_cons, write, stringify]
    dsimp only [List.nil_append]
    rw [write_entry, write_agents, stringifyAgent, ConfigPatch.member]
    simp only [List.append_assoc]
    rfl

theorem registryJson_readable (registry : Registry) : Readable (registryJson registry) := by
  refine .object fun m hm => ?_
  obtain ⟨a, -, rfl⟩ := List.mem_map.mp hm
  refine .object fun m hm => ?_
  simp only [List.mem_cons, List.not_mem_nil, or_false] at hm
  rcases hm with rfl | rfl | rfl
  · exact .string _
  · exact .string _
  · exact .string _

/-- A property that is found as a string. -/
theorem stringProperty_eq {members : List (Text × Json)} {key s : String}
    (h : property members key = some (.string s.toList)) :
    stringProperty members key = some s := by
  rw [stringProperty, h]
  exact congrArg some String.ofList_toList

theorem entryOf_entryJson (entry : AgentEntry) : entryOf (entryJson entry) = some entry := by
  rw [entryJson, entryOf, stringProperty_eq (s := entry.mint) rfl,
    stringProperty_eq (s := entry.pubkey) rfl, stringProperty_eq (s := entry.name) rfl]
  rfl

/-- A new key is put at the end. -/
theorem set_of_not_mem {registry : Registry} {zone : String}
    (h : zone ∉ registry.map Prod.fst) (entry : AgentEntry) :
    registry.set zone entry = registry ++ [(zone, entry)] := by
  induction registry with
  | nil => rfl
  | cons m registry ih =>
    rw [List.map_cons, List.mem_cons, not_or] at h
    rw [Registry.set, if_neg h.1, ih h.2]
    rfl

/-- Setting an entry keeps the keys, or adds the one of the entry. -/
theorem keys_set (registry : Registry) (zone : String) (entry : AgentEntry) :
    (registry.set zone entry).map Prod.fst =
      if zone ∈ registry.map Prod.fst then registry.map Prod.fst
      else registry.map Prod.fst ++ [zone] := by
  induction registry with
  | nil => rfl
  | cons m registry ih =>
    rw [Registry.set]
    by_cases hkey : zone = m.1
    · rw [if_pos hkey, List.map_cons, List.map_cons, if_pos (by simp [hkey])]
    · rw [if_neg hkey, List.map_cons, List.map_cons, ih]
      by_cases hmem : zone ∈ registry.map Prod.fst
      · rw [if_pos hmem, if_pos (List.mem_cons_of_mem _ hmem)]
      · rw [if_neg hmem, if_neg (by simp [hkey, hmem])]
        rfl

theorem Distinct.set {registry : Registry} (h : Distinct registry) (zone : String)
    (entry : AgentEntry) : Distinct (registry.set zone entry) := by
  unfold Distinct
  rw [keys_set]
  split_ifs with hmem
  · exact h
  · exact List.nodup_append.mpr ⟨h, List.nodup_singleton zone, by
      rintro a ha b hb rfl
      exact hmem (List.mem_singleton.mp hb ▸ ha)⟩

/-- The members of an object are added one by one. -/
theorem foldlM_addMember (front : Registry) {registry : Registry}
    (h : Distinct (front ++ registry)) :
    (registry.map fun m => (m.1.toList, entryJson m.2)).foldlM addMember front =
      some (front ++ registry) := by
  induction registry generalizing front with
  | nil =>
    rw [List.append_nil]
    rfl
  | cons m registry ih =>
    have hnew : m.1 ∉ front.map Prod.fst := by
      intro hmem
      rw [Distinct, List.map_append, List.map_cons] at h
      exact (List.nodup_append.mp h).2.2 _ hmem _ List.mem_cons_self rfl
    have hstep : addMember front (m.1.toList, entryJson m.2) = some (front ++ [m]) := by
      rw [addMember, entryOf_entryJson, String.ofList_toList, Option.map_some,
        set_of_not_mem hnew]
    have hsplit : front ++ m :: registry = front ++ [m] ++ registry := by simp
    rw [List.map_cons, List.foldlM_cons, hstep, hsplit]
    exact ih _ (hsplit ▸ h)

theorem gap_blank : Blank [' ', ' '] := by
  intro c hc
  simp only [List.mem_cons, List.not_mem_nil, or_false, or_self] at hc
  rw [hc]
  rfl

/-- A registry that the script saves is read back, whatever its strings are. -/
theorem loadRegistry_stringify {registry : Registry} (h : Distinct registry) :
    loadRegistry (stringify registry) = some registry := by
  rw [loadRegistry, stringify_eq_write, parse_write gap_blank (registryJson_readable registry)]
  exact foldlM_addMember [] h

end Registry

section Keys

/-- `Keypair.fromSecretKey`: the address of the key with these bytes, or an exception. -/
abbrev KeyScheme := List UInt8 → Option Address

/-- A generated key. -/
structure Keypair (scheme : KeyScheme) where
  /-- The bytes of its secret part. -/
  secretKey : List UInt8
  /-- Its address. -/
  address : Address
  /-- The address belongs to the bytes. -/
  valid : scheme secretKey = some address

/-- A byte as a JSON number. -/
def byteJson (b : UInt8) : Json := .number (Nat.toDigits 10 b.toNat)

/-- `JSON.stringify(Array.from(secretKey))`. -/
def keyFile (secretKey : List UInt8) : Text := write [] [] (.array (secretKey.map byteJson))

/-- The number of some digits. -/
def digitsValue (digits : Text) : ℕ := digits.foldl (fun n c => 10 * n + (c.toNat - 48)) 0

/-- An element of `Uint8Array.from`, for a number of digits alone. -/
def byteOf : Json → Option UInt8
  | .number numeral =>
    if numeral.all Char.isDigit = true then some (UInt8.ofNat (digitsValue numeral)) else none
  | _ => none

/-- The bytes that an array of numbers stands for. -/
def bytesOf : Json → Option (List UInt8)
  | .array items => items.mapM byteOf
  | _ => none

/-- The address of the key in a file, or an exception. -/
def loadKey (scheme : KeyScheme) (text : Text) : Option Address :=
  ((parse text).bind bytesOf).bind scheme

/-- Every byte is read back from its digits. -/
theorem byteJson_read (b : UInt8) : Readable (byteJson b) ∧ byteOf (byteJson b) = some b := by
  have hdigits : ∀ n < 256, readNumber .start (Nat.toDigits 10 n) = some (Nat.toDigits 10 n, []) ∧
      (Nat.toDigits 10 n).all Char.isDigit = true ∧ digitsValue (Nat.toDigits 10 n) = n := by
    decide +kernel
  obtain ⟨hnumeral, hall, hvalue⟩ := hdigits b.toNat b.toNat_lt
  refine ⟨.number hnumeral, ?_⟩
  rw [byteJson, byteOf, if_pos hall, hvalue, UInt8.ofNat_toNat]

/-- A key that the script has written is read back. -/
theorem loadKey_keyFile {scheme : KeyScheme} (k : Keypair scheme) :
    loadKey scheme (keyFile k.secretKey) = some k.address := by
  have hreadable : Readable (.array (k.secretKey.map byteJson)) := by
    refine .array fun v hv => ?_
    obtain ⟨b, -, rfl⟩ := List.mem_map.mp hv
    exact (byteJson_read b).1
  have hbytes : ∀ bytes : List UInt8, (bytes.map byteJson).mapM byteOf = some bytes := by
    intro bytes
    induction bytes with
    | nil => rfl
    | cons b bytes ih =>
      rw [List.map_cons, List.mapM_cons, (byteJson_read b).2, ih]
      rfl
  rw [loadKey, keyFile, parse_write (List.forall_mem_nil _) hreadable]
  change ((List.map byteJson k.secretKey).mapM byteOf).bind scheme = _
  rw [hbytes]
  exact k.valid

end Keys

section Cut

/-- What a write leaves that is cut off is a proper front part of the text. -/
theorem front_append {text : Text} (h : text ≠ []) (n : ℕ) :
    text = text.dropLast.take n ++ (text.dropLast.drop n ++ [text.getLast h]) := by
  rw [← List.append_assoc, List.take_append_drop, List.dropLast_concat_getLast]

/-- A value in brackets that is cut off is not read as anything. -/
theorem parse_front {gap : Text} (hgap : Blank gap) {v : Json} (hv : Readable v)
    (hopen : ∃ c ∈ openers, (write gap [] v).head? = some c) (n : ℕ) :
    parse ((write gap [] v).dropLast.take n) = none := by
  have hne : write gap [] v ≠ [] := by
    obtain ⟨c, -, hhead⟩ := hopen
    intro hnil
    rw [hnil] at hhead
    cases hhead
  exact parse_cut hgap hv hopen (front_append hne n) (List.concat_ne_nil _ _)

theorem registryJson_open (registry : Registry) :
    ∃ c ∈ openers, (write [' ', ' '] [] (registryJson registry)).head? = some c := by
  cases registry with
  | nil => exact ⟨'\x7b', by decide, rfl⟩
  | cons m registry =>
    refine ⟨'\x7b', by decide, ?_⟩
    rw [registryJson, List.map_cons, write]
    rfl

theorem keyJson_open (bytes : List UInt8) :
    ∃ c ∈ openers, (write [] [] (.array (bytes.map byteJson))).head? = some c := by
  cases bytes with
  | nil => exact ⟨'[', by decide, rfl⟩
  | cons b bytes =>
    refine ⟨'[', by decide, ?_⟩
    rw [List.map_cons, write]
    rfl

/-- A registry that is cut off cannot be loaded. -/
theorem loadRegistry_front (registry : Registry) (n : ℕ) :
    parse ((stringify registry).dropLast.take n) = none := by
  rw [stringify_eq_write]
  exact parse_front gap_blank (registryJson_readable registry) (registryJson_open registry) n

theorem keyJson_readable (bytes : List UInt8) : Readable (.array (bytes.map byteJson)) := by
  refine .array fun v hv => ?_
  obtain ⟨b, -, rfl⟩ := List.mem_map.mp hv
  exact (byteJson_read b).1

/-- A key that is cut off cannot be loaded. -/
theorem loadKey_front (secretKey : List UInt8) (n : ℕ) :
    parse ((keyFile secretKey).dropLast.take n) = none :=
  parse_front (List.forall_mem_nil _) (keyJson_readable secretKey) (keyJson_open secretKey) n

end Cut

end RiskClaw.RegistryFile
