import RiskClaw.LeftmostSearch
import Mathlib.Data.List.DropRight

/-!
# Patching the shared configuration

`patchConfig` of the registration script rewrites the `DEVNET_AGENTS`
declaration inside the text of the configuration file. A regular expression
finds the old declaration, from its marker to the first line that closes it,
and `String.replace` puts the new one in its place; without a declaration the
new one is appended. Here both work on the characters of the text.
-/

namespace RiskClaw.ConfigPatch

open LeftmostSearch

/-- The text of a file. -/
abbrev Text := List Char

/-- What the registry says about one agent. -/
structure AgentEntry where
  /-- Address of the identity asset. -/
  mint : String
  /-- Address of the agent's key. -/
  pubkey : String
  /-- Name of the agent. -/
  name : String
  deriving DecidableEq

/-- A registry object, in the order of its keys. -/
abbrev Registry := List (String × AgentEntry)

namespace Registry

/-- `registry[zone]`. -/
def get (registry : Registry) (zone : String) : Option AgentEntry := List.lookup zone registry

/-- `registry[zone] = entry`: in place, or as the last key. -/
def set (registry : Registry) (zone : String) (entry : AgentEntry) : Registry :=
  match registry with
  | [] => [(zone, entry)]
  | (key, old) :: rest =>
    if zone = key then (key, entry) :: rest else (key, old) :: set rest zone entry

/-- Setting one zone leaves the others. -/
theorem get_set_of_ne {registry : Registry} {zone other : String} {entry : AgentEntry}
    (h : other ≠ zone) : (registry.set zone entry).get other = registry.get other := by
  induction registry with
  | nil =>
    have hne : (other == zone) = false := beq_false_of_ne h
    rw [set, get, get, List.lookup_cons, hne]
  | cons m registry ih =>
    rw [set]
    split_ifs with hkey
    · have hne : (other == m.1) = false := beq_false_of_ne (hkey ▸ h)
      rw [get, get, List.lookup_cons, List.lookup_cons, hne]
    · rw [get, get, List.lookup_cons, List.lookup_cons]
      cases other == m.1 with
      | true => rfl
      | false => exact ih

/-- The zone that is set has its entry. -/
theorem get_set_self (registry : Registry) (zone : String) (entry : AgentEntry) :
    (registry.set zone entry).get zone = some entry := by
  induction registry with
  | nil => exact List.lookup_cons_self
  | cons m registry ih =>
    rw [set]
    split_ifs with hkey
    · subst hkey
      exact List.lookup_cons_self
    · rw [get, List.lookup_cons, beq_false_of_ne hkey]
      exact ih

/-- Every member of a registry after a write is the new one or an old one. -/
theorem mem_set {registry : Registry} {zone : String} {entry : AgentEntry}
    {m : String × AgentEntry} (h : m ∈ registry.set zone entry) :
    m = (zone, entry) ∨ m ∈ registry := by
  induction registry with
  | nil => exact Or.inl (List.mem_singleton.mp h)
  | cons old registry ih =>
    rw [set] at h
    split_ifs at h with hkey
    · rcases List.mem_cons.mp h with rfl | hm
      · rw [hkey]
        exact Or.inl rfl
      · exact Or.inr (List.mem_cons_of_mem _ hm)
    · rcases List.mem_cons.mp h with rfl | hm
      · exact Or.inr List.mem_cons_self
      · exact (ih hm).imp_right (List.mem_cons_of_mem _)

end Registry

section Json

/-- The characters that stand for one character inside a JSON string. -/
def escape (c : Char) : Text :=
  if c = Char.ofNat 34 then [Char.ofNat 92, Char.ofNat 34]
  else if c = Char.ofNat 92 then [Char.ofNat 92, Char.ofNat 92]
  else if c = Char.ofNat 8 then [Char.ofNat 92, 'b']
  else if c = Char.ofNat 9 then [Char.ofNat 92, 't']
  else if c = Char.ofNat 10 then [Char.ofNat 92, 'n']
  else if c = Char.ofNat 12 then [Char.ofNat 92, 'f']
  else if c = Char.ofNat 13 then [Char.ofNat 92, 'r']
  else if c.toNat < 32 then
    [Char.ofNat 92, 'u', '0', '0', Nat.digitChar (c.toNat / 16), Nat.digitChar (c.toNat % 16)]
  else [c]

/-- A JSON string. -/
def quote (s : String) : Text :=
  Char.ofNat 34 :: s.toList.flatMap escape ++ [Char.ofNat 34]

/-- One member of a JSON object, on a line of its own. -/
def member (indent key : String) (value : Text) : Text :=
  indent.toList ++ quote key ++ ": ".toList ++ value

/-- An entry of the registry, as a nested object. -/
def stringifyEntry (entry : AgentEntry) : Text :=
  "\x7b".toList ++ member "\n    " "mint" (quote entry.mint) ++ ",".toList ++
    member "\n    " "pubkey" (quote entry.pubkey) ++ ",".toList ++
    member "\n    " "name" (quote entry.name) ++ "\n  \x7d".toList

/-- One agent of the registry, under its zone. -/
def stringifyAgent (m : String × AgentEntry) : Text :=
  member "\n  " m.1 (stringifyEntry m.2)

/-- `JSON.stringify(registry, null, 2)`. -/
def stringify : Registry → Text
  | [] => "\x7b\x7d".toList
  | m :: rest =>
    "\x7b".toList ++ stringifyAgent m ++ (rest.flatMap fun m => ",".toList ++ stringifyAgent m) ++
      "\n\x7d".toList

end Json

/-- `export const DEVNET_AGENTS:`. -/
def marker : Text := "export const DEVNET_AGENTS:".toList

/-- The type of the declaration, and its equals sign. -/
def declaredType : Text :=
  " \x7b [zone: string]: \x7b mint: string; pubkey: string; name: string \x7d \x7d = ".toList

/-- The declaration of a registry, after its marker. -/
def declarationOf (registry : Registry) : Text :=
  declaredType ++ stringify registry ++ ";".toList

/-- The declaration that the script writes. -/
def block (registry : Registry) : Text := marker ++ declarationOf registry

/-- A match of the terminator: the characters of its group and what follows. -/
structure Terminator where
  /-- What `(\r?\n|$)` matches. -/
  group : Text
  /-- The text after the match. -/
  rest : Text

/-- `\n};(\r?\n|$)` at one position. -/
def terminator (text : Text) : Option Terminator :=
  match literal "\n\x7d;".toList text with
  | none => none
  | some ('\r' :: '\n' :: rest) => some ⟨['\r', '\n'], rest⟩
  | some ('\n' :: rest) => some ⟨['\n'], rest⟩
  | some [] => some ⟨[], []⟩
  | some _ => none

/-- `export const DEVNET_AGENTS:[\s\S]*?\n};(\r?\n|$)` at one position: the lazy
body and the terminator. -/
def blockRegex (text : Text) : Option (Text × Terminator) :=
  (literal marker text).bind (leftmost terminator)

/-- What a replacement text can refer to. -/
structure Match where
  /-- The text before the match. -/
  before : Text
  /-- The match. -/
  matched : Text
  /-- Its only group. -/
  group : Text
  /-- The text after the match. -/
  after : Text
  deriving DecidableEq

/-- The leftmost match of the expression. -/
def findBlock (text : Text) : Option Match :=
  (leftmost blockRegex text).map fun (before, body, t) =>
    ⟨before, marker ++ body ++ "\n\x7d;".toList ++ t.group, t.group, t.rest⟩

/-- What the characters after a `$` refer to, and how many of them do. -/
def reference (m : Match) : Text → Text × ℕ
  | '$' :: _ => (['$'], 1)
  | '&' :: _ => (m.matched, 1)
  | '1' :: _ => (m.group, 1)
  | '0' :: '1' :: _ => (m.group, 2)
  | [] => (['$'], 0)
  | c :: _ =>
    if c = Char.ofNat 96 then (m.before, 1)
    else if c = Char.ofNat 39 then (m.after, 1)
    else (['$'], 0)

/-- The expansion of a text of which the first characters are already read. -/
def expandFrom (m : Match) : ℕ → Text → Text
  | _, [] => []
  | skip + 1, _ :: text => expandFrom m skip text
  | 0, c :: text =>
    if c = '$' then (reference m text).1 ++ expandFrom m (reference m text).2 text
    else c :: expandFrom m 0 text

/-- A replacement text with its references expanded. -/
def expand (m : Match) (text : Text) : Text := expandFrom m 0 text

/-- White space and line ends, as `trimEnd` removes them. -/
def isWhiteSpace (c : Char) : Bool :=
  c.toNat ∈ [0x9, 0xA, 0xB, 0xC, 0xD, 0x20, 0xA0, 0x1680, 0x2000, 0x2001, 0x2002, 0x2003, 0x2004,
    0x2005, 0x2006, 0x2007, 0x2008, 0x2009, 0x200A, 0x2028, 0x2029, 0x202F, 0x205F, 0x3000, 0xFEFF]

/-- `text.trimEnd()`. -/
def trimEnd (text : Text) : Text := text.rdropWhile isWhiteSpace

/-- The new text that `patchConfig` computes, or the text of its error. -/
def patchConfig (registry : Registry) (before : Text) : Except String Text :=
  match findBlock before with
  | some m => .ok (m.before ++ expand m (block registry ++ ['\n']) ++ m.after)
  | none =>
    if (leftmost (literal marker) before).isSome then
      .error ("DEVNET_AGENTS line found but block regex didn't match — config/devnet.ts shape" ++
        " changed; update the patcher")
    else .ok (trimEnd before ++ "\n\n".toList ++ block registry ++ ['\n'])

/-- What stands in front of the declaration of agents: the text before the first
marker, or else the text that a declaration is appended to. -/
def frontOf (config : Text) : Text :=
  match leftmost (literal marker) config with
  | some (front, _) => front
  | none => trimEnd config ++ "\n\n".toList

section Pieces

/-- The strings of a registry. -/
def strings (registry : Registry) : List String :=
  registry.flatMap fun m => [m.1, m.2.mint, m.2.pubkey, m.2.name]

/-- The agents of a registry in the order of its keys, without its braces. -/
def agentLines : Registry → Text
  | [] => []
  | m :: rest => stringifyAgent m ++ rest.flatMap fun m => ",".toList ++ stringifyAgent m

theorem stringify_eq {registry : Registry} (h : registry ≠ []) :
    stringify registry = "\x7b".toList ++ agentLines registry ++ "\n\x7d".toList := by
  cases registry with
  | nil => exact absurd rfl h
  | cons m rest => simp only [stringify, agentLines, List.append_assoc]

/-- A property of texts that holds of the keys and of the layout of an agent, and
of what is put together from texts with the property. -/
structure Closed (P : Text → Prop) : Prop where
  /-- Putting together. -/
  append : ∀ x y, P x → P y → P (x ++ y)
  /-- The keys of an entry. -/
  key : ∀ k ∈ ["mint", "pubkey", "name"], P (quote k)
  /-- The layout inside an agent. -/
  layout : ∀ t ∈ ["\x7b", "\n    ", "\n  ", ": ", ",", "\n  \x7d"], P t.toList

namespace Closed

variable {P : Text → Prop}

theorem member (h : Closed P) {indent key : String} {value : Text} (hindent : P indent.toList)
    (hkey : P (quote key)) (hvalue : P value) : P (member indent key value) := by
  have hcolon := h.append _ _ (h.append _ _ hindent hkey) (h.layout ": " (by decide))
  exact h.append _ _ hcolon hvalue

theorem entry (h : Closed P) {e : AgentEntry}
    (he : ∀ s ∈ [e.mint, e.pubkey, e.name], P (quote s)) : P (stringifyEntry e) := by
  have hindent : P "\n    ".toList := h.layout "\n    " (by decide)
  have hcomma : P ",".toList := h.layout "," (by decide)
  have hmint := h.append _ _ (h.layout "\x7b" (by decide))
    (h.member hindent (h.key "mint" (by decide)) (he e.mint (by simp)))
  have hpubkey := h.append _ _ (h.append _ _ hmint hcomma)
    (h.member hindent (h.key "pubkey" (by decide)) (he e.pubkey (by simp)))
  have hname := h.append _ _ (h.append _ _ hpubkey hcomma)
    (h.member hindent (h.key "name" (by decide)) (he e.name (by simp)))
  exact h.append _ _ hname (h.layout "\n  \x7d" (by decide))

theorem agent (h : Closed P) {m : String × AgentEntry}
    (hm : ∀ s ∈ [m.1, m.2.mint, m.2.pubkey, m.2.name], P (quote s)) : P (stringifyAgent m) := by
  have hentry := h.entry fun s hs => hm s (List.mem_cons_of_mem _ hs)
  exact h.member (h.layout "\n  " (by decide)) (hm m.1 List.mem_cons_self) hentry

/-- Such a property holds of the agents of a registry if it holds of its strings. -/
theorem agentLines (h : Closed P) {registry : Registry} (hnil : P [])
    (hs : ∀ s ∈ strings registry, P (quote s)) : P (agentLines registry) := by
  have hagent : ∀ m ∈ registry, P (stringifyAgent m) := fun m hm =>
    h.agent fun s hmem => hs s (List.mem_flatMap.mpr ⟨m, hm, hmem⟩)
  cases registry with
  | nil => exact hnil
  | cons m rest =>
    refine h.append _ _ (hagent m List.mem_cons_self) ?_
    have hrest : ∀ m' ∈ rest, P (stringifyAgent m') := fun m' hm' =>
      hagent m' (List.mem_cons_of_mem m hm')
    clear hs hagent
    induction rest with
    | nil => exact hnil
    | cons m' rest ih =>
      rw [List.flatMap_cons]
      have hcomma := h.append _ _ (h.layout "," (by decide)) (hrest m' List.mem_cons_self)
      exact h.append _ _ hcomma (ih fun m'' hm'' => hrest m'' (List.mem_cons_of_mem m' hm''))

end Closed

/-- The characters with a short escape sequence, and its letters. -/
def shortEscapes : List (Char × Char) :=
  [(Char.ofNat 34, Char.ofNat 34), (Char.ofNat 92, Char.ofNat 92), (Char.ofNat 8, 'b'),
    (Char.ofNat 9, 't'), (Char.ofNat 10, 'n'), (Char.ofNat 12, 'f'), (Char.ofNat 13, 'r')]

/-- How a character is escaped. -/
inductive Escaped (c : Char) : Text → Prop where
  /-- By a backslash and a letter. -/
  | short (letter : Char) (h : (c, letter) ∈ shortEscapes) : Escaped c [Char.ofNat 92, letter]
  /-- By its number. -/
  | control (h : c.toNat < 32) :
    Escaped c [Char.ofNat 92, 'u', '0', '0', Nat.digitChar (c.toNat / 16),
      Nat.digitChar (c.toNat % 16)]
  /-- Not at all. -/
  | plain (hcontrol : ¬c.toNat < 32) (hmark : c ≠ Char.ofNat 34) (hslash : c ≠ Char.ofNat 92) :
    Escaped c [c]

theorem escape_escaped (c : Char) : Escaped c (escape c) := by
  unfold escape
  split_ifs with hmark hslash h₃ h₄ h₅ h₆ h₇ hcontrol
  iterate 7
    subst c
    exact .short _ (by decide)
  · exact .control hcontrol
  · exact .plain hcontrol hmark hslash

/-- The characters of the escape sequences. -/
def escapeChars : Text := Char.ofNat 92 :: Char.ofNat 34 :: "btnfru0123456789abcdef".toList

/-- A character is escaped to a sequence, or it is no control character and stands
for itself. -/
theorem mem_escape {c d : Char} (h : d ∈ escape c) :
    d ∈ escapeChars ∨ (d = c ∧ ¬c.toNat < 32) := by
  have hmem : ∀ l : Text, l.all escapeChars.contains = true → d ∈ l → d ∈ escapeChars :=
    fun l hl hd => List.contains_iff_mem.mp (List.all_eq_true.mp hl d hd)
  have hshape := escape_escaped c
  generalize escape c = text at h hshape
  cases hshape with
  | short letter hletter =>
    have hshort : (shortEscapes.all fun p =>
        [Char.ofNat 92, p.2].all escapeChars.contains) = true := by decide
    exact Or.inl (hmem _ (List.all_eq_true.mp hshort _ hletter) h)
  | control hcontrol =>
    have hdigits : ∀ n < 32, [Char.ofNat 92, 'u', '0', '0', Nat.digitChar (n / 16),
        Nat.digitChar (n % 16)].all escapeChars.contains = true := by decide
    exact Or.inl (hmem _ (hdigits c.toNat hcontrol) h)
  | plain hcontrol _ _ => exact Or.inr ⟨List.mem_singleton.mp h, hcontrol⟩

theorem mem_quote {s : String} {d : Char} (h : d ∈ quote s) :
    d = Char.ofNat 34 ∨ ∃ c ∈ s.toList, d ∈ escape c := by
  rw [quote, List.cons_append, List.mem_cons, List.mem_append, List.mem_singleton,
    List.mem_flatMap] at h
  rcases h with hmark | hbody | hmark
  · exact Or.inl hmark
  · exact Or.inr hbody
  · exact Or.inl hmark

end Pieces

section Plain

/-- No string of the registry contains a `$`, which a replacement would expand. -/
def Plain (registry : Registry) : Prop :=
  ∀ m ∈ registry, '$' ∉ m.1.toList ∧ '$' ∉ m.2.mint.toList ∧ '$' ∉ m.2.pubkey.toList ∧
    '$' ∉ m.2.name.toList

theorem Plain.strings {registry : Registry} (h : Plain registry) :
    ∀ s ∈ strings registry, '$' ∉ s.toList := by
  intro s hs
  obtain ⟨m, hm, hmem⟩ := List.mem_flatMap.mp hs
  obtain ⟨hzone, hmint, hpubkey, hname⟩ := h m hm
  simp only [List.mem_cons, List.not_mem_nil, or_false] at hmem
  rcases hmem with rfl | rfl | rfl | rfl
  · exact hzone
  · exact hmint
  · exact hpubkey
  · exact hname

theorem escape_plain {c : Char} (hc : c ≠ '$') : '$' ∉ escape c := by
  intro h
  rcases mem_escape h with hsequence | ⟨heq, -⟩
  · exact absurd hsequence (by decide)
  · exact hc heq.symm

theorem quote_plain {s : String} (hs : '$' ∉ s.toList) : '$' ∉ quote s := by
  intro h
  rcases mem_quote h with hmark | ⟨c, hc, hmem⟩
  · exact absurd hmark (by decide)
  · exact escape_plain (fun he => hs (he ▸ hc)) hmem

theorem plain_closed : Closed fun text => '$' ∉ text where
  append _ _ := List.not_mem_append
  key k hk := by
    have hkeys : ∀ k ∈ ["mint", "pubkey", "name"], '$' ∉ k.toList := by decide
    exact quote_plain (hkeys k hk)
  layout := by decide

theorem stringify_plain {registry : Registry} (h : Plain registry) :
    '$' ∉ stringify registry := by
  by_cases hr : registry = []
  · rw [hr]
    decide
  · have hlines := plain_closed.agentLines List.not_mem_nil fun s hs => quote_plain (h.strings s hs)
    rw [stringify_eq hr]
    refine List.not_mem_append (List.not_mem_append ?_ hlines) ?_
    · decide
    · decide

theorem marker_plain : '$' ∉ marker := by decide

theorem declaredType_plain : '$' ∉ declaredType := by decide

/-- The text of a plain registry contains no `$`. -/
theorem block_plain {registry : Registry} (h : Plain registry) : '$' ∉ block registry := by
  have hend : '$' ∉ ";".toList := by decide
  have htext := List.not_mem_append declaredType_plain (stringify_plain h)
  exact List.not_mem_append marker_plain (List.not_mem_append htext hend)

/-- An expansion leaves a text without `$`. -/
theorem expandFrom_plain (m : Match) {x : Text} (h : '$' ∉ x) (y : Text) :
    expandFrom m 0 (x ++ y) = x ++ expandFrom m 0 y := by
  induction x with
  | nil => rfl
  | cons c x ih =>
    have hc : c ≠ '$' := (List.ne_of_not_mem_cons h).symm
    rw [List.cons_append, expandFrom, if_neg hc, ih (List.not_mem_of_not_mem_cons h)]
    rfl

/-- A text without `$` is its own expansion. -/
theorem expand_plain (m : Match) {text : Text} (h : '$' ∉ text) : expand m text = text := by
  have hexpand := expandFrom_plain m h []
  rw [expandFrom, List.append_nil] at hexpand
  exact hexpand

end Plain

section Declaration

/-- No marker begins in the front part of a text. -/
def Unmarked (front rest : Text) : Prop :=
  ∀ q, q <:+ front → q ≠ [] → literal marker (q ++ rest) = none

/-- What stands after the next marker does not matter for the front part. -/
theorem Unmarked.replace {front x : Text} (h : Unmarked front (marker ++ x)) (y : Text) :
    Unmarked front (marker ++ y) := by
  intro q hq hne
  refine literal_eq_none_iff.mpr fun hpre => ?_
  exact literal_eq_none_iff.mp (h q hq hne) (prefix_before_literal _ hpre)

/-- What a match of the expression says about the text. -/
structure Found (text : Text) (m : Match) : Prop where
  /-- The text is put together from the parts of the match. -/
  split : text = m.before ++ (m.matched ++ m.after)
  /-- The match begins with the marker. -/
  marked : marker <+: m.matched
  /-- The group is an end of line or empty. -/
  lineEnd : ∀ c, m.group.head? = some c → c = '\n' ∨ c = '\r'
  /-- The marker is the first of the text. -/
  unmarked : Unmarked m.before (m.matched ++ m.after)

/-- What the terminator matches. -/
theorem terminator_eq_some {text : Text} {t : Terminator} (h : terminator text = some t) :
    text = "\n\x7d;".toList ++ (t.group ++ t.rest) ∧
      ∀ c, t.group.head? = some c → c = '\n' ∨ c = '\r' := by
  unfold terminator at h
  split at h
  · cases h
  · rename_i rest hline
    cases h
    exact ⟨literal_eq_some_iff.mp hline, fun c hc => Or.inr (Option.some.inj hc).symm⟩
  · rename_i rest hline
    cases h
    exact ⟨literal_eq_some_iff.mp hline, fun c hc => Or.inl (Option.some.inj hc).symm⟩
  · rename_i hline
    cases h
    exact ⟨literal_eq_some_iff.mp hline, fun c hc => nomatch hc⟩
  · cases h

/-- Where the expression matches, the text starts with the marker and has a
terminator after it. -/
theorem blockRegex_eq_some {text body : Text} {t : Terminator}
    (h : blockRegex text = some (body, t)) :
    ∃ rest, text = marker ++ (body ++ rest) ∧ terminator rest = some t := by
  obtain ⟨tail, hmarker, hbody⟩ := Option.bind_eq_some_iff.mp h
  obtain ⟨rest, rfl, ht, -⟩ := leftmost_split hbody
  exact ⟨rest, literal_eq_some_iff.mp hmarker, ht⟩

/-- No marker stands before a place where the expression matches for the first
time: it would be the beginning of an earlier match. -/
theorem no_marker_before {q s : Text} (hs : blockRegex s ≠ none) (hq : blockRegex (q ++ s) = none) :
    ¬marker <+: q ++ s := by
  rintro ⟨tail, htail⟩
  obtain ⟨⟨body, t⟩, hmatch⟩ := Option.ne_none_iff_exists'.mp hs
  obtain ⟨rest, rfl, hterminator⟩ := blockRegex_eq_some hmatch
  have hsearch : leftmost terminator tail = none := by
    rw [blockRegex, ← htail, literal_append] at hq
    exact hq
  have hrest : rest <:+ tail := by
    have htext : rest <:+ marker ++ tail :=
      htail ▸ (List.suffix_append_of_suffix (List.suffix_append_of_suffix (List.suffix_append _ _)))
    refine List.suffix_of_suffix_length_le htext (List.suffix_append _ _) ?_
    have hlen := congrArg List.length htail
    simp only [List.length_append] at hlen
    omega
  exact nomatch hterminator.symm.trans (leftmost_eq_none_iff.mp hsearch rest hrest)

theorem findBlock_found {text : Text} {m : Match} (h : findBlock text = some m) :
    Found text m := by
  obtain ⟨⟨front, body, t⟩, hmatch, rfl⟩ := Option.map_eq_some_iff.mp h
  obtain ⟨s, rfl, hs, hfirst⟩ := leftmost_split hmatch
  have hsome : blockRegex s ≠ none := by
    rw [hs]
    exact Option.some_ne_none _
  obtain ⟨rest, rfl, ht⟩ := blockRegex_eq_some hs
  obtain ⟨rfl, hgroup⟩ := terminator_eq_some ht
  have hparts : marker ++ body ++ "\n\x7d;".toList ++ t.group ++ t.rest =
      marker ++ (body ++ ("\n\x7d;".toList ++ (t.group ++ t.rest))) := by
    simp only [List.append_assoc]
  refine ⟨by rw [hparts], ⟨body ++ ("\n\x7d;".toList ++ t.group), ?_⟩, hgroup, ?_⟩
  · simp only [List.append_assoc]
  · intro q hq hne
    rw [hparts]
    exact literal_eq_none_iff.mpr (no_marker_before hsome (hfirst q hq hne))

/-- A new declaration in the place of the match is the first of the text. -/
theorem Found.unmarked_block {text : Text} {m : Match} (h : Found text m) (registry : Registry)
    (after : Text) : Unmarked m.before (block registry ++ after) := by
  obtain ⟨body, hbody⟩ := h.marked
  have hunmarked := h.unmarked
  rw [← hbody, List.append_assoc] at hunmarked
  rw [block, List.append_assoc]
  exact hunmarked.replace _

/-- A new declaration on a line of its own after a text without one is the first
of the text. -/
theorem unmarked_appended {front : Text} (hnone : leftmost (literal marker) front = none)
    (rest : Text) : Unmarked (front ++ ['\n'] ++ ['\n']) rest := by
  have hline : '\n' ∉ marker := by decide
  -- What stands before the block ends its line, and the marker stays on one.
  have hbreak : ∀ q, q <:+ front ++ ['\n'] ++ ['\n'] → q ≠ [] →
      ∃ q' r, q = q' ++ '\n' :: r ∧ q' <:+ front := by
    intro q hq hne
    rcases List.suffix_concat_iff.mp hq with rfl | ⟨t, rfl, ht⟩
    · exact absurd rfl hne
    · rcases List.suffix_concat_iff.mp ht with rfl | ⟨q', rfl, hq'⟩
      · exact ⟨[], [], rfl, List.nil_suffix⟩
      · exact ⟨q', ['\n'], by simp, hq'⟩
  intro q hq hne
  refine literal_eq_none_iff.mpr fun h => ?_
  obtain ⟨q', r, rfl, hq'⟩ := hbreak q hq hne
  rw [List.append_assoc, List.cons_append] at h
  have hfront := leftmost_eq_none_iff.mp hnone q' hq'
  exact literal_eq_none_iff.mp hfront (prefix_of_not_mem hline h)

/-- Up to the first marker. -/
theorem frontOf_marked {front x : Text} (h : Unmarked front (marker ++ x)) :
    frontOf (front ++ (marker ++ x)) = front := by
  rw [frontOf, leftmost_of_first (literal_append marker x) h]

theorem Found.front {text : Text} {m : Match} (h : Found text m) : frontOf text = m.before := by
  obtain ⟨body, hbody⟩ := h.marked
  have hunmarked := h.unmarked
  rw [← hbody, List.append_assoc] at hunmarked
  have hfront := frontOf_marked hunmarked
  rwa [← List.append_assoc marker, hbody, ← h.split] at hfront

/-- A text without the marker has none in a front part. -/
theorem no_marker_of_prefix {front text : Text} (hp : front <+: text)
    (hnone : leftmost (literal marker) text = none) : leftmost (literal marker) front = none := by
  obtain ⟨rest, rfl⟩ := hp
  refine leftmost_eq_none_iff.mpr fun s hs => literal_eq_none_iff.mpr fun h => ?_
  obtain ⟨p, rfl⟩ := hs
  have hlonger := leftmost_eq_none_iff.mp hnone (s ++ rest) ⟨p, by rw [List.append_assoc]⟩
  exact literal_eq_none_iff.mp hlonger (h.trans (List.prefix_append _ _))

/-- A patch that does not throw writes the declaration of the registry on lines of
its own behind the front of the old text, and no marker stands before it. -/
theorem patchConfig_written {registry : Registry} (hplain : Plain registry) {before after : Text}
    (h : patchConfig registry before = .ok after) :
    ∃ rest, after = frontOf before ++ (block registry ++ '\n' :: rest) ∧
      Unmarked (frontOf before) (block registry ++ '\n' :: rest) := by
  unfold patchConfig at h
  cases hfind : findBlock before with
  | some m =>
    rw [hfind] at h
    have hblock : '$' ∉ block registry ++ ['\n'] :=
      List.not_mem_append (block_plain hplain) (by decide)
    have hfound := findBlock_found hfind
    dsimp only at h
    rw [expand_plain _ hblock] at h
    refine ⟨m.after, ?_, ?_⟩
    · rw [hfound.front, ← Except.ok.inj h]
      simp only [List.append_assoc, List.singleton_append]
    · rw [hfound.front]
      exact hfound.unmarked_block registry _
  | none =>
    rw [hfind] at h
    dsimp only at h
    split_ifs at h with hmarker
    have hnone : leftmost (literal marker) before = none := by simpa using hmarker
    have hfront : frontOf before = trimEnd before ++ ['\n'] ++ ['\n'] := by
      rw [frontOf, hnone]
      exact (List.append_assoc _ ['\n'] ['\n']).symm
    have htrimmed := no_marker_of_prefix (List.rdropWhile_prefix isWhiteSpace before) hnone
    refine ⟨[], ?_, ?_⟩
    · rw [hfront, ← Except.ok.inj h]
      simp
    · rw [hfront]
      exact unmarked_appended htrimmed _

end Declaration

section Unique

/-- The value of a hexadecimal digit. -/
def hexValue (c : Char) : ℕ := if c.toNat < 58 then c.toNat - 48 else c.toNat - 87

/-- The character that an escape sequence stands for, after its backslash. -/
def readEscape : Text → Option (Char × Text)
  | 'b' :: text => some (Char.ofNat 8, text)
  | 't' :: text => some (Char.ofNat 9, text)
  | 'n' :: text => some (Char.ofNat 10, text)
  | 'f' :: text => some (Char.ofNat 12, text)
  | 'r' :: text => some (Char.ofNat 13, text)
  | 'u' :: '0' :: '0' :: high :: low :: text =>
    some (Char.ofNat (16 * hexValue high + hexValue low), text)
  | c :: text => some (c, text)
  | [] => none

/-- The first character of the body of a JSON string. -/
def readChar : Text → Option (Char × Text)
  | [] => none
  | c :: text => if c = Char.ofNat 92 then readEscape text else some (c, text)

/-- An escaped character is read back. -/
theorem readChar_escape (c : Char) (text : Text) :
    readChar (escape c ++ text) = some (c, text) := by
  have hshape := escape_escaped c
  generalize escape c = sequence at hshape
  cases hshape with
  | short letter hletter =>
    simp only [shortEscapes, List.mem_cons, List.not_mem_nil, or_false, Prod.mk.injEq] at hletter
    rcases hletter with ⟨rfl, rfl⟩ | ⟨rfl, rfl⟩ | ⟨rfl, rfl⟩ | ⟨rfl, rfl⟩ | ⟨rfl, rfl⟩ |
      ⟨rfl, rfl⟩ | ⟨rfl, rfl⟩
    iterate 7 rfl
  | control hcontrol =>
    have hdigits : ∀ n < 32, 16 * hexValue (Nat.digitChar (n / 16)) +
        hexValue (Nat.digitChar (n % 16)) = n := by decide
    change some (Char.ofNat (16 * hexValue _ + hexValue _), text) = _
    rw [hdigits c.toNat hcontrol, Char.ofNat_toNat]
  | plain _ _ hslash => exact if_neg hslash

/-- No escaped character starts like the end of a string. -/
theorem escape_ne_quotation (c : Char) (text rest : Text) :
    escape c ++ text ≠ Char.ofNat 34 :: rest := by
  intro h
  have hread := readChar_escape c text
  rw [h] at hread
  have hmark : readChar (Char.ofNat 34 :: rest) = some (Char.ofNat 34, rest) := by
    rw [readChar, if_neg (by decide)]
  obtain ⟨hc, -⟩ := Prod.mk.inj (Option.some.inj (hread.symm.trans hmark))
  rw [hc] at h
  exact absurd (List.cons.inj h).1 (by decide)

/-- The body of a JSON string and what follows its end are read from the text. -/
theorem body_inj {cs ds a b : Text}
    (h : cs.flatMap escape ++ Char.ofNat 34 :: a = ds.flatMap escape ++ Char.ofNat 34 :: b) :
    cs = ds ∧ a = b := by
  induction cs generalizing ds with
  | nil =>
    cases ds with
    | nil => exact ⟨rfl, (List.cons.inj h).2⟩
    | cons d ds =>
      rw [List.flatMap_cons, List.append_assoc] at h
      exact absurd h.symm (escape_ne_quotation d _ _)
  | cons c cs ih =>
    rw [List.flatMap_cons, List.append_assoc] at h
    cases ds with
    | nil => exact absurd h (escape_ne_quotation c _ _)
    | cons d ds =>
      rw [List.flatMap_cons, List.append_assoc] at h
      have hread := (readChar_escape c _).symm.trans ((congrArg readChar h).trans
        (readChar_escape d _))
      obtain ⟨rfl, hrest⟩ := Prod.mk.inj (Option.some.inj hread)
      obtain ⟨rfl, hend⟩ := ih hrest
      exact ⟨rfl, hend⟩

theorem quote_inj {s t : String} {a b : Text} (h : quote s ++ a = quote t ++ b) :
    s = t ∧ a = b := by
  simp only [quote, List.cons_append, List.append_assoc, List.nil_append] at h
  obtain ⟨hs, hab⟩ := body_inj (List.cons.inj h).2
  exact ⟨String.toList_inj.mp hs, hab⟩

theorem stringifyEntry_inj {e f : AgentEntry} {a b : Text}
    (h : stringifyEntry e ++ a = stringifyEntry f ++ b) : e = f ∧ a = b := by
  simp only [stringifyEntry, member, List.append_assoc, List.append_cancel_left_eq] at h
  obtain ⟨hmint, hafterMint⟩ := quote_inj h
  simp only [List.append_cancel_left_eq] at hafterMint
  obtain ⟨hpubkey, hafterPubkey⟩ := quote_inj hafterMint
  simp only [List.append_cancel_left_eq] at hafterPubkey
  obtain ⟨hname, hafterName⟩ := quote_inj hafterPubkey
  have hentry : e = f := by
    cases e
    cases f
    simp_all only
  exact ⟨hentry, List.append_cancel_left hafterName⟩

theorem stringifyAgent_inj {m n : String × AgentEntry} {a b : Text}
    (h : stringifyAgent m ++ a = stringifyAgent n ++ b) : m = n ∧ a = b := by
  simp only [stringifyAgent, member, List.append_assoc, List.append_cancel_left_eq] at h
  obtain ⟨hzone, hafterZone⟩ := quote_inj h
  simp only [List.append_cancel_left_eq] at hafterZone
  obtain ⟨hentry, hafter⟩ := stringifyEntry_inj hafterZone
  exact ⟨Prod.ext hzone hentry, hafter⟩

/-- The further agents of a registry are read up to its closing brace. -/
theorem agents_inj {rs ss : Registry} {a b : Text}
    (h : (rs.flatMap fun m => ",".toList ++ stringifyAgent m) ++ ("\n\x7d".toList ++ a) =
      (ss.flatMap fun m => ",".toList ++ stringifyAgent m) ++ ("\n\x7d".toList ++ b)) :
    rs = ss ∧ a = b := by
  induction rs generalizing ss with
  | nil =>
    cases ss with
    | nil => exact ⟨rfl, List.append_cancel_left h⟩
    | cons n ss => exact absurd (List.cons.inj h).1 (by decide)
  | cons m rs ih =>
    cases ss with
    | nil => exact absurd (List.cons.inj h).1 (by decide)
    | cons n ss =>
      simp only [List.flatMap_cons, List.append_assoc, List.append_cancel_left_eq] at h
      obtain ⟨hm, hrest⟩ := stringifyAgent_inj h
      obtain ⟨hrs, hab⟩ := ih hrest
      exact ⟨by rw [hm, hrs], hab⟩

/-- A registry and what follows it are read from the text. -/
theorem stringify_inj {r s : Registry} {a b : Text} (h : stringify r ++ a = stringify s ++ b) :
    r = s ∧ a = b := by
  cases r with
  | nil =>
    cases s with
    | nil => exact ⟨rfl, List.append_cancel_left h⟩
    | cons n s => exact absurd (List.cons.inj (List.cons.inj h).2).1 (by decide)
  | cons m r =>
    cases s with
    | nil => exact absurd (List.cons.inj (List.cons.inj h).2).1 (by decide)
    | cons n s =>
      simp only [stringify, List.append_assoc, List.append_cancel_left_eq] at h
      obtain ⟨hm, hrest⟩ := stringifyAgent_inj h
      obtain ⟨hr, hab⟩ := agents_inj hrest
      exact ⟨by rw [hm, hr], hab⟩

end Unique

end RiskClaw.ConfigPatch
