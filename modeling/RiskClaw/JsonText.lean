import RiskClaw.ConfigPatch

/-!
# Writing and reading JSON

The values of JSON, the writer of `JSON.stringify` with and without a gap, and
the reader of `JSON.parse`. A number is kept as it is written, and an object as
the list of its members. The reader takes one value from the front of a text;
whatever the writer has written is read back as it was.
-/

namespace RiskClaw.JsonText

open LeftmostSearch ConfigPatch

/-- A value of JSON. -/
inductive Json where
  /-- `null`. -/
  | null
  /-- A truth value. -/
  | bool (b : Bool)
  /-- A number, as it is written. -/
  | number (numeral : Text)
  /-- A string. -/
  | string (s : Text)
  /-- An array. -/
  | array (items : List Json)
  /-- An object, with its members in the order of the text. -/
  | object (members : List (Text × Json))

section Writer

/-- A quoted string. -/
def quoted (s : Text) : Text := Char.ofNat 34 :: s.flatMap escape ++ [Char.ofNat 34]

/-- A new line with its indentation; without a gap there are no lines. -/
def line (gap indent : Text) : Text := if gap = [] then [] else '\n' :: indent

/-- What stands between a key and its value. -/
def colon (gap : Text) : Text := if gap = [] then [':'] else [':', ' ']

mutual

/-- `JSON.stringify(value, null, gap)`, for a value at some indentation. -/
def write (gap : Text) : Text → Json → Text
  | _, .null => "null".toList
  | _, .bool true => "true".toList
  | _, .bool false => "false".toList
  | _, .number numeral => numeral
  | _, .string s => quoted s
  | _, .array [] => ['[', ']']
  | indent, .array (v :: vs) =>
    '[' :: (line gap (indent ++ gap) ++ write gap (indent ++ gap) v ++
      writeItems gap (indent ++ gap) vs ++ line gap indent ++ [']'])
  | _, .object [] => ['\x7b', '\x7d']
  | indent, .object ((key, v) :: ms) =>
    '\x7b' :: (line gap (indent ++ gap) ++ (quoted key ++ colon gap ++
      write gap (indent ++ gap) v) ++ writeMembers gap (indent ++ gap) ms ++
      line gap indent ++ ['\x7d'])

/-- The further items of an array. -/
def writeItems (gap : Text) : Text → List Json → Text
  | _, [] => []
  | indent, v :: vs => ',' :: (line gap indent ++ write gap indent v) ++ writeItems gap indent vs

/-- The further members of an object. -/
def writeMembers (gap : Text) : Text → List (Text × Json) → Text
  | _, [] => []
  | indent, (key, v) :: ms =>
    ',' :: (line gap indent ++ (quoted key ++ colon gap ++ write gap indent v)) ++
      writeMembers gap indent ms

end

end Writer

section Reader

/-- White space between tokens. -/
def isSpace (c : Char) : Bool := c.toNat ∈ [9, 10, 13, 32]

/-- The text after its leading white space. -/
def skipSpace (text : Text) : Text := text.dropWhile isSpace

/-- The value of a hexadecimal digit. -/
def hexDigit (c : Char) : Option ℕ :=
  if 48 ≤ c.toNat ∧ c.toNat ≤ 57 then some (c.toNat - 48)
  else if 97 ≤ c.toNat ∧ c.toNat ≤ 102 then some (c.toNat - 87)
  else if 65 ≤ c.toNat ∧ c.toNat ≤ 70 then some (c.toNat - 55)
  else none

/-- The four digits after a `\u`. -/
def codeUnit : Text → Option (ℕ × Text)
  | a :: b :: c :: d :: text => do
    let a ← hexDigit a
    let b ← hexDigit b
    let c ← hexDigit c
    let d ← hexDigit d
    some (4096 * a + 256 * b + 16 * c + d, text)
  | _ => none

/-- The second half of a character that is escaped as two code units. -/
def lowSurrogate (high : ℕ) : Text → Option (Char × Text)
  | c :: 'u' :: text =>
    if c = Char.ofNat 92 then
      match codeUnit text with
      | some (low, rest) =>
        if high < 0xDC00 ∧ 0xDC00 ≤ low ∧ low < 0xE000 then
          some (Char.ofNat (0x10000 + 0x400 * (high - 0xD800) + (low - 0xDC00)), rest)
        else none
      | none => none
    else none
  | _ => none

/-- A character that is escaped by its number. -/
def unicode (text : Text) : Option (Char × Text) :=
  match codeUnit text with
  | some (unit, rest) =>
    if 0xD800 ≤ unit ∧ unit < 0xE000 then lowSurrogate unit rest
    else some (Char.ofNat unit, rest)
  | none => none

/-- What stands after a backslash in a string. -/
def escapeSequence : Text → Option (Char × Text)
  | [] => none
  | c :: text =>
    match shortEscapes.find? fun p => p.2 = c with
    | some p => some (p.1, text)
    | none =>
      if c = '/' then some (c, text)
      else if c = 'u' then unicode text
      else none

/-- The first character of the rest of a string. -/
def character : Text → Option (Char × Text)
  | [] => none
  | c :: text =>
    if c = Char.ofNat 92 then escapeSequence text
    else if c.toNat < 32 then none
    else some (c, text)

/-- A string after its opening mark, of less than so many characters. -/
def stringBody : ℕ → Text → Option (Text × Text)
  | 0, _ => none
  | n + 1, text =>
    if text.head? = some (Char.ofNat 34) then some ([], text.tail)
    else
      match character text with
      | some (c, rest) => (stringBody n rest).map fun r => (c :: r.1, r.2)
      | none => none

/-- A string. -/
def readString : Text → Option (Text × Text)
  | [] => none
  | c :: text => if c = Char.ofNat 34 then stringBody (text.length + 1) text else none

/-- How far a number is read. -/
inductive NumberState where
  /-- Before it. -/
  | start
  /-- After its minus sign. -/
  | minus
  /-- After a zero that has no digit before it. -/
  | zero
  /-- After a digit of its integer part. -/
  | integer
  /-- After its point. -/
  | point
  /-- After a digit of its fraction. -/
  | fraction
  /-- After the mark of its exponent. -/
  | mark
  /-- After the sign of its exponent. -/
  | sign
  /-- After a digit of its exponent. -/
  | exponent

namespace NumberState

/-- A number can end here. -/
def accepts : NumberState → Bool
  | zero | integer | fraction | exponent => true
  | _ => false

/-- The first digit of the integer part. -/
def first (c : Char) : Option NumberState :=
  if c = '0' then some zero else if c.isDigit then some integer else none

/-- The mark of an exponent. -/
def marked (c : Char) : Option NumberState := if c = 'e' ∨ c = 'E' then some mark else none

/-- The point, or the mark of an exponent. -/
def ended (c : Char) : Option NumberState := if c = '.' then some point else marked c

/-- After a character that belongs to the number. -/
def next : NumberState → Char → Option NumberState
  | start, c => if c = '-' then some minus else first c
  | minus, c => first c
  | zero, c => ended c
  | integer, c => if c.isDigit then some integer else ended c
  | point, c => if c.isDigit then some fraction else none
  | fraction, c => if c.isDigit then some fraction else marked c
  | mark, c =>
    if c = '+' ∨ c = '-' then some sign else if c.isDigit then some exponent else none
  | sign, c => if c.isDigit then some exponent else none
  | exponent, c => if c.isDigit then some exponent else none

end NumberState

/-- The rest of a number; every character that can belong to it does. -/
def readNumber : NumberState → Text → Option (Text × Text)
  | q, [] => if q.accepts then some ([], []) else none
  | q, c :: text =>
    match q.next c with
    | some q => (readNumber q text).map fun r => (c :: r.1, r.2)
    | none => if q.accepts then some ([], c :: text) else none

/-- A value other than a string, an array or an object. -/
def scalar (text : Text) : Option (Json × Text) :=
  match literal "null".toList text, literal "true".toList text, literal "false".toList text with
  | some rest, _, _ => some (.null, rest)
  | none, some rest, _ => some (.bool true, rest)
  | none, none, some rest => some (.bool false, rest)
  | none, none, none => (readNumber .start text).map fun r => (.number r.1, r.2)

section Sequences

variable {β : Type*}

/-- Up to so many parts between commas, and the closing mark. -/
def sequence (part : Text → Option (β × Text)) (close : Char) : ℕ → Text → Option (List β × Text)
  | 0, _ => none
  | n + 1, text =>
    match part text with
    | none => none
    | some (b, rest) =>
      match skipSpace rest with
      | [] => none
      | c :: rest =>
        if c = close then some ([b], rest)
        else if c = ',' then (sequence part close n rest).map fun r => (b :: r.1, r.2)
        else none

/-- What stands between two marks, after the opening one. -/
def between (part : Text → Option (β × Text)) (close : Char) (n : ℕ) (text : Text) :
    Option (List β × Text) :=
  if (skipSpace text).head? = some close then some ([], (skipSpace text).tail)
  else sequence part close n text

/-- A member of an object. -/
def member (part : Text → Option (β × Text)) (text : Text) : Option ((Text × β) × Text) :=
  match readString (skipSpace text) with
  | none => none
  | some (key, rest) =>
    match skipSpace rest with
    | [] => none
    | c :: rest => if c = ':' then (part rest).map fun r => ((key, r.1), r.2) else none

end Sequences

/-- The value at the front of a text, if it is less deep than the number says and
has no more than so many parts in one place. -/
def value : ℕ → Text → Option (Json × Text)
  | 0, _ => none
  | n + 1, text =>
    match skipSpace text with
    | [] => none
    | c :: rest =>
      if c = '\x7b' then
        (between (member (value n)) '\x7d' n rest).map fun r => (.object r.1, r.2)
      else if c = '[' then (between (value n) ']' n rest).map fun r => (.array r.1, r.2)
      else if c = Char.ofNat 34 then
        (readString (c :: rest)).map fun r => (.string r.1, r.2)
      else scalar (c :: rest)

/-- `JSON.parse(text)`, or an exception. -/
def parse (text : Text) : Option Json :=
  match value (text.length + 1) text with
  | some (v, rest) => if skipSpace rest = [] then some v else none
  | none => none

end Reader

section Tokens

/-- White space, or nothing. -/
def Blank (text : Text) : Prop := ∀ c ∈ text, isSpace c = true

theorem skipSpace_blank {space : Text} (h : Blank space) (text : Text) :
    skipSpace (space ++ text) = skipSpace text := List.dropWhile_append_of_pos h

theorem skipSpace_cons {c : Char} (h : isSpace c = false) (text : Text) :
    skipSpace (c :: text) = c :: text := List.dropWhile_cons_of_neg (by simp [h])

theorem blank_append {x y : Text} (hx : Blank x) (hy : Blank y) : Blank (x ++ y) :=
  List.forall_mem_append.mpr ⟨hx, hy⟩

theorem blank_line (gap : Text) {indent : Text} (h : Blank indent) : Blank (line gap indent) := by
  unfold line
  split_ifs
  · exact List.forall_mem_nil _
  · exact List.forall_mem_cons.mpr ⟨rfl, h⟩

/-- An escaped character is read back. -/
theorem character_escape (c : Char) (text : Text) :
    character (escape c ++ text) = some (c, text) := by
  have hshape := escape_escaped c
  generalize escape c = sequence at hshape
  cases hshape with
  | short letter hletter =>
    simp only [shortEscapes, List.mem_cons, List.not_mem_nil, or_false, Prod.mk.injEq] at hletter
    rcases hletter with ⟨rfl, rfl⟩ | ⟨rfl, rfl⟩ | ⟨rfl, rfl⟩ | ⟨rfl, rfl⟩ | ⟨rfl, rfl⟩ |
      ⟨rfl, rfl⟩ | ⟨rfl, rfl⟩
    iterate 7 rfl
  | control hcontrol =>
    have hdigits : ∀ n < 32, hexDigit (Nat.digitChar (n / 16)) = some (n / 16) ∧
        hexDigit (Nat.digitChar (n % 16)) = some (n % 16) := by decide
    obtain ⟨hhigh, hlow⟩ := hdigits c.toNat hcontrol
    have hunit : codeUnit ('0' :: '0' :: Nat.digitChar (c.toNat / 16) ::
        Nat.digitChar (c.toNat % 16) :: text) = some (c.toNat, text) := by
      have hzero : hexDigit '0' = some 0 := rfl
      have hvalue : 4096 * 0 + 256 * 0 + 16 * (c.toNat / 16) + c.toNat % 16 = c.toNat := by omega
      rw [codeUnit, hzero, hhigh, hlow]
      change some (4096 * 0 + 256 * 0 + 16 * (c.toNat / 16) + c.toNat % 16, text) = _
      rw [hvalue]
    have hsmall : ¬(0xD800 ≤ c.toNat ∧ c.toNat < 0xE000) := by omega
    change unicode ('0' :: '0' :: Nat.digitChar (c.toNat / 16) ::
      Nat.digitChar (c.toNat % 16) :: text) = _
    rw [unicode, hunit]
    dsimp only
    rw [if_neg hsmall, Char.ofNat_toNat]
  | plain hcontrol _ hslash =>
    rw [List.cons_append, character, if_neg hslash, if_neg hcontrol]
    rfl

/-- A string is read up to its closing mark. -/
theorem stringBody_escape (s rest : Text) {n : ℕ} (h : s.length < n) :
    stringBody n (s.flatMap escape ++ Char.ofNat 34 :: rest) = some (s, rest) := by
  induction s generalizing n with
  | nil =>
    obtain ⟨m, rfl⟩ := Nat.exists_eq_add_of_lt h
    rfl
  | cons c s ih =>
    obtain ⟨m, rfl⟩ : ∃ m, n = m + 1 := ⟨n - 1, by simp at h; omega⟩
    have hs : s.length < m := by simpa using h
    rw [List.flatMap_cons, List.append_assoc, stringBody, character_escape]
    dsimp only
    rw [ih hs]
    refine if_neg fun hhead => ?_
    cases htext : escape c ++ (s.flatMap escape ++ Char.ofNat 34 :: rest) with
    | nil => rw [htext] at hhead; cases hhead
    | cons d text =>
      rw [htext] at hhead
      rw [Option.some.inj hhead] at htext
      exact escape_ne_quotation c _ _ htext

theorem escape_ne_nil (c : Char) : escape c ≠ [] := by
  have hread := character_escape c []
  intro h
  rw [h] at hread
  cases hread

/-- A quoted string is read back. -/
theorem readString_quoted (s rest : Text) : readString (quoted s ++ rest) = some (s, rest) := by
  have hlength : s.length ≤ (s.flatMap escape).length := by
    induction s with
    | nil => exact Nat.zero_le _
    | cons c s ih =>
      have hc := List.length_pos_iff.mpr (escape_ne_nil c)
      rw [List.flatMap_cons, List.length_append, List.length_cons]
      omega
  have htext : quoted s ++ rest =
      Char.ofNat 34 :: (s.flatMap escape ++ Char.ofNat 34 :: rest) := by
    simp only [quoted, List.cons_append, List.append_assoc, List.nil_append]
  rw [htext, readString, if_pos rfl]
  refine stringBody_escape s rest ?_
  rw [List.length_append]
  omega

/-- The characters of numbers. -/
def numberChars : Text := "0123456789+-.eE".toList

/-- What follows does not belong to a number. -/
def Ends (rest : Text) : Prop := ∀ c, rest.head? = some c → c ∉ numberChars

/-- Symbols that begin or end another value than a number. -/
def reserved : List Char := ['\x7b', '[', ']', Char.ofNat 34, 'n', 't', 'f']

/-- No symbol of a number is white space or reserved. -/
theorem numberChars_plain {c : Char} (h : c ∈ numberChars) : isSpace c = false ∧ c ∉ reserved := by
  have hall : (numberChars.all fun d => !isSpace d && !reserved.contains d) = true := by decide
  have hc := List.all_eq_true.mp hall c h
  rw [Bool.and_eq_true, Bool.not_eq_true', Bool.not_eq_true'] at hc
  refine ⟨hc.1, fun hmem => ?_⟩
  rw [List.contains_iff_mem.mpr hmem] at hc
  exact absurd hc.2 (by decide)

theorem digit_mem {c : Char} (h : c.isDigit = true) : c ∈ numberChars := by
  have hrange : 48 ≤ c.toNat ∧ c.toNat ≤ 57 := by
    simpa [Char.isDigit, UInt32.le_iff_toNat_le] using h
  have hdigits : ∀ n < 10, Char.ofNat (48 + n) ∈ numberChars := by decide
  have hc := hdigits (c.toNat - 48) (by omega)
  rwa [Nat.add_sub_cancel' hrange.1, Char.ofNat_toNat] at hc

/-- No number goes on with a character that is not one of a number. -/
theorem next_none {c : Char} (h : c ∉ numberChars) (q : NumberState) : q.next c = none := by
  have hdigit : ¬c.isDigit = true := fun hc => h (digit_mem hc)
  have hne : ∀ d ∈ numberChars, c ≠ d := fun d hd he => h (he ▸ hd)
  have hplus := hne '+' (by decide)
  have hminus := hne '-' (by decide)
  have hpoint := hne '.' (by decide)
  have hzero := hne '0' (by decide)
  have he := hne 'e' (by decide)
  have hE := hne 'E' (by decide)
  cases q <;>
    simp [NumberState.next, NumberState.first, NumberState.ended, NumberState.marked, *]

/-- A text is a number as a whole. -/
def Numeral (numeral : Text) : Prop := readNumber .start numeral = some (numeral, [])

/-- A number is read up to what does not belong to it. -/
theorem readNumber_append {q : NumberState} {numeral rest : Text}
    (h : readNumber q numeral = some (numeral, [])) (hrest : Ends rest) :
    readNumber q (numeral ++ rest) = some (numeral, rest) := by
  induction numeral generalizing q with
  | nil =>
    have haccepts : q.accepts = true := by
      by_contra hq
      rw [readNumber, if_neg hq] at h
      cases h
    cases rest with
    | nil => exact h
    | cons c rest =>
      rw [List.nil_append, readNumber, next_none (hrest c rfl)]
      exact if_pos haccepts
  | cons c numeral ih =>
    rw [List.cons_append, readNumber]
    rw [readNumber] at h
    cases hnext : q.next c with
    | none =>
      rw [hnext] at h
      dsimp only at h
      split_ifs at h
      cases h
    | some q' =>
      rw [hnext] at h
      obtain ⟨r, hr, he⟩ := Option.map_eq_some_iff.mp h
      obtain ⟨htext, hleft⟩ := Prod.mk.inj he
      have hsame : readNumber q' numeral = some (numeral, []) := by
        rw [hr, ← (List.cons.inj htext).2, ← hleft]
      dsimp only
      rw [ih hsame]
      rfl

/-- A number begins with a character of one. -/
theorem numeral_head {numeral : Text} (h : Numeral numeral) :
    ∃ c text, numeral = c :: text ∧ c ∈ numberChars := by
  cases numeral with
  | nil => cases h
  | cons c text =>
    refine ⟨c, text, rfl, ?_⟩
    by_contra hc
    rw [Numeral, readNumber, next_none hc] at h
    cases h

end Tokens

section RoundTrip

/-- A value whose numbers are numbers. -/
inductive Readable : Json → Prop where
  /-- `null`. -/
  | null : Readable .null
  /-- A truth value. -/
  | bool (b : Bool) : Readable (.bool b)
  /-- A number. -/
  | number {numeral : Text} (h : Numeral numeral) : Readable (.number numeral)
  /-- A string. -/
  | string (s : Text) : Readable (.string s)
  /-- An array of readable items. -/
  | array {items : List Json} (h : ∀ v ∈ items, Readable v) : Readable (.array items)
  /-- An object with readable members. -/
  | object {members : List (Text × Json)} (h : ∀ m ∈ members, Readable m.2) :
    Readable (.object members)

theorem writeItems_eq (gap indent : Text) (vs : List Json) :
    writeItems gap indent vs =
      vs.flatMap fun v => ',' :: (line gap indent ++ write gap indent v) := by
  induction vs with
  | nil => rfl
  | cons v vs ih => rw [writeItems, ih, List.flatMap_cons]

/-- The text of a member. -/
def writeMember (gap indent : Text) (m : Text × Json) : Text :=
  quoted m.1 ++ colon gap ++ write gap indent m.2

theorem writeMembers_eq (gap indent : Text) (ms : List (Text × Json)) :
    writeMembers gap indent ms =
      ms.flatMap fun m => ',' :: (line gap indent ++ writeMember gap indent m) := by
  induction ms with
  | nil => rfl
  | cons m ms ih =>
    rw [writeMembers, ih, List.flatMap_cons]
    rfl

/-- The text of a value begins with a character that is no white space and
closes no array. -/
theorem write_head {v : Json} (h : Readable v) (gap indent : Text) :
    ∃ c text, write gap indent v = c :: text ∧ isSpace c = false ∧ c ≠ ']' := by
  cases h with
  | null => exact ⟨_, _, rfl, by decide, by decide⟩
  | bool b => cases b <;> exact ⟨_, _, rfl, by decide, by decide⟩
  | number h =>
    obtain ⟨c, text, rfl, hc⟩ := numeral_head h
    obtain ⟨hspace, hreserved⟩ := numberChars_plain hc
    refine ⟨c, text, by rw [write], hspace, ?_⟩
    rintro rfl
    exact hreserved (by decide)
  | string s => exact ⟨Char.ofNat 34, _, by rw [write, quoted]; rfl, by decide, by decide⟩
  | @array items h =>
    cases items with
    | nil => exact ⟨_, _, by rw [write], by decide, by decide⟩
    | cons v vs => exact ⟨_, _, by rw [write], by decide, by decide⟩
  | @object members h =>
    cases members with
    | nil => exact ⟨_, _, by rw [write], by decide, by decide⟩
    | cons m ms => exact ⟨_, _, by rw [write], by decide, by decide⟩

/-- White space before a value does not matter. -/
theorem value_blank {space : Text} (h : Blank space) (n : ℕ) (text : Text) :
    value n (space ++ text) = value n text := by
  cases n with
  | zero => rfl
  | succ n => rw [value, value, skipSpace_blank h]

section Sequences

variable {β : Type*} (part : Text → Option (β × Text)) {close : Char} {lead tail : Text}
  {w : β → Text}

/-- A mark that ends a sequence. -/
structure Closing (close : Char) : Prop where
  /-- It is no white space. -/
  visible : isSpace close = false
  /-- It does not belong to a number. -/
  foreign : close ∉ numberChars
  /-- It is no comma. -/
  comma : ',' ≠ close

theorem closing_bracket : Closing ']' := ⟨by decide, by decide, by decide⟩

theorem closing_brace : Closing '\x7d' := ⟨by decide, by decide, by decide⟩

/-- No number goes on with white space or with a closing mark. -/
theorem Closing.ends (h : Closing close) (htail : Blank tail) (rest : Text) :
    Ends (tail ++ close :: rest) := by
  intro c hc
  cases tail with
  | nil =>
    cases hc
    exact h.foreign
  | cons d tail =>
    cases hc
    intro hmem
    have hspace := htail c List.mem_cons_self
    rw [(numberChars_plain hmem).1] at hspace
    cases hspace

/-- Parts that are read back one by one are read back in a sequence. -/
theorem sequence_parts (hclose : Closing close) (htail : Blank tail) (b : β) (bs : List β)
    (hpart : ∀ x ∈ b :: bs, ∀ rest, Ends rest → part (lead ++ (w x ++ rest)) = some (x, rest))
    {n : ℕ} (hn : bs.length < n) (rest : Text) :
    sequence part close n (lead ++ (w b ++ ((bs.flatMap fun x => ',' :: (lead ++ w x)) ++
      (tail ++ close :: rest)))) = some (b :: bs, rest) := by
  induction bs generalizing b n with
  | nil =>
    obtain ⟨m, rfl⟩ : ∃ m, n = m + 1 := ⟨n - 1, by omega⟩
    rw [sequence, List.flatMap_nil, List.nil_append,
      hpart b List.mem_cons_self _ (hclose.ends htail rest)]
    dsimp only
    rw [skipSpace_blank htail, skipSpace_cons hclose.visible]
    exact if_pos rfl
  | cons b' bs ih =>
    obtain ⟨m, rfl⟩ : ∃ m, n = m + 1 := ⟨n - 1, by omega⟩
    have hlater := ih b' (fun x hx => hpart x (List.mem_cons_of_mem b hx))
      (n := m) (by simpa using hn)
    have hend : ∀ rest, Ends (',' :: rest) := by
      intro rest c hc
      cases hc
      decide
    rw [sequence, List.flatMap_cons, List.cons_append, List.cons_append,
      hpart b List.mem_cons_self _ (hend _)]
    dsimp only
    rw [skipSpace_cons (by decide)]
    dsimp only
    rw [if_neg hclose.comma, if_pos rfl, List.append_assoc, List.append_assoc, hlater]
    rfl

theorem length_le_flatMap (f : β → Text) (bs : List β) :
    bs.length ≤ (bs.flatMap fun b => ',' :: f b).length := by
  induction bs with
  | nil => exact Nat.zero_le _
  | cons b bs ih =>
    rw [List.flatMap_cons, List.length_append, List.length_cons, List.length_cons]
    omega

theorem length_part_le_flatMap (f : β → Text) {bs : List β} {b : β} (h : b ∈ bs) :
    (f b).length ≤ (bs.flatMap fun b => ',' :: f b).length := by
  obtain ⟨before, after, rfl⟩ := List.append_of_mem h
  simp only [List.flatMap_append, List.flatMap_cons, List.length_append, List.length_cons]
  omega

/-- What has been written between two marks is read back, if each part shorter
than the whole is. -/
theorem between_written (hclose : Closing close) (htail : Blank tail) {b : β} {bs : List β}
    {n : ℕ} (hn : (lead ++ w b ++ (bs.flatMap fun x => ',' :: (lead ++ w x)) ++ tail ++
      [close]).length ≤ n)
    (hfirst : ∀ text, (skipSpace (lead ++ (w b ++ text))).head? ≠ some close)
    (hpart : ∀ x ∈ b :: bs, (w x).length ≤ n → ∀ rest, Ends rest →
      part (lead ++ (w x ++ rest)) = some (x, rest)) (rest : Text) :
    between part close n (lead ++ w b ++ (bs.flatMap fun x => ',' :: (lead ++ w x)) ++ tail ++
      [close] ++ rest) = some (b :: bs, rest) := by
  simp only [List.length_append, List.length_singleton] at hn
  have hcount := length_le_flatMap (fun x => lead ++ w x) bs
  have hsize : ∀ x ∈ b :: bs, (w x).length ≤ n := by
    intro x hx
    rcases List.mem_cons.mp hx with rfl | hx
    · omega
    · have hle := length_part_le_flatMap (fun x => lead ++ w x) hx
      rw [List.length_append] at hle
      omega
  have hread := sequence_parts part hclose htail b bs (fun x hx => hpart x hx (hsize x hx))
    (n := n) (by omega) rest
  simp only [List.append_assoc, List.singleton_append]
  rw [between, if_neg (hfirst _), hread]

end Sequences

/-- A member is read back if its value is. -/
theorem member_write {part : Text → Option (Json × Text)} {gap indent rest : Text}
    {m : Text × Json}
    (hpart : ∀ space, Blank space →
      part (space ++ (write gap indent m.2 ++ rest)) = some (m.2, rest)) {lead : Text}
    (hlead : Blank lead) :
    member part (lead ++ (writeMember gap indent m ++ rest)) = some (m, rest) := by
  have hmark : ∀ text, skipSpace (quoted m.1 ++ text) = quoted m.1 ++ text := fun _ =>
    skipSpace_cons (by decide) _
  have hcolon : ∃ space, Blank space ∧ colon gap = ':' :: space := by
    unfold colon
    split_ifs
    · exact ⟨[], List.forall_mem_nil _, rfl⟩
    · exact ⟨[' '], List.forall_mem_singleton.mpr rfl, rfl⟩
  obtain ⟨space, hspace, hcolon⟩ := hcolon
  rw [member, skipSpace_blank hlead, writeMember, List.append_assoc, List.append_assoc, hmark,
    readString_quoted]
  dsimp only
  rw [hcolon, List.cons_append, skipSpace_cons (by decide)]
  dsimp only
  rw [if_pos rfl, hpart space hspace]
  rfl

/-- No word begins like a number. -/
theorem literal_of_number {c : Char} (h : c ∈ numberChars) (text : Text) :
    ∀ word ∈ ["null", "true", "false"], literal word.toList (c :: text) = none := by
  have hfirst : ∀ word ∈ ["null", "true", "false"],
      ∃ d letters, word.toList = d :: letters ∧ d ∈ reserved := by
    intro word hword
    simp only [List.mem_cons, List.not_mem_nil, or_false] at hword
    rcases hword with rfl | rfl | rfl
    · exact ⟨'n', _, rfl, by decide⟩
    · exact ⟨'t', _, rfl, by decide⟩
    · exact ⟨'f', _, rfl, by decide⟩
  intro word hword
  obtain ⟨d, letters, hletters, hreserved⟩ := hfirst word hword
  refine literal_eq_none_iff.mpr fun hpre => ?_
  rw [hletters, List.cons_prefix_cons] at hpre
  exact (numberChars_plain h).2 (hpre.1 ▸ hreserved)

/-- What begins like a number is read as one. -/
theorem scalar_eq_number {c : Char} (h : c ∈ numberChars) (text : Text) :
    scalar (c :: text) =
      (readNumber .start (c :: text)).map fun r => (.number r.1, r.2) := by
  have hword := literal_of_number h text
  unfold scalar
  rw [hword "null" (by decide), hword "true" (by decide), hword "false" (by decide)]

/-- A number is read back. -/
theorem scalar_number {numeral rest : Text} (h : Numeral numeral) (hrest : Ends rest) :
    scalar (numeral ++ rest) = some (.number numeral, rest) := by
  obtain ⟨c, text, hc, hmem⟩ := numeral_head h
  have hread := readNumber_append h hrest
  rw [hc, List.cons_append] at hread ⊢
  rw [scalar_eq_number hmem, hread]
  rfl

/-- A value that has been written is read back, whatever follows it. -/
theorem value_write {gap : Text} (hgap : Blank gap) {n : ℕ} {v : Json} (hv : Readable v)
    {indent : Text} (hindent : Blank indent) (hn : (write gap indent v).length ≤ n) {rest : Text}
    (hrest : Ends rest) : value n (write gap indent v ++ rest) = some (v, rest) := by
  induction n generalizing v indent rest with
  | zero =>
    obtain ⟨c, text, hwrite, -⟩ := write_head hv gap indent
    rw [hwrite] at hn
    simp at hn
  | succ n ih =>
    have hinner := blank_append hindent hgap
    have hlead := blank_line gap hinner
    have htail := blank_line gap hindent
    cases hv with
    | null => rfl
    | bool b => cases b <;> rfl
    | @number numeral h =>
      obtain ⟨c, text, hc, hmem⟩ := numeral_head h
      obtain ⟨hspace, hreserved⟩ := numberChars_plain hmem
      have hne : ∀ d ∈ reserved, c ≠ d := fun d hd he => hreserved (he ▸ hd)
      have hscalar := scalar_number h hrest
      rw [write, value, hc, List.cons_append, skipSpace_cons hspace]
      rw [hc, List.cons_append] at hscalar
      dsimp only
      rw [if_neg (hne _ (by decide)), if_neg (hne _ (by decide)), if_neg (hne _ (by decide)),
        hscalar]
    | string s =>
      have hread := readString_quoted s rest
      rw [quoted, List.cons_append, List.cons_append] at hread
      rw [write, value, quoted, List.cons_append, List.cons_append, skipSpace_cons (by decide)]
      dsimp only
      rw [if_neg (by decide), if_neg (by decide), if_pos rfl, hread]
      rfl
    | @array items h =>
      cases items with
      | nil => rfl
      | cons v vs =>
        obtain ⟨c, text, hc, hspace, hclose⟩ := write_head (h v List.mem_cons_self) gap
          (indent ++ gap)
        rw [write, writeItems_eq] at hn ⊢
        have hread := between_written (value n) closing_bracket htail
          (w := write gap (indent ++ gap)) (Nat.le_of_succ_le_succ hn)
          (fun text hhead => by
            rw [skipSpace_blank hlead, hc, List.cons_append, skipSpace_cons hspace] at hhead
            exact hclose (Option.some.inj hhead))
          (fun x hx hsize rest hrest => by
            rw [value_blank hlead]
            exact ih (h x hx) hinner hsize hrest) rest
        rw [List.cons_append, value, skipSpace_cons (by decide)]
        dsimp only
        rw [if_neg (by decide), if_pos rfl, hread]
        rfl
    | @object members h =>
      cases members with
      | nil => rfl
      | cons m ms =>
        rw [write, writeMembers_eq] at hn ⊢
        have hread := between_written (member (value n)) closing_brace htail
          (w := writeMember gap (indent ++ gap)) (b := m) (Nat.le_of_succ_le_succ hn)
          (fun text hhead => by
            rw [skipSpace_blank hlead, writeMember, quoted] at hhead
            exact absurd (Option.some.inj hhead) (by decide))
          (fun x hx hsize rest hrest => member_write (fun space hspace => by
            rw [value_blank hspace]
            refine ih (h x hx) hinner ?_ hrest
            rw [writeMember, List.length_append] at hsize
            omega) hlead) rest
        rw [List.cons_append, value, skipSpace_cons (by decide)]
        dsimp only
        rw [if_pos rfl]
        exact congrArg _ hread

/-- What `JSON.stringify` has written is what `JSON.parse` reads. -/
theorem parse_write {gap : Text} (hgap : Blank gap) {v : Json} (hv : Readable v) :
    parse (write gap [] v) = some v := by
  have hend : Ends [] := by
    intro c hc
    cases hc
  have hread := value_write hgap hv (List.forall_mem_nil _) (Nat.le_succ _) hend
  rw [List.append_nil] at hread
  rw [parse, hread]
  rfl

end RoundTrip

end RiskClaw.JsonText
