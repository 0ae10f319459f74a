import RiskClaw.ConfigPatch
import RiskClaw.TextPieces

/-!
# The grammar of the shared configuration

A configuration text is made of blanks, comments and declarations of the form
`export const NAME: TYPE = VALUE;`. Where a declaration ends is decided by the
lexical structure of the language: its first semicolon outside of all brackets,
strings, templates and comments. The items of a text are determined by the text,
and white space at its end can be removed without changing a declaration. What a
module exports is looked up in the same way: a marker inside a comment or a string
declares nothing.
-/

namespace RiskClaw.ConfigGrammar

open LeftmostSearch ConfigPatch TextPieces

section Lexer

/-- An open bracket. -/
inductive Bracket where
  /-- A parenthesis. -/
  | round
  /-- A bracket. -/
  | square
  /-- A brace. -/
  | curly
  /-- The brace of a substitution inside a template. -/
  | substitution
  deriving DecidableEq

/-- Where the lexer is; the brackets are those around the place. -/
inductive Mode where
  /-- In code. -/
  | code (stack : List Bracket)
  /-- After a slash in code. -/
  | slash (stack : List Bracket)
  /-- In a comment up to the end of the line. -/
  | lineComment (stack : List Bracket)
  /-- In a comment up to its closing mark. -/
  | blockComment (stack : List Bracket)
  /-- After an asterisk in such a comment. -/
  | asterisk (stack : List Bracket)
  /-- In a string with the given quotation mark. -/
  | string (mark : Char) (stack : List Bracket)
  /-- After a backslash in a string. -/
  | escape (mark : Char) (stack : List Bracket)
  /-- In a template. -/
  | template (stack : List Bracket)
  /-- After a backslash in a template. -/
  | templateEscape (stack : List Bracket)
  /-- After a dollar sign in a template. -/
  | dollar (stack : List Bracket)
  deriving DecidableEq

/-- The characters that end a line. -/
def isLineEnd (c : Char) : Bool := c.toNat ∈ [0xA, 0xD, 0x2028, 0x2029]

/-- Closing the innermost bracket. -/
def close (bracket : Bracket) : List Bracket → Option Mode
  | [] => none
  | b :: stack => if b = bracket then some (.code stack) else none

/-- Closing the innermost brace. -/
def closeBrace : List Bracket → Option Mode
  | .curly :: stack => some (.code stack)
  | .substitution :: stack => some (.template stack)
  | _ => none

/-- After a character in code. -/
def nextCode (stack : List Bracket) (c : Char) : Option Mode :=
  if c = '(' then some (.code (.round :: stack))
  else if c = '[' then some (.code (.square :: stack))
  else if c = '\x7b' then some (.code (.curly :: stack))
  else if c = ')' then close .round stack
  else if c = ']' then close .square stack
  else if c = '\x7d' then closeBrace stack
  else if c = Char.ofNat 34 ∨ c = Char.ofNat 39 then some (.string c stack)
  else if c = Char.ofNat 96 then some (.template stack)
  else if c = '/' then some (.slash stack)
  else some (.code stack)

/-- After a character in a string; a line cannot end in it. -/
def nextString (mark : Char) (stack : List Bracket) (c : Char) : Option Mode :=
  if c = mark then some (.code stack)
  else if c = Char.ofNat 92 then some (.escape mark stack)
  else if c = '\n' ∨ c = '\r' then none
  else some (.string mark stack)

/-- After a character in a template. -/
def nextTemplate (stack : List Bracket) (c : Char) : Mode :=
  if c = Char.ofNat 96 then .code stack
  else if c = Char.ofNat 92 then .templateEscape stack
  else if c = '$' then .dollar stack
  else .template stack

/-- After a character. -/
def next : Mode → Char → Option Mode
  | .code stack, c => nextCode stack c
  | .slash stack, c =>
    if c = '/' then some (.lineComment stack)
    else if c = '*' then some (.blockComment stack)
    else nextCode stack c
  | .lineComment stack, c =>
    some (if isLineEnd c = true then .code stack else .lineComment stack)
  | .blockComment stack, c => some (if c = '*' then .asterisk stack else .blockComment stack)
  | .asterisk stack, c =>
    some (if c = '/' then .code stack else if c = '*' then .asterisk stack
      else .blockComment stack)
  | .string mark stack, c => nextString mark stack c
  | .escape mark stack, _ => some (.string mark stack)
  | .template stack, c => some (nextTemplate stack c)
  | .templateEscape stack, _ => some (.template stack)
  | .dollar stack, c =>
    some (if c = '\x7b' then .code (.substitution :: stack) else nextTemplate stack c)

/-- The text after the first semicolon in code outside of all brackets. -/
def afterStatement : Mode → Text → Option Text
  | _, [] => none
  | mode, c :: text =>
    if c = ';' ∧ mode = .code [] then some text
    else
      match next mode c with
      | none => none
      | some mode => afterStatement mode text

/-- The text has an equals sign in code outside of all brackets that is not part
of an arrow. -/
def hasAssignment : Mode → Text → Bool
  | _, [] => false
  | mode, c :: text =>
    if c = '=' ∧ text.head? ≠ some '>' ∧ mode = .code [] then true
    else
      match next mode c with
      | none => false
      | some mode => hasAssignment mode text

/-- Where the lexer is after a text. -/
def lex : Mode → Text → Option Mode
  | mode, [] => some mode
  | mode, c :: text => (next mode c).bind fun mode => lex mode text

/-- The text after the first occurrence of a pattern in code outside of all
brackets. -/
def exported (pattern : Text) : Mode → Text → Option Text
  | _, [] => none
  | mode, c :: text =>
    match if mode = .code [] then literal pattern (c :: text) else none with
    | some rest => some rest
    | none => (next mode c).bind fun mode => exported pattern mode text

theorem lex_append (mode : Mode) (x y : Text) :
    lex mode (x ++ y) = (lex mode x).bind fun mode => lex mode y := by
  induction x generalizing mode with
  | nil => rfl
  | cons c x ih =>
    rw [List.cons_append, lex, lex]
    cases next mode c with
    | none => rfl
    | some mode' => exact ih mode'

/-- Texts after each of which the lexer is where it was before. -/
theorem lex_append_same {mode : Mode} {x y : Text} (hx : lex mode x = some mode)
    (hy : lex mode y = some mode) : lex mode (x ++ y) = some mode := by
  rw [lex_append, hx, Option.bind_some, hy]

/-- A text that its last semicolon closes ends in code outside of all brackets. -/
theorem lex_of_closed {mode : Mode} {text : Text}
    (h : afterStatement mode (text ++ [';']) = some []) : lex mode text = some (.code []) := by
  induction text generalizing mode with
  | nil =>
    rw [List.nil_append, afterStatement] at h
    by_cases hmode : mode = .code []
    · rw [hmode, lex]
    · rw [if_neg fun hend => hmode hend.2] at h
      cases hnext : next mode ';' with
      | none =>
        rw [hnext] at h
        cases h
      | some mode' =>
        rw [hnext] at h
        cases h
  | cons c text ih =>
    rw [List.cons_append, afterStatement] at h
    by_cases hend : c = ';' ∧ mode = .code []
    · rw [if_pos hend, Option.some.injEq] at h
      exact absurd h (List.concat_ne_nil _ _)
    · rw [if_neg hend] at h
      rw [lex]
      cases hnext : next mode c with
      | none =>
        rw [hnext] at h
        cases h
      | some mode' =>
        rw [hnext] at h
        exact ih h

/-- A pattern that stands in code outside of all brackets and nowhere before is
what is exported. -/
theorem exported_of_first {pattern front rest : Text} (hpattern : pattern ≠ []) {mode : Mode}
    (hlex : lex mode front = some (.code []))
    (hfirst : ∀ q, q <:+ front → q ≠ [] → literal pattern (q ++ (pattern ++ rest)) = none) :
    exported pattern mode (front ++ (pattern ++ rest)) = some rest := by
  induction front generalizing mode with
  | nil =>
    have hmode : mode = .code [] := Option.some.inj hlex
    obtain ⟨c, tail, hcons⟩ := List.exists_cons_of_ne_nil hpattern
    have hliteral := literal_append pattern rest
    rw [hcons, List.cons_append] at hliteral
    rw [List.nil_append, hcons, List.cons_append, exported, if_pos hmode, hliteral]
  | cons c front ih =>
    have hhere := hfirst _ (List.suffix_refl _) (List.cons_ne_nil c front)
    rw [List.cons_append] at hhere
    rw [List.cons_append, exported, hhere, ite_self]
    dsimp only
    rw [lex] at hlex
    cases hnext : next mode c with
    | none =>
      rw [hnext] at hlex
      cases hlex
    | some mode' =>
      rw [hnext] at hlex
      exact ih hlex fun q hq hne => hfirst q (hq.trans (List.suffix_cons c front)) hne

/-- What is exported stands somewhere in the text. -/
theorem exported_split {pattern text rest : Text} {mode : Mode}
    (h : exported pattern mode text = some rest) : ∃ front, text = front ++ (pattern ++ rest) := by
  induction text generalizing mode with
  | nil => cases h
  | cons c text ih =>
    rw [exported] at h
    split at h
    · rename_i found hfound
      cases h
      split_ifs at hfound
      have htext := literal_eq_some_iff.mp hfound
      exact ⟨[], htext⟩
    · obtain ⟨mode', -, hrest⟩ := Option.bind_eq_some_iff.mp h
      obtain ⟨front, rfl⟩ := ih hrest
      exact ⟨c :: front, rfl⟩

/-- The first occurrence of a pattern is what is exported, if it stands in code outside
of all brackets. -/
theorem exported_of_leftmost {pattern text front rest : Text} (hpattern : pattern ≠ [])
    (h : leftmost (literal pattern) text = some (front, rest)) {mode : Mode}
    (hlex : lex mode front = some (.code [])) : exported pattern mode text = some rest := by
  obtain ⟨s, rfl, hs, hfirst⟩ := leftmost_split h
  rw [literal_eq_some_iff.mp hs] at hfirst ⊢
  exact exported_of_first hpattern hlex hfirst

/-- In strings the mark is no white space. -/
def Mode.Marked : Mode → Prop
  | .string mark _ => isWhiteSpace mark = false
  | .escape mark _ => isWhiteSpace mark = false
  | _ => True

theorem nextCode_marked {stack : List Bracket} {c : Char} {mode : Mode}
    (h : nextCode stack c = some mode) : mode.Marked := by
  have hdouble : isWhiteSpace (Char.ofNat 34) = false := by decide
  have hsingle : isWhiteSpace (Char.ofNat 39) = false := by decide
  unfold nextCode close closeBrace at h
  grind [Mode.Marked]

theorem next_marked {mode mode' : Mode} (hmode : mode.Marked) {c : Char}
    (h : next mode c = some mode') : mode'.Marked := by
  cases mode with
  | code stack => exact nextCode_marked h
  | slash stack =>
    simp only [next] at h
    split_ifs at h
    · cases h
      trivial
    · cases h
      trivial
    · exact nextCode_marked h
  | _ => grind [next, nextString, nextTemplate, Mode.Marked]

theorem lex_marked {mode mode' : Mode} (hmode : mode.Marked) {text : Text}
    (h : lex mode text = some mode') : mode'.Marked := by
  induction text generalizing mode with
  | nil => exact Option.some.inj h ▸ hmode
  | cons c text ih =>
    obtain ⟨mode'', hnext, hrest⟩ := Option.bind_eq_some_iff.mp h
    exact ih (next_marked hmode hnext) hrest

/-- In code outside of all brackets at the end of the line at least. -/
def Ready (mode : Mode) : Prop := mode = .code [] ∨ mode = .slash [] ∨ mode = .lineComment []

theorem Ready.line {mode : Mode} (h : Ready mode) : lex mode ['\n', '\n'] = some (.code []) := by
  rcases h with rfl | rfl | rfl <;> rfl

/-- White space brings the lexer nowhere where it would not be at the end of the line. -/
theorem ready_of_next {mode mode' : Mode} (hmode : mode.Marked) {c : Char}
    (hc : isWhiteSpace c = true) (h : next mode c = some mode') (hready : Ready mode') :
    Ready mode := by
  have hspecial : ∀ d, isWhiteSpace d = false → c ≠ d := by
    rintro d hd rfl
    exact absurd (hd.symm.trans hc) Bool.false_ne_true
  have hcode : ∀ stack, nextCode stack c = some (.code stack) := by
    intro stack
    have hnone : (['(', '[', '\x7b', ')', ']', '\x7d', Char.ofNat 34, Char.ofNat 39,
        Char.ofNat 96, '/'].all fun d => !isWhiteSpace d) = true := by decide
    simp only [List.all_cons, List.all_nil, Bool.and_true, Bool.and_eq_true,
      Bool.not_eq_eq_eq_not, Bool.not_true] at hnone
    simp [nextCode, hspecial, hnone]
  have hstar : c ≠ '*' := hspecial '*' (by decide)
  have hslash : c ≠ '/' := hspecial '/' (by decide)
  have htick : c ≠ Char.ofNat 96 := hspecial _ (by decide)
  have hbrace : c ≠ '\x7b' := hspecial _ (by decide)
  cases mode with
  | string mark stack =>
    have hmark : c ≠ mark := hspecial mark hmode
    grind [next, nextString, Ready]
  | _ => grind [next, nextTemplate, Ready]

/-- White space at the end of a text in code can be replaced by the end of a line. -/
theorem lex_trimEnd {text : Text} (h : lex (.code []) text = some (.code [])) :
    lex (.code []) (trimEnd text ++ ['\n', '\n']) = some (.code []) := by
  have hready : ∀ blank mode, mode.Marked → (∀ c ∈ blank, isWhiteSpace c = true) →
      lex mode blank = some (.code []) → Ready mode := by
    intro blank
    induction blank with
    | nil => exact fun mode _ _ hlex => Or.inl (Option.some.inj hlex)
    | cons c blank ih =>
      intro mode hmode hblank hlex
      obtain ⟨mode', hnext, hrest⟩ := Option.bind_eq_some_iff.mp hlex
      refine ready_of_next hmode (hblank c List.mem_cons_self) hnext ?_
      exact ih mode' (next_marked hmode hnext)
        (fun d hd => hblank d (List.mem_cons_of_mem c hd)) hrest
  have hsplit : trimEnd text ++ text.rtakeWhile isWhiteSpace = text :=
    List.rdropWhile_append_rtakeWhile
  rw [← hsplit, lex_append] at h
  obtain ⟨mode, hlex, hrest⟩ := Option.bind_eq_some_iff.mp h
  have hcode : (Mode.code []).Marked := trivial
  rw [lex_append, hlex, Option.bind_some]
  exact (hready _ mode (lex_marked hcode hlex)
    (fun c hc => List.mem_rtakeWhile_imp hc) hrest).line

/-- Where a statement ends does not depend on what follows it. -/
theorem afterStatement_append {mode : Mode} {text rest : Text}
    (h : afterStatement mode text = some rest) (more : Text) :
    afterStatement mode (text ++ more) = some (rest ++ more) := by
  induction text generalizing mode with
  | nil => cases h
  | cons c text ih =>
    rw [List.cons_append, afterStatement]
    rw [afterStatement] at h
    by_cases hend : c = ';' ∧ mode = .code []
    · rw [if_pos hend] at h ⊢
      rw [Option.some.inj h]
    · rw [if_neg hend] at h ⊢
      cases hnext : next mode c with
      | none =>
        rw [hnext] at h
        cases h
      | some mode' =>
        rw [hnext] at h
        exact ih h

end Lexer

/-- The characters of a name. -/
def isNameChar (c : Char) : Bool :=
  c.isAlphanum || c = '_' || c = '$' || (128 ≤ c.toNat && !isWhiteSpace c)

/-- A declaration `export const NAME: TYPE = VALUE;`. -/
structure Declaration where
  /-- Its name. -/
  name : Text
  /-- What stands between colon and semicolon: type, equals sign and value. -/
  body : Text
  /-- The name is one. -/
  named : name ≠ [] ∧ ∀ c ∈ name, isNameChar c = true
  /-- The semicolon after the body is the end of the statement. -/
  closed : afterStatement (.code []) (body ++ [';']) = some []
  /-- The body has its equals sign. -/
  assigned : hasAssignment (.code []) body = true
  deriving DecidableEq

/-- `export const `. -/
def exportConst : Text := "export const ".toList

/-- The text of a declaration. -/
def Declaration.text (d : Declaration) : Text :=
  exportConst ++ (d.name ++ ':' :: (d.body ++ [';']))

/-- The text of a comment on one line, after its slashes. -/
structure CommentLine where
  /-- The text. -/
  body : Text
  /-- No line ends in it. -/
  oneLine : ∀ c ∈ body, isLineEnd c = false
  deriving DecidableEq

/-- One piece of a configuration. -/
inductive Item where
  /-- White space or the end of a line. -/
  | blank (c : Char) (white : isWhiteSpace c = true)
  /-- A comment up to the end of its line. -/
  | lineComment (line : CommentLine) (stop : Char) (ends : isLineEnd stop = true)
  /-- A comment between marks; the closing one is the first. -/
  | blockComment (body : Text)
    (first : leftmost (literal "*/".toList) (body ++ "*/".toList) = some (body, []))
  /-- A declaration. -/
  | declaration (d : Declaration)
  deriving DecidableEq

namespace Item

/-- The text of an item. -/
def text : Item → Text
  | blank c _ => [c]
  | lineComment line stop _ => "//".toList ++ (line.body ++ [stop])
  | blockComment body _ => "/*".toList ++ (body ++ "*/".toList)
  | declaration d => d.text

/-- The declaration, if it is one. -/
def declaration? : Item → Option Declaration
  | declaration d => some d
  | _ => none

end Item

/-- A configuration: its items, and a comment that the end of the file cuts off. -/
structure Config where
  /-- The items, in order. -/
  items : List Item
  /-- A comment on the last line without a line end. -/
  last : Option CommentLine
  deriving DecidableEq

/-- The text of a comment without a line end. -/
def unfinishedText : Option CommentLine → Text
  | none => []
  | some line => "//".toList ++ line.body

/-- The text of a configuration. -/
def Config.text (c : Config) : Text := encode Item.text c.items ++ unfinishedText c.last

section Reading

theorem colon_not_name {name : Text} (h : ∀ c ∈ name, isNameChar c = true) :
    ∀ c ∈ name, (c == ':') = false := by
  intro c hc
  refine beq_false_of_ne ?_
  rintro rfl
  exact absurd (h ':' hc) (by decide)

/-- A declaration and what follows it are determined by the text. -/
theorem Declaration.text_unique {d e : Declaration} {x y : Text}
    (h : d.text ++ x = e.text ++ y) : d = e ∧ x = y := by
  unfold Declaration.text at h
  rw [List.append_assoc, List.append_assoc, List.append_assoc, List.append_assoc,
    List.cons_append, List.cons_append] at h
  have hrest := List.append_cancel_left h
  obtain ⟨hname, -, hbody⟩ := stop_unique (colon_not_name d.named.2)
    (colon_not_name e.named.2) (beq_self_eq_true ':') (beq_self_eq_true ':') hrest
  have hread := afterStatement_append d.closed x
  rw [hbody, afterStatement_append e.closed y] at hread
  have hxy : x = y := (Option.some.inj hread).symm
  refine ⟨?_, hxy⟩
  rw [hxy] at hbody
  have hsame := List.append_cancel_right (List.append_cancel_right hbody)
  obtain ⟨name, body, _, _, _⟩ := d
  obtain ⟨name', body', _, _, _⟩ := e
  change name = name' at hname
  change body = body' at hsame
  subst hname hsame
  rfl

/-- A comment between marks ends at the first closing mark. -/
theorem comment_closed {body : Text}
    (first : leftmost (literal "*/".toList) (body ++ "*/".toList) = some (body, []))
    (x : Text) :
    leftmost (literal "*/".toList) (body ++ ("*/".toList ++ x)) = some (body, x) := by
  obtain ⟨rest, hrest, -, hfail⟩ := leftmost_split first
  have hclose := List.append_cancel_left hrest
  refine leftmost_of_first (literal_append _ _) fun q hq hne => ?_
  have hnone := literal_eq_none_iff.mp (hfail q hq hne)
  rw [← hclose] at hnone
  refine literal_eq_none_iff.mpr fun h => hnone ?_
  rw [← List.append_assoc] at h
  refine (prefix_append_iff ?_).mp h
  rw [List.length_append]
  omega

/-- What the first two characters of a text say about its first item. -/
def kindOf : Text → ℕ
  | '/' :: '/' :: _ => 1
  | '/' :: '*' :: _ => 2
  | 'e' :: _ => 3
  | _ => 0

/-- The kind of an item. -/
def Item.kind : Item → ℕ
  | blank _ _ => 0
  | lineComment _ _ _ => 1
  | blockComment _ _ => 2
  | declaration _ => 3

theorem kindOf_text (i : Item) (x : Text) : kindOf (i.text ++ x) = i.kind := by
  cases i with
  | blank c white =>
    have hslash : c ≠ '/' := by
      rintro rfl
      exact absurd white (by decide)
    have he : c ≠ 'e' := by
      rintro rfl
      exact absurd white (by decide)
    unfold kindOf Item.text Item.kind
    split <;> simp_all
  | lineComment line stop ends => rfl
  | blockComment body first => rfl
  | declaration d => rfl

/-- An item and what follows it are determined by the text. -/
theorem item_unique (i j : Item) (x y : Text) (h : i.text ++ x = j.text ++ y) :
    i = j ∧ x = y := by
  have hkind : i.kind = j.kind := by rw [← kindOf_text i x, h, kindOf_text]
  cases i with
  | blank c white =>
    cases j with
    | blank d white' =>
      obtain ⟨rfl, hxy⟩ := List.cons.inj h
      exact ⟨rfl, hxy⟩
    | lineComment => cases hkind
    | blockComment => cases hkind
    | declaration => cases hkind
  | lineComment line stop ends =>
    cases j with
    | lineComment line' stop' ends' =>
      simp only [Item.text, List.append_assoc, List.append_cancel_left_eq] at h
      obtain ⟨hbody, rfl, hxy⟩ := stop_unique line.oneLine line'.oneLine ends ends' h
      refine ⟨?_, hxy⟩
      cases line
      cases line'
      simp_all only
    | blank => cases hkind
    | blockComment => cases hkind
    | declaration => cases hkind
  | blockComment body first =>
    cases j with
    | blockComment body' first' =>
      simp only [Item.text, List.append_assoc, List.append_cancel_left_eq] at h
      have hread := comment_closed first x
      rw [h, comment_closed first' y] at hread
      obtain ⟨rfl, rfl⟩ := Prod.mk.inj (Option.some.inj hread)
      exact ⟨rfl, rfl⟩
    | blank => cases hkind
    | lineComment => cases hkind
    | declaration => cases hkind
  | declaration d =>
    cases j with
    | declaration e =>
      obtain ⟨rfl, hxy⟩ := Declaration.text_unique h
      exact ⟨rfl, hxy⟩
    | blank => cases hkind
    | lineComment => cases hkind
    | blockComment => cases hkind

theorem items_prefixFree : PrefixFree Item.text where
  nonempty i h := by
    cases i with
    | blank c white => cases h
    | lineComment line stop ends => cases h
    | blockComment body first => cases h
    | declaration d => cases h
  unique := item_unique

/-- A comment without a line end is no item. -/
theorem unfinishedText_unfinished (last : Option CommentLine) :
    Unfinished Item.text (unfinishedText last) := by
  cases last with
  | none => exact unfinished_nil items_prefixFree
  | some line =>
    intro i x h
    have hkind : i.kind = 1 := by
      rw [← kindOf_text i x, h]
      rfl
    cases i with
    | blank => cases hkind
    | blockComment => cases hkind
    | declaration => cases hkind
    | lineComment line' stop ends =>
      simp only [Item.text, unfinishedText, List.append_assoc, List.append_cancel_left_eq] at h
      have hstop : stop ∈ line.body := by
        rw [← h]
        simp
      exact absurd ends (by rw [line.oneLine stop hstop]; decide)

/-- A text that begins with the text of some items is read as these items first. -/
theorem Config.text_split {c : Config} {front : List Item} {w : Text}
    (h : encode Item.text front ++ w = c.text) :
    ∃ back : Config, c = ⟨front ++ back.items, back.last⟩ ∧ w = back.text := by
  obtain ⟨zs, hitems, hw⟩ := encode_split items_prefixFree (unfinishedText_unfinished c.last) h
  refine ⟨⟨zs, c.last⟩, ?_, hw⟩
  cases c
  simp_all only

/-- A text has one reading at most. -/
theorem Config.text_inj {c d : Config} (h : c.text = d.text) : c = d := by
  obtain ⟨hitems, hlast⟩ := encode_inj items_prefixFree (unfinishedText_unfinished c.last)
    (unfinishedText_unfinished d.last) h
  obtain ⟨items, last⟩ := c
  obtain ⟨items', last'⟩ := d
  change items = items' at hitems
  subst hitems
  cases last with
  | none =>
    cases last' with
    | none => rfl
    | some line => cases hlast
  | some line =>
    cases last' with
    | none => cases hlast
    | some line' =>
      have hbody : line.body = line'.body := List.append_cancel_left hlast
      cases line
      cases line'
      simp_all only

end Reading

section Declarations

/-- The declarations among some items, in order. -/
def declarations (items : List Item) : List Declaration := items.filterMap Item.declaration?

theorem declarations_append (xs ys : List Item) :
    declarations (xs ++ ys) = declarations xs ++ declarations ys := List.filterMap_append

/-- How the text of a configuration begins. -/
theorem Config.head_cases {c : Config} {ch : Char} (h : c.text.head? = some ch) :
    isWhiteSpace ch = true ∨ ch = '/' ∨ ch = 'e' := by
  obtain ⟨items, last⟩ := c
  cases items with
  | nil =>
    cases last with
    | none => cases h
    | some line => exact Or.inr (Or.inl (Option.some.inj h).symm)
  | cons i items =>
    cases i with
    | blank c white => exact Or.inl (Option.some.inj h ▸ white)
    | lineComment line stop ends => exact Or.inr (Or.inl (Option.some.inj h).symm)
    | blockComment body first => exact Or.inr (Or.inl (Option.some.inj h).symm)
    | declaration d => exact Or.inr (Or.inr (Option.some.inj h).symm)

/-- Nothing is removed in front of a character that is no white space. -/
theorem trimEnd_solid {c : Char} (hc : isWhiteSpace c = false) (x y : Text) :
    trimEnd (x ++ c :: y) = x ++ c :: trimEnd y := by
  have hsolid : ¬isWhiteSpace c = true := by
    rw [hc]
    exact Bool.false_ne_true
  unfold trimEnd
  induction y using List.reverseRecOn with
  | nil => exact List.rdropWhile_concat_neg _ x c hsolid
  | append_singleton y d ih =>
    rw [← List.cons_append, ← List.append_assoc]
    by_cases hd : isWhiteSpace d = true
    · rw [List.rdropWhile_concat_pos _ _ _ hd, List.rdropWhile_concat_pos _ _ _ hd]
      exact ih
    · rw [List.rdropWhile_concat_neg _ _ _ hd, List.rdropWhile_concat_neg _ _ _ hd,
        List.append_assoc]
      rfl

theorem trimEnd_concat {c : Char} (hc : isWhiteSpace c = false) (x : Text) :
    trimEnd (x ++ [c]) = x ++ [c] := trimEnd_solid hc x []

theorem isWhiteSpace_lineEnd {c : Char} (h : isLineEnd c = true) : isWhiteSpace c = true := by
  simp only [isLineEnd, List.mem_cons, List.not_mem_nil, or_false, decide_eq_true_eq] at h
  rcases h with h | h | h | h
  iterate 4
    rw [isWhiteSpace, h]
    decide

/-- A comment line without the white space at its end. -/
def CommentLine.trimmed (line : CommentLine) : CommentLine where
  body := trimEnd line.body
  oneLine c hc := line.oneLine c ((List.rdropWhile_prefix isWhiteSpace line.body).subset hc)

theorem trimEnd_unfinished (x : Text) (line : CommentLine) :
    trimEnd (x ++ unfinishedText (some line)) = x ++ unfinishedText (some line.trimmed) := by
  have hslash : isWhiteSpace '/' = false := by decide
  have htext : ∀ body, "//".toList ++ body = '/' :: ('/' :: body) := fun _ => rfl
  rw [unfinishedText, unfinishedText, htext, htext, trimEnd_solid hslash]
  congr 2
  exact trimEnd_solid hslash [] line.body

/-- What is left of a configuration without the white space at its end is one
with the same declarations. -/
theorem Config.trimmed (c : Config) :
    ∃ d : Config, trimEnd c.text = d.text ∧ declarations d.items = declarations c.items := by
  obtain ⟨items, last⟩ := c
  cases last with
  | some line => exact ⟨⟨items, some line.trimmed⟩, trimEnd_unfinished _ line, rfl⟩
  | none =>
    induction items using List.reverseRecOn with
    | nil => exact ⟨⟨[], none⟩, rfl, rfl⟩
    | append_singleton items i ih =>
      have htext : (⟨items ++ [i], none⟩ : Config).text = encode Item.text items ++ i.text := by
        rw [Config.text, encode_append, encode_cons, encode_nil, List.append_nil, unfinishedText,
          List.append_nil]
      rw [htext, declarations_append]
      cases i with
      | blank c white =>
        obtain ⟨d, hd, hdeclarations⟩ := ih
        refine ⟨d, ?_, by rw [hdeclarations]; exact (List.append_nil _).symm⟩
        rw [← hd, Config.text, unfinishedText, List.append_nil]
        exact List.rdropWhile_concat_pos _ _ _ white
      | lineComment line stop ends =>
        refine ⟨⟨items, some line.trimmed⟩, ?_, (List.append_nil _).symm⟩
        have hstop : (Item.lineComment line stop ends).text =
            unfinishedText (some line) ++ [stop] := by
          rw [Item.text, unfinishedText, List.append_assoc]
        rw [hstop, ← List.append_assoc, Config.text, ← trimEnd_unfinished]
        exact List.rdropWhile_concat_pos _ _ _ (isWhiteSpace_lineEnd ends)
      | blockComment body first =>
        refine ⟨⟨items ++ [.blockComment body first], none⟩, ?_, declarations_append _ _⟩
        have hclose : "*/".toList = ['*'] ++ ['/'] := rfl
        have hend : (Item.blockComment body first).text =
            "/*".toList ++ (body ++ ['*']) ++ ['/'] := by
          simp only [Item.text, hclose, List.append_assoc]
        rw [htext, hend, ← List.append_assoc]
        exact trimEnd_concat (by decide) _
      | declaration d =>
        refine ⟨⟨items ++ [.declaration d], none⟩, ?_, declarations_append _ _⟩
        have hend : (Item.declaration d).text =
            exportConst ++ (d.name ++ ':' :: d.body) ++ [';'] := by
          simp only [Item.text, Declaration.text, List.append_assoc, List.cons_append]
        rw [htext, hend, ← List.append_assoc]
        exact trimEnd_concat (by decide) _

/-- With an end of line, every configuration is a sequence of items. -/
theorem Config.lined (c : Config) : ∃ items, c.text ++ ['\n'] = encode Item.text items ∧
    declarations items = declarations c.items := by
  obtain ⟨items, last⟩ := c
  cases last with
  | none =>
    refine ⟨items ++ [.blank '\n' (by decide)], ?_, ?_⟩
    · rw [encode_append, Config.text, unfinishedText, List.append_nil]
      rfl
    · rw [declarations_append]
      exact List.append_nil _
  | some line =>
    refine ⟨items ++ [.lineComment line '\n' (by decide)], ?_, ?_⟩
    · rw [encode_append, encode_cons, encode_nil, List.append_nil, Config.text, unfinishedText,
        List.append_assoc, List.append_assoc]
      rfl
    · rw [declarations_append]
      exact List.append_nil _

end Declarations

section Declared

/-- A module that imports the text finds the declaration of the registry, with its
semicolon or at the end of the text. -/
def Declares (registry : Registry) (config : Text) : Prop :=
  ∃ rest, exported marker (.code []) config = some (declaredType ++ (stringify registry ++ rest)) ∧
    ∀ c, rest.head? = some c → c = ';'

/-- The declaration of a registry without its semicolon. -/
def unclosed (registry : Registry) : Text := marker ++ (declaredType ++ stringify registry)

/-- What stands in front of the declaration of agents ends in code outside of all
brackets. -/
def Exposed (config : Text) : Prop := lex (.code []) (frontOf config) = some (.code [])

instance (config : Text) : Decidable (Exposed config) :=
  inferInstanceAs (Decidable (lex (.code []) (frontOf config) = some (.code [])))

variable {front rest config : Text} {r s : Registry}

/-- A text declares one registry at most. -/
theorem declares_unique (hr : Declares r config) (hs : Declares s config) : r = s := by
  obtain ⟨rest, hr, -⟩ := hr
  obtain ⟨rest', hs, -⟩ := hs
  have htext := Option.some.inj (hr.symm.trans hs)
  exact (stringify_inj (List.append_cancel_left htext)).1

theorem block_append (registry : Registry) (rest : Text) :
    block registry ++ rest = unclosed registry ++ (';' :: rest) := by
  have hend : ";".toList = [';'] := rfl
  simp only [block, declarationOf, unclosed, hend, List.append_assoc, List.cons_append,
    List.nil_append]

/-- A text with the declaration of a registry behind its front, which no marker
precedes and which ends in code. -/
structure Leads (front : Text) (r : Registry) (text : Text) : Prop where
  /-- The declaration. -/
  written : ∃ rest, text = front ++ (unclosed r ++ rest) ∧ ∀ c, rest.head? = some c → c = ';'
  /-- No marker precedes it. -/
  first : ∀ x, Unmarked front (marker ++ x)
  /-- The front. -/
  code : lex (.code []) front = some (.code [])

namespace Leads

theorem exposed (h : Leads front r config) : Exposed config := by
  obtain ⟨rest, rfl, -⟩ := h.written
  rw [unclosed, List.append_assoc, Exposed, frontOf_marked (h.first _)]
  exact h.code

theorem declares (h : Leads front r config) : Declares r config := by
  obtain ⟨rest, rfl, hend⟩ := h.written
  rw [unclosed, List.append_assoc, List.append_assoc]
  exact ⟨rest, exported_of_first (List.cons_ne_nil _ _) h.code (h.first _), hend⟩

/-- Such a text declares the registry and no other. -/
theorem declares_iff (h : Leads front r config) (declared : Registry) :
    Declares declared config ↔ declared = r := by
  constructor
  · exact fun hdeclared => declares_unique hdeclared h.declares
  · rintro rfl
    exact h.declares

/-- What is left of such a text is one, or it is cut off in front of the end of the
declaration. -/
theorem cut (h : Leads front r config) {text : Text} (hbegin : text <+: config)
    (hlength : (front ++ unclosed r).length ≤ text.length) : Leads front r text := by
  obtain ⟨rest, rfl, hend⟩ := h.written
  refine ⟨?_, h.first, h.code⟩
  rw [← List.append_assoc] at hbegin
  obtain ⟨more, rfl⟩ := List.prefix_of_prefix_length_le (List.prefix_append _ _) hbegin hlength
  refine ⟨more, List.append_assoc _ _ _, fun c hc => ?_⟩
  obtain ⟨tail, htail⟩ := hbegin
  rw [List.append_assoc] at htail
  rw [← List.append_cancel_left htail] at hend
  exact hend c (by rw [List.head?_append, hc]; rfl)

/-- A text that is cut off in front of the end of the declaration does not declare the
registry. -/
theorem not_declares (h : Leads front r config) {text : Text} (hbegin : text <+: config)
    (hlength : text.length < (front ++ unclosed r).length) : ¬Declares r text := by
  rintro ⟨more, hexported, -⟩
  obtain ⟨q, rfl⟩ := exported_split hexported
  obtain ⟨tail, htail⟩ := hbegin
  obtain ⟨rest, hrest, -⟩ := h.written
  have hboth : q ++ (marker ++ (declaredType ++ (stringify r ++ (more ++ tail)))) =
      front ++ (marker ++ (declaredType ++ (stringify r ++ rest))) := by
    rw [hrest, unclosed] at htail
    simpa only [List.append_assoc] using htail
  -- A marker before the written one would be the first.
  have hfront : front.length ≤ q.length := by
    rcases List.append_eq_append_iff.mp hboth with ⟨z, hz, hmarked⟩ | ⟨z, hz, -⟩
    · cases z with
      | nil => rw [hz, List.append_nil]
      | cons d z =>
        have hnone := h.first (declaredType ++ (stringify r ++ rest)) (d :: z) ⟨q, hz.symm⟩
          (List.cons_ne_nil d z)
        rw [← hmarked, literal_append] at hnone
        cases hnone
    · rw [hz, List.length_append]
      exact Nat.le_add_right _ _
  rw [unclosed] at hlength
  simp only [List.length_append] at hlength
  omega

end Leads

/-- A patch that does not throw leads an exposed text to its declaration. -/
theorem patchConfig_leads {before after : Text} (hplain : Plain r) (hexposed : Exposed before)
    (h : patchConfig r before = .ok after) : Leads (frontOf before) r after := by
  obtain ⟨rest, rfl, hfirst⟩ := patchConfig_written hplain h
  refine ⟨⟨';' :: '\n' :: rest, ?_, fun c hc => (Option.some.inj hc).symm⟩, fun x => ?_, hexposed⟩
  · rw [block_append]
  · rw [block, List.append_assoc] at hfirst
    exact hfirst.replace x

end Declared

end RiskClaw.ConfigGrammar
