import RiskClaw.ConfigGrammar

/-!
# The declaration that the script writes

What the later proofs need of the text of a registry: it is one declaration of
the grammar, its lines are indented up to the closing one, so the expression
finds its end there, and every dollar sign in it stands inside a JSON string.
-/

namespace RiskClaw.RegistryBlock

open LeftmostSearch ConfigPatch TextPieces ConfigGrammar

section Shape

/-- The declaration up to the line of its closing brace. -/
def blockFront (registry : Registry) : Text :=
  marker ++ (declaredType ++ ("\x7b".toList ++ agentLines registry))

theorem block_eq {registry : Registry} (h : registry ≠ []) :
    block registry = blockFront registry ++ "\n\x7d;".toList := by
  have hclose : "\n\x7d;".toList = "\n\x7d".toList ++ ";".toList := rfl
  simp only [block, declarationOf, stringify_eq h, blockFront, hclose, List.append_assoc]

/-- A property of texts that holds of the strings of a registry and of what
stands around them holds of the declaration up to its closing line. -/
theorem blockFront_of_closed {P : Text → Prop} (h : Closed P) {registry : Registry} (hnil : P [])
    (hmarker : P marker) (htype : P declaredType) (hs : ∀ s ∈ strings registry, P (quote s)) :
    P (blockFront registry) := by
  have hbrace := h.append _ _ (h.layout "\x7b" (by decide)) (h.agentLines hnil hs)
  exact h.append _ _ hmarker (h.append _ _ htype hbrace)

end Shape

section Lines

/-- What follows an end of line is indented. -/
def Indented (text : Text) : Prop := Followed '\n' (fun s => s.head? = some ' ') text

theorem indented_append (s t : Text) (h : s.head? = some ' ') : (s ++ t).head? = some ' ' := by
  cases s with
  | nil => cases h
  | cons c s => exact h

theorem Indented.append {x y : Text} (hx : Indented x) (hy : Indented y) : Indented (x ++ y) :=
  Followed.append indented_append hx hy

theorem indented_line (text : Text) (htext : '\n' ∉ text) : Indented ('\n' :: ' ' :: text) := by
  intro s hs
  rcases List.suffix_cons_iff.mp hs with heq | hs
  · rw [(List.cons.inj heq).2]
    rfl
  · have hmem := hs.subset List.mem_cons_self
    rcases List.mem_cons.mp hmem with hspace | hmem
    · exact absurd hspace (by decide)
    · exact absurd hmem htext

/-- No line ends in a JSON string. -/
theorem quote_one_line (s : String) : '\n' ∉ quote s := by
  intro h
  rcases mem_quote h with hmark | ⟨c, -, hmem⟩
  · exact absurd hmark (by decide)
  · rcases mem_escape hmem with hsequence | ⟨rfl, hcontrol⟩
    · exact absurd hsequence (by decide)
    · exact hcontrol (by decide)

theorem indented_closed : Closed Indented where
  append _ _ := Indented.append
  key k _ := followed_of_not_mem (quote_one_line k)
  layout t ht := by
    simp only [List.mem_cons, List.not_mem_nil, or_false] at ht
    rcases ht with rfl | rfl | rfl | rfl | rfl | rfl
    · exact followed_of_not_mem (by decide)
    · exact indented_line "   ".toList (by decide)
    · exact indented_line " ".toList (by decide)
    · exact followed_of_not_mem (by decide)
    · exact followed_of_not_mem (by decide)
    · exact indented_line " \x7d".toList (by decide)

/-- Every line of the declaration but the first and the closing one is indented. -/
theorem blockFront_indented (registry : Registry) : Indented (blockFront registry) := by
  have hmarker : Indented marker := followed_of_not_mem (by decide)
  have htype : Indented declaredType := followed_of_not_mem (by decide)
  exact blockFront_of_closed indented_closed (followed_of_not_mem List.not_mem_nil) hmarker htype
    fun s _ => followed_of_not_mem (quote_one_line s)

/-- No line of an indented text is closing. -/
theorem no_closing_before {text : Text} (htext : Indented text) (q rest : Text)
    (hq : q <:+ text) (hne : q ≠ []) : ¬"\n\x7d;".toList <+: q ++ rest := by
  rintro ⟨tail, htail⟩
  cases q with
  | nil => exact hne rfl
  | cons c q =>
    obtain ⟨hc, hrest⟩ := List.cons.inj htail
    rw [← hc] at hq
    have hspace := htext q hq
    cases q with
    | nil => cases hspace
    | cons d q =>
      rw [List.head?_cons, Option.some.injEq] at hspace
      rw [hspace] at hrest
      exact absurd (List.cons.inj hrest).1 (by decide)

/-- The closing line of a declaration is the first one in it. -/
theorem closing_first {registry : Registry} {v x y : Text}
    (h : blockFront registry ++ ("\n\x7d;".toList ++ y) = v ++ ("\n\x7d;".toList ++ x)) :
    blockFront registry <+: v := by
  rcases List.append_eq_append_iff.mp h with ⟨q, hq, -⟩ | ⟨q, hq, hrest⟩
  · exact ⟨q, hq.symm⟩
  · cases q with
    | nil => exact ⟨[], by rw [hq, List.append_nil, List.append_nil]⟩
    | cons d q =>
      have hnone := no_closing_before (blockFront_indented registry) (d :: q)
        ("\n\x7d;".toList ++ y) ⟨v, hq.symm⟩ (List.cons_ne_nil d q)
      exact absurd ⟨x, hrest⟩ hnone

end Lines

section Lexing

/-- The lexer reads over the text and is in code again, inside the same brackets. -/
def Passes (text : Text) : Prop :=
  ∀ stack rest, afterStatement (.code stack) (text ++ rest) = afterStatement (.code stack) rest

/-- Characters that mean nothing to the lexer in code. -/
def isPlain (c : Char) : Bool :=
  c ∉ ['(', '[', '\x7b', ')', ']', '\x7d', Char.ofNat 34, Char.ofNat 39, Char.ofNat 96, '/', ';']

theorem nextCode_plain {c : Char} (h : isPlain c = true) (stack : List Bracket) :
    nextCode stack c = some (.code stack) := by
  simp only [isPlain, List.mem_cons, List.not_mem_nil, or_false, not_or, decide_eq_true_eq] at h
  obtain ⟨h₁, h₂, h₃, h₄, h₅, h₆, h₇, h₈, h₉, h₁₀, -⟩ := h
  simp only [nextCode, h₁, h₂, h₃, h₄, h₅, h₆, h₇, h₈, h₉, h₁₀, if_false, or_self]

theorem passes_plain {text : Text} (hplain : text.all isPlain = true) : Passes text := by
  have h := List.all_eq_true.mp hplain
  clear hplain
  intro stack rest
  induction text with
  | nil => rfl
  | cons c text ih =>
    have hc := h c List.mem_cons_self
    have hsemicolon : c ≠ ';' := by
      rintro rfl
      exact absurd hc (by decide)
    rw [List.cons_append, afterStatement, if_neg fun hend => hsemicolon hend.1, next,
      nextCode_plain hc]
    exact ih fun d hd => h d (List.mem_cons_of_mem c hd)

theorem Passes.append {x y : Text} (hx : Passes x) (hy : Passes y) : Passes (x ++ y) := by
  intro stack rest
  rw [List.append_assoc, hx, hy]

/-- Braces around a text that passes. -/
theorem Passes.braces {text : Text} (h : Passes text) :
    Passes ("\x7b".toList ++ (text ++ "\x7d".toList)) := by
  intro stack rest
  rw [List.append_assoc, List.append_assoc]
  change afterStatement (.code (.curly :: stack)) (text ++ ("\x7d".toList ++ rest)) = _
  rw [h]
  rfl

/-- Outside of code no character ends a statement. -/
theorem afterStatement_step {mode mode' : Mode} {c : Char} (hmode : mode ≠ .code [])
    (hnext : next mode c = some mode') (text : Text) :
    afterStatement mode (c :: text) = afterStatement mode' text := by
  rw [afterStatement, if_neg fun hend => hmode hend.2, hnext]

/-- An escaped character is part of its string. -/
theorem afterStatement_escape (c : Char) (stack : List Bracket) (rest : Text) :
    afterStatement (.string (Char.ofNat 34) stack) (escape c ++ rest) =
      afterStatement (.string (Char.ofNat 34) stack) rest := by
  have hstring : Mode.string (Char.ofNat 34) stack ≠ .code [] := nofun
  have hescape : Mode.escape (Char.ofNat 34) stack ≠ .code [] := nofun
  have hbackslash : ∀ (d : Char) (text : Text),
      afterStatement (.string (Char.ofNat 34) stack) (Char.ofNat 92 :: d :: text) =
        afterStatement (.string (Char.ofNat 34) stack) text := by
    intro d text
    rw [afterStatement_step hstring rfl, afterStatement_step hescape rfl]
  have hplain : ∀ {d : Char} (text : Text), d ≠ Char.ofNat 34 → d ≠ Char.ofNat 92 →
      d ≠ '\n' → d ≠ '\r' → afterStatement (.string (Char.ofNat 34) stack) (d :: text) =
        afterStatement (.string (Char.ofNat 34) stack) text := by
    intro d text hmark hslash hfeed hreturn
    refine afterStatement_step hstring ?_ text
    simp only [next, nextString, hmark, hslash, hfeed, hreturn, if_false, or_self]
  have hshape := escape_escaped c
  generalize escape c = sequence at hshape
  cases hshape with
  | short letter _ => exact hbackslash letter rest
  | control hcontrol =>
    have hdigit : ∀ n < 16, Nat.digitChar n ≠ Char.ofNat 34 ∧ Nat.digitChar n ≠ Char.ofNat 92 ∧
        Nat.digitChar n ≠ '\n' ∧ Nat.digitChar n ≠ '\r' := by decide
    obtain ⟨h₁, h₂, h₃, h₄⟩ := hdigit (c.toNat / 16) (by omega)
    obtain ⟨h₅, h₆, h₇, h₈⟩ := hdigit (c.toNat % 16) (by omega)
    have hzero : ∀ text, afterStatement (.string (Char.ofNat 34) stack) ('0' :: text) =
        afterStatement (.string (Char.ofNat 34) stack) text := fun text =>
      hplain text (by decide) (by decide) (by decide) (by decide)
    simp only [List.cons_append, List.nil_append]
    rw [hbackslash, hzero, hzero, hplain _ h₁ h₂ h₃ h₄, hplain _ h₅ h₆ h₇ h₈]
  | plain hcontrol hmark hslash =>
    have hfeed : c ≠ '\n' := by
      rintro rfl
      exact hcontrol (by decide)
    have hreturn : c ≠ '\r' := by
      rintro rfl
      exact hcontrol (by decide)
    exact hplain rest hmark hslash hfeed hreturn

/-- The lexer reads over a JSON string. -/
theorem quote_passes (s : String) : Passes (quote s) := by
  intro stack rest
  have hbody : ∀ cs : Text, afterStatement (.string (Char.ofNat 34) stack)
      (cs.flatMap escape ++ (Char.ofNat 34 :: rest)) = afterStatement (.code stack) rest := by
    intro cs
    induction cs with
    | nil => rfl
    | cons c cs ih =>
      rw [List.flatMap_cons, List.append_assoc, afterStatement_escape]
      exact ih
  rw [quote, List.append_assoc]
  exact hbody s.toList

theorem member_passes {indent : String} {value : Text}
    (hindent : indent.toList.all isPlain = true) (key : String) (hvalue : Passes value) :
    Passes (member indent key value) := by
  have hcolon : Passes ": ".toList := passes_plain (by decide)
  exact (((passes_plain hindent).append (quote_passes key)).append hcolon).append hvalue

/-- The lexer reads over an entry. -/
theorem entry_passes (e : AgentEntry) : Passes (stringifyEntry e) := by
  have hindent : "\n    ".toList.all isPlain = true := by decide
  have hcomma : Passes ",".toList := passes_plain (by decide)
  have hline : Passes "\n  ".toList := passes_plain (by decide)
  have hmint := member_passes hindent "mint" (quote_passes e.mint)
  have hpubkey := member_passes hindent "pubkey" (quote_passes e.pubkey)
  have hname := member_passes hindent "name" (quote_passes e.name)
  have hentry := (hmint.append (hcomma.append (hpubkey.append (hcomma.append
    (hname.append hline))))).braces
  have hclose : "\n  \x7d".toList = "\n  ".toList ++ "\x7d".toList := rfl
  have heq : stringifyEntry e = "\x7b".toList ++ ((member "\n    " "mint" (quote e.mint) ++
      (",".toList ++ (member "\n    " "pubkey" (quote e.pubkey) ++ (",".toList ++
      (member "\n    " "name" (quote e.name) ++ "\n  ".toList))))) ++ "\x7d".toList) := by
    simp only [stringifyEntry, hclose, List.append_assoc]
  rw [heq]
  exact hentry

/-- The lexer reads over the text of a registry. -/
theorem stringify_passes (registry : Registry) : Passes (stringify registry) := by
  have hagent : ∀ m, Passes (stringifyAgent m) := fun m =>
    member_passes (by decide) m.1 (entry_passes m.2)
  have hcomma : Passes ",".toList := passes_plain (by decide)
  have hline : Passes "\n".toList := passes_plain (by decide)
  cases registry with
  | nil =>
    have hempty : Passes [] := fun _ _ => rfl
    exact hempty.braces
  | cons m rest =>
    have hrest : Passes (rest.flatMap fun m => ",".toList ++ stringifyAgent m) := by
      induction rest with
      | nil => exact fun _ _ => rfl
      | cons m' rest ih =>
        rw [List.flatMap_cons]
        exact (hcomma.append (hagent m')).append ih
    have hall := ((hagent m).append (hrest.append hline)).braces
    have hclose : "\n\x7d".toList = "\n".toList ++ "\x7d".toList := rfl
    simpa only [stringify, hclose, List.append_assoc] using hall

/-- The type of the declaration is read over, and its equals sign is found. -/
theorem declaredType_passes (rest : Text) :
    afterStatement (.code []) (declaredType ++ rest) = afterStatement (.code []) rest := rfl

theorem declaredType_assigned (rest : Text) :
    hasAssignment (.code []) (declaredType ++ rest) = true := rfl

/-- The name of the declaration. -/
def agentsName : Text := "DEVNET_AGENTS".toList

/-- The declaration of a registry. -/
def agentsDeclaration (registry : Registry) : Declaration where
  name := agentsName
  body := declaredType ++ stringify registry
  named := ⟨by decide, List.all_eq_true.mp (by decide)⟩
  closed := by
    rw [List.append_assoc, declaredType_passes, stringify_passes]
    rfl
  assigned := declaredType_assigned _

theorem marker_eq : marker = exportConst ++ (agentsName ++ [':']) := by decide

/-- A declaration of agents begins with the marker. -/
theorem text_of_agents {d : Declaration} (h : d.name = agentsName) :
    d.text = marker ++ (d.body ++ [';']) := by
  rw [Declaration.text, h, marker_eq]
  simp only [List.append_assoc, List.cons_append, List.nil_append]

theorem agentsDeclaration_text (registry : Registry) :
    (agentsDeclaration registry).text = block registry := by
  have hname : (agentsDeclaration registry).name = agentsName := rfl
  rw [text_of_agents hname]
  rfl

/-- A declaration declares one registry at most. -/
theorem agentsDeclaration_inj {r s : Registry} (h : agentsDeclaration r = agentsDeclaration s) :
    r = s := by
  have hbody : declaredType ++ stringify r = declaredType ++ stringify s :=
    congrArg Declaration.body h
  have htext := congrArg (fun t => t ++ "".toList) (List.append_cancel_left hbody)
  exact (stringify_inj htext).1

end Lexing

section Dollars

/-- What stands after a dollar sign makes it a reference. -/
def startsReference : Text → Bool
  | [] => false
  | c :: text =>
    if c = '0' then text.head? = some '1'
    else c = '$' || c = '&' || c = '1' || c = Char.ofNat 96 || c = Char.ofNat 39

/-- The characters of references. -/
def isReferenceChar (c : Char) : Bool :=
  c ∈ ['$', '&', '0', '1', Char.ofNat 96, Char.ofNat 39]

/-- A dollar sign stands for itself, or it and some characters after it stand for
a dollar sign or a part of the match. -/
theorem reference_cases (m : Match) (text : Text) :
    (startsReference text = false ∧ reference m text = (['$'], 0)) ∨
    (startsReference text = true ∧ ∃ name rest value, text = name ++ rest ∧ name ≠ [] ∧
      (∀ c ∈ name, isReferenceChar c = true) ∧ reference m text = (value, name.length) ∧
      value ∈ [['$'], m.matched, m.group, m.before, m.after]) := by
  unfold reference
  split
  · exact Or.inr ⟨rfl, ['$'], _, _, rfl, List.cons_ne_nil _ _,
      List.all_eq_true.mp (by decide), rfl, by simp⟩
  · exact Or.inr ⟨rfl, ['&'], _, _, rfl, List.cons_ne_nil _ _,
      List.all_eq_true.mp (by decide), rfl, by simp⟩
  · exact Or.inr ⟨rfl, ['1'], _, _, rfl, List.cons_ne_nil _ _,
      List.all_eq_true.mp (by decide), rfl, by simp⟩
  · exact Or.inr ⟨rfl, ['0', '1'], _, _, rfl, List.cons_ne_nil _ _,
      List.all_eq_true.mp (by decide), rfl, by simp⟩
  · exact Or.inl ⟨rfl, rfl⟩
  · rename_i c text h₁ h₂ h₃ h₄
    split_ifs with hback hquote
    · subst hback
      exact Or.inr ⟨rfl, [Char.ofNat 96], _, _, rfl, List.cons_ne_nil _ _,
        List.all_eq_true.mp (by decide), rfl, by simp⟩
    · subst hquote
      exact Or.inr ⟨rfl, [Char.ofNat 39], _, _, rfl, List.cons_ne_nil _ _,
        List.all_eq_true.mp (by decide), rfl, by simp⟩
    · refine Or.inl ⟨?_, rfl⟩
      have hdollar : c ≠ '$' := fun h => h₁ h
      have hmatch : c ≠ '&' := fun h => h₂ h
      have hgroup : c ≠ '1' := fun h => h₃ h
      by_cases hzero : c = '0'
      · cases text with
        | nil => simp [startsReference, hzero]
        | cons d text =>
          have hone : d ≠ '1' := fun h => h₄ _ hzero (by rw [h])
          simp [startsReference, hzero, hone]
      · simp [startsReference, hzero, hdollar, hmatch, hgroup, hback, hquote]

/-- A dollar sign that is no reference stands for itself. -/
theorem expandFrom_dollar (m : Match) {text : Text} (h : startsReference text = false) :
    expandFrom m 0 ('$' :: text) = '$' :: expandFrom m 0 text := by
  rcases reference_cases m text with ⟨-, href⟩ | ⟨hstarts, -⟩
  · rw [expandFrom, if_pos rfl, href]
    rfl
  · exact absurd (h.symm.trans hstarts) Bool.false_ne_true

theorem expandFrom_skip (m : Match) (name rest : Text) :
    expandFrom m name.length (name ++ rest) = expandFrom m 0 rest := by
  induction name with
  | nil => rfl
  | cons c name ih => exact ih

/-- No part of the match begins like a reference. -/
def Harmless (m : Match) : Prop :=
  ∀ value ∈ [m.matched, m.group, m.before, m.after], ∀ c, value.head? = some c →
    isReferenceChar c = false

/-- Every dollar sign is followed by a quotation mark somewhere. -/
def Quoted (text : Text) : Prop := Followed '$' (fun s => Char.ofNat 34 ∈ s) text

theorem quoted_append (s t : Text) (h : Char.ofNat 34 ∈ s) : Char.ofNat 34 ∈ s ++ t :=
  List.mem_append_left t h

/-- A JSON string ends with a quotation mark, so one follows all its dollar signs. -/
theorem quoted_quote (s : String) : Quoted (quote s) := by
  have hmark : '$' ≠ Char.ofNat 34 := by decide
  intro t ht
  rw [quote] at ht
  rcases List.suffix_concat_iff.mp ht with hnil | ⟨front, heq, -⟩
  · cases hnil
  · cases front with
    | nil => exact absurd (List.cons.inj heq).1 hmark
    | cons c front =>
      rw [(List.cons.inj heq).2]
      exact List.mem_append_right front (List.mem_singleton.mpr rfl)

/-- A condition on what follows a dollar sign holds in the declaration if it holds
in the strings: nothing else in it has one. -/
theorem block_followed {q : Text → Prop} (hq : ∀ s t, q s → q (s ++ t)) {registry : Registry}
    (h : registry ≠ []) (hs : ∀ s ∈ strings registry, Followed '$' q (quote s)) :
    Followed '$' q (block registry) := by
  have hclosed : Closed (Followed '$' q) :=
    ⟨fun _ _ => Followed.append hq, fun k hk => followed_of_not_mem (plain_closed.key k hk),
      fun t ht => followed_of_not_mem (plain_closed.layout t ht)⟩
  have hnil : Followed '$' q [] := followed_of_not_mem List.not_mem_nil
  have hfront : Followed '$' q (blockFront registry) :=
    blockFront_of_closed hclosed hnil (followed_of_not_mem marker_plain)
      (followed_of_not_mem declaredType_plain) hs
  have hclose : Followed '$' q "\n\x7d;".toList := followed_of_not_mem (by decide)
  rw [block_eq h]
  exact hfront.append hq hclose

/-- Every dollar sign of the declaration stands in one of its strings. -/
theorem block_quoted {registry : Registry} (h : registry ≠ []) : Quoted (block registry) :=
  block_followed quoted_append h fun s _ => quoted_quote s

/-- A text in which no dollar sign is a reference. -/
def Referenceless (text : Text) : Prop := Followed '$' (fun s => startsReference s = false) text

/-- A text without references is its own expansion. -/
theorem expand_referenceless (m : Match) {text : Text} (h : Referenceless text) :
    expand m text = text := by
  unfold expand
  induction text with
  | nil => rfl
  | cons c text ih =>
    have htail : expandFrom m 0 text = text :=
      ih fun s hs => h s (hs.trans (List.suffix_cons c text))
    by_cases hc : c = '$'
    · rw [hc] at h ⊢
      rw [expandFrom_dollar m (h text (List.suffix_refl _)), htail]
    · rw [expandFrom, if_neg hc, htail]

/-- A reference in front of a quotation mark is replaced by nothing, by a dollar
sign, or by a text that does not begin like a reference. -/
theorem expand_reference {m : Match} (hm : Harmless m) {w e : Text}
    (hstarts : startsReference (w ++ e) = true) (hquote : Char.ofNat 34 ∈ w) :
    ∃ name rest value, w = name ++ rest ∧ name ≠ [] ∧
      (∀ c ∈ name, isReferenceChar c = true) ∧ Char.ofNat 34 ∈ rest ∧
      expandFrom m 0 ('$' :: (w ++ e)) = value ++ expandFrom m 0 (rest ++ e) ∧
      (value = [] ∨ value = ['$'] ∨
        ∃ c text, value = c :: text ∧ isReferenceChar c = false) := by
  rcases reference_cases m (w ++ e) with
    ⟨hnot, -⟩ | ⟨-, name, tail, value, htext, hne, hname, href, hval⟩
  · exact absurd (hnot.symm.trans hstarts) Bool.false_ne_true
  have hmark : Char.ofNat 34 ∉ name := by
    intro h
    exact absurd (hname _ h) (by decide)
  -- The quotation mark stands after the reference, so the reference is in `w`.
  obtain ⟨rest, hw, htail⟩ : ∃ rest, w = name ++ rest ∧ tail = rest ++ e := by
    rcases List.append_eq_append_iff.mp htext with ⟨z, hz, -⟩ | ⟨z, hz, htail⟩
    · exact absurd (by rw [hz]; exact List.mem_append_left z hquote) hmark
    · exact ⟨z, hz, htail⟩
  have hrest : Char.ofNat 34 ∈ rest := by
    rw [hw] at hquote
    exact (List.mem_append.mp hquote).resolve_left hmark
  refine ⟨name, rest, value, hw, hne, hname, hrest, ?_, ?_⟩
  · rw [expandFrom, if_pos rfl, href, htext, htail, expandFrom_skip]
  · cases value with
    | nil => exact Or.inl rfl
    | cons c text =>
      rcases List.mem_cons.mp hval with hdollar | hpart
      · exact Or.inr (Or.inl hdollar)
      · exact Or.inr (Or.inr ⟨c, text, rfl, hm _ hpart c rfl⟩)

/-- Once the expansion lags behind the text by some characters of references, it
never catches up before the next quotation mark. -/
theorem expand_lag {m : Match} (hm : Harmless m) {lag w e z : Text} (hne : lag ≠ [])
    (hlag : ∀ c ∈ lag, isReferenceChar c = true) (hquote : Char.ofNat 34 ∈ w) :
    ¬lag ++ w <+: expandFrom m 0 (w ++ e) ++ z := by
  induction hn : w.length using Nat.strongRecOn generalizing w lag with
  | ind n ih =>
    intro hpre
    obtain ⟨c, lag, rfl⟩ := List.exists_cons_of_ne_nil hne
    have hc := hlag c List.mem_cons_self
    have htail : ∀ d ∈ lag, isReferenceChar d = true := fun d hd =>
      hlag d (List.mem_cons_of_mem c hd)
    cases w with
    | nil => exact absurd hquote List.not_mem_nil
    | cons d w =>
      -- A character that stands for itself joins the lag.
      have hplain : expandFrom m 0 (d :: (w ++ e)) = d :: expandFrom m 0 (w ++ e) → False := by
        intro hexpand
        rw [List.cons_append, List.cons_append, hexpand, List.cons_append,
          List.cons_prefix_cons] at hpre
        obtain ⟨rfl, hpre⟩ := hpre
        have hquote' : Char.ofNat 34 ∈ w := by
          rcases List.mem_cons.mp hquote with hmark | hmem
          · rw [← hmark] at hc
            exact absurd hc (by decide)
          · exact hmem
        have hlag' : ∀ x ∈ lag ++ [c], isReferenceChar x = true :=
          List.forall_mem_append.mpr ⟨htail, List.forall_mem_singleton.mpr hc⟩
        refine ih w.length (by rw [← hn]; exact Nat.lt_succ_self _) (List.concat_ne_nil c lag)
          hlag' hquote' rfl ?_
        rw [List.append_assoc]
        exact hpre
      by_cases hd : d = '$'
      · subst hd
        have hquote' : Char.ofNat 34 ∈ w := by
          rcases List.mem_cons.mp hquote with hmark | hmem
          · exact absurd hmark (by decide)
          · exact hmem
        cases hstarts : startsReference (w ++ e) with
        | false => exact hplain (expandFrom_dollar m hstarts)
        | true =>
          obtain ⟨name, rest, value, rfl, -, hname, hrest, hexpand, hvalue⟩ :=
            expand_reference hm hstarts hquote'
          have hshort : rest.length < n := by
            rw [← hn, List.length_cons, List.length_append]
            omega
          have hreference : ∀ x ∈ '$' :: name, isReferenceChar x = true :=
            List.forall_mem_cons.mpr ⟨by decide, hname⟩
          rw [List.cons_append, List.cons_append, hexpand] at hpre
          rcases hvalue with rfl | rfl | ⟨v, text, rfl, hv⟩
          · have hlag' : ∀ x ∈ c :: lag ++ '$' :: name, isReferenceChar x = true :=
              List.forall_mem_append.mpr ⟨hlag, hreference⟩
            have hne' : c :: lag ++ '$' :: name ≠ [] := List.cons_ne_nil _ _
            refine ih rest.length hshort hne' hlag' hrest rfl ?_
            simpa only [List.append_assoc, List.cons_append, List.nil_append] using hpre
          · rw [List.cons_append, List.cons_append, List.cons_prefix_cons] at hpre
            have hlag' := List.forall_mem_append.mpr ⟨htail, hreference⟩
            have hne' : lag ++ '$' :: name ≠ [] :=
              List.append_ne_nil_of_right_ne_nil _ (List.cons_ne_nil _ _)
            refine ih rest.length hshort hne' hlag' hrest rfl ?_
            simpa only [List.append_assoc, List.cons_append, List.nil_append] using hpre.2
          · rw [List.cons_append, List.cons_append, List.cons_prefix_cons] at hpre
            rw [hpre.1] at hc
            exact absurd (hv.symm.trans hc) Bool.false_ne_true
      · refine hplain ?_
        rw [expandFrom, if_neg hd]

/-- If a text stands at the beginning of its own expansion, then none of its
dollar signs is a reference. -/
theorem referenceless_of_prefix {m : Match} (hm : Harmless m) {w e z : Text} (hw : Quoted w)
    (h : w <+: expandFrom m 0 (w ++ e) ++ z) :
    ∀ s, '$' :: s <:+ w → startsReference (s ++ e) = false := by
  induction w with
  | nil => exact fun s hs => absurd (List.suffix_nil.mp hs) (List.cons_ne_nil _ _)
  | cons c w ih =>
    have hw' : Quoted w := fun s hs => hw s (hs.trans (List.suffix_cons c w))
    by_cases hc : c = '$'
    · subst hc
      cases hstarts : startsReference (w ++ e) with
      | false =>
        rw [List.cons_append, expandFrom_dollar m hstarts, List.cons_append,
          List.cons_prefix_cons] at h
        intro s hs
        rcases List.suffix_cons_iff.mp hs with heq | hs
        · rw [(List.cons.inj heq).2]
          exact hstarts
        · exact ih hw' h.2 s hs
      | true =>
        have hquote : Char.ofNat 34 ∈ w := hw w (List.suffix_refl _)
        obtain ⟨name, rest, value, rfl, hne, hname, hrest, hexpand, hvalue⟩ :=
          expand_reference hm hstarts hquote
        rw [List.cons_append, hexpand] at h
        rcases hvalue with rfl | rfl | ⟨v, text, rfl, hv⟩
        · have hreference : ∀ x ∈ '$' :: name, isReferenceChar x = true :=
            List.forall_mem_cons.mpr ⟨by decide, hname⟩
          exact absurd h (expand_lag hm (List.cons_ne_nil _ _) hreference hrest)
        · rw [List.cons_append, List.nil_append, List.cons_append, List.cons_prefix_cons] at h
          exact absurd h.2 (expand_lag hm hne hname hrest)
        · rw [List.cons_append, List.cons_append, List.cons_prefix_cons] at h
          rw [← h.1] at hv
          exact absurd hv (by decide)
    · have hexpand : expandFrom m 0 (c :: (w ++ e)) = c :: expandFrom m 0 (w ++ e) := by
        rw [expandFrom, if_neg hc]
      rw [List.cons_append, hexpand, List.cons_append, List.cons_prefix_cons] at h
      intro s hs
      rcases List.suffix_cons_iff.mp hs with heq | hs
      · exact absurd (List.cons.inj heq).1.symm hc
      · exact ih hw' h.2 s hs

end Dollars

section Strings

/-- Every dollar sign is followed by a quotation mark somewhere, and none is a
reference. -/
def Solid (text : Text) : Prop :=
  Followed '$' (fun s => Char.ofNat 34 ∈ s ∧ startsReference s = false) text

/-- In front of a quotation mark, what follows it makes no reference. -/
theorem startsReference_append {s : Text} (h : Char.ofNat 34 ∈ s) (t : Text) :
    startsReference (s ++ t) = startsReference s := by
  cases s with
  | nil => exact absurd h List.not_mem_nil
  | cons c s =>
    cases s with
    | nil =>
      rw [← List.mem_singleton.mp h]
      rfl
    | cons d s => rfl

theorem solid_append (s t : Text) (h : Char.ofNat 34 ∈ s ∧ startsReference s = false) :
    Char.ofNat 34 ∈ s ++ t ∧ startsReference (s ++ t) = false :=
  ⟨List.mem_append_left t h.1, (startsReference_append h.1 t).trans h.2⟩

/-- A solid part of a text without references is one without references. -/
theorem Solid.of_part {x text : Text} (hx : Quoted x) (hpart : x <:+: text)
    (h : Referenceless text) : Solid x := by
  obtain ⟨a, b, rfl⟩ := hpart
  intro s hs
  have hquote := hx s hs
  have hsuffix : '$' :: (s ++ b) <:+ a ++ x ++ b := by
    obtain ⟨t, rfl⟩ := hs
    exact ⟨a ++ t, by simp only [List.append_assoc, List.cons_append]⟩
  exact ⟨hquote, (startsReference_append hquote b).symm.trans (h _ hsuffix)⟩

/-- An escaped character stands for itself or is one that begins no reference. -/
theorem escape_cases (c : Char) :
    escape c = [c] ∨ (isReferenceChar c = false ∧ ∃ tail, escape c = Char.ofNat 92 :: tail) := by
  have hshape := escape_escaped c
  generalize escape c = sequence at hshape
  cases hshape with
  | short letter hletter =>
    have hshort : (shortEscapes.all fun p => isReferenceChar p.1 = false) = true := by decide
    have hno := of_decide_eq_true (List.all_eq_true.mp hshort _ hletter)
    exact Or.inr ⟨hno, [letter], rfl⟩
  | control hcontrol =>
    have hcontrols : ∀ n < 32, isReferenceChar (Char.ofNat n) = false := by decide
    refine Or.inr ⟨?_, _, rfl⟩
    rw [← Char.ofNat_toNat c]
    exact hcontrols c.toNat hcontrol
  | plain _ _ _ => exact Or.inl rfl

theorem startsReference_cons {c : Char} (h : isReferenceChar c = false) (s : Text) :
    startsReference (c :: s) = false := by
  simp only [isReferenceChar, List.mem_cons, List.not_mem_nil, or_false, not_or,
    decide_eq_false_iff_not] at h
  obtain ⟨hdollar, hmatch, hzero, hgroup, hbefore, hafter⟩ := h
  simp [startsReference, hdollar, hmatch, hzero, hgroup, hbefore, hafter]

/-- Escaping does not make or remove references. -/
theorem startsReference_body (cs : Text) :
    startsReference (cs.flatMap escape ++ [Char.ofNat 34]) = startsReference cs := by
  -- Of the second character only a digit matters, which stands for itself.
  have hhead : ∀ cs : Text,
      (cs.flatMap escape ++ [Char.ofNat 34]).head? = some '1' ↔ cs.head? = some '1' := by
    intro cs
    cases cs with
    | nil => decide
    | cons d cs =>
      rcases escape_cases d with hd | ⟨hno, tail, hd⟩
      · rw [List.flatMap_cons, hd]
        rfl
      · rw [List.flatMap_cons, hd]
        refine iff_of_false (by decide : some (Char.ofNat 92) ≠ some '1') fun h => ?_
        rw [Option.some.inj h] at hno
        exact absurd hno (by decide)
  cases cs with
  | nil => rfl
  | cons c cs =>
    rcases escape_cases c with hc | ⟨hno, tail, hc⟩
    · rw [List.flatMap_cons, hc, List.append_assoc, List.singleton_append, startsReference,
        startsReference]
      simp only [hhead]
    · rw [List.flatMap_cons, hc, startsReference_cons hno]
      exact startsReference_cons (by decide) _

/-- A JSON string has the references of the string that it quotes. -/
theorem solid_quote_iff (s : String) : Solid (quote s) ↔ Referenceless s.toList := by
  have hmark : '$' ≠ Char.ofNat 34 := by decide
  have hend : '$' ∉ [Char.ofNat 34] := fun h => hmark (List.mem_singleton.mp h)
  have hbody : ∀ cs : Text, Solid (cs.flatMap escape ++ [Char.ofNat 34]) ↔ Referenceless cs := by
    intro cs
    induction cs with
    | nil => exact iff_of_true (followed_of_not_mem hend) (followed_of_not_mem List.not_mem_nil)
    | cons c cs ih =>
      unfold Solid Referenceless at ih ⊢
      rw [List.flatMap_cons, List.append_assoc, followed_cons_iff, ← ih]
      by_cases hc : c = '$'
      · have hsame : escape c = [c] := by rw [hc]; rfl
        rw [hsame, List.singleton_append, followed_cons_iff, startsReference_body]
        have hquote : Char.ofNat 34 ∈ cs.flatMap escape ++ [Char.ofNat 34] :=
          List.mem_append_right _ (List.mem_singleton.mpr rfl)
        simp only [hquote, true_and]
      · rw [followed_append_iff_of_not_mem (escape_plain hc)]
        exact ⟨fun h => ⟨fun he => absurd he hc, h⟩, fun h => h.2⟩
  have hquote : Char.ofNat 34 ≠ '$' := hmark.symm
  unfold Solid at hbody ⊢
  rw [quote, List.cons_append, followed_cons_iff, hbody]
  exact ⟨fun h => h.2, fun h => ⟨fun he => absurd he hquote, h⟩⟩

/-- No string of the registry has a reference. -/
def Literal (registry : Registry) : Prop := ∀ s ∈ strings registry, Referenceless s.toList

/-- The strings of an agent stand in its text. -/
theorem quote_part_agent {m : String × AgentEntry} {s : String}
    (hs : s ∈ [m.1, m.2.mint, m.2.pubkey, m.2.name]) : quote s <:+: stringifyAgent m := by
  have htext : stringifyAgent m = List.flatten
      ["\n  ".toList, quote m.1, ": ".toList, "\x7b".toList, "\n    ".toList, quote "mint",
        ": ".toList, quote m.2.mint, ",".toList, "\n    ".toList, quote "pubkey", ": ".toList,
        quote m.2.pubkey, ",".toList, "\n    ".toList, quote "name", ": ".toList, quote m.2.name,
        "\n  \x7d".toList] := by
    simp only [stringifyAgent, stringifyEntry, member, List.flatten_cons, List.flatten_nil,
      List.append_nil, List.append_assoc]
  rw [htext]
  refine List.infix_of_mem_flatten ?_
  simp only [List.mem_cons, List.not_mem_nil, or_false] at hs
  rcases hs with rfl | rfl | rfl | rfl
  iterate 4 simp

/-- The strings of a registry stand in its declaration. -/
theorem quote_part {registry : Registry} {s : String} (hs : s ∈ strings registry) :
    quote s <:+: block registry := by
  obtain ⟨m, hm, hmem⟩ := List.mem_flatMap.mp hs
  have hlines : stringifyAgent m <:+: agentLines registry := by
    cases registry with
    | nil => exact absurd hm List.not_mem_nil
    | cons m' rest =>
      rcases List.mem_cons.mp hm with rfl | hrest
      · exact (List.prefix_append _ _).isInfix
      · have hline : ",".toList ++ stringifyAgent m <:+:
            rest.flatMap fun m => ",".toList ++ stringifyAgent m := by
          rw [List.flatMap_def]
          exact List.infix_of_mem_flatten (List.mem_map_of_mem hrest)
        exact ((List.suffix_append _ _).isInfix.trans hline).trans (List.suffix_append _ _).isInfix
  have hblock : agentLines registry <:+: block registry := by
    rw [block_eq (List.ne_nil_of_mem hm), blockFront]
    exact ⟨marker ++ (declaredType ++ "\x7b".toList), "\n\x7d;".toList,
      by simp only [List.append_assoc]⟩
  exact ((quote_part_agent hmem).trans hlines).trans hblock

/-- The replacement text has no references exactly if the strings of the registry
have none. -/
theorem literal_iff {registry : Registry} (h : registry ≠ []) :
    Literal registry ↔ Referenceless (block registry ++ ['\n']) := by
  constructor
  · intro hliteral
    have hblock : Solid (block registry) := block_followed solid_append h fun s hs =>
      (solid_quote_iff s).mpr (hliteral s hs)
    have hline : Solid ['\n'] := followed_of_not_mem (by decide)
    exact fun s hs => ((hblock.append solid_append hline) s hs).2
  · intro hblock s hs
    have hpart : quote s <:+: block registry ++ ['\n'] :=
      (quote_part hs).trans (List.prefix_append _ _).isInfix
    exact (solid_quote_iff s).mp (Solid.of_part (quoted_quote s) hpart hblock)

end Strings

end RiskClaw.RegistryBlock
