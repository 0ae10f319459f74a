import RiskClaw.RegistryBlock

/-!
# What a patch leaves of the configuration

`patchConfig` is meant to replace the declaration of the agents and nothing
else, or to fail. The lazy expression ends a match at the first line `};` after
the marker, and the replacement text is expanded. So the patch is harmless where
the match consists of whole items with no other declaration among them, and
where the text of the registry has no references and no key is `__proto__`, which
an object literal does not keep. Beyond these conditions it damages the
configuration, but for inputs where the damage is undone by what happens to stand
in the text.
-/

namespace RiskClaw.PatchFrame

open LeftmostSearch ConfigPatch TextPieces ConfigGrammar RegistryBlock

section Property

/-- The declarations of agents. -/
def agents (items : List Item) : List Declaration :=
  (declarations items).filter fun d => d.name = agentsName

/-- All other declarations, in order. -/
def others (items : List Item) : List Declaration :=
  (declarations items).filter fun d => d.name ≠ agentsName

/-- The file after `patchConfig`: one that throws does not write. -/
def fileAfter (registry : Registry) (before : Text) : Text :=
  match patchConfig registry before with
  | .ok after => after
  | .error _ => before

/-- The key that an object literal takes for the prototype. -/
def protoKey : String := "__proto__"

/-- The object that the literal of a registry evaluates to: the member with the
key of the prototype is no property of it. -/
def evaluated (registry : Registry) : Registry := registry.filter fun m => m.1 ≠ protoKey

/-- A module that imports the declaration gets the registry. -/
def ReadsBack (d : Declaration) (registry : Registry) : Prop :=
  ∃ written, d = agentsDeclaration written ∧ evaluated written = registry

/-- The patch of a configuration does no damage. -/
structure Undamaged (c : Config) (registry : Registry) : Prop where
  /-- It throws and leaves the file, or the new text is a configuration whose only
  declaration of agents is the one of this registry and reads back as it, and which
  declares else what the old one did. -/
  outcome : (∃ e, patchConfig registry c.text = .error e ∧ fileAfter registry c.text = c.text) ∨
    ∃ c' : Config, patchConfig registry c.text = .ok c'.text ∧
      agents c'.items = [agentsDeclaration registry] ∧
      ReadsBack (agentsDeclaration registry) registry ∧ others c'.items = others c.items
  /-- A second patch changes nothing. -/
  again : fileAfter registry (fileAfter registry c.text) = fileAfter registry c.text

/-- A declaration of a registry reads back as what its literal evaluates to. -/
theorem readsBack_iff (written registry : Registry) :
    ReadsBack (agentsDeclaration written) registry ↔ evaluated written = registry := by
  constructor
  · rintro ⟨other, hdeclaration, hvalue⟩
    rw [agentsDeclaration_inj hdeclaration]
    exact hvalue
  · intro hvalue
    exact ⟨written, rfl, hvalue⟩

/-- A registry is kept by its literal exactly if it does not have the key of the
prototype. -/
theorem evaluated_eq_iff (registry : Registry) :
    evaluated registry = registry ↔ ∀ m ∈ registry, m.1 ≠ protoKey := by
  rw [evaluated, List.filter_eq_self]
  simp only [decide_eq_true_eq]

end Property

section Conditions

/-- The match consists of whole items: what stands before it and after it is a
configuration of its own, and all other declarations stand there. -/
def Aligned (c : Config) (m : Match) : Prop :=
  ∃ (front : List Item) (back : Config), m.before = encode Item.text front ∧ m.after = back.text ∧
    agents back.items = [] ∧ others front ++ others back.items = others c.items

/-- The registry is written as it is and kept by its literal: its strings have no
references, and no key is that of the prototype. -/
structure Writable (registry : Registry) : Prop where
  /-- The strings. -/
  literal : Literal registry
  /-- The keys. -/
  keys : ∀ m ∈ registry, m.1 ≠ protoKey

/-- The patch does not reach what is wrong with `patchConfig`. -/
structure Safe (c : Config) (registry : Registry) : Prop where
  /-- Where the expression matches, it matches whole items, and the registry can be
  written. -/
  replaces : ∀ m, findBlock c.text = some m → Aligned c m ∧ Writable registry
  /-- Where it does not match, there is a marker, so the patch throws, or the
  registry can be written. -/
  appends : findBlock c.text = none →
    (leftmost (literal marker) c.text).isSome = true ∨ Writable registry

/-- The expression matches other than whole items, but the registry has references
that may restore what was removed, or the text after the match already has the
declaration of this registry. -/
def Lucky (c : Config) (registry : Registry) : Prop :=
  ∃ m, findBlock c.text = some m ∧ ¬Aligned c m ∧
    (¬Literal registry ∨ block registry <:+: m.after)

end Conditions

section Items

theorem agents_append (xs ys : List Item) : agents (xs ++ ys) = agents xs ++ agents ys := by
  rw [agents, declarations_append, List.filter_append]
  rfl

theorem others_append (xs ys : List Item) : others (xs ++ ys) = others xs ++ others ys := by
  rw [others, declarations_append, List.filter_append]
  rfl

theorem others_block (registry : Registry) (items : List Item) :
    others (.declaration (agentsDeclaration registry) :: items) = others items := rfl

theorem agents_blank (c : Char) (white : isWhiteSpace c = true) (items : List Item) :
    agents (.blank c white :: items) = agents items := rfl

theorem others_blank (c : Char) (white : isWhiteSpace c = true) (items : List Item) :
    others (.blank c white :: items) = others items := rfl

theorem agents_cons {d : Declaration} (h : d.name = agentsName) (items : List Item) :
    agents (.declaration d :: items) = d :: agents items :=
  List.filter_cons_of_pos (decide_eq_true h)

/-- A declaration of agents stands among the items. -/
theorem mem_agents {items : List Item} {d : Declaration} (h : d ∈ agents items) :
    d.name = agentsName ∧ ∃ xs ys, items = xs ++ .declaration d :: ys := by
  obtain ⟨hmem, hname⟩ := List.mem_filter.mp h
  obtain ⟨i, hi, hdeclaration⟩ := List.mem_filterMap.mp hmem
  refine ⟨of_decide_eq_true hname, ?_⟩
  cases i with
  | declaration e =>
    cases hdeclaration
    exact List.append_of_mem hi
  | blank => cases hdeclaration
  | lineComment => cases hdeclaration
  | blockComment => cases hdeclaration

/-- Where no marker begins, no agents are declared. -/
theorem agents_of_unmarked {front : List Item} {rest : Text}
    (h : Unmarked (encode Item.text front) rest) : agents front = [] := by
  refine List.eq_nil_iff_forall_not_mem.mpr fun d hd => ?_
  obtain ⟨hname, xs, ys, rfl⟩ := mem_agents hd
  have hsuffix : d.text ++ encode Item.text ys <:+
      encode Item.text (xs ++ .declaration d :: ys) := by
    rw [encode_append, encode_cons]
    exact List.suffix_append _ _
  rw [text_of_agents hname, List.append_assoc] at hsuffix
  have hnone := h _ hsuffix (List.append_ne_nil_of_left_ne_nil (by decide) _)
  rw [List.append_assoc, literal_append] at hnone
  cases hnone

/-- Exactly one declaration of agents cuts the items in two. -/
theorem agents_split {items : List Item} {d : Declaration} (h : agents items = [d]) :
    ∃ xs ys, items = xs ++ .declaration d :: ys ∧ agents ys = [] := by
  have hd : d ∈ agents items := by
    rw [h]
    exact List.mem_singleton.mpr rfl
  obtain ⟨hname, xs, ys, rfl⟩ := mem_agents hd
  rw [agents_append, agents_cons hname] at h
  have hlength := congrArg List.length h
  rw [List.length_append, List.length_cons, List.length_singleton] at hlength
  exact ⟨xs, ys, rfl, List.length_eq_zero_iff.mp (by omega)⟩

/-- A configuration that begins with the marker begins with a declaration of
agents. -/
theorem first_declared {c : Config} {rest : Text} (h : c.text = marker ++ rest) :
    ∃ d ys, c.items = .declaration d :: ys ∧ d.name = agentsName := by
  obtain ⟨items, last⟩ := c
  have hkind : kindOf (⟨items, last⟩ : Config).text = 3 := by
    rw [h]
    rfl
  cases items with
  | nil =>
    cases last with
    | none => cases hkind
    | some line => cases hkind
  | cons i ys =>
    rw [Config.text, encode_cons, List.append_assoc, kindOf_text] at hkind
    cases i with
    | declaration d =>
      refine ⟨d, ys, rfl, ?_⟩
      rw [Config.text, encode_cons, Item.text, Declaration.text, marker_eq] at h
      simp only [List.append_assoc] at h
      exact (stop_unique (colon_not_name d.named.2) (colon_not_name (agentsDeclaration []).named.2)
        (beq_self_eq_true ':') (beq_self_eq_true ':') (List.append_cancel_left h)).1
    | blank => cases hkind
    | lineComment => cases hkind
    | blockComment => cases hkind

end Items

section Layout

variable {c : Config} {r : Registry} {before after : Text} {m : Match}

/-- The expression ends its match at the closing line of a declaration that the
script wrote. -/
theorem findBlock_written (hr : r ≠ []) (h : Unmarked before (block r ++ '\n' :: after)) :
    findBlock (before ++ (block r ++ '\n' :: after)) =
      some ⟨before, block r ++ ['\n'], ['\n'], after⟩ := by
  obtain ⟨body, hbody⟩ : ∃ body, blockFront r = marker ++ body := ⟨_, rfl⟩
  have hblock : block r ++ '\n' :: after =
      marker ++ (body ++ ("\n\x7d;".toList ++ '\n' :: after)) := by
    rw [block_eq hr, hbody]
    simp only [List.append_assoc]
  have hend : terminator ("\n\x7d;".toList ++ '\n' :: after) = some ⟨['\n'], after⟩ := by
    rw [terminator, literal_append]
    rfl
  have hbefore : ∀ q, q <:+ body → q ≠ [] →
      terminator (q ++ ("\n\x7d;".toList ++ '\n' :: after)) = none := by
    intro q hq hne
    have hfront : q <:+ blockFront r := by
      rw [hbody]
      exact List.suffix_append_of_suffix hq
    have hnone := no_closing_before (blockFront_indented r) q
      ("\n\x7d;".toList ++ '\n' :: after) hfront hne
    rw [terminator, literal_eq_none_iff.mpr hnone]
  have hmatch : blockRegex (block r ++ '\n' :: after) = some (body, ⟨['\n'], after⟩) := by
    rw [blockRegex, hblock, literal_append]
    exact leftmost_of_first hend hbefore
  have hfirst : ∀ q, q <:+ before → q ≠ [] →
      blockRegex (q ++ (block r ++ '\n' :: after)) = none := by
    intro q hq hne
    rw [blockRegex, h q hq hne]
    rfl
  rw [findBlock, leftmost_of_first hmatch hfirst, block_eq hr, hbody]
  rfl

theorem fileAfter_ok {text text' : Text} (h : patchConfig r text = .ok text') :
    fileAfter r text = text' := by
  rw [fileAfter, h]

theorem patchConfig_found (hfind : findBlock c.text = some m) :
    patchConfig r c.text = .ok (m.before ++ (expand m (block r ++ ['\n']) ++ m.after)) := by
  rw [patchConfig, hfind, ← List.append_assoc]

/-- Without references the declaration takes the place of the match as it is. -/
theorem patchConfig_literal (hr : r ≠ []) (hliteral : Literal r)
    (hfind : findBlock c.text = some m) :
    patchConfig r c.text = .ok (m.before ++ (block r ++ '\n' :: m.after)) := by
  rw [patchConfig_found hfind, expand_referenceless _ ((literal_iff hr).mp hliteral),
    List.append_assoc, List.singleton_append]

/-- A configuration with a declaration that the script wrote, on lines of its own. -/
def layout (front : List Item) (registry : Registry) (back : Config) : Config :=
  ⟨front ++ .declaration (agentsDeclaration registry) :: .blank '\n' (by decide) :: back.items,
    back.last⟩

variable {front : List Item} {back : Config}

theorem layout_text (front : List Item) (r : Registry) (back : Config) :
    (layout front r back).text = encode Item.text front ++ (block r ++ '\n' :: back.text) := by
  rw [layout, Config.text, encode_append, encode_cons, encode_cons, Config.text]
  simp only [Item.text, agentsDeclaration_text, List.append_assoc, List.cons_append,
    List.nil_append]

theorem others_layout (front : List Item) (r : Registry) (back : Config) :
    others (layout front r back).items = others front ++ others back.items := by
  rw [layout, others_append, others_block, others_blank]

theorem findBlock_layout (hr : r ≠ [])
    (h : Unmarked (encode Item.text front) (block r ++ '\n' :: back.text)) :
    findBlock (layout front r back).text =
      some ⟨encode Item.text front, block r ++ ['\n'], ['\n'], back.text⟩ := by
  rw [layout_text]
  exact findBlock_written hr h

/-- Where the script wrote its declaration, the patch replaces it and nothing else. -/
theorem patchConfig_layout (hr : r ≠ []) (hliteral : Literal r) {old : Registry} (hold : old ≠ [])
    (h : Unmarked (encode Item.text front) (block old ++ '\n' :: back.text)) :
    patchConfig r (layout front old back).text = .ok (layout front r back).text := by
  rw [patchConfig_literal hr hliteral (findBlock_layout hold h), layout_text]

/-- The match of the expression there consists of whole items. -/
theorem aligned_layout (hr : r ≠ [])
    (h : Unmarked (encode Item.text front) (block r ++ '\n' :: back.text))
    (hagents : agents back.items = []) (hfind : findBlock (layout front r back).text = some m) :
    Aligned (layout front r back) m := by
  have hmatch := Option.some.inj ((findBlock_layout hr h).symm.trans hfind)
  rw [← hmatch]
  exact ⟨front, back, rfl, rfl, hagents, (others_layout front r back).symm⟩

end Layout

section Written

variable {c : Config} {r : Registry} {m : Match} {front : List Item} {back : Config}

/-- The patch writes the declaration of the registry between two configurations
that keep all other declarations. -/
structure Written (c : Config) (r : Registry) (front : List Item) (back : Config) : Prop where
  /-- The new text. -/
  patched : patchConfig r c.text = .ok (layout front r back).text
  /-- No marker stands before the declaration. -/
  unmarked : Unmarked (encode Item.text front) (block r ++ '\n' :: back.text)
  /-- No agents are declared after it. -/
  single : agents back.items = []
  /-- The other declarations stand around it. -/
  kept : others front ++ others back.items = others c.items

theorem written_of_aligned (hr : r ≠ []) (hfind : findBlock c.text = some m)
    (haligned : Aligned c m) (hliteral : Literal r) : ∃ front back, Written c r front back := by
  obtain ⟨front, back, hbefore, hafter, hagents, hothers⟩ := haligned
  have hunmarked := (findBlock_found hfind).unmarked_block r ('\n' :: m.after)
  have hpatch := patchConfig_literal hr hliteral hfind
  rw [hbefore, hafter] at hpatch hunmarked
  rw [← layout_text] at hpatch
  exact ⟨front, back, hpatch, hunmarked, hagents, hothers⟩

theorem written_of_appended (hfind : findBlock c.text = none)
    (hmarker : leftmost (literal marker) c.text = none) :
    ∃ front, Written c r front ⟨[], none⟩ := by
  obtain ⟨d, htrim, hdeclarations⟩ := c.trimmed
  obtain ⟨items, hitems, hlined⟩ := d.lined
  have hfront : encode Item.text (items ++ [.blank '\n' (by decide)]) =
      trimEnd c.text ++ ['\n'] ++ ['\n'] := by
    rw [encode_append, ← hitems, ← htrim, encode_cons, encode_nil, Item.text, List.append_nil]
  refine ⟨items ++ [.blank '\n' (by decide)], ?_, ?_, rfl, ?_⟩
  · have hlines : "\n\n".toList = ['\n'] ++ ['\n'] := rfl
    have hback : (⟨[], none⟩ : Config).text = [] := rfl
    rw [patchConfig, hfind, hmarker, layout_text, hfront, hback]
    simp only [hlines, Option.isSome_none, Bool.false_eq_true, if_false, List.append_assoc]
  · rw [hfront]
    have htrimmed := no_marker_of_prefix (List.rdropWhile_prefix isWhiteSpace c.text) hmarker
    exact unmarked_appended htrimmed _
  · have hblank : others [.blank '\n' (by decide)] = [] := rfl
    have hnone : others (⟨[], none⟩ : Config).items = [] := rfl
    rw [others_append, hblank, hnone, List.append_nil, List.append_nil, others, hlined,
      hdeclarations]
    rfl

/-- Where the expression does not match but there is a marker, the patch throws. -/
theorem thrown_of_marker (hfind : findBlock c.text = none)
    (hmarker : (leftmost (literal marker) c.text).isSome = true) :
    ∃ e, patchConfig r c.text = .error e := by
  rw [patchConfig, hfind]
  dsimp only
  rw [if_pos hmarker]
  exact ⟨_, rfl⟩

/-- A patch that finds whole items and writes no references throws, or writes its
declaration in the right place. -/
theorem thrown_or_written (hr : r ≠ []) (hliteral : Literal r)
    (haligned : ∀ m, findBlock c.text = some m → Aligned c m) :
    (∃ e, patchConfig r c.text = .error e) ∨ ∃ front back, Written c r front back := by
  cases hfind : findBlock c.text with
  | some m => exact Or.inr (written_of_aligned hr hfind (haligned m hfind) hliteral)
  | none =>
    cases hmarker : leftmost (literal marker) c.text with
    | some found =>
      exact Or.inl (thrown_of_marker hfind (by rw [hmarker]; rfl))
    | none =>
      obtain ⟨front, hwritten⟩ := written_of_appended (r := r) hfind hmarker
      exact Or.inr ⟨front, _, hwritten⟩

/-- A patch that throws does no damage. -/
theorem undamaged_of_thrown {e : String} (hthrow : patchConfig r c.text = .error e) :
    Undamaged c r := by
  have hfile : fileAfter r c.text = c.text := by rw [fileAfter, hthrow]
  exact ⟨Or.inl ⟨e, hthrow, hfile⟩, by rw [hfile, hfile]⟩

theorem Written.undamaged (h : Written c r front back) (hr : r ≠ []) (hwritable : Writable r) :
    Undamaged c r := by
  have hsecond := patchConfig_layout hr hwritable.literal hr h.unmarked
  have hreads := (readsBack_iff r r).mpr ((evaluated_eq_iff r).mpr hwritable.keys)
  refine ⟨Or.inr ⟨layout front r back, h.patched, ?_, hreads, ?_⟩, ?_⟩
  · rw [layout, agents_append, agents_cons rfl, agents_blank, h.single,
      agents_of_unmarked h.unmarked, List.nil_append]
  · rw [others_layout, h.kept]
  · rw [fileAfter_ok h.patched, fileAfter_ok hsecond]

/-- Where the patch is safe, it does no damage. -/
theorem undamaged_of_safe (hr : r ≠ []) (h : Safe c r) : Undamaged c r := by
  by_cases hwritable : Writable r
  · rcases thrown_or_written hr hwritable.literal fun m hm => (h.replaces m hm).1 with
      ⟨e, hthrow⟩ | ⟨front, back, hwritten⟩
    · exact undamaged_of_thrown hthrow
    · exact hwritten.undamaged hr hwritable
  · -- What cannot be written is only safe where the patch throws.
    have hfind : findBlock c.text = none :=
      Option.eq_none_iff_forall_ne_some.mpr fun m hm => hwritable (h.replaces m hm).2
    obtain ⟨e, hthrow⟩ := thrown_of_marker hfind ((h.appends hfind).resolve_right hwritable)
    exact undamaged_of_thrown hthrow

end Written

section Damage

variable {c : Config} {r : Registry} {m : Match}

/-- No part of a match in a configuration begins like a reference, if what stands
after it is a configuration. -/
theorem harmless_of_found (hfound : Found c.text m) (back : Config) (hafter : m.after = back.text) :
    Harmless m := by
  have hconfig : ∀ (d : Config) (ch : Char), d.text.head? = some ch →
      isReferenceChar ch = false := by
    intro d ch hd
    have hhead := Config.head_cases hd
    by_contra hne
    rw [Bool.not_eq_false, isReferenceChar, decide_eq_true_eq] at hne
    simp only [List.mem_cons, List.not_mem_nil, or_false] at hne
    rcases hne with rfl | rfl | rfl | rfl | rfl | rfl
    iterate 6 exact absurd hhead (by decide)
  obtain ⟨body, hbody⟩ := hfound.marked
  intro value hvalue ch hch
  simp only [List.mem_cons, List.not_mem_nil, or_false] at hvalue
  rcases hvalue with rfl | rfl | rfl | rfl
  · rw [← hbody] at hch
    rw [← Option.some.inj hch]
    decide
  · rcases hfound.lineEnd ch hch with rfl | rfl
    · decide
    · decide
  · refine hconfig c ch ?_
    rw [hfound.split, List.head?_append, hch]
    rfl
  · rw [hafter] at hch
    exact hconfig back ch hch

/-- If the expansion of a declaration begins with the declaration, it has no
references. -/
theorem literal_of_prefix (hr : r ≠ []) (hm : Harmless m) {z : Text}
    (h : block r <+: expand m (block r ++ ['\n']) ++ z) : Literal r := by
  have hdollar : '$' ≠ '\n' := by decide
  have hplain := referenceless_of_prefix hm (block_quoted hr) h
  refine (literal_iff hr).mpr fun s hs => ?_
  rcases List.suffix_concat_iff.mp hs with hnil | ⟨t, ht, hsuffix⟩
  · cases hnil
  · cases t with
    | nil => exact absurd (List.cons.inj ht).1 hdollar
    | cons d t =>
      obtain ⟨rfl, rfl⟩ := List.cons.inj ht
      exact hplain t hsuffix

/-- What a patch without damage writes is read as a configuration. -/
theorem Undamaged.read {text : Text} (h : Undamaged c r)
    (hpatch : patchConfig r c.text = .ok text) :
    ∃ c' : Config, text = c'.text ∧ agents c'.items = [agentsDeclaration r] ∧
      others c'.items = others c.items := by
  rcases h.outcome with ⟨e, hthrow, -⟩ | ⟨c', hok, hagents, -, hothers⟩
  · rw [hpatch] at hthrow
    cases hthrow
  · exact ⟨c', Except.ok.inj (hpatch.symm.trans hok), hagents, hothers⟩

/-- A registry that is written without damage does not have the key of the
prototype. -/
theorem Undamaged.keys {text : Text} (h : Undamaged c r)
    (hpatch : patchConfig r c.text = .ok text) :
    ∀ m ∈ r, m.1 ≠ protoKey := by
  rcases h.outcome with ⟨e, hthrow, -⟩ | ⟨c', -, -, hreads, -⟩
  · rw [hpatch] at hthrow
    cases hthrow
  · exact (evaluated_eq_iff r).mp ((readsBack_iff r r).mp hreads)

/-- Where the match consists of whole items, references do damage. -/
theorem literal_of_aligned (hr : r ≠ []) (hfind : findBlock c.text = some m)
    (haligned : Aligned c m) (h : Undamaged c r) : Literal r := by
  obtain ⟨front, back, hbefore, hafter, -, -⟩ := haligned
  have hfound := findBlock_found hfind
  have hnone : agents front = [] := by
    have hunmarked := hfound.unmarked
    rw [hbefore] at hunmarked
    exact agents_of_unmarked hunmarked
  obtain ⟨c', htext, hagents, -⟩ := h.read (patchConfig_found hfind)
  rw [hbefore] at htext
  obtain ⟨rest, hc', hrest⟩ := Config.text_split htext
  rw [hc', agents_append, hnone, List.nil_append] at hagents
  -- The expansion begins with the marker, so the configuration it begins does.
  obtain ⟨tail, htail⟩ : ∃ tail, rest.text = marker ++ tail := by
    have hexpand := expandFrom_plain m marker_plain (declarationOf r ++ ['\n'])
    rw [← List.append_assoc] at hexpand
    refine ⟨expandFrom m 0 (declarationOf r ++ ['\n']) ++ m.after, ?_⟩
    rw [← hrest, ← List.append_assoc, ← hexpand]
    rfl
  obtain ⟨d, ys, hitems, hname⟩ := first_declared htail
  rw [hitems, agents_cons hname] at hagents
  refine literal_of_prefix (m := m) (z := m.after) hr (harmless_of_found hfound back hafter) ?_
  rw [hrest, Config.text, hitems, encode_cons, (List.cons.inj hagents).1, Item.text,
    agentsDeclaration_text, List.append_assoc]
  exact List.prefix_append _ _

/-- A patch that appends its declaration does damage if this has references: they
are expanded by the second patch. -/
theorem literal_of_appended (hr : r ≠ []) (hfind : findBlock c.text = none)
    (hmarker : leftmost (literal marker) c.text = none) (h : Undamaged c r) : Literal r := by
  obtain ⟨front, hwritten⟩ := written_of_appended (r := r) hfind hmarker
  have hmatch := findBlock_layout hr hwritten.unmarked
  have hagain := h.again
  rw [fileAfter_ok hwritten.patched, fileAfter_ok (patchConfig_found hmatch), layout_text] at hagain
  have hsame := List.append_cancel_left hagain
  have hharmless := harmless_of_found (findBlock_found hmatch) ⟨[], none⟩ rfl
  refine literal_of_prefix (z := (⟨[], none⟩ : Config).text) hr hharmless ?_
  rw [hsame]
  exact List.prefix_append _ _

/-- Two declarations that the script writes do not overlap: the closing line of
the first would stand inside the second. -/
theorem no_overlap (hr : r ≠ []) {x y z : Text} (hz : z ≠ [])
    (h : block r ++ '\n' :: x = z ++ (block r ++ y)) : block r <:+: x := by
  have hline : '\n' ≠ 'e' := by decide
  rcases List.append_eq_append_iff.mp h with ⟨w, hw, hx⟩ | ⟨w, hw, hy⟩
  · cases w with
    | nil => exact absurd (List.cons.inj hx).1 hline
    | cons d w => exact ⟨w, y, (List.append_assoc w _ y).trans (List.cons.inj hx).2.symm⟩
  · -- A common part would begin like the declaration and end with its closing line.
    exfalso
    rw [block_eq hr] at hw
    rcases List.append_eq_append_iff.mp hw with ⟨v, hv, hclose⟩ | ⟨v, hv, hw⟩
    · have he : 'e' ∉ "\n\x7d;".toList := by decide
      cases w with
      | nil => exact absurd (List.cons.inj hy).1.symm hline
      | cons d w =>
        obtain ⟨rfl, -⟩ := List.cons.inj hy
        refine he ?_
        rw [hclose]
        exact List.mem_append_right v List.mem_cons_self
    · rw [block_eq hr, hw, List.append_assoc, List.append_assoc] at hy
      have hlength := congrArg List.length hv
      have hlonger := (closing_first hy).length_le
      have hpositive := List.length_pos_iff.mpr hz
      rw [List.length_append] at hlength
      omega

/-- If the patch does no damage without references, and the declaration was not
there before, then the match consists of whole items. -/
theorem aligned_of_undamaged (hr : r ≠ []) (hfind : findBlock c.text = some m)
    (hliteral : Literal r) (hfresh : ¬block r <:+: m.after) (h : Undamaged c r) :
    Aligned c m := by
  have hfound := findBlock_found hfind
  obtain ⟨c', htext, hagents, hothers⟩ := h.read (patchConfig_literal hr hliteral hfind)
  obtain ⟨xs, ys, hitems, hys⟩ := agents_split hagents
  have hread : c'.text = encode Item.text xs ++ (block r ++ (⟨ys, c'.last⟩ : Config).text) := by
    rw [Config.text, hitems, encode_append, encode_cons, Config.text, Item.text,
      agentsDeclaration_text, List.append_assoc, List.append_assoc]
  rw [hread] at htext
  -- The declaration that is read is the one that was written.
  have hsame : m.before = encode Item.text xs := by
    rcases List.append_eq_append_iff.mp htext with ⟨z, hz, hrest⟩ | ⟨z, hz, hrest⟩
    · cases z with
      | nil => rw [hz, List.append_nil]
      | cons d z => exact absurd (no_overlap hr (List.cons_ne_nil d z) hrest) hfresh
    · cases z with
      | nil => rw [hz, List.append_nil]
      | cons d z =>
        have hnone := hfound.unmarked_block r ('\n' :: m.after) (d :: z) ⟨_, hz.symm⟩
          (List.cons_ne_nil d z)
        rw [← hrest, block, List.append_assoc, literal_append] at hnone
        cases hnone
  rw [hsame] at htext
  have hafter : encode Item.text [.blank '\n' (by decide)] ++ m.after =
      (⟨ys, c'.last⟩ : Config).text := List.append_cancel_left (List.append_cancel_left htext)
  obtain ⟨back, hback, hrest⟩ := Config.text_split hafter
  have hys' : ys = .blank '\n' (by decide) :: back.items := congrArg Config.items hback
  refine ⟨xs, back, hsame, hrest, ?_, ?_⟩
  · rw [hys', agents_blank] at hys
    exact hys
  · rw [← hothers, hitems, others_append, others_block, hys', others_blank]

/-- Where the patch does no damage, it is safe or has luck. -/
theorem safe_of_undamaged (hr : r ≠ []) (h : Undamaged c r) : Safe c r ∨ Lucky c r := by
  cases hfind : findBlock c.text with
  | none =>
    refine Or.inl ⟨fun m hm => absurd (hfind.symm.trans hm) nofun, fun _ => ?_⟩
    cases hmarker : leftmost (literal marker) c.text with
    | some found => exact Or.inl rfl
    | none =>
      obtain ⟨front, hwritten⟩ := written_of_appended (r := r) hfind hmarker
      exact Or.inr ⟨literal_of_appended hr hfind hmarker h, h.keys hwritten.patched⟩
  | some m =>
    by_cases haligned : Aligned c m
    · have hliteral := literal_of_aligned hr hfind haligned h
      refine Or.inl ⟨fun m' hm' => ?_, fun hnone => nomatch hfind.symm.trans hnone⟩
      rw [← Option.some.inj (hfind.symm.trans hm')]
      exact ⟨haligned, hliteral, h.keys (patchConfig_found hfind)⟩
    · refine Or.inr ⟨m, hfind, haligned, ?_⟩
      by_contra hluck
      obtain ⟨hliteral, hfresh⟩ := not_or.mp hluck
      exact haligned (aligned_of_undamaged hr hfind (not_not.mp hliteral) hfresh h)

end Damage

/-- A safe patch does no damage, and one that does none is safe or has luck. -/
theorem undamaged_between (c : Config) {r : Registry} (hr : r ≠ []) :
    (Safe c r → Undamaged c r) ∧ (Undamaged c r → Safe c r ∨ Lucky c r) :=
  ⟨undamaged_of_safe hr, safe_of_undamaged hr⟩

section Examples

/-- A registry with the observer. -/
def observerRegistry : Registry :=
  [("read", ⟨"AERmaK7CD7HGp8zFHP3PEGtfEC6QWZUHYh6Xg8YHwLQU",
    "EsRmSkrcjfoqEzgh4Wzbo56KqymTZ2NMMy1kxJtHHFRR", "Observer"⟩)]

theorem observerRegistry_ne : observerRegistry ≠ [] := List.cons_ne_nil _ _

theorem observerRegistry_writable : Writable observerRegistry where
  literal := by
    have hplain : ∀ s ∈ strings observerRegistry, '$' ∉ s.toList := by decide
    exact fun s hs => followed_of_not_mem (hplain s hs)
  keys := by decide

/-- A declaration over several lines. -/
def limits : Declaration where
  name := "LIMITS".toList
  body := " \x7b max: number \x7d = \x7b\n  max: 5\n\x7d".toList
  named := ⟨by decide, List.all_eq_true.mp (by decide)⟩
  closed := by decide
  assigned := by decide

/-- A declaration on one line. -/
def endpoint : Declaration where
  name := "RPC_ENDPOINT".toList
  body := " string = \"https://api.devnet.solana.com\"".toList
  named := ⟨by decide, List.all_eq_true.mp (by decide)⟩
  closed := by decide +kernel
  assigned := by decide +kernel

/-- The end of a line. -/
def lineEnd : Item := .blank '\n' (by decide)

/-- The agents are declared on one line, in front of another declaration. -/
def oneLine : Config :=
  ⟨[.declaration (agentsDeclaration []), lineEnd, .declaration limits, lineEnd], none⟩

/-- The agents are declared as the script does it, between two declarations. -/
def severalLines : Config :=
  layout [.declaration endpoint, lineEnd, lineEnd] observerRegistry
    ⟨[.declaration limits, lineEnd], none⟩

theorem severalLines_safe : Safe severalLines observerRegistry := by
  have hnone : leftmost (literal marker) endpoint.text = none := by decide +kernel
  have hfront : encode Item.text [.declaration endpoint, lineEnd, lineEnd] =
      endpoint.text ++ ['\n'] ++ ['\n'] := by
    rw [encode_cons, List.append_assoc]
    rfl
  have hunmarked : Unmarked (encode Item.text [.declaration endpoint, lineEnd, lineEnd])
      (block observerRegistry ++
        '\n' :: (⟨[.declaration limits, lineEnd], none⟩ : Config).text) := by
    rw [hfront]
    exact unmarked_appended hnone _
  refine ⟨fun m hm => ⟨aligned_layout observerRegistry_ne hunmarked rfl hm,
    observerRegistry_writable⟩, fun _ => Or.inr observerRegistry_writable⟩

/-- A patch between two declarations leaves them. -/
theorem undamaged_between_several : observerRegistry ≠ [] ∧ Safe severalLines observerRegistry ∧
    Undamaged severalLines observerRegistry :=
  ⟨observerRegistry_ne, severalLines_safe,
    (undamaged_between severalLines observerRegistry_ne).1 severalLines_safe⟩

/-- Where the agents are declared on one line, the patch deletes the declaration
that follows them. -/
theorem one_line_damaged : observerRegistry ≠ [] ∧
    patchConfig observerRegistry oneLine.text = .ok (block observerRegistry ++ ['\n']) ∧
    ¬Undamaged oneLine observerRegistry := by
  have hfind : findBlock oneLine.text = some ⟨[], oneLine.text, ['\n'], []⟩ := by
    decide +kernel
  have hpatch := patchConfig_literal observerRegistry_ne observerRegistry_writable.literal hfind
  refine ⟨observerRegistry_ne, hpatch, fun h => ?_⟩
  obtain ⟨c', htext, -, hothers⟩ := h.read hpatch
  have hlayout : (layout [] observerRegistry ⟨[], none⟩).text = c'.text := by
    rw [layout_text]
    exact htext
  rw [← Config.text_inj hlayout] at hothers
  exact absurd hothers (by decide)

end Examples

end RiskClaw.PatchFrame
