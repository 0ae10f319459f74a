import RiskClaw.ConfigLayout
import RiskClaw.RegistryFile
import RiskClaw.ConfigRuns

/-!
# The configuration that two scripts share

The deployment script writes the addresses of the programs into the shared
configuration, the registration script the declaration of the agents. The text
is cut at its `export const `, and each script changes the segments that it is
responsible for. So whatever runs follow one another, as long as no write of the
configuration is cut off, the addresses are those of the first deployment, and the
agents those of the last registration that came to its end.
-/

namespace RiskClaw.SharedConfig

open ReactiveMachine LeftmostSearch KeywordSegments TextPieces ConfigPatch ConfigGrammar
open RegistryBlock PatchFrame AgentRegistration DeployScript ConfigRuns

section Agents

/-- The strings of the registry have neither blanks nor dollar signs, and an object
literal keeps its keys. -/
structure Compact (registry : Registry) : Prop where
  /-- The strings. -/
  strings : ∀ s ∈ strings registry, '$' ∉ s.toList ∧ ' ' ∉ s.toList
  /-- The keys. -/
  keys : ∀ m ∈ registry, m.1 ≠ protoKey

theorem Compact.plain {registry : Registry} (h : Compact registry) : Plain registry := by
  intro m hm
  have hs : ∀ s ∈ [m.1, m.2.mint, m.2.pubkey, m.2.name], '$' ∉ s.toList := fun s hs =>
    (h.strings s (List.mem_flatMap.mpr ⟨m, hm, hs⟩)).1
  exact ⟨hs _ (by simp), hs _ (by simp), hs _ (by simp), hs _ (by simp)⟩

/-- No `t` stands in front of a blank, nor at the end. -/
def Spaced (text : Text) : Prop :=
  Followed 't' (fun s => ∃ c, s.head? = some c ∧ c ≠ ' ') text

theorem Spaced.append {x y : Text} (hx : Spaced x) (hy : Spaced y) : Spaced (x ++ y) := by
  refine Followed.append (fun s t hs => ?_) hx hy
  obtain ⟨c, hc, hne⟩ := hs
  refine ⟨c, ?_, hne⟩
  rw [List.head?_append, hc]
  rfl

/-- A JSON string without blanks. -/
theorem quote_spaced {s : String} (hs : ' ' ∉ s.toList) : Spaced (quote s) := by
  have hblank : ' ' ∉ quote s := by
    intro h
    rcases mem_quote h with hmark | ⟨c, hc, hmem⟩
    · exact absurd hmark (by decide)
    · rcases mem_escape hmem with hsequence | ⟨rfl, -⟩
      · exact absurd hsequence (by decide)
      · exact hs hc
  intro rest hrest
  cases rest with
  | nil =>
    have hlast : quote s = (Char.ofNat 34 :: s.toList.flatMap escape) ++ [Char.ofNat 34] := rfl
    rw [hlast] at hrest
    have hend := List.suffix_concat_iff.mp hrest
    rcases hend with hnil | ⟨t, ht, -⟩
    · cases hnil
    · cases t with
      | nil => exact absurd (List.cons.inj ht).1 (by decide)
      | cons d t =>
        have hnil := (List.cons.inj ht).2
        exact absurd hnil.symm (List.append_ne_nil_of_right_ne_nil t (List.cons_ne_nil _ _))
  | cons c rest =>
    refine ⟨c, rfl, ?_⟩
    rintro rfl
    exact hblank (hrest.subset (List.mem_cons_of_mem _ List.mem_cons_self))

theorem spaced_closed : Closed Spaced where
  append _ _ := Spaced.append
  key k hk := by
    have hkeys : ∀ k ∈ ["mint", "pubkey", "name"], ' ' ∉ k.toList := by decide
    exact quote_spaced (hkeys k hk)
  layout t ht := by
    have hlayout : ∀ t ∈ ["\x7b", "\n    ", "\n  ", ": ", ",", "\n  \x7d"], 't' ∉ t.toList := by
      decide
    exact followed_of_not_mem (hlayout t ht)

theorem declaredType_spaced : Spaced declaredType := by
  have hall : (declaredType.tails.all fun s =>
      decide (s.head? = some 't' → s.tail ≠ [] ∧ s.tail.head? ≠ some ' ')) = true := by decide
  intro rest hrest
  have hcheck := List.all_eq_true.mp hall _ ((List.mem_tails _ _).mpr hrest)
  obtain ⟨hne, hblank⟩ := of_decide_eq_true hcheck rfl
  obtain ⟨c, rest, rfl⟩ := List.exists_cons_of_ne_nil hne
  exact ⟨c, rfl, fun hc => hblank (congrArg some hc)⟩

/-- The declaration of a registry after its marker, up to its closing line. -/
def agentsFront (registry : Registry) : Text :=
  declaredType ++ ("\x7b".toList ++ agentLines registry)

variable {r : Registry}

theorem declarationOf_eq (hr : r ≠ []) (rest : Text) :
    declarationOf r ++ rest = agentsFront r ++ ("\n\x7d;".toList ++ rest) := by
  have hclose : "\n\x7d;".toList = "\n\x7d".toList ++ ";".toList := rfl
  simp only [declarationOf, stringify_eq hr, agentsFront, hclose, List.append_assoc]

theorem declarationOf_spaced (hr : r ≠ []) (h : Compact r) : Spaced (declarationOf r) := by
  have hlines := spaced_closed.agentLines (followed_of_not_mem List.not_mem_nil)
    fun s hs => quote_spaced (h.strings s hs).2
  have hbrace : Spaced "\x7b".toList := followed_of_not_mem (by decide)
  have hclose : Spaced "\n\x7d;".toList := followed_of_not_mem (by decide)
  have hall := (declaredType_spaced.append (hbrace.append hlines)).append hclose
  have heq := declarationOf_eq hr []
  rw [List.append_nil, List.append_nil] at heq
  rw [heq]
  exact hall

/-- The segment of a declaration that the script writes. -/
def agentsSegment (registry : Registry) (rest : Text) : Text :=
  key agentsName ++ (declarationOf registry ++ '\n' :: rest)

/-- The declaration is code. -/
theorem declarationOf_code (r : Registry) :
    lex (.code []) (declarationOf r) = some (.code []) := by
  have hend : lex (.code []) [';'] = some (.code []) := by decide
  have hsplit : declarationOf r = (agentsDeclaration r).body ++ [';'] := rfl
  rw [hsplit]
  exact lex_append_same (lex_of_closed (agentsDeclaration r).closed) hend

/-- In front of code the segment of a declaration is code. -/
theorem agentsSegment_code {rest : Text} (h : lex (.code []) rest = some (.code [])) :
    lex (.code []) (agentsSegment r rest) = some (.code []) := by
  have hkey : lex (.code []) (key agentsName) = some (.code []) := by decide
  exact lex_append_same hkey (lex_append_same (declarationOf_code r) h)

/-- In the declaration no keyword begins. -/
theorem agentsSegment_free (hr : r ≠ []) (h : Compact r) {rest : Text}
    (hrest : Free exportConst rest) : Free exportConst (agentsSegment r rest) := by
  have hkey : Spaced (key agentsName) := followed_of_not_mem (by decide)
  have hspaced := hkey.append (declarationOf_spaced hr h)
  have hline : '\n' ∉ exportConst := by decide
  have hword : exportConst = "expor".toList ++ 't' :: ' ' :: "const ".toList := rfl
  have habsent : Absent exportConst (key agentsName ++ declarationOf r ++ ['\n']) rest := by
    intro q hq hne hpre
    rcases List.suffix_concat_iff.mp hq with rfl | ⟨front, rfl, hfront⟩
    · exact hne rfl
    · rw [List.append_assoc] at hpre
      obtain ⟨tail, rfl⟩ := prefix_of_not_mem hline hpre
      rw [hword, List.append_assoc] at hfront
      obtain ⟨c, hc, hblank⟩ := hspaced _ ((List.suffix_append _ _).trans hfront)
      exact hblank (Option.some.inj hc).symm
  have hsplit : agentsSegment r rest = key agentsName ++ declarationOf r ++ ['\n'] ++ rest := by
    simp [agentsSegment]
  rw [hsplit]
  exact Free.append habsent hrest

/-- The expression finds the end of the declaration. -/
theorem agentsSegment_closes (hr : r ≠ []) (rest : Text) :
    leftmost terminator (declarationOf r ++ '\n' :: rest) =
      some (agentsFront r, ⟨['\n'], rest⟩) := by
  have hindented : ∀ q, q <:+ agentsFront r → q <:+ blockFront r := fun q hq =>
    hq.trans (List.suffix_append marker _)
  rw [declarationOf_eq hr]
  refine leftmost_of_first ?_ fun q hq hne => ?_
  · rw [terminator, literal_append]
    rfl
  · have hnone := no_closing_before (blockFront_indented r) q
      ("\n\x7d;".toList ++ '\n' :: rest) (hindented q hq) hne
    rw [terminator, literal_eq_none_iff.mpr hnone]

/-- Whether a closing line ends at a place is decided by the five characters
that stand there. -/
theorem terminator_append {text : Text} (h : 5 ≤ text.length) (more : Text) :
    terminator (text ++ more) =
      (terminator text).map fun t => ⟨t.group, t.rest ++ more⟩ := by
  by_cases hpre : "\n\x7d;".toList <+: text
  · obtain ⟨tail, rfl⟩ := hpre
    have htail : 2 ≤ tail.length := by
      rw [List.length_append] at h
      change 5 ≤ 3 + tail.length at h
      omega
    obtain ⟨c, others, rfl⟩ := List.exists_cons_of_length_pos (lt_of_lt_of_le (by decide) htail)
    have hothers : 0 < others.length := Nat.lt_of_succ_le (Nat.le_of_succ_le_succ htail)
    obtain ⟨d, others, rfl⟩ := List.exists_cons_of_length_pos hothers
    rw [List.append_assoc, terminator, terminator, literal_append, literal_append]
    by_cases hfeed : c = '\n'
    · subst hfeed
      rfl
    · by_cases hreturn : c = '\r'
      · subst hreturn
        by_cases hd : d = '\n'
        · subst hd
          rfl
        · simp [hd]
      · simp [hfeed, hreturn]
  · have hlong : ¬"\n\x7d;".toList <+: text ++ more := by
      rw [prefix_append_iff (le_trans (by decide : "\n\x7d;".toList.length ≤ 5) h)]
      exact hpre
    rw [terminator, terminator, literal_eq_none_iff.mpr hpre, literal_eq_none_iff.mpr hlong]
    rfl

/-- A closing line that ends with its line is found whatever follows. -/
theorem closing_append {t body : Text} {m : Terminator}
    (h : leftmost terminator t = some (body, m)) (hgroup : m.group ≠ []) (more : Text) :
    leftmost terminator (t ++ more) = some (body, ⟨m.group, m.rest ++ more⟩) := by
  obtain ⟨s, rfl, hs, hfail⟩ := leftmost_split h
  obtain ⟨hsplit, -⟩ := terminator_eq_some hs
  have hlength : 4 ≤ s.length := by
    have hpos := List.length_pos_iff.mpr hgroup
    rw [hsplit, List.length_append, List.length_append]
    change 4 ≤ 3 + _
    omega
  rw [List.append_assoc]
  refine leftmost_of_first ?_ fun q hq hne => ?_
  · unfold terminator at hs
    split at hs
    · cases hs
    · rename_i rest hliteral
      cases hs
      rw [literal_eq_some_iff.mp hliteral]
      rfl
    · rename_i rest hliteral
      cases hs
      rw [literal_eq_some_iff.mp hliteral]
      rfl
    · cases hs
      exact absurd rfl hgroup
    · cases hs
  · have hpos := List.length_pos_iff.mpr hne
    rw [← List.append_assoc, terminator_append (by rw [List.length_append]; omega),
      hfail q hq hne]
    rfl

theorem marker_eq_key : marker = exportConst ++ key agentsName := marker_eq

theorem blockRegex_needs (s : Text) (h : blockRegex s ≠ none) :
    exportConst ++ key agentsName <+: s := by
  by_contra hno
  rw [← marker_eq_key] at hno
  rw [blockRegex, literal_eq_none_iff.mpr hno] at h
  exact h rfl

/-- The layout declares the agents of the registry. -/
def DeclaresAgents (registry : Registry) (segments : List Text) : Prop :=
  ∃ rest, lookup (key agentsName) segments = some (agentsSegment registry rest)

/-- What is written is closed. -/
theorem closes_of_declares (hr : r ≠ []) {segments : List Text}
    (h : DeclaresAgents r segments) : ClosesAgents segments := by
  intro t ht
  obtain ⟨rest, hlookup⟩ := h
  have htext := Option.some.inj (ht.symm.trans hlookup)
  have hempty : lex (.code []) ([] : Text) = some (.code []) := rfl
  have hcode := agentsSegment_code (r := r) hempty
  rw [agentsSegment, declarationOf_eq hr] at hcode
  rw [List.append_cancel_left htext]
  exact ⟨_, _, agentsSegment_closes hr rest, List.cons_ne_nil _ _, hcode⟩

variable {l : Layout} {ids : Ids}

/-- Where there is a declaration of agents, the patch replaces it. -/
theorem patch_replaces (h : Tidy ids l) (hr : r ≠ []) (hc : Compact r) {t : Text}
    (hlookup : lookup (key agentsName) l.segments = some t) :
    ∃ l' : Layout, patchConfig r l.text = .ok l'.text ∧ Tidy ids l' ∧
      DeclaresAgents r l'.segments := by
  have hagents : agentsName ∈ names := by decide
  obtain ⟨-, -, -, -, ⟨u, rfl⟩, -⟩ := split_of_lookup hlookup
  obtain ⟨body, m, hclosing, hgroup, hbody⟩ := h.agents u hlookup
  obtain ⟨front, back, hsegments, hupdate, hfind⟩ := l.leftmost_eq hagents hlookup blockRegex_needs
    (b := fun back => (body, ⟨m.group, m.rest ++ segmentsText exportConst back⟩))
    (fun back => by
      rw [List.append_assoc, ← List.append_assoc, ← marker_eq_key, blockRegex, literal_append]
      exact closing_append hclosing hgroup _)
  -- What follows the closing line is part of the old segment.
  have hrest : Free exportConst m.rest := by
    have hmem : key agentsName ++ u ∈ l.segments := by
      rw [hsegments]
      exact List.mem_append_right front List.mem_cons_self
    obtain ⟨s, rfl, hs, -⟩ := leftmost_split hclosing
    have hu := (l.free _ (List.mem_cons_of_mem _ hmem)).of_append_right.of_append_right
    rw [(terminator_eq_some hs).1] at hu
    exact hu.of_append_right.of_append_right
  have hnew : key agentsName <+: agentsSegment r m.rest := List.prefix_append _ _
  have hdeclares : DeclaresAgents r (update (key agentsName) (agentsSegment r m.rest) l.segments) :=
    ⟨m.rest, lookup_update hlookup hnew⟩
  refine ⟨l.set agentsName _ (agentsSegment_free hr hc hrest), ?_, ⟨?_, ?_, ?_, ?_, ?_⟩,
    hdeclares⟩
  · have hplain : '$' ∉ block r ++ ['\n'] := List.not_mem_append (block_plain hc.plain) (by decide)
    rw [patchConfig, findBlock, hfind, Option.map_some]
    dsimp only
    rw [expand_plain _ hplain, Layout.set_text, hupdate, joined_split, agentsSegment, block,
      marker_eq_key]
    simp only [List.append_assoc, List.cons_append, List.nil_append]
  · exact h.riskPolicy.update (by decide) hagents (by decide) hnew
  · exact h.swigDelegation.update (by decide) hagents (by decide) hnew
  · exact closes_of_declares hr hdeclares
  · intro t ht
    rcases mem_update ht with rfl | ht
    · exact solid_of_key hnew
    · exact h.solid t ht
  · -- The lexer is in code behind the closing line, and so it is behind the new one.
    have hcode := h.code_of_lookup hlookup
    obtain ⟨s, rfl, hs, -⟩ := leftmost_split hclosing
    have hsplit : key agentsName ++ (body ++ s) =
        key agentsName ++ (body ++ ("\n\x7d;".toList ++ m.group)) ++ m.rest := by
      rw [(terminator_eq_some hs).1]
      simp only [List.append_assoc]
    rw [hsplit, lex_append, hbody, Option.bind_some] at hcode
    exact code_update h.code (agentsSegment_code hcode)

/-- Blanks are removed behind the last visible character. -/
theorem trimEnd_append {x y : Text} (h : trimEnd y ≠ []) : trimEnd (x ++ y) = x ++ trimEnd y := by
  have hne : (y.reverse.dropWhile isWhiteSpace).isEmpty ≠ true := by
    intro hempty
    refine h ?_
    rw [trimEnd, List.rdropWhile, List.isEmpty_iff.mp hempty]
    rfl
  rw [trimEnd, trimEnd, List.rdropWhile, List.rdropWhile, List.reverse_append,
    List.dropWhile_append, if_neg hne, List.reverse_append, List.reverse_reverse]

/-- The last segment with the end of its line and an empty line. -/
def ended (t : Text) : Text := trimEnd t ++ ['\n', '\n']

theorem ended_free {t : Text} (h : Free exportConst t) : Free exportConst (ended t) := by
  have hline : '\n' ∉ exportConst := by decide
  obtain ⟨blank, hblank⟩ := List.rdropWhile_prefix isWhiteSpace t
  have hfront : Free exportConst (trimEnd t) := by
    rw [← hblank] at h
    exact h.of_append_left
  have hbreak : Free exportConst ['\n', '\n'] := free_of_without (by decide)
  exact Free.append (hfront.absent_break hline _) hbreak

/-- The end of a line makes no name of a segment without one. -/
theorem ended_without {name t : Text} (hname : name ∈ names) (h : ¬key name <+: t) :
    ¬key name <+: ended t := by
  have hline : ∀ n ∈ names, '\n' ∉ key n := by decide
  intro hpre
  refine h ((prefix_of_not_mem (hline name hname) hpre).trans ?_)
  exact List.rdropWhile_prefix isWhiteSpace t

/-- An address is declared as before after the end of its line. -/
theorem ended_idDeclaration (name : Text) (id : Option ProgramId) (rest : Text) :
    ended (idDeclaration name id ++ rest) =
      idDeclaration name id ++ (trimEnd rest ++ ['\n', '\n']) := by
  have hvisible : isWhiteSpace ';' = false := by decide
  have hsplit : ∀ rest, idDeclaration name id ++ rest =
      key name ++ (idType ++ idValue id) ++ ';' :: rest := fun rest => by
    rw [idDeclaration_key]
    simp only [List.append_assoc]
  rw [ended, hsplit, trimEnd_solid hvisible, hsplit]
  simp only [List.append_assoc, List.cons_append]

/-- Appending a declaration of agents keeps the address of a name. -/
theorem HoldsId.appended {name : Text} {id : Option ProgramId} (hname : name ∈ names)
    (hne : name ≠ agentsName) {front : List Text} {last new : Text}
    (hnew : key agentsName <+: new) (h : HoldsId name id (front ++ [last])) :
    HoldsId name id (front ++ [ended last, new]) := by
  obtain ⟨rest, hlookup⟩ := h
  have hother : ¬key name <+: new :=
    key_exclusive (by decide) hname hne.symm new hnew
  rw [lookup_append] at hlookup
  cases hfront : lookup (key name) front with
  | some t =>
    rw [hfront] at hlookup
    exact ⟨rest, by rw [lookup_append, hfront]; exact hlookup⟩
  | none =>
    rw [hfront, Option.none_or] at hlookup
    have hlast : last = idDeclaration name id ++ rest := by
      rw [lookup, List.find?_singleton] at hlookup
      split_ifs at hlookup
      exact Option.some.inj hlookup
    have hkey := idDeclaration_prefix name id (trimEnd rest ++ ['\n', '\n'])
    refine ⟨trimEnd rest ++ ['\n', '\n'], ?_⟩
    rw [lookup_append, hfront, Option.none_or, hlast, ended_idDeclaration, lookup,
      List.find?_cons, decide_eq_true hkey]

/-- What is trimmed to something is not blank after the end of its line. -/
theorem ended_solid {t : Text} (h : trimEnd t ≠ []) : trimEnd (ended t) ≠ [] := by
  intro hnil
  have hall := List.rdropWhile_eq_nil_iff.mp hnil
  have htrimmed : trimEnd (trimEnd t) = [] :=
    List.rdropWhile_eq_nil_iff.mpr fun c hc => hall c (List.mem_append_left _ hc)
  rw [trimEnd, trimEnd, List.rdropWhile_idempotent] at htrimmed
  exact h htrimmed

/-- What holds of the segments in front, of the last one after the end of its line and
of the new one holds of all segments after an append. -/
theorem forall_appended {P : Text → Prop} {front : List Text} {last new : Text}
    (hfront : ∀ t ∈ front, P t) (hlast : P (ended last)) (hnew : P new) :
    ∀ t ∈ front ++ [ended last, new], P t := by
  intro t ht
  rcases List.mem_append.mp ht with ht | ht
  · exact hfront t ht
  · rcases List.mem_cons.mp ht with rfl | ht
    · exact hlast
    · rw [List.mem_singleton.mp ht]
      exact hnew

/-- A name that no segment had is found in the appended one. -/
theorem lookup_appended {name : Text} (hname : name ∈ names) {front : List Text}
    {last new : Text} (hnone : lookup (key name) (front ++ [last]) = none)
    (hnew : key name <+: new) : lookup (key name) (front ++ [ended last, new]) = some new := by
  have habsent := lookup_eq_none_iff.mp hnone
  have hended : lookup (key name) (front ++ [ended last]) = none := by
    refine lookup_eq_none_iff.mpr fun t ht => ?_
    rcases List.mem_append.mp ht with ht | ht
    · exact habsent t (List.mem_append_left _ ht)
    · rw [List.mem_singleton.mp ht]
      exact ended_without hname (habsent last (List.mem_append_right _ List.mem_cons_self))
  have hsplit : front ++ [ended last, new] = front ++ [ended last] ++ [new] := by simp
  rw [hsplit, lookup_append, hended, Option.none_or, lookup, List.find?_cons,
    decide_eq_true hnew]

/-- A text without a declaration of agents gets one after its last segment. -/
theorem patchConfig_appended {front : List Text} {last : Text}
    (hsegments : l.segments = front ++ [last]) (hsolid : trimEnd last ≠ [])
    (hlookup : lookup (key agentsName) l.segments = none) (r : Registry) :
    patchConfig r l.text =
      .ok (joined exportConst l.head (front ++ [ended last, agentsSegment r []])) := by
  have hagents : agentsName ∈ names := by decide
  have hfree : ∀ t ∈ l.segments, Free exportConst t ∧ ¬key agentsName <+: t := fun t ht =>
    ⟨l.free t (List.mem_cons_of_mem _ ht), lookup_eq_none_iff.mp hlookup t ht⟩
  have hmarker : leftmost (literal marker) l.text = none :=
    leftmost_unnamed exportConst_borderless (key_without_first agentsName hagents)
      (l.free l.head List.mem_cons_self) hfree fun s hs => by
        have hpre := literal_needs s hs
        rwa [marker_eq_key] at hpre
  have hblock : leftmost blockRegex l.text = none :=
    leftmost_unnamed exportConst_borderless (key_without_first agentsName hagents)
      (l.free l.head List.mem_cons_self) hfree blockRegex_needs
  have hvisible : trimEnd (exportConst ++ last) = exportConst ++ trimEnd last :=
    trimEnd_append hsolid
  have hne : trimEnd (exportConst ++ last) ≠ [] := by
    rw [hvisible]
    exact List.append_ne_nil_of_left_ne_nil (by decide) _
  have hold : l.text = joined exportConst l.head front ++ (exportConst ++ last) := by
    rw [Layout.text, hsegments, joined_split]
    exact congrArg _ (congrArg _ (List.append_nil last))
  have hlines : "\n\n".toList = ['\n', '\n'] := rfl
  have hnone : ¬(leftmost (literal marker) l.text).isSome = true := by simp [hmarker]
  rw [patchConfig, findBlock, hblock, Option.map_none]
  change (if (leftmost (literal marker) l.text).isSome = true then _ else _) = _
  rw [if_neg hnone, hold, trimEnd_append hne, hvisible, joined_split, segmentsText_cons, block,
    marker_eq_key, ended, agentsSegment, hlines]
  simp only [List.append_assoc, segmentsText, List.flatMap_nil, List.append_nil, List.cons_append,
    List.nil_append]

/-- Where there is no declaration of agents, the patch appends one. -/
theorem patch_appends (h : Tidy ids l) (hr : r ≠ []) (hc : Compact r)
    (hlookup : lookup (key agentsName) l.segments = none) :
    ∃ l' : Layout, patchConfig r l.text = .ok l'.text ∧ Tidy ids l' ∧
      DeclaresAgents r l'.segments := by
  obtain ⟨rest, hrisk⟩ := h.riskPolicy
  have hsome : l.segments ≠ [] := by
    intro hnil
    rw [hnil] at hrisk
    cases hrisk
  obtain ⟨front, last, hsegments⟩ : ∃ front last, l.segments = front ++ [last] :=
    ⟨_, _, (List.dropLast_concat_getLast hsome).symm⟩
  have hfront : ∀ t ∈ front, t ∈ l.segments := fun t ht =>
    hsegments ▸ List.mem_append_left _ ht
  have hlast : last ∈ l.segments := by
    rw [hsegments]
    exact List.mem_append_right front (List.mem_singleton.mpr rfl)
  have hempty : Free exportConst [] := free_of_without List.not_mem_nil
  have hnew : key agentsName <+: agentsSegment r [] := List.prefix_append _ _
  have hdeclares : DeclaresAgents r (front ++ [ended last, agentsSegment r []]) :=
    ⟨[], lookup_appended (by decide) (hsegments ▸ hlookup) hnew⟩
  have hfree := forall_appended (fun t ht => l.free t (List.mem_cons_of_mem _ (hfront t ht)))
    (ended_free (l.free last (List.mem_cons_of_mem _ hlast))) (agentsSegment_free hr hc hempty)
  refine ⟨⟨l.head, front ++ [ended last, agentsSegment r []],
    List.forall_mem_cons.mpr ⟨l.free _ List.mem_cons_self, hfree⟩⟩,
    patchConfig_appended hsegments (h.solid last hlast) hlookup r, ?_, hdeclares⟩
  exact {
    riskPolicy := HoldsId.appended (by decide) (by decide) hnew (hsegments ▸ h.riskPolicy)
    swigDelegation := HoldsId.appended (by decide) (by decide) hnew (hsegments ▸ h.swigDelegation)
    agents := closes_of_declares hr hdeclares
    solid := forall_appended (fun t ht => h.solid t (hfront t ht))
      (ended_solid (h.solid last hlast)) (solid_of_key hnew)
    code := List.forall_mem_cons.mpr ⟨h.code _ List.mem_cons_self, forall_appended
      (fun t ht => h.code t (List.mem_cons_of_mem _ (hfront t ht)))
      (lex_trimEnd (h.code last (List.mem_cons_of_mem _ hlast))) (agentsSegment_code rfl)⟩ }

/-- The patch writes the declaration of the registry into its segment, and keeps
the addresses. -/
theorem patchConfig_layout (h : Tidy ids l) (hr : r ≠ []) (hc : Compact r) :
    ∃ l' : Layout, patchConfig r l.text = .ok l'.text ∧ Tidy ids l' ∧
      DeclaresAgents r l'.segments := by
  cases hlookup : lookup (key agentsName) l.segments with
  | some t => exact patch_replaces h hr hc hlookup
  | none => exact patch_appends h hr hc hlookup

/-- The text of a layout that declares the agents of a registry declares this
registry alone. -/
theorem declares_layout_iff (hl : Tidy ids l) (h : DeclaresAgents r l.segments)
    (declared : Registry) : Declares declared l.text ↔ declared = r := by
  obtain ⟨rest, hlookup⟩ := h
  obtain ⟨back, hexported⟩ := hl.exported_eq (by decide) hlookup
  have hend : ";".toList = [';'] := rfl
  rw [← marker_eq_key, declarationOf, hend] at hexported
  simp only [List.append_assoc, List.cons_append, List.nil_append] at hexported
  have hdeclares : Declares r l.text :=
    ⟨_, hexported, fun c hc => (Option.some.inj hc).symm⟩
  constructor
  · exact fun hdeclared => declares_unique hdeclared hdeclares
  · rintro rfl
    exact hdeclares

end Agents

section Registration

variable {input : RunFaults} {p : Progress} {z : Zone} {w : World}

theorem address_compact (a : Address) : '$' ∉ a.text.toList ∧ ' ' ∉ a.text.toList :=
  ⟨fun h => absurd (a.valid _ h) (by decide), fun h => absurd (a.valid _ h) (by decide)⟩

theorem set_compact (hz : z ∈ zones) {registry : Registry} (h : Compact registry)
    (mint owner : Address) : Compact (registry.set z.zone ⟨mint.text, owner.text, z.name⟩) := by
  have hzones : ∀ z ∈ zones, ('$' ∉ z.zone.toList ∧ ' ' ∉ z.zone.toList) ∧
      '$' ∉ z.name.toList ∧ ' ' ∉ z.name.toList := by decide
  have hkeys : ∀ z ∈ zones, z.zone ≠ protoKey := by decide
  refine ⟨fun s hs => ?_, fun m hm => ?_⟩
  · obtain ⟨m, hm, hmem⟩ := List.mem_flatMap.mp hs
    rcases Registry.mem_set hm with rfl | hm
    · simp only [List.mem_cons, List.not_mem_nil, or_false] at hmem
      rcases hmem with rfl | rfl | rfl | rfl
      · exact (hzones z hz).1
      · exact address_compact mint
      · exact address_compact owner
      · exact (hzones z hz).2
    · exact h.strings s (List.mem_flatMap.mpr ⟨m, hm, hmem⟩)
  · rcases Registry.mem_set hm with rfl | hm
    · exact hkeys z hz
    · exact h.keys m hm

theorem compact_nil : Compact [] :=
  ⟨fun _ hs => absurd hs List.not_mem_nil, List.forall_mem_nil _⟩

theorem registerZones_compact (hw : ∀ r, w.registry = .value r → Compact r) (input : RunFaults) :
    Ends (Both Compact) (Both Compact) (registerZones input w) :=
  Both.registerZones compact_nil hw
    fun _ _ hy entry h => set_compact hy h entry.1 entry.2

/-- After a run whose loop came to its end, the registry file is the one in memory. -/
theorem registerZones_file {q : Progress} (h : registerZones input w = .ok q) :
    q.registry ≠ [] ∧ q.world.registry = .value q.registry := by
  have hregisters := registerZones_registers input w
  have hloaded := registerZones_loaded input w
  rw [h] at hregisters hloaded
  refine ⟨hregisters, ?_⟩
  change loaded q.world.registry = q.registry at hloaded
  cases hfile : q.world.registry with
  | value registry =>
    rw [hfile] at hloaded
    exact congrArg Stored.value hloaded
  | absent =>
    rw [hfile] at hloaded
    exact absurd hloaded.symm hregisters
  | unreadable =>
    rw [hfile] at hloaded
    exact absurd hloaded.symm hregisters

/-- A run that came to its end has left the registry of its loop. -/
theorem finished_registry (hfinished : (run w input).2.finished = true) :
    ∃ q, registerZones input w = .ok q ∧ (run w input).1.registry = .value q.registry := by
  rcases run_cases w input with hrun | ⟨hzones, after, -, hrun | ⟨-, -, -, hrun⟩⟩
  · rw [hrun] at hfinished
    cases hfinished
  · refine ⟨_, hzones, ?_⟩
    rw [hrun]
    exact (registerZones_file hzones).2
  · rw [hrun] at hfinished
    cases hfinished

/-- The configuration declares the addresses, and the agents of the last
registration that is known. -/
structure Shared (ids : Ids) (agents : Option Registry) (w : World) : Prop where
  /-- The text. -/
  config : ∃ l : Layout, w.config = l.text ∧ Tidy ids l ∧
    ∀ r, agents = some r → DeclaresAgents r l.segments
  /-- The registry file is compact, if it can be read. -/
  registry : ∀ r, w.registry = .value r → Compact r

/-- The registry in a file, if it can be read. -/
def registryIn : Stored Registry → Option Registry
  | .value registry => some registry
  | _ => none

/-- The registration that is known after a run. -/
def agentsAfter (agents : Option Registry) (w : World) (input : RunFaults) : Option Registry :=
  if (run w input).2.finished = true then registryIn (run w input).1.registry else agents

/-- A run of the registration script keeps the addresses, and declares the agents
of the registry file if it comes to its end. -/
theorem Shared.register {ids : Ids} {agents : Option Registry} (h : Shared ids agents w)
    (huncut : Uncut input) (hlate : agents = none ∨ input.configWrite ≠ .late) :
    Shared ids (agentsAfter agents w input) (run w input).1 := by
  have hcompact := registerZones_compact h.registry input
  obtain ⟨l, htext, htidy, hagents⟩ := h.config
  have hregistry : ∀ r, (run w input).1.registry = .value r → Compact r := by
    rw [run_registry]
    exact (hcompact.done fun _ hp => hp).2
  unfold agentsAfter
  rcases run_config w huncut with ⟨hopen, hsame⟩ | ⟨hzones, hne, hpatched, hend⟩
  · rw [hopen, if_neg Bool.false_ne_true]
    exact ⟨⟨l, hsame.trans htext, htidy, hagents⟩, hregistry⟩
  · rw [hzones] at hcompact
    rw [htext] at hpatched
    obtain ⟨l', hpatch', htidy', hdeclares⟩ := patchConfig_layout htidy hne hcompact.1
    refine ⟨⟨l', Except.ok.inj (hpatched.symm.trans hpatch'), htidy', fun r hr => ?_⟩, hregistry⟩
    by_cases hfinished : (run w input).2.finished = true
    · obtain ⟨q, hq, hfile⟩ := finished_registry hfinished
      rw [if_pos hfinished, hfile] at hr
      rw [hq] at hdeclares
      exact Option.some.inj hr ▸ hdeclares
    · rw [if_neg hfinished] at hr
      rcases hlate with hnone | hlate
      · cases hnone.symm.trans hr
      · exact absurd (hend.resolve_left hfinished) hlate

end Registration

section Scripts

/-- A run of one of the two scripts. -/
inductive ScriptRun where
  /-- Of the registration script. -/
  | register (input : RunFaults)
  /-- Of the deployment script. -/
  | deploy (input : DeployFaults)

/-- What a run shows for itself. -/
inductive ScriptResult where
  /-- The registration script. -/
  | registered (result : RunResult)
  /-- The deployment script. -/
  | deployed (result : DeployResult)
  deriving DecidableEq

/-- A write of the configuration by the run is not cut off. -/
def ScriptRun.Uncut : ScriptRun → Prop
  | .register input => ConfigRuns.Uncut input
  | .deploy input => ∀ n, input.configWrite ≠ .cut n

/-- The run is no registration that throws after it has written the configuration. -/
def ScriptRun.Prompt : ScriptRun → Prop
  | .register input => input.configWrite ≠ .late
  | .deploy _ => True

/-- A registration that came to its end. -/
def ScriptResult.registers : ScriptResult → Bool
  | .registered result => result.finished
  | .deployed _ => false

/-- One run, during which no other script runs: a deployment patches the text that it
was loaded with. -/
def runScript (w : World) : ScriptRun → World × ScriptResult
  | .register input => ((run w input).1, .registered (run w input).2)
  | .deploy input =>
    ({ w with config := (deploy w.config w.config input).1 },
      .deployed (deploy w.config w.config input).2)

/-- Both scripts as one machine whose steps are whole runs, one after the other. -/
def scripts : Machine World ScriptRun ScriptResult := ⟨runScript⟩

/-- The addresses that a run writes into a configuration without them. -/
def ScriptRun.deployment : ScriptRun → Option ProgramIds
  | .register _ => none
  | .deploy input =>
    if input.dryRun = true ∨ input.configReadFails = true ∨ input.configWrite = .refused then none
    else deployed input

/-- Both addresses are declared. -/
def Ids.isSet (ids : Ids) : Bool := ids.riskPolicy.isSome && ids.swigDelegation.isSome

/-- The addresses after some runs: those of the first deployment, unless both are
declared before it. -/
def Ids.settled (ids : Ids) (runs : List ScriptRun) : Ids :=
  if ids.isSet = true then ids
  else
    match runs.findSome? ScriptRun.deployment with
    | none => ids
    | some programIds => ⟨some programIds.riskPolicy, some programIds.swigDelegation⟩

theorem Ids.settled_cons (ids : Ids) (first : ScriptRun) (runs : List ScriptRun) :
    ids.settled (first :: runs) = (ids.settled [first]).settled runs := by
  unfold Ids.settled
  by_cases hset : ids.isSet = true
  · simp only [if_pos hset]
  · rw [List.findSome?_cons, List.findSome?_singleton, if_neg hset, if_neg hset]
    cases first.deployment with
    | none => rw [if_neg hset]
    | some programIds => exact (if_pos rfl).symm

variable {ids : Ids} {agents : Option Registry} {w : World}

theorem truthy_idText (id : Option ProgramId) : truthy (idText id) = id.isSome := by
  cases id with
  | none => rfl
  | some a => exact decide_eq_true a.nonempty

/-- Without a known registration less is claimed. -/
theorem Shared.forget (h : Shared ids agents w) : Shared ids none w := by
  obtain ⟨l, htext, htidy, -⟩ := h.config
  exact ⟨⟨l, htext, htidy, fun _ hr => (nomatch hr)⟩, h.registry⟩

/-- What a deployment does to a tidy configuration. -/
theorem deploy_tidy {l : Layout} (h : Tidy ids l) {input : DeployFaults}
    (huncut : (ScriptRun.deploy input).Uncut) :
    (deploy l.text l.text input).1 =
      if ids.isSet = true then l.text
      else
        match (ScriptRun.deploy input).deployment with
        | none => l.text
        | some programIds => patchIds programIds l.text := by
  rw [deploy, h.importedId (by decide) h.riskPolicy, h.importedId (by decide) h.swigDelegation]
  have hboth : truthy (idText ids.riskPolicy) = true ∧
      truthy (idText ids.swigDelegation) = true ↔ ids.isSet = true := by
    rw [truthy_idText, truthy_idText, Ids.isSet, Bool.and_eq_true]
  dsimp only
  rw [ScriptRun.deployment]
  by_cases hset : ids.isSet = true
  · rw [if_pos (hboth.mpr hset), if_pos hset]
  · rw [if_neg (mt hboth.mp hset), if_neg hset]
    by_cases hdry : input.dryRun = true
    · simp [hdry]
    · by_cases hread : input.configReadFails = true
      · cases deployed input <;> simp [hdry, hread]
      · cases hwrite : input.configWrite with
        | done => cases deployed input <;> simp [hdry, hread, Write.text]
        | late => cases deployed input <;> simp [hdry, hread, Write.text]
        | cut n => exact absurd hwrite (huncut n)
        | refused => cases deployed input <;> simp [hdry, hread, Write.text]

/-- A run of the deployment script keeps the agents, and declares the addresses of
the first deployment. -/
theorem Shared.deploy (h : Shared ids agents w) {input : DeployFaults}
    (huncut : (ScriptRun.deploy input).Uncut) :
    Shared (ids.settled [.deploy input]) agents (runScript w (.deploy input)).1 := by
  obtain ⟨l, htext, htidy, hagents⟩ := h.config
  have hkept : Shared ids agents { w with config := l.text } :=
    ⟨⟨l, rfl, htidy, hagents⟩, h.registry⟩
  change Shared _ agents { w with config := (DeployScript.deploy w.config w.config input).1 }
  rw [htext, deploy_tidy htidy huncut, Ids.settled, List.findSome?_singleton]
  by_cases hset : ids.isSet = true
  · rw [if_pos hset, if_pos hset]
    exact hkept
  · rw [if_neg hset, if_neg hset]
    cases (ScriptRun.deploy input).deployment with
    | none => exact hkept
    | some programIds =>
      obtain ⟨l', hpatch, htidy', hsame⟩ := htidy.replaceId programIds
      refine ⟨⟨l', hpatch, htidy', fun r hr => ?_⟩, h.registry⟩
      obtain ⟨rest, hlookup⟩ := hagents r hr
      exact ⟨rest, hsame.trans hlookup⟩

/-- One run keeps a known registration, if it is none that comes to its end or writes
the configuration before it throws. -/
theorem Shared.step (h : Shared ids agents w) {next : ScriptRun} (huncut : next.Uncut)
    (hnext : agents = none ∨ (runScript w next).2.registers = false ∧ next.Prompt) :
    Shared (ids.settled [next]) agents (runScript w next).1 := by
  cases next with
  | deploy input => exact h.deploy huncut
  | register input =>
    have hids : ids.settled [.register input] = ids := by simp [Ids.settled, ScriptRun.deployment]
    have hrun := h.register huncut (hnext.imp_right And.right)
    rw [hids]
    rcases hnext with hnone | ⟨hopen, -⟩
    · rw [hnone]
      exact hrun.forget
    · have hfinished : ¬(run w input).2.finished = true := by
        change (run w input).2.finished = false at hopen
        simp [hopen]
      rw [agentsAfter, if_neg hfinished] at hrun
      exact hrun

/-- Runs keep a known registration, if none of them is one that comes to its end or
writes the configuration before it throws. -/
theorem Shared.run (h : Shared ids agents w) (runs : List ScriptRun)
    (huncut : ∀ next ∈ runs, next.Uncut)
    (hruns : agents = none ∨ (∀ result ∈ scripts.outputs w runs, result.registers = false) ∧
      ∀ next ∈ runs, next.Prompt) :
    Shared (ids.settled runs) agents (scripts.run w runs) := by
  induction runs generalizing ids w with
  | nil =>
    have hids : ids.settled [] = ids := by simp [Ids.settled]
    rw [hids]
    exact h
  | cons next runs ih =>
    rw [Machine.run_cons, Ids.settled_cons]
    rw [Machine.outputs_cons] at hruns
    refine ih (h.step (huncut next List.mem_cons_self) ?_)
      (fun later hlater => huncut later (List.mem_cons_of_mem _ hlater)) ?_
    · exact hruns.imp_right fun hall =>
        ⟨hall.1 _ List.mem_cons_self, hall.2 next List.mem_cons_self⟩
    · exact hruns.imp_right fun hall =>
        ⟨fun result hresult => hall.1 result (List.mem_cons_of_mem _ hresult),
          fun later hlater => hall.2 later (List.mem_cons_of_mem _ hlater)⟩

/-- A tidy configuration beside a compact registry file. -/
theorem shared_start {l : Layout} (h : Tidy ids l) (hconfig : w.config = l.text)
    (hregistry : ∀ r, w.registry = .value r → Compact r) : Shared ids none w :=
  ⟨⟨l, hconfig, h, fun _ hr => (nomatch hr)⟩, hregistry⟩

/-- Whatever runs of the two scripts follow one another and whatever fails in them, if
no write of the configuration is cut off: a module that imports the configuration
gets the addresses of the first deployment that wrote them, or those that were
declared before it. -/
theorem first_deployment_stays (l : Layout) (h : Tidy ids l) (w : World)
    (hconfig : w.config = l.text) (hregistry : ∀ r, w.registry = .value r → Compact r)
    (runs : List ScriptRun) (huncut : ∀ next ∈ runs, next.Uncut) :
    importedId riskPolicyName (scripts.run w runs).config =
        some (idText (ids.settled runs).riskPolicy) ∧
      importedId swigDelegationName (scripts.run w runs).config =
        some (idText (ids.settled runs).swigDelegation) := by
  obtain ⟨l', htext, htidy, -⟩ :=
    ((shared_start h hconfig hregistry).run runs huncut (Or.inl rfl)).config
  rw [htext]
  exact ⟨htidy.importedId (by decide) htidy.riskPolicy,
    htidy.importedId (by decide) htidy.swigDelegation⟩

/-- A configuration with the endpoint, without addresses and agents. -/
def demoLayout : Layout where
  head := []
  segments := demoConfig.drop exportConst.length ::
    names.dropLast.map fun name => idDeclaration name none ++ ['\n']
  free t ht := by
    have hall : ∀ t ∈ [] :: demoConfig.drop exportConst.length ::
        names.dropLast.map fun name => idDeclaration name none ++ ['\n'],
        leftmost (literal exportConst) t = none := by decide +kernel
    exact fun s hs => literal_eq_none_iff.mp (leftmost_eq_none_iff.mp (hall t ht) s hs)

theorem demoLayout_tidy : Tidy ⟨none, none⟩ demoLayout where
  riskPolicy := ⟨['\n'], by decide +kernel⟩
  swigDelegation := ⟨['\n'], by decide +kernel⟩
  agents t ht := by
    have hnone : lookup (key agentsName) demoLayout.segments = none := by decide +kernel
    rw [hnone] at ht
    cases ht
  solid := by decide +kernel
  code := by decide +kernel

/-- A checkout with this configuration. -/
def demoWorld : World := fresh (fun _ => none) (fun _ => .absent) demoLayout.text

/-- A deployment without faults. -/
def demoDeploy (riskPolicy swigDelegation : ProgramId) : DeployFaults :=
  ⟨false, false, 3000000000, false, some riskPolicy, some swigDelegation, false, .done⟩

/-- An address of a program. -/
def demoProgram : ProgramId := ⟨observerKey, by decide⟩

/-- Another one. -/
def otherProgram : ProgramId := ⟨observerAsset, by decide⟩

/-- The second deployment and a registration leave the first addresses. -/
theorem first_deployment_stays_demo :
    importedId swigDelegationName (scripts.run demoWorld
        [.deploy (demoDeploy demoProgram otherProgram), .register (demoRun observerAsset false),
          .deploy (demoDeploy otherProgram demoProgram)]).config =
      some (some otherProgram.text.toList) := by
  refine (first_deployment_stays demoLayout demoLayout_tidy demoWorld rfl
    (fun _ hr => (nomatch hr)) [.deploy (demoDeploy demoProgram otherProgram),
      .register (demoRun observerAsset false), .deploy (demoDeploy otherProgram demoProgram)]
    fun next hnext => ?_).2
  simp only [List.mem_cons, List.not_mem_nil, or_false] at hnext
  rcases hnext with rfl | rfl | rfl
  · exact fun n => nofun
  · exact fun n => nofun
  · exact fun n => nofun

/-- Whatever runs of the two scripts follow one another, if no write of the
configuration is cut off: after a registration that came to its end the configuration
declares the agents of the registry file of that time, and its literal evaluates to
them, until another registration comes to its end, or throws after it has written the
configuration. -/
theorem last_registration_declared (l : Layout) (h : Tidy ids l) (w : World)
    (hconfig : w.config = l.text) (hregistry : ∀ r, w.registry = .value r → Compact r)
    (before after : List ScriptRun) (input : RunFaults)
    (huncut : ∀ next ∈ before ++ .register input :: after, next.Uncut)
    (hfinished : (AgentRegistration.run (scripts.run w before) input).2.finished = true)
    (hlater : ∀ result ∈ scripts.outputs
      (AgentRegistration.run (scripts.run w before) input).1 after, result.registers = false)
    (hprompt : ∀ next ∈ after, next.Prompt) (declared : Registry) :
    (Declares declared (scripts.run w (before ++ .register input :: after)).config ↔
      (AgentRegistration.run (scripts.run w before) input).1.registry = .value declared) ∧
    ((AgentRegistration.run (scripts.run w before) input).1.registry = .value declared →
      evaluated declared = declared) := by
  have hsplit := List.forall_mem_append.mp huncut
  have hrest := List.forall_mem_cons.mp hsplit.2
  have hbefore := (shared_start h hconfig hregistry).run before hsplit.1 (Or.inl rfl)
  have hrun := hbefore.register hrest.1 (Or.inl rfl)
  rw [agentsAfter, if_pos hfinished] at hrun
  rw [Machine.run_append, Machine.run_cons]
  obtain ⟨q, -, hr⟩ := finished_registry hfinished
  rw [hr] at hrun ⊢
  obtain ⟨l', htext, htidy, hagents⟩ := (hrun.run after hrest.2 (Or.inr ⟨hlater, hprompt⟩)).config
  refine ⟨?_, fun hdeclared => ?_⟩
  · change Declares declared
      (scripts.run (AgentRegistration.run (scripts.run w before) input).1 after).config ↔ _
    rw [htext, declares_layout_iff htidy (hagents q.registry rfl), Stored.value.injEq, eq_comm]
  · have hcompact := hrun.registry q.registry hr
    rw [Stored.value.inj hdeclared] at hcompact
    exact (evaluated_eq_iff declared).mpr hcompact.keys

/-- A deployment after the registration, and a second one that fails. -/
theorem last_registration_declared_demo :
    Declares [("read", observerEntry),
        ("compute", ⟨analystAsset.text, observerKey.text, "Analyst"⟩),
        ("execute", ⟨guardianAsset.text, observerKey.text, "Guardian"⟩)]
      (scripts.run demoWorld ([] ++ .register (demoRun observerAsset false) ::
        [.deploy (demoDeploy demoProgram otherProgram),
          .register { demoRun secondAsset true with configReadFails := true }])).config := by
  refine (last_registration_declared demoLayout demoLayout_tidy demoWorld rfl
    (fun _ hr => (nomatch hr)) []
    [.deploy (demoDeploy demoProgram otherProgram),
      .register { demoRun secondAsset true with configReadFails := true }]
    (demoRun observerAsset false) (fun next hnext => ?_) (by decide +kernel) (by decide +kernel)
    (fun next hnext => ?_) _).1.mpr (by decide +kernel)
  · simp only [List.nil_append, List.mem_cons, List.not_mem_nil, or_false] at hnext
    rcases hnext with rfl | rfl | rfl
    · exact fun n => nofun
    · exact fun n => nofun
    · exact fun n => nofun
  · simp only [List.mem_cons, List.not_mem_nil, or_false] at hnext
    rcases hnext with rfl | rfl
    · trivial
    · exact nofun

end Scripts

end RiskClaw.SharedConfig
