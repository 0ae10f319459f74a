import RiskClaw.KeywordSegments
import RiskClaw.DeployScript
import RiskClaw.RegistryBlock

/-!
# The shared configuration in segments

The text of the shared configuration is cut at its `export const `. The scripts look
up a segment by the name that it begins with, and each changes the segments that it
is responsible for. Here the deployment script writes the addresses of the programs.
-/

namespace RiskClaw.SharedConfig

open LeftmostSearch KeywordSegments TextPieces ConfigPatch ConfigGrammar RegistryBlock
open AgentRegistration DeployScript

section Names

/-- The names that the scripts write. -/
def names : List Text := [riskPolicyName, swigDelegationName, agentsName]

theorem exportConst_borderless : Borderless exportConst := by
  have hall : ∀ k ∈ exportConst.tails, k <+: exportConst → k ≠ [] → k = exportConst := by decide
  exact fun k hk => hall k (List.mem_tails k _ |>.mpr hk)

theorem key_without_first : ∀ name ∈ names, 'e' ∉ key name := by decide

/-- A text without the first character of the keyword. -/
theorem free_of_without {t : Text} (h : 'e' ∉ t) : Free exportConst t := by
  have hfirst : 'e' ∈ exportConst := by decide
  exact fun s hs hpre => h (hs.subset (hpre.subset hfirst))

/-- No segment begins with two of the names. -/
theorem key_exclusive {name name' : Text} (h : name ∈ names) (h' : name' ∈ names)
    (hne : name ≠ name') : Exclusive (key name) (key name') := by
  have hall : ∀ n ∈ names, ∀ n' ∈ names, n ≠ n' → ¬key n <+: key n' := by decide
  intro t ht ht'
  rcases List.prefix_or_prefix_of_prefix ht ht' with hpre | hpre
  · exact hall name h name' h' hne hpre
  · exact hall name' h' name h (Ne.symm hne) hpre

end Names

section Layout

/-- A text cut at its `export const `. -/
structure Layout where
  /-- What stands before the first one. -/
  head : Text
  /-- What follows each of them. -/
  segments : List Text
  /-- No other one stands in the text. -/
  free : ∀ t ∈ head :: segments, Free exportConst t

/-- The text. -/
def Layout.text (l : Layout) : Text := joined exportConst l.head l.segments

/-- The first declaration of the name is that of the address. -/
def HoldsId (name : Text) (id : Option ProgramId) (segments : List Text) : Prop :=
  ∃ rest, lookup (key name) segments = some (idDeclaration name id ++ rest)

/-- The first declaration of agents, if there is one, ends at a closing line in code,
in front of the next declaration. -/
def ClosesAgents (segments : List Text) : Prop :=
  ∀ t, lookup (key agentsName) segments = some (key agentsName ++ t) →
    ∃ body m, leftmost terminator t = some (body, m) ∧ m.group ≠ [] ∧
      lex (.code []) (key agentsName ++ (body ++ ("\n\x7d;".toList ++ m.group))) =
        some (.code [])

/-- The addresses of the programs in a configuration. -/
structure Ids where
  /-- Of `risk_policy`. -/
  riskPolicy : Option ProgramId
  /-- Of `swig_delegation`. -/
  swigDelegation : Option ProgramId
  deriving DecidableEq

/-- The layout declares the addresses, and the scripts find their declarations. In the
text of a module no name is declared a second time. -/
structure Tidy (ids : Ids) (l : Layout) : Prop where
  /-- The address of `risk_policy`. -/
  riskPolicy : HoldsId riskPolicyName ids.riskPolicy l.segments
  /-- The address of `swig_delegation`. -/
  swigDelegation : HoldsId swigDelegationName ids.swigDelegation l.segments
  /-- The agents. -/
  agents : ClosesAgents l.segments
  /-- No segment is blank. -/
  solid : ∀ t ∈ l.segments, trimEnd t ≠ []
  /-- Every keyword stands in code outside of all brackets. -/
  code : ∀ t ∈ l.head :: l.segments, lex (.code []) t = some (.code [])

/-- A matcher that needs a name finds the first segment with this name. -/
theorem Layout.leftmost_eq (l : Layout) {β : Type*} {name t : Text} (hname : name ∈ names)
    (hlookup : lookup (key name) l.segments = some t) {f : Text → Option β}
    (hf : ∀ s, f s ≠ none → exportConst ++ key name <+: s) {b : List Text → β}
    (hb : ∀ back, f (exportConst ++ (t ++ segmentsText exportConst back)) = some (b back)) :
    ∃ front back, l.segments = front ++ t :: back ∧
      (∀ new, update (key name) new l.segments = front ++ new :: back) ∧
      leftmost f l.text = some (joined exportConst l.head front, b back) := by
  obtain ⟨front, back, hsegments, hfront, -, hupdate⟩ := split_of_lookup hlookup
  refine ⟨front, back, hsegments, hupdate, ?_⟩
  have hfree : ∀ u ∈ front, Free exportConst u ∧ ¬key name <+: u := fun u hu =>
    ⟨l.free u (List.mem_cons_of_mem _ (hsegments ▸ List.mem_append_left _ hu)), hfront u hu⟩
  rw [Layout.text, hsegments]
  exact leftmost_named exportConst_borderless (key_without_first name hname)
    (l.free l.head List.mem_cons_self) hfree hf (hb back)

/-- The lexer is in code after some of the segments. -/
theorem lex_joined {head : Text} {segments : List Text}
    (h : ∀ t ∈ head :: segments, lex (.code []) t = some (.code [])) :
    lex (.code []) (joined exportConst head segments) = some (.code []) := by
  have hkeyword : lex (.code []) exportConst = some (.code []) := by decide
  refine lex_append_same (h head List.mem_cons_self) ?_
  induction segments with
  | nil => rfl
  | cons t segments ih =>
    rw [segmentsText_cons]
    refine lex_append_same hkeyword (lex_append_same ?_ (ih fun u hu => ?_))
    · exact h t (List.mem_cons_of_mem _ List.mem_cons_self)
    · refine h u ?_
      rcases List.mem_cons.mp hu with rfl | hu
      · exact List.mem_cons_self
      · exact List.mem_cons_of_mem _ (List.mem_cons_of_mem t hu)

/-- What is exported under a name begins in the first segment with this name. -/
theorem Tidy.exported_eq {ids : Ids} {l : Layout} (h : Tidy ids l) {name rest : Text}
    (hname : name ∈ names) (hlookup : lookup (key name) l.segments = some (key name ++ rest)) :
    ∃ back, exported (exportConst ++ key name) (.code []) l.text =
      some (rest ++ segmentsText exportConst back) := by
  obtain ⟨front, back, hsegments, -, hfind⟩ := l.leftmost_eq hname hlookup
    (fun s hs => by
      by_contra hno
      exact hs (literal_eq_none_iff.mpr hno))
    (b := fun back => rest ++ segmentsText exportConst back)
    (fun back => by
      rw [literal_eq_some_iff]
      simp only [List.append_assoc])
  have hpattern : exportConst ++ key name ≠ [] := List.append_ne_nil_of_left_ne_nil (by decide) _
  refine ⟨back, exported_of_leftmost hpattern hfind (lex_joined fun t ht => h.code t ?_)⟩
  rw [hsegments]
  rcases List.mem_cons.mp ht with rfl | ht
  · exact List.mem_cons_self
  · exact List.mem_cons_of_mem _ (List.mem_append_left _ ht)

/-- A new segment that is code leaves code. -/
theorem code_update {head pattern new : Text} {segments : List Text}
    (h : ∀ t ∈ head :: segments, lex (.code []) t = some (.code []))
    (hnew : lex (.code []) new = some (.code [])) :
    ∀ t ∈ head :: update pattern new segments, lex (.code []) t = some (.code []) := by
  intro t ht
  rcases List.mem_cons.mp ht with rfl | ht
  · exact h _ List.mem_cons_self
  · rcases mem_update ht with rfl | ht
    · exact hnew
    · exact h t (List.mem_cons_of_mem _ ht)

/-- A segment that is found is code. -/
theorem Tidy.code_of_lookup {ids : Ids} {l : Layout} (h : Tidy ids l) {pattern t : Text}
    (hlookup : lookup pattern l.segments = some t) : lex (.code []) t = some (.code []) :=
  h.code t (List.mem_cons_of_mem _ (List.mem_of_find?_eq_some hlookup))

/-- A layout with a new segment in the place of one that is found. -/
def Layout.set (l : Layout) (name new : Text) (h : Free exportConst new) : Layout where
  head := l.head
  segments := update (key name) new l.segments
  free t ht := by
    rcases List.mem_cons.mp ht with rfl | ht
    · exact l.free _ List.mem_cons_self
    · rcases mem_update ht with rfl | ht
      · exact h
      · exact l.free t (List.mem_cons_of_mem _ ht)

theorem Layout.set_text (l : Layout) (name new : Text) (h : Free exportConst new) :
    (l.set name new h).text = joined exportConst l.head (update (key name) new l.segments) := rfl

end Layout

section Ids

/-- In the declaration of an address no keyword begins. -/
theorem idDeclaration_absent {name : Text} (hname : name ∈ names) (id : Option ProgramId)
    (rest : Text) : Absent exportConst (idDeclaration name id) rest := by
  have hspace : ' ' ∈ exportConst := by decide
  have hend : ∀ rest, Absent exportConst (idValue id ++ [';']) rest := by
    intro rest
    cases id with
    | none => exact absent_of_not_mem (by decide) rest
    | some a =>
      have hfree : Free exportConst a.text.toList := fun s hs hpre =>
        absurd (a.valid ' ' (hs.subset (hpre.subset hspace))) (by decide)
      have hvalue : idValue (some a) ++ [';'] =
          [Char.ofNat 34] ++ (a.text.toList ++ [Char.ofNat 34, ';']) := by
        simp [idValue]
      rw [hvalue]
      exact Absent.append (absent_of_not_mem (by decide) _)
        (Absent.append (hfree.absent_break (by decide) _) (absent_of_not_mem (by decide) _))
  have hfront := key_without_first name hname
  have htype : 'e' ∉ idType := by decide
  exact Absent.append (absent_of_not_mem hfront _)
    (Absent.append (absent_of_not_mem htype _) (hend rest))

theorem idDeclaration_key (name : Text) (id : Option ProgramId) (rest : Text) :
    idDeclaration name id ++ rest =
      key name ++ (idType ++ (idValue id ++ ';' :: rest)) := by
  simp only [idDeclaration, List.append_assoc, List.cons_append, List.nil_append]

/-- What stands before the first of a symbol. -/
theorem span_before {c : Char} {x : Text} (h : c ∉ x) (rest : Text) :
    (x ++ c :: rest).takeWhile (fun d => decide (d ≠ c)) = x ∧
      (x ++ c :: rest).dropWhile (fun d => decide (d ≠ c)) = c :: rest := by
  have hall : ∀ d ∈ x, decide (d ≠ c) = true := fun d hd =>
    decide_eq_true fun he => h (he ▸ hd)
  constructor
  · rw [List.takeWhile_append_of_pos hall, List.takeWhile_cons_of_neg (by simp), List.append_nil]
  · rw [List.dropWhile_append_of_pos hall, List.dropWhile_cons_of_neg (by simp)]

/-- The value of an address contains no semicolon. -/
theorem idValue_semicolon (id : Option ProgramId) : ';' ∉ idType ++ idValue id := by
  have htype : ';' ∉ idType := by decide
  refine List.not_mem_append htype ?_
  cases id with
  | none => decide
  | some a =>
    have hid : ';' ∉ a.text.toList := fun h => absurd (a.valid _ h) (by decide)
    have hmark : ';' ≠ Char.ofNat 34 := by decide
    simp [idValue, hid, hmark]

/-- The expression of a name matches the declaration of an address up to its
semicolon. -/
theorem idRegex_declaration (name : Text) (id : Option ProgramId) (rest : Text) :
    idRegex name (exportConst ++ (idDeclaration name id ++ rest)) = some rest := by
  have htext : exportConst ++ (idDeclaration name id ++ rest) =
      exportConst ++ key name ++ (idType ++ idValue id ++ ';' :: rest) := by
    rw [idDeclaration_key]
    simp only [List.append_assoc]
  rw [idRegex, htext, literal_append]
  dsimp only
  rw [(span_before (idValue_semicolon id) rest).2]
  rfl

theorem idRegex_needs {name : Text} (s : Text) (h : idRegex name s ≠ none) :
    exportConst ++ key name <+: s := by
  by_contra hno
  rw [idRegex, literal_eq_none_iff.mpr hno] at h
  exact h rfl

theorem literal_needs {pattern : Text} (s : Text) (h : literal pattern s ≠ none) :
    pattern <+: s := by
  by_contra hno
  exact h (literal_eq_none_iff.mpr hno)

/-- What a module gets for a declared address. -/
def idText (id : Option ProgramId) : Option Text := id.map fun a => a.text.toList

theorem readValue_idValue (id : Option ProgramId) (rest : Text) :
    readValue (idValue id ++ ';' :: rest) = some (idText id) := by
  cases id with
  | none => rfl
  | some a =>
    have hmark : Char.ofNat 34 ∉ a.text.toList := fun h => absurd (a.valid _ h) (by decide)
    have htext : idValue (some a) ++ ';' :: rest =
        [Char.ofNat 34] ++ (a.text.toList ++ Char.ofNat 34 :: ';' :: rest) := by
      simp only [idValue, List.cons_append, List.append_assoc, List.nil_append]
    have hnull : literal "null;".toList ([Char.ofNat 34] ++
        (a.text.toList ++ Char.ofNat 34 :: ';' :: rest)) = none := rfl
    obtain ⟨htake, hdrop⟩ := span_before hmark (';' :: rest)
    rw [htext, readValue, hnull, literal_append]
    dsimp only
    rw [htake, hdrop]
    rfl

variable {l : Layout} {ids : Ids} {name : Text} {id : Option ProgramId}

/-- A module that imports the configuration gets the declared address. -/
theorem Tidy.importedId (h : Tidy ids l) (hname : name ∈ names)
    (hid : HoldsId name id l.segments) : importedId name l.text = some (idText id) := by
  obtain ⟨rest, hlookup⟩ := hid
  rw [idDeclaration_key] at hlookup
  obtain ⟨back, hexported⟩ := h.exported_eq hname hlookup
  rw [DeployScript.importedId, hexported, Option.bind_some, List.append_assoc, List.append_assoc,
    List.cons_append, literal_append, Option.bind_some, readValue_idValue]

/-- The declaration of an address is code. -/
theorem idDeclaration_code (hname : name ∈ names) (id : Option ProgramId) :
    lex (.code []) (idDeclaration name id) = some (.code []) := by
  have hkeys : ∀ n ∈ names, lex (.code []) (key n) = some (.code []) := by decide
  have htype : lex (.code []) idType = some (.code []) := by decide
  refine lex_append_same (hkeys name hname) (lex_append_same htype ?_)
  cases id with
  | none => decide
  | some a =>
    have hstring : ∀ text : Text, (∀ c ∈ text, c ∈ base58) →
        lex (.string (Char.ofNat 34) []) text = some (.string (Char.ofNat 34) []) := by
      intro text htext
      induction text with
      | nil => rfl
      | cons c text ih =>
        have hall : (base58.all fun c => next (.string (Char.ofNat 34) []) c =
            some (.string (Char.ofNat 34) [])) = true := by decide
        have hnext := List.all_eq_true.mp hall c (htext c List.mem_cons_self)
        rw [lex, of_decide_eq_true hnext]
        exact ih fun d hd => htext d (List.mem_cons_of_mem c hd)
    have hvalue : idValue (some a) ++ [';'] =
        [Char.ofNat 34] ++ (a.text.toList ++ [Char.ofNat 34, ';']) := by
      simp [idValue]
    have hmark : lex (.code []) [Char.ofNat 34] = some (.string (Char.ofNat 34) []) := by decide
    rw [hvalue, lex_append, hmark, Option.bind_some, lex_append, hstring _ a.valid]
    decide

/-- Behind another address the text is code as before. -/
theorem code_of_idDeclaration (hname : name ∈ names) {rest : Text}
    (h : lex (.code []) (idDeclaration name id ++ rest) = some (.code [])) (new : ProgramId) :
    lex (.code []) (idDeclaration name (some new) ++ rest) = some (.code []) := by
  rw [lex_append, idDeclaration_code hname, Option.bind_some] at h
  exact lex_append_same (idDeclaration_code hname _) h

/-- The script replaces the declaration of the name and nothing else. -/
theorem replaceId_layout (hname : name ∈ names) {rest : Text}
    (hlookup : lookup (key name) l.segments = some (idDeclaration name id ++ rest))
    (new : ProgramId) :
    ∃ l' : Layout, replaceId name new l.text = l'.text ∧ l'.head = l.head ∧
      l'.segments = update (key name) (idDeclaration name (some new) ++ rest) l.segments := by
  obtain ⟨front, back, hsegments, hupdate, hfind⟩ := l.leftmost_eq hname hlookup idRegex_needs
    (b := fun back => rest ++ segmentsText exportConst back)
    (fun back => by rw [List.append_assoc, idRegex_declaration])
  have hmem : idDeclaration name id ++ rest ∈ l.segments := by
    rw [hsegments]
    exact List.mem_append_right front List.mem_cons_self
  have hfree : Free exportConst (idDeclaration name (some new) ++ rest) :=
    Free.append (idDeclaration_absent hname (some new) rest)
      (l.free _ (List.mem_cons_of_mem _ hmem)).of_append_right
  refine ⟨l.set name _ hfree, ?_, rfl, rfl⟩
  rw [replaceId, hfind, Layout.set_text, hupdate, joined_split]
  simp only [List.append_assoc]

/-- Under another name the same address is declared after an update. -/
theorem HoldsId.update {name' new : Text} {segments : List Text} (hname : name ∈ names)
    (hname' : name' ∈ names) (hne : name' ≠ name) (hnew : key name' <+: new)
    (h : HoldsId name id segments) :
    HoldsId name id (KeywordSegments.update (key name') new segments) := by
  obtain ⟨rest, hlookup⟩ := h
  refine ⟨rest, ?_⟩
  rw [lookup_update_of_exclusive (key_exclusive hname' hname hne) hnew]
  exact hlookup

theorem idDeclaration_prefix (name : Text) (id : Option ProgramId) (rest : Text) :
    key name <+: idDeclaration name id ++ rest := by
  rw [idDeclaration_key]
  exact List.prefix_append _ _

/-- A text with a visible character is not blank. -/
theorem trimEnd_ne_nil {c : Char} {text : Text} (hmem : c ∈ text) (hc : isWhiteSpace c = false) :
    trimEnd text ≠ [] := by
  intro hnil
  have hall := List.rdropWhile_eq_nil_iff.mp hnil c hmem
  rw [hc] at hall
  cases hall

theorem solid_of_key {name t : Text} (h : key name <+: t) : trimEnd t ≠ [] :=
  trimEnd_ne_nil (h.subset (List.mem_append_right _ (List.mem_singleton.mpr rfl)))
    (by decide : isWhiteSpace ':' = false)

/-- A replaced address leaves a tidy layout, in which the agents are declared as
before. -/
theorem Tidy.replaceId {ids : Ids} (h : Tidy ids l) (programIds : ProgramIds) :
    ∃ l' : Layout, patchIds programIds l.text = l'.text ∧
      Tidy ⟨some programIds.riskPolicy, some programIds.swigDelegation⟩ l' ∧
      lookup (key agentsName) l'.segments = lookup (key agentsName) l.segments := by
  have hrisk : riskPolicyName ∈ names := by decide
  have hswig : swigDelegationName ∈ names := by decide
  have hagents : agentsName ∈ names := by decide
  have hrs : riskPolicyName ≠ swigDelegationName := by decide
  have hra : riskPolicyName ≠ agentsName := by decide
  have hsa : swigDelegationName ≠ agentsName := by decide
  obtain ⟨rest, hlookup⟩ := h.riskPolicy
  obtain ⟨l₁, htext₁, hhead₁, hsegments₁⟩ := replaceId_layout hrisk hlookup programIds.riskPolicy
  have hnew₁ := idDeclaration_prefix riskPolicyName (some programIds.riskPolicy) rest
  have hswig₁ : HoldsId swigDelegationName ids.swigDelegation l₁.segments := by
    rw [hsegments₁]
    exact h.swigDelegation.update hswig hrisk hrs hnew₁
  obtain ⟨rest₂, hlookup₂⟩ := hswig₁
  obtain ⟨l₂, htext₂, hhead₂, hsegments₂⟩ :=
    replaceId_layout hswig hlookup₂ programIds.swigDelegation
  have hnew₂ := idDeclaration_prefix swigDelegationName (some programIds.swigDelegation) rest₂
  have hsame : lookup (key agentsName) l₂.segments = lookup (key agentsName) l.segments := by
    rw [hsegments₂, lookup_update_of_exclusive (key_exclusive hswig hagents hsa) hnew₂, hsegments₁,
      lookup_update_of_exclusive (key_exclusive hrisk hagents hra) hnew₁]
  have hcode₁ : ∀ t ∈ l₁.head :: l₁.segments, lex (.code []) t = some (.code []) := by
    rw [hhead₁, hsegments₁]
    exact code_update h.code (code_of_idDeclaration hrisk (h.code_of_lookup hlookup) _)
  refine ⟨l₂, by rw [patchIds, htext₁, htext₂], ⟨?_, ?_, ?_, ?_, ?_⟩, hsame⟩
  · rw [hsegments₂]
    refine HoldsId.update hrisk hswig hrs.symm hnew₂ ⟨rest, ?_⟩
    rw [hsegments₁]
    exact lookup_update hlookup hnew₁
  · rw [hsegments₂]
    exact ⟨rest₂, lookup_update hlookup₂ hnew₂⟩
  · intro t ht
    rw [hsame] at ht
    exact h.agents t ht
  · intro t ht
    rw [hsegments₂] at ht
    rcases mem_update ht with rfl | ht
    · exact solid_of_key hnew₂
    · rw [hsegments₁] at ht
      rcases mem_update ht with rfl | ht
      · exact solid_of_key hnew₁
      · exact h.solid t ht
  · rw [hhead₂, hsegments₂]
    have hcode := hcode₁ _ (List.mem_cons_of_mem _ (List.mem_of_find?_eq_some hlookup₂))
    exact code_update hcode₁ (code_of_idDeclaration hswig hcode _)

end Ids

end RiskClaw.SharedConfig
