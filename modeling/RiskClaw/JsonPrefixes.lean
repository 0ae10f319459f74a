import RiskClaw.JsonText

/-!
# JSON texts that are cut off

The reader of JSON texts looks at no character twice, so a number above the
length of a text is enough for it, and what it has read up to a closing mark it
reads whatever follows. So the text of an object has no proper prefix that is a
JSON text: a file that holds only the front of one is never read as another
value.
-/

namespace RiskClaw.JsonText

open LeftmostSearch ConfigPatch

section Fuel

variable {β : Type*}

/-- What is read is taken off the front of the text. -/
def Consumes (part : Text → Option (β × Text)) : Prop :=
  ∀ text b rest, part text = some (b, rest) → rest.length < text.length

theorem skipSpace_length (text : Text) : (skipSpace text).length ≤ text.length :=
  (List.dropWhile_suffix isSpace).length_le

theorem codeUnit_consumes : Consumes codeUnit := by
  intro text b rest h
  unfold codeUnit at h
  split at h
  · simp only [Option.bind_eq_bind, Option.bind_eq_some_iff, Option.some.injEq, Prod.mk.injEq] at h
    obtain ⟨_, _, _, _, _, _, _, _, _, rfl⟩ := h
    simp only [List.length_cons]
    omega
  · cases h

theorem lowSurrogate_consumes (high : ℕ) : Consumes (lowSurrogate high) := by
  intro text b rest h
  unfold lowSurrogate at h
  split at h
  · rename_i c text
    split_ifs at h
    split at h
    · rename_i low after hunit
      split_ifs at h
      obtain ⟨-, rfl⟩ := Prod.mk.inj (Option.some.inj h)
      have hlength := codeUnit_consumes _ _ _ hunit
      simp only [List.length_cons]
      omega
    · cases h
  · cases h

theorem unicode_consumes : Consumes unicode := by
  intro text b rest h
  unfold unicode at h
  split at h
  · rename_i unit after hunit
    have hlength := codeUnit_consumes _ _ _ hunit
    split_ifs at h
    · exact (lowSurrogate_consumes _ _ _ _ h).trans hlength
    · cases h
      exact hlength
  · cases h

theorem escapeSequence_consumes : Consumes escapeSequence := by
  intro text b rest h
  cases text with
  | nil => cases h
  | cons c text =>
    rw [escapeSequence] at h
    split at h
    · cases h
      exact Nat.lt_succ_self _
    · split_ifs at h
      · cases h
        exact Nat.lt_succ_self _
      · exact (unicode_consumes _ _ _ h).trans (Nat.lt_succ_self _)

theorem character_consumes : Consumes character := by
  intro text b rest h
  cases text with
  | nil => cases h
  | cons c text =>
    rw [character] at h
    split_ifs at h
    · exact (escapeSequence_consumes _ _ _ h).trans (Nat.lt_succ_self _)
    · cases h
      exact Nat.lt_succ_self _

theorem stringBody_consumes (n : ℕ) : Consumes (stringBody n) := by
  induction n with
  | zero => exact fun _ _ _ h => nomatch h
  | succ n ih =>
    intro text b rest h
    rw [stringBody] at h
    split_ifs at h with hmark
    · cases h
      cases text with
      | nil => cases hmark
      | cons c text => exact Nat.lt_succ_self _
    · split at h
      · rename_i c after hcharacter
        obtain ⟨r, hr, he⟩ := Option.map_eq_some_iff.mp h
        cases he
        exact (ih _ _ _ hr).trans (character_consumes _ _ _ hcharacter)
      · cases h

theorem readString_consumes : Consumes readString := by
  intro text b rest h
  cases text with
  | nil => cases h
  | cons c text =>
    rw [readString] at h
    split_ifs at h
    exact (stringBody_consumes _ _ _ _ h).trans (Nat.lt_succ_self _)

theorem readNumber_length {q : NumberState} {text numeral rest : Text}
    (h : readNumber q text = some (numeral, rest)) :
    rest.length ≤ text.length ∧ (q.accepts = false → rest.length < text.length) := by
  induction text generalizing q numeral with
  | nil =>
    rw [readNumber] at h
    split_ifs at h with hq
    cases h
    exact ⟨le_rfl, fun hno => absurd (hno.symm.trans hq) (by decide)⟩
  | cons c text ih =>
    rw [readNumber] at h
    split at h
    · obtain ⟨r, hr, he⟩ := Option.map_eq_some_iff.mp h
      cases he
      have hlength := (ih hr).1
      exact ⟨hlength.trans (Nat.le_succ _), fun _ => Nat.lt_succ_of_le hlength⟩
    · split_ifs at h with hq
      cases h
      exact ⟨le_rfl, fun hno => absurd (hno.symm.trans hq) (by decide)⟩

theorem scalar_consumes : Consumes scalar := by
  have hword : ∀ (c : Char) (word text rest : Text), literal (c :: word) text = some rest →
      rest.length < text.length := by
    intro c word text rest h
    rw [literal_eq_some_iff.mp h]
    simp only [List.length_append, List.length_cons]
    omega
  intro text b rest h
  unfold scalar at h
  split at h
  · rename_i hnull
    cases h
    exact hword _ _ _ _ hnull
  · rename_i htrue
    cases h
    exact hword _ _ _ _ htrue
  · rename_i hfalse
    cases h
    exact hword _ _ _ _ hfalse
  · obtain ⟨r, hr, he⟩ := Option.map_eq_some_iff.mp h
    cases he
    exact (readNumber_length hr).2 rfl

section Sequences

variable {part : Text → Option (β × Text)}

theorem sequence_consumes (hpart : Consumes part) (close : Char) (n : ℕ) :
    Consumes (sequence part close n) := by
  induction n with
  | zero => exact fun _ _ _ h => nomatch h
  | succ n ih =>
    intro text b rest h
    rw [sequence] at h
    split at h
    · cases h
    · rename_i b after hb
      have hlength := hpart _ _ _ hb
      have hspace := skipSpace_length after
      split at h
      · cases h
      · rename_i c later hlater
        rw [hlater, List.length_cons] at hspace
        split_ifs at h
        · cases h
          omega
        · obtain ⟨r, hr, he⟩ := Option.map_eq_some_iff.mp h
          cases he
          have hrest := ih _ _ _ hr
          omega

theorem between_consumes (hpart : Consumes part) (close : Char) (n : ℕ) :
    Consumes (between part close n) := by
  intro text b rest h
  rw [between] at h
  have hspace := skipSpace_length text
  split_ifs at h with hclose
  · cases h
    cases hskip : skipSpace text with
    | nil =>
      rw [hskip] at hclose
      cases hclose
    | cons c later =>
      rw [hskip, List.length_cons] at hspace
      exact hspace
  · exact sequence_consumes hpart close n _ _ _ h

theorem member_consumes (hpart : Consumes part) : Consumes (member part) := by
  intro text b rest h
  rw [member] at h
  have hspace := skipSpace_length text
  split at h
  · cases h
  · rename_i key after hkey
    have hlength := readString_consumes _ _ _ hkey
    have hafter := skipSpace_length after
    split at h
    · cases h
    · rename_i c later hlater
      rw [hlater, List.length_cons] at hafter
      split_ifs at h
      obtain ⟨r, hr, he⟩ := Option.map_eq_some_iff.mp h
      cases he
      have hrest := hpart _ _ _ hr
      omega

end Sequences

theorem value_consumes (n : ℕ) : Consumes (value n) := by
  induction n with
  | zero => exact fun _ _ _ h => nomatch h
  | succ n ih =>
    intro text b rest h
    rw [value] at h
    have hspace := skipSpace_length text
    split at h
    · cases h
    · rename_i c later hlater
      rw [hlater, List.length_cons] at hspace
      split_ifs at h
      · obtain ⟨r, hr, he⟩ := Option.map_eq_some_iff.mp h
        cases he
        have hrest := between_consumes (member_consumes ih) _ _ _ _ _ hr
        omega
      · obtain ⟨r, hr, he⟩ := Option.map_eq_some_iff.mp h
        cases he
        have hrest := between_consumes ih _ _ _ _ _ hr
        omega
      · obtain ⟨r, hr, he⟩ := Option.map_eq_some_iff.mp h
        cases he
        have hrest := readString_consumes _ _ _ hr
        rw [List.length_cons] at hrest
        omega
      · have hrest := scalar_consumes _ _ _ h
        rw [List.length_cons] at hrest
        omega

section Enough

variable {part part' : Text → Option (β × Text)} {text : Text} {n m : ℕ}

/-- Readers that agree on the texts up to a length make sequences that do. -/
theorem sequence_enough (hpart : Consumes part) (close : Char)
    (hagree : ∀ t : Text, t.length ≤ text.length → part t = part' t) (hn : text.length < n)
    (hm : text.length < m) : sequence part close n text = sequence part' close m text := by
  induction n generalizing m text with
  | zero => omega
  | succ n ih =>
    obtain ⟨m, rfl⟩ : ∃ k, m = k + 1 := ⟨m - 1, by omega⟩
    rw [sequence, sequence, ← hagree text le_rfl]
    cases hb : part text with
    | none => rfl
    | some r =>
      obtain ⟨b, after⟩ := r
      have hlength := hpart _ _ _ hb
      have hspace := skipSpace_length after
      dsimp only
      cases hskip : skipSpace after with
      | nil => rfl
      | cons c later =>
        rw [hskip, List.length_cons] at hspace
        have hshort : ∀ t : Text, t.length ≤ later.length → part t = part' t :=
          fun t ht => hagree t (by omega)
        have hlater := ih hshort (m := m) (by omega) (by omega)
        dsimp only
        rw [hlater]

theorem between_enough (hpart : Consumes part) (close : Char)
    (hagree : ∀ t : Text, t.length ≤ text.length → part t = part' t) (hn : text.length < n)
    (hm : text.length < m) : between part close n text = between part' close m text := by
  rw [between, between, sequence_enough hpart close hagree hn hm]

theorem member_enough (hagree : ∀ t : Text, t.length ≤ text.length → part t = part' t) :
    member part text = member part' text := by
  have hspace := skipSpace_length text
  rw [member, member]
  cases hkey : readString (skipSpace text) with
  | none => rfl
  | some r =>
    obtain ⟨key, after⟩ := r
    have hlength := readString_consumes _ _ _ hkey
    have hafter := skipSpace_length after
    dsimp only
    cases hskip : skipSpace after with
    | nil => rfl
    | cons c later =>
      rw [hskip, List.length_cons] at hafter
      dsimp only
      rw [hagree later (by omega)]

/-- A number above the length of the text is enough: every other such number
reads the same. -/
theorem value_enough (text : Text) {n m : ℕ} (hn : text.length < n) (hm : text.length < m) :
    value n text = value m text := by
  induction n generalizing m text with
  | zero => omega
  | succ n ih =>
    obtain ⟨m, rfl⟩ : ∃ k, m = k + 1 := ⟨m - 1, by omega⟩
    have hspace := skipSpace_length text
    rw [value, value]
    cases hskip : skipSpace text with
    | nil => rfl
    | cons c later =>
      rw [hskip, List.length_cons] at hspace
      have hagree : ∀ t : Text, t.length ≤ later.length → value n t = value m t :=
        fun t ht => ih t (by omega) (by omega)
      have hmembers : ∀ t : Text, t.length ≤ later.length →
          member (value n) t = member (value m) t :=
        fun t ht => member_enough fun u hu => hagree u (hu.trans ht)
      have hn' : later.length < n := by omega
      have hm' : later.length < m := by omega
      have hitems := between_enough (value_consumes n) ']' hagree hn' hm'
      have hobject := between_enough (member_consumes (value_consumes n)) '\x7d' hmembers hn' hm'
      dsimp only
      rw [hitems, hobject]

end Enough

end Fuel

section Prefixes

variable {β : Type*}

/-- What is read off a text is read whatever follows the text. -/
def Determined (part : Text → Option (β × Text)) : Prop :=
  ∀ text b rest, part text = some (b, rest) → ∀ more, part (text ++ more) = some (b, rest ++ more)

/-- What is read before the end of a text is read whatever follows the text. -/
structure Settled (part : Text → Option (β × Text)) : Prop where
  /-- Something that is no white space is read. -/
  visible : ∀ text r, part text = some r → skipSpace text ≠ []
  /-- What follows does not matter. -/
  settled : ∀ text b rest, part text = some (b, rest) → rest ≠ [] →
    ∀ more, part (text ++ more) = some (b, rest ++ more)

theorem skipSpace_append {text : Text} (h : skipSpace text ≠ []) (more : Text) :
    skipSpace (text ++ more) = skipSpace text ++ more := by
  have hempty : (text.dropWhile isSpace).isEmpty ≠ true := fun he => h (List.isEmpty_iff.mp he)
  rw [skipSpace, List.dropWhile_append, if_neg hempty]
  rfl

theorem codeUnit_determined : Determined codeUnit := by
  intro text b rest h more
  unfold codeUnit at h
  split at h
  · simp only [Option.bind_eq_bind, Option.bind_eq_some_iff, Option.some.injEq, Prod.mk.injEq] at h
    obtain ⟨a, ha, b', hb, c, hc, d, hd, rfl, rfl⟩ := h
    simp only [List.cons_append, codeUnit, ha, hb, hc, hd]
    rfl
  · cases h

theorem lowSurrogate_determined (high : ℕ) : Determined (lowSurrogate high) := by
  intro text b rest h more
  unfold lowSurrogate at h
  split at h
  · rename_i c text
    split_ifs at h with hslash
    split at h
    · rename_i low after hunit
      split_ifs at h with hrange
      obtain ⟨hb, hrest⟩ := Prod.mk.inj (Option.some.inj h)
      rw [List.cons_append, List.cons_append, lowSurrogate, if_pos hslash,
        codeUnit_determined _ _ _ hunit more]
      dsimp only
      rw [if_pos hrange, hb, hrest]
    · cases h
  · cases h

theorem unicode_determined : Determined unicode := by
  intro text b rest h more
  unfold unicode at h
  split at h
  · rename_i unit after hunit
    rw [unicode, codeUnit_determined _ _ _ hunit more]
    dsimp only
    split_ifs at h ⊢
    · exact lowSurrogate_determined _ _ _ _ h more
    · obtain ⟨hb, hrest⟩ := Prod.mk.inj (Option.some.inj h)
      rw [hb, hrest]
  · cases h

theorem escapeSequence_determined : Determined escapeSequence := by
  intro text b rest h more
  cases text with
  | nil => cases h
  | cons c text =>
    rw [escapeSequence] at h
    rw [List.cons_append, escapeSequence]
    cases hfind : shortEscapes.find? fun p => p.2 = c with
    | some p =>
      rw [hfind] at h
      cases h
      rfl
    | none =>
      rw [hfind] at h
      dsimp only at h ⊢
      split_ifs at h ⊢
      · cases h
        rfl
      · exact unicode_determined _ _ _ h more

theorem character_determined : Determined character := by
  intro text b rest h more
  cases text with
  | nil => cases h
  | cons c text =>
    rw [character] at h
    rw [List.cons_append, character]
    split_ifs at h ⊢
    · exact escapeSequence_determined _ _ _ h more
    · cases h
      rfl

/-- A string is read with every greater number, whatever follows it. -/
theorem stringBody_determined {n m : ℕ} (hm : n ≤ m) {text s rest : Text}
    (h : stringBody n text = some (s, rest)) (more : Text) :
    stringBody m (text ++ more) = some (s, rest ++ more) := by
  induction n generalizing m text s with
  | zero => cases h
  | succ n ih =>
    obtain ⟨m, rfl⟩ : ∃ k, m = k + 1 := ⟨m - 1, by omega⟩
    rw [stringBody] at h ⊢
    cases text with
    | nil => cases h
    | cons c text =>
      change (if some c = some (Char.ofNat 34) then some ([], text) else _) = _ at h
      change (if some c = some (Char.ofNat 34) then some ([], text ++ more) else _) = _
      split_ifs at h ⊢ with hmark
      · cases h
        rfl
      · cases hcharacter : character (c :: text) with
        | none =>
          rw [hcharacter] at h
          cases h
        | some r =>
          rw [hcharacter] at h
          obtain ⟨d, after⟩ := r
          obtain ⟨t, ht, he⟩ := Option.map_eq_some_iff.mp h
          cases he
          rw [character_determined _ _ _ hcharacter more]
          dsimp only
          rw [ih (Nat.le_of_succ_le_succ hm) ht]
          rfl

theorem readString_determined : Determined readString := by
  intro text b rest h more
  cases text with
  | nil => cases h
  | cons c text =>
    rw [readString] at h
    rw [List.cons_append, readString]
    split_ifs at h ⊢
    refine stringBody_determined ?_ h more
    rw [List.length_append]
    omega

theorem readNumber_settled {q : NumberState} {text numeral rest : Text}
    (h : readNumber q text = some (numeral, rest)) (hrest : rest ≠ []) (more : Text) :
    readNumber q (text ++ more) = some (numeral, rest ++ more) := by
  induction text generalizing q numeral with
  | nil =>
    rw [readNumber] at h
    split_ifs at h
    cases h
    exact absurd rfl hrest
  | cons c text ih =>
    rw [readNumber] at h
    rw [List.cons_append, readNumber]
    cases hnext : q.next c with
    | none =>
      rw [hnext] at h
      dsimp only at h ⊢
      split_ifs at h ⊢
      cases h
      rfl
    | some q' =>
      rw [hnext] at h
      obtain ⟨r, hr, he⟩ := Option.map_eq_some_iff.mp h
      cases he
      dsimp only
      rw [ih hr]
      rfl

/-- Up to so many parts are read whatever follows their closing mark. -/
theorem sequence_determined {part : Text → Option (β × Text)} (hpart : Settled part) (close : Char)
    (n : ℕ) : Determined (sequence part close n) := by
  induction n with
  | zero => exact fun _ _ _ h => nomatch h
  | succ n ih =>
    intro text bs rest h more
    rw [sequence] at h ⊢
    cases hb : part text with
    | none =>
      rw [hb] at h
      cases h
    | some r =>
      obtain ⟨b, after⟩ := r
      rw [hb] at h
      dsimp only at h
      cases hskip : skipSpace after with
      | nil =>
        rw [hskip] at h
        cases h
      | cons c later =>
        have hseen : skipSpace after ≠ [] := hskip ▸ List.cons_ne_nil c later
        have hafter : after ≠ [] := by
          rintro rfl
          exact hseen rfl
        rw [hskip] at h
        rw [hpart.settled _ _ _ hb hafter more]
        dsimp only at h ⊢
        rw [skipSpace_append hseen, hskip, List.cons_append]
        dsimp only
        split_ifs at h ⊢
        · cases h
          rfl
        · obtain ⟨r, hr, he⟩ := Option.map_eq_some_iff.mp h
          cases he
          rw [ih _ _ _ hr more]
          rfl

theorem between_determined {part : Text → Option (β × Text)} (hpart : Settled part) (close : Char)
    (n : ℕ) : Determined (between part close n) := by
  intro text bs rest h more
  rw [between] at h ⊢
  by_cases hclose : (skipSpace text).head? = some close
  · have hseen : skipSpace text ≠ [] := by
      intro hnil
      rw [hnil] at hclose
      cases hclose
    rw [if_pos hclose] at h
    obtain ⟨hbs, hrest⟩ := Prod.mk.inj (Option.some.inj h)
    rw [skipSpace_append hseen, List.head?_append_of_ne_nil _ hseen, if_pos hclose,
      List.tail_append_of_ne_nil hseen, hbs, hrest]
  · rw [if_neg hclose] at h
    have hseen : skipSpace text ≠ [] := by
      cases n with
      | zero => cases h
      | succ n =>
        rw [sequence] at h
        cases hb : part text with
        | none =>
          rw [hb] at h
          cases h
        | some r => exact hpart.visible _ _ hb
    rw [skipSpace_append hseen, List.head?_append_of_ne_nil _ hseen, if_neg hclose]
    exact sequence_determined hpart close n _ _ _ h more

theorem member_settled {part : Text → Option (β × Text)} (hpart : Settled part) :
    Settled (member part) where
  visible text r h hblank := by
    rw [member, hblank] at h
    cases h
  settled text b rest h hrest more := by
    rw [member] at h ⊢
    cases hkey : readString (skipSpace text) with
    | none =>
      rw [hkey] at h
      cases h
    | some r =>
      obtain ⟨key, after⟩ := r
      have hseen : skipSpace text ≠ [] := by
        intro hnil
        rw [hnil] at hkey
        cases hkey
      rw [hkey] at h
      rw [skipSpace_append hseen, readString_determined _ _ _ hkey more]
      dsimp only at h ⊢
      cases hskip : skipSpace after with
      | nil =>
        rw [hskip] at h
        cases h
      | cons c later =>
        have hafter : skipSpace after ≠ [] := hskip ▸ List.cons_ne_nil c later
        rw [hskip] at h
        rw [skipSpace_append hafter, hskip, List.cons_append]
        dsimp only at h ⊢
        split_ifs at h ⊢
        obtain ⟨r, hr, he⟩ := Option.map_eq_some_iff.mp h
        cases he
        rw [hpart.settled _ _ _ hr hrest more]
        rfl

theorem scalar_settled {text rest : Text} {v : Json} (h : scalar text = some (v, rest))
    (hrest : rest ≠ []) (more : Text) : scalar (text ++ more) = some (v, rest ++ more) := by
  -- A word is read up to its end, and another one does not begin like it.
  have hword : ∀ {word after : Text}, literal word text = some after →
      text ++ more = word ++ (after ++ more) := by
    intro word after hliteral
    rw [literal_eq_some_iff.mp hliteral, List.append_assoc]
  unfold scalar at h
  split at h
  · rename_i after hnull
    cases h
    rw [hword hnull]
    rfl
  · rename_i after htrue
    cases h
    rw [hword htrue]
    rfl
  · rename_i after hfalse
    cases h
    rw [hword hfalse]
    rfl
  · obtain ⟨r, hr, he⟩ := Option.map_eq_some_iff.mp h
    cases he
    cases text with
    | nil => cases hr
    | cons c text =>
      have hc : c ∈ numberChars := by
        by_contra hc
        rw [readNumber, next_none hc] at hr
        cases hr
      rw [List.cons_append, scalar_eq_number hc, ← List.cons_append,
        readNumber_settled hr hrest more]
      rfl

theorem value_settled (n : ℕ) : Settled (value n) := by
  induction n with
  | zero => exact ⟨fun _ _ h => (nomatch h), fun _ _ _ h => (nomatch h)⟩
  | succ n ih =>
    refine ⟨fun text r h hblank => ?_, fun text v rest h hrest more => ?_⟩
    · rw [value, hblank] at h
      cases h
    · rw [value] at h ⊢
      cases hskip : skipSpace text with
      | nil =>
        rw [hskip] at h
        cases h
      | cons c later =>
        have hseen : skipSpace text ≠ [] := hskip ▸ List.cons_ne_nil c later
        rw [hskip] at h
        rw [skipSpace_append hseen, hskip, List.cons_append]
        dsimp only at h ⊢
        split_ifs at h ⊢
        · obtain ⟨r, hr, he⟩ := Option.map_eq_some_iff.mp h
          cases he
          rw [between_determined (member_settled ih) _ _ _ _ _ hr more]
          rfl
        · obtain ⟨r, hr, he⟩ := Option.map_eq_some_iff.mp h
          cases he
          rw [between_determined ih _ _ _ _ _ hr more]
          rfl
        · obtain ⟨r, hr, he⟩ := Option.map_eq_some_iff.mp h
          cases he
          rw [← List.cons_append, readString_determined _ _ _ hr more]
          rfl
        · exact scalar_settled h hrest more

/-- The characters that open an object or an array. -/
def openers : Text := ['\x7b', '[']

/-- An object and an array are read whatever follows their closing bracket. -/
theorem bracketed_determined {n : ℕ} {c : Char} (hc : c ∈ openers) {text rest : Text} {v : Json}
    (h : value n (c :: text) = some (v, rest)) (more : Text) :
    value n (c :: text ++ more) = some (v, rest ++ more) := by
  have hspace : ∀ d ∈ openers, isSpace d = false := by simp [openers, isSpace]
  cases n with
  | zero => cases h
  | succ n =>
    rw [value, skipSpace_cons (hspace c hc)] at h
    rw [List.cons_append, value, skipSpace_cons (hspace c hc)]
    dsimp only at h ⊢
    by_cases hbrace : c = '\x7b'
    · rw [if_pos hbrace] at h ⊢
      obtain ⟨r, hr, he⟩ := Option.map_eq_some_iff.mp h
      cases he
      rw [between_determined (member_settled (value_settled n)) _ _ _ _ _ hr more]
      rfl
    · have hbracket : c = '[' := by simpa [openers, hbrace] using hc
      rw [if_neg hbrace, if_pos hbracket] at h ⊢
      obtain ⟨r, hr, he⟩ := Option.map_eq_some_iff.mp h
      cases he
      rw [between_determined (value_settled n) _ _ _ _ _ hr more]
      rfl

/-- The text of a value in brackets that is cut off is not read as anything. -/
theorem parse_cut {gap : Text} (hgap : Blank gap) {v : Json} (hv : Readable v)
    (hopen : ∃ c ∈ openers, (write gap [] v).head? = some c) {front cut : Text}
    (h : write gap [] v = front ++ cut) (hcut : cut ≠ []) : parse front = none := by
  by_contra hread
  obtain ⟨w, hw⟩ := Option.ne_none_iff_exists'.mp hread
  obtain ⟨c, hc, hhead⟩ := hopen
  cases front with
  | nil => cases hw
  | cons d front =>
    have hd : d = c := by
      rw [h] at hhead
      exact Option.some.inj hhead
    subst hd
    rw [parse] at hw
    cases hvalue : value ((d :: front).length + 1) (d :: front) with
    | none =>
      rw [hvalue] at hw
      cases hw
    | some r =>
      obtain ⟨w', rest⟩ := r
      have hend : Ends [] := by
        intro e he
        cases he
      have hwhole := value_write hgap hv (List.forall_mem_nil _) le_rfl hend
      rw [List.append_nil, h] at hwhole
      have hlength : (d :: front).length < (d :: front ++ cut).length := by
        have hpos := List.length_pos_iff.mpr hcut
        rw [List.length_append]
        omega
      have henough := value_enough (d :: front) (Nat.lt_succ_self _) hlength
      rw [hvalue] at henough
      have hextended := bracketed_determined hc henough.symm cut
      have hsame := hextended.symm.trans hwhole
      have hnil := (Prod.mk.inj (Option.some.inj hsame)).2
      exact hcut (List.append_eq_nil_iff.mp hnil).2

end Prefixes

end RiskClaw.JsonText
