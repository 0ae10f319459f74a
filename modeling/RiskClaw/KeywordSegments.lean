import RiskClaw.LeftmostSearch

/-!
# Texts cut at a keyword

A keyword that does not overlap itself cuts a text into a head and the segments
that follow its occurrences. A pattern that begins with the keyword and does not
contain the first symbol of it can then only stand at the beginning of a
segment, and whether it does is decided by this segment alone. So the first
match of such a pattern is in the first segment that begins with the rest of it,
and a change of other segments does not move it.
-/

namespace RiskClaw.KeywordSegments

open LeftmostSearch

variable {α β : Type*} {keyword : List α}

/-- No occurrence of the keyword overlaps another one. -/
def Borderless (keyword : List α) : Prop :=
  ∀ k, k <:+ keyword → k <+: keyword → k ≠ [] → k = keyword

/-- The keyword does not stand in the text. -/
def Free (keyword text : List α) : Prop := ∀ s, s <:+ text → ¬keyword <+: s

/-- The segments, each after a keyword. -/
def segmentsText (keyword : List α) (segments : List (List α)) : List α :=
  segments.flatMap fun t => keyword ++ t

/-- A text with a head in front of its segments. -/
def joined (keyword head : List α) (segments : List (List α)) : List α :=
  head ++ segmentsText keyword segments

theorem segmentsText_cons (keyword t : List α) (segments : List (List α)) :
    segmentsText keyword (t :: segments) = keyword ++ (t ++ segmentsText keyword segments) := by
  rw [segmentsText, List.flatMap_cons, List.append_assoc]
  rfl

theorem segmentsText_append (keyword : List α) (front back : List (List α)) :
    segmentsText keyword (front ++ back) =
      segmentsText keyword front ++ segmentsText keyword back := List.flatMap_append

theorem joined_split (keyword head t : List α) (front back : List (List α)) :
    joined keyword head (front ++ t :: back) =
      joined keyword head front ++ (keyword ++ (t ++ segmentsText keyword back)) := by
  rw [joined, segmentsText_append, segmentsText_cons, joined, List.append_assoc]

/-- Something follows that begins with the keyword. -/
theorem segmentsText_keyword (keyword x : List α) (segments : List (List α)) :
    ∃ y, segmentsText keyword segments ++ (keyword ++ x) = keyword ++ y := by
  cases segments with
  | nil => exact ⟨x, rfl⟩
  | cons t segments => exact ⟨_, by rw [segmentsText_cons, List.append_assoc]⟩

section Starts

/-- The pattern begins nowhere in the front part of a text. -/
def Absent (pattern front rest : List α) : Prop :=
  ∀ q, q <:+ front → q ≠ [] → ¬pattern <+: q ++ rest

variable {pattern x y rest : List α}

theorem Absent.append (hx : Absent pattern x (y ++ rest)) (hy : Absent pattern y rest) :
    Absent pattern (x ++ y) rest := by
  rintro q ⟨before, hq⟩ hne
  rcases List.append_eq_append_iff.mp hq with ⟨k, rfl, hk⟩ | ⟨k, rfl, hk⟩
  · by_cases hknil : k = []
    · rw [hknil, List.nil_append] at hk
      exact hy q (hk ▸ List.suffix_refl _) hne
    · rw [hk, List.append_assoc]
      exact hx k (List.suffix_append before k) hknil
  · exact hy q (hk ▸ List.suffix_append k q) hne

/-- In a free text in front of a keyword no keyword begins. -/
theorem Free.absent (h : Borderless keyword) (hx : Free keyword x) (y : List α) :
    Absent keyword x (keyword ++ y) := by
  rintro q hq hne ⟨tail, htail⟩
  by_cases hlen : keyword.length ≤ q.length
  · exact hx q hq ((prefix_append_iff hlen).mp ⟨tail, htail⟩)
  · -- The text would end with the front of a keyword that overlaps the next one.
    obtain ⟨r, hr⟩ : q <+: keyword :=
      List.prefix_of_prefix_length_le (List.prefix_append q (keyword ++ y)) ⟨tail, htail⟩ (by omega)
    have hrest : r ++ tail = keyword ++ y := by
      have hboth : q ++ (r ++ tail) = q ++ (keyword ++ y) := by
        rw [← List.append_assoc, hr, htail]
      exact List.append_cancel_left hboth
    have hlength := congrArg List.length hr
    rw [List.length_append] at hlength
    have hfront : r <+: keyword :=
      List.prefix_of_prefix_length_le ⟨tail, hrest⟩ (List.prefix_append keyword y) (by omega)
    have hwhole := h r ⟨q, hr⟩ hfront (List.ne_nil_of_length_pos (by omega))
    have hpos := List.length_pos_iff.mpr hne
    rw [hwhole] at hlength
    omega

/-- Inside a keyword no keyword begins but at its front. -/
theorem keyword_absent (h : Borderless keyword) {name : List α}
    (hname : ¬keyword ++ name <+: keyword ++ rest) : Absent (keyword ++ name) keyword rest := by
  intro q hq hne hpre
  by_cases hlen : keyword.length ≤ q.length
  · rw [hq.eq_of_length_le hlen] at hpre
    exact hname hpre
  · have hkeyword := (List.prefix_append keyword name).trans hpre
    have hfront : q <+: keyword :=
      List.prefix_of_prefix_length_le (List.prefix_append q rest) hkeyword (by omega)
    rw [h q hq hfront hne] at hlen
    exact hlen le_rfl

/-- Where its first symbol does not stand, a pattern does not begin. -/
theorem absent_of_not_mem {a : α} {word : List α} (ha : a ∉ x) (rest : List α) :
    Absent (a :: word) x rest := by
  rintro q hq hne ⟨tail, htail⟩
  cases q with
  | nil => exact hne rfl
  | cons b q =>
    rw [List.cons_append] at htail
    rw [(List.cons.inj htail).1] at ha
    exact ha (hq.subset List.mem_cons_self)

/-- A pattern does not begin where it would have to go over a symbol that it does
not contain. -/
theorem Free.absent_break {c : α} (hx : Free pattern x) (hc : c ∉ pattern) (rest : List α) :
    Absent pattern x (c :: rest) :=
  fun q hq _ hpre => hx q hq (prefix_of_not_mem hc hpre)

/-- A text is free if nothing begins in its front part and the rest is free. -/
theorem Free.append (hx : Absent pattern x y) (hy : Free pattern y) :
    Free pattern (x ++ y) := by
  rintro s ⟨before, hs⟩ hpre
  rcases List.append_eq_append_iff.mp hs with ⟨k, rfl, hk⟩ | ⟨k, rfl, hk⟩
  · by_cases hknil : k = []
    · rw [hknil, List.nil_append] at hk
      exact hy s (hk ▸ List.suffix_refl _) hpre
    · rw [hk] at hpre
      exact hx k (List.suffix_append before k) hknil hpre
  · exact hy s (hk ▸ List.suffix_append k s) hpre

theorem Free.of_append_left (h : Free pattern (x ++ y)) : Free pattern x := by
  rintro s ⟨before, rfl⟩ hpre
  exact h (s ++ y) ⟨before, (List.append_assoc _ _ _).symm⟩ (hpre.trans (List.prefix_append s y))

theorem Free.of_append_right (h : Free pattern (x ++ y)) : Free pattern y :=
  fun s hs => h s (hs.trans (List.suffix_append x y))

theorem Absent.mono {pattern' : List α} (h : Absent pattern x rest) (hp : pattern <+: pattern') :
    Absent pattern' x rest := fun q hq hne hpre => h q hq hne (hp.trans hpre)

end Starts

section Search

variable {a : α} {word name head : List α} {front : List (List α)}

/-- Whether a segment begins with a name that does not contain the first symbol
of the keyword does not depend on the segments after it. -/
theorem prefix_segment_iff (ha : a ∉ name) (t x : List α) (segments : List (List α)) :
    name <+: t ++ (segmentsText (a :: word) segments ++ (a :: word ++ x)) ↔ name <+: t := by
  obtain ⟨y, hy⟩ := segmentsText_keyword (a :: word) x segments
  rw [hy]
  exact ⟨prefix_of_not_mem ha, fun h => h.trans (List.prefix_append t _)⟩

/-- Before the first segment that begins with a name, no keyword with this name
begins. -/
theorem name_absent (h : Borderless (a :: word)) (ha : a ∉ name) (hhead : Free (a :: word) head)
    (hfront : ∀ t ∈ front, Free (a :: word) t ∧ ¬name <+: t) (x : List α) :
    Absent (a :: word ++ name) (joined (a :: word) head front) (a :: word ++ x) := by
  have hfree : ∀ (t : List α) (segments : List (List α)), Free (a :: word) t →
      Absent (a :: word ++ name) t (segmentsText (a :: word) segments ++ (a :: word ++ x)) := by
    intro t segments ht
    obtain ⟨y, hy⟩ := segmentsText_keyword (a :: word) x segments
    rw [hy]
    exact (ht.absent h y).mono (List.prefix_append _ _)
  refine Absent.append (hfree head front hhead) ?_
  induction front with
  | nil => exact fun q hq hne => absurd (List.suffix_nil.mp hq) hne
  | cons t front ih =>
    obtain ⟨ht, hname⟩ := hfront t List.mem_cons_self
    rw [segmentsText_cons]
    refine Absent.append (keyword_absent h fun hpre => hname ?_)
      (Absent.append (hfree t front ht) (ih fun u hu => hfront u (List.mem_cons_of_mem t hu)))
    have hrest := (List.prefix_append_right_inj (a :: word)).mp hpre
    rw [List.append_assoc] at hrest
    exact (prefix_segment_iff ha t x front).mp hrest

/-- A matcher that needs the keyword and the name finds the first segment that
begins with the name. -/
theorem leftmost_named (h : Borderless (a :: word)) (ha : a ∉ name)
    (hhead : Free (a :: word) head) (hfront : ∀ t ∈ front, Free (a :: word) t ∧ ¬name <+: t)
    {f : List α → Option β} (hf : ∀ s, f s ≠ none → a :: word ++ name <+: s) {t : List α}
    {back : List (List α)} {b : β}
    (hb : f (a :: word ++ (t ++ segmentsText (a :: word) back)) = some b) :
    leftmost f (joined (a :: word) head (front ++ t :: back)) =
      some (joined (a :: word) head front, b) := by
  have habsent := name_absent h ha hhead hfront (t ++ segmentsText (a :: word) back)
  rw [joined_split]
  refine leftmost_of_first hb fun q hq hne => ?_
  by_contra hsome
  exact habsent q hq hne (hf _ hsome)

/-- Without a segment that begins with the name such a matcher finds nothing. -/
theorem leftmost_unnamed (h : Borderless (a :: word)) (ha : a ∉ name)
    (hhead : Free (a :: word) head) (hfront : ∀ t ∈ front, Free (a :: word) t ∧ ¬name <+: t)
    {f : List α → Option β} (hf : ∀ s, f s ≠ none → a :: word ++ name <+: s) :
    leftmost f (joined (a :: word) head front) = none := by
  have habsent := name_absent h ha hhead hfront []
  refine leftmost_eq_none_iff.mpr fun s hs => ?_
  by_contra hsome
  have hpre := hf s hsome
  have hne : s ≠ [] := by
    rintro rfl
    cases List.prefix_nil.mp hpre
  exact habsent s hs hne (hpre.trans (List.prefix_append s _))

end Search

section Store

variable [DecidableEq α] {name name' new t : List α} {segments : List (List α)}

/-- The first segment that begins with a name. -/
def lookup (name : List α) (segments : List (List α)) : Option (List α) :=
  segments.find? fun t => name <+: t

/-- A new segment in the place of the first one that begins with a name. -/
def update (name new : List α) : List (List α) → List (List α)
  | [] => []
  | t :: segments => if name <+: t then new :: segments else t :: update name new segments

/-- The segment that is found cuts the others in two. -/
theorem split_of_lookup (h : lookup name segments = some t) :
    ∃ front back, segments = front ++ t :: back ∧ (∀ u ∈ front, ¬name <+: u) ∧ name <+: t ∧
      ∀ new, update name new segments = front ++ new :: back := by
  induction segments with
  | nil => cases h
  | cons u segments ih =>
    rw [lookup, List.find?_cons] at h
    by_cases hu : name <+: u
    · rw [decide_eq_true hu] at h
      cases h
      refine ⟨[], segments, rfl, List.forall_mem_nil _, hu, fun new => ?_⟩
      rw [update, if_pos hu]
      rfl
    · rw [decide_eq_false hu] at h
      obtain ⟨front, back, rfl, hfront, ht, hupdate⟩ := ih h
      refine ⟨u :: front, back, rfl, List.forall_mem_cons.mpr ⟨hu, hfront⟩, ht, fun new => ?_⟩
      rw [update, if_neg hu, hupdate]
      rfl

theorem lookup_eq_none_iff : lookup name segments = none ↔ ∀ t ∈ segments, ¬name <+: t := by
  rw [lookup, List.find?_eq_none]
  simp only [decide_eq_true_eq]

theorem lookup_append (front back : List (List α)) :
    lookup name (front ++ back) = (lookup name front).or (lookup name back) := List.find?_append

/-- The new segment is found under its name. -/
theorem lookup_update (h : lookup name segments = some t) (hnew : name <+: new) :
    lookup name (update name new segments) = some new := by
  obtain ⟨front, back, -, hfront, -, hupdate⟩ := split_of_lookup h
  have hnone : lookup name front = none := lookup_eq_none_iff.mpr hfront
  rw [hupdate, lookup_append, hnone, Option.none_or, lookup, List.find?_cons,
    decide_eq_true hnew]

/-- No segment begins with both names. -/
def Exclusive (name name' : List α) : Prop := ∀ t : List α, name <+: t → ¬name' <+: t

/-- Under another name the same segment is found as before. -/
theorem lookup_update_of_exclusive (hexclusive : Exclusive name name') (hnew : name <+: new) :
    lookup name' (update name new segments) = lookup name' segments := by
  induction segments with
  | nil => rfl
  | cons u segments ih =>
    rw [update]
    split_ifs with hu
    · rw [lookup, lookup, List.find?_cons, List.find?_cons,
        decide_eq_false (hexclusive new hnew), decide_eq_false (hexclusive u hu)]
    · rw [lookup, lookup, List.find?_cons, List.find?_cons]
      cases decide (name' <+: u) with
      | true => rfl
      | false => exact ih

/-- Every segment after an update is the new one or an old one. -/
theorem mem_update (h : t ∈ update name new segments) : t = new ∨ t ∈ segments := by
  induction segments with
  | nil => exact absurd h List.not_mem_nil
  | cons u segments ih =>
    rw [update] at h
    split_ifs at h
    · rcases List.mem_cons.mp h with rfl | ht
      · exact Or.inl rfl
      · exact Or.inr (List.mem_cons_of_mem u ht)
    · rcases List.mem_cons.mp h with rfl | ht
      · exact Or.inr List.mem_cons_self
      · exact (ih ht).imp_right (List.mem_cons_of_mem u)

end Store

end RiskClaw.KeywordSegments
