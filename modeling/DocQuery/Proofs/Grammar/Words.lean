import DocQuery.Proofs.Grammar.Clauses

/-!
# DocQuery.Proofs.Grammar.Words — texts that no search cuts

A keyword is found only where a word of a text is that keyword, and a delimiter between blanks only
in front of such a word.  So what a search must not find in a text is told by the words and the
marks that the text shows at top level (`Clear`).  This is seen part by part: a word shows itself,
parentheses and quotes show nothing but their first character, and a text put together from parts
shows what they show.  A text of such parts with single spaces between them also keeps its blanks
(`Tidy`).
-/

namespace DocQuery.Grammar

open Text (isBlank isWordChar eqIgnoreCase)

/-! ## Characters of words -/

/-- Case does not make a character belong to a word. -/
theorem isWordChar_toLower (c : Char) : isWordChar c.toLower = isWordChar c := by
  cases hupper : c.isUpper with
  | false => rw [toLower_of_isUpper_eq_false hupper]
  | true =>
    have hrange := isUpper_range hupper
    have hall : ∀ n < 91, 65 ≤ n →
        isWordChar (Char.ofNat n).toLower = isWordChar (Char.ofNat n) := by decide
    have hc := hall c.toNat (by omega) hrange.1
    rwa [Char.ofNat_toNat] at hc

/-- The blanks beyond ASCII, as ranges. -/
def blankRanges : List (Nat × Nat) :=
  [(0x85, 0x85), (0xA0, 0xA0), (0x1680, 0x1680), (0x2000, 0x200A), (0x2028, 0x2029),
    (0x202F, 0x202F), (0x205F, 0x205F), (0x3000, 0x3000)]

theorem blankRanges_disjoint : ∀ r ∈ Text.wordRanges.toList, ∀ b ∈ blankRanges,
    r.2 < b.1 ∨ b.2 < r.1 := by
  decide +kernel

theorem exists_blankRange {c : Char} (h : isBlank c = true) (hc : ¬ c.toNat < 0x80) :
    ∃ b ∈ blankRanges, b.1 ≤ c.toNat ∧ c.toNat ≤ b.2 := by
  simp only [isBlank, Bool.or_eq_true, Bool.and_eq_true, decide_eq_true_eq, beq_iff_eq] at h
  simp only [blankRanges, List.mem_cons, List.not_mem_nil, or_false, exists_eq_or_imp,
    exists_eq_left]
  omega

/-- No blank belongs to a word. -/
theorem isWordChar_of_isBlank {c : Char} (h : isBlank c = true) : isWordChar c = false := by
  by_cases hc : c.toNat < 0x80
  · have hall : ∀ n < 0x80, isBlank (Char.ofNat n) = true → isWordChar (Char.ofNat n) = false := by
      decide
    have hword := hall c.toNat hc
    rw [Char.ofNat_toNat] at hword
    exact hword h
  · -- Beyond ASCII the table decides, and none of its ranges holds a blank.
    obtain ⟨b, hb, hlow, hhigh⟩ := exists_blankRange h hc
    have hany : (Text.wordRanges.any fun r => r.1 ≤ c.toNat && c.toNat ≤ r.2) = false := by
      rw [← Array.any_toList, List.any_eq_false]
      intro r hr
      have hapart := blankRanges_disjoint r hr b hb
      simp only [Bool.and_eq_true, decide_eq_true_eq]
      omega
    have hne (d : Char) (hd : d.toNat < 0x80) : (c == d) = false := by
      rw [beq_eq_false_iff_ne]
      rintro rfl
      exact hc hd
    simp only [isWordChar, Text.isAlphanumeric, if_neg hc, hany, hne '_' (by decide),
      hne '.' (by decide), Bool.or_self]

theorem isBlank_of_isWordChar {c : Char} (h : isWordChar c = true) : isBlank c = false := by
  cases hblank : isBlank c with
  | false => rfl
  | true => rw [isWordChar_of_isBlank hblank] at h; cases h

theorem ne_of_isWordChar {c d : Char} (h : isWordChar c = true) (hd : isWordChar d = false) :
    c ≠ d := by
  rintro rfl
  rw [h] at hd
  cases hd

/-- A character without meaning to the scanner outside of quotes. -/
def Neutral (c : Char) : Prop := c ≠ '(' ∧ c ≠ ')' ∧ Scanner.closer? c = none

instance (c : Char) : Decidable (Neutral c) :=
  inferInstanceAs (Decidable (c ≠ '(' ∧ c ≠ ')' ∧ Scanner.closer? c = none))

theorem Neutral.step {c : Char} (h : Neutral c) {s : Scanner} (hs : s.closing = none) :
    s.step c = s := by
  obtain ⟨depth, closing, escaped, unbalanced⟩ := s
  subst hs
  simp only [Scanner.step, if_neg h.1, if_neg h.2.1, h.2.2]

theorem neutral_of_isWordChar {c : Char} (h : isWordChar c = true) : Neutral c := by
  refine ⟨ne_of_isWordChar h rfl, ne_of_isWordChar h rfl, ?_⟩
  simp [Scanner.closer?, ne_of_isWordChar h (show isWordChar '\'' = false from rfl),
    ne_of_isWordChar h (show isWordChar '"' = false from rfl),
    ne_of_isWordChar h (show isWordChar '\x60' = false from rfl),
    ne_of_isWordChar h (show isWordChar '[' = false from rfl)]

/-! ## Leading words -/

/-- The word that a text begins with. -/
def leadingWord (t : List Char) : List Char := t.takeWhile isWordChar

/-- A text that is one word. -/
structure IsWord (w : List Char) : Prop where
  nonempty : w ≠ []
  all : ∀ c ∈ w, isWordChar c = true

theorem isWord_of_all {w : List Char} (hne : w ≠ []) (h : w.all isWordChar = true) : IsWord w :=
  ⟨hne, List.all_eq_true.mp h⟩

theorem leadingWord_append {t rest : List Char} (hrest : touchesWord rest.head? = false) :
    leadingWord (t ++ rest) = leadingWord t := by
  have hnil : leadingWord rest = [] := by
    cases rest with
    | nil => rfl
    | cons c rest =>
      have hc : isWordChar c = false := hrest
      simp [leadingWord, hc]
  unfold leadingWord at hnil ⊢
  rw [List.takeWhile_append, hnil, List.append_nil]
  split
  next h => exact (List.takeWhile_prefix _).eq_of_length h |>.symm
  next => rfl

theorem IsWord.leadingWord_eq {w : List Char} (h : IsWord w) : leadingWord w = w :=
  List.takeWhile_eq_self_iff.mpr h.all

/-- Texts that differ at most in case begin with words that do. -/
theorem eqIgnoreCase_leadingWord {t u : List Char}
    (h : t.map Char.toLower = u.map Char.toLower) :
    eqIgnoreCase (leadingWord t) (leadingWord u) = true := by
  have hlower (w : List Char) :
      (leadingWord w).map Char.toLower = leadingWord (w.map Char.toLower) := by
    have hcomp : isWordChar ∘ Char.toLower = isWordChar := funext isWordChar_toLower
    rw [leadingWord, leadingWord, List.takeWhile_map, hcomp]
  rw [eqIgnoreCase, hlower, hlower, h, beq_self_eq_true]

/-- A keyword is found only where the leading word is the keyword's own. -/
theorem leadingWord_of_afterKeyword? {keyword t rest : List Char} {before : Option Char}
    (h : afterKeyword? keyword before t = some rest) : touchesWord before = false ∧
      eqIgnoreCase (leadingWord t) (leadingWord keyword) = true := by
  unfold afterKeyword? at h
  split_ifs at h with hbefore
  obtain ⟨hpattern, hrest⟩ := Option.filter_eq_some_iff.mp h
  obtain ⟨u, rfl, hu⟩ := afterPattern?_eq_some_iff.mp hpattern
  refine ⟨Bool.eq_false_iff.mpr hbefore, ?_⟩
  rw [leadingWord_append (by simpa using hrest)]
  exact eqIgnoreCase_leadingWord hu

/-- A text with an end of a word in it shows its leading word whatever follows. -/
theorem leadingWord_append_of_mem {t rest : List Char} {c : Char} (hmem : c ∈ t)
    (hc : isWordChar c = false) : leadingWord (t ++ rest) = leadingWord t := by
  unfold leadingWord
  rw [List.takeWhile_append, if_neg]
  intro hlength
  have hself := (List.takeWhile_prefix (p := isWordChar) (l := t)).eq_of_length hlength
  rw [List.takeWhile_eq_self_iff.mp hself c hmem] at hc
  cases hc

/-- A pattern that begins with a blank and shows a whole word after it is found only at a blank in
front of that word. -/
theorem leadingWord_of_afterPattern? {p t rest : List Char} {c : Char} (hp : ' ' ∈ p)
    (h : afterPattern? (' ' :: p) (c :: t) = some rest) :
    c = ' ' ∧ eqIgnoreCase (leadingWord t) (leadingWord p) = true := by
  obtain ⟨u, hsplit, hu⟩ := afterPattern?_eq_some_iff.mp h
  cases u with
  | nil => cases hu
  | cons d u =>
    rw [List.cons_append, List.cons.injEq] at hsplit
    rw [List.map_cons, List.map_cons, List.cons.injEq] at hu
    obtain ⟨rfl, rfl⟩ := hsplit
    have hblank : ' ' ∈ u := by
      have hmem : ' ' ∈ u.map Char.toLower := by
        rw [hu.2]
        exact List.mem_map_of_mem hp
      obtain ⟨a, ha, hlower⟩ := List.mem_map.mp hmem
      rwa [← toLower_eq_blank hlower]
    refine ⟨toLower_eq_blank hu.1, ?_⟩
    rw [leadingWord_append_of_mem hblank rfl]
    exact eqIgnoreCase_leadingWord hu.2

/-! ## Texts that show no marks and no words -/

/-- Whether a place shows none of some marks, and begins none of some words. -/
def Harmless (marks : List Char) (words : List (List Char)) (before : Option Char)
    (t : List Char) : Prop :=
  (∀ c ∈ t.head?, c ∉ marks) ∧
    (touchesWord before = false → ∀ k ∈ words, eqIgnoreCase (leadingWord t) k = false)

instance (marks : List Char) (words : List (List Char)) (before : Option Char) (t : List Char) :
    Decidable (Harmless marks words before t) :=
  inferInstanceAs (Decidable ((∀ c ∈ t.head?, c ∉ marks) ∧
    (touchesWord before = false → ∀ k ∈ words, eqIgnoreCase (leadingWord t) k = false)))

/-- Whether a text shows none of some marks and none of some words at top level. -/
def Clear (marks : List Char) (words : List (List Char)) (w : List Char) : Prop :=
  TopAll (Harmless marks words) {} none w

instance (marks : List Char) (words : List (List Char)) (w : List Char) :
    Decidable (Clear marks words w) :=
  inferInstanceAs (Decidable (TopAll (Harmless marks words) {} none w))

section Clear

variable {marks marks' : List Char} {words words' : List (List Char)} {u v w : List Char}

theorem Harmless.of_none {before : Option Char} {t : List Char} (h : Harmless marks words none t) :
    Harmless marks words before t :=
  ⟨h.1, fun _ => h.2 rfl⟩

/-- A text that shows nothing at its start shows nothing anywhere. -/
theorem Clear.anywhere (h : Clear marks words w) (before : Option Char) :
    TopAll (Harmless marks words) {} before w := by
  cases w with
  | nil => trivial
  | cons c w => exact ⟨fun htop => (h.1 htop).of_none, h.2⟩

theorem Clear.mono (h : Clear marks words w) (hmarks : marks' ⊆ marks) (hwords : words' ⊆ words) :
    Clear marks' words' w :=
  TopAll.mono (fun _ _ _ ht => ⟨fun c hc hmem => ht.1 c hc (hmarks hmem),
    fun hb k hk => ht.2 hb k (hwords hk)⟩) h

theorem Harmless.append {before : Option Char} {t : List Char} (ht : t ≠ [])
    (hhead : touchesWord v.head? = false) (h : Harmless marks words before t) :
    Harmless marks words before (t ++ v) := by
  obtain ⟨c, t, rfl⟩ := List.exists_cons_of_ne_nil ht
  refine ⟨h.1, fun hb k hk => ?_⟩
  rw [leadingWord_append hhead]
  exact h.2 hb k hk

/-- A text after which a word does not go on is clear in front of whatever is clear. -/
theorem Clear.append (hu : Clear marks words u) (hbalanced : Balanced u)
    (hv : Clear marks words v) (hhead : touchesWord v.head? = false) :
    Clear marks words (u ++ v) := by
  apply TopAll.append_iff.mpr
  rw [hbalanced]
  exact ⟨TopAll.mono (fun _ _ ht h => h.append ht hhead) hu, hv.anywhere _⟩

theorem eqIgnoreCase_nil {k : List Char} (hk : k ≠ []) : eqIgnoreCase [] k = false := by
  cases k with
  | nil => exact absurd rfl hk
  | cons c k => rfl

/-- A character that is no part of a word begins none. -/
theorem harmless_of_not_wordChar {before : Option Char} {c : Char} {t : List Char}
    (hc : isWordChar c = false) (hmark : c ∉ marks) (hwords : [] ∉ words) :
    Harmless marks words before (c :: t) := by
  refine ⟨fun d hd => ?_, fun _ k hk => ?_⟩
  · cases hd
    exact hmark
  · have hnil : leadingWord (c :: t) = [] := by simp [leadingWord, hc]
    rw [hnil]
    exact eqIgnoreCase_nil fun h => hwords (h ▸ hk)

theorem Clear.cons {c : Char} (hneutral : Neutral c) (hc : isWordChar c = false) (hmark : c ∉ marks)
    (hwords : [] ∉ words) (hw : Clear marks words w) : Clear marks words (c :: w) := by
  refine ⟨fun _ => harmless_of_not_wordChar hc hmark hwords, ?_⟩
  rw [hneutral.step rfl]
  exact hw.anywhere _

theorem clear_nil : Clear marks words [] := trivial

/-- Parentheses show nothing of what stands in them. -/
theorem clear_group (hw : Balanced w) (hmark : '(' ∉ marks) (hwords : [] ∉ words) :
    Clear marks words ('(' :: (w ++ [')'])) :=
  TopAll.group hw (harmless_of_not_wordChar rfl hmark hwords)

/-- Within a word nothing is shown. -/
theorem topAll_of_isWordChar {before : Option Char} (hbefore : touchesWord before = true)
    (hw : ∀ c ∈ w, isWordChar c = true) (hmarks : ∀ m ∈ marks, isWordChar m = false) :
    TopAll (Harmless marks words) {} before w := by
  induction w generalizing before with
  | nil => trivial
  | cons c w ih =>
    have hc : isWordChar c = true := hw c List.mem_cons_self
    refine ⟨fun _ => ⟨fun d hd => ?_, fun hb => ?_⟩, ?_⟩
    · cases hd
      exact fun hmem => ne_of_isWordChar hc (hmarks c hmem) rfl
    · rw [hbefore] at hb
      cases hb
    · rw [(neutral_of_isWordChar hc).step rfl]
      exact ih hc fun d hd => hw d (List.mem_cons_of_mem _ hd)

/-- A word shows itself. -/
theorem clear_of_isWord (hw : IsWord w) (hmarks : ∀ m ∈ marks, isWordChar m = false)
    (hwords : ∀ k ∈ words, eqIgnoreCase w k = false) : Clear marks words w := by
  obtain ⟨c, w, rfl⟩ := List.exists_cons_of_ne_nil hw.nonempty
  have hc : isWordChar c = true := hw.all c List.mem_cons_self
  refine ⟨fun _ => ⟨fun d hd => ?_, fun _ k hk => ?_⟩, ?_⟩
  · cases hd
    exact fun hmem => ne_of_isWordChar hc (hmarks c hmem) rfl
  · rw [hw.leadingWord_eq]
    exact hwords k hk
  · rw [(neutral_of_isWordChar hc).step rfl]
    exact topAll_of_isWordChar hc (fun d hd => hw.all d (List.mem_cons_of_mem _ hd)) hmarks

end Clear

/-! ## Searches in clear texts -/

section Searches

variable {marks : List Char} {words : List (List Char)} {w rest : List Char} {before : Option Char}

/-- No keyword of the words is found in a text that shows none of them. -/
theorem Clear.afterKeyword?_eq_none {keyword : List Char} (hw : Clear marks words w)
    (hkeyword : leadingWord keyword ∈ words) (before : Option Char)
    (hrest : touchesWord rest.head? = false) :
    TopAll (fun b t => afterKeyword? keyword b (t ++ rest) = none) {} before w := by
  refine TopAll.mono (fun b t ht h => ?_) (hw.anywhere before)
  cases hfound : afterKeyword? keyword b (t ++ rest) with
  | none => rfl
  | some after =>
    obtain ⟨hb, hword⟩ := leadingWord_of_afterKeyword? hfound
    rw [leadingWord_append hrest, h.2 hb _ hkeyword] at hword
    cases hword

theorem Clear.afterKeyword?_alone {keyword : List Char} (hw : Clear marks words w)
    (hkeyword : leadingWord keyword ∈ words) (before : Option Char) :
    TopAll (fun b t => afterKeyword? keyword b t = none) {} before w := by
  have h : TopAll (fun b t => afterKeyword? keyword b (t ++ []) = none) {} before w :=
    hw.afterKeyword?_eq_none hkeyword before rfl
  simpa only [List.append_nil] using h

/-- No pattern that begins with a mark is found in a text that does not show it. -/
theorem Clear.afterMark?_eq_none {m : Char} {p : List Char} (hw : Clear marks words w)
    (hm : m ∈ marks) (hlower : m.toLower = m) (halpha : m.isAlpha = false)
    (before : Option Char) (rest : List Char) :
    TopAll (fun _ t => afterPattern? (m :: p) (t ++ rest) = none) {} before w := by
  refine TopAll.mono (fun b t ht h => ?_) (hw.anywhere before)
  obtain ⟨c, t, rfl⟩ := List.exists_cons_of_ne_nil ht
  rw [List.cons_append, afterPattern?, if_neg]
  intro hc
  rw [hlower] at hc
  rw [eq_of_toLower_eq halpha hc.symm] at h
  exact h.1 m rfl hm

/-- No pattern that begins with a blank and one of the words is found in a text that shows none of
them, unless the text ends in that blank. -/
theorem Clear.afterSpaced?_eq_none {p : List Char} (hw : Clear marks words w)
    (hp : ' ' ∈ p) (hword : leadingWord p ∈ words) (hlast : w.getLast? ≠ some ' ')
    (before : Option Char) (rest : List Char) (hrest : touchesWord rest.head? = false) :
    TopAll (fun _ t => afterPattern? (' ' :: p) (t ++ rest) = none) {} before w := by
  suffices h : ∀ (s : Scanner) (b : Option Char) (t : List Char), t.getLast? ≠ some ' ' →
      TopAll (Harmless marks words) s b t →
      TopAll (fun _ t => afterPattern? (' ' :: p) (t ++ rest) = none) s b t from
    h {} before w hlast (hw.anywhere before)
  intro s b t
  induction t generalizing s b with
  | nil => exact fun _ _ => trivial
  | cons c t ih =>
    intro hlast h
    have hlast' : t.getLast? ≠ some ' ' := by
      cases t with
      | nil => simp
      | cons d t => rwa [List.getLast?_cons_cons] at hlast
    refine ⟨fun htop => ?_, ih _ _ hlast' h.2⟩
    cases hfound : afterPattern? (' ' :: p) (c :: (t ++ rest)) with
    | none => exact hfound
    | some after =>
      obtain ⟨rfl, hleading⟩ := leadingWord_of_afterPattern? hp hfound
      -- The word in front of which the blank stands is shown at the next place.
      cases t with
      | nil => exact absurd rfl hlast
      | cons d t =>
        have hclosing : s.closing = none := by
          rw [Scanner.isTopLevel, Bool.and_eq_true, Option.isNone_iff_eq_none] at htop
          exact htop.2
        have hnext := h.2.1
        rw [Scanner.step_blank hclosing rfl] at hnext
        have hshown := (hnext htop).2 rfl _ hword
        rw [leadingWord_append hrest, hshown] at hleading
        cases hleading

theorem Clear.splitKeyword_eq {keyword : List Char} (hw : Clear marks words w)
    (hkeyword : leadingWord keyword ∈ words) : splitKeyword keyword w = [w] :=
  splitTop_eq_singleton (hw.afterKeyword?_alone hkeyword none)

theorem Clear.cutKeyword?_append {keyword : List Char} (hw : Clear marks words w)
    (hbalanced : Balanced w) (hkeyword : leadingWord keyword ∈ words)
    (hrest : touchesWord rest.head? = false) :
    cutKeyword? keyword before (w ++ rest) =
      (cutKeyword? keyword (lastOr before w) rest).map fun (skipped, r) => (w ++ skipped, r) := by
  have htest : TopAll (fun b t => (afterKeyword? keyword b (t ++ rest)).map ((), ·) = none) {} before w :=
    TopAll.mono (fun _ _ _ h => by rw [h]; rfl) (hw.afterKeyword?_eq_none hkeyword before hrest)
  rw [cutKeyword?, findTop?_append htest, hbalanced, cutKeyword?, Option.map_map, Option.map_map]
  rfl

theorem Clear.cutKeyword?_eq_none {keyword : List Char} (hw : Clear marks words w)
    (hkeyword : leadingWord keyword ∈ words) : cutKeyword? keyword before w = none := by
  have htest : TopAll (fun b t => (afterKeyword? keyword b t).map ((), ·) = none) {} before w :=
    TopAll.mono (fun _ _ _ h => by rw [h]; rfl) (hw.afterKeyword?_alone hkeyword before)
  rw [cutKeyword?, findTop?_eq_none htest]
  rfl

/-- The last occurrence of a keyword is none if there is no occurrence. -/
theorem cutLastKeyword?_eq_none {keyword : List Char} {s : Scanner}
    (h : TopAll (fun b t => afterKeyword? keyword b t = none) s before w) :
    cutLastKeyword? keyword s before w = none := by
  induction w generalizing s before with
  | nil => rfl
  | cons c w ih =>
    rw [cutLastKeyword?, ih h.2]
    cases htop : s.isTopLevel with
    | false => rfl
    | true =>
      simp only [if_true, h.1 htop]
      rfl

end Searches

/-! ## Found keywords -/

theorem afterPattern?_append (p rest : List Char) : afterPattern? p (p ++ rest) = some rest :=
  afterPattern?_eq_some_iff.mpr ⟨p, rfl, rfl⟩

/-- A keyword between ends of words is found where it stands. -/
theorem cutKeyword?_here {keyword rest : List Char} {before : Option Char} (hne : keyword ≠ [])
    (hbefore : touchesWord before = false) (hrest : touchesWord rest.head? = false) :
    cutKeyword? keyword before (keyword ++ rest) = some ([], rest) := by
  have hfound : afterKeyword? keyword before (keyword ++ rest) = some rest := by
    rw [afterKeyword?, hbefore, afterPattern?_append]
    simp [Option.filter, hrest]
  obtain ⟨c, keyword', rfl⟩ := List.exists_cons_of_ne_nil hne
  rw [cutKeyword?, List.cons_append, findTop?]
  simp only [show Scanner.isTopLevel {} = true from rfl, if_true]
  rw [← List.cons_append, hfound]
  rfl

end DocQuery.Grammar
