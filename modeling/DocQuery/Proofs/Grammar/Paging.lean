import DocQuery.Proofs.Grammar.Clauses
import DocQuery.Proofs.Grammar.Naming
import DocQuery.Proofs.Grammar.Nesting

/-!
# DocQuery.Proofs.Grammar.Paging — a count of rows behind its keyword, and the cuts around it

Text such as `LIMIT 5` may stand at top level where no clause of that keyword is read (`Paging.Shows`).
The readers cut a text at delimiters and keywords.  None of these begins within such a phrase or has it
begin within it (`sparesPaging_of_mem`), so whatever a text is cut into, the phrase stays whole: it is
in the part in front of the cut or in the one behind it (`Paging.cut_cases`).  A clause hands it on in
this way until something reads the part that holds it.
-/

namespace DocQuery.Grammar

open Text (isBlank isWordChar)

/-! ## Phrases -/

/-- A count of rows behind LIMIT or OFFSET, as it is written. -/
structure Paging where
  /-- The keyword of the clause. -/
  clause : String
  /-- The keyword as it is written. -/
  keyword : List Char
  count : List Char
  isPaging : clause = "LIMIT" ∨ clause = "OFFSET"
  spelled : keyword.map Char.toLower = clause.toList.map Char.toLower
  nonempty : count ≠ []
  digits : ∀ c ∈ count, c.isDigit = true

theorem isAlpha_of_toLower {c : Char} (h : c.toLower.isAlpha = true) : c.isAlpha = true := by
  by_contra hnot
  rw [Bool.not_eq_true] at hnot
  rw [toLower_of_isAlpha_eq_false hnot, hnot] at h
  cases h

theorem isWordChar_of_isAlpha {c : Char} (h : c.isAlpha = true) : isWordChar c = true := by
  have hall : ∀ n < 123, (65 ≤ n ∧ n ≤ 90) ∨ (97 ≤ n ∧ n ≤ 122) →
      isWordChar (Char.ofNat n) = true := by decide
  have hrange := isAlpha_range h
  have hc := hall c.toNat (by omega) hrange
  rwa [Char.ofNat_toNat] at hc

namespace Paging

variable {p : Paging}

/-- The phrase: the keyword, a blank and the count. -/
def text (p : Paging) : List Char := p.keyword ++ ' ' :: p.count

theorem isAlpha_keyword (p : Paging) : ∀ c ∈ p.keyword, c.isAlpha = true := by
  intro c hc
  have hmem : c.toLower ∈ p.clause.toList.map Char.toLower := p.spelled ▸ List.mem_map_of_mem hc
  have hall : ∀ k, k = "LIMIT" ∨ k = "OFFSET" →
      ∀ d ∈ k.toList.map Char.toLower, d.isAlpha = true := by
    rintro k (rfl | rfl) <;> decide
  exact isAlpha_of_toLower (hall p.clause p.isPaging _ hmem)

theorem keyword_ne_nil (p : Paging) : p.keyword ≠ [] := by
  intro hnil
  have hspelled := p.spelled
  rw [hnil] at hspelled
  rcases p.isPaging with hclause | hclause <;> rw [hclause] at hspelled <;> cases hspelled

theorem exists_text_cons (p : Paging) : ∃ c t, p.text = c :: t ∧ c.isAlpha = true := by
  obtain ⟨c, t, hkeyword⟩ := List.exists_cons_of_ne_nil p.keyword_ne_nil
  refine ⟨c, t ++ ' ' :: p.count, by rw [text, hkeyword]; rfl, ?_⟩
  exact p.isAlpha_keyword c (by rw [hkeyword]; exact List.mem_cons_self)

theorem text_ne_nil (p : Paging) : p.text ≠ [] := by
  obtain ⟨c, t, htext, -⟩ := p.exists_text_cons
  rw [htext]
  exact List.cons_ne_nil c t

theorem getLast?_text (p : Paging) : ∃ c, p.text.getLast? = some c ∧ c.isDigit = true := by
  refine ⟨p.count.getLast p.nonempty, ?_, p.digits _ (List.getLast_mem p.nonempty)⟩
  rw [text, List.getLast?_append_of_ne_nil _ (List.cons_ne_nil _ _), List.getLast?_cons,
    List.getLast?_eq_some_getLast p.nonempty]
  rfl

/-- A phrase is written with letters, one blank and digits. -/
theorem mem_text {c : Char} (h : c ∈ p.text) : c.isAlpha = true ∨ c = ' ' ∨ c.isDigit = true := by
  rw [text, List.mem_append, List.mem_cons] at h
  exact h.imp (p.isAlpha_keyword c) (Or.imp_right (p.digits c))

theorem not_mem_text {c : Char} (halpha : c.isAlpha = false) (hblank : c ≠ ' ')
    (hdigit : c.isDigit = false) : c ∉ p.text := by
  intro hmem
  rcases mem_text hmem with h | h | h
  · rw [halpha] at h
    cases h
  · exact hblank h
  · rw [hdigit] at h
    cases h

theorem blank_mem_text (p : Paging) : ' ' ∈ p.text :=
  List.mem_append_right _ List.mem_cons_self

/-- Where a phrase is cut, a letter, the blank or a digit comes next. -/
theorem split_text {x y : List Char} (h : p.text = x ++ y) (hx : x ≠ []) (hy : y ≠ []) :
    (∃ c t, y = c :: t ∧ c.isAlpha = true ∧ touchesWord x.getLast? = true) ∨ y = ' ' :: p.count ∨
      ∃ c t, y = c :: t ∧ c.isDigit = true := by
  rw [text, List.append_eq_append_iff] at h
  rcases h with ⟨z, rfl, hz⟩ | ⟨z, hz, rfl⟩
  · cases z with
    | nil => exact Or.inr (Or.inl hz.symm)
    | cons c z =>
      rw [List.cons_append, List.cons.injEq] at hz
      obtain ⟨rfl, hcount⟩ := hz
      obtain ⟨c, t, rfl⟩ := List.exists_cons_of_ne_nil hy
      exact Or.inr (Or.inr ⟨c, t, rfl, p.digits c (by rw [hcount]; simp)⟩)
  · cases z with
    | nil => exact Or.inr (Or.inl rfl)
    | cons c z =>
      have hc : c.isAlpha = true := p.isAlpha_keyword c (by rw [hz]; simp)
      refine Or.inl ⟨c, z ++ ' ' :: p.count, rfl, hc, ?_⟩
      have hlast := p.isAlpha_keyword (x.getLast hx) (by
        rw [hz]
        exact List.mem_append_left _ (List.getLast_mem hx))
      rw [List.getLast?_eq_some_getLast hx]
      exact isWordChar_of_isAlpha hlast

/-! ## Texts that a phrase stands in -/

/-- The phrase stands somewhere in a text. -/
def Holds (p : Paging) (w : List Char) : Prop := p.text <:+: w

/-- The phrase stands in a text at top level. -/
def Shows (p : Paging) (w : List Char) : Prop := ∃ u v, w = u ++ (p.text ++ v) ∧ Balanced u

theorem Holds.mem {w : List Char} (h : p.Holds w) {c : Char} (hc : c ∈ p.text) : c ∈ w := h.subset hc

theorem Holds.ne_nil {w : List Char} (h : p.Holds w) : w ≠ [] :=
  List.ne_nil_of_mem (h.mem p.blank_mem_text)

theorem Shows.holds {w : List Char} (h : p.Shows w) : p.Holds w := by
  obtain ⟨u, v, rfl, -⟩ := h
  exact ⟨u, v, by rw [List.append_assoc]⟩

/-- A text that is cut at one point has the phrase in front of it, behind it, or cut there. -/
theorem append_cases {u v a b w : List Char} (h : u ++ (w ++ v) = a ++ b) :
    (∃ z, a = u ++ (w ++ z)) ∨ (∃ z, u = a ++ z ∧ b = z ++ (w ++ v)) ∨
      ∃ x y, w = x ++ y ∧ x ≠ [] ∧ y ≠ [] ∧ a = u ++ x ∧ b = y ++ v := by
  rcases List.append_eq_append_iff.mp h with ⟨x, rfl, hx⟩ | ⟨z, rfl, rfl⟩
  · rcases List.append_eq_append_iff.mp hx with ⟨z, rfl, rfl⟩ | ⟨y, rfl, rfl⟩
    · exact Or.inl ⟨z, rfl⟩
    · by_cases hnil : x = []
      · exact Or.inr (Or.inl ⟨[], by simp [hnil], by simp [hnil]⟩)
      · by_cases hnil' : y = []
        · exact Or.inl ⟨[], by simp [hnil']⟩
        · exact Or.inr (Or.inr ⟨x, y, rfl, hnil, hnil', rfl, rfl⟩)
  · exact Or.inr (Or.inl ⟨z, rfl, rfl⟩)

/-- What a phrase ends with has a digit in it. -/
theorem exists_isDigit {x y : List Char} (h : p.text = x ++ y) (hy : y ≠ []) :
    ∃ c ∈ y, c.isDigit = true := by
  obtain ⟨c, hlast, hc⟩ := p.getLast?_text
  rw [h, List.getLast?_append_of_ne_nil _ hy] at hlast
  exact ⟨c, List.mem_of_getLast? hlast, hc⟩

/-- What a phrase begins with has a letter in it. -/
theorem exists_isAlpha {x y : List Char} (h : p.text = x ++ y) (hx : x ≠ []) :
    ∃ c ∈ x, c.isAlpha = true := by
  obtain ⟨c, t, htext, hc⟩ := p.exists_text_cons
  obtain ⟨d, x, rfl⟩ := List.exists_cons_of_ne_nil hx
  rw [h, List.cons_append, List.cons.injEq] at htext
  exact ⟨d, List.mem_cons_self, htext.1 ▸ hc⟩

/-- What has no digits in it is no part of a phrase at the end of a text. -/
theorem append_of_ending {u v w e : List Char} (h : u ++ (p.text ++ v) = w ++ e)
    (he : ∀ c ∈ e, c.isDigit = false) : ∃ z, w = u ++ (p.text ++ z) := by
  have hdigit {y : List Char} (hy : ∀ c ∈ y, c ∈ e) : ¬ ∃ c ∈ y, c.isDigit = true := by
    rintro ⟨c, hc, hdigit⟩
    rw [he c (hy c hc)] at hdigit
    cases hdigit
  rcases append_cases h with hfront | ⟨z, -, rfl⟩ | ⟨x, y, htext, -, hy, -, rfl⟩
  · exact hfront
  · exact absurd (exists_isDigit (p := p) (x := []) rfl p.text_ne_nil)
      (hdigit fun c hc => List.mem_append_right _ (List.mem_append_left _ hc))
  · exact absurd (exists_isDigit htext hy) (hdigit fun c hc => List.mem_append_left _ hc)

/-- What has no letters in it is no part of a phrase at the start of a text. -/
theorem append_of_front {u v w e : List Char} (h : u ++ (p.text ++ v) = e ++ w)
    (he : ∀ c ∈ e, c.isAlpha = false) : ∃ z, u = e ++ z ∧ w = z ++ (p.text ++ v) := by
  have halpha {x : List Char} (hx : ∀ c ∈ x, c ∈ e) : ¬ ∃ c ∈ x, c.isAlpha = true := by
    rintro ⟨c, hc, halpha⟩
    rw [he c (hx c hc)] at halpha
    cases halpha
  rcases append_cases h with ⟨z, rfl⟩ | hbehind | ⟨x, y, htext, hx, -, rfl, -⟩
  · exact absurd (exists_isAlpha (p := p) (y := []) (List.append_nil _).symm p.text_ne_nil)
      (halpha fun c hc => List.mem_append_right _ (List.mem_append_left _ hc))
  · exact hbehind
  · exact absurd (exists_isAlpha htext hx) (halpha fun c hc => List.mem_append_right _ hc)

theorem Holds.of_ending {w e : List Char} (h : p.Holds (w ++ e)) (he : ∀ c ∈ e, c.isDigit = false) :
    p.Holds w := by
  obtain ⟨u, v, heq⟩ := h
  rw [List.append_assoc] at heq
  obtain ⟨z, rfl⟩ := append_of_ending heq he
  exact ⟨u, z, List.append_assoc ..⟩

theorem Holds.of_front {w e : List Char} (h : p.Holds (e ++ w)) (he : ∀ c ∈ e, c.isAlpha = false) :
    p.Holds w := by
  obtain ⟨u, v, heq⟩ := h
  rw [List.append_assoc] at heq
  obtain ⟨z, rfl, rfl⟩ := append_of_front heq he
  exact ⟨z, v, List.append_assoc ..⟩

theorem Shows.of_ending {w e : List Char} (h : p.Shows (w ++ e)) (he : ∀ c ∈ e, c.isDigit = false) :
    p.Shows w := by
  obtain ⟨u, v, heq, hu⟩ := h
  obtain ⟨z, rfl⟩ := append_of_ending heq.symm he
  exact ⟨u, z, rfl, hu⟩

theorem isAlpha_of_isBlank {c : Char} (h : isBlank c = true) : c.isAlpha = false := by
  by_contra halpha
  have hword := isWordChar_of_isAlpha (Bool.not_eq_false _ ▸ halpha)
  rw [isWordChar_of_isBlank h] at hword
  cases hword

theorem isDigit_of_isBlank {c : Char} (h : isBlank c = true) : c.isDigit = false := by
  by_contra hdigit
  have hword := isWordChar_of_isDigit (Bool.not_eq_false _ ▸ hdigit)
  rw [isWordChar_of_isBlank h] at hword
  cases hword

theorem Holds.trim {w : List Char} (h : p.Holds w) : p.Holds (Text.trim w) := by
  obtain ⟨u, v, hw, hu, hv⟩ := Text.exists_eq_trim w
  rw [hw] at h
  exact (h.of_front fun c hc => isAlpha_of_isBlank (hu c hc)).of_ending
    fun c hc => isDigit_of_isBlank (hv c hc)

theorem Shows.trim {w : List Char} (h : p.Shows w) : p.Shows (Text.trim w) := by
  obtain ⟨x, y, hw, hx, hy⟩ := Text.exists_eq_trim w
  rw [hw] at h
  obtain ⟨u, v, heq, hu⟩ := h
  obtain ⟨z, rfl, hrest⟩ := append_of_front heq.symm fun c hc => isAlpha_of_isBlank (hx c hc)
  have hz : Balanced z := by
    unfold Balanced at hu
    rwa [Scanner.run_append, Scanner.run_blanks rfl hx] at hu
  exact Shows.of_ending ⟨z, v, hrest, hz⟩ fun c hc => isDigit_of_isBlank (hy c hc)

end Paging

/-! ## Patterns that leave phrases whole -/

/-- The keywords of phrases in lower case. -/
def pagingWords : List (List Char) := ["limit".toList, "offset".toList]

/-- Whether a text in lower case and a phrase never begin alike. -/
def beginsApart (t : List Char) : Bool :=
  pagingWords.all fun k => !t.isPrefixOf k && !k.isPrefixOf t

/-- Whether a text begins neither with a digit nor with a blank that a digit may follow. -/
def opensApart (t : List Char) : Bool :=
  t.head?.any fun c => !c.isDigit && (c != ' ' || t.tail.head?.any fun d => !d.isDigit)

/-- Whether a pattern begins at no blank or digit of a phrase, and no phrase begins within it. -/
def sparesPaging (pattern : List Char) : Bool :=
  opensApart (pattern.map Char.toLower) &&
    (pattern.map Char.toLower).tail.tails.all fun t => t.isEmpty || beginsApart t

/-- What is taken out of texts: the patterns that they are cut at, and words at their start. -/
def takenPatterns : List (List Char) :=
  searchedPatterns ++ ["DISTINCT".toList, "APPROXIMATE".toList]

theorem sparesPaging_of_mem : ∀ pattern ∈ takenPatterns, sparesPaging pattern = true := by decide

theorem isPlain_of_mem_takenPatterns : ∀ pattern ∈ takenPatterns, IsPlain pattern := by
  intro pattern hpattern
  rcases List.mem_append.mp hpattern with hmem | hmem
  · exact isPlain_of_mem_searchedPatterns pattern hmem
  · have hall : ∀ p ∈ ["DISTINCT".toList, "APPROXIMATE".toList], p ≠ [] ∧ ∀ c ∈ p, Neutral c := by
      decide
    exact ⟨(hall pattern hmem).1, (hall pattern hmem).2⟩

/-- These patterns without the keywords of phrases. -/
def foreignPatterns : List (List Char) :=
  takenPatterns.filter fun pattern => beginsApart (pattern.map Char.toLower)

theorem isDigit_of_toLower {c : Char} (h : c.toLower.isDigit = false) : c.isDigit = false := by
  by_contra hdigit
  rw [Bool.not_eq_false] at hdigit
  rw [isDigit_toLower hdigit, hdigit] at h
  cases h

theorem opensApart_cons {c : Char} {d : List Char} (h : opensApart ((c :: d).map Char.toLower) = true) :
    c.isDigit = false ∧ (c = ' ' → ∃ e d', d = e :: d' ∧ e.isDigit = false) := by
  simp only [opensApart, List.map_cons, List.head?_cons, Option.any_some, List.tail_cons,
    Bool.and_eq_true, Bool.not_eq_true', Bool.or_eq_true, bne_iff_ne, List.head?_map, Option.any_map] at h
  refine ⟨isDigit_of_toLower h.1, ?_⟩
  rintro rfl
  obtain ⟨e, he, hdigit⟩ := (Option.any_eq_true _ _).mp (h.2.resolve_left fun hne => hne rfl)
  obtain ⟨d', rfl⟩ := List.head?_eq_some_iff.mp he
  exact ⟨e, d', rfl, isDigit_of_toLower (by simpa using hdigit)⟩

/-- What is spelled like such a pattern means nothing to the scanner. -/
theorem neutral_of_mem {d pattern : List Char} (hpattern : pattern ∈ takenPatterns)
    (hd : d.map Char.toLower = pattern.map Char.toLower) : ∀ c ∈ d, Neutral c := by
  intro c hc
  have hmem : c.toLower ∈ pattern.map Char.toLower := hd ▸ List.mem_map_of_mem hc
  obtain ⟨k, hk, hlower⟩ := List.mem_map.mp hmem
  exact ((isPlain_of_mem_takenPatterns pattern hpattern).neutral k hk).of_toLower_eq hlower

/-- No phrase begins within such a pattern. -/
theorem beginsApart_of_suffix {c : Char} {d front x pattern : List Char}
    (hpattern : pattern ∈ takenPatterns) (hd : d.map Char.toLower = pattern.map Char.toLower)
    (hx : d = c :: front ++ x) (hne : x ≠ []) : beginsApart (x.map Char.toLower) = true := by
  have hwithin := (Bool.and_eq_true_iff.mp (sparesPaging_of_mem pattern hpattern)).2
  rw [← hd, hx] at hwithin
  have hsuffix : x.map Char.toLower ∈ ((c :: front ++ x).map Char.toLower).tail.tails := by
    rw [List.mem_tails, List.map_append]
    exact List.suffix_append _ _
  simpa [hne] using List.all_eq_true.mp hwithin _ hsuffix

namespace Paging

variable {p : Paging}

theorem lower_keyword (p : Paging) : p.keyword.map Char.toLower ∈ pagingWords := by
  rw [p.spelled]
  rcases p.isPaging with h | h <;> rw [h] <;> decide

/-- A text that begins apart from the keywords begins apart from every phrase. -/
theorem append_ne_of_beginsApart {x : List Char} (h : beginsApart (x.map Char.toLower) = true)
    (a b : List Char) : x ++ a ≠ p.text ++ b := by
  intro heq
  have hlower := congrArg (List.map Char.toLower) heq
  rw [text, List.append_assoc, List.map_append, List.map_append] at hlower
  have happart := List.all_eq_true.mp h _ p.lower_keyword
  simp only [Bool.and_eq_true, Bool.not_eq_true', Bool.eq_false_iff, ne_eq, List.isPrefixOf_iff_prefix]
    at happart
  rcases List.prefix_or_prefix_of_prefix (List.prefix_append _ _)
    (hlower ▸ List.prefix_append _ _) with hprefix | hprefix
  · exact happart.2 hprefix
  · exact happart.1 hprefix

/-- A pattern begins at no later place of a phrase, unless it begins with a letter and within a word. -/
theorem append_ne_within {x y v d b pattern : List Char} (htext : p.text = x ++ y) (hx : x ≠ [])
    (hy : y ≠ []) (hd : d.map Char.toLower = pattern.map Char.toLower)
    (hopens : opensApart (d.map Char.toLower) = true)
    (hword : touchesWord x.getLast? = false ∨ ∀ c ∈ pattern.head?, c.isAlpha = false) :
    d ++ b ≠ y ++ v := by
  intro hrest
  cases d with
  | nil => cases hopens
  | cons e d =>
    obtain ⟨hdigit, hblank⟩ := opensApart_cons hopens
    rcases split_text htext hx hy with ⟨c, t, rfl, hc, htouches⟩ | rfl | ⟨c, t, rfl, hc⟩
    · -- Within the keyword of the phrase a letter comes next, and a word goes on.
      obtain ⟨rfl, -⟩ := List.cons.inj hrest
      rcases hword with hword | hword
      · exact absurd (htouches.symm.trans hword) (by decide)
      · obtain ⟨k, pattern, rfl⟩ := List.exists_cons_of_ne_nil (l := pattern) (by rintro rfl; cases hd)
        obtain ⟨hlower, -⟩ := List.cons.inj hd
        have hk : k.isAlpha = false := hword k rfl
        rw [toLower_of_isAlpha_eq_false hk] at hlower
        rw [eq_of_toLower_eq hk hlower, hk] at hc
        cases hc
    · -- At the blank of the phrase a digit follows, as it does in no pattern.
      obtain ⟨rfl, hcount⟩ := List.cons.inj hrest
      obtain ⟨f, d, rfl, hf⟩ := hblank rfl
      obtain ⟨c, count, hcons⟩ := List.exists_cons_of_ne_nil p.nonempty
      rw [hcons] at hcount
      obtain ⟨rfl, -⟩ := List.cons.inj hcount
      rw [p.digits f (by rw [hcons]; exact List.mem_cons_self)] at hf
      cases hf
    · obtain ⟨rfl, -⟩ := List.cons.inj hrest
      rw [hc] at hdigit
      cases hdigit

/-- **Cutting a text at a pattern leaves a phrase at top level whole**, if the pattern does not go on
with a word where it begins with a letter: the phrase is in one of the parts, or it begins where the
pattern does. -/
theorem cut_cases {a b d u v pattern : List Char} {before : Option Char}
    (heq : a ++ (d ++ b) = u ++ (p.text ++ v)) (hu : Balanced u)
    (htop : (Scanner.run {} a).isTopLevel = true) (hd : d.map Char.toLower = pattern.map Char.toLower)
    (hpattern : pattern ∈ takenPatterns)
    (hword : touchesWord (lastOr before a) = false ∨ ∀ c ∈ pattern.head?, c.isAlpha = false) :
    p.Shows a ∨ (Balanced a ∧ ∃ z, b = z ++ (p.text ++ v) ∧ Balanced z) ∨
      (Balanced a ∧ d ++ b = p.text ++ v) := by
  have hbalanced := balanced_of_neutral (neutral_of_mem hpattern hd)
  have hopens : opensApart (d.map Char.toLower) = true :=
    hd ▸ (Bool.and_eq_true_iff.mp (sparesPaging_of_mem pattern hpattern)).1
  rcases append_cases heq.symm with ⟨z, rfl⟩ | ⟨z, rfl, hz⟩ | ⟨x, y, htext, hx, hy, rfl, hrest⟩
  · exact Or.inl ⟨u, z, rfl, hu⟩
  · have ha : Balanced a := (hu.of_append htop).1
    rcases List.append_eq_append_iff.mp hz with ⟨z', rfl, rfl⟩ | ⟨y, rfl, hy⟩
    · refine Or.inr (Or.inl ⟨ha, z', rfl, ?_⟩)
      unfold Balanced at hu
      rwa [Scanner.run_append, ha, Scanner.run_append, hbalanced] at hu
    · -- The phrase would begin within the pattern, or it begins at one of its ends.
      cases z with
      | nil => exact Or.inr (Or.inr ⟨ha, hy.symm ▸ rfl⟩)
      | cons c z =>
        cases y with
        | nil => exact Or.inr (Or.inl ⟨ha, [], by simpa using hy.symm, Balanced.nil⟩)
        | cons e y =>
          have hapart := beginsApart_of_suffix hpattern hd rfl (List.cons_ne_nil e y)
          exact absurd hy.symm (append_ne_of_beginsApart hapart b v)
  · have hlast : lastOr before (u ++ x) = x.getLast? := by
      rw [lastOr, List.getLast?_append_of_ne_nil _ hx, List.getLast?_eq_some_getLast hx]
      rfl
    rw [hlast] at hword
    exact absurd hrest (append_ne_within htext hx hy hd hopens hword)

end Paging

/-! ## Searches -/

/-- A test that finds patterns other than the keywords of phrases, as words where they begin with
letters. -/
def Spares (test : Option Char → List Char → Option (List Char)) : Prop :=
  ∀ before t rest, test before t = some rest → ∃ pattern d, t = d ++ rest ∧
    d.map Char.toLower = pattern.map Char.toLower ∧ pattern ∈ foreignPatterns ∧
    (touchesWord before = false ∨ ∀ c ∈ pattern.head?, c.isAlpha = false)

theorem spares_afterPattern? {pattern : List Char} (hpattern : pattern ∈ foreignPatterns)
    (hhead : ∀ c ∈ pattern.head?, c.isAlpha = false) : Spares fun _ t => afterPattern? pattern t := by
  intro before t rest h
  obtain ⟨d, rfl, hd⟩ := afterPattern?_eq_some_iff.mp h
  exact ⟨pattern, d, rfl, hd, hpattern, Or.inr hhead⟩

/-- A keyword is found as it is spelled in any case, with no word in front. -/
theorem exists_of_afterKeyword? {keyword t rest : List Char} {before : Option Char}
    (h : afterKeyword? keyword before t = some rest) : ∃ d, t = d ++ rest ∧
      d.map Char.toLower = keyword.map Char.toLower ∧ touchesWord before = false := by
  unfold afterKeyword? at h
  split_ifs at h with hword
  obtain ⟨d, rfl, hd⟩ := afterPattern?_eq_some_iff.mp (Option.filter_eq_some_iff.mp h).1
  exact ⟨d, rfl, hd, by simpa using hword⟩

theorem spares_afterKeyword? {keyword : List Char} (hkeyword : keyword ∈ foreignPatterns) :
    Spares (afterKeyword? keyword) := by
  intro before t rest h
  obtain ⟨d, rfl, hd, hword⟩ := exists_of_afterKeyword? h
  exact ⟨keyword, d, rfl, hd, hkeyword, Or.inl hword⟩

/-- What such a test finds is there and means nothing to the scanner. -/
theorem Spares.exists_delimiter {test : Option Char → List Char → Option (List Char)} (h : Spares test)
    {before : Option Char} {t rest : List Char} (hfound : test before t = some rest) :
    ∃ d, t = d ++ rest ∧ d ≠ [] ∧ ∀ c ∈ d, Neutral c := by
  obtain ⟨pattern, d, rfl, hd, hpattern, -⟩ := h _ _ _ hfound
  have hmem := List.mem_of_mem_filter hpattern
  refine ⟨d, rfl, ?_, neutral_of_mem hmem hd⟩
  rintro rfl
  exact (isPlain_of_mem_takenPatterns pattern hmem).nonempty (List.map_eq_nil_iff.mp hd.symm)

/-- The last occurrence of a keyword stands at top level. -/
theorem cutLastKeyword?_eq_some {keyword : List Char} {s : Scanner} {before : Option Char}
    {w a b : List Char} (h : cutLastKeyword? keyword s before w = some (a, b)) :
    ∃ t, w = a ++ t ∧ (s.run a).isTopLevel = true ∧
      afterKeyword? keyword (lastOr before a) t = some b := by
  induction w generalizing s before a with
  | nil => cases h
  | cons c w ih =>
    rw [cutLastKeyword?] at h
    split at h
    next skipped rest hlater =>
      cases h
      obtain ⟨t, rfl, htop, hhere⟩ := ih hlater
      rw [← lastOr_cons] at hhere
      exact ⟨t, rfl, htop, hhere⟩
    next =>
      split_ifs at h with htop
      obtain ⟨rest, hhere, heq⟩ := Option.map_eq_some_iff.mp h
      cases heq
      exact ⟨c :: w, rfl, htop, hhere⟩

namespace Paging

variable {p : Paging}

theorem Shows.of_test {test : Option Char → List Char → Option (List Char)} (htest : Spares test)
    {a t b : List Char} {before : Option Char} (h : p.Shows (a ++ t))
    (htop : (Scanner.run {} a).isTopLevel = true) (hfound : test (lastOr before a) t = some b) :
    p.Shows a ∨ (Balanced a ∧ p.Shows b) := by
  obtain ⟨pattern, d, rfl, hd, hpattern, hword⟩ := htest _ _ _ hfound
  obtain ⟨hmem, happart⟩ := List.mem_filter.mp hpattern
  obtain ⟨u, v, heq, hu⟩ := h
  rcases cut_cases heq hu htop hd hmem hword with hfront | ⟨ha, z, hz, hbalanced⟩ | ⟨-, hhere⟩
  · exact Or.inl hfront
  · exact Or.inr ⟨ha, z, v, hz, hbalanced⟩
  · exact absurd hhere (append_ne_of_beginsApart (hd ▸ happart) b v)

/-- **The first place that a search finds leaves a phrase whole.** -/
theorem Shows.of_findTop? {α : Type} {test : Option Char → List Char → Option (α × List Char)}
    (htest : Spares fun b t => (test b t).map Prod.snd) {before : Option Char} {w a b : List Char}
    {x : α} (h : p.Shows w) (hfound : findTop? test {} before w = some (a, x, b)) :
    p.Shows a ∨ p.Shows b := by
  obtain ⟨t, rfl, htop, hhere, -⟩ := findTop?_eq_some hfound
  have hfound : (test (lastOr before a) t).map Prod.snd = some b := by
    rw [hhere]
    rfl
  exact (h.of_test htest htop hfound).imp_right And.right

/-- **Of the parts between delimiters one has the phrase**, by induction on the text from delimiter to
delimiter. -/
theorem Shows.of_splitTop {test : Option Char → List Char → Option (List Char)} (htest : Spares test)
    {before : Option Char} {w : List Char} (h : p.Shows w) :
    ∃ part ∈ splitTop test {} 0 before w, p.Shows part := by
  induction hlength : w.length using Nat.strong_induction_on generalizing w before with
  | _ n ih =>
    cases hfound : findTop? (fun b t => (test b t).map ((), ·)) {} before w with
    | none =>
      have hnone := (topAll_of_findTop?_eq_none hfound).mono fun b t _ h => Option.map_eq_none_iff.mp h
      rw [splitTop_eq_singleton hnone]
      exact ⟨w, List.mem_singleton_self w, h⟩
    | some found =>
      obtain ⟨a, ⟨⟩, b⟩ := found
      obtain ⟨t, rfl, htop, hhere, hfront⟩ := findTop?_eq_some hfound
      have hhere : test (lastOr before a) t = some b := by
        simpa using hhere
      obtain ⟨d, rfl, hne, hneutral⟩ := htest.exists_delimiter hhere
      have hsplit := splitTop_append (hfront.mono fun b t _ h => Option.map_eq_none_iff.mp h)
      rw [splitTop_delimiter htop hne hneutral hhere, appendFirst, List.append_nil] at hsplit
      rw [hsplit]
      -- The phrase is in the part in front of the delimiter, or the induction goes on behind it.
      rcases h.of_test htest htop hhere with hpart | ⟨ha, hrest⟩
      · exact ⟨a, List.mem_cons_self, hpart⟩
      · have hpos := List.length_pos_iff.mpr hne
        have hshorter : b.length < n := by
          simp only [List.length_append] at hlength
          omega
        obtain ⟨part, hpart, hshows⟩ := @ih b.length hshorter (lastOr (lastOr before a) d) b hrest rfl
        rw [ha]
        exact ⟨part, List.mem_cons_of_mem _ hpart, hshows⟩

theorem Shows.of_cutLastKeyword? {keyword : List Char} (htest : Spares (afterKeyword? keyword))
    {before : Option Char} {w a b : List Char} (h : p.Shows w)
    (hfound : cutLastKeyword? keyword {} before w = some (a, b)) : p.Shows a ∨ p.Shows b := by
  obtain ⟨t, rfl, htop, hhere⟩ := cutLastKeyword?_eq_some hfound
  exact (h.of_test htest htop hhere).imp_right And.right

section Cuts

variable {w a b : List Char}

theorem Shows.of_splitOn {d : List Char} (hd : d ∈ foreignPatterns)
    (hhead : ∀ c ∈ d.head?, c.isAlpha = false) (h : p.Shows w) :
    ∃ part ∈ splitOn d w, p.Shows part := by
  have hparts : ∃ part ∈ splitTop (fun _ t => afterPattern? d t) {} 0 none w, p.Shows part :=
    h.of_splitTop (spares_afterPattern? hd hhead)
  obtain ⟨part, hpart, hshows⟩ := hparts
  refine ⟨Text.trim part, List.mem_filter.mpr ⟨List.mem_map_of_mem hpart, ?_⟩, hshows.trim⟩
  simpa using hshows.trim.holds.ne_nil

theorem Shows.of_splitKeyword {keyword : List Char} (hkeyword : keyword ∈ foreignPatterns)
    (h : p.Shows w) : ∃ part ∈ splitKeyword keyword w, p.Shows part :=
  h.of_splitTop (spares_afterKeyword? hkeyword)

theorem Shows.of_cutKeyword? {keyword : List Char} {before : Option Char}
    (hkeyword : keyword ∈ foreignPatterns) (h : p.Shows w)
    (hcut : cutKeyword? keyword before w = some (a, b)) : p.Shows a ∨ p.Shows b := by
  obtain ⟨⟨skipped, found, rest⟩, hfound, heq⟩ := Option.map_eq_some_iff.mp hcut
  cases heq
  refine h.of_findTop? (fun b t rest hrest => spares_afterKeyword? hkeyword b t rest ?_) hfound
  simpa using hrest

theorem Shows.of_cutPattern? {d : List Char} (hd : d ∈ foreignPatterns)
    (hhead : ∀ c ∈ d.head?, c.isAlpha = false) (h : p.Shows w)
    (hcut : cutPattern? d w = some (a, b)) : p.Shows a ∨ p.Shows b := by
  obtain ⟨⟨skipped, found, rest⟩, hfound, heq⟩ := Option.map_eq_some_iff.mp hcut
  cases heq
  refine h.of_findTop? (fun b t rest hrest => spares_afterPattern? hd hhead b t rest ?_) hfound
  simpa using hrest

theorem Shows.of_cutComparison? {op : Comparison} (h : p.Shows w)
    (hcut : cutFirst? comparisonSpellings w = some (a, op, b)) : p.Shows a ∨ p.Shows b := by
  refine h.of_findTop? (fun before t rest hrest => ?_) hcut
  obtain ⟨⟨found, rest'⟩, hfirst, heq⟩ := Option.map_eq_some_iff.mp hrest
  cases heq
  obtain ⟨spelling, hspelling, hhere⟩ := List.exists_of_findSome?_eq_some hfirst
  obtain ⟨rest', hrest', heq⟩ := Option.map_eq_some_iff.mp hhere
  cases heq
  have hall : ∀ s ∈ comparisonSpellings,
      s.1 ∈ foreignPatterns ∧ ∀ c ∈ s.1.head?, c.isAlpha = false := by decide
  obtain ⟨hforeign, hhead⟩ := hall spelling hspelling
  exact spares_afterPattern? hforeign hhead before t rest' hrest'

/-- A word at the start of a text goes with the blanks behind it. -/
theorem Shows.of_afterWord? {keyword : List Char} (hkeyword : keyword ∈ foreignPatterns)
    (h : p.Shows w) (hword : afterWord? keyword w = some b) : p.Shows b := by
  unfold afterWord? at hword
  split at hword
  next rest hrest =>
    cases hword
    obtain ⟨d, rfl, hd⟩ := afterPattern?_eq_some_iff.mp hrest
    obtain ⟨hmem, happart⟩ := List.mem_filter.mp hkeyword
    obtain ⟨u, v, heq, hu⟩ := h
    have hfirst : touchesWord (lastOr none []) = false := rfl
    rcases cut_cases heq hu rfl hd hmem (Or.inl hfirst) with hnil | ⟨-, z, hz, hbalanced⟩ | ⟨-, hhere⟩
    · exact absurd rfl hnil.holds.ne_nil
    · exact Shows.trim ⟨z, v, hz, hbalanced⟩
    · exact absurd hhere (append_ne_of_beginsApart (hd ▸ happart) _ v)
  next => cases hword

end Cuts

/-- A foreign word at the start of a text is no part of a phrase. -/
theorem Holds.of_word {d b keyword : List Char} (h : p.Holds (d ++ b))
    (hkeyword : keyword ∈ foreignPatterns) (hd : d.map Char.toLower = keyword.map Char.toLower) :
    p.Holds b := by
  obtain ⟨hmem, happart⟩ := List.mem_filter.mp hkeyword
  have hapart {x : List Char} (hx : x <:+ d) (hne : x ≠ []) :
      beginsApart (x.map Char.toLower) = true := by
    obtain ⟨front, rfl⟩ := hx
    cases front with
    | nil =>
      rw [List.nil_append] at hd
      rwa [hd]
    | cons c front => exact beginsApart_of_suffix hmem hd rfl hne
  obtain ⟨u, v, heq⟩ := h
  rw [List.append_assoc] at heq
  rcases append_cases heq with ⟨z, rfl⟩ | ⟨z, -, rfl⟩ | ⟨x, y, htext, hx, -, rfl, -⟩
  · have happart := hapart (List.suffix_append u (p.text ++ z)) (by simp [p.text_ne_nil])
    exact absurd (List.append_assoc ..) (append_ne_of_beginsApart (p := p) happart [] (z ++ []))
  · exact ⟨z, v, List.append_assoc ..⟩
  · have happart := hapart (List.suffix_append u x) hx
    exact absurd (by rw [htext, List.append_nil]) (append_ne_of_beginsApart (p := p) happart y [])

end Paging

end DocQuery.Grammar
