import DocQuery.Proofs.Grammar.Location
import DocQuery.Proofs.Grammar.Placeholders

/-!
# DocQuery.Proofs.Grammar.FilledSearches — filled texts are cut as the texts are

Every search in a query text goes from place to place and tests the text that is left.  A test that
tells a text and the filled one alike at every place, and that fails within literals (`Steady`), makes
the search end at the same place in both.  So a filled query has the clauses of the query, a filled
clause its parts and its parentheses, and each of them is filled on its own
(`Fills.locateClauses`, `Fills.splitOn`, `Fills.unwrap?`).
-/

namespace DocQuery.Grammar

open Text (Trimmed isBlank isWordChar)

/-! ## Tests -/

/-- What is in front of a place of a text and of the filled one: the same, unless a literal ends
there. -/
def Beside (before before' : Option Char) (text : List Char) : Prop :=
  before = before' ∨ ends text = true

section Tests

variable {α : Type}

/-- A test that does at a place of a filled text what it does at that place of the text, and that
succeeds nowhere within a literal. -/
structure Steady (test : Option Char → List Char → Option (α × List Char)) : Prop where
  found : ∀ {s : Scanner} {before b b' : Option Char} {text filled rest : List Char}
    {values : List Value} {a : α}, Fills s before text filled values → s.closing = none →
    Beside b b' text → test b text = some (a, rest) → ∃ u rest', u ≠ [] ∧ text = u ++ rest ∧
      filled = u ++ rest' ∧ (∀ c ∈ u, Neutral c ∧ c ≠ '?') ∧ test b' filled = some (a, rest') ∧
      Fills s (lastOr before u) rest rest' values
  missed : ∀ {s : Scanner} {before b b' : Option Char} {text filled : List Char}
    {values : List Value}, Fills s before text filled values → s.closing = none →
    Beside b b' text → test b text = none → test b' filled = none
  within : ∀ {v : Value} {before : Option Char} {rest : List Char}, v.IsPlain → ends rest = true →
    TopAll (fun b t => test b (t ++ rest) = none) {} before v.literal.toList

theorem touchesWord_of_ends {text : List Char} (h : ends text = true) :
    touchesWord text.head? = false := by
  cases text with
  | nil => rfl
  | cons c text =>
    have hc : isBlank c = true ∨ c = ')' := by simpa [ends] using h
    rcases hc with hblank | rfl
    · exact isWordChar_of_isBlank hblank
    · rfl

/-- A pattern that is found neither within a literal nor where one stands. -/
structure AvoidsLiterals (p : List Char) : Prop where
  nonempty : p ≠ []
  foreign : IsForeign p
  within : ∀ {w rest : List Char} {before : Option Char}, Part cuttingMarks cuttingWords w →
    touchesWord rest.head? = false → TopAll (fun _ t => afterPattern? p (t ++ rest) = none) {} before w

theorem AvoidsLiterals.steady {p : List Char} (hp : AvoidsLiterals p) (a : α) :
    Steady fun _ t => (afterPattern? p t).map (a, ·) where
  found h hs _ hfound := by
    obtain ⟨rest, hrest, heq⟩ := Option.map_eq_some_iff.mp hfound
    cases heq
    obtain ⟨u, rest', rfl, rfl, hu, hfit, hfound', hrest'⟩ := h.afterPattern?_eq_some hs hp.foreign hrest
    refine ⟨u, rest', ?_, rfl, rfl, hfit, by rw [hfound']; rfl, hrest'⟩
    rintro rfl
    exact hp.nonempty (List.map_eq_nil_iff.mp hu.symm)
  missed h hs _ hnone := by
    rw [h.afterPattern?_eq_none hs hp.foreign (Option.map_eq_none_iff.mp hnone)]
    rfl
  within hv hends :=
    TopAll.mono (fun _ _ _ h => by rw [h]; rfl) (hp.within (part_literal hv) (touchesWord_of_ends hends))

theorem avoidsLiterals_of_mark {m : Char} {p : List Char} (hm : m ∈ cuttingMarks) (hlower : m.toLower = m)
    (halpha : m.isAlpha = false) (hp : IsForeign (m :: p)) : AvoidsLiterals (m :: p) where
  nonempty := List.cons_ne_nil m p
  foreign := hp
  within hw _ := hw.clear.afterMark?_eq_none hm hlower halpha _ _

theorem avoidsLiterals_of_word {p : List Char} (hblank : ' ' ∈ p) (hword : leadingWord p ∈ cuttingWords)
    (hp : IsForeign (' ' :: p)) : AvoidsLiterals (' ' :: p) where
  nonempty := List.cons_ne_nil ' ' p
  foreign := hp
  within {w rest before} hw hrest := by
    refine hw.clear.afterSpaced?_eq_none hblank hword (fun hlast => ?_) before rest hrest
    have hnot := hw.trimmed.last ' ' hlast
    cases hnot

theorem avoidsLiterals_connective : AvoidsLiterals " AND ".toList ∧ AvoidsLiterals " OR ".toList :=
  ⟨avoidsLiterals_of_word (by decide) (by decide) (by decide),
    avoidsLiterals_of_word (by decide) (by decide) (by decide)⟩

theorem avoidsLiterals_comparison : ∀ p ∈ comparisonSpellings, AvoidsLiterals p.1 := by
  have hmark (m : Char) (p : List Char) (hm : m ∈ cuttingMarks) (hlower : m.toLower = m)
      (halpha : m.isAlpha = false) (hp : IsForeign (m :: p)) := avoidsLiterals_of_mark hm hlower halpha hp
  simp only [comparisonSpellings, List.forall_mem_cons]
  refine ⟨avoidsLiterals_of_word (by decide) (by decide) (by decide),
    avoidsLiterals_of_word (by decide) (by decide) (by decide),
    avoidsLiterals_of_word (by decide) (by decide) (by decide),
    avoidsLiterals_of_word (by decide) (by decide) (by decide),
    hmark '=' ['='] (by decide) rfl rfl (by decide), hmark '<' ['>'] (by decide) rfl rfl (by decide),
    hmark '!' ['='] (by decide) rfl rfl (by decide), hmark '<' ['='] (by decide) rfl rfl (by decide),
    hmark '>' ['='] (by decide) rfl rfl (by decide), hmark '=' [] (by decide) rfl rfl (by decide),
    hmark '<' [] (by decide) rfl rfl (by decide), hmark '>' [] (by decide) rfl rfl (by decide),
    fun _ h => by cases h⟩

theorem TopAll.and {P Q : Option Char → List Char → Prop} {s : Scanner} {before : Option Char}
    {w : List Char} (hP : TopAll P s before w) (hQ : TopAll Q s before w) :
    TopAll (fun b t => P b t ∧ Q b t) s before w := by
  induction w generalizing s before with
  | nil => trivial
  | cons c w ih => exact ⟨fun htop => ⟨hP.1 htop, hQ.1 htop⟩, ih hP.2 hQ.2⟩

theorem TopAll.of_forall {P : Option Char → List Char → Prop} (h : ∀ b t, P b t) {s : Scanner}
    {before : Option Char} {w : List Char} : TopAll P s before w := by
  induction w generalizing s before with
  | nil => trivial
  | cons c w ih => exact ⟨fun _ => h _ _, ih⟩

/-- The first of several patterns that is found. -/
theorem steady_findSome? {patterns : List (List Char × α)} (h : ∀ p ∈ patterns, AvoidsLiterals p.1) :
    Steady fun _ t => patterns.findSome? fun (p, a) => (afterPattern? p t).map (a, ·) := by
  induction patterns with
  | nil =>
    exact ⟨fun _ _ _ h => (by cases h), fun _ _ _ _ => rfl, fun _ _ => TopAll.of_forall fun _ _ => rfl⟩
  | cons p patterns ih =>
    obtain ⟨hp, hpatterns⟩ := List.forall_mem_cons.mp h
    have hfirst := hp.steady p.2
    have hothers := ih hpatterns
    refine ⟨fun {s before b b' text filled rest values a} hfills hs hb hfound => ?_,
      fun {s before b b' text filled values} hfills hs hb hnone => ?_, fun hv hends => ?_⟩
    · simp only [List.findSome?_cons] at hfound ⊢
      cases hhere : (afterPattern? p.1 text).map (p.2, ·) with
      | some found =>
        rw [hhere] at hfound
        cases hfound
        obtain ⟨u, rest', hne, htext, hfilled, hfit, hfound', hrest⟩ := hfirst.found hfills hs hb hhere
        exact ⟨u, rest', hne, htext, hfilled, hfit, by rw [hfound'], hrest⟩
      | none =>
        rw [hhere] at hfound
        obtain ⟨u, rest', hne, htext, hfilled, hfit, hfound', hrest⟩ := hothers.found hfills hs hb hfound
        exact ⟨u, rest', hne, htext, hfilled, hfit, by rw [hfirst.missed hfills hs hb hhere, hfound'], hrest⟩
    · simp only [List.findSome?_cons] at hnone ⊢
      cases hhere : (afterPattern? p.1 text).map (p.2, ·) with
      | some found =>
        rw [hhere] at hnone
        cases hnone
      | none =>
        rw [hhere] at hnone
        rw [hfirst.missed hfills hs hb hhere]
        exact hothers.missed hfills hs hb hnone
    · refine TopAll.mono (fun b t _ hnone => ?_) ((hfirst.within hv hends).and (hothers.within hv hends))
      simp only [List.findSome?_cons]
      rw [hnone.1]
      exact hnone.2

/-! ### Keywords -/

/-- A keyword that is found in a text and in the filled one alike. -/
structure IsKeyword (k : List Char) : Prop where
  foreign : IsForeign k
  /-- No literal stands right after it. -/
  last : opens k.getLast? = false
  /-- It does not begin where a literal has just ended. -/
  first : ends k = false

theorem keywords_isKeyword : ∀ k ∈ clauseKeywords, IsKeyword k.toList := by
  have hall : ∀ k ∈ clauseKeywords, IsForeign k.toList ∧ opens k.toList.getLast? = false ∧
      ends k.toList = false := by decide
  exact fun k hk => ⟨(hall k hk).1, (hall k hk).2.1, (hall k hk).2.2⟩

theorem ends_of_toLower {u k : List Char} (h : u.map Char.toLower = k.map Char.toLower)
    (hu : ends u = true) : ends k = true := by
  cases u with
  | nil =>
    obtain rfl : k = [] := List.map_eq_nil_iff.mp h.symm
    rfl
  | cons c u =>
    obtain ⟨a, k, rfl⟩ := List.exists_cons_of_ne_nil (l := k) (by rintro rfl; cases h)
    rw [List.map_cons, List.map_cons, List.cons.injEq] at h
    have hc : isBlank c = true ∨ c = ')' := by simpa [ends] using hu
    have halpha : c.isAlpha = false := by
      rcases hc with hblank | rfl
      · exact isAlpha_of_opens (by simp [opens, hblank])
      · rfl
    rw [toLower_of_isAlpha_eq_false halpha] at h
    rwa [eq_of_toLower_eq halpha h.1.symm]

theorem opens_getLast?_of_toLower {u k : List Char} (h : u.map Char.toLower = k.map Char.toLower)
    (hu : opens u.getLast? = true) : opens k.getLast? = true := by
  have hlast := congrArg List.getLast? h
  rw [List.getLast?_map, List.getLast?_map] at hlast
  cases hu' : u.getLast? with
  | none =>
    rw [hu', Option.map_none, eq_comm, Option.map_eq_none_iff] at hlast
    rw [hlast]
    rfl
  | some c =>
    rw [hu', Option.map_some, eq_comm, Option.map_eq_some_iff] at hlast
    obtain ⟨a, ha, hlower⟩ := hlast
    rw [ha]
    rw [hu'] at hu
    exact opens_of_toLower hlower hu

namespace Fills

variable {s : Scanner} {before b b' : Option Char} {k text filled rest : List Char}
  {values : List Value}

/-- **A keyword that is found in a text is found in the filled one.** -/
theorem afterKeyword?_eq_some (h : Fills s before text filled values) (hs : s.closing = none)
    (hk : IsKeyword k) (hb : Beside b b' text) (hsome : afterKeyword? k b text = some rest) :
    ∃ u rest', u ≠ [] ∧ text = u ++ rest ∧ filled = u ++ rest' ∧ (∀ c ∈ u, Neutral c ∧ c ≠ '?') ∧
      afterKeyword? k b' filled = some rest' ∧ Fills s (lastOr before u) rest rest' values := by
  unfold afterKeyword? at hsome ⊢
  cases hword : touchesWord b with
  | true =>
    rw [hword] at hsome
    cases hsome
  | false =>
    rw [hword] at hsome
    simp only [Bool.false_eq_true, if_false, Option.filter_eq_some_iff] at hsome
    obtain ⟨hpattern, htouches⟩ := hsome
    obtain ⟨u, rest', rfl, rfl, hu, hfit, hpattern', hrest⟩ := h.afterPattern?_eq_some hs hk.foreign hpattern
    have hne : u ≠ [] := by
      rintro rfl
      have hnil : k = [] := List.map_eq_nil_iff.mp hu.symm
      have hlast := hk.last
      rw [hnil] at hlast
      cases hlast
    have hlast : opens (lastOr before u) = false := by
      by_contra hopens
      rw [Bool.not_eq_false, lastOr, List.getLast?_eq_some_getLast hne, Option.some_or,
        ← List.getLast?_eq_some_getLast hne] at hopens
      have hkeyword := opens_getLast?_of_toLower hu hopens
      rw [hk.last] at hkeyword
      cases hkeyword
    have hbefore : touchesWord b' = false := by
      rcases hb with rfl | hends
      · exact hword
      · have hkeyword := ends_of_toLower hu (ends_append hends)
        rw [hk.first] at hkeyword
        cases hkeyword
    have hhead : touchesWord rest'.head? = touchesWord rest.head? := by
      cases hrest with
      | nil => rfl
      | char hc hrest => rfl
      | literal hs hopens hends hv hrest =>
        rw [hlast] at hopens
        cases hopens
    refine ⟨u, rest', hne, rfl, rfl, hfit, ?_, hrest⟩
    simp only [hbefore, Bool.false_eq_true, if_false, Option.filter_eq_some_iff]
    exact ⟨hpattern', by rwa [hhead]⟩

/-- **A keyword that is not found in a text is not found in the filled one.** -/
theorem afterKeyword?_eq_none (h : Fills s before text filled values) (hs : s.closing = none)
    (hk : IsKeyword k) (hb : Beside b b' text) (hnone : afterKeyword? k b text = none) :
    afterKeyword? k b' filled = none := by
  by_contra hfound
  obtain ⟨rest', hfound⟩ := Option.ne_none_iff_exists'.mp hfound
  unfold afterKeyword? at hnone hfound
  cases hword : touchesWord b' with
  | true =>
    rw [hword] at hfound
    cases hfound
  | false =>
    rw [hword] at hfound
    simp only [Bool.false_eq_true, if_false, Option.filter_eq_some_iff] at hfound
    obtain ⟨hpattern', htouches⟩ := hfound
    cases hpattern : afterPattern? k text with
    | none =>
      rw [h.afterPattern?_eq_none hs hk.foreign hpattern] at hpattern'
      cases hpattern'
    | some rest =>
      obtain ⟨u, rest'', rfl, rfl, hu, hfit, hagain, hrest⟩ := h.afterPattern?_eq_some hs hk.foreign hpattern
      rw [hpattern'] at hagain
      cases hagain
      have hhead : touchesWord rest.head? = false := by
        cases hrest with
        | nil => rfl
        | char hc hrest => simpa using htouches
        | literal hs hopens hends hv hrest => rfl
      have hbefore : touchesWord b = false := by
        rcases hb with rfl | hends
        · exact hword
        · have hkeyword := ends_of_toLower hu (ends_append hends)
          rw [hk.first] at hkeyword
          cases hkeyword
      rw [hbefore, hpattern] at hnone
      simp [Option.filter, hhead] at hnone

end Fills

theorem IsKeyword.steady {k : List Char} (hk : IsKeyword k) (hword : leadingWord k ∈ cuttingWords) :
    Steady fun b t => (afterKeyword? k b t).map ((), ·) where
  found h hs hb hfound := by
    obtain ⟨rest, hrest, heq⟩ := Option.map_eq_some_iff.mp hfound
    cases heq
    obtain ⟨u, rest', hne, htext, hfilled, hfit, hfound', hrest'⟩ := h.afterKeyword?_eq_some hs hk hb hrest
    exact ⟨u, rest', hne, htext, hfilled, hfit, by rw [hfound']; rfl, hrest'⟩
  missed h hs hb hnone := by
    rw [h.afterKeyword?_eq_none hs hk hb (Option.map_eq_none_iff.mp hnone)]
    rfl
  within hv hends :=
    TopAll.mono (fun _ _ _ h => by rw [h]; rfl)
      ((part_literal hv).clear.afterKeyword?_eq_none hword _ (touchesWord_of_ends hends))

end Tests

/-! ## Searches -/

section Searches

variable {α : Type} {s : Scanner} {before b b' : Option Char} {text filled : List Char}
  {values : List Value}

/-- A steady test fails at a placeholder. -/
theorem Steady.at_placeholder {test : Option Char → List Char → Option (α × List Char)}
    (htest : Steady test) (h : Fills s before ('?' :: text) filled values) (hs : s.closing = none)
    (hb : Beside b b' ('?' :: text)) : test b ('?' :: text) = none := by
  by_contra hne
  obtain ⟨⟨a, rest⟩, hfound⟩ := Option.ne_none_iff_exists'.mp hne
  obtain ⟨u, rest', hu, htext, -, hfit, -⟩ := htest.found h hs hb hfound
  obtain ⟨c, u, rfl⟩ := List.exists_cons_of_ne_nil hu
  rw [List.cons_append, List.cons.injEq] at htext
  exact (hfit c List.mem_cons_self).2 htext.1.symm

/-- A steady test fails within a literal. -/
theorem Steady.within_literal {test : Option Char → List Char → Option (α × List Char)}
    (htest : Steady test) {v : Value} (hv : v.IsPlain) (hs : s.Outside) {rest : List Char}
    (hends : ends rest = true) :
    TopAll (fun b t => test b (t ++ rest) = none) s before v.literal.toList :=
  TopAll.of_outside hs (part_literal hv).balanced (htest.within hv hends)

/-- Where a search ends in a text and in the filled one: nowhere in both, or at one pattern, with
filled texts on both sides of it. -/
inductive FoundAlike (s : Scanner) (before : Option Char) (text filled : List Char)
    (values : List Value) :
    Option (List Char × α × List Char) → Option (List Char × α × List Char) → Prop
  | nowhere : FoundAlike s before text filled values none none
  | place {skipped skipped' u rest rest' : List Char} {left right : List Value} (a : α)
      (hvalues : values = left ++ right) (htext : text = skipped ++ (u ++ rest))
      (hfilled : filled = skipped' ++ (u ++ rest')) (hskipped : Fills s before skipped skipped' left)
      (hrest : Fills {} none rest rest' right) :
      FoundAlike s before text filled values (some (skipped, a, rest)) (some (skipped', a, rest'))

section FoundAlike

variable {found found' : Option (List Char × α × List Char)}

/-- What is found behind a character is found with the character in front of it. -/
theorem FoundAlike.char {c : Char} (hc : s.closing = none → c ≠ '?')
    (h : FoundAlike (s.step c) (some c) text filled values found found') :
    FoundAlike s before (c :: text) (c :: filled) values
      (found.map fun (skipped, r) => (c :: skipped, r))
      (found'.map fun (skipped, r) => (c :: skipped, r)) := by
  cases h with
  | nowhere => exact .nowhere
  | place a hvalues htext hfilled hskipped hrest =>
    exact .place a hvalues (congrArg (c :: ·) htext) (congrArg (c :: ·) hfilled) (.char hc hskipped) hrest

/-- What is found behind a literal is found with the literal in front of it. -/
theorem FoundAlike.literal {v : Value} (hs : s.closing = none) (hbefore : opens before = true)
    (hends : ends text = true) (hv : v.IsPlain)
    (h : FoundAlike s (some '?') text filled values found found') :
    FoundAlike s before ('?' :: text) (v.literal.toList ++ filled) (v :: values)
      (found.map fun (skipped, r) => ('?' :: skipped, r))
      (found'.map fun (skipped, r) => (v.literal.toList ++ skipped, r)) := by
  cases h with
  | nowhere => exact .nowhere
  | @place skipped _ _ _ _ _ _ a hvalues htext hfilled hskipped hrest =>
    have hfirst : ends skipped = true := ends_append (htext ▸ hends)
    refine .place a (congrArg (v :: ·) hvalues) (congrArg ('?' :: ·) htext) ?_
      (.literal hs hbefore hfirst hv hskipped) hrest
    rw [hfilled, List.append_assoc]

theorem FoundAlike.of_some {skipped rest : List Char} {a : α}
    (h : FoundAlike s before text filled values (some (skipped, a, rest)) found) :
    ∃ skipped' u rest' left right, found = some (skipped', a, rest') ∧ values = left ++ right ∧
      text = skipped ++ (u ++ rest) ∧ filled = skipped' ++ (u ++ rest') ∧
      Fills s before skipped skipped' left ∧ Fills {} none rest rest' right := by
  cases h with
  | place _ hvalues htext hfilled hskipped hrest =>
    exact ⟨_, _, _, _, _, rfl, hvalues, htext, hfilled, hskipped, hrest⟩

end FoundAlike

/-- **A steady search ends at the same place** of a text and of the filled one. -/
theorem Fills.findTop? {test : Option Char → List Char → Option (α × List Char)}
    (h : Fills s before text filled values) (htest : Steady test) (hs : s.Sound)
    (hb : Beside b b' text) :
    FoundAlike s before text filled values (findTop? test s b text) (findTop? test s b' filled) := by
  induction h generalizing b b' with
  | nil => exact .nowhere
  | @char s before c text filled values hc rest ih =>
    have hfills : Fills s before (c :: text) (c :: filled) values := Fills.char hc rest
    have hlater := ih (b := some c) (hs.step c) (Or.inl rfl)
    rw [Grammar.findTop?, Grammar.findTop?]
    cases htop : s.isTopLevel with
    | false => exact hlater.char hc
    | true =>
      have hclosing := Scanner.closing_of_isTopLevel htop
      simp only [if_true]
      cases hfound : test b (c :: text) with
      | none =>
        rw [htest.missed hfills hclosing hb hfound]
        exact hlater.char hc
      | some found =>
        obtain ⟨a, after⟩ := found
        obtain ⟨u, after', -, htext, hfilled, -, hfound', hafter⟩ :=
          htest.found hfills hclosing hb hfound
        rw [hfound']
        exact .place a (List.nil_append _).symm htext hfilled Fills.nil
          (hafter.alone (Scanner.Outside.of_sound hs hclosing))
  | @literal s before v text filled values hclosing hbefore hends hv rest ih =>
    have houtside := Scanner.Outside.of_sound hs hclosing
    have hhere : (if s.isTopLevel then test b ('?' :: text) else none) = none := by
      split_ifs
      · exact htest.at_placeholder (Fills.literal hclosing hbefore hends hv rest) hclosing hb
      · rfl
    rw [Grammar.findTop?, hhere, Scanner.step_question hclosing,
      findTop?_append (htest.within_literal hv houtside (rest.ends_filled hends)),
      houtside.run_eq (part_literal hv).balanced]
    exact (ih hs (Or.inr hends)).literal hclosing hbefore hends hv

end Searches

/-! ## Splitting -/

/-- Texts and the filled ones, each with the values that stand in it. -/
inductive AllFill : List (List Char) → List (List Char) → List Value → Prop
  | nil : AllFill [] [] []
  | cons {part part' : List Char} {parts parts' : List (List Char)} {left right : List Value}
      (first : Fills {} none part part' left) (rest : AllFill parts parts' right) :
      AllFill (part :: parts) (part' :: parts') (left ++ right)

namespace AllFill

variable {parts parts' : List (List Char)} {values : List Value}

theorem length_eq (h : AllFill parts parts' values) : parts'.length = parts.length := by
  induction h with
  | nil => rfl
  | cons first rest ih => rw [List.length_cons, List.length_cons, ih]

/-- Parts that are trimmed and left out if they are empty. -/
theorem trimmed (h : AllFill parts parts' values) :
    AllFill ((parts.map Text.trim).filter (· ≠ [])) ((parts'.map Text.trim).filter (· ≠ [])) values := by
  induction h with
  | nil => exact AllFill.nil
  | @cons part part' parts parts' left right first rest ih =>
    have htrim := first.trim ⟨rfl, rfl⟩
    rw [List.map_cons, List.map_cons]
    by_cases hnil : Text.trim part = []
    · have hnil' : Text.trim part' = [] := htrim.eq_nil_iff.mpr hnil
      obtain rfl : left = [] := htrim.values_eq_nil (by rw [hnil]; exact List.not_mem_nil)
      rw [List.filter_cons_of_neg (by simpa using hnil), List.filter_cons_of_neg (by simpa using hnil')]
      exact ih
    · have hne : Text.trim part' ≠ [] := fun h => hnil (htrim.eq_nil_iff.mp h)
      rw [List.filter_cons_of_pos (by simpa using hnil), List.filter_cons_of_pos (by simpa using hne)]
      exact AllFill.cons htrim ih

end AllFill

/-- The first part begins like the text. -/
theorem ends_splitTop {test : Option Char → List Char → Option (List Char)} {s : Scanner}
    {b : Option Char} {text part : List Char} {parts : List (List Char)}
    (h : splitTop test s 0 b text = part :: parts) (hends : ends text = true) : ends part = true := by
  cases text with
  | nil =>
    cases h
    rfl
  | cons c text =>
    rw [splitTop] at h
    split at h
    · cases h
      rfl
    · cases hsplit : splitTop test (s.step c) 0 (some c) text with
      | nil => exact absurd hsplit (splitTop_ne_nil _ _ _ _ _)
      | cons first others =>
        rw [hsplit, consFirst] at h
        cases h
        exact hends

/-- The parts of a text and those of the filled one.  The first part begins in the middle of a text, so
it is filled from the quotes that are open there. -/
inductive PartsFill (s : Scanner) (before : Option Char) :
    List (List Char) → List (List Char) → List Value → Prop
  | cons {part part' : List Char} {parts parts' : List (List Char)} {left right : List Value}
      (first : Fills s before part part' left) (rest : AllFill parts parts' right) :
      PartsFill s before (part :: parts) (part' :: parts') (left ++ right)

namespace PartsFill

variable {s : Scanner} {before : Option Char} {parts parts' : List (List Char)} {values : List Value}

/-- Parts that begin outside of quotes stand for themselves. -/
theorem allFill (h : PartsFill s before parts parts' values) (hs : s.Outside) :
    AllFill parts parts' values := by
  cases h with
  | cons first rest => exact .cons (first.alone hs) rest

/-- Where nothing is found, a character goes to the first part of what follows. -/
theorem char {c : Char} (hc : s.closing = none → c ≠ '?')
    (h : PartsFill (s.step c) (some c) parts parts' values) :
    PartsFill s before (consFirst c parts) (consFirst c parts') values := by
  cases h with
  | cons first rest => exact .cons (.char hc first) rest

/-- A literal goes to the first part as its placeholder does. -/
theorem literal {v : Value} (hs : s.closing = none) (hbefore : opens before = true) (hv : v.IsPlain)
    (hends : ∀ part rest, parts = part :: rest → ends part = true)
    (h : PartsFill s (some '?') parts parts' values) :
    PartsFill s before (consFirst '?' parts) (appendFirst v.literal.toList parts') (v :: values) := by
  cases h with
  | @cons part _ parts _ _ _ first rest =>
    have hfirst := Fills.literal hs hbefore (hends part parts rfl) hv first
    exact .cons hfirst rest

end PartsFill

/-- A delimiter ends a part of a text and of the filled one, and what is left of the text is filled by
what is left of the filled one. -/
theorem Steady.splitTop_of_found {test : Option Char → List Char → Option (List Char)}
    (htest : Steady fun b t => (test b t).map ((), ·)) {s : Scanner} {before b b' : Option Char}
    {text filled after : List Char} {values : List Value} (h : Fills s before text filled values)
    (htop : s.isTopLevel = true) (hb : Beside b b' text) (hfound : test b text = some after) :
    ∃ last after', after.length < text.length ∧ Fills s last after after' values ∧
      splitTop test s 0 b text = [] :: splitTop test s 0 last after ∧
      splitTop test s 0 b' filled = [] :: splitTop test s 0 last after' := by
  obtain ⟨u, after', hne, rfl, rfl, hfit, hfound', hafter⟩ :=
    htest.found h (Scanner.closing_of_isTopLevel htop) hb (by rw [hfound]; rfl)
  obtain ⟨after'', hfound'', heq⟩ := Option.map_eq_some_iff.mp hfound'
  cases heq
  have hneutral : ∀ a ∈ u, Neutral a := fun a ha => (hfit a ha).1
  -- Only the end of the delimiter is in front of what is left.
  have hlast (x : Option Char) : lastOr x u = lastOr before u := by
    obtain ⟨d, u, rfl⟩ := List.exists_cons_of_ne_nil hne
    rw [lastOr_cons, lastOr_cons]
  refine ⟨lastOr before u, after', ?_, hafter, ?_, ?_⟩
  · rw [List.length_append]
    have hpositive := List.length_pos_iff.mpr hne
    omega
  · rw [splitTop_delimiter htop hne hneutral hfound, hlast b]
  · rw [splitTop_delimiter htop hne hneutral hfound'', hlast b']

/-- **A filled text is split where the text is split.** -/
theorem Fills.splitTop {test : Option Char → List Char → Option (List Char)}
    (htest : Steady fun b t => (test b t).map ((), ·)) {s : Scanner} {before b b' : Option Char}
    {text filled : List Char} {values : List Value} (h : Fills s before text filled values)
    (hs : s.Sound) (hb : Beside b b' text) :
    PartsFill s before (splitTop test s 0 b text) (splitTop test s 0 b' filled) values := by
  -- Behind a delimiter the text is split again, so this is no induction along the text.
  induction hlength : text.length using Nat.strong_induction_on generalizing
    s before b b' text filled values with
  | _ n ih =>
    subst hlength
    cases h with
    | nil => exact .cons Fills.nil AllFill.nil
    | @char _ _ c text filled _ hc rest =>
      have hfills : Fills s before (c :: text) (c :: filled) values := Fills.char hc rest
      have hlater : PartsFill s before (consFirst c (Grammar.splitTop test (s.step c) 0 (some c) text))
          (consFirst c (Grammar.splitTop test (s.step c) 0 (some c) filled)) values :=
        (ih text.length (Nat.lt_succ_self _) rest (hs.step c) (Or.inl rfl) rfl).char hc
      cases htop : s.isTopLevel with
      | false =>
        rw [Grammar.splitTop, Grammar.splitTop, htop]
        exact hlater
      | true =>
        have hclosing := Scanner.closing_of_isTopLevel htop
        cases hfound : test b (c :: text) with
        | none =>
          have hmissed := htest.missed hfills hclosing hb (by rw [hfound]; rfl)
          rw [Grammar.splitTop, Grammar.splitTop, htop, hfound, Option.map_eq_none_iff.mp hmissed]
          exact hlater
        | some after =>
          obtain ⟨last, after', hshorter, hafter, hsplit, hsplit'⟩ :=
            htest.splitTop_of_found hfills htop hb hfound
          have hparts := ih after.length hshorter hafter hs (b := last) (Or.inl rfl) rfl
          have hcut := hparts.allFill (Scanner.Outside.of_sound hs hclosing)
          rw [hsplit, hsplit']
          exact PartsFill.cons Fills.nil hcut
    | @literal _ _ v text filled values hclosing hbefore hends hv rest =>
      have houtside := Scanner.Outside.of_sound hs hclosing
      have hhere : (if s.isTopLevel then test b ('?' :: text) else none) = none := by
        split_ifs
        · have hfills := Fills.literal hclosing hbefore hends hv rest
          exact Option.map_eq_none_iff.mp (htest.at_placeholder hfills hclosing hb)
        · rfl
      have hwithin : TopAll (fun b t => test b (t ++ filled) = none) s b' v.literal.toList :=
        TopAll.mono (fun _ _ _ hnone => Option.map_eq_none_iff.mp hnone)
          (htest.within_literal hv houtside (rest.ends_filled hends))
      rw [Grammar.splitTop, hhere, Scanner.step_question hclosing, splitTop_append hwithin,
        houtside.run_eq (part_literal hv).balanced]
      exact (ih text.length (Nat.lt_succ_self _) rest hs (Or.inr hends) rfl).literal hclosing hbefore hv
        fun part parts hsplit => ends_splitTop hsplit hends

section Parts

variable {text filled : List Char} {values : List Value}

/-- **The parts of a filled text** are the filled parts. -/
theorem Fills.splitOn (h : Fills {} none text filled values) {d : List Char}
    (hd : AvoidsLiterals d) : AllFill (splitOn d text) (splitOn d filled) values := by
  have hparts := h.splitTop (hd.steady ()) Scanner.sound_start (b := none) (Or.inl rfl)
  exact (hparts.allFill ⟨rfl, rfl⟩).trimmed

/-- **The connective of a filled text** is that of the text, and its parts are filled. -/
theorem Fills.connectedParts? (h : Fills {} none text filled values) :
    (connectedParts? text = none ∧ connectedParts? filled = none) ∨
      ∃ op parts parts', connectedParts? text = some (op, parts) ∧
        connectedParts? filled = some (op, parts') ∧ AllFill parts parts' values := by
  have hor := h.splitOn avoidsLiterals_connective.2
  have hand := h.splitOn avoidsLiterals_connective.1
  unfold Grammar.connectedParts?
  simp only [hor.length_eq, hand.length_eq]
  by_cases halternatives : 1 < (Grammar.splitOn " OR ".toList text).length
  · rw [if_pos halternatives, if_pos halternatives]
    exact Or.inr ⟨_, _, _, rfl, rfl, hor⟩
  · rw [if_neg halternatives, if_neg halternatives]
    by_cases hconditions : 1 < (Grammar.splitOn " AND ".toList text).length
    · rw [if_pos hconditions, if_pos hconditions]
      exact Or.inr ⟨_, _, _, rfl, rfl, hand⟩
    · rw [if_neg hconditions, if_neg hconditions]
      exact Or.inl ⟨rfl, rfl⟩

/-! ## Parentheses -/

theorem closeParenthesis?_flagged (s : Scanner) (w : List Char) :
    closeParenthesis? s.flagged w = closeParenthesis? s w := by
  induction w generalizing s with
  | nil => rfl
  | cons c w ih =>
    rw [closeParenthesis?, closeParenthesis?]
    simp only [Scanner.step_flagged, ih]
    rfl

/-- No parenthesis around a balanced text is closed within it. -/
theorem closeParenthesis?_outside {s : Scanner} (hs : s.Outside) (hdepth : 0 < s.depth)
    {w : List Char} (hw : Balanced w) (rest : List Char) : closeParenthesis? s (w ++ rest) =
      (closeParenthesis? s rest).map fun (inside, after) => (w ++ inside, after) := by
  obtain ⟨k, hk⟩ : ∃ k, s.depth = k + 1 := ⟨s.depth - 1, by omega⟩
  have hlift : Scanner.lift s.depth {} = (Scanner.lift k {}).lift 1 := by
    rw [hk]
    simp [Scanner.lift]
  have hunbalanced : ((Scanner.lift k {}).run w).unbalanced = false := by
    rw [hw.run_lift]
    rfl
  have hclose := @closeParenthesis?_lift _ w rest hunbalanced
  rw [hw.run_lift, ← hlift] at hclose
  rcases hs.eq_lift with heq | heq
  · rwa [heq]
  · rwa [heq, closeParenthesis?_flagged, closeParenthesis?_flagged]

/-- The parenthesis that is closed is closed in a filled text as well. -/
theorem Fills.closeParenthesis? {s : Scanner} {before : Option Char}
    (h : Fills s before text filled values) (hs : s.Sound) (hdepth : 0 < s.depth) :
    (closeParenthesis? s text = none ∧ closeParenthesis? s filled = none) ∨
      ∃ inside inside' rest rest' left right, closeParenthesis? s text = some (inside, rest) ∧
        closeParenthesis? s filled = some (inside', rest') ∧ values = left ++ right ∧
        Fills s before inside inside' left ∧ Fills {} none rest rest' right := by
  induction h with
  | nil => exact Or.inl ⟨rfl, rfl⟩
  | @char s before c text filled values hc rest ih =>
    rw [Grammar.closeParenthesis?, Grammar.closeParenthesis?]
    simp only
    by_cases hclose : c = ')' ∧ (s.step c).isTopLevel = true
    · rw [if_pos hclose, if_pos hclose]
      have hnext := Scanner.Outside.of_sound (hs.step c) (Scanner.closing_of_isTopLevel hclose.2)
      exact Or.inr ⟨[], [], text, filled, [], values, rfl, rfl, rfl, Fills.nil, rest.alone hnext⟩
    · rw [if_neg hclose, if_neg hclose]
      rcases ih (hs.step c) (depth_pos_of_not_closed hdepth hclose) with ⟨hnone, hnone'⟩ |
        ⟨inside, inside', after, after', left, right, hsome, hsome', rfl, hinside, hafter⟩
      · exact Or.inl ⟨by rw [hnone]; rfl, by rw [hnone']; rfl⟩
      · exact Or.inr ⟨c :: inside, c :: inside', after, after', left, right, by rw [hsome]; rfl,
          by rw [hsome']; rfl, rfl, Fills.char hc hinside, hafter⟩
  | @literal s before v text filled values hclosing hbefore hends hv rest ih =>
    have hnot : ¬ ('?' = ')' ∧ s.isTopLevel = true) := fun h => absurd h.1 (by decide)
    rw [Grammar.closeParenthesis?, Scanner.step_question hclosing,
      closeParenthesis?_outside (Scanner.Outside.of_sound hs hclosing) hdepth
        (part_literal hv).balanced]
    simp only [if_neg hnot]
    rcases ih hs hdepth with ⟨hnone, hnone'⟩ |
      ⟨inside, inside', after, after', left, right, hsome, hsome', rfl, hinside, hafter⟩
    · exact Or.inl ⟨by rw [hnone]; rfl, by rw [hnone']; rfl⟩
    · obtain ⟨htext, -⟩ := topAll_of_closeParenthesis? (P := fun _ _ => True) none hdepth hsome
      have hends' : ends inside = true := ends_append (htext ▸ hends)
      exact Or.inr ⟨'?' :: inside, v.literal.toList ++ inside', after, after', v :: left, right,
        by rw [hsome]; rfl, by rw [hsome']; rfl, rfl, Fills.literal hclosing hbefore hends' hv hinside,
        hafter⟩

/-- A text that begins with no parenthesis is in none. -/
theorem parenthesized?_eq_none {w : List Char} (h : afterPattern? ['('] w = none) :
    parenthesized? w = none := by
  unfold parenthesized?
  split
  next => cases h
  next => rfl

/-- **The parentheses around a filled text** are those around the text. -/
theorem Fills.unwrap? (h : Fills {} none text filled values) :
    (unwrap? text = none ∧ unwrap? filled = none) ∨
      ∃ inner inner', unwrap? text = some inner ∧ unwrap? filled = some inner' ∧
        Fills {} none inner inner' values := by
  have htrim := h.trim ⟨rfl, rfl⟩
  unfold Grammar.unwrap?
  revert htrim
  generalize Text.trim text = text, Text.trim filled = filled
  intro htrim
  cases htrim with
  | nil => exact Or.inl ⟨rfl, rfl⟩
  | @char _ _ c text filled _ hc rest =>
    by_cases hopen : c = '('
    · subst hopen
      have hsound : (Scanner.step {} '(').Sound := Scanner.sound_start.step '('
      rcases rest.closeParenthesis? hsound Nat.one_pos with ⟨hnone, hnone'⟩ |
        ⟨inside, inside', after, after', left, right, hsome, hsome', rfl, hinside, hafter⟩
      · refine Or.inl ⟨?_, ?_⟩
        · rw [parenthesized?, show Grammar.closeParenthesis? { depth := 1 } text = none from hnone]
        · rw [parenthesized?, show Grammar.closeParenthesis? { depth := 1 } filled = none from hnone']
      · rw [parenthesized?, parenthesized?,
          show Grammar.closeParenthesis? { depth := 1 } text = some (inside, after) from hsome,
          show Grammar.closeParenthesis? { depth := 1 } filled = some (inside', after') from hsome']
        cases after with
        | nil =>
          cases hafter
          rw [List.append_nil]
          exact Or.inr ⟨_, _, rfl, rfl, hinside.trim ⟨rfl, rfl⟩⟩
        | cons d after =>
          obtain ⟨d', after', rfl⟩ := List.exists_cons_of_ne_nil (l := after')
            (fun hnil => List.cons_ne_nil d after (hafter.eq_nil_iff.mp hnil))
          exact Or.inl ⟨rfl, rfl⟩
    · have hnone (t : List Char) : parenthesized? (c :: t) = none := by
        refine parenthesized?_eq_none ?_
        have hne : '(' ≠ c.toLower := fun heq => hopen (eq_of_toLower_eq rfl heq.symm)
        simp [afterPattern?, hne]
      rw [hnone, hnone]
      exact Or.inl ⟨rfl, rfl⟩
  | @literal _ _ v text filled values hclosing hbefore hends hv rest =>
    rw [parenthesized?_eq_none (afterPattern?_literal hv (by decide) filled)]
    exact Or.inl ⟨rfl, rfl⟩

/-- **The comparison of a filled text** is that of the text, between filled sides. -/
theorem Fills.cutFirst? (h : Fills {} none text filled values) :
    FoundAlike {} none text filled values (cutFirst? comparisonSpellings text)
      (cutFirst? comparisonSpellings filled) :=
  h.findTop? (steady_findSome? avoidsLiterals_comparison) Scanner.sound_start (Or.inl rfl)

end Parts

/-! ## Clauses -/

/-- Clauses and the filled ones, under the same keywords. -/
inductive ClausesFill : List (String × List Char) → List (String × List Char) → List Value → Prop
  | nil : ClausesFill [] [] []
  | cons {keyword : String} {text filled : List Char} {clauses clauses' : List (String × List Char)}
      {left right : List Value} (first : Fills {} none text filled left)
      (rest : ClausesFill clauses clauses' right) :
      ClausesFill ((keyword, text) :: clauses) ((keyword, filled) :: clauses') (left ++ right)

section Clauses

variable {before b b' : Option Char} {text filled : List Char} {values : List Value}
  {clauses clauses' : List (String × List Char)}

theorem ClausesFill.any_eq (h : ClausesFill clauses clauses' values) (keyword : String) :
    (clauses'.any fun c => c.1 == keyword) = clauses.any fun c => c.1 == keyword := by
  induction h with
  | nil => rfl
  | cons first rest ih => rw [List.any_cons, List.any_cons, ih]

/-- A keyword cuts a filled text where it cuts the text. -/
theorem Fills.cutKeyword? (h : Fills {} before text filled values) {k : List Char}
    (hk : IsKeyword k) (hword : leadingWord k ∈ cuttingWords) (hb : Beside b b' text) :
    (cutKeyword? k b text = none ∧ cutKeyword? k b' filled = none) ∨
      ∃ skipped skipped' rest rest' left right, cutKeyword? k b text = some (skipped, rest) ∧
        cutKeyword? k b' filled = some (skipped', rest') ∧ values = left ++ right ∧
        Fills {} none skipped skipped' left ∧ Fills {} none rest rest' right := by
  have hfound := h.findTop? (hk.steady hword) Scanner.sound_start hb
  unfold Grammar.cutKeyword?
  generalize Grammar.findTop? _ _ b text = found, Grammar.findTop? _ _ b' filled = found' at hfound
  cases hfound with
  | nowhere => exact Or.inl ⟨rfl, rfl⟩
  | place _ hvalues _ _ hskipped hrest =>
    exact Or.inr ⟨_, _, _, _, _, _, rfl, rfl, hvalues, hskipped.alone ⟨rfl, rfl⟩, hrest⟩

theorem clauseKeywords_leadingWord : ∀ k ∈ clauseKeywords.drop 1,
    leadingWord k.toList ∈ cuttingWords := fun k hk =>
  structuralWords_subset (clauseWords_subset (leadingWord_mem_clauseWords k hk).1)

theorem Fills.clausesAfter (h : Fills {} none text filled values) (current : String)
    {keywords : List String} (hkeywords : keywords ⊆ clauseKeywords.drop 1) :
    ClausesFill (clausesAfter current text keywords) (clausesAfter current filled keywords) values := by
  induction keywords generalizing current text filled values with
  | nil =>
    rw [← List.append_nil values]
    exact ClausesFill.cons h ClausesFill.nil
  | cons keyword keywords ih =>
    have hmem := hkeywords List.mem_cons_self
    have hothers : keywords ⊆ clauseKeywords.drop 1 := fun k hk => hkeywords (List.mem_cons_of_mem _ hk)
    rw [Grammar.clausesAfter, Grammar.clausesAfter]
    rcases h.cutKeyword? (keywords_isKeyword keyword (List.mem_of_mem_drop hmem))
      (clauseKeywords_leadingWord keyword hmem) (Or.inl rfl) with ⟨hnone, hnone'⟩ |
        ⟨skipped, skipped', rest, rest', left, right, hsome, hsome', rfl, hskipped, hrest⟩
    · rw [hnone, hnone']
      exact ih h current hothers
    · rw [hsome, hsome']
      exact ClausesFill.cons hskipped (ih hrest keyword hothers)

theorem ClausesFill.checkClauses (h : ClausesFill clauses clauses' values) {sql sql' : List Char}
    {checked : List (String × List Char)} (hchecked : checkClauses sql clauses = .ok checked) :
    ∃ checked', checkClauses sql' clauses' = .ok checked' ∧ ClausesFill checked checked' values := by
  induction h generalizing checked with
  | nil =>
    cases hchecked
    exact ⟨[], rfl, ClausesFill.nil⟩
  | @cons keyword text filled clauses clauses' left right first rest ih =>
    have htrim := first.trim ⟨rfl, rfl⟩
    obtain ⟨hne, rfl⟩ := checkClauses_eq_ok_iff.mp hchecked
    rw [List.forall_mem_cons] at hne
    obtain ⟨others', hothers', hfills⟩ := ih (checkClauses_eq_ok_iff.mpr ⟨hne.2, rfl⟩)
    obtain ⟨hne', rfl⟩ := checkClauses_eq_ok_iff.mp hothers'
    refine ⟨_, checkClauses_eq_ok_iff.mpr ⟨List.forall_mem_cons.mpr ⟨?_, hne'⟩, rfl⟩,
      ClausesFill.cons htrim hfills⟩
    exact fun hempty => hne.1 (htrim.eq_nil_iff.mp hempty)

/-- A query begins with SELECT, and so does a filled one. -/
theorem Fills.cutSelect (h : Fills {} none text filled values) {rest : List Char}
    (hsome : Grammar.cutKeyword? "SELECT".toList none text = some ([], rest)) : ∃ rest',
    Grammar.cutKeyword? "SELECT".toList none filled = some ([], rest') ∧
      Fills {} none rest rest' values := by
  have hselect := keywords_isKeyword "SELECT" (by decide)
  obtain ⟨⟨skipped, a, found⟩, hfound, heq⟩ := Option.map_eq_some_iff.mp hsome
  cases heq
  have hhere : afterKeyword? "SELECT".toList none text = some rest := by
    cases text with
    | nil => cases hfound
    | cons c text =>
      rw [Grammar.findTop?] at hfound
      split at hfound
      next hnext =>
        cases hfound
        obtain ⟨after, hafter, heq⟩ := Option.map_eq_some_iff.mp hnext
        cases heq
        exact hafter
      next =>
        obtain ⟨⟨later, r⟩, -, heq⟩ := Option.map_eq_some_iff.mp hfound
        cases heq
  obtain ⟨u, rest', hne, rfl, rfl, -, hhere', hrest⟩ :=
    h.afterKeyword?_eq_some rfl hselect (Or.inl rfl) hhere
  refine ⟨rest', ?_, hrest.alone ⟨rfl, rfl⟩⟩
  obtain ⟨c, u, rfl⟩ := List.exists_cons_of_ne_nil hne
  rw [Grammar.cutKeyword?, List.cons_append, Grammar.findTop?]
  rw [List.cons_append] at hhere'
  simp only [show Scanner.isTopLevel {} = true from rfl, if_true, hhere']
  rfl

/-- **The clauses of a filled query** are the filled clauses. -/
theorem Fills.locateClauses (h : Fills {} none text filled values)
    (hlocated : locateClauses text = .ok clauses) : ∃ clauses',
    Grammar.locateClauses filled = .ok clauses' ∧ ClausesFill clauses clauses' values := by
  obtain ⟨rest, hselect, hfrom, hchecked⟩ := locateClauses_eq_ok_iff.mp hlocated
  obtain ⟨rest', hselect', hrest⟩ := h.cutSelect hselect
  have hclauses := hrest.clausesAfter "SELECT" (List.Subset.refl (clauseKeywords.drop 1))
  obtain ⟨clauses', hchecked', hfills⟩ := @ClausesFill.checkClauses _ _ _ hclauses _ filled _ hchecked
  refine ⟨clauses', locateClauses_eq_ok_iff.mpr ⟨rest', hselect', ?_, hchecked'⟩, hfills⟩
  rw [hclauses.any_eq]
  exact hfrom

end Clauses

end DocQuery.Grammar
