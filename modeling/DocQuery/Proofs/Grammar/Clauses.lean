import DocQuery.Grammar.Statement
import DocQuery.Proofs.Grammar.Parentheses

/-!
# DocQuery.Proofs.Grammar.Clauses — the texts of clauses

A query text is normalised before its clauses are found, and a keyword is found at top level only.
So every clause closes all that it opens, and since clauses are trimmed and never empty, each of
them is a text that the readers of clauses are made for (`locateClauses_clauseText`).
-/

namespace DocQuery.Grammar

/-! ## The states that a scanner reaches -/

namespace Scanner

/-- Nothing is escaped outside of quotes, and no blank closes a quote. -/
structure Sound (s : Scanner) : Prop where
  escaped : s.closing = none → s.escaped = false
  closing : ∀ c ∈ s.closing, Text.isBlank c = false

theorem sound_start : Sound {} := ⟨fun _ => rfl, fun _ h => by cases h⟩

theorem isBlank_closer {c closing : Char} (h : closer? c = some closing) :
    Text.isBlank closing = false := by
  unfold closer? at h
  split_ifs at h with hquote hbracket
  · cases h
    rcases hquote with rfl | rfl | rfl <;> rfl
  · cases h
    rfl

theorem Sound.step {s : Scanner} (hs : s.Sound) (c : Char) : (s.step c).Sound := by
  obtain ⟨depth, closing, escaped, unbalanced⟩ := s
  cases closing with
  | some closing =>
    have hclosing : Text.isBlank closing = false := hs.closing closing rfl
    cases escaped with
    | true => exact ⟨fun h => (by cases h), fun _ h => (by cases h; exact hclosing)⟩
    | false =>
      simp only [Scanner.step, Bool.false_eq_true, if_false]
      split_ifs
      · exact ⟨fun h => (by cases h), fun _ h => (by cases h; exact hclosing)⟩
      · exact ⟨fun _ => rfl, fun _ h => (by cases h)⟩
      · exact ⟨fun _ => rfl, fun _ h => (by cases h; exact hclosing)⟩
  | none =>
    have hescaped : escaped = false := hs.escaped rfl
    subst hescaped
    simp only [Scanner.step]
    split_ifs
    · exact ⟨fun _ => rfl, fun _ h => (by cases h)⟩
    · exact ⟨fun _ => rfl, fun _ h => (by cases h)⟩
    · exact ⟨fun _ => rfl, fun _ h => (by cases h)⟩
    · exact ⟨fun _ => rfl, fun _ h => isBlank_closer h⟩

theorem Sound.run {s : Scanner} (hs : s.Sound) (w : List Char) : (s.run w).Sound := by
  induction w generalizing s with
  | nil => exact hs
  | cons c w ih => exact ih (hs.step c)

/-- At top level, with nothing closed in excess, the scanner is where it started. -/
theorem Sound.eq_start {s : Scanner} (hs : s.Sound) (htop : s.isTopLevel = true)
    (hunbalanced : s.unbalanced = false) : s = {} := by
  obtain ⟨depth, closing, escaped, unbalanced⟩ := s
  rw [isTopLevel, Bool.and_eq_true, beq_iff_eq, Option.isNone_iff_eq_none] at htop
  obtain ⟨rfl, rfl⟩ := htop
  have hescaped : escaped = false := hs.escaped rfl
  subst hescaped hunbalanced
  rfl

/-- Outside of quotes a blank changes nothing. -/
theorem step_blank {s : Scanner} {c : Char} (hs : s.closing = none)
    (hc : Text.isBlank c = true) : s.step c = s := by
  have hne (d : Char) (hd : Text.isBlank d = false) : c ≠ d := by
    rintro rfl
    rw [hc] at hd
    cases hd
  have hcloser : closer? c = none := by
    simp [closer?, hne '\'' rfl, hne '"' rfl, hne '\x60' rfl, hne '[' rfl]
  obtain ⟨depth, closing, escaped, unbalanced⟩ := s
  subst hs
  simp only [step, if_neg (hne '(' rfl), if_neg (hne ')' rfl), hcloser]

theorem run_blanks {s : Scanner} {w : List Char} (hs : s.closing = none)
    (hw : ∀ c ∈ w, Text.isBlank c = true) : s.run w = s := by
  induction w with
  | nil => rfl
  | cons c w ih =>
    rw [run_cons, step_blank hs (hw c List.mem_cons_self)]
    exact ih fun d hd => hw d (List.mem_cons_of_mem _ hd)

/-- Blanks leave a quote open. -/
theorem closing_run_blanks {s : Scanner} {w : List Char} (hs : s.Sound) (hclosing : s.closing ≠ none)
    (hw : ∀ c ∈ w, Text.isBlank c = true) : (s.run w).closing ≠ none := by
  induction w generalizing s with
  | nil => exact hclosing
  | cons c w ih =>
    refine ih (hs.step c) ?_ fun d hd => hw d (List.mem_cons_of_mem _ hd)
    obtain ⟨depth, closing, escaped, unbalanced⟩ := s
    cases closing with
    | none => exact absurd rfl hclosing
    | some closing =>
      have hne : c ≠ closing := by
        rintro rfl
        have hblank := hs.closing c rfl
        rw [hw c List.mem_cons_self] at hblank
        cases hblank
      simp only [Scanner.step]
      split_ifs <;> simp

end Scanner

/-! ## Parts of balanced texts -/

/-- A text cut at a place at top level is balanced on both sides. -/
theorem Balanced.of_append {u v : List Char} (h : Balanced (u ++ v))
    (htop : (Scanner.run {} u).isTopLevel = true) : Balanced u ∧ Balanced v := by
  have hend : (Scanner.run {} u).run v = {} := by
    rw [← Scanner.run_append]
    exact h
  have hu : Scanner.run {} u = {} :=
    (Scanner.sound_start.run u).eq_start htop (Scanner.run_unbalanced (w := v) (by rw [hend]))
  refine ⟨hu, ?_⟩
  rw [hu] at hend
  exact hend

theorem Balanced.trim {w : List Char} (h : Balanced w) : Balanced (Text.trim w) := by
  obtain ⟨u, v, hw, hu, hv⟩ := Text.exists_eq_trim w
  have hstart : Scanner.run {} u = {} := Scanner.run_blanks rfl hu
  have hend : ((Scanner.run {} (Text.trim w)).run v) = {} := by
    have hrun : Scanner.run {} w = {} := h
    rw [hw, Scanner.run_append, hstart, Scanner.run_append] at hrun
    exact hrun
  have hclosing : (Scanner.run {} (Text.trim w)).closing = none := by
    by_contra hne
    exact Scanner.closing_run_blanks (Scanner.sound_start.run _) hne hv (by rw [hend])
  rw [Scanner.run_blanks hclosing hv] at hend
  exact hend

/-- A character that differs at most in case from a character without meaning to the scanner has
none either. -/
theorem step_of_toLower {c : Char} (h : c.toLower.isAlpha = true ∨ c.toLower = ' ') :
    Scanner.step {} c = {} := by
  rcases h with h | h
  · have hne (d : Char) (hd : d.toLower.isAlpha = false) : c ≠ d := by
      rintro rfl
      rw [h] at hd
      cases hd
    have hcloser : Scanner.closer? c = none := by
      simp [Scanner.closer?, hne '\'' rfl, hne '"' rfl, hne '\x60' rfl, hne '[' rfl]
    simp only [Scanner.step, if_neg (hne '(' rfl), if_neg (hne ')' rfl), hcloser]
  · rw [toLower_eq_blank h]
    rfl

/-- A keyword as it stands in a text, in any case. -/
theorem balanced_of_keyword {keyword u : List Char}
    (hkeyword : ∀ c ∈ keyword, c.toLower.isAlpha = true ∨ c.toLower = ' ')
    (h : u.map Char.toLower = keyword.map Char.toLower) : Balanced u := by
  induction u generalizing keyword with
  | nil => rfl
  | cons c u ih =>
    cases keyword with
    | nil => cases h
    | cons k keyword =>
      rw [List.map_cons, List.map_cons, List.cons.injEq] at h
      have hstep : Scanner.step {} c = {} := by
        apply step_of_toLower
        rw [h.1]
        exact hkeyword k List.mem_cons_self
      show (Scanner.step {} c).run u = {}
      rw [hstep]
      exact ih (fun d hd => hkeyword d (List.mem_cons_of_mem _ hd)) h.2

/-- What a search finds stands at top level, and the test fails at every place in front of it. -/
theorem findTop?_eq_some {α : Type} {test : Option Char → List Char → Option (α × List Char)}
    {s : Scanner} {before : Option Char} {w skipped rest : List Char} {a : α}
    (h : findTop? test s before w = some (skipped, a, rest)) :
    ∃ t, w = skipped ++ t ∧ (s.run skipped).isTopLevel = true ∧
      test (lastOr before skipped) t = some (a, rest) ∧
      TopAll (fun b r => test b (r ++ t) = none) s before skipped := by
  induction w generalizing s before skipped with
  | nil => cases h
  | cons c w ih =>
    rw [findTop?] at h
    split at h
    next found rest' hfound =>
      cases h
      split_ifs at hfound with htop
      exact ⟨c :: w, rfl, htop, hfound, trivial⟩
    next hnone =>
      obtain ⟨⟨skipped', r⟩, hrest, heq⟩ := Option.map_eq_some_iff.mp h
      cases heq
      obtain ⟨t, rfl, htop, htest, hfront⟩ := ih hrest
      rw [← lastOr_cons] at htest
      exact ⟨t, rfl, htop, htest, fun hhere => by rwa [if_pos hhere] at hnone, hfront⟩

/-- A search that finds nothing fails at every place. -/
theorem topAll_of_findTop?_eq_none {α : Type} {test : Option Char → List Char → Option (α × List Char)}
    {s : Scanner} {before : Option Char} {w : List Char} (h : findTop? test s before w = none) :
    TopAll (fun b t => test b t = none) s before w := by
  induction w generalizing s before with
  | nil => trivial
  | cons c w ih =>
    rw [findTop?] at h
    split at h
    next => cases h
    next hnone => exact ⟨fun hhere => by rwa [if_pos hhere] at hnone, ih (Option.map_eq_none_iff.mp h)⟩

/-- **A keyword found in a balanced text leaves balanced texts on both sides.** -/
theorem balanced_of_cutKeyword? {keyword w text after : List Char} {before : Option Char}
    (hkeyword : ∀ c ∈ keyword, c.toLower.isAlpha = true ∨ c.toLower = ' ') (hw : Balanced w)
    (h : cutKeyword? keyword before w = some (text, after)) : Balanced text ∧ Balanced after := by
  obtain ⟨⟨skipped, found, rest⟩, hfind, heq⟩ := Option.map_eq_some_iff.mp h
  cases heq
  obtain ⟨t, rfl, htop, htest, -⟩ := findTop?_eq_some hfind
  obtain ⟨rest, hafter, heq⟩ := Option.map_eq_some_iff.mp htest
  cases heq
  have hpattern : afterPattern? keyword t = some after := by
    unfold afterKeyword? at hafter
    split_ifs at hafter
    exact (Option.filter_eq_some_iff.mp hafter).1
  obtain ⟨u, rfl, hu⟩ := afterPattern?_eq_some_iff.mp hpattern
  obtain ⟨htext, hrest⟩ := hw.of_append htop
  have hbalanced : Balanced u := balanced_of_keyword hkeyword hu
  refine ⟨htext, ?_⟩
  unfold Balanced at hrest
  rw [Scanner.run_append, hbalanced] at hrest
  exact hrest

/-! ## Clauses -/

theorem clauseKeywords_plain : ∀ keyword ∈ clauseKeywords, ∀ c ∈ keyword.toList,
    c.toLower.isAlpha = true ∨ c.toLower = ' ' := by
  have hall : ∀ keyword ∈ clauseKeywords,
      (keyword.toList.all fun c => c.toLower.isAlpha || c.toLower == ' ') = true := by
    decide
  intro keyword hkeyword c hc
  simpa using List.all_eq_true.mp (hall keyword hkeyword) c hc

theorem clausesAfter_balanced {current : String} {rest : List Char} {keywords : List String}
    (hkeywords : ∀ keyword ∈ keywords, keyword ∈ clauseKeywords) (hrest : Balanced rest) :
    ∀ clause ∈ clausesAfter current rest keywords, Balanced clause.2 := by
  induction keywords generalizing current rest with
  | nil => exact List.forall_mem_singleton.mpr hrest
  | cons keyword keywords ih =>
    have hkeywords' := List.forall_mem_cons.mp hkeywords
    rw [clausesAfter]
    split
    next text after hcut =>
      obtain ⟨htext, hafter⟩ :=
        balanced_of_cutKeyword? (clauseKeywords_plain keyword hkeywords'.1) hrest hcut
      exact List.forall_mem_cons.mpr ⟨htext, ih hkeywords'.2 hafter⟩
    next => exact ih hkeywords'.2 hrest

/-- **Clauses pass if none of them is blank**, and their texts are trimmed. -/
theorem checkClauses_eq_ok_iff {sql : List Char} {found clauses : List (String × List Char)} :
    checkClauses sql found = .ok clauses ↔
      (∀ c ∈ found, Text.trim c.2 ≠ []) ∧ clauses = found.map fun c => (c.1, Text.trim c.2) := by
  induction found generalizing clauses with
  | nil =>
    exact ⟨fun h => ⟨List.forall_mem_nil _, (Except.ok.inj h).symm⟩,
      fun h => congrArg Except.ok h.2.symm⟩
  | cons c rest ih =>
    obtain ⟨keyword, text⟩ := c
    rw [checkClauses, List.forall_mem_cons]
    dsimp only
    split
    next hblank => exact ⟨fun h => (by cases h), fun h => absurd hblank h.1.1⟩
    next hne =>
      constructor
      · intro h
        obtain ⟨others, hothers, rfl⟩ := exists_of_map_eq_ok h
        obtain ⟨hrest, rfl⟩ := ih.mp hothers
        exact ⟨⟨hne, hrest⟩, rfl⟩
      · rintro ⟨⟨-, hrest⟩, rfl⟩
        rw [ih.mpr ⟨hrest, rfl⟩]
        rfl

/-- The clauses of a query are those after its SELECT, one of which is a FROM. -/
theorem locateClauses_eq_ok_iff {sql : List Char} {clauses : List (String × List Char)} :
    locateClauses sql = .ok clauses ↔ ∃ rest,
      cutKeyword? "SELECT".toList none sql = some ([], rest) ∧
      ((clausesAfter "SELECT" rest (clauseKeywords.drop 1)).any fun c => c.1 == "FROM") = true ∧
      checkClauses sql (clausesAfter "SELECT" rest (clauseKeywords.drop 1)) = .ok clauses := by
  unfold locateClauses
  cases hselect : cutKeyword? "SELECT".toList none sql with
  | none =>
    refine ⟨fun h => (by cases h), ?_⟩
    rintro ⟨rest, hnone, -⟩
    cases hnone
  | some found =>
    obtain ⟨before, rest⟩ := found
    dsimp only
    constructor
    · intro h
      split_ifs at h with hbefore hfrom
      obtain rfl : before = [] := not_not.mp hbefore
      exact ⟨rest, rfl, hfrom, h⟩
    · rintro ⟨rest', heq, hfrom, hchecked⟩
      cases heq
      rw [if_neg (not_not_intro rfl), if_pos hfrom]
      exact hchecked

theorem checkClauses_clauseText {sql : List Char} {clauses checked : List (String × List Char)}
    (hclauses : ∀ clause ∈ clauses, Balanced clause.2) (h : checkClauses sql clauses = .ok checked) :
    ∀ clause ∈ checked, ClauseText clause.2 := by
  obtain ⟨hne, rfl⟩ := checkClauses_eq_ok_iff.mp h
  intro clause hmem
  obtain ⟨c, hc, rfl⟩ := List.mem_map.mp hmem
  exact ⟨Text.trimmed_trim (hne c hc), (hclauses c hc).trim⟩

/-- Collapsing blanks leaves the scanner where the text leaves it. -/
theorem collapse_run {s : Scanner} {started pending : Bool} {w : List Char}
    (hpending : pending = true → s.closing = none) :
    (collapse s started pending w).2 = s.run (collapse s started pending w).1 := by
  induction w generalizing s started pending with
  | nil => rfl
  | cons c w ih =>
    rw [collapse]
    split_ifs with hblank hpend
    · rw [Bool.and_eq_true, Option.isNone_iff_eq_none] at hblank
      exact ih fun _ => hblank.1
    · have hspace : s.step ' ' = s := Scanner.step_blank (hpending hpend) rfl
      show (collapse (s.step c) true false w).2 = ((s.step ' ').step c).run _
      rw [hspace]
      exact ih fun h => by cases h
    · exact ih fun h => by cases h

/-- **A normalised text is balanced.** -/
theorem balanced_of_normalize {text sql : List Char} (h : normalize text = .ok sql) :
    Balanced sql := by
  have hlast : (collapse {} false false text).2 = Scanner.run {} (collapse {} false false text).1 :=
    collapse_run fun h => by cases h
  unfold normalize at h
  simp only [hlast] at h
  split_ifs at h with hclosing hdepth
  cases h
  apply (Scanner.sound_start.run _).eq_start
  · rw [Scanner.isTopLevel]
    simp_all
  · simp_all

/-- **Every clause found in a query is trimmed, not empty, and closes what it opens.** -/
theorem locateClauses_clauseText {text sql : List Char} {clauses : List (String × List Char)}
    (hsql : normalize text = .ok sql) (h : locateClauses sql = .ok clauses) :
    ∀ clause ∈ clauses, ClauseText clause.2 := by
  obtain ⟨rest, hselect, -, hchecked⟩ := locateClauses_eq_ok_iff.mp h
  have hrest : Balanced rest :=
    (balanced_of_cutKeyword? (clauseKeywords_plain "SELECT" (by decide))
      (balanced_of_normalize hsql) hselect).2
  exact checkClauses_clauseText
    (clausesAfter_balanced (fun keyword hmem => List.mem_of_mem_drop hmem) hrest) hchecked

end DocQuery.Grammar
