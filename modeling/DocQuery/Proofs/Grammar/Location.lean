import DocQuery.Proofs.Grammar.Literal

/-!
# DocQuery.Proofs.Grammar.Location — clauses found where they stand

A query is written as its clauses in their order, each after its keyword, with single spaces between
them.  If the text of no clause shows the first word of a keyword, exactly these clauses are found in
it (`locateClauses_queryText`), whichever of the optional ones are there.
-/

namespace DocQuery.Grammar

open Text (Trimmed isBlank isWordChar eqIgnoreCase)

/-! ## Keywords -/

/-- A keyword of a clause is one word, or one word before BY. -/
theorem clauseKeyword_spelling : ∀ k ∈ clauseKeywords,
    (k.toList = leadingWord k.toList ∨ k.toList = leadingWord k.toList ++ ' ' :: "BY".toList) ∧
      leadingWord k.toList ≠ [] ∧ (leadingWord k.toList).all isWordChar = true := by
  decide

theorem leadingWord_mem_clauseWords :
    ∀ k ∈ clauseKeywords.drop 1, leadingWord k.toList ∈ clauseWords ∧ leadingWord k.toList ≠ [] := by
  decide

theorem clauseKeywords_apart : ∀ k ∈ clauseKeywords, ∀ k' ∈ clauseKeywords.drop 1, k ≠ k' →
    eqIgnoreCase (leadingWord k.toList) (leadingWord k'.toList) = false := by
  decide

theorem by_not_leadingWord : ∀ k ∈ clauseKeywords.drop 1,
    eqIgnoreCase "BY".toList (leadingWord k.toList) = false := by
  decide

/-- A keyword shows none of some words if its own words are others. -/
theorem part_keyword {words : List (List Char)} {k : String} (hk : k ∈ clauseKeywords)
    (hwords : ∀ w ∈ words, eqIgnoreCase (leadingWord k.toList) w = false)
    (hby : ∀ w ∈ words, eqIgnoreCase "BY".toList w = false) (hnil : [] ∉ words) :
    Part [] words k.toList := by
  obtain ⟨hspelling, hne, hall⟩ := clauseKeyword_spelling k hk
  have hword : Part [] words (leadingWord k.toList) := Part.of_isWord (isWord_of_all hne hall) (by simp) hwords
  rcases hspelling with heq | heq
  · rw [heq]
    exact hword
  · have hby : Part [] words "BY".toList :=
      Part.of_isWord (isWord_of_all (by decide) (by decide)) (by simp) hby
    rw [heq]
    exact hword.spaced hby List.not_mem_nil hnil

/-- A keyword is not found in another one. -/
theorem part_otherKeyword {k k' : String} (hk : k ∈ clauseKeywords)
    (hk' : k' ∈ clauseKeywords.drop 1) (hne : k ≠ k') :
    Part [] [leadingWord k'.toList] k.toList := by
  apply part_keyword hk
  · exact List.forall_mem_singleton.mpr (clauseKeywords_apart k hk k' hk' hne)
  · exact List.forall_mem_singleton.mpr (by_not_leadingWord k' hk')
  · exact fun hmem => (leadingWord_mem_clauseWords k' hk').2 (List.mem_singleton.mp hmem).symm

/-! ## The text of clauses -/

/-- Clauses, each after a space. -/
def clausesText (clauses : List (String × List Char)) : List Char :=
  clauses.flatMap fun (keyword, text) => ' ' :: (keyword.toList ++ ' ' :: text)

theorem clausesText_cons (keyword : String) (text : List Char)
    (clauses : List (String × List Char)) : clausesText ((keyword, text) :: clauses) =
      ' ' :: (keyword.toList ++ ' ' :: (text ++ clausesText clauses)) := by
  simp [clausesText]

/-- The text of a query from the text of its select list on. -/
def queryText (select : List Char) (clauses : List (String × List Char)) : List Char :=
  "SELECT".toList ++ ' ' :: (select ++ clausesText clauses)

/-- Clauses in the order of their keywords, with texts that show none of these. -/
structure InOrder (clauses : List (String × List Char)) (keywords : List String) : Prop where
  order : (clauses.map Prod.fst).Sublist keywords
  texts : ∀ c ∈ clauses, Part [] clauseWords c.2

section Finding

variable {clauses : List (String × List Char)} {keywords : List String} {keyword : String}
  {text : List Char}

/-- A part followed by clauses, none of which has the keyword, does not show the keyword. -/
theorem clear_append_clausesText (hkeyword : keyword ∈ clauseKeywords.drop 1)
    (htext : Part [] [leadingWord keyword.toList] text)
    (hclauses : ∀ c ∈ clauses, c.1 ∈ clauseKeywords ∧ c.1 ≠ keyword ∧ Part [] clauseWords c.2) :
    Clear [] [leadingWord keyword.toList] (text ++ clausesText clauses) := by
  obtain ⟨hmem, hne⟩ := leadingWord_mem_clauseWords keyword hkeyword
  have hnil : [] ∉ [leadingWord keyword.toList] :=
    fun hmem => hne (List.mem_singleton.mp hmem).symm
  induction clauses generalizing text with
  | nil => simpa [clausesText] using htext.clear
  | cons c clauses ih =>
    obtain ⟨k, t⟩ := c
    obtain ⟨⟨hk, hother, ht⟩, hrest⟩ := List.forall_mem_cons.mp hclauses
    have ht : Part [] [leadingWord keyword.toList] t :=
      ht.mono (List.Subset.refl _) (List.cons_subset.mpr ⟨hmem, List.nil_subset _⟩)
    have hclause := (part_otherKeyword hk hkeyword hother).spaced ht List.not_mem_nil hnil
    have h := ih (htext.spaced hclause List.not_mem_nil hnil) hrest
    rw [clausesText_cons]
    simpa using h

/-- A keyword that no clause has is not found. -/
theorem cutKeyword?_absent {before : Option Char} (hkeyword : keyword ∈ clauseKeywords.drop 1)
    (htext : Part [] clauseWords text)
    (hclauses : ∀ c ∈ clauses, c.1 ∈ clauseKeywords ∧ c.1 ≠ keyword ∧ Part [] clauseWords c.2) :
    cutKeyword? keyword.toList before (' ' :: (text ++ clausesText clauses)) = none := by
  obtain ⟨hmem, hne⟩ := leadingWord_mem_clauseWords keyword hkeyword
  have hclear := clear_append_clausesText hkeyword
    (htext.mono (List.Subset.refl _) (List.cons_subset.mpr ⟨hmem, List.nil_subset _⟩)) hclauses
  have hspaced : Clear [] [leadingWord keyword.toList] (' ' :: (text ++ clausesText clauses)) :=
    hclear.cons ⟨by decide, by decide, by decide⟩ rfl List.not_mem_nil
      fun hmem => hne (List.mem_singleton.mp hmem).symm
  exact hspaced.cutKeyword?_eq_none List.mem_cons_self

/-- A keyword does not begin at a blank. -/
theorem cutKeyword?_blank {before : Option Char} {keyword rest : List Char}
    (hkeyword : leadingWord keyword ≠ []) :
    cutKeyword? keyword before (' ' :: rest) =
      (cutKeyword? keyword (some ' ') rest).map fun (skipped, r) => (' ' :: skipped, r) := by
  obtain ⟨c, keyword, rfl⟩ : ∃ c k, keyword = c :: k := by
    apply List.exists_cons_of_ne_nil
    rintro rfl
    exact hkeyword rfl
  have hnone : afterPattern? (c :: keyword) (' ' :: rest) = none := by
    rw [afterPattern?, if_neg]
    intro heq
    rw [toLower_eq_blank heq] at hkeyword
    exact hkeyword rfl
  have htest : TopAll (fun b t => (afterKeyword? (c :: keyword) b (t ++ rest)).map ((), ·) = none)
      {} before [' '] := by
    refine ⟨fun _ => ?_, trivial⟩
    show (afterKeyword? (c :: keyword) before (' ' :: rest)).map _ = none
    rw [afterKeyword?, hnone]
    split_ifs <;> rfl
  show cutKeyword? (c :: keyword) before ([' '] ++ rest) = _
  rw [cutKeyword?, findTop?_append htest, cutKeyword?, Option.map_map, Option.map_map]
  rfl

/-- The keyword of the next clause is found. -/
theorem cutKeyword?_present {before : Option Char} {rest : List Char}
    (hkeyword : keyword ∈ clauseKeywords.drop 1) (htext : Part [] clauseWords text) :
    cutKeyword? keyword.toList before (' ' :: (text ++ ' ' :: (keyword.toList ++ ' ' :: rest))) =
      some (' ' :: (text ++ [' ']), ' ' :: rest) := by
  obtain ⟨hmem, hne⟩ := leadingWord_mem_clauseWords keyword hkeyword
  have hkeyword_ne : keyword.toList ≠ [] := by
    intro hnil
    rw [hnil] at hne
    exact hne rfl
  rw [cutKeyword?_blank hne, htext.clear.cutKeyword?_append htext.balanced hmem rfl,
    cutKeyword?_blank hne, cutKeyword?_here hkeyword_ne rfl rfl]
  rfl

/-- **The clauses after a keyword are found**, up to the blanks around them. -/
theorem clausesAfter_clausesText (current : String) (hkeywords : keywords.Sublist (clauseKeywords.drop 1))
    (htext : Part [] clauseWords text) (hclauses : InOrder clauses keywords) :
    (clausesAfter current (' ' :: (text ++ clausesText clauses)) keywords).map
      (fun c => (c.1, Text.trim c.2)) = (current, text) :: clauses := by
  induction keywords generalizing current text clauses with
  | nil =>
    have hnone : clauses = [] := List.map_eq_nil_iff.mp (List.sublist_nil.mp hclauses.order)
    subst hnone
    have hblank : ∀ c ∈ [' '], isBlank c = true := by simp [isBlank]
    have htrim : Text.trim (' ' :: text) = text :=
      (Text.trim_blanks_append hblank).trans htext.trimmed.trim_eq
    simp [clausesAfter, clausesText, htrim]
  | cons keyword keywords ih =>
    have hkeyword : keyword ∈ clauseKeywords.drop 1 := hkeywords.subset List.mem_cons_self
    have hlater : keywords.Sublist (clauseKeywords.drop 1) := (List.sublist_cons_self _ _).trans hkeywords
    have hnodup : (keyword :: keywords).Nodup := hkeywords.nodup (by decide)
    rcases List.sublist_cons_iff.mp hclauses.order with habsent | ⟨rest, heq, hrest⟩
    · have hother : ∀ c ∈ clauses, c.1 ∈ clauseKeywords ∧ c.1 ≠ keyword ∧ Part [] clauseWords c.2 := by
        intro c hc
        have hlater' := habsent.subset (List.mem_map_of_mem (f := Prod.fst) hc)
        refine ⟨List.mem_of_mem_drop (hlater.subset hlater'), ?_, hclauses.texts c hc⟩
        rintro rfl
        exact (List.nodup_cons.mp hnodup).1 hlater'
      rw [clausesAfter, cutKeyword?_absent hkeyword htext hother]
      exact ih current hlater htext ⟨habsent, hclauses.texts⟩
    · obtain ⟨⟨k, t⟩, clauses, rfl, rfl, rfl⟩ := List.map_eq_cons_iff.mp heq
      obtain ⟨ht, htexts⟩ := List.forall_mem_cons.mp hclauses.texts
      rw [clausesAfter, clausesText_cons, cutKeyword?_present hkeyword htext]
      dsimp only
      rw [List.map_cons, ih _ hlater ht ⟨hrest, htexts⟩]
      have hblank : ∀ c ∈ [' '], isBlank c = true := by simp [isBlank]
      have htrim : Text.trim (' ' :: (text ++ [' '])) = text :=
        (Text.trim_blanks_append hblank).trans (htext.trimmed.trim_append_blanks hblank)
      simp only [htrim]

/-- **Exactly the clauses that a query is written with are found in it.** -/
theorem locateClauses_queryText (htext : Part [] clauseWords text)
    (hclauses : InOrder clauses (clauseKeywords.drop 1)) (hfrom : "FROM" ∈ clauses.map Prod.fst) :
    locateClauses (queryText text clauses) = .ok (("SELECT", text) :: clauses) := by
  have hselect : cutKeyword? "SELECT".toList none (queryText text clauses) =
      some ([], ' ' :: (text ++ clausesText clauses)) :=
    cutKeyword?_here (by decide) rfl rfl
  have hfound := clausesAfter_clausesText "SELECT" (List.Sublist.refl _) htext hclauses
  have hany : ((clausesAfter "SELECT" (' ' :: (text ++ clausesText clauses))
      (clauseKeywords.drop 1)).any fun c => c.1 == "FROM") = true := by
    have hfst := congrArg (List.map Prod.fst) hfound
    rw [List.map_map] at hfst
    have hmem : "FROM" ∈ (clausesAfter "SELECT" (' ' :: (text ++ clausesText clauses))
        (clauseKeywords.drop 1)).map Prod.fst := by
      rw [show Prod.fst ∘ (fun c : String × List Char => (c.1, Text.trim c.2)) = Prod.fst from rfl]
        at hfst
      rw [hfst]
      exact List.mem_cons_of_mem _ hfrom
    obtain ⟨c, hc, heq⟩ := List.mem_map.mp hmem
    exact List.any_eq_true.mpr ⟨c, hc, beq_iff_eq.mpr heq⟩
  have hne : ∀ c ∈ clausesAfter "SELECT" (' ' :: (text ++ clausesText clauses))
      (clauseKeywords.drop 1), Text.trim c.2 ≠ [] := by
    intro c hc
    have hmem := List.mem_map_of_mem (f := fun c : String × List Char => (c.1, Text.trim c.2)) hc
    rw [hfound] at hmem
    rcases List.mem_cons.mp hmem with heq | hmem
    · rw [show Text.trim c.2 = text from congrArg Prod.snd heq]
      exact htext.trimmed.nonempty
    · exact (hclauses.texts _ hmem).trimmed.nonempty
  exact locateClauses_eq_ok_iff.mpr
    ⟨_, hselect, hany, checkClauses_eq_ok_iff.mpr ⟨hne, hfound.symm⟩⟩

/-- **The text of a query is a part.** -/
theorem part_queryText (htext : Part [] clauseWords text)
    (hclauses : InOrder clauses (clauseKeywords.drop 1)) : Part [] [] (queryText text clauses) := by
  have hkeyword {k : String} (hk : k ∈ clauseKeywords) : Part [] [] k.toList :=
    part_keyword hk (by simp) (by simp) List.not_mem_nil
  have happend (cs : List (String × List Char)) (hcs : ∀ c ∈ cs, c.1 ∈ clauseKeywords ∧
      Part [] clauseWords c.2) {w : List Char} (hw : Part [] [] w) : Part [] [] (w ++ clausesText cs) := by
    induction cs generalizing w with
    | nil => simpa [clausesText] using hw
    | cons c cs ih =>
      obtain ⟨k, t⟩ := c
      obtain ⟨⟨hk, ht⟩, hrest⟩ := List.forall_mem_cons.mp hcs
      have ht : Part [] [] t := ht.mono (List.Subset.refl _) (List.nil_subset _)
      have hclause := (hkeyword hk).spaced ht List.not_mem_nil List.not_mem_nil
      have h := ih hrest (hw.spaced hclause List.not_mem_nil List.not_mem_nil)
      rw [clausesText_cons]
      simpa using h
  have hselect := (hkeyword (show "SELECT" ∈ clauseKeywords by decide)).spaced
    (htext.mono (List.Subset.refl _) (List.nil_subset _)) List.not_mem_nil List.not_mem_nil
  have h := happend clauses (fun c hc => ⟨List.mem_of_mem_drop (hclauses.order.subset
    (List.mem_map_of_mem hc)), hclauses.texts c hc⟩) hselect
  simpa [queryText] using h

end Finding

end DocQuery.Grammar
