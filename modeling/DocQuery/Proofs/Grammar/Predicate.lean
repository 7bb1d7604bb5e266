import DocQuery.Proofs.Grammar.Reference

/-!
# DocQuery.Proofs.Grammar.Predicate — filters read back

Over one table with plain names, a filter of any nesting is written as a text that is read as the
same filter again (`reads_filter`).  A comparison is found by the first operator at top level, because
no item shows one; a group stands in parentheses, and its parts show neither connective outside of
their own.
-/

namespace DocQuery

open Grammar

/-- A value that a comparison with an item may hold: plain, and not changed by the type of the item. -/
structure Value.Fits (i : Item) (v : Value) : Prop where
  plain : v.IsPlain
  coerce : Grammar.coerce v i.expectedType? = v

/-- A filter over one table under a label: comparisons of its items with values, lists of values and
items, and groups of two or more such filters to any depth. -/
inductive Filter.IsOver (t : Table) (label : String) : Filter → Prop
  | value {i : Item} {op : Comparison} {v : Value} (hi : i.IsOver t label) (hop : op.isList = false)
      (hv : v.Fits i) : IsOver t label (.comparison i op (.value v))
  | list {i : Item} {op : Comparison} {vs : List Value} (hi : i.IsOver t label)
      (hop : op.isList = true) (hvs : ∀ v ∈ vs, v.Fits i) :
      IsOver t label (.comparison i op (.list vs))
  | item {i j : Item} {op : Comparison} (hi : i.IsOver t label) (hop : op.isList = false)
      (hj : j.IsOver t label) : IsOver t label (.comparison i op (.item j))
  | group (op : Connective) {children : List Filter} (hlength : 2 ≤ children.length)
      (hchildren : ∀ f ∈ children, IsOver t label f) : IsOver t label (.group op children)

namespace Grammar

open Text (Trimmed isBlank isWordChar eqIgnoreCase)

/-! ## Endings -/

/-- A text has an ending in any case if it has it in lower case. -/
theorem beforeEnding?_eq_none {ending text : List Char}
    (h : ¬ ending.map Char.toLower <:+ text.map Char.toLower) : beforeEnding? ending text = none := by
  unfold beforeEnding?
  dsimp only
  rw [if_neg]
  rintro ⟨-, heq⟩
  apply h
  rw [← beq_iff_eq.mp heq, List.map_drop]
  exact List.drop_suffix _ _

theorem beforeEnding?_append (text ending : List Char) :
    beforeEnding? ending (text ++ ending) = some text := by
  have hlength : (text ++ ending).length - ending.length = text.length := by simp
  unfold beforeEnding?
  dsimp only
  rw [hlength, List.drop_left, List.take_left, if_pos]
  exact ⟨by simp, beq_self_eq_true _⟩

theorem last_of_suffix {ending text : List Char} {c : Char} (hc : ending.getLast? = some c)
    (h : ending <:+ text) : text.getLast? = some c := by
  obtain ⟨u, rfl⟩ := h
  rw [List.getLast?_append, hc]
  rfl

/-- A text has one last word. -/
theorem lastWord_eq {u v w : List Char} (hv : ' ' ∉ v) (hw : ' ' ∉ w)
    (h : ' ' :: v <:+ u ++ ' ' :: w) : v = w := by
  rcases List.suffix_or_suffix_of_suffix h (List.suffix_append u (' ' :: w)) with hshort | hshort
  · rcases List.suffix_cons_iff.mp hshort with heq | hsuffix
    · exact (List.cons.inj heq).2
    · exact absurd (hsuffix.subset List.mem_cons_self) hw
  · rcases List.suffix_cons_iff.mp hshort with heq | hsuffix
    · exact (List.cons.inj heq).2.symm
    · exact absurd (hsuffix.subset List.mem_cons_self) hv

/-! ## Tests for null -/

section NullTests

variable {left text : List Char}

/-- The endings of tests for null in lower case. -/
theorem nullEnding_spelling {ending : List Char}
    (h : ending ∈ [" IS NOT NULL".toList, " IS NULL".toList]) :
    ∃ e c, ending.map Char.toLower = (e ++ [c]) ++ " null".toList ∧ (c = 's' ∨ c = 't') := by
  rcases List.mem_pair.mp h with rfl | rfl
  · exact ⟨" is no".toList, 't', rfl, Or.inr rfl⟩
  · exact ⟨" i".toList, 's', rfl, Or.inl rfl⟩

/-- A text that has neither ending is no test for null. -/
theorem nullTest?_eq_none
    (h : ∀ e c, (c = 's' ∨ c = 't') → ¬ (e ++ [c]) ++ " null".toList <:+ text.map Char.toLower) :
    nullTest? text = none := by
  have hnone (ending : List Char) (hending : ending ∈ [" IS NOT NULL".toList, " IS NULL".toList]) :
      beforeEnding? ending text = none := by
    obtain ⟨e, c, he, hc⟩ := nullEnding_spelling hending
    apply beforeEnding?_eq_none
    rw [he]
    exact h e c hc
  unfold nullTest?
  rw [hnone _ List.mem_cons_self, hnone _ (List.mem_cons_of_mem _ List.mem_cons_self)]
  rfl

theorem nullTest?_of_last {c : Char} (hc : text.getLast? = some c) (hne : c.toLower ≠ 'l') :
    nullTest? text = none := by
  apply nullTest?_eq_none
  intro e d _ hsuffix
  have htext := last_of_suffix (c := 'l') (by simp) hsuffix
  rw [List.getLast?_map, hc] at htext
  exact hne (Option.some.inj htext)

/-- A text whose last word is not NULL is no test for null. -/
theorem nullTest?_of_word {w : List Char} (hw : ' ' ∉ w)
    (hnull : eqIgnoreCase w "NULL".toList = false) : nullTest? (left ++ ' ' :: w) = none := by
  apply nullTest?_eq_none
  intro e c _ hsuffix
  rw [List.map_append, List.map_cons] at hsuffix
  have hblank : ' ' ∉ w.map Char.toLower := by
    intro hmem
    obtain ⟨c, hc, hlower⟩ := List.mem_map.mp hmem
    rw [toLower_eq_blank hlower] at hc
    exact hw hc
  have heq := lastWord_eq (by decide) hblank ((List.suffix_append _ _).trans hsuffix)
  rw [eqIgnoreCase, ← heq] at hnull
  cases hnull

/-- A text that has NULL after a word other than IS and NOT is no test for null. -/
theorem nullTest?_of_null {c : Char} (hlast : left.getLast? = some c)
    (hs : c.toLower ≠ 's') (ht : c.toLower ≠ 't') :
    nullTest? (left ++ ' ' :: "NULL".toList) = none := by
  apply nullTest?_eq_none
  intro e d hd hsuffix
  rw [List.map_append, show (' ' :: "NULL".toList).map Char.toLower = " null".toList from rfl,
    List.suffix_append_self_iff] at hsuffix
  have hleft := last_of_suffix (c := d) (by simp) hsuffix
  rw [List.getLast?_map, hlast] at hleft
  obtain rfl := Option.some.inj hleft
  exact hd.elim hs ht

end NullTests

/-! ## Operators -/

section Operators

variable {left right : List Char}

/-- A spelling begins with a mark, or with a blank and one of the words that comparisons are cut at. -/
theorem comparisonSpelling_shape : ∀ spelling ∈ comparisonSpellings,
    (cuttingMarks.any fun m => spelling.1.head? == some m) = true ∨
      (spelling.1.head? = some ' ' ∧ ' ' ∈ spelling.1.tail ∧
        leadingWord spelling.1.tail ∈ cuttingWords) := by
  decide

theorem cuttingMarks_plain : ∀ m ∈ cuttingMarks, m.toLower = m ∧ m.isAlpha = false := by
  have hall : (cuttingMarks.all fun m => m.toLower == m && !m.isAlpha) = true := by decide
  intro m hm
  simpa using List.all_eq_true.mp hall m hm

theorem TopAll.forall_mem {ι : Type} {l : List ι} {P : ι → Option Char → List Char → Prop}
    {s : Scanner} {before : Option Char} {w : List Char} (h : ∀ i ∈ l, TopAll (P i) s before w) :
    TopAll (fun b t => ∀ i ∈ l, P i b t) s before w := by
  induction w generalizing s before with
  | nil => trivial
  | cons c w ih => exact ⟨fun htop i hi => (h i hi).1 htop, ih fun i hi => (h i hi).2⟩

/-- No operator is found within an item. -/
theorem topAll_comparisonSpellings (hleft : Part cuttingMarks cuttingWords left) {rest : List Char}
    (hrest : touchesWord rest.head? = false) (before : Option Char) :
    TopAll (fun _ t => ∀ spelling ∈ comparisonSpellings,
      afterPattern? spelling.1 (t ++ rest) = none) {} before left := by
  apply TopAll.forall_mem
  rintro ⟨p, op⟩ hmem
  rcases comparisonSpelling_shape _ hmem with hmark | ⟨hhead, hblank, hword⟩
  · obtain ⟨m, hm, hhead⟩ := List.any_eq_true.mp hmark
    obtain ⟨p, rfl⟩ := List.head?_eq_some_iff.mp (beq_iff_eq.mp hhead)
    obtain ⟨hlower, halpha⟩ := cuttingMarks_plain m hm
    exact hleft.clear.afterMark?_eq_none hm hlower halpha before rest
  · obtain ⟨p, rfl⟩ := List.head?_eq_some_iff.mp hhead
    have hlast : left.getLast? ≠ some ' ' := fun hlast => by
      have hfalse := hleft.trimmed.last ' ' hlast
      cases hfalse
    exact hleft.clear.afterSpaced?_eq_none hblank hword hlast before rest hrest

/-- Where the operator stands, it is found. -/
theorem findTop?_operator (op : Comparison) (before : Option Char) (right : List Char) :
    ∃ l r, findTop? (fun _ t => comparisonSpellings.findSome? fun (p, a) =>
        (afterPattern? p t).map (a, ·)) {} before (' ' :: (op.sql.toList ++ ' ' :: right)) =
      some (l, op, r) ∧ (∀ c ∈ l, isBlank c = true) ∧ (r = right ∨ r = ' ' :: right) := by
  have hblank : ∀ c ∈ [' '], isBlank c = true := by simp [isBlank]
  have hnil : ∀ c ∈ ([] : List Char), isBlank c = true := by simp
  cases op with
  | equal => exact ⟨[' '], _, rfl, hblank, Or.inr rfl⟩
  | different => exact ⟨[' '], _, rfl, hblank, Or.inr rfl⟩
  | less => exact ⟨[' '], _, rfl, hblank, Or.inr rfl⟩
  | atMost => exact ⟨[' '], _, rfl, hblank, Or.inr rfl⟩
  | greater => exact ⟨[' '], _, rfl, hblank, Or.inr rfl⟩
  | atLeast => exact ⟨[' '], _, rfl, hblank, Or.inr rfl⟩
  | like => exact ⟨[], _, rfl, hnil, Or.inl rfl⟩
  | notLike => exact ⟨[], _, rfl, hnil, Or.inl rfl⟩
  | isIn => exact ⟨[], _, rfl, hnil, Or.inl rfl⟩
  | notIn => exact ⟨[], _, rfl, hnil, Or.inl rfl⟩

/-- The text of a comparison: an item, an operator, and what the item is compared with. -/
def comparisonText (left : List Char) (op : Comparison) (right : List Char) : List Char :=
  left ++ ' ' :: (op.sql.toList ++ ' ' :: right)

/-- **A comparison is cut at its operator.** -/
theorem cutFirst?_comparisonText (op : Comparison) (hleft : Part cuttingMarks cuttingWords left)
    (hright : Trimmed right) :
    ∃ l r, cutFirst? comparisonSpellings (comparisonText left op right) = some (l, op, r) ∧
      Text.trim l = left ∧ Text.trim r = right := by
  have hnone : ∀ rest, rest = ' ' :: (op.sql.toList ++ ' ' :: right) →
      TopAll (fun _ t => ∀ spelling ∈ comparisonSpellings,
        afterPattern? spelling.1 (t ++ rest) = none) {} none left := by
    rintro rest rfl
    exact topAll_comparisonSpellings hleft rfl none
  have htest : TopAll (fun _ t => (comparisonSpellings.findSome? fun (p, a) =>
      (afterPattern? p (t ++ ' ' :: (op.sql.toList ++ ' ' :: right))).map (a, ·)) = none)
        {} none left := by
    refine TopAll.mono ?_ (hnone _ rfl)
    intro b t _ hnone
    apply List.findSome?_eq_none_iff.mpr
    intro spelling hmem
    dsimp only
    rw [hnone spelling hmem]
    rfl
  obtain ⟨l, r, hfind, hl, hr⟩ := findTop?_operator op (lastOr none left) right
  refine ⟨left ++ l, r, ?_, hleft.trimmed.trim_append_blanks hl, ?_⟩
  · rw [cutFirst?, comparisonText, findTop?_append htest, hleft.balanced, hfind]
    rfl
  · rcases hr with rfl | rfl
    · exact hright.trim_eq
    · have hblank : ∀ c ∈ [' '], isBlank c = true := by simp [isBlank]
      exact (Text.trim_blanks_append hblank).trans hright.trim_eq

/-- The spellings of operators are made of symbols or of words. -/
theorem part_operator (op : Comparison) : Part [] structuralWords op.sql.toList := by
  have hword {w : List Char} (hw : IsWord w) (hwords : ∀ k ∈ structuralWords, eqIgnoreCase w k = false) :
      Part [] structuralWords w :=
    Part.of_isWord hw (by simp) hwords
  have hsymbols {w : List Char} (hne : w ≠ []) (hw : w ⊆ ['=', '<', '>']) :
      Part [] structuralWords w := by
    apply Part.of_symbols hne nil_not_mem_structuralWords
    intro c hc
    have hc : c = '=' ∨ c = '<' ∨ c = '>' := by simpa using hw hc
    rcases hc with rfl | rfl | rfl
    all_goals exact ⟨⟨by decide, by decide, by decide⟩, rfl, rfl, List.not_mem_nil⟩
  have hnot : Part [] structuralWords "NOT".toList := hword (isWord_of_all (by decide) (by decide)) (by decide)
  have hlike : Part [] structuralWords "LIKE".toList := hword (isWord_of_all (by decide) (by decide)) (by decide)
  have hin : Part [] structuralWords "IN".toList := hword (isWord_of_all (by decide) (by decide)) (by decide)
  cases op with
  | like => exact hlike
  | isIn => exact hin
  | notLike => exact hnot.spaced hlike List.not_mem_nil nil_not_mem_structuralWords
  | notIn => exact hnot.spaced hin List.not_mem_nil nil_not_mem_structuralWords
  | _ => exact hsymbols (by decide) (by decide)

theorem part_comparisonText (op : Comparison) (hleft : Part [] structuralWords left)
    (hright : Part [] structuralWords right) :
    Part [] structuralWords (comparisonText left op right) :=
  hleft.spaced
    ((part_operator op).spaced hright List.not_mem_nil nil_not_mem_structuralWords)
    List.not_mem_nil nil_not_mem_structuralWords

/-- What follows an operator does not make a comparison a test for null. -/
structure NoNull (right : List Char) : Prop where
  nonempty : right ≠ []
  ending : (∃ c, right.getLast? = some c ∧ c.toLower ≠ 'l') ∨
    (' ' ∉ right ∧ eqIgnoreCase right "NULL".toList = false) ∨ right = "NULL".toList

theorem nullTest?_comparisonText (op : Comparison) (hright : NoNull right) :
    nullTest? (comparisonText left op right) = none := by
  have htext : comparisonText left op right = (left ++ ' ' :: op.sql.toList) ++ ' ' :: right := by
    simp [comparisonText]
  rcases hright.ending with ⟨c, hc, hl⟩ | ⟨hblank, hnull⟩ | rfl
  · refine nullTest?_of_last (c := c) ?_ hl
    rw [htext, List.getLast?_append_of_ne_nil _ (List.cons_ne_nil _ _),
      List.getLast?_cons_of_ne_nil hright.nonempty, hc]
  · rw [htext]
    exact nullTest?_of_word hblank hnull
  · have hlast : ∃ c, op.sql.toList.getLast? = some c ∧ c.toLower ≠ 's' ∧ c.toLower ≠ 't' := by
      cases op <;> exact ⟨_, rfl, by decide, by decide⟩
    obtain ⟨c, hc, hs, ht⟩ := hlast
    have hne : op.sql.toList ≠ [] := by
      intro hnil
      rw [hnil] at hc
      cases hc
    rw [htext]
    refine nullTest?_of_null (c := c) ?_ hs ht
    rw [List.getLast?_append_of_ne_nil _ (List.cons_ne_nil _ _), List.getLast?_cons_of_ne_nil hne, hc]

end Operators

/-! ## Operands -/

section Operands

variable {t : Table} {aliasName : Option String} {q : Query} {i j : Item} {v : Value}
  {vs : List Value} {op : Comparison} {failure : QueryError}

theorem getLast?_toDigits (n : Nat) : ∃ c, (Nat.toDigits 10 n).getLast? = some c ∧ c.isDigit = true := by
  obtain ⟨c, hc⟩ : ∃ c, (Nat.toDigits 10 n).getLast? = some c :=
    ⟨_, List.getLast?_eq_some_getLast Nat.toDigits_ne_nil⟩
  exact ⟨c, hc, isDigit_of_mem_toDigits (List.mem_of_getLast? hc)⟩

/-- The literal of a plain value is NULL or does not end like it. -/
theorem last_literal (hv : v.IsPlain) :
    v = .null ∨ ∃ c, v.literal.toList.getLast? = some c ∧ c.toLower ≠ 'l' := by
  cases v with
  | null => exact Or.inl rfl
  | boolean b => cases b <;> exact Or.inr ⟨'E', rfl, by decide⟩
  | number n =>
    cases n with
    | integer i =>
      obtain ⟨c, hc, hdigit⟩ := getLast?_toDigits i.toInt.natAbs
      refine Or.inr ⟨c, ?_, ?_⟩
      · show (toString i.toInt).toList.getLast? = some c
        rw [toList_toString_int, List.getLast?_append_of_ne_nil _ Nat.toDigits_ne_nil, hc]
      · rw [isDigit_toLower hdigit]
        rintro rfl
        cases hdigit
    | float x => cases hv
  | text s =>
    refine Or.inr ⟨'\'', ?_, by decide⟩
    rw [Value.literal, toList_quoted]
    simp [quoted, List.getLast?_cons]
  | temporal m => cases hv
  | nested j => cases hv

theorem noNull_literal (hv : v.IsPlain) : NoNull v.literal.toList := by
  refine ⟨(part_literal hv).trimmed.nonempty, ?_⟩
  rcases last_literal hv with rfl | hlast
  · exact Or.inr (Or.inr rfl)
  · exact Or.inl hlast

theorem noNull_enclosed (w : List Char) : NoNull (enclosed w) :=
  ⟨List.cons_ne_nil _ _, Or.inl ⟨')', by simp [enclosed, List.getLast?_cons], by decide⟩⟩

theorem ItemText.noNull {w : List Char} (h : ItemText w) : NoNull w := by
  obtain ⟨a, rest, hw, -⟩ := h.first
  refine ⟨by rw [hw]; exact List.cons_ne_nil _ _, ?_⟩
  rcases h.ending with hword | hlast
  · exact Or.inr (Or.inl ⟨hword.not_mem rfl, h.unreserved _ (by decide)⟩)
  · exact Or.inl ⟨')', hlast, by decide⟩

/-- The literals of a list as one text. -/
def listText (vs : List Value) : List Char :=
  [',', ' '].intercalate (vs.map fun v => v.literal.toList)

theorem toList_listSql (vs : List Value) : (Operand.list vs).sql.toList = enclosed (listText vs) := by
  simp [Operand.sql, Text.joinWith, enclosed, listText, String.toList_intercalate,
    Function.comp_def]

theorem part_listText (hvs : ∀ v ∈ vs, v.IsPlain) :
    listText vs = [] ∨ Part [] cuttingWords (listText vs) := by
  cases vs with
  | nil => exact Or.inl rfl
  | cons v vs =>
    refine Or.inr (Part.commas (by simp) ?_ List.not_mem_nil List.not_mem_nil nil_not_mem_cuttingWords)
    intro w hw
    obtain ⟨u, hu, rfl⟩ := List.mem_map.mp hw
    exact (part_literal (hvs u hu)).mono (List.nil_subset _) (List.Subset.refl _)

theorem splitOn_listText (hvs : ∀ v ∈ vs, v.IsPlain) :
    splitOn [','] (listText vs) = vs.map fun v => v.literal.toList := by
  have hparts : ∀ w ∈ vs.map fun v => v.literal.toList, Part cuttingMarks cuttingWords w := by
    intro w hw
    obtain ⟨u, hu, rfl⟩ := List.mem_map.mp hw
    exact part_literal (hvs u hu)
  exact splitOn_commas hparts (by decide)

theorem readValues_literals (hvs : ∀ v ∈ vs, v.Fits i) :
    readValues failure i.expectedType? (vs.map fun v => v.literal.toList) = .ok vs := by
  induction vs with
  | nil => rfl
  | cons v vs ih =>
    have hv := hvs v List.mem_cons_self
    rw [List.map_cons, readValues, readLiteral?_literal hv.plain]
    simp only [ih fun w hw => hvs w (List.mem_cons_of_mem _ hw), hv.coerce]
    rfl

theorem expectedType?_copy (i : Item) (id : Nat) :
    ({ i with id := id } : Item).expectedType? = i.expectedType? := by
  obtain ⟨_, source, _, _, _, _, _⟩ := i
  cases source <;> rfl

/-- A literal is read as its value. -/
theorem reads_value (hop : op.isList = false) (hv : v.Fits i) (id : Nat) :
    Reads (readOperand q failure { i with id := id } op v.literal.toList) fun x =>
      x.same (.value v) = true := by
  have hquestion : v.literal.toList ≠ ['?'] := by
    intro heq
    have hread := readLiteral?_literal hv.plain
    rw [heq] at hread
    cases hread
  have hread : readOperand q failure { i with id := id } op v.literal.toList =
      pure (.value v) := by
    unfold readOperand
    simp only [if_neg hquestion, hop, Bool.false_eq_true, if_false, readLiteral?_literal hv.plain,
      expectedType?_copy, hv.coerce, ite_self]
  rw [hread]
  exact Reads.pure hv.plain.same_self

/-- A list in parentheses is read as its values. -/
theorem reads_list (hop : op.isList = true) (hvs : ∀ v ∈ vs, v.Fits i) (id : Nat) :
    Reads (readOperand q failure { i with id := id } op (enclosed (listText vs))) fun x =>
      x.same (.list vs) = true := by
  have hplain : ∀ v ∈ vs, v.IsPlain := fun v hv => (hvs v hv).plain
  have hquestion : enclosed (listText vs) ≠ ['?'] := by
    intro heq
    cases (List.cons.inj heq).1
  have hunwrap : unwrap? (enclosed (listText vs)) = some (listText vs) := by
    rcases part_listText hplain with hnil | hpart
    · rw [hnil]
      rfl
    · rw [enclosed, unwrap?_group hpart.balanced, hpart.trimmed.trim_eq]
  have hread : readOperand q failure { i with id := id } op (enclosed (listText vs)) =
      pure (.list vs) := by
    unfold readOperand
    simp only [if_neg hquestion, hop, if_true, hunwrap, splitOn_listText hplain, expectedType?_copy,
      readValues_literals hvs]
    rfl
  rw [hread]
  exact Reads.pure (sameParameters_self hplain)

/-- An item is read as itself. -/
theorem reads_otherItem (h : PlainSource t aliasName) (hq : ReadOver q t aliasName)
    (hop : op.isList = false) (hj : j.IsOver t (labelOf t aliasName)) :
    Reads (readOperand q failure i op j.sqlWithoutAlias.toList) fun x =>
      x.same (.item j) = true := by
  have hpart := part_item h hj
  have htext := itemText_sql h hj
  have hquestion : j.sqlWithoutAlias.toList ≠ ['?'] := htext.head_ne rfl []
  have hread : readOperand q failure i op j.sqlWithoutAlias.toList =
      Operand.item <$> makeFound (resolveReference q j.sqlWithoutAlias.toList) failure := by
    unfold readOperand
    simp only [if_neg hquestion, hop, Bool.false_eq_true, if_false,
      htext.readLiteral?_eq_none hpart.trimmed, hpart.trimmed.trim_eq]
    rw [map_eq_pure_bind]
  rw [hread]
  apply (reads_item h hq hj failure).map
  rintro _ ⟨id, rfl⟩
  exact same_of_isOver hj id

end Operands

/-! ## Comparisons -/

section Comparisons

variable {t : Table} {aliasName : Option String} {q : Query} {clause : String} {i j : Item}
  {v : Value} {vs : List Value} {op : Comparison} {operand : Operand} {right : List Char}

theorem toList_comparisonSql (i : Item) (op : Comparison) (operand : Operand) :
    (i.sqlWithoutAlias ++ " " ++ op.sql ++ " " ++ operand.sql).toList =
      comparisonText i.sqlWithoutAlias.toList op operand.sql.toList := by
  simp [comparisonText]

/-- A comparison with a value is a test for null or is written with its operator. -/
theorem toList_valueSql (i : Item) (hop : op.isList = false) (v : Value) :
    ((op, v) = (.equal, .null) ∧
      (Filter.comparison i op (.value v)).sql.toList = i.sqlWithoutAlias.toList ++ " IS NULL".toList) ∨
    ((op, v) = (.different, .null) ∧
      (Filter.comparison i op (.value v)).sql.toList =
        i.sqlWithoutAlias.toList ++ " IS NOT NULL".toList) ∨
    (Filter.comparison i op (.value v)).sql.toList =
      comparisonText i.sqlWithoutAlias.toList op v.literal.toList := by
  have hplain := toList_comparisonSql i op (.value v)
  cases op with
  | isIn => cases hop
  | notIn => cases hop
  | equal =>
    cases v with
    | null => exact Or.inl ⟨rfl, String.toList_append⟩
    | _ => exact Or.inr (Or.inr hplain)
  | different =>
    cases v with
    | null => exact Or.inr (Or.inl ⟨rfl, String.toList_append⟩)
    | _ => exact Or.inr (Or.inr hplain)
  | _ => exact Or.inr (Or.inr hplain)

theorem toList_listFilterSql (i : Item) (op : Comparison) (vs : List Value) :
    (Filter.comparison i op (.list vs)).sql.toList =
      comparisonText i.sqlWithoutAlias.toList op (enclosed (listText vs)) := by
  rw [← toList_listSql, ← toList_comparisonSql]
  cases op <;> rfl

theorem toList_itemFilterSql (i : Item) (op : Comparison) (j : Item) :
    (Filter.comparison i op (.item j)).sql.toList =
      comparisonText i.sqlWithoutAlias.toList op j.sqlWithoutAlias.toList := by
  rw [← show (Operand.item j).sql = j.sqlWithoutAlias from rfl, ← toList_comparisonSql]
  cases op <;> rfl

/-- **A comparison is read back** as soon as what follows its operator is. -/
theorem reads_comparisonText (h : PlainSource t aliasName) (hq : ReadOver q t aliasName)
    (hi : i.IsOver t (labelOf t aliasName)) (hright : NoNull right) (htrimmed : Trimmed right)
    (hoperand : ∀ id failure, Reads (readOperand q failure { i with id := id } op right) fun x =>
      x.same operand = true) :
    Reads (readComparison q clause (comparisonText i.sqlWithoutAlias.toList op right)) fun g =>
      g.same (.comparison i op operand) = true := by
  obtain ⟨l, r, hcut, hl, hr⟩ := cutFirst?_comparisonText op (part_item h hi) htrimmed
  unfold readComparison
  simp only [nullTest?_comparisonText op hright, hcut, hl, hr]
  apply (reads_item h hq hi _).bind
  rintro _ ⟨id, rfl⟩
  apply (hoperand id _).bind
  intro x hx
  apply Reads.pure
  rw [Filter.same, same_of_isOver hi, hx, beq_self_eq_true]
  rfl

theorem nullTest?_isNull (left : List Char) :
    nullTest? (left ++ " IS NULL".toList) = some (left, .equal) := by
  have hnot : beforeEnding? " IS NOT NULL".toList (left ++ " IS NULL".toList) = none := by
    apply beforeEnding?_eq_none
    rw [List.map_append, show " IS NULL".toList.map Char.toLower = " is".toList ++ " null".toList from rfl,
      ← List.append_assoc, show " IS NOT NULL".toList.map Char.toLower =
        " is not".toList ++ " null".toList from rfl, List.suffix_append_self_iff]
    intro hsuffix
    have hlast := last_of_suffix (c := 't') rfl hsuffix
    rw [List.getLast?_append] at hlast
    cases hlast
  rw [nullTest?, hnot, beforeEnding?_append]
  rfl

theorem nullTest?_isNotNull (left : List Char) :
    nullTest? (left ++ " IS NOT NULL".toList) = some (left, .different) := by
  rw [nullTest?, beforeEnding?_append]
  rfl

/-- A test for null is read back. -/
theorem reads_nullTest (h : PlainSource t aliasName) (hq : ReadOver q t aliasName)
    (hi : i.IsOver t (labelOf t aliasName)) {text : List Char}
    (htest : nullTest? text = some (i.sqlWithoutAlias.toList, op)) :
    Reads (readComparison q clause text) fun g =>
      g.same (.comparison i op (.value .null)) = true := by
  unfold readComparison
  simp only [htest, (part_item h hi).trimmed.trim_eq]
  apply (reads_item h hq hi _).bind
  rintro _ ⟨id, rfl⟩
  apply Reads.pure
  rw [Filter.same, same_of_isOver hi, beq_self_eq_true]
  rfl

theorem reads_valueComparison (h : PlainSource t aliasName) (hq : ReadOver q t aliasName)
    (hi : i.IsOver t (labelOf t aliasName)) (hop : op.isList = false) (hv : v.Fits i) :
    Reads (readComparison q clause (Filter.comparison i op (.value v)).sql.toList) fun g =>
      g.same (.comparison i op (.value v)) = true := by
  rcases toList_valueSql i hop v with ⟨heq, htext⟩ | ⟨heq, htext⟩ | htext
  · cases heq
    rw [htext]
    exact reads_nullTest h hq hi (nullTest?_isNull _)
  · cases heq
    rw [htext]
    exact reads_nullTest h hq hi (nullTest?_isNotNull _)
  · rw [htext]
    apply reads_comparisonText h hq hi (noNull_literal hv.plain) (part_literal hv.plain).trimmed
    exact fun id failure => reads_value hop hv id

theorem reads_listComparison (h : PlainSource t aliasName) (hq : ReadOver q t aliasName)
    (hi : i.IsOver t (labelOf t aliasName)) (hop : op.isList = true) (hvs : ∀ v ∈ vs, v.Fits i) :
    Reads (readComparison q clause (Filter.comparison i op (.list vs)).sql.toList) fun g =>
      g.same (.comparison i op (.list vs)) = true := by
  rw [toList_listFilterSql]
  apply reads_comparisonText h hq hi (noNull_enclosed _) (trimmed_group _)
  exact fun id failure => reads_list hop hvs id

theorem reads_itemComparison (h : PlainSource t aliasName) (hq : ReadOver q t aliasName)
    (hi : i.IsOver t (labelOf t aliasName)) (hop : op.isList = false)
    (hj : j.IsOver t (labelOf t aliasName)) :
    Reads (readComparison q clause (Filter.comparison i op (.item j)).sql.toList) fun g =>
      g.same (.comparison i op (.item j)) = true := by
  rw [toList_itemFilterSql]
  apply reads_comparisonText h hq hi (itemText_sql h hj).noNull (part_item h hj).trimmed
  exact fun id failure => reads_otherItem h hq hop hj

/-! ## Filters -/

theorem sqls_eq_map (filters : List Filter) : Filter.sqls filters = filters.map Filter.sql := by
  induction filters with
  | nil => rfl
  | cons f filters ih => rw [Filter.sqls, ih, List.map_cons]

/-- The texts of filters. -/
def filterTexts (filters : List Filter) : List (List Char) := filters.map fun f => f.sql.toList

/-- A connective as it stands between two filters. -/
def connectiveText (op : Connective) : List Char := ' ' :: (op.sql.toList ++ [' '])

theorem toList_groupSql (op : Connective) (children : List Filter) :
    (Filter.group op children).sql.toList =
      enclosed ((connectiveText op).intercalate (filterTexts children)) := by
  rw [Filter.sql, sqls_eq_map]
  simp [Text.joinWith, enclosed, connectiveText, filterTexts, String.toList_intercalate,
    Function.comp_def]

theorem isWord_connective (op : Connective) : IsWord op.sql.toList := by
  cases op <;> exact isWord_of_all (by decide) (by decide)

theorem connective_mem_structuralWords (op : Connective) : op.sql.toList ∈ structuralWords := by
  cases op <;> decide

theorem part_nullTest {left : List Char} (hleft : Part [] structuralWords left) :
    Part [] structuralWords (left ++ " IS NULL".toList) ∧
      Part [] structuralWords (left ++ " IS NOT NULL".toList) := by
  have hword {w : List Char} (hw : IsWord w) (hwords : ∀ k ∈ structuralWords, eqIgnoreCase w k = false) :
      Part [] structuralWords w :=
    Part.of_isWord hw (by simp) hwords
  have his : Part [] structuralWords "IS".toList := hword (isWord_of_all (by decide) (by decide)) (by decide)
  have hnot : Part [] structuralWords "NOT".toList := hword (isWord_of_all (by decide) (by decide)) (by decide)
  have hnull : Part [] structuralWords "NULL".toList := hword (isWord_of_all (by decide) (by decide)) (by decide)
  have hmark : ' ' ∉ ([] : List Char) := List.not_mem_nil
  refine ⟨hleft.spaced (his.spaced hnull hmark nil_not_mem_structuralWords) hmark
    nil_not_mem_structuralWords, ?_⟩
  exact hleft.spaced (his.spaced (hnot.spaced hnull hmark nil_not_mem_structuralWords) hmark
    nil_not_mem_structuralWords) hmark nil_not_mem_structuralWords

/-- What connects filters shows none of the other words. -/
theorem part_connective {words : List (List Char)} (op : Connective)
    (hwords : ∀ k ∈ words, eqIgnoreCase op.sql.toList k = false) : Part [] words op.sql.toList :=
  Part.of_isWord (isWord_connective op) (by simp) hwords

theorem part_of_mem_filterTexts {children : List Filter} {w : List Char}
    (hchildren : ∀ f ∈ children, Part [] structuralWords f.sql.toList)
    (hw : w ∈ filterTexts children) : Part [] structuralWords w := by
  obtain ⟨f, hf, rfl⟩ := List.mem_map.mp hw
  exact hchildren f hf

/-- Filters with a connective between them. -/
theorem part_connected (words : List (List Char)) {children : List Filter} (op : Connective)
    (hne : children ≠ []) (hwords : ∀ k ∈ words, eqIgnoreCase op.sql.toList k = false)
    (hsubset : words ⊆ structuralWords)
    (hchildren : ∀ f ∈ children, Part [] structuralWords f.sql.toList) :
    Part [] words ((connectiveText op).intercalate (filterTexts children)) := by
  apply Part.connected (by simpa [filterTexts] using hne) _ (part_connective op hwords)
    List.not_mem_nil fun hmem => nil_not_mem_structuralWords (hsubset hmem)
  exact fun w hw => (part_of_mem_filterTexts hchildren hw).mono (List.nil_subset _) hsubset

/-- **The text of a filter is a part**: neither connective shows outside of parentheses. -/
theorem part_filter {f : Filter} (h : PlainSource t aliasName) (hf : f.IsOver t (labelOf t aliasName)) :
    Part [] structuralWords f.sql.toList := by
  have hitem {i : Item} (hi : i.IsOver t (labelOf t aliasName)) :
      Part [] structuralWords i.sqlWithoutAlias.toList :=
    (part_item h hi).mono (List.nil_subset _) structuralWords_subset
  induction hf with
  | @value i op v hi hop hv =>
    have hv := (part_literal hv.plain).mono (List.nil_subset _) structuralWords_subset
    rcases toList_valueSql i hop v with ⟨-, htext⟩ | ⟨-, htext⟩ | htext
    · rw [htext]
      exact (part_nullTest (hitem hi)).1
    · rw [htext]
      exact (part_nullTest (hitem hi)).2
    · rw [htext]
      exact part_comparisonText op (hitem hi) hv
  | @list i op vs hi hop hvs =>
    rw [toList_listFilterSql]
    apply part_comparisonText op (hitem hi)
    rcases part_listText fun v hv => (hvs v hv).plain with hnil | hpart
    · rw [hnil]
      exact Part.of_group Balanced.nil (Or.inl rfl) List.not_mem_nil nil_not_mem_structuralWords
    · exact hpart.group List.not_mem_nil nil_not_mem_structuralWords
  | item hi hop hj =>
    rw [toList_itemFilterSql]
    exact part_comparisonText _ (hitem hi) (hitem hj)
  | @group op children hlength hchildren ih =>
    have hne : children ≠ [] := by
      rintro rfl
      simp at hlength
    have hinside := part_connected [] op hne (by simp) (List.nil_subset _) ih
    rw [toList_groupSql]
    exact hinside.group List.not_mem_nil nil_not_mem_structuralWords

/-- The text of a comparison does not stand in parentheses and shows no connective. -/
theorem readFilter_of_letter {text : List Char} (hpart : Part [] structuralWords text)
    (hfirst : ∃ a rest, text = a :: rest ∧ a.isAlpha = true) (depth : Nat) :
    readFilter q clause depth text = readComparison q clause text := by
  have hunwrap : unwrap? text = none := by
    obtain ⟨a, rest, htext, ha⟩ := hfirst
    have hne : a ≠ '(' := by
      rintro rfl
      cases ha
    rw [unwrap?, hpart.trimmed.trim_eq, htext, parenthesized?.eq_def]
    split
    next inside hinside =>
      split at hinside
      next heq => exact absurd (List.cons.inj heq).1 hne
      next => cases hinside
    next => rfl
  have hsplit (op : Connective) : splitOn (connectiveText op) text = [text] :=
    splitOn_connected_part (isWord_connective op) hpart (connective_mem_structuralWords op)
  have hparts : connectedParts? text = none := by
    unfold connectedParts?
    rw [show " OR ".toList = connectiveText .or from rfl,
      show " AND ".toList = connectiveText .and from rfl, hsplit, hsplit]
    rfl
  cases depth with
  | zero => rfl
  | succ depth => rw [readFilter, hunwrap, hparts]

/-- Filters with a connective between them are cut at it, and not at the other one. -/
theorem splitOn_filterTexts {children : List Filter} (op : Connective)
    (hchildren : ∀ f ∈ children, Part [] structuralWords f.sql.toList) :
    splitOn (connectiveText op) ((connectiveText op).intercalate (filterTexts children)) =
      filterTexts children :=
  splitOn_connected (isWord_connective op) (fun _ hw => part_of_mem_filterTexts hchildren hw)
    (connective_mem_structuralWords op)

theorem connectedParts?_connected {children : List Filter} (op : Connective)
    (hlength : 2 ≤ children.length)
    (hchildren : ∀ f ∈ children, Part [] structuralWords f.sql.toList) :
    connectedParts? ((connectiveText op).intercalate (filterTexts children)) =
      some (op, filterTexts children) := by
  have hlong : 1 < (filterTexts children).length := by
    rw [filterTexts, List.length_map]
    exact hlength
  have hsplit := splitOn_filterTexts op hchildren
  unfold connectedParts?
  cases op with
  | or =>
    rw [show " OR ".toList = connectiveText .or from rfl, hsplit]
    simp only [if_pos hlong]
  | and =>
    have hne : children ≠ [] := by
      rintro rfl
      simp at hlength
    have hpart := part_connected ["OR".toList] .and hne (by decide) (by decide) hchildren
    have hor : splitOn (connectiveText .or)
        ((connectiveText .and).intercalate (filterTexts children)) =
          [(connectiveText .and).intercalate (filterTexts children)] :=
      splitOn_connected_part (isWord_connective .or) hpart List.mem_cons_self
    rw [show " OR ".toList = connectiveText .or from rfl,
      show " AND ".toList = connectiveText .and from rfl, hor, hsplit]
    simp only [List.length_singleton, lt_self_iff_false, if_false, if_pos hlong]

theorem unwrap?_connected {children : List Filter} (op : Connective)
    (hlength : 2 ≤ children.length)
    (hchildren : ∀ f ∈ children, Part [] structuralWords f.sql.toList) :
    unwrap? ((connectiveText op).intercalate (filterTexts children)) = none := by
  have hne : children ≠ [] := by
    rintro rfl
    simp at hlength
  have htrimmed := (part_connected [] op hne (by simp) (List.nil_subset _) hchildren).trimmed
  have hspaced : IsSpaced (connectiveText op) := by
    cases op
    · exact isSpaced_and
    · exact isSpaced_or
  cases hunwrap : unwrap? ((connectiveText op).intercalate (filterTexts children)) with
  | none => rfl
  | some inner =>
    have hone := splitOn_of_unwrap? hspaced htrimmed hunwrap
    have hlengths := congrArg List.length ((splitOn_filterTexts op hchildren).symm.trans hone)
    rw [filterTexts, List.length_map, List.length_singleton] at hlengths
    omega

theorem allSame_of_forall₂ {read filters : List Filter}
    (h : List.Forall₂ (fun f g => g.same f = true) filters read) :
    Filter.allSame read filters = true := by
  induction h with
  | nil => rfl
  | cons hfirst _ ih => rw [Filter.allSame, hfirst, ih]; rfl

/-- Filters are read one by one. -/
theorem reads_filterTexts {depth : Nat} {filters : List Filter}
    (h : ∀ f ∈ filters, Reads (readFilter q clause depth f.sql.toList) fun g => g.same f = true) :
    Reads ((filterTexts filters).mapM (readFilter q clause depth)) fun read =>
      Filter.allSame read filters = true := by
  have hreads : Reads (filters.mapM fun f => readFilter q clause depth f.sql.toList) fun read =>
      List.Forall₂ (fun f g => g.same f = true) filters read :=
    Reads.mapM h
  rw [filterTexts, List.mapM_map]
  exact hreads.mono fun read hread => allSame_of_forall₂ hread

theorem ItemText.first_append {w : List Char} (h : ItemText w) (v : List Char) :
    ∃ a rest, w ++ v = a :: rest ∧ a.isAlpha = true := by
  obtain ⟨a, rest, rfl, ha⟩ := h.first
  exact ⟨a, rest ++ v, rfl, ha⟩

/-- The filters of a group are shorter than what its parentheses enclose. -/
theorem length_lt_connected (op : Connective) {children : List Filter} (hlength : 2 ≤ children.length)
    (hparts : ∀ f ∈ children, Part [] structuralWords f.sql.toList) {f : Filter} (hf : f ∈ children) :
    f.sql.toList.length < ((connectiveText op).intercalate (filterTexts children)).length := by
  have hsplit := splitOn_filterTexts op hparts
  refine length_lt_of_mem_splitOn (d := connectiveText op) ?_ ?_
  · rw [hsplit]
    exact List.mem_map_of_mem (f := fun f => f.sql.toList) hf
  · rw [hsplit, filterTexts, List.length_map]
    exact hlength

/-- **A filter is read back from its text**, however deep it is. -/
theorem reads_filter {f : Filter} (h : PlainSource t aliasName) (hq : ReadOver q t aliasName)
    (hf : f.IsOver t (labelOf t aliasName)) {depth : Nat} (hdepth : f.sql.toList.length ≤ depth) :
    Reads (readFilter q clause depth f.sql.toList) fun g => g.same f = true := by
  induction hf generalizing depth with
  | @value i op v hi hop hv =>
    have hpart := part_filter h (Filter.IsOver.value hi hop hv)
    have hfirst : ∃ a rest, (Filter.comparison i op (.value v)).sql.toList = a :: rest ∧
        a.isAlpha = true := by
      rcases toList_valueSql i hop v with ⟨-, htext⟩ | ⟨-, htext⟩ | htext
      all_goals
        rw [htext]
        exact (itemText_sql h hi).first_append _
    rw [readFilter_of_letter hpart hfirst]
    exact reads_valueComparison h hq hi hop hv
  | @list i op vs hi hop hvs =>
    have hpart := part_filter h (Filter.IsOver.list hi hop hvs)
    have hfirst := (itemText_sql h hi).first_append (' ' :: (op.sql.toList ++ ' ' :: enclosed (listText vs)))
    rw [readFilter_of_letter hpart (by rw [toList_listFilterSql]; exact hfirst)]
    exact reads_listComparison h hq hi hop hvs
  | @item i j op hi hop hj =>
    have hpart := part_filter h (Filter.IsOver.item hi hop hj)
    have hfirst := (itemText_sql h hi).first_append (' ' :: (op.sql.toList ++ ' ' :: j.sqlWithoutAlias.toList))
    rw [readFilter_of_letter hpart (by rw [toList_itemFilterSql]; exact hfirst)]
    exact reads_itemComparison h hq hi hop hj
  | @group op children hlength hchildren ih =>
    have hparts (f : Filter) (hf : f ∈ children) := part_filter h (hchildren f hf)
    have hne : children ≠ [] := by
      rintro rfl
      simp at hlength
    have hinside := part_connected [] op hne (by simp) (List.nil_subset _) hparts
    rw [toList_groupSql] at hdepth ⊢
    -- One step takes the parentheses off, the next one cuts the inside at the connective.
    obtain ⟨depth, rfl⟩ : ∃ d, depth = d + 2 := by
      refine ⟨depth - 2, ?_⟩
      simp only [enclosed, List.length_cons, List.length_append, List.length_nil] at hdepth
      omega
    have hinner : ∀ f ∈ children, f.sql.toList.length ≤ depth := by
      intro f hf
      have hshort := length_lt_connected op hlength hparts hf
      simp only [enclosed, List.length_cons, List.length_append, List.length_nil] at hdepth
      omega
    rw [readFilter, enclosed, unwrap?_group hinside.balanced, hinside.trimmed.trim_eq]
    dsimp only
    rw [readFilter, unwrap?_connected op hlength hparts, connectedParts?_connected op hlength hparts]
    dsimp only
    apply (reads_filterTexts fun f hf => ih f hf (hinner f hf)).bind
    intro read hread
    apply Reads.pure
    rw [Filter.same, hread, beq_self_eq_true]
    rfl

/-- **The filters of a clause are read back from its text.** -/
theorem reads_filters {filters : List Filter} (h : PlainSource t aliasName)
    (hq : ReadOver q t aliasName) (hfilters : ∀ f ∈ filters, f.IsOver t (labelOf t aliasName)) :
    Reads (readFilters q clause ((connectiveText .and).intercalate (filterTexts filters))) fun read =>
      Filter.allSame read filters = true := by
  have hparts (f : Filter) (hf : f ∈ filters) := part_filter h (hfilters f hf)
  have hsplit := splitOn_filterTexts .and hparts
  unfold readFilters
  rw [show " AND ".toList = connectiveText .and from rfl, hsplit]
  apply reads_filterTexts
  intro f hf
  apply reads_filter h hq (hfilters f hf)
  have hsum := splitOn_sum_length_le (connectiveText .and)
    ((connectiveText .and).intercalate (filterTexts filters))
  rw [hsplit] at hsum
  obtain ⟨before, after, happend⟩ := List.append_of_mem hf
  rw [filterTexts, happend] at hsum
  simp only [List.map_append, List.map_cons, List.sum_append, List.sum_cons] at hsum
  rw [filterTexts, happend, List.map_append, List.map_cons]
  omega

end Comparisons

end Grammar

end DocQuery
