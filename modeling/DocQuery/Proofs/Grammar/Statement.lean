import DocQuery.Grammar.Statement
import DocQuery.Proofs.Grammar.Location
import DocQuery.Proofs.Grammar.Predicate
import DocQuery.Proofs.Query.Resolution

/-!
# DocQuery.Proofs.Grammar.Statement — queries read back

A query over one table with plain names is written as a text that reads as the same query again, and
resolving both gives the same query as well (`readQuery_sql`).  The clauses are found where they were
written, and each is read as what it was written from; only the identities of items are new.
-/

namespace DocQuery

open Grammar

/-- A query over one table that may have an alias: its select list, filters, grouping and order are
made of items over the table, none of them with an alias, and its rows and their number are counted
in 64 bits. -/
structure QueryOf.IsPlainOver (q : Query) (t : Table) (aliasName : Option String) : Prop where
  source : PlainSource t aliasName
  sources : q.sources = [.table t aliasName]
  nonempty : q.select ≠ []
  select : ∀ i ∈ q.select, i.IsOver t (labelOf t aliasName)
  filters : ∀ f ∈ q.filters, f.IsOver t (labelOf t aliasName)
  groupBy : ∀ i ∈ q.groupBy, i.IsOver t (labelOf t aliasName)
  having : ∀ f ∈ q.having, f.IsOver t (labelOf t aliasName)
  orderBy : ∀ o ∈ q.orderBy, o.item.IsOver t (labelOf t aliasName)
  firstRow : 1 ≤ q.firstRow ∧ q.firstRow ≤ Word.greatestUnsigned
  maxRows : ∀ n ∈ q.maxRows, n ≤ Word.greatestUnsigned

namespace Grammar

open Text (Trimmed isBlank isWordChar eqIgnoreCase)

/-! ## The text of a query -/

/-- The texts of items. -/
def itemTexts (items : List Item) : List (List Char) := items.map fun i => i.sqlWithoutAlias.toList

/-- The texts of items to order by. -/
def orderTexts (items : List OrderItem) : List (List Char) :=
  items.map fun o => o.item.sqlWithoutAlias.toList ++ ' ' :: o.direction.sql.toList

/-- Texts with commas between them. -/
def commaText (texts : List (List Char)) : List Char := [',', ' '].intercalate texts

/-- The text of a select list. -/
def selectText (distinct : Bool) (items : List Item) : List Char :=
  if distinct then "DISTINCT".toList ++ ' ' :: commaText (itemTexts items)
  else commaText (itemTexts items)

/-- The text of a table that may have an alias. -/
def sourceText (t : Table) (aliasName : Option String) : List Char :=
  match aliasName with
  | some a => t.name.toList ++ ' ' :: a.toList
  | none => t.name.toList

/-- A clause that is left out where it has no parts. -/
def optionalClause (keyword : String) (separator : List Char) (parts : List (List Char)) :
    List (String × List Char) :=
  if parts.isEmpty then [] else [(keyword, separator.intercalate parts)]

/-- The clauses for the window of rows. -/
def windowClauses (firstRow : Nat) (maxRows : Option Nat) : List (String × List Char) :=
  (maxRows.map fun n => ("LIMIT", Nat.toDigits 10 n)).toList ++
    if 1 < firstRow then [("OFFSET", Nat.toDigits 10 (firstRow - 1))] else []

/-- The clauses of a query after its select list. -/
def clausesOf (q : Query) (t : Table) (aliasName : Option String) : List (String × List Char) :=
  ("FROM", sourceText t aliasName) ::
    (optionalClause "WHERE" (connectiveText .and) (filterTexts q.filters) ++
    (optionalClause "GROUP BY" [',', ' '] (itemTexts q.groupBy) ++
    (optionalClause "HAVING" (connectiveText .and) (filterTexts q.having) ++
    (optionalClause "ORDER BY" [',', ' '] (orderTexts q.orderBy) ++
    windowClauses q.firstRow q.maxRows))))

section Texts

variable {t : Table} {aliasName : Option String} {q : Query} {clauses more : List (String × List Char)}

theorem clausesText_append : clausesText (clauses ++ more) = clausesText clauses ++ clausesText more :=
  List.flatMap_append

theorem toList_sourceSql : (FromItem.sql (.table t aliasName)).toList = sourceText t aliasName := by
  cases aliasName <;> simp [FromItem.sql, FromItem.aliased, sourceText]

/-- A clause of the text of a query, which is left out where it has no parts. -/
theorem toList_clause (spaced keyword separator : String) (parts : List String)
    (hspaced : spaced.toList = ' ' :: (keyword.toList ++ [' '])) :
    (if parts.isEmpty then "" else spaced ++ Text.joinWith separator parts).toList =
      clausesText (optionalClause keyword separator.toList (parts.map String.toList)) := by
  cases parts with
  | nil => rfl
  | cons part parts =>
    simp [optionalClause, clausesText, Text.joinWith, String.toList_intercalate, hspaced]

theorem toList_window (firstRow : Nat) (maxRows : Option Nat) :
    ((match maxRows with
      | some n => " LIMIT " ++ toString n
      | none => "") ++ if 1 < firstRow then " OFFSET " ++ toString (firstRow - 1) else "").toList =
      clausesText (windowClauses firstRow maxRows) := by
  have hlimit (n : Nat) : (" LIMIT " ++ toString n).toList = clausesText [("LIMIT", Nat.toDigits 10 n)] := by
    simp [clausesText]
  have hoffset (n : Nat) : (" OFFSET " ++ toString n).toList = clausesText [("OFFSET", Nat.toDigits 10 n)] := by
    simp [clausesText]
  rw [String.toList_append, windowClauses, clausesText_append]
  congr 1
  · cases maxRows with
    | none => rfl
    | some n => exact hlimit n
  · split_ifs
    · exact hoffset (firstRow - 1)
    · rfl

/-- Items without aliases are written alike in the select list. -/
theorem map_sql_eq {items : List Item} {label : String} (h : ∀ i ∈ items, i.IsOver t label) :
    items.map Item.sql = items.map Item.sqlWithoutAlias := by
  apply List.map_congr_left
  intro i hi
  rw [Item.sql, (h i hi).aliasName]

/-- **A query is written as its clauses.** -/
theorem toList_sql (hq : q.IsPlainOver t aliasName) :
    q.sql.toList = queryText (selectText q.distinct q.select) (clausesOf q t aliasName) := by
  obtain ⟨select, distinct, sources, filters, groupBy, having, orderBy, firstRow, maxRows⟩ := q
  obtain rfl : sources = [.table t aliasName] := hq.sources
  unfold QueryOf.sql FromItem.sqlOfQuery FromItem.querySql
  simp only [map_sql_eq hq.select]
  have hsources : FromItem.sqls [.table t aliasName] = [FromItem.sql (.table t aliasName)] := rfl
  rw [hsources]
  have hwhere := toList_clause " WHERE " "WHERE" " AND " (filters.map Filter.sql) rfl
  have hgroupBy := toList_clause " GROUP BY " "GROUP BY" ", " (groupBy.map Item.sqlWithoutAlias) rfl
  have hhaving := toList_clause " HAVING " "HAVING" " AND " (having.map Filter.sql) rfl
  have horderBy := toList_clause " ORDER BY " "ORDER BY" ", "
    (orderBy.map fun o => o.item.sqlWithoutAlias ++ " " ++ o.direction.sql) rfl
  have hwindow := toList_window firstRow maxRows
  rw [String.toList_append] at hwindow
  have hselect : (if distinct then "DISTINCT " else "").toList ++
      (Text.joinWith ", " (select.map Item.sqlWithoutAlias)).toList = selectText distinct select := by
    cases distinct <;>
      simp [selectText, commaText, itemTexts, Text.joinWith, String.toList_intercalate,
        Function.comp_def]
  have hfrom : (Text.joinWith ", " [FromItem.sql (.table t aliasName)]).toList =
      sourceText t aliasName := toList_sourceSql
  have horderTexts : (orderBy.map fun o => o.item.sqlWithoutAlias ++ " " ++ o.direction.sql).map
      String.toList = orderTexts orderBy := by
    simp [orderTexts, Function.comp_def]
  rw [List.map_map] at hwhere hgroupBy hhaving
  rw [horderTexts] at horderBy
  simp only [String.toList_append, hwhere, hgroupBy, hhaving, horderBy, hfrom]
  rw [queryText, ← hselect, clausesOf, clausesText_cons]
  simp only [clausesText_append, ← hwindow, List.append_assoc]
  rfl

end Texts

/-! ## The clauses are parts in their order -/

theorem InOrder.append {clauses more : List (String × List Char)} {keywords later : List String}
    (h : InOrder clauses keywords) (hmore : InOrder more later) :
    InOrder (clauses ++ more) (keywords ++ later) where
  order := by
    rw [List.map_append]
    exact h.order.append hmore.order
  texts := List.forall_mem_append.mpr ⟨h.texts, hmore.texts⟩

theorem inOrder_singleton (keyword : String) {text : List Char} (h : Part [] clauseWords text) :
    InOrder [(keyword, text)] [keyword] where
  order := List.Sublist.refl _
  texts := List.forall_mem_singleton.mpr h

theorem inOrder_nil (keywords : List String) : InOrder [] keywords where
  order := List.nil_sublist _
  texts := List.forall_mem_nil _

theorem inOrder_optionalClause {keyword : String} {separator : List Char} {parts : List (List Char)}
    (h : parts ≠ [] → Part [] clauseWords (separator.intercalate parts)) :
    InOrder (optionalClause keyword separator parts) [keyword] := by
  unfold optionalClause
  cases parts with
  | nil => exact inOrder_nil _
  | cons part parts => exact inOrder_singleton keyword (h (List.cons_ne_nil _ _))

section Parts

variable {t : Table} {aliasName : Option String} {q : Query}

theorem clauseWords_subset_cuttingWords : clauseWords ⊆ cuttingWords :=
  fun _ h => structuralWords_subset (clauseWords_subset h)

theorem part_digits (n : Nat) : Part [] clauseWords (Nat.toDigits 10 n) :=
  (part_toDigits n).mono (List.nil_subset _) clauseWords_subset_cuttingWords

theorem part_commaText {texts : List (List Char)} (hne : texts ≠ [])
    (h : ∀ w ∈ texts, Part cuttingMarks cuttingWords w) : Part [] clauseWords (commaText texts) := by
  apply Part.commas hne _ List.not_mem_nil List.not_mem_nil (by decide)
  exact fun w hw => (h w hw).mono (List.nil_subset _) clauseWords_subset_cuttingWords

theorem part_itemTexts {items : List Item} (h : PlainSource t aliasName)
    (hitems : ∀ i ∈ items, i.IsOver t (labelOf t aliasName)) :
    ∀ w ∈ itemTexts items, Part cuttingMarks cuttingWords w := by
  intro w hw
  obtain ⟨i, hi, rfl⟩ := List.mem_map.mp hw
  exact part_item h (hitems i hi)

theorem part_direction (d : Direction) : Part cuttingMarks cuttingWords d.sql.toList := by
  cases d
  · exact Part.of_isWord (isWord_of_all (by decide) (by decide)) cuttingMarks_not_wordChar (by decide)
  · exact Part.of_isWord (isWord_of_all (by decide) (by decide)) cuttingMarks_not_wordChar (by decide)

theorem part_orderTexts {items : List OrderItem} (h : PlainSource t aliasName)
    (hitems : ∀ o ∈ items, o.item.IsOver t (labelOf t aliasName)) :
    ∀ w ∈ orderTexts items, Part cuttingMarks cuttingWords w := by
  intro w hw
  obtain ⟨o, ho, rfl⟩ := List.mem_map.mp hw
  exact (part_item h (hitems o ho)).spaced (part_direction o.direction) (by decide)
    nil_not_mem_cuttingWords

theorem part_selectText {items : List Item} (distinct : Bool) (h : PlainSource t aliasName)
    (hne : items ≠ []) (hitems : ∀ i ∈ items, i.IsOver t (labelOf t aliasName)) :
    Part [] clauseWords (selectText distinct items) := by
  have hlist : Part [] clauseWords (commaText (itemTexts items)) :=
    part_commaText (by simpa [itemTexts] using hne) (part_itemTexts h hitems)
  have hdistinct : Part [] clauseWords "DISTINCT".toList :=
    Part.of_isWord (isWord_of_all (by decide) (by decide)) (by simp) (by decide)
  cases distinct with
  | true => exact hdistinct.spaced hlist List.not_mem_nil (by decide)
  | false => exact hlist

/-- The text of the table shows nothing that FROM is cut at. -/
theorem part_sourceText (h : PlainSource t aliasName) :
    Part cuttingMarks cuttingWords (sourceText t aliasName) := by
  cases haliasName : aliasName with
  | none => exact h.table.name.part
  | some a =>
    exact h.table.name.part.spaced (h.aliasName a haliasName).part (by decide) nil_not_mem_cuttingWords

theorem part_filterTexts {filters : List Filter} (h : PlainSource t aliasName)
    (hfilters : ∀ f ∈ filters, f.IsOver t (labelOf t aliasName)) (hne : filters ≠ []) :
    Part [] clauseWords ((connectiveText .and).intercalate (filterTexts filters)) :=
  part_connected clauseWords .and hne (by decide) clauseWords_subset fun f hf => part_filter h (hfilters f hf)

theorem inOrder_windowClauses (firstRow : Nat) (maxRows : Option Nat) :
    InOrder (windowClauses firstRow maxRows) ["LIMIT", "OFFSET"] := by
  have hlimit : InOrder (maxRows.map fun n => ("LIMIT", Nat.toDigits 10 n)).toList ["LIMIT"] := by
    cases maxRows with
    | none => exact inOrder_nil _
    | some n => exact inOrder_singleton _ (part_digits n)
  apply hlimit.append
  split_ifs
  · exact inOrder_singleton _ (part_digits _)
  · exact inOrder_nil _

/-- **The clauses of a query stand in their order.** -/
theorem inOrder_clausesOf (hq : q.IsPlainOver t aliasName) :
    InOrder (clausesOf q t aliasName) (clauseKeywords.drop 1) := by
  have h := hq.source
  have hfrom := (part_sourceText h).mono (List.nil_subset _) clauseWords_subset_cuttingWords
  have hwhere : InOrder (optionalClause "WHERE" (connectiveText .and) (filterTexts q.filters)) ["WHERE"] :=
    inOrder_optionalClause fun hne => part_filterTexts h hq.filters (by simpa [filterTexts] using hne)
  have hgroupBy : InOrder (optionalClause "GROUP BY" [',', ' '] (itemTexts q.groupBy)) ["GROUP BY"] :=
    inOrder_optionalClause fun hne => part_commaText hne (part_itemTexts h hq.groupBy)
  have hhaving : InOrder (optionalClause "HAVING" (connectiveText .and) (filterTexts q.having)) ["HAVING"] :=
    inOrder_optionalClause fun hne => part_filterTexts h hq.having (by simpa [filterTexts] using hne)
  have horderBy : InOrder (optionalClause "ORDER BY" [',', ' '] (orderTexts q.orderBy)) ["ORDER BY"] :=
    inOrder_optionalClause fun hne => part_commaText hne (part_orderTexts h hq.orderBy)
  exact (inOrder_singleton "FROM" hfrom).append (hwhere.append (hgroupBy.append (hhaving.append
    (horderBy.append (inOrder_windowClauses q.firstRow q.maxRows)))))

end Parts

/-! ## Reading the select list -/

/-- An item with another identity. -/
def CopyOf (i j : Item) : Prop := ∃ id, j = { i with id := id }

section Select

variable {t : Table} {aliasName : Option String} {q : Query} {i : Item} {items copies : List Item}
  {catalog : Catalog}

theorem copies_unaliased {label : String} (hitems : ∀ i ∈ items, i.IsOver t label)
    (h : List.Forall₂ CopyOf items copies) : ∀ j ∈ copies, j.aliasName = none := by
  induction h with
  | nil => exact List.forall_mem_nil _
  | @cons i j _ _ hcopy _ ih =>
    obtain ⟨hi, hrest⟩ := List.forall_mem_cons.mp hitems
    obtain ⟨id, rfl⟩ := hcopy
    exact List.forall_mem_cons.mpr ⟨hi.aliasName, ih hrest⟩

theorem copies_same {label : String} (hitems : ∀ i ∈ items, i.IsOver t label)
    (h : List.Forall₂ CopyOf items copies) :
    List.Forall₂ (fun j i => Item.same j i = true) copies items := by
  induction h with
  | nil => exact List.Forall₂.nil
  | @cons i j _ _ hcopy _ ih =>
    obtain ⟨hi, hrest⟩ := List.forall_mem_cons.mp hitems
    obtain ⟨id, rfl⟩ := hcopy
    exact List.Forall₂.cons (same_of_isOver hi id) (ih hrest)

/-- An item in the select list is read as a copy of it. -/
theorem reads_selectToken (h : PlainSource t aliasName) (hq : q.sources = [.table t aliasName])
    (hi : i.IsOver t (labelOf t aliasName)) :
    Reads (readSelectToken catalog q i.sqlWithoutAlias.toList) fun read =>
      ∃ j, CopyOf i j ∧ read = [j] := by
  have hpart := part_item h hi
  have htext := itemText_sql h hi
  have hstar : i.sqlWithoutAlias.toList ≠ ['*'] := htext.head_ne rfl []
  have hending : beforeEnding? ['.', '*'] i.sqlWithoutAlias.toList = none := by
    apply beforeEnding?_eq_none
    intro hsuffix
    have hlast := last_of_suffix (c := '*') rfl hsuffix
    rw [List.getLast?_map] at hlast
    obtain ⟨c, hc, hlower⟩ := Option.map_eq_some_iff.mp hlast
    obtain rfl := eq_of_toLower_eq rfl hlower
    rcases htext.ending with hword | hparen
    · exact hword.not_mem rfl (List.mem_of_getLast? hc)
    · rw [hparen] at hc
      cases hc
  have halias : splitAlias i.sqlWithoutAlias.toList = (i.sqlWithoutAlias.toList, none) := by
    have hword : leadingWord ['A', 'S'] ∈ cuttingWords := by decide
    rw [splitAlias, cutLastKeyword?_eq_none (hpart.clear.afterKeyword?_alone hword none)]
  obtain ⟨pending, hresolved, hpending⟩ := resolveItem_sql h hq hi
  unfold readSelectToken
  simp only [if_neg hstar, hending, halias, hresolved]
  apply (Reads.lift (P := fun found => found = some pending) rfl rfl).bind
  rintro _ rfl
  apply (reads_make pending).bind
  rintro _ ⟨id, rfl⟩
  exact Reads.pure ⟨pending id, ⟨id, hpending id⟩, rfl⟩

/-- Tokens that are read as one item each give these items. -/
theorem flatten_copies {lists : List (List Item)}
    (h : List.Forall₂ (fun i read => ∃ j, CopyOf i j ∧ read = [j]) items lists) :
    List.Forall₂ CopyOf items lists.flatten := by
  induction h with
  | nil => exact List.Forall₂.nil
  | cons hfirst _ ih =>
    obtain ⟨j, hcopy, rfl⟩ := hfirst
    exact List.Forall₂.cons hcopy ih

theorem leadingWord_selectText {items : List Item} (h : PlainSource t aliasName)
    (hne : items ≠ []) (hitems : ∀ i ∈ items, i.IsOver t (labelOf t aliasName)) :
    eqIgnoreCase (leadingWord (commaText (itemTexts items))) "DISTINCT".toList = false := by
  obtain ⟨i, items, rfl⟩ := List.exists_cons_of_ne_nil hne
  have hi := (itemText_sql h (hitems i List.mem_cons_self)).leading
  cases items with
  | nil =>
    rw [commaText, itemTexts, List.map_singleton, List.intercalate_singleton]
    exact hi
  | cons j items =>
    rw [commaText, itemTexts, List.map_cons, List.map_cons, List.intercalate_cons_cons,
      List.append_assoc, leadingWord_append rfl]
    exact hi

/-- **A select list is read as copies of its items.** -/
theorem reads_select (distinct : Bool) (h : PlainSource t aliasName)
    (hq : q.sources = [.table t aliasName]) (hne : items ≠ [])
    (hitems : ∀ i ∈ items, i.IsOver t (labelOf t aliasName)) :
    Reads (readSelect catalog q (selectText distinct items)) fun q' =>
      ∃ copies, List.Forall₂ CopyOf items copies ∧
        q' = { q with distinct := distinct, select := copies } := by
  have hlist : Part [] clauseWords (commaText (itemTexts items)) :=
    part_commaText (by simpa [itemTexts] using hne) (part_itemTexts h hitems)
  have hafter : afterWord? "DISTINCT".toList (selectText distinct items) =
      if distinct then some (commaText (itemTexts items)) else none := by
    cases distinct with
    | true => exact afterWord?_append _ hlist.trimmed
    | false => exact afterWord?_eq_none (by decide) (leadingWord_selectText h hne hitems)
  have hplain : selectText false items = commaText (itemTexts items) := rfl
  have hsplit : splitOn [','] (commaText (itemTexts items)) = itemTexts items :=
    splitOn_commas (part_itemTexts h hitems) (by decide)
  have htokens : Reads ((itemTexts items).mapM (readSelectToken catalog q))
      (List.Forall₂ (fun i read => ∃ j, CopyOf i j ∧ read = [j]) items) := by
    simp only [itemTexts, List.mapM_map, Function.comp_def]
    exact Reads.mapM fun i hi => reads_selectToken h hq (hitems i hi)
  unfold readSelect
  rw [hafter]
  cases distinct
  all_goals
    simp only [Bool.false_eq_true, if_false, if_true, hplain, hsplit]
    apply htokens.bind
    intro lists hlists
    have hcopies := flatten_copies hlists
    have hsome : lists.flatten.isEmpty = false := by
      cases hflat : lists.flatten with
      | nil =>
        rw [hflat] at hcopies
        cases hcopies
        exact absurd rfl hne
      | cons => rfl
    simp only [hsome, Bool.false_eq_true, if_false]
    exact Reads.pure ⟨lists.flatten, hcopies, rfl⟩

end Select

/-! ## Reading the other clauses -/

section Clauses

variable {t : Table} {aliasName : Option String} {q : Query} {i : Item} {items : List Item}
  {catalog : Catalog}

/-- A list of items is read as copies of them. -/
theorem reads_items (h : PlainSource t aliasName) (hq : ReadOver q t aliasName)
    (hitems : ∀ i ∈ items, i.IsOver t (labelOf t aliasName)) :
    Reads (readGroupBy q (commaText (itemTexts items))) fun q' =>
      ∃ copies, List.Forall₂ CopyOf items copies ∧ q' = { q with groupBy := copies } := by
  have hsplit : splitOn [','] (commaText (itemTexts items)) = itemTexts items :=
    splitOn_commas (part_itemTexts h hitems) (by decide)
  have htokens : Reads (items.mapM fun i =>
      makeFound (resolveReference q i.sqlWithoutAlias.toList)
        (.unparsable "GROUP BY" (String.ofList i.sqlWithoutAlias.toList)))
      (List.Forall₂ CopyOf items) :=
    Reads.mapM fun i hi => reads_item h hq (hitems i hi) _
  unfold readGroupBy
  rw [hsplit, itemTexts, List.mapM_map]
  apply htokens.bind
  exact fun copies hcopies => Reads.pure ⟨copies, hcopies, rfl⟩

theorem cutAt?_append {d : Char} {u : List Char} (hu : d ∉ u) (v : List Char) :
    Text.cutAt? d (u ++ d :: v) = some (u, v) := by
  induction u with
  | nil => rw [List.nil_append, Text.cutAt?, if_pos rfl]
  | cons c u ih =>
    have hc : c ≠ d := by
      rintro rfl
      exact hu List.mem_cons_self
    rw [List.cons_append, Text.cutAt?, if_neg hc, ih fun hmem => hu (List.mem_cons_of_mem _ hmem)]
    rfl

theorem cutAt?_eq_none {d : Char} {u : List Char} (hu : d ∉ u) : Text.cutAt? d u = none := by
  induction u with
  | nil => rfl
  | cons c u ih =>
    have hc : c ≠ d := by
      rintro rfl
      exact hu List.mem_cons_self
    rw [Text.cutAt?, if_neg hc, ih fun hmem => hu (List.mem_cons_of_mem _ hmem)]
    rfl

/-- The last space of a text is in front of its last word. -/
theorem cutLastSpace?_append {word : List Char} (text : List Char) (hword : ' ' ∉ word) :
    cutLastSpace? (text ++ ' ' :: word) = some (text, word) := by
  have hreverse : (text ++ ' ' :: word).reverse = word.reverse ++ ' ' :: text.reverse := by simp
  rw [cutLastSpace?, hreverse, cutAt?_append fun hmem => hword (List.mem_reverse.mp hmem)]
  simp only [List.reverse_reverse]

theorem splitDirection_sql (text : List Char) (d : Direction) :
    splitDirection (text ++ ' ' :: d.sql.toList) = (text, d) := by
  cases d <;> rw [splitDirection, cutLastSpace?_append text (by decide)] <;> rfl

/-- The items to order by are read as copies with their directions. -/
theorem reads_orderBy {orderBy : List OrderItem} (h : PlainSource t aliasName)
    (hq : ReadOver q t aliasName) (hitems : ∀ o ∈ orderBy, o.item.IsOver t (labelOf t aliasName)) :
    Reads (readOrderBy q (commaText (orderTexts orderBy))) fun q' =>
      ∃ read, List.Forall₂ (fun o o' => CopyOf o.item o'.item ∧ o.direction = o'.direction) orderBy read ∧
        q' = { q with orderBy := read } := by
  have hsplit : splitOn [','] (commaText (orderTexts orderBy)) = orderTexts orderBy :=
    splitOn_commas (part_orderTexts h hitems) (by decide)
  unfold readOrderBy
  rw [hsplit, orderTexts, List.mapM_map]
  simp only [Function.comp_def, splitDirection_sql]
  refine Reads.bind (P := List.Forall₂ (fun o o' : OrderItem =>
    CopyOf o.item o'.item ∧ o.direction = o'.direction) orderBy) (Reads.mapM ?_) ?_
  · intro o ho
    apply (reads_item h hq (hitems o ho) _).bind
    exact fun j hj => Reads.pure ⟨hj, rfl⟩
  · exact fun read hread => Reads.pure ⟨read, hread, rfl⟩

theorem readOffset_toDigits {firstRow : Nat} (h : 1 < firstRow) (hbound : firstRow ≤ Word.greatestUnsigned) :
    readOffset (Nat.toDigits 10 (firstRow - 1)) = .ok firstRow := by
  have hread := readIndex?_toDigits (n := firstRow - 1) (by omega)
  have hlt : firstRow - 1 < Word.greatestUnsigned := by omega
  have hback : firstRow - 1 + 1 = firstRow := by omega
  unfold readOffset readCount
  rw [hread]
  show (if firstRow - 1 < Word.greatestUnsigned then Except.ok (firstRow - 1 + 1) else _) = _
  rw [if_pos hlt, hback]

end Clauses

/-! ## Reading FROM -/

section Sources

variable {t : Table} {aliasName : Option String} {catalog : Catalog}

/-- A name ends at the first space of a text that it begins. -/
theorem splitTableName_name {name : List Char} (hname : IsName name) (rest : List Char)
    (hrest : rest = [] ∨ ∃ after, rest = ' ' :: after) :
    splitTableName (name ++ rest) = (name, rest.drop 1) := by
  have hspace : (Text.cutAt? ' ' (name ++ rest)).getD (name ++ rest, []) = (name, rest.drop 1) := by
    have hblank : ' ' ∉ name := hname.isWord.not_mem rfl
    rcases hrest with rfl | ⟨after, rfl⟩
    · rw [List.append_nil, cutAt?_eq_none hblank]
      rfl
    · rw [cutAt?_append hblank]
      rfl
  obtain ⟨c, w, rfl, hc, -⟩ := hname.spelling
  have hquote : c ≠ '\'' := by
    rintro rfl
    cases hc
  have hcloser : Scanner.closer? c = none := by
    have hword : isWordChar c = true := hname.isWord.all c List.mem_cons_self
    exact (neutral_of_isWordChar hword).2.2
  rw [List.cons_append] at hspace ⊢
  unfold splitTableName
  simp only [if_neg hquote, hcloser, hspace]
  rfl

theorem readAlias_name {name : List Char} (hname : IsName name) (token : List Char) :
    readAlias name token = .ok (some name) := by
  have hword := hname.isWord
  have hblank : name.contains ' ' = false := by
    rw [List.contains_eq_mem, decide_eq_false_iff_not]
    exact hword.not_mem rfl
  unfold readAlias
  rw [hword.trimmed.trim_eq]
  simp only [hword.afterWord?_eq_none, Option.getD_none, hword.unquoteName_eq, hblank, hword.nonempty,
    Bool.false_eq_true, and_false, or_self, if_false]

theorem trimmed_sourceText (hname : IsName t.name.toList)
    (haliasName : ∀ a ∈ aliasName, IsName a.toList) : Trimmed (sourceText t aliasName) := by
  cases aliasName with
  | none => exact hname.isWord.trimmed
  | some a => exact trimmed_append [' '] hname.isWord.trimmed (haliasName a rfl).isWord.trimmed

/-- **The text of a table under its alias is read as the table**, and nothing is drawn. -/
theorem readSimple_sourceText (hname : IsName t.name.toList)
    (haliasName : ∀ a ∈ aliasName, IsName a.toList) (hcatalog : catalog.table? t.name = some t)
    (depth : Nat) :
    readSimple catalog depth (sourceText t aliasName) = pure (.table t aliasName) := by
  have htrimmed := trimmed_sourceText hname haliasName
  have hsplit : splitTableName (sourceText t aliasName) =
      (t.name.toList, (aliasName.map String.toList).getD []) := by
    cases aliasName with
    | none =>
      have hsplit := splitTableName_name hname [] (Or.inl rfl)
      rwa [List.append_nil] at hsplit
    | some a => exact splitTableName_name hname (' ' :: a.toList) (Or.inr ⟨_, rfl⟩)
  have halias : underAlias (.table t none) ((aliasName.map String.toList).getD [])
      (sourceText t aliasName) = .ok (.table t aliasName) := by
    cases hcase : aliasName with
    | none => rfl
    | some a =>
      show underAlias (.table t none) a.toList _ = _
      rw [underAlias, readAlias_name (haliasName a hcase)]
      simp [Except.map, FromItem.withAlias]
  have hparen : (sourceText t aliasName).head? ≠ some '(' := by
    obtain ⟨c, w, hspelling, hc, -⟩ := hname.spelling
    have hhead : (sourceText t aliasName).head? = some c := by
      cases aliasName <;> simp [sourceText, hspelling]
    rw [hhead]
    rintro heq
    obtain rfl := Option.some.inj heq
    cases hc
  rw [readSimple.eq_def]
  simp only [htrimmed.trim_eq, if_neg hparen, hsplit, hname.isWord.unquoteName_eq,
    if_neg hname.isWord.nonempty, String.ofList_toList, hcatalog, halias]
  rfl

theorem reads_fromItems {q : Query} (h : PlainSource t aliasName)
    (hcatalog : catalog.table? t.name = some t) (depth : Nat) :
    Reads (readFromItems (readSimple catalog depth) q (splitOn [','] (sourceText t aliasName)))
      fun q' => q' = { q with sources := q.sources ++ [.table t aliasName] } := by
  have hpart := part_sourceText h
  have hsplit : splitOn [','] (sourceText t aliasName) = [sourceText t aliasName] := by
    have hsplit := splitOn_commas (List.forall_mem_singleton.mpr hpart) (by decide)
    rwa [List.intercalate_singleton] at hsplit
  have hjoin : splitKeyword "JOIN".toList (sourceText t aliasName) = [sourceText t aliasName] :=
    hpart.clear.splitKeyword_eq (by decide)
  rw [hsplit, readFromItems]
  unfold readFromItem
  rw [hjoin]
  simp only [readSimple_sourceText h.table.name h.aliasName hcatalog, pure_bind]
  exact Reads.pure rfl

end Sources

/-! ## Reading queries -/

section Queries

variable {t : Table} {aliasName : Option String} {catalog : Catalog} {q read : Query}

/-- The reading of clauses one after the other. -/
abbrev readClauses (catalog : Catalog) (q : Query) (clauses : List (String × List Char)) :
    Reader Query :=
  clauses.foldlM (fun q (keyword, text) => readClause catalog q keyword text) q

theorem readClauses_append (clauses more : List (String × List Char)) :
    readClauses catalog read (clauses ++ more) =
      readClauses catalog read clauses >>= fun read => readClauses catalog read more :=
  List.foldlM_append

theorem readClauses_singleton (keyword : String) (text : List Char) :
    readClauses catalog read [(keyword, text)] = readClause catalog read keyword text := by
  simp [readClauses]

/-- A clause that is left out where it has no parts. -/
theorem reads_optionalClause {P : Query → Prop} {keyword : String} {separator : List Char}
    {parts : List (List Char)} (hempty : parts = [] → P read)
    (h : parts ≠ [] → Reads (readClause catalog read keyword (separator.intercalate parts)) P) :
    Reads (readClauses catalog read (optionalClause keyword separator parts)) P := by
  unfold optionalClause
  cases parts with
  | nil => exact Reads.pure (hempty rfl)
  | cons part parts =>
    show Reads (readClauses catalog read [(keyword, _)]) P
    rw [readClauses_singleton]
    exact h (List.cons_ne_nil _ _)

theorem reads_whereClause {filters : List Filter} (h : PlainSource t aliasName)
    (hread : ReadOver read t aliasName) (hnone : read.filters = [])
    (hfilters : ∀ f ∈ filters, f.IsOver t (labelOf t aliasName)) :
    Reads (readClauses catalog read (optionalClause "WHERE" (connectiveText .and) (filterTexts filters)))
      fun read' => ∃ fs, Filter.allSame fs filters = true ∧ read' = { read with filters := fs } := by
  apply reads_optionalClause
  · intro hempty
    obtain rfl : filters = [] := by simpa [filterTexts] using hempty
    exact ⟨[], rfl, by rw [← hnone]⟩
  · intro _
    apply (reads_filters h hread hfilters).bind
    exact fun fs hfs => Reads.pure ⟨fs, hfs, rfl⟩

theorem reads_havingClause {having : List Filter} (h : PlainSource t aliasName)
    (hread : ReadOver read t aliasName) (hnone : read.having = [])
    (hhaving : ∀ f ∈ having, f.IsOver t (labelOf t aliasName)) :
    Reads (readClauses catalog read (optionalClause "HAVING" (connectiveText .and) (filterTexts having)))
      fun read' => ∃ fs, Filter.allSame fs having = true ∧ read' = { read with having := fs } := by
  apply reads_optionalClause
  · intro hempty
    obtain rfl : having = [] := by simpa [filterTexts] using hempty
    exact ⟨[], rfl, by rw [← hnone]⟩
  · intro _
    apply (reads_filters h hread hhaving).bind
    exact fun fs hfs => Reads.pure ⟨fs, hfs, rfl⟩

theorem reads_groupByClause {items : List Item} (h : PlainSource t aliasName)
    (hread : ReadOver read t aliasName) (hnone : read.groupBy = [])
    (hitems : ∀ i ∈ items, i.IsOver t (labelOf t aliasName)) :
    Reads (readClauses catalog read (optionalClause "GROUP BY" [',', ' '] (itemTexts items)))
      fun read' => ∃ copies, List.Forall₂ CopyOf items copies ∧
        read' = { read with groupBy := copies } := by
  apply reads_optionalClause
  · intro hempty
    obtain rfl : items = [] := by simpa [itemTexts] using hempty
    exact ⟨[], List.Forall₂.nil, by rw [← hnone]⟩
  · exact fun _ => reads_items h hread hitems

theorem reads_orderByClause {orderBy : List OrderItem} (h : PlainSource t aliasName)
    (hread : ReadOver read t aliasName) (hnone : read.orderBy = [])
    (hitems : ∀ o ∈ orderBy, o.item.IsOver t (labelOf t aliasName)) :
    Reads (readClauses catalog read (optionalClause "ORDER BY" [',', ' '] (orderTexts orderBy)))
      fun read' => ∃ os, List.Forall₂ (fun o o' => CopyOf o.item o'.item ∧ o.direction = o'.direction)
        orderBy os ∧ read' = { read with orderBy := os } := by
  apply reads_optionalClause
  · intro hempty
    obtain rfl : orderBy = [] := by simpa [orderTexts] using hempty
    exact ⟨[], List.Forall₂.nil, by rw [← hnone]⟩
  · exact fun _ => reads_orderBy h hread hitems

theorem reads_windowClauses {firstRow : Nat} {maxRows : Option Nat} (hfirst : read.firstRow = 1)
    (hmax : read.maxRows = none) (hrow : 1 ≤ firstRow ∧ firstRow ≤ Word.greatestUnsigned)
    (hrows : ∀ n ∈ maxRows, n ≤ Word.greatestUnsigned) :
    Reads (readClauses catalog read (windowClauses firstRow maxRows)) fun read' =>
      read' = { read with firstRow := firstRow, maxRows := maxRows } := by
  have hlimit : Reads (readClauses catalog read
      (maxRows.map fun n => ("LIMIT", Nat.toDigits 10 n)).toList) fun read' =>
        read' = { read with maxRows := maxRows } := by
    cases hmaxRows : maxRows with
    | none => exact Reads.pure (by rw [← hmax])
    | some n =>
      show Reads (readClauses catalog read [("LIMIT", Nat.toDigits 10 n)]) _
      rw [readClauses_singleton]
      have hcount : readCount "LIMIT" (Nat.toDigits 10 n) = .ok n := by
        rw [readCount, readIndex?_toDigits (hrows n hmaxRows)]
      apply (Reads.lift (P := fun m => m = n) hcount rfl).bind
      rintro _ rfl
      exact Reads.pure rfl
  rw [windowClauses, readClauses_append]
  apply hlimit.bind
  rintro _ rfl
  split_ifs with hone
  · rw [readClauses_singleton]
    apply (Reads.lift (P := fun m => m = firstRow) (readOffset_toDigits hone hrow.2) rfl).bind
    rintro _ rfl
    exact Reads.pure rfl
  · have hfirstRow : read.firstRow = firstRow := by omega
    exact Reads.pure (by rw [← hfirstRow])

theorem sameOrder_of_copies {orderBy os : List OrderItem} {label : String}
    (hitems : ∀ o ∈ orderBy, o.item.IsOver t label)
    (h : List.Forall₂ (fun o o' => CopyOf o.item o'.item ∧ o.direction = o'.direction) orderBy os) :
    FromItem.sameOrder os orderBy = true := by
  induction h with
  | nil => rfl
  | @cons o o' _ _ hcopy _ ih =>
    obtain ⟨ho, hrest⟩ := List.forall_mem_cons.mp hitems
    obtain ⟨⟨id, hitem⟩, hdirection⟩ := hcopy
    rw [FromItem.sameOrder, ih hrest, hitem, hdirection,
      Item.sameAs_of_same (same_of_isOver ho id), beq_self_eq_true]
    rfl

/-- **The clauses after a select list are read as what they were written from.** -/
theorem reads_clausesOf {copies : List Item} (hq : q.IsPlainOver t aliasName)
    (hcopies : List.Forall₂ CopyOf q.select copies) :
    Reads (readClauses catalog
        { sources := [.table t aliasName], distinct := q.distinct, select := copies }
        (clausesOf q t aliasName)) fun read =>
      FromItem.sameClauses read q = true ∧ read.sources = [.table t aliasName] := by
  have h := hq.source
  have hunaliased := copies_unaliased hq.select hcopies
  show Reads (readClauses catalog _ (_ ++ (_ ++ (_ ++ (_ ++ _))))) _
  rw [readClauses_append]
  apply (reads_whereClause h ⟨rfl, hunaliased⟩ rfl hq.filters).bind
  rintro _ ⟨filters, hfilters, rfl⟩
  rw [readClauses_append]
  apply (reads_groupByClause h ⟨rfl, hunaliased⟩ rfl hq.groupBy).bind
  rintro _ ⟨groupBy, hgroupBy, rfl⟩
  rw [readClauses_append]
  apply (reads_havingClause h ⟨rfl, hunaliased⟩ rfl hq.having).bind
  rintro _ ⟨having, hhaving, rfl⟩
  rw [readClauses_append]
  apply (reads_orderByClause h ⟨rfl, hunaliased⟩ rfl hq.orderBy).bind
  rintro _ ⟨orderBy, horderBy, rfl⟩
  apply (reads_windowClauses rfl rfl hq.firstRow hq.maxRows).mono
  rintro _ rfl
  refine ⟨?_, rfl⟩
  have hselect := Item.sameLayout_iff.mpr (copies_same hq.select hcopies)
  have hgrouped := FromItem.sameItems_iff.mpr ((copies_same hq.groupBy hgroupBy).imp
    fun _ _ hsame => Item.sameAs_of_same hsame)
  simp only [FromItem.sameClauses, hselect, hfilters, hgrouped, hhaving,
    sameOrder_of_copies hq.orderBy horderBy, beq_self_eq_true, Bool.and_self]

theorem Reads.renumbered {α : Type} {r : Reader α} {P : α → Prop} (h : Reads r P) :
    Reads (Grammar.renumbered r) P := by
  intro s
  obtain ⟨a, s', hrun, ha⟩ := h { s with nextParameter := 0 }
  exact ⟨a, _, run_renumbered_eq_ok_iff.mpr ⟨s', hrun, rfl⟩, ha⟩

/-- **A query is read back from its text**, as an equal query over the same table. -/
theorem reads_sql (hq : q.IsPlainOver t aliasName) (hcatalog : catalog.table? t.name = some t) :
    Reads (readQuery catalog q.sql) fun read =>
      FromItem.sameClauses read q = true ∧ read.sources = [.table t aliasName] := by
  have hselect := part_selectText q.distinct hq.source hq.nonempty hq.select
  have horder := inOrder_clausesOf hq
  have hpart := part_queryText hselect horder
  unfold readQuery readWith
  rw [toList_sql hq, hpart.tidy.normalize_eq hpart.balanced]
  apply (Reads.lift (P := fun sql => sql = queryText (selectText q.distinct q.select)
    (clausesOf q t aliasName)) rfl rfl).bind
  rintro _ rfl
  apply Reads.renumbered
  unfold readNormalized
  rw [locateClauses_queryText hselect horder List.mem_cons_self]
  apply (Reads.lift (P := fun clauses => clauses = ("SELECT", selectText q.distinct q.select) ::
    clausesOf q t aliasName) rfl rfl).bind
  rintro _ rfl
  apply (reads_fromItems hq.source hcatalog _).bind
  rintro _ rfl
  apply (reads_select q.distinct hq.source rfl hq.nonempty hq.select).bind
  rintro _ ⟨copies, hcopies, rfl⟩
  exact reads_clausesOf hq hcopies

/-- **Reading the text of a query gives the query back.**  For every query over one table that the
catalog has under its name, the text is read without an error from all counters; the result equals
the query, and once both are resolved they are equal as well, whatever identities are drawn. -/
theorem readQuery_sql (hq : q.IsPlainOver t aliasName) (hcatalog : catalog.table? t.name = some t)
    (s : State) :
    ∃ read s', (readQuery catalog q.sql).run s = (.ok read, s') ∧ read.same q = true ∧
      ∀ n m, QueryOf.same (read.resolved.run n).1 (q.resolved.run m).1 = true := by
  obtain ⟨read, s', hrun, hsame, hsources⟩ := reads_sql hq hcatalog s
  have htables : ∀ f ∈ q.sources, f.IsTable := by
    rw [hq.sources]
    exact List.forall_mem_singleton.mpr ⟨t, aliasName, rfl⟩
  have hequal := hsources.trans hq.sources.symm
  exact ⟨read, s', hrun, FromItem.same_of_sameClauses hequal htables hsame,
    (same_resolved hequal htables hsame).results⟩

end Queries

section Instance

/-- A table of people with a name and an age. -/
def people : Table where
  name := "people"
  columns := [⟨"name", "people", some .text, false⟩, ⟨"age", "people", some .number, false⟩]

/-- How many people there are of each name that holds a quote or is of someone older than 30. -/
def namesOfPeople : Query where
  select := [Item.ofColumn 1 ⟨"name", "people", some .text, false⟩ (some "p"), Item.countAll 2]
  distinct := true
  sources := [.table people (some "p")]
  filters := [.group .or [
    .comparison (Item.ofColumn 3 ⟨"name", "people", some .text, false⟩ none) .like
      (.value (.text "O'B%")),
    .comparison (Item.ofColumn 4 ⟨"age", "people", some .number, false⟩ none) .greater
      (.value (.integer 30))]]
  groupBy := [Item.ofColumn 5 ⟨"name", "people", some .text, false⟩ (some "p")]
  firstRow := 3
  maxRows := some 5

theorem isName_of_spelling {c : Char} {rest : List Char} (hc : c.isAlpha = true)
    (hrest : (rest.all fun d => Text.isAlphanumeric d || d == '_') = true)
    (hreserved : ∀ k ∈ reservedWords, eqIgnoreCase (c :: rest) k = false) : IsName (c :: rest) :=
  ⟨⟨c, rest, rfl, hc, fun d hd => by simpa using List.all_eq_true.mp hrest d hd⟩, hreserved⟩

theorem namesOfPeople_isPlainOver : namesOfPeople.IsPlainOver people (some "p") where
  source :=
    { table :=
        { name := isName_of_spelling rfl (by decide) (by decide)
          columns := List.forall_mem_cons.mpr ⟨isName_of_spelling rfl (by decide) (by decide),
            List.forall_mem_singleton.mpr (isName_of_spelling rfl (by decide) (by decide))⟩
          distinct := by decide }
      aliasName := by
        rintro a ⟨⟩
        exact isName_of_spelling rfl (by decide) (by decide) }
  sources := rfl
  nonempty := List.cons_ne_nil _ _
  select := List.forall_mem_cons.mpr ⟨.column 1 List.mem_cons_self (Or.inr rfl),
    List.forall_mem_singleton.mpr (.countAll 2 false)⟩
  filters := List.forall_mem_singleton.mpr (.group .or (by decide) (List.forall_mem_cons.mpr
    ⟨.value (.column 3 List.mem_cons_self (Or.inl rfl)) rfl ⟨by unfold Value.IsPlain; decide, rfl⟩,
      List.forall_mem_singleton.mpr (.value (.column 4 (List.mem_cons_of_mem _ List.mem_cons_self)
        (Or.inl rfl)) rfl ⟨trivial, rfl⟩)⟩))
  groupBy := List.forall_mem_singleton.mpr (.column 5 List.mem_cons_self (Or.inr rfl))
  having := List.forall_mem_nil _
  orderBy := List.forall_mem_nil _
  firstRow := by decide
  maxRows := by
    rintro n ⟨⟩
    decide

/-- The query reads back from its text against a catalog of this table alone. -/
theorem readQuery_sql_namesOfPeople :
    namesOfPeople.IsPlainOver people (some "p") ∧
    ∃ read s', (readQuery ⟨fun name => if name = "people" then some people else none, false⟩
        namesOfPeople.sql).run {} = (.ok read, s') ∧ read.same namesOfPeople = true ∧
      ∀ n m, QueryOf.same (read.resolved.run n).1 (namesOfPeople.resolved.run m).1 = true :=
  ⟨namesOfPeople_isPlainOver, readQuery_sql namesOfPeople_isPlainOver rfl {}⟩

end Instance

end Grammar

end DocQuery
