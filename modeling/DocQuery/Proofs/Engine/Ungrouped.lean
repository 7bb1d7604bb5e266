import DocQuery.Proofs.Engine.Closing
import DocQuery.Proofs.Engine.Everything
import DocQuery.Proofs.Engine.Headers
import DocQuery.Proofs.Engine.Twins
import DocQuery.Proofs.Query.Sameness
import DocQuery.Proofs.Rows.Aggregating

/-!
# DocQuery.Proofs.Engine.Ungrouped — selected columns that are not grouped by

A query that groups rows can show a column of them only if it groups by it.  The groups are asked for
a selected column as any rows are, in the end regardless of its scope
(`Header.isReadable_iff_of_isColumn`).  So a query over tables is refused where it selects a column
that it groups by under no label at all (`Engine.execute_ungrouped`), but the column of one from item
passes for that of another (`Engine.execute_subordinatesById`).  Whatever a query over tables fails for,
it is an error of execution unless the source reports it (`Engine.kind_of_failure`).
-/

namespace DocQuery

open Plan

/-! ## Plain columns -/

/-- An item that is a column, of whatever from item. -/
structure Item.IsColumn (i : Item) (c : Column) : Prop where
  column : i.column? = some c
  function : i.function = none

namespace Item.IsColumn

variable {i g : Item} {c : Column}

theorem inner? (h : i.IsColumn c) : i.inner? = none := by
  have hcolumn := h.column
  unfold Item.column? at hcolumn
  unfold Item.inner?
  split at hcolumn
  next hsource => rw [hsource]
  next => cases hcolumn

theorem scalar? (h : i.IsColumn c) : i.scalar? = none := by
  unfold Item.scalar?
  rw [h.function]
  rfl

theorem aggregate? (h : i.IsColumn c) : i.aggregate? = none := by
  unfold Item.aggregate?
  rw [h.function]
  rfl

/-- A copy of a column is the column. -/
theorem of_copy (h : i.IsColumn c) (hcopy : g.withoutAlias = i.withoutAlias) : g.IsColumn c where
  column := (congrArg Item.column? hcopy).trans h.column
  function := (congrArg Item.function hcopy).trans h.function

/-- What denotes a column, in any scope, is the column. -/
theorem of_sameAs {strict : Bool} (h : i.IsColumn c) (hsame : Item.sameAs strict g i = true) :
    g.IsColumn c where
  column := (Item.column?_of_sameAs hsame).trans h.column
  function := (Item.function_of_sameAs hsame).trans h.function

end Item.IsColumn

/-- A column is read where an item has its identity, or denotes it in any scope. -/
theorem Header.isReadable_iff_of_isColumn {items : List Item} {i : Item} {c : Column}
    (h : i.IsColumn c) : Header.isReadable items i = true ↔
      ∃ g ∈ items, g.id = i.id ∨ Item.sameAs false g i = true := by
  have hfind : Header.isReadable items i = (Header.find? items i).isSome := by
    unfold Header.isReadable Header.resolve?
    rw [h.inner?, h.scalar?]
    cases Header.find? items i <;> rfl
  rw [hfind]
  unfold Header.find?
  simp only [Option.orElse_eq_orElse, Option.orElse_eq_or, Option.isSome_or, List.findIdx?_isSome,
    Bool.or_eq_true, List.any_eq_true, beq_iff_eq]
  constructor
  · rintro (⟨g, hg, hid⟩ | ⟨g, hg, hsame⟩ | ⟨g, hg, hsame⟩)
    · exact ⟨g, hg, Or.inl hid⟩
    · exact ⟨g, hg, Or.inr (Item.sameAs_false_of_sameAs hsame)⟩
    · exact ⟨g, hg, Or.inr hsame⟩
  · rintro ⟨g, hg, hid | hsame⟩
    · exact Or.inl ⟨g, hg, hid⟩
    · exact Or.inr (Or.inr ⟨g, hg, hsame⟩)

section Refusal

variable {items groupBy : List Item} {i : Item} {c : Column} (hcolumn : i.IsColumn c)
  (hcopies : ∀ j ∈ items, j.id = i.id → j.withoutAlias = i.withoutAlias)
  (hungrouped : ∀ g ∈ groupBy, g.id ≠ i.id ∧ Item.sameAs false g i = false)

include hcolumn hcopies hungrouped

/-- Groups do not have a column of which no item to group by is a copy, and which none denotes in any
scope: an aggregate is no column. -/
theorem Header.isReadable_groups_eq_false :
    Header.isReadable (groupBy ++ RowSet.aggregatesAmong items) i = false := by
  rw [Bool.eq_false_iff, ne_eq, Header.isReadable_iff_of_isColumn hcolumn]
  rintro ⟨g, hg, hread⟩
  rcases List.mem_append.mp hg with hgrouped | haggregate
  · obtain ⟨hid, hsame⟩ := hungrouped g hgrouped
    rw [hsame] at hread
    exact hread.elim hid Bool.false_ne_true
  · rcases Item.mem_of_mem_foldl_pushNew haggregate with hnil | hmem
    · cases hnil
    obtain ⟨hmem, hfunction⟩ := List.mem_filter.mp hmem
    have hg : g.IsColumn c :=
      hread.elim (fun hid => hcolumn.of_copy (hcopies g hmem hid)) hcolumn.of_sameAs
    rw [hg.aggregate?] at hfunction
    cases hfunction

/-- **Grouping refuses a column that is not grouped by**, before any row is read. -/
theorem RowSet.grouped_eq_refusal (hi : i ∈ items) (d : RowSet) :
    ∃ e : QueryError, e.kind = .execution ∧
      d.grouped items groupBy = (d.close >>= fun _ => throw e) := by
  unfold RowSet.grouped
  cases haggregates : RowSet.aggregatesOf items with
  | error e =>
    have hrun : QueryError.RunAdmitted (·.kind = .execution) := fun _ h _ => h
    exact ⟨e, RowSet.aggregatesOf_failsWithin hrun haggregates, rfl⟩
  | ok aggregates =>
    obtain rfl := RowSet.aggregatesOf_eq_ok haggregates
    have hloose := Header.isReadable_groups_eq_false hcolumn hcopies hungrouped
    dsimp only
    cases hfind : items.find? fun i =>
        !Header.isReadable (groupBy ++ RowSet.aggregatesAmong items) i with
    | none =>
      have hread := List.find?_eq_none.mp hfind i hi
      rw [hloose] at hread
      exact absurd rfl hread
    | some loose => exact ⟨_, rfl, rfl⟩

end Refusal

namespace Engine

variable {s : RowSource} {options : Options} {q : Query} {causes : QueryError → Prop} {first : Nat}

/-! ## Failures of queries over tables -/

section Tables

variable (hcauses : QueryError.RunAdmitted causes) (hs : ∀ e, s.Reports e → causes e)

include hcauses hs

theorem tidy_materialize_of_tables : (f : FromItem) → (∀ leaf ∈ f.leaves, leaf.IsTable) →
    (needed : List Item) → RowSet.Tidy causes first [] (materialize s options needed f)
  | .table t aliasName, _, needed => tidy_materialize_table hcauses hs t aliasName needed
  | .join kind l r _ aliasName, h, _ => tidy_materialize_join hcauses
      (tidy_materialize_of_tables l (fun leaf hmem => h leaf (List.mem_append_left _ hmem)) _)
      (tidy_materialize_of_tables r (fun leaf hmem => h leaf (List.mem_append_right _ hmem)) _)
      kind aliasName
  | .subquery _ _, h, _ => by
    obtain ⟨t, aliasName, heq⟩ := h _ (List.mem_singleton_self _)
    cases heq
  | .expression _ _, h, _ => by
    obtain ⟨t, aliasName, heq⟩ := h _ (List.mem_singleton_self _)
    cases heq

theorem tidy_materializeAll_of_tables {sources : List FromItem}
    (h : ∀ f ∈ sources, ∀ leaf ∈ f.leaves, leaf.IsTable) (needed : List Item) :
    ∀ done : List RowSet, (∀ d ∈ done, d.FailsWithin causes) →
      TidyAll causes first done (materializeAll s options needed done sources) := by
  induction sources with
  | nil =>
    intro done hdone
    unfold materializeAll
    exact tidy_pure hdone (List.Subset.refl _)
  | cons f rest ih =>
    intro done hdone
    rw [List.forall_mem_cons] at h
    exact tidy_materializeAll_cons hdone (tidy_materialize_of_tables hcauses hs f h.1 needed) (ih h.2)

/-- A query over tables is tidy, and nothing of how it is set up makes it fail. -/
theorem tidy_execute_of_tables (hover : IsOverTables q)
    (hfilters : Filter.FailWithin causes q.filters) (hhaving : Filter.FailWithin causes q.having) :
    RowSet.Tidy causes first [] (execute s options q) := by
  refine tidy_execute_of_longWay hcauses hs (fun hnone => absurd hnone hover.sources) hfilters ?_
  have hsets : TidyAll causes first [] (materializeAll s options (neededItems q) [] q.sources) :=
    tidy_materializeAll_of_tables hcauses hs hover.tables _ [] (by simp)
  refine (hsets.and_run fun _ _ _ hrun => length_of_materializeAll hrun).bind fun sets hsets => ?_
  refine tidy_finish hcauses hfilters hhaving (fun hnone => ?_) hsets.1
  -- There are as many data sets as from items.
  have hlength := hsets.2
  rw [hnone] at hlength
  exact absurd (List.length_eq_zero_iff.mp (by simpa using hlength.symm)) hover.sources

end Tables

/-- **Whatever a query over tables fails for**, it is an error of execution, unless its source
reports it. -/
theorem kind_of_failure (hover : IsOverTables q) {l : Ledger} {e : QueryError}
    (h : (execute s options q).answer l = .error e) : e.kind = .execution ∨ s.Reports e := by
  let causes : QueryError → Prop := fun e => e.kind = .execution ∨ s.Reports e
  have hcauses : QueryError.RunAdmitted causes := fun _ hkind _ => Or.inl hkind
  have hfilters (filters : List Filter) : Filter.FailWithin causes filters :=
    Filter.failWithin_of_unboundParameter hcauses fun _ => Or.inl rfl
  have htidy : RowSet.Tidy causes l.meters.length [] (execute s options q) :=
    tidy_execute_of_tables hcauses (fun _ => Or.inr) hover (hfilters _) (hfilters _)
  obtain ⟨_, hcause, -⟩ := (htidy [] l l.openAmong_start).answer_eq_error h
  exact hcause

end Engine

/-! ## Queries with such a column -/

namespace QueryOf

/-- A grouped query that selects a column of a from item and groups by it neither under the label of
that one nor without a label.  Items share its identity as copies only. -/
structure SelectsUngrouped (q : Query) (i : Item) (c : Column) (label : String) : Prop where
  grouped : q.groupBy ≠ []
  selected : i ∈ q.select
  column : i.IsColumn c
  scope : i.scope = some label
  ungrouped : ∀ g ∈ q.groupBy, g.IsColumn c → g.scope ≠ some label ∧ g.scope ≠ none
  copies : ∀ j ∈ q.itemsOfClauses, j.id = i.id → j.withoutAlias = i.withoutAlias

variable {q : Query} {i : Item} {c : Column} {label : String}

/-- No copy of the column is grouped by. -/
theorem SelectsUngrouped.id_ne (h : q.SelectsUngrouped i c label) {g : Item} (hg : g ∈ q.groupBy) :
    g.id ≠ i.id := by
  intro hid
  have hclause : g ∈ q.itemsOfClauses := by simp [itemsOfClauses, hg]
  have hcopy := h.copies g hclause hid
  exact (h.ungrouped g hg (h.column.of_copy hcopy)).1
    ((congrArg Item.scope hcopy).trans h.scope)

/-- What is grouped are the items of the clauses. -/
theorem SelectsUngrouped.copies_withLaterItems (h : q.SelectsUngrouped i c label) :
    ∀ j ∈ Engine.withLaterItems q q.select, j.id = i.id → j.withoutAlias = i.withoutAlias := by
  intro j hj
  refine h.copies j ?_
  unfold Engine.withLaterItems at hj
  unfold itemsOfClauses
  rcases Item.mem_of_mem_foldl_pushNew hj with hselected | hlater
  · simp [hselected]
  · simp only [List.mem_append] at hlater ⊢
    tauto

end QueryOf

namespace Engine

variable {s : RowSource} {options : Options} {q : Query} {i : Item} {c : Column} {label : String}

/-- **A selected column that is not grouped by is refused.**  A query over tables that selects a
column of a from item, and groups by something but not by this column, neither under the label of the
from item nor without a label, fails, and with an error of execution if its source reports no error.
It must not group by the column under another label either.  A query for no rows at all is answered
before it is looked at. -/
theorem execute_ungrouped (hover : IsOverTables q) (h : q.SelectsUngrouped i c label)
    (hother : ∀ g ∈ q.groupBy, Item.sameAs false g i = false) (l : Ledger) :
    (q.maxRows = some 0 → (execute s options q).answer l = .ok (.empty q.select)) ∧
    (q.maxRows ≠ some 0 → ∃ e, (execute s options q).answer l = .error e ∧
      (e.kind = .execution ∨ s.Reports e)) := by
  refine ⟨fun hzero => ?_, fun hrows => ?_⟩
  · rw [execute_of_no_rows s options hover.sources hzero]
    rfl
  have htable : shortcutTable? q = none := by
    cases hshort : shortcutTable? q with
    | none => rfl
    | some t =>
      obtain ⟨_, -, hgroupBy, -⟩ := exists_of_shortcutTable? hshort
      exact absurd hgroupBy h.grouped
  cases hanswer : (execute s options q).answer l with
  | error e => exact ⟨e, rfl, kind_of_failure hover hanswer⟩
  | ok d =>
    -- A query that is answered has grouped its rows, and these refuse the column.
    have hrun : (longWay s options q).run l = (.ok d, ((longWay s options q).run l).2) := by
      rw [execute_of_no_table s options hover.sources hrows htable] at hanswer
      exact Prod.ext hanswer rfl
    obtain ⟨_, _, -, d₀, d₁, _, k₀, k₁, -, hreduced, -⟩ := longWay_eq_ok hrun
    have hselected : i ∈ withLaterItems q q.select := Item.subset_foldl_pushNew _ _ h.selected
    obtain ⟨e, -, hrefused⟩ := RowSet.grouped_eq_refusal h.column h.copies_withLaterItems
      (fun g hg => ⟨h.id_ne hg, hother g hg⟩) hselected d₀
    unfold reduced at hreduced
    rw [if_neg (by simpa using h.grouped), hrefused] at hreduced
    obtain ⟨_, _, -, hthrown⟩ := run_bind_eq_ok hreduced
    cases hthrown

/-- A column of people. -/
def personColumn (name : String) : Column := ⟨name, "people", some .number, false⟩

/-- People, each with the number of whom they work for. -/
def people : Table := ⟨"people", [personColumn "id", personColumn "boss"]⟩

/-- One person that two others work for. -/
def staff : MemoryTables :=
  ⟨[(people, [[.integer 1, .null], [.integer 2, .integer 1], [.integer 3, .integer 1]])]⟩

/-- The people under others, in groups by a column of these others. -/
def subordinates (groupedBy : String) : Query where
  select := [Item.ofColumn 1 (personColumn "id") (some "a")]
  sources := [.join .inner (.table people (some "a")) (.table people (some "b"))
    [(Item.ofColumn 2 (personColumn "boss") (some "a"),
      Item.ofColumn 3 (personColumn "id") (some "b"))] none]
  groupBy := [Item.ofColumn 4 (personColumn groupedBy) (some "b")]

theorem selectsUngrouped_subordinates (groupedBy : String) :
    (subordinates groupedBy).SelectsUngrouped (Item.ofColumn 1 (personColumn "id") (some "a"))
      (personColumn "id") "a" where
  grouped := List.cons_ne_nil _ _
  selected := List.mem_singleton_self _
  column := ⟨rfl, rfl⟩
  scope := rfl
  ungrouped := by simp [subordinates, Item.ofColumn, Item.plain]
  copies := by
    simp [subordinates, QueryOf.itemsOfClauses, Filter.itemsOf, Item.ofColumn, Item.plain]

/-- In groups by the boss of the other one, they are refused. -/
theorem execute_subordinatesByBoss :
    IsOverTables (subordinates "boss") ∧
    (subordinates "boss").SelectsUngrouped (Item.ofColumn 1 (personColumn "id") (some "a"))
      (personColumn "id") "a" ∧
    (∀ g ∈ (subordinates "boss").groupBy,
      Item.sameAs false g (Item.ofColumn 1 (personColumn "id") (some "a")) = false) ∧
    ∃ e, (execute staff.source {} (subordinates "boss")).answer { nextItem := 5 } = .error e ∧
      (e.kind = .execution ∨ staff.source.Reports e) := by
  have hover : IsOverTables (subordinates "boss") := by decide
  have hother : ∀ g ∈ (subordinates "boss").groupBy,
      Item.sameAs false g (Item.ofColumn 1 (personColumn "id") (some "a")) = false := by
    simp only [subordinates, List.forall_mem_cons]
    decide
  have hrows : (subordinates "boss").maxRows ≠ some 0 := Option.some_ne_none 0 |>.symm
  have hungrouped := selectsUngrouped_subordinates "boss"
  exact ⟨hover, hungrouped, hother, (execute_ungrouped hover hungrouped hother _).2 hrows⟩

/-- In groups by the identity of the other one, they are not: the two people who work for the first
one are shown as the first one. -/
theorem execute_subordinatesById :
    IsOverTables (subordinates "id") ∧
    (subordinates "id").SelectsUngrouped (Item.ofColumn 1 (personColumn "id") (some "a"))
      (personColumn "id") "a" ∧
    shownRows ((Answer.ofPlan (execute staff.source {} (subordinates "id"))).answer
      { nextItem := 5 }) = some ["Row[1]"] :=
  ⟨by decide, selectsUngrouped_subordinates "id", by decide +kernel⟩

end Engine

end DocQuery
