import DocQuery.Proofs.Engine.Shortcuts
import DocQuery.Proofs.Rows.Closing

/-!
# DocQuery.Proofs.Engine.Closing — no data set stays open

A query reads any number of data sets of its source, side by side and one within the other, and any
of them may fail at any row.  However it ends, what is open is what its result still reads
(`Engine.tidy_execute`).  So nothing is open after a failure, and nothing is open once the result has
been read to its end or to its first failure (`Engine.execute_closes`).
-/

namespace DocQuery

open Plan

/-! ## Sources -/

/-- The failures that a source itself reports: when it is asked, or at a row. -/
inductive RowSource.Reports (s : RowSource) : QueryError → Prop
  | read {past : List Request} {t : Table} {columns : List Column} {limit : Option Nat}
      {e : QueryError} (h : s.read past t columns limit = .error e) : s.Reports e
  | row {past : List Request} {t : Table} {columns : List Column} {limit : Option Nat}
      {outcomes : List (Except QueryError (List Value))} {e : QueryError}
      (h : s.read past t columns limit = .ok outcomes) (he : .error e ∈ outcomes) : s.Reports e
  | count {past : List Request} {t : Table} {filters : List Filter} {approximate : Bool}
      {e : QueryError} (h : s.count past t filters approximate = .error e) : s.Reports e
  | lookup {past : List Request} {t : Table} {items : List Item} {column : Column} {key : Value}
      {e : QueryError} (h : s.lookup past t items column key = .error e) : s.Reports e

section Tidy

variable {causes : QueryError → Prop} {first : Nat} {s : RowSource}

theorem RowSet.tidy_handedOut {header : List Item} {outcomes : List (Except QueryError Row)}
    (h : ∀ e, .error e ∈ outcomes → causes e) :
    RowSet.Tidy causes first [] (RowSet.handedOut header outcomes) := by
  intro others l hl
  refine ⟨fun e he => h e ?_, hl.append⟩
  rwa [Stream.outcomes_ofOutcomes] at he

namespace RowSource

variable (hcauses : QueryError.RunAdmitted causes) (hs : ∀ e, s.Reports e → causes e)

include hs

theorem tidy_materializeColumns (t : Table) (columns : List Column) (limit : Option Nat) :
    RowSet.Tidy causes first [] (s.materializeColumns t columns limit) := by
  unfold materializeColumns
  refine (tidy_note _).bind fun past _ => ?_
  refine (tidy_lift fun e he => hs e (.read he)).bind fun outcomes hread => ?_
  refine (tidy_makeItems _).bind fun header _ => RowSet.tidy_handedOut fun e he => ?_
  obtain ⟨o, ho, heq⟩ := List.mem_map.mp he
  exact hs e (.row hread (eq_error_of_map heq ▸ ho))

include hcauses

theorem tidy_materializeTable (t : Table) (items : List Item) {filters : List Filter}
    (hfilters : Filter.FailWithin causes filters) (firstRow : Nat) (maxRows : Option Nat) :
    RowSet.Tidy causes first [] (s.materializeTable t items filters firstRow maxRows) := by
  unfold materializeTable
  refine (tidy_materializeColumns hs t _ _).bind fun d hd => ?_
  have hpaged := (hd.filtered hfilters).paged firstRow maxRows
  refine (RowSet.tidy_selection hcauses hpaged items).of_subset ?_
  rw [RowSet.held_paged, RowSet.held_filtered]
  exact List.Subset.refl _

end RowSource

namespace Engine

variable {options : Options} {q : Query}

/-! ## Short ways -/

/-- What a short way leaves open: what its result reads, if there is one. -/
abbrev TidyShortcut (causes : QueryError → Prop) (first : Nat) (p : Plan (Option RowSet)) : Prop :=
  Plan.Tidy causes first [] (fun short => short.elim [] RowSet.held)
    (fun short => ∀ d ∈ short, d.FailsWithin causes) p

theorem tidy_noShortcut : TidyShortcut causes first (pure none) :=
  tidy_pure (fun _ h => by cases h) (List.nil_subset _)

theorem tidy_someShortcut {d : RowSet} (hd : d.FailsWithin causes) : Plan.Tidy causes first d.held
    (fun short => short.elim [] RowSet.held) (fun short => ∀ d ∈ short, d.FailsWithin causes)
    (pure (some d)) :=
  tidy_pure (fun _ h => by cases h; exact hd) (List.Subset.refl _)

section Ways

variable (hcauses : QueryError.RunAdmitted causes) (hs : ∀ e, s.Reports e → causes e)

include hs

theorem tidy_countShortcut (t : Table) :
    TidyShortcut causes first (countShortcut s options q t) := by
  unfold countShortcut
  split
  · exact tidy_noShortcut
  next item _ =>
    have hcount : Plan.Tidy causes first [] (fun _ => []) (fun _ => True)
        (s.askCount t q.filters item.approximate) := by
      unfold RowSource.askCount
      exact (tidy_note _).bind fun past _ => (tidy_lift fun e he => hs e (.count he)).mono
        (fun _ _ => trivial) fun _ _ => List.Subset.refl _
    refine hcount.bind fun count _ => ?_
    split
    · exact tidy_noShortcut
    · exact (tidy_someShortcut ((RowSet.failsWithin_ofRows _ _).paged _ _)).of_subset
        (List.nil_subset _)

include hcauses

theorem tidy_keyShortcut (t : Table) : TidyShortcut causes first (keyShortcut s options q t) := by
  unfold keyShortcut
  split
  · exact tidy_noShortcut
  next column key _ =>
    have hlookup : Plan.Tidy causes first [] (fun found => found.elim [] RowSet.held)
        (fun found => ∀ d ∈ found, d.FailsWithin causes) (s.askLookup t q.select column key) := by
      unfold RowSource.askLookup
      refine (tidy_note _).bind fun past _ => ?_
      refine (tidy_lift fun e he => hs e (.lookup he)).bind fun found _ => ?_
      split
      · refine (tidy_makeItems _).bind fun header _ => ?_
        exact (tidy_someShortcut (RowSet.failsWithin_ofRows _ _)).of_subset (List.nil_subset _)
      · exact tidy_noShortcut
    refine hlookup.bind fun found hfound => ?_
    cases found with
    | none => exact tidy_noShortcut
    | some d =>
      refine (RowSet.tidy_selection hcauses (hfound d rfl) q.select).bind fun d hd => ?_
      exact (tidy_someShortcut (hd.paged q.firstRow q.maxRows)).of_subset
        (RowSet.held_paged _ _ ▸ List.Subset.refl _)

theorem tidy_shortcut (hfilters : Filter.FailWithin causes q.filters) (t : Table) :
    TidyShortcut causes first (shortcut s options q t) := by
  unfold shortcut
  refine (tidy_countShortcut hs t).bind fun counted hcounted => ?_
  cases counted with
  | some d => exact tidy_someShortcut (hcounted d rfl)
  | none =>
    refine (tidy_keyShortcut hcauses hs t).bind fun found hfound => ?_
    cases found with
    | some d => exact tidy_someShortcut (hfound d rfl)
    | none =>
      dsimp only
      split
      · refine (RowSource.tidy_materializeTable hcauses hs t q.select hfilters _ _).bind ?_
        exact fun d hd => tidy_someShortcut hd
      · exact tidy_noShortcut

/-! ## The long way -/

omit hs in
theorem tidy_finish (hfilters : Filter.FailWithin causes q.filters)
    (hhaving : Filter.FailWithin causes q.having) {sets : List RowSet}
    (hnone : sets = [] → causes .nothingToJoin) (hsets : ∀ d ∈ sets, d.FailsWithin causes) :
    RowSet.Tidy causes first (sets.flatMap RowSet.held) (finish q sets) := by
  have hcombined : RowSet.Tidy causes first (sets.flatMap RowSet.held) (combined q sets) := by
    unfold combined
    split
    next d =>
      refine tidy_pure ((hsets d List.mem_cons_self).filtered hfilters) ?_
      rw [RowSet.held_filtered, List.flatMap_singleton]
      exact List.Subset.refl _
    · exact RowSet.tidy_cartesianProduct hnone hsets hfilters
  have hreduced {d : RowSet} (hd : d.FailsWithin causes) :
      RowSet.Tidy causes first d.held (reduced q d) := by
    unfold reduced
    split
    · exact RowSet.tidy_aggregated hcauses hd _
    · exact RowSet.tidy_grouped hcauses hd _ _
  have harranged {d : RowSet} (hd : d.FailsWithin causes) :
      RowSet.Tidy causes first d.held (arranged q d) := by
    unfold arranged
    split
    · refine (RowSet.tidy_selection hcauses hd q.select).bind fun d hd => ?_
      refine (RowSet.tidy_distinct hcauses hd).bind fun d hd => ?_
      exact RowSet.tidy_ordered hcauses hd q.orderBy
    · refine (RowSet.tidy_ordered hcauses hd q.orderBy).bind fun d hd => ?_
      exact RowSet.tidy_selection hcauses hd q.select
  rw [finish_eq]
  refine hcombined.bind fun d hd => (hreduced hd).bind fun d hd => ?_
  have hkept := harranged (hd.filtered hhaving)
  rw [RowSet.held_filtered] at hkept
  refine hkept.bind fun d hd => tidy_pure (hd.paged q.firstRow q.maxRows) ?_
  rw [RowSet.held_paged]
  exact List.Subset.refl _

/-- A query is tidy if its long way is. -/
theorem tidy_execute_of_longWay (hnone : q.sources = [] → causes (.noFromItems q.sql))
    (hfilters : Filter.FailWithin causes q.filters)
    (hlong : RowSet.Tidy causes first [] (longWay s options q)) :
    RowSet.Tidy causes first [] (execute s options q) := by
  by_cases hsources : q.sources = []
  · rw [execute_of_no_sources s options hsources]
    exact tidy_throw (hnone hsources)
  by_cases hzero : q.maxRows = some 0
  · rw [execute_of_no_rows s options hsources hzero]
    exact tidy_pure (RowSet.failsWithin_ofRows _ _) (List.nil_subset _)
  cases htable : shortcutTable? q with
  | none =>
    rw [execute_of_no_table s options hsources hzero htable]
    exact hlong
  | some t =>
    rw [execute_of_table s options hsources hzero htable]
    refine (tidy_shortcut hcauses hs hfilters t).bind fun short hgood => ?_
    cases short with
    | some d => exact RowSet.tidy_return (hgood d rfl)
    | none => exact hlong

/-! ## From items one by one -/

omit hcauses hs in
theorem tidy_subqueryItems (label : Option String) (needed : List Item) {given : List Nat} :
    Plan.Tidy causes first given (fun _ => given) (fun _ => True) (subqueryItems label needed) := by
  unfold subqueryItems
  refine (tidy_mapM (fun i => ?_) _).bind fun _ _ => tidy_pure trivial (List.Subset.refl _)
  split
  · exact tidy_drawItem.bind fun _ _ => tidy_pure trivial (List.Subset.refl _)
  · exact tidy_pure trivial (List.Subset.refl _)

omit hs in
theorem tidy_join (kind : JoinKind) (conditions : List (Item × Item)) {left right : RowSet}
    (hleft : left.FailsWithin causes) (hright : right.FailsWithin causes) :
    RowSet.Tidy causes first (left.held ++ right.held)
      (join kind left right (FromItem.onFilters conditions)) := by
  have hfilters : Filter.FailWithin causes (FromItem.onFilters conditions) := by
    refine Filter.failWithin_of_parameterCount hcauses
      (Filter.parameterCountOf_eq_zero_iff.mpr fun f hf => ?_)
    obtain ⟨c, -, rfl⟩ := List.mem_map.mp hf
    rfl
  cases kind with
  | inner =>
    have hsets : ∀ d ∈ [left, right], d.FailsWithin causes := by simpa using ⟨hleft, hright⟩
    exact (RowSet.tidy_cartesianProduct (fun h => by cases h) hsets hfilters).of_subset (by simp)
  | left => exact RowSet.tidy_leftJoin hleft hright hfilters
  | right => exact RowSet.tidy_rightJoin hcauses hleft hright hfilters

theorem tidy_materialize_table (t : Table) (aliasName : Option String) (needed : List Item) :
    RowSet.Tidy causes first [] (materialize s options needed (.table t aliasName)) := by
  unfold materialize tableItems
  refine (tidy_makeItems _).bind fun items _ => ?_
  exact RowSource.tidy_materializeTable hcauses hs t items (fun _ h => by cases h) 1 none

omit hs in
/-- The left side of a join is held while the right one is made, and closed if that fails. -/
theorem tidy_materialize_join {l r : FromItem} {conditions : List (Item × Item)} {needed : List Item}
    (hleft : RowSet.Tidy causes first [] (materialize s options (joinItems conditions needed) l))
    (hright : RowSet.Tidy causes first [] (materialize s options (joinItems conditions needed) r))
    (kind : JoinKind) (aliasName : Option String) : RowSet.Tidy causes first []
      (materialize s options needed (.join kind l r conditions aliasName)) := by
  unfold materialize
  refine hleft.bind fun left hleft => ?_
  refine (hright.orElseClosing (RowSet.tidy_closed left)).bind fun right hright => ?_
  exact (tidy_join hcauses kind conditions hleft hright).of_subset (List.append_subset.mpr
    ⟨List.subset_append_right _ _, List.subset_append_left _ _⟩)

/-- What several from items leave open: what their data sets read. -/
abbrev TidyAll (causes : QueryError → Prop) (first : Nat) (done : List RowSet)
    (p : Plan (List RowSet)) : Prop :=
  Plan.Tidy causes first (done.flatMap RowSet.held) (fun sets => sets.flatMap RowSet.held)
    (fun sets => ∀ d ∈ sets, d.FailsWithin causes) p

omit hcauses hs in
/-- The data sets that are there already are held while the next one is made, and closed if that
fails. -/
theorem tidy_materializeAll_cons {f : FromItem} {rest : List FromItem} {needed : List Item}
    {done : List RowSet} (hdone : ∀ d ∈ done, d.FailsWithin causes)
    (hf : RowSet.Tidy causes first [] (materialize s options needed f))
    (hrest : ∀ done : List RowSet, (∀ d ∈ done, d.FailsWithin causes) →
      TidyAll causes first done (materializeAll s options needed done rest)) :
    TidyAll causes first done (materializeAll s options needed done (f :: rest)) := by
  unfold materializeAll
  have hclosing : Plan.Tidy causes first (done.flatMap RowSet.held) (fun _ => [])
      (fun _ => True) (RowSet.closeAll done) :=
    RowSet.tidy_closeAll.of_subset (List.subset_append_left _ _)
  refine (hf.orElseClosing hclosing).bind fun d hd => ?_
  have hmore : ∀ d' ∈ done ++ [d], d'.FailsWithin causes := by
    intro d' hd'
    rcases List.mem_append.mp hd' with hmem | hlast
    · exact hdone d' hmem
    · cases List.mem_singleton.mp hlast
      exact hd
  refine (hrest (done ++ [d]) hmore).of_subset ?_
  rw [List.flatMap_append, List.flatMap_singleton]
  exact List.append_subset.mpr ⟨List.subset_append_right _ _, List.subset_append_left _ _⟩

end Ways

/-! ## Query by query -/

section Runs

set_option linter.unusedSectionVars false

variable (hcauses : QueryError.Admitted causes) (hs : ∀ e, s.Reports e → causes e)

include hcauses hs

mutual

/-- **What is read of a from item is closed unless its data set reads it.** -/
theorem tidy_materialize : (f : FromItem) → (needed : List Item) →
    (∀ q ∈ f.queries, Filter.FailWithin causes (q.filters ++ q.having)) →
      RowSet.Tidy causes first [] (materialize s options needed f)
  | .table t aliasName, needed, _ => tidy_materialize_table hcauses.run hs t aliasName needed
  | .subquery q aliasName, needed, hq => by
    unfold materialize
    refine (tidy_subqueryItems aliasName needed).bind fun items _ => ?_
    refine (tidy_execute q hq).bind fun d hd => ?_
    exact tidy_pure (hd.projected hcauses.run) (List.Subset.refl _)
  | .expression text _, needed, _ => by
    unfold materialize
    exact tidy_throw (hcauses _ fun _ => QueryError.noConfusion)
  | .join kind l r conditions aliasName, needed, hq =>
    tidy_materialize_join hcauses.run
      (tidy_materialize l _ fun q hmem => hq q (List.mem_append_left _ hmem))
      (tidy_materialize r _ fun q hmem => hq q (List.mem_append_right _ hmem)) kind aliasName

theorem tidy_materializeAll : (sources : List FromItem) → (needed : List Item) →
    (∀ q ∈ FromItem.queriesIn sources, Filter.FailWithin causes (q.filters ++ q.having)) →
    (done : List RowSet) → (∀ d ∈ done, d.FailsWithin causes) →
      TidyAll causes first done (materializeAll s options needed done sources)
  | [], needed, _, done, hdone => by
    unfold materializeAll
    exact tidy_pure hdone (List.Subset.refl _)
  | f :: rest, needed, hq, done, hdone =>
    tidy_materializeAll_cons hdone
      (tidy_materialize f needed fun q hmem => hq q (List.mem_append_left _ hmem))
      (tidy_materializeAll rest needed fun q hmem => hq q (List.mem_append_right _ hmem))

/-- **However a query ends, what is open is what its result still reads**, and it fails where its
source does or for a reason of its own. -/
theorem tidy_execute : (q : QueryOf FromItem) →
    (∀ q' ∈ FromItem.queriesOf q, Filter.FailWithin causes (q'.filters ++ q'.having)) →
      RowSet.Tidy causes first [] (execute s options q)
  | ⟨select, distinct, sources, filters, groupBy, having, orderBy, firstRow, maxRows⟩, hq => by
    let q : Query := ⟨select, distinct, sources, filters, groupBy, having, orderBy, firstRow, maxRows⟩
    have hown : Filter.FailWithin causes (q.filters ++ q.having) := hq q List.mem_cons_self
    have hfilters : Filter.FailWithin causes q.filters := hown.subset (List.subset_append_left _ _)
    refine tidy_execute_of_longWay hcauses.run hs
      (fun _ => hcauses _ fun _ => QueryError.noConfusion) hfilters ?_
    unfold longWay
    refine (tidy_materializeAll sources (neededItems q)
      (fun q' hmem => hq q' (List.mem_cons_of_mem _ hmem)) [] (by simp)).bind fun sets hsets => ?_
    exact tidy_finish hcauses.run hfilters (hown.subset (List.subset_append_right _ _))
      (fun _ => hcauses _ fun _ => QueryError.noConfusion) hsets

end

end Runs

end Engine

end Tidy

namespace Engine

/-- **No data set stays open.**  A query over any source, which may fail whenever it is asked and at
any row, either fails and has closed all data sets that it was handed out, or gives a data set; and
reading that one to its end or to its first failure closes those that were still open. -/
theorem execute_closes (s : RowSource) (options : Options) (q : Query) (l : Ledger) :
    (execute s options q).Ends l
      (fun d opened => d.toRows.Ends opened (fun _ => l.ClosedSince) fun _ => l.ClosedSince)
      fun _ => l.ClosedSince := by
  have hany : QueryError.Admitted fun _ => True := fun _ _ => trivial
  have htidy : RowSet.Tidy (fun _ => True) l.meters.length [] (execute s options q) :=
    tidy_execute hany (fun _ _ => trivial) q fun _ _ _ _ _ _ _ => trivial
  refine (htidy [] l l.openAmong_start).mono (fun d opened hopened => ?_) fun e ended hended => ?_
  · exact ((RowSet.tidy_toRows hopened.1) [] opened hopened.2).mono
      (fun _ _ hclosed => hclosed.2.closedSince) fun _ _ hclosed => hclosed.2.closedSince
  · exact hended.2.closedSince

end Engine

end DocQuery
