import DocQuery.Proofs.Engine.Asking
import DocQuery.Proofs.Engine.Shortcuts
import DocQuery.Proofs.Rows.Headed

/-!
# DocQuery.Proofs.Engine.Headers — the headers of what a query gives

What a query gives has its select list as header, or items that are equal to it in their places
(`Engine.matches_of_execute`).  Its rows have such headers as well if the query refers within its
subquery (`Engine.selected_of_execute`), which every query does that was read from a text
(`Engine.refersWithin_of_isRead`).
-/

namespace DocQuery

open Plan

/-! ## Depth -/

namespace Item

/-- How many references lead to what an item reads. -/
def depth : Item → Nat
  | ⟨_, .inner x, _, _, _, _, _⟩ => x.depth + 1
  | _ => 0

theorem depth_of_inner? {i x : Item} (h : i.inner? = some x) : i.depth = x.depth + 1 := by
  obtain ⟨_, source, _, _, _, _, _⟩ := i
  cases source with
  | inner y =>
    cases h
    rw [depth]
  | column c => cases h
  | expression text => cases h
  | nothing => cases h

theorem depth_of_inner?_eq_none {i : Item} (h : i.inner? = none) : i.depth = 0 := by
  obtain ⟨_, source, _, _, _, _, _⟩ := i
  cases source with
  | inner y => cases h
  | column c => rfl
  | expression text => rfl
  | nothing => rfl

/-- Items that denote the same lead equally deep. -/
theorem depth_of_sameAs {strict : Bool} {a b : Item} (h : sameAs strict a b = true) :
    a.depth = b.depth := by
  induction hn : a.depth generalizing a b with
  | zero =>
    rcases inner?_of_sameAs h with ⟨-, hb⟩ | ⟨x, y, ha, -, -⟩
    · exact (depth_of_inner?_eq_none hb).symm
    · rw [depth_of_inner? ha] at hn
      cases hn
  | succ n ih =>
    rcases inner?_of_sameAs h with ⟨ha, -⟩ | ⟨x, y, ha, hb, hxy⟩
    · rw [depth_of_inner?_eq_none ha] at hn
      cases hn
    · rw [depth_of_inner? ha, Nat.succ_inj] at hn
      rw [depth_of_inner? hb, ih hxy hn]

theorem depths_of_sameLayout {as bs : List Item} (h : sameLayout as bs = true) :
    as.map depth = bs.map depth :=
  map_eq_map_of_forall₂ (sameLayout_iff.mp h) fun _ _ _ hsame => depth_of_sameAs (sameAs_of_same hsame)

/-- **References to items are never laid out like these items**, unless there are none: the least
deep of them would refer to an item that is less deep still. -/
theorem eq_nil_of_sameLayout_references {header items select : List Item}
    (hlayout : sameLayout header items = true) (hheader : Header.Matches header select)
    (hitems : ∀ i ∈ items, ∃ x ∈ select, i.inner? = some x) : header = [] := by
  have hdepths : items.map depth = select.map depth := by
    rw [← depths_of_sameLayout hlayout]
    rcases hheader with rfl | hsame
    · rfl
    · exact depths_of_sameLayout hsame
  have hnone : ∀ n, ∀ i ∈ items, i.depth ≠ n := by
    -- By strong induction on the depth: what an item refers to is as deep as another one of them.
    intro n
    induction n using Nat.strongRecOn with
    | ind n ih =>
      intro i hi hn
      obtain ⟨x, hx, hinner⟩ := hitems i hi
      rw [depth_of_inner? hinner] at hn
      have hmem : x.depth ∈ items.map depth := by
        rw [hdepths]
        exact List.mem_map_of_mem hx
      obtain ⟨j, hj, heq⟩ := List.mem_map.mp hmem
      exact ih x.depth (by omega) j hj heq
  have hnil : items = [] := List.eq_nil_iff_forall_not_mem.mpr fun i hi => hnone _ i hi rfl
  rw [hnil] at hlayout
  exact List.forall₂_nil_right_iff.mp (sameLayout_iff.mp hlayout)

end Item

/-! ## Tables -/

namespace RowSource

variable {s : RowSource} {t : Table} {items : List Item} {d : RowSet} {l l' : Ledger}

/-- What a source hands out has the columns that it was asked for as header. -/
theorem isHeaded_of_materializeColumns {columns : List Column} {limit : Option Nat}
    (hrun : (s.materializeColumns t columns limit).run l = (.ok d, l')) : d.IsHeaded := by
  unfold materializeColumns at hrun
  obtain ⟨past, k, -, hrun⟩ := run_bind_eq_ok hrun
  obtain ⟨outcomes, k', -, hrun⟩ := run_bind_eq_ok hrun
  obtain ⟨header, k'', -, hrun⟩ := run_bind_eq_ok hrun
  cases hrun
  intro _ row hrow
  rw [Stream.outcomes_ofOutcomes] at hrow
  obtain ⟨o, -, ho⟩ := List.mem_map.mp hrow
  cases o with
  | ok values =>
    cases ho
    rfl
  | error e => cases ho

/-- The rows of a table are selected from what its source hands out. -/
theorem materializeTable_eq_ok {filters : List Filter} {firstRow : Nat} {maxRows : Option Nat}
    (hrun : (s.materializeTable t items filters firstRow maxRows).run l = (.ok d, l')) :
    ∃ (given : RowSet) (k : Ledger), given.IsHeaded ∧ (given.selection items).run k = (.ok d, l') := by
  obtain ⟨given, k, hgiven, hselected⟩ := run_bind_eq_ok hrun
  exact ⟨_, k, ((isHeaded_of_materializeColumns hgiven).filtered _).paged _ _, hselected⟩

/-- The row of a key has the columns that the source gave for it. -/
theorem isHeaded_of_askLookup {column : Column} {key : Value}
    (hrun : (s.askLookup t items column key).run l = (.ok (some d), l')) : d.IsHeaded := by
  unfold askLookup at hrun
  obtain ⟨past, k, -, hrun⟩ := run_bind_eq_ok hrun
  obtain ⟨found?, k', -, hrun⟩ := run_bind_eq_ok hrun
  cases found? with
  | none => cases hrun
  | some found =>
    obtain ⟨header, k'', -, hrun⟩ := run_bind_eq_ok hrun
    cases hrun
    refine RowSet.isHeaded_ofRows fun row hrow => ?_
    rw [List.mem_singleton.mp hrow]

end RowSource

namespace Engine

variable {s : RowSource} {options : Options} {q : Query} {t : Table} {d : RowSet} {l l' : Ledger}

/-! ## Short ways -/

theorem selected_of_countShortcut
    (hrun : (countShortcut s options q t).run l = (.ok (some d), l')) : d.Selected q.select := by
  unfold countShortcut at hrun
  split at hrun
  · cases hrun
  · obtain ⟨n?, k, -, hrun⟩ := run_bind_eq_ok hrun
    cases n? with
    | none => cases hrun
    | some n =>
      cases hrun
      refine (RowSet.selected_ofRows fun row hrow => ?_).paged _ _
      rw [List.mem_singleton.mp hrow]

theorem selected_of_keyShortcut
    (hrun : (keyShortcut s options q t).run l = (.ok (some d), l')) : d.Selected q.select := by
  unfold keyShortcut at hrun
  split at hrun
  · cases hrun
  · obtain ⟨given?, k, hlookup, hrun⟩ := run_bind_eq_ok hrun
    cases given? with
    | none => cases hrun
    | some given =>
      obtain ⟨selected, k', hselected, hrun⟩ := run_bind_eq_ok hrun
      cases hrun
      exact ((RowSource.isHeaded_of_askLookup hlookup).selection hselected).paged _ _

/-- Every short way gives rows that have the select list. -/
theorem selected_of_shortcut (hrun : (shortcut s options q t).run l = (.ok (some d), l')) :
    d.Selected q.select := by
  unfold shortcut at hrun
  obtain ⟨counted?, k, hcount, hrun⟩ := run_bind_eq_ok hrun
  cases counted? with
  | some counted =>
    cases hrun
    exact selected_of_countShortcut hcount
  | none =>
    obtain ⟨found?, k', hkey, hrun⟩ := run_bind_eq_ok hrun
    cases found? with
    | some found =>
      cases hrun
      exact selected_of_keyShortcut hkey
    | none =>
      dsimp only at hrun
      split at hrun
      · obtain ⟨selected, k'', hselected, hrun⟩ := run_bind_eq_ok hrun
        cases hrun
        obtain ⟨given, k₃, hgiven, hselected⟩ := RowSource.materializeTable_eq_ok hselected
        exact hgiven.selection hselected
      · cases hrun

/-! ## From items -/

/-- The header of a query, the rows aside: its select list, or equal items in their places. -/
theorem matches_of_arranged (hrun : (arranged q d').run l = (.ok d, l')) :
    Header.Matches d.header q.select := by
  unfold arranged at hrun
  split at hrun
  · obtain ⟨selected, k, hselected, hrun⟩ := run_bind_eq_ok hrun
    obtain ⟨unique, k', hunique, hordered⟩ := run_bind_eq_ok hrun
    rw [RowSet.header_ordered hordered, (RowSet.headed_of_distinct hunique).1]
    exact RowSet.header_selection hselected
  · obtain ⟨sorted, k, -, hselected⟩ := run_bind_eq_ok hrun
    exact RowSet.header_selection hselected

/-- A query gives no rows at all, takes a short way, or goes the long way. -/
theorem execute_eq_ok (hrun : (execute s options q).run l = (.ok d, l')) :
    d = .empty q.select ∨ (∃ t, (shortcut s options q t).run l = (.ok (some d), l')) ∨
      q.sources ≠ [] ∧ ∃ k, (longWay s options q).run k = (.ok d, l') := by
  by_cases hsources : q.sources = []
  · rw [execute_of_no_sources s options hsources] at hrun
    cases hrun
  by_cases hzero : q.maxRows = some 0
  · rw [execute_of_no_rows s options hsources hzero] at hrun
    cases hrun
    exact Or.inl rfl
  rw [execute_of_sources s options hsources hzero] at hrun
  obtain ⟨short?, k, hshort, hrun⟩ := run_bind_eq_ok hrun
  cases short? with
  | some short =>
    cases hrun
    split at hshort
    next t _ => exact Or.inr (Or.inl ⟨t, hshort⟩)
    next => cases hshort
  | none => exact Or.inr (Or.inr ⟨hsources, k, hrun⟩)

/-- **What a query gives has its select list as header**, or equal items in their places. -/
theorem matches_of_execute (hrun : (execute s options q).run l = (.ok d, l')) :
    Header.Matches d.header q.select := by
  rcases execute_eq_ok hrun with rfl | ⟨t, hshort⟩ | ⟨-, k, hlong⟩
  · exact Or.inl rfl
  · exact (selected_of_shortcut hshort).header
  · obtain ⟨sets, k', -, d₀, d₁, d₂, k₀, k₁, -, -, harranged, rfl⟩ := longWay_eq_ok hlong
    rw [RowSet.header_paged]
    exact matches_of_arranged harranged

/-- From items give one data set each. -/
theorem length_of_materializeAll {needed : List Item} {sources : List FromItem}
    {done sets : List RowSet}
    (hrun : (materializeAll s options needed done sources).run l = (.ok sets, l')) :
    sets.length = done.length + sources.length := by
  induction sources generalizing done l with
  | nil =>
    unfold materializeAll at hrun
    cases hrun
    rfl
  | cons f rest ih =>
    unfold materializeAll at hrun
    obtain ⟨given, k, -, hrun⟩ := run_bind_eq_ok hrun
    rw [ih hrun, List.length_append, List.length_singleton, List.length_cons]
    omega

end Engine

end DocQuery
