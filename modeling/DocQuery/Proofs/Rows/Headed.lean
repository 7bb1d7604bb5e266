import DocQuery.Proofs.Rows.Aggregating
import DocQuery.Rows.Join

/-!
# DocQuery.Proofs.Rows.Headed — rows under the header of their data set

The rows of a data set need not have its header: where two lists of items are laid out alike, a
selection leaves the rows as they are.  So every operator is followed for what it does to the headers
of the rows.  Most of them keep rows under the header of their data set (`RowSet.IsHeaded`), and a
selection gives rows whose headers are the selected items or are laid out like them
(`RowSet.IsHeaded.selection`).
-/

namespace DocQuery

/-! ## Headers laid out alike -/

namespace Header

/-- A header has these items, or equal ones in their places. -/
def Matches (header items : List Item) : Prop := header = items ∨ Item.sameLayout header items = true

variable {header items : List Item}

theorem Matches.length_eq (h : Matches header items) : header.length = items.length := by
  rcases h with rfl | hlayout
  · rfl
  · exact (Item.sameLayout_iff.mp hlayout).length_eq

theorem Matches.ne_nil (h : Matches header items) (hne : items ≠ []) : header ≠ [] := by
  rw [← List.length_pos_iff] at hne ⊢
  rw [h.length_eq]
  exact hne

/-- An item is found where there is one of its identity, or one that denotes the same. -/
theorem exists_find?_of_mem {s i : Item} (hs : s ∈ header)
    (h : s.id = i.id ∨ Item.sameAs true s i = true) : ∃ n, find? header i = some n := by
  rw [← Option.isSome_iff_exists]
  unfold find?
  rcases h with hid | hsame
  · have hfound : (header.findIdx? (·.id == i.id)).isSome = true := by
      rw [List.findIdx?_isSome, List.any_eq_true]
      exact ⟨s, hs, beq_iff_eq.mpr hid⟩
    simp [hfound]
  · have hfound : (header.findIdx? (Item.sameAs true · i)).isSome = true := by
      rw [List.findIdx?_isSome, List.any_eq_true]
      exact ⟨s, hs, hsame⟩
    simp [hfound]

/-- Every item is found in a header that is laid out like the items. -/
theorem Matches.exists_find? (h : Matches header items) {i : Item} (hi : i ∈ items) :
    ∃ n, find? header i = some n := by
  rcases h with rfl | hlayout
  · exact exists_find?_of_mem hi (Or.inl rfl)
  · obtain ⟨s, hs, hsame⟩ := exists_of_mem_forall₂ (Item.sameLayout_iff.mp hlayout).flip hi
    exact exists_find?_of_mem hs (Or.inr (Item.sameAs_of_same hsame))

end Header

/-! ## Projected rows -/

namespace Row

/-- A row with other items, null where one of them cannot be read. -/
def showing (row : Row) (items : List Item) : Row where
  header := items
  values := items.map fun i => (row.evaluate? i).getD .null
  styles := row.styles.map fun _ => items.map fun i => some (row.styleOf i)

theorem project_eq_showing {row : Row} {items : List Item}
    (h : ∀ i ∈ items, ∃ v, row.evaluate? i = some v) : row.project items = .ok (row.showing items) := by
  refine project_eq_ok_iff.mpr ⟨_, ?_, rfl⟩
  rw [List.map_map]
  refine List.map_congr_left fun i hi => ?_
  obtain ⟨v, hv⟩ := h i hi
  rw [Function.comp, hv, Option.getD_some]

end Row

/-! ## Rows of a stream -/

namespace Stream

/-- Every row that the stream gives has a property, failures aside. -/
def Every (P : Row → Prop) (s : Stream) : Prop := ∀ row, Except.ok row ∈ s.outcomes → P row

variable {P Q : Row → Prop} {s : Stream}

theorem Every.mono (h : s.Every P) (himp : ∀ row, P row → Q row) : s.Every Q :=
  fun row hrow => himp row (h row hrow)

theorem every_ofRows {rows : List Row} (h : ∀ row ∈ rows, P row) :
    (ofOutcomes (rows.map .ok)).Every P := by
  intro row hrow
  rw [outcomes_ofOutcomes] at hrow
  obtain ⟨given, hgiven, heq⟩ := List.mem_map.mp hrow
  cases heq
  exact h row hgiven

/-- What rows are replaced by has a property if all of it does. -/
theorem every_expand {f : Row → List (Except QueryError Row)}
    (h : ∀ row row', Except.ok row' ∈ f row → P row') : (expand f s).Every P := by
  intro row hrow
  rw [outcomes_expand] at hrow
  obtain ⟨o, -, ho⟩ := List.mem_flatMap.mp hrow
  cases o with
  | ok given => exact h given row ho
  | error e => simp [spread] at ho

theorem every_map {f : Row → Except QueryError Row}
    (h : ∀ row row', f row = .ok row' → P row') : (map f s).Every P := by
  intro row hrow
  rw [outcomes_map] at hrow
  obtain ⟨o, -, ho⟩ := List.mem_map.mp hrow
  cases o with
  | ok given => exact h given row ho
  | error e => cases ho

theorem Every.filter (h : s.Every P) (test : Row → Except QueryError Bool) :
    (filter test s).Every P := by
  intro row hrow
  rw [outcomes_filter] at hrow
  obtain ⟨o, hmem, ho⟩ := List.mem_flatMap.mp hrow
  cases o with
  | error e => simp [spread] at ho
  | ok given =>
    unfold spread tested at ho
    dsimp only at ho
    split at ho
    · cases List.mem_singleton.mp ho
      exact h row hmem
    · cases ho
    · cases List.mem_singleton.mp ho

theorem mem_of_mem_afterFirst {o : Except QueryError Row} :
    {n : Nat} → {l : List (Except QueryError Row)} → o ∈ afterFirst n l → o ∈ l
  | 0, _, h => h
  | _ + 1, [], h => h
  | _ + 1, .ok _ :: _, h => List.mem_cons_of_mem _ (mem_of_mem_afterFirst h)
  | _ + 1, .error e :: rest, h => by
    rcases List.mem_cons.mp h with rfl | hrest
    · exact List.mem_cons_self
    · exact List.mem_cons_of_mem _ (mem_of_mem_afterFirst hrest)

theorem mem_of_mem_upToRows {o : Except QueryError Row} :
    {n : Nat} → {l : List (Except QueryError Row)} → o ∈ upToRows n l → o ∈ l
  | 0, l, h => by
    unfold upToRows at h
    cases h
  | _ + 1, [], h => h
  | _ + 1, .ok row :: rest, h => by
    rcases List.mem_cons.mp h with rfl | hrest
    · exact List.mem_cons_self
    · exact List.mem_cons_of_mem _ (mem_of_mem_upToRows hrest)
  | _ + 1, .error e :: rest, h => by
    rcases List.mem_cons.mp h with rfl | hrest
    · exact List.mem_cons_self
    · exact List.mem_cons_of_mem _ (mem_of_mem_upToRows hrest)

theorem Every.skip (h : s.Every P) (n : Nat) : (skip n s).Every P := by
  intro row hrow
  rw [outcomes_skip_eq] at hrow
  exact h row (mem_of_mem_afterFirst hrow)

theorem Every.take (h : s.Every P) (n : Nat) : (take n s).Every P := by
  intro row hrow
  rw [outcomes_take_eq] at hrow
  exact h row (mem_of_mem_upToRows hrow)

end Stream

namespace RowSet

open Plan

variable {d d' : RowSet} {items more : List Item} {l l' : Ledger}

section Rows

variable {P : Row → Prop} (h : d.stream.Every P)

include h

theorem every_filtered (filters : List Filter) : (d.filtered filters).stream.Every P := by
  unfold filtered
  split
  · exact h
  · exact h.filter _

theorem every_paged (firstRow : Nat) (maxRows : Option Nat) :
    (d.paged firstRow maxRows).stream.Every P := by
  have hfrom : (if 1 < firstRow then d.fromRow firstRow else d).stream.Every P := by
    split
    · exact h.skip _
    · exact h
  unfold paged
  cases maxRows with
  | none => exact hfrom
  | some n => exact hfrom.take n

end Rows

theorem header_filtered (filters : List Filter) : (d.filtered filters).header = d.header := by
  unfold filtered
  split <;> rfl

theorem outcomes_filtered (d : RowSet) (filters : List Filter) : (d.filtered filters).stream.outcomes =
    d.stream.outcomes.flatMap (Stream.spread (Stream.tested fun row => Filter.allAccept row filters)) := by
  unfold filtered
  split
  next hempty =>
    rw [List.isEmpty_iff.mp hempty]
    -- Without filters every row is accepted, and failures stay where they are.
    have hself : Stream.spread (Stream.tested fun row => Filter.allAccept row []) = fun o => [o] := by
      funext o
      cases o <;> rfl
    rw [hself, List.flatMap_singleton']
  next => exact Stream.outcomes_filter _ _

/-! ## Headed and selected data sets -/

/-- The rows have the header of the data set.  A data set without items may have any rows. -/
def IsHeaded (d : RowSet) : Prop := d.header ≠ [] → d.stream.Every (·.header = d.header)

/-- The data set and its rows have these items, or equal ones in their places.  If there are no items,
the rows may have any. -/
structure Selected (d : RowSet) (items : List Item) : Prop where
  header : Header.Matches d.header items
  rows : items ≠ [] → d.stream.Every fun row => Header.Matches row.header items

theorem isHeaded_ofRows {rows : List Row} (h : ∀ row ∈ rows, row.header = items) :
    (ofRows items rows).IsHeaded := fun _ => Stream.every_ofRows h

theorem IsHeaded.filtered (h : d.IsHeaded) (filters : List Filter) :
    (d.filtered filters).IsHeaded := by
  intro hne
  rw [header_filtered] at hne ⊢
  exact every_filtered (h hne) filters

theorem IsHeaded.paged (h : d.IsHeaded) (firstRow : Nat) (maxRows : Option Nat) :
    (d.paged firstRow maxRows).IsHeaded := by
  intro hne
  rw [header_paged] at hne ⊢
  exact every_paged (h hne) firstRow maxRows

/-- Rows under a header have the items that it has. -/
theorem IsHeaded.selected (h : d.IsHeaded) (hheader : Header.Matches d.header items) :
    d.Selected items := by
  refine ⟨hheader, fun hne => (h (hheader.ne_nil hne)).mono fun row heq => ?_⟩
  rw [heq]
  exact hheader

theorem Selected.filtered (h : d.Selected items) (filters : List Filter) :
    (d.filtered filters).Selected items := by
  refine ⟨?_, fun hne => every_filtered (h.rows hne) filters⟩
  rw [header_filtered]
  exact h.header

theorem Selected.paged (h : d.Selected items) (firstRow : Nat) (maxRows : Option Nat) :
    (d.paged firstRow maxRows).Selected items := by
  refine ⟨?_, fun hne => every_paged (h.rows hne) firstRow maxRows⟩
  rw [header_paged]
  exact h.header

theorem selected_ofRows {rows : List Row} (h : ∀ row ∈ rows, row.header = items) :
    (ofRows items rows).Selected items :=
  ⟨Or.inl rfl, fun _ => (Stream.every_ofRows h).mono fun _ heq => Or.inl heq⟩

/-! ## Ordering -/

section Ordered

variable {orderBy : List OrderItem} (hrun : (d.ordered orderBy).run l = (.ok d', l'))

include hrun

theorem header_ordered : d'.header = d.header := by
  rcases ordered_eq_ok hrun with rfl | ⟨rows, -, rfl⟩ <;> rfl

theorem every_ordered {P : Row → Prop} (h : d.stream.Every P) : d'.stream.Every P := by
  rcases ordered_eq_ok hrun with rfl | ⟨rows, hrows, rfl⟩
  · exact h
  · refine Stream.every_ofRows fun row hrow => h row ?_
    rw [hrows]
    exact List.mem_map_of_mem ((sortRows_perm orderBy rows).mem_iff.mp hrow)

theorem IsHeaded.ordered (h : d.IsHeaded) : d'.IsHeaded := by
  intro hne
  rw [header_ordered hrun] at hne ⊢
  exact every_ordered hrun (h hne)

theorem Selected.ordered (h : d.Selected items) : d'.Selected items := by
  refine ⟨?_, fun hne => every_ordered hrun (h.rows hne)⟩
  rw [header_ordered hrun]
  exact h.header

end Ordered

/-! ## Selecting -/

/-- Rows that are not laid out like the items get them as their header. -/
theorem every_projected (hlayout : Item.sameLayout d.header items = false) :
    (d.projected items).stream.Every (·.header = items) := by
  unfold projected
  simp only [hlayout, Bool.false_eq_true, if_false]
  refine Stream.every_map fun row row' hproject => ?_
  obtain ⟨values, -, rfl⟩ := Row.project_eq_ok_iff.mp hproject
  rfl

/-- Rows that are not laid out like the items get a value for each. -/
theorem length_values_of_projected (hlayout : Item.sameLayout d.header items = false) :
    (d.projected items).stream.Every (·.values.length = items.length) := by
  unfold projected
  simp only [hlayout, Bool.false_eq_true, if_false]
  refine Stream.every_map fun row row' hproject => ?_
  obtain ⟨values, hvalues, rfl⟩ := Row.project_eq_ok_iff.mp hproject
  have hlength := congrArg List.length hvalues
  rw [List.length_map, List.length_map] at hlength
  exact hlength.symm

/-- Rows that have all items are projected one by one. -/
theorem yields_projected {rows : List Row} (hd : d.Yields rows)
    (hlayout : Item.sameLayout d.header items = false)
    (h : ∀ row ∈ rows, ∀ i ∈ items, ∃ v, row.evaluate? i = some v) :
    (d.projected items).Yields (rows.map (·.showing items)) := by
  unfold projected Yields
  simp only [hlayout, Bool.false_eq_true, if_false]
  rw [Stream.outcomes_map, hd, List.map_map, List.map_map]
  exact List.map_congr_left fun row hrow => Row.project_eq_showing (h row hrow)

/-- The last step of a selection: a projection, if all items can be read. -/
theorem projected_of_run {staged : RowSet}
    (hrun : (staged.projectedOrRefused items).run l = (.ok d', l')) :
    d' = staged.projected items := by
  unfold projectedOrRefused at hrun
  split at hrun
  · exact absurd hrun run_bind_throw_ne_ok
  · cases hrun
    rfl

/-- A selection leaves a data set as it is, or projects it, or projects one with scalar functions
computed in front. -/
theorem selection_eq_ok (hrun : (d.selection items).run l = (.ok d', l')) :
    (Item.sameLayout d.header items = true ∧ d' = d) ∨
      Item.sameLayout d.header items = false ∧ ∃ staged : RowSet, d' = staged.projected items ∧
        (staged = d ∨ missingScalars d.header items ≠ [] ∧
          staged.stream.Every (·.header = staged.header)) := by
  rw [selection_eq] at hrun
  cases hlayout : Item.sameLayout d.header items with
  | true =>
    rw [hlayout] at hrun
    cases hrun
    exact Or.inl ⟨rfl, rfl⟩
  | false =>
    rw [hlayout] at hrun
    simp only [Bool.false_eq_true, if_false] at hrun
    refine Or.inr ⟨rfl, ?_⟩
    -- The stage is there only if there are functions to compute.
    split at hrun
    next hnone =>
      obtain ⟨staged, k, hstaged, hrun⟩ := run_bind_eq_ok hrun
      cases hstaged
      exact ⟨d, projected_of_run hrun, Or.inl rfl⟩
    next hsome =>
      obtain ⟨staged, k, hstaged, hrun⟩ := run_bind_eq_ok hrun
      refine ⟨staged, projected_of_run hrun, Or.inr ⟨fun hnil => hsome ?_, ?_⟩⟩
      · rw [hnil]
        rfl
      · unfold withScalars at hstaged
        split at hstaged
        · exact absurd hstaged run_bind_throw_ne_ok
        · cases hstaged
          refine Stream.every_map fun row row' hrow => ?_
          cases hrow
          rfl

section Selection

variable (hrun : (d.selection items).run l = (.ok d', l'))

include hrun

theorem header_selection : Header.Matches d'.header items := by
  rcases selection_eq_ok hrun with ⟨hlayout, rfl⟩ | ⟨-, staged, rfl, -⟩
  · exact Or.inr hlayout
  · exact Or.inl rfl

/-- **Selected rows have the selected items**, or equal ones in their places. -/
theorem IsHeaded.selection (h : d.IsHeaded) : d'.Selected items := by
  rcases selection_eq_ok hrun with ⟨hlayout, rfl⟩ | ⟨hlayout, staged, rfl, hstaged⟩
  · exact h.selected (Or.inr hlayout)
  · refine ⟨Or.inl rfl, fun _ => ?_⟩
    cases hagain : Item.sameLayout staged.header items with
    | false => exact (every_projected hagain).mono fun _ heq => Or.inl heq
    | true =>
      rcases hstaged with rfl | ⟨-, hrows⟩
      · rw [hlayout] at hagain
        cases hagain
      · -- The functions in front are the first of the items, so the rows stay as they are.
        unfold projected
        simp only [hagain, if_true]
        refine hrows.mono fun row heq => Or.inr ?_
        rw [heq]
        exact hagain

/-- If there is nothing to compute, a selection is a projection at most. -/
theorem selection_of_found
    (hfound : ∀ i ∈ items, i.scalar? = none ∨ ∃ n, Header.find? d.header i = some n) :
    Item.sameLayout d.header items = true ∧ d' = d ∨
      Item.sameLayout d.header items = false ∧ d' = d.projected items := by
  rcases selection_eq_ok hrun with hsame | ⟨hlayout, staged, rfl, rfl | ⟨hmissing, -⟩⟩
  · exact Or.inl hsame
  · exact Or.inr ⟨hlayout, rfl⟩
  · exact absurd (missingScalars_eq_nil hfound) hmissing

/-- What a selection that needs nothing computed gives was given to it, so no row failed before. -/
theorem exists_yields_of_selection
    (hfound : ∀ i ∈ items, i.scalar? = none ∨ ∃ n, Header.find? d.header i = some n)
    {rows : List Row} (hd : d'.Yields rows) : ∃ given, d.Yields given := by
  rcases RowSet.selection_of_found hrun hfound with ⟨-, rfl⟩ | ⟨hlayout, rfl⟩
  · exact ⟨rows, hd⟩
  · unfold Yields projected at hd
    simp only [hlayout, Bool.false_eq_true, if_false] at hd
    rw [Stream.outcomes_map] at hd
    obtain ⟨given, hgiven, -⟩ := exists_of_map_bind_eq_ok hd
    exact ⟨given, hgiven⟩

/-- Then rows stay under the header. -/
theorem IsHeaded.selection_of_found (h : d.IsHeaded)
    (hfound : ∀ i ∈ items, i.scalar? = none ∨ ∃ n, Header.find? d.header i = some n) :
    d'.IsHeaded := by
  rcases RowSet.selection_of_found hrun hfound with ⟨-, rfl⟩ | ⟨hlayout, rfl⟩
  · exact h
  · exact fun _ => every_projected hlayout

/-- **The first items of selected rows are selected from them.** -/
theorem Selected.selection (h : d.Selected (items ++ more)) : d'.Selected items := by
  refine ⟨header_selection hrun, fun hne => ?_⟩
  have hfound : ∀ i ∈ items, i.scalar? = none ∨ ∃ n, Header.find? d.header i = some n :=
    fun i hi => Or.inr (h.header.exists_find? (List.mem_append_left more hi))
  rcases selection_of_found hrun hfound with ⟨hlayout, rfl⟩ | ⟨hlayout, rfl⟩
  · -- There are as many items as before, so there was nothing behind them.
    have hlength := (Item.sameLayout_iff.mp hlayout).length_eq
    rw [h.header.length_eq, List.length_append] at hlength
    obtain rfl : more = [] := List.length_eq_zero_iff.mp (by omega)
    simpa using h.rows (List.append_ne_nil_of_left_ne_nil hne [])
  · exact (every_projected hlayout).mono fun _ heq => Or.inl heq

end Selection

/-! ## Grouping and aggregating -/

/-- Aggregating leaves rows under the header. -/
theorem IsHeaded.aggregated (h : d.IsHeaded) (hrun : (d.aggregated items).run l = (.ok d', l')) :
    d'.IsHeaded := by
  rcases aggregated_eq_ok hrun with ⟨-, rfl⟩ | ⟨rows, kept, -, -, rfl⟩
  · exact h
  · refine isHeaded_ofRows fun row hrow => ?_
    split at hrow
    · rw [List.mem_singleton.mp hrow]
      rfl
    · obtain ⟨beside, -, rfl⟩ := List.mem_map.mp hrow
      rfl

/-- Groups are rows of their own, from which the items are selected. -/
theorem grouped_eq_ok {groupBy : List Item} (hrun : (d.grouped items groupBy).run l = (.ok d', l')) :
    ∃ (aggregates : List Item) (rows : List Row) (k : Ledger),
      (∀ row ∈ rows, row.header = groupBy ++ aggregates) ∧
        ((ofRows (groupBy ++ aggregates) rows).selection items).run k = (.ok d', l') := by
  unfold grouped at hrun
  split at hrun
  · exact absurd hrun run_bind_throw_ne_ok
  next aggregates _ =>
    dsimp only at hrun
    split at hrun
    · exact absurd hrun run_bind_throw_ne_ok
    · obtain ⟨groups, k, -, hselected⟩ := run_bind_eq_ok hrun
      refine ⟨aggregates, _, k, fun row hrow => ?_, hselected⟩
      obtain ⟨g, -, rfl⟩ := List.mem_map.mp hrow
      rfl

/-- Unique rows stay under the header. -/
theorem headed_of_distinct (hrun : d.distinct.run l = (.ok d', l')) :
    d'.header = d.header ∧ d'.IsHeaded := by
  obtain ⟨aggregates, rows, k, hrows, hselected⟩ := grouped_eq_ok hrun
  have hfound : ∀ i ∈ d.header, i.scalar? = none ∨
      ∃ n, Header.find? (d.header ++ aggregates) i = some n :=
    fun i hi => Or.inr (Header.exists_find?_of_mem (List.mem_append_left aggregates hi) (Or.inl rfl))
  refine ⟨?_, (isHeaded_ofRows hrows).selection_of_found hselected hfound⟩
  rcases selection_of_found hselected hfound with ⟨hlayout, rfl⟩ | ⟨-, rfl⟩
  · have hlength := (Item.sameLayout_iff.mp hlayout).length_eq
    change (d.header ++ aggregates).length = _ at hlength
    rw [List.length_append] at hlength
    obtain rfl : aggregates = [] := List.length_eq_zero_iff.mp (by omega)
    exact List.append_nil d.header
  · rfl

/-! ## Joins -/

/-- **What an outer row gives** is a combination with an inner row, a failure of a filter on one, or the
combination with the padding. -/
theorem mem_matchesOf {header : List Item} {inner : List Row} {filters : List Filter}
    {pad : Option (List Value)} {outer : Row} {o : Except QueryError Row}
    (h : o ∈ matchesOf header inner filters pad outer) :
    (∃ row ∈ inner, o = .ok (combine header outer row.values)) ∨
      (∃ row ∈ inner, ∃ e, Filter.allAccept (combine header outer row.values) filters = .error e ∧
        o = .error e) ∨
      ∃ padding, pad = some padding ∧ o = .ok (combine header outer padding) := by
  have hfound (hmem : o ∈ inner.filterMap fun row =>
      pairOutcome filters (combine header outer row.values)) :
      (∃ row ∈ inner, o = .ok (combine header outer row.values)) ∨
        ∃ row ∈ inner, ∃ e, Filter.allAccept (combine header outer row.values) filters = .error e ∧
          o = .error e := by
    obtain ⟨row, hrow, hpair⟩ := List.mem_filterMap.mp hmem
    unfold pairOutcome at hpair
    split at hpair
    next =>
      cases hpair
      exact Or.inl ⟨row, hrow, rfl⟩
    next => cases hpair
    next e haccept =>
      cases hpair
      exact Or.inr ⟨row, hrow, e, haccept, rfl⟩
  unfold matchesOf at h
  dsimp only at h
  split at h
  next padding =>
    split at h
    · exact (hfound h).imp_right Or.inl
    · rcases List.mem_append.mp h with hmem | hpadded
      · exact (hfound hmem).imp_right Or.inl
      · exact Or.inr (Or.inr ⟨padding, rfl, List.mem_singleton.mp hpadded⟩)
  next => exact (hfound h).imp_right Or.inl

/-- Combined rows have the combined items. -/
theorem every_nestedLoop (outer : RowSet) (inner : List Row) (filters : List Filter)
    (padded : Bool) : (outer.nestedLoop items inner filters padded).stream.Every
      (·.header = outer.header ++ items) := by
  refine Stream.every_expand fun row row' hrow => ?_
  rcases mem_matchesOf hrow with ⟨_, -, heq⟩ | ⟨_, -, _, -, heq⟩ | ⟨_, -, heq⟩
  all_goals cases heq
  · rfl
  · rfl

theorem isHeaded_nestedLoop (outer : RowSet) (inner : List Row) (filters : List Filter)
    (padded : Bool) : (outer.nestedLoop items inner filters padded).IsHeaded :=
  fun _ => every_nestedLoop outer inner filters padded

/-- A product of two data sets or more has its rows under its header, whatever the first one has. -/
theorem isHeaded_of_productWith {all : List Item} {pending : List Filter} {sets : List RowSet}
    (h : sets = [] → d.IsHeaded) (hrun : (productWith all d pending sets).run l = (.ok d', l')) :
    d'.IsHeaded := by
  induction sets generalizing d pending l with
  | nil =>
    cases hrun
    exact (h rfl).filtered pending
  | cons inner rest ih =>
    unfold productWith at hrun
    obtain ⟨rows, k, -, hrun⟩ := run_bind_eq_ok hrun
    split at hrun
    · obtain ⟨_, _, -, hrun⟩ := run_bind_eq_ok hrun
      obtain ⟨_, _, -, hrun⟩ := run_bind_eq_ok hrun
      cases hrun
      exact isHeaded_ofRows (List.forall_mem_nil _)
    · exact ih (fun _ => isHeaded_nestedLoop _ _ _ _) hrun

end RowSet

end DocQuery
