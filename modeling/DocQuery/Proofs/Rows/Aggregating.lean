import DocQuery.Proofs.Rows.Distinct
import DocQuery.Proofs.Rows.Operators

/-!
# DocQuery.Proofs.Rows.Aggregating — rows of aggregates

Aggregates of all rows are the same in every row that they stand in.  One row is left if nothing else
stands beside them, or one for every row that was read (`RowSet.repeats_of_aggregated`).  Ordering,
selecting and leaving out repetitions keep such rows as they are; only their number may change.
-/

namespace DocQuery

namespace RowSet

open Plan

/-! ## Aggregates of rows -/

/-- The value that a row contributes to an aggregate; null where it has none. -/
def inputOf (i : Item) (row : Row) : Value :=
  if i.isCountAll then .boolean true else (row.evaluate? i.bare).getD .null

/-- An aggregate of rows. -/
def aggregateOver (i : Item) (rows : List Row) : Value :=
  match i.aggregate? with
  | some f => f.aggregate (rows.map (inputOf i))
  | none => .null

/-- The count of all rows is their number. -/
theorem aggregateOver_of_isCountAll {i : Item} (h : i.isCountAll = true) (rows : List Row) :
    aggregateOver i rows = .integer (Int64.ofNat rows.length) := by
  unfold aggregateOver inputOf
  rw [Item.aggregate?_of_isCountAll h, h]
  simp [Builtin.aggregate, Value.isNull]

/-- Aggregates of tables that are the same are so over all rows. -/
theorem aggregateOver_congr {i j : Item} (h : Item.sameAs true j i = true) (hi : i.inner? = none)
    (rows : List Row) : aggregateOver j rows = aggregateOver i rows := by
  obtain ⟨hcount, hbare⟩ := Item.bare_of_sameAs h hi
  have hinput : inputOf j = inputOf i := by
    funext row
    unfold inputOf
    rw [hcount, hbare]
  unfold aggregateOver
  rw [Item.aggregate?_of_sameAs h, hinput]

/-- The aggregates among items, each once. -/
def aggregatesAmong (items : List Item) : List Item :=
  (items.filter (·.aggregate?.isSome)).foldl Item.pushNew []

/-- The aggregate whose value an item takes: the first one that denotes the same. -/
def computedFor (items : List Item) (i : Item) : Item :=
  ((aggregatesAmong items).find? (Item.sameAs true · i)).getD i

theorem aggregatesOf_eq_ok {items aggregates : List Item} (h : aggregatesOf items = .ok aggregates) :
    aggregates = aggregatesAmong items := by
  unfold aggregatesOf at h
  dsimp only at h
  split at h
  · cases h
  · exact (Except.ok.inj h).symm

/-- An aggregate among items has a place among those that are computed. -/
theorem findIdx?_aggregatesAmong {items : List Item} {i : Item} (hi : i ∈ items)
    (haggregate : i.aggregate?.isSome = true) (hself : Item.sameAs true i i = true) :
    ∃ n, (aggregatesAmong items).findIdx? (Item.sameAs true · i) = some n ∧
      (aggregatesAmong items)[n]? = some (computedFor items i) := by
  obtain ⟨j, hj, hsame⟩ : ∃ j ∈ aggregatesAmong items, Item.sameAs true j i = true := by
    have hmem : i ∈ items.filter (·.aggregate?.isSome) := List.mem_filter.mpr ⟨hi, haggregate⟩
    obtain ⟨j, hj, rfl | hsame⟩ := Item.exists_mem_foldl_pushNew hmem
    · exact ⟨j, hj, hself⟩
    · exact ⟨j, hj, hsame⟩
  obtain ⟨n, hn⟩ := Option.isSome_iff_exists.mp
    (List.findIdx?_isSome.trans (List.any_eq_true.mpr ⟨j, hj, hsame⟩) :
      ((aggregatesAmong items).findIdx? (Item.sameAs true · i)).isSome = true)
  obtain ⟨s, -, hget, hfind⟩ := find?_getElem?_of_findIdx? hn
  refine ⟨n, hn, ?_⟩
  rw [hget, computedFor, hfind]
  rfl

theorem aggregateOver_computedFor {i : Item} (hi : i.inner? = none) (items : List Item)
    (rows : List Row) : aggregateOver (computedFor items i) rows = aggregateOver i rows := by
  unfold computedFor
  cases hfind : (aggregatesAmong items).find? (Item.sameAs true · i) with
  | none => rfl
  | some j =>
    have hsame := List.find?_some hfind
    exact aggregateOver_congr hsame hi rows

/-- Copies of an item have one aggregate. -/
theorem aggregateOver_computedFor_congr {i j : Item} (h : i.withoutAlias = j.withoutAlias)
    (items : List Item) (rows : List Row) :
    aggregateOver (computedFor items i) rows = aggregateOver (computedFor items j) rows := by
  have hsame : (Item.sameAs true · i) = (Item.sameAs true · j) := by
    funext x
    rw [← Item.sameAs_withoutAlias, h, Item.sameAs_withoutAlias]
  unfold computedFor
  rw [hsame]
  cases (aggregatesAmong items).find? (Item.sameAs true · j) with
  | some _ => rfl
  | none =>
    show aggregateOver i.withoutAlias rows = aggregateOver j.withoutAlias rows
    rw [h]

/-! ## Contributions -/

theorem eq_inputOf_of_contribution {i : Item} {row : Row} {v : Value}
    (h : contribution i row = .ok v) : v = inputOf i row := by
  unfold contribution at h
  unfold inputOf
  split at h
  next hcount => rw [if_pos hcount, ← Except.ok.inj h]
  next hcount =>
    split at h
    next w hw => rw [if_neg hcount, hw, ← Except.ok.inj h]; rfl
    next => cases h

theorem contributions_eq_ok {aggregates : List Item} {row : Row} {values : List Value}
    (h : contributions aggregates row = .ok values) : values = aggregates.map (inputOf · row) := by
  unfold contributions at h
  induction aggregates generalizing values with
  | nil =>
    cases h
    rfl
  | cons i rest ih =>
    rw [List.mapM_cons] at h
    obtain ⟨v, hv, h⟩ := exists_of_bind_eq_ok h
    obtain ⟨more, hmore, h⟩ := exists_of_bind_eq_ok h
    rw [← Except.ok.inj h, List.map_cons, ← ih hmore, ← eq_inputOf_of_contribution hv]

/-- What reading all rows collects, last row first. -/
theorem foldlM_collectRow {aggregates : List Item} {rows : List Row} {c collected : Collected}
    (h : rows.foldlM (collectRow aggregates) c = .ok collected) :
    collected = ⟨(rows.map fun row => aggregates.map (inputOf · row)).reverse ++ c.contributed,
      rows.reverse ++ c.rows⟩ := by
  induction rows generalizing c with
  | nil =>
    cases h
    rfl
  | cons row rest ih =>
    rw [List.foldlM_cons] at h
    obtain ⟨next, hrow, hrest⟩ := exists_of_bind_eq_ok h
    obtain ⟨values, hvalues, hnext⟩ := exists_of_bind_eq_ok hrow
    rw [ih hrest, ← Except.ok.inj hnext, contributions_eq_ok hvalues]
    simp

/-- Rows that all contribute are all collected. -/
theorem exists_foldlM_collectRow {aggregates : List Item} {rows : List Row}
    (h : ∀ row ∈ rows, ∃ values, contributions aggregates row = .ok values) (c : Collected) :
    ∃ collected, rows.foldlM (collectRow aggregates) c = .ok collected := by
  induction rows generalizing c with
  | nil => exact ⟨c, rfl⟩
  | cons row rest ih =>
    obtain ⟨⟨values, hvalues⟩, hrest⟩ := List.forall_mem_cons.mp h
    have hrow : collectRow aggregates c row =
        .ok ⟨values :: c.contributed, row :: c.rows⟩ := by
      unfold collectRow
      rw [hvalues]
      rfl
    rw [List.foldlM_cons, hrow]
    exact ih hrest _

/-- Aggregates of what rows contributed are aggregates of the rows. -/
theorem aggregateAll_inputs (aggregates : List Item) (rows : List Row) :
    aggregateAll aggregates (rows.map fun row => aggregates.map (inputOf · row)) =
      aggregates.map (aggregateOver · rows) := by
  refine List.ext_getElem? fun n => ?_
  unfold aggregateAll
  rw [List.getElem?_map, List.getElem?_map, List.getElem?_zipIdx]
  cases hi : aggregates[n]? with
  | none => rfl
  | some i =>
    show some (aggregateAt _ i (0 + n)) = some (aggregateOver i rows)
    unfold aggregateAt aggregateOver
    cases i.aggregate? with
    | none => rfl
    | some f =>
      simp only [List.map_map, Nat.zero_add]
      congr 2
      refine List.map_congr_left fun row _ => ?_
      show ((aggregates.map (inputOf · row))[n]?).getD .null = inputOf i row
      rw [List.getElem?_map, hi]
      rfl

/-! ## One row again and again -/

/-- The data set gives so many rows, each with these values for the items, which are its first ones.
-/
structure Repeats (d : RowSet) (items more : List Item) (values : List Value) (count : Nat) :
    Prop where
  header : d.header = items ++ more
  rows : ∃ rows, d.Yields rows ∧ rows.length = count ∧ ∀ row ∈ rows, ∃ extra,
    extra.length = more.length ∧ row = ⟨items ++ more, values ++ extra, none⟩

section Repeats

variable {d d' : RowSet} {items more : List Item} {values : List Value} {count : Nat} {l l' : Ledger}

/-- Sorting finds nothing to change among the items. -/
theorem Repeats.ordered (h : d.Repeats items more values count) {orderBy : List OrderItem}
    (hrun : (d.ordered orderBy).run l = (.ok d', l')) : d'.Repeats items more values count := by
  rcases ordered_eq_ok hrun with rfl | ⟨rows, hread, rfl⟩
  · exact h
  · obtain ⟨given, hgiven, hlength, hrows⟩ := h.rows
    obtain rfl := hread.unique hgiven
    have hperm := sortRows_perm orderBy rows
    refine ⟨h.header, sortRows orderBy rows, yields_ofRows _ _, ?_, fun row hrow => ?_⟩
    · rw [hperm.length_eq, hlength]
    · exact hrows row (hperm.mem_iff.mp hrow)

/-- Selecting the items leaves nothing behind them. -/
theorem Repeats.selection (h : d.Repeats items more values count) (hfits : Header.Fits items values)
    (hrun : (d.selection items).run l = (.ok d', l')) : d'.Repeats items [] values count := by
  obtain ⟨rows, hd, hlength, hrows⟩ := h.rows
  have hfront : ∀ row ∈ rows, ∃ values extra, Header.Fits items values ∧
      extra.length = more.length ∧ row = ⟨items ++ more, values ++ extra, none⟩ := by
    intro row hrow
    obtain ⟨extra, hextra, hrow⟩ := hrows row hrow
    exact ⟨values, extra, hfits, hextra, hrow⟩
  obtain ⟨-, hheader, hselected⟩ := (gives_selection_front h.header hd hfront l).of_run hrun
  refine ⟨by rw [hheader, List.append_nil], _, hselected, by rw [List.length_map, hlength], ?_⟩
  intro row hrow
  obtain ⟨first, hfirst, rfl⟩ := List.mem_map.mp hrow
  obtain ⟨extra, -, rfl⟩ := hrows first hfirst
  refine ⟨[], rfl, ?_⟩
  rw [List.append_nil, List.append_nil, ← hfits.length, List.take_left]

/-- One row is left of rows with values that match themselves. -/
theorem Repeats.distinct (h : d.Repeats items [] values count) (hfits : Header.Fits items values)
    (hrun : d.distinct.run l = (.ok d', l')) :
    d'.Repeats items [] values (if Value.allMatch values values then min 1 count else count) := by
  obtain ⟨rows, hd, hlength, hrows⟩ := h.rows
  have hheader : d.header = items := h.header.trans (List.append_nil items)
  have hrow : ∀ row ∈ rows, row = ⟨items, values, none⟩ := by
    intro row hrow
    obtain ⟨extra, hextra, rfl⟩ := hrows row hrow
    obtain rfl : extra = [] := List.length_eq_zero_iff.mp hextra
    rw [List.append_nil, List.append_nil]
  have hkey : ∀ row ∈ rows, d.header.map row.evaluate? = values.map some := by
    intro row hmem
    rw [hheader, hrow row hmem]
    exact Row.map_evaluate?_self hfits none
  -- The run has succeeded, so the aggregates in the header could be computed again.
  obtain ⟨aggregates, haggregates, hcontributed⟩ := contributions_of_gives_distinct hd
    (⟨d', l', hrun, trivial⟩ : d.distinct.Gives l fun _ _ => True)
  obtain ⟨-, hheader', hunique⟩ := (gives_distinct hd hkey (fun _ _ => hheader ▸ hfits) haggregates
    hcontributed l).of_run hrun
  have hkeys : (rows.map fun _ => values) = List.replicate count values := by
    rw [List.map_const', hlength]
  rw [hkeys, Value.firstOccurrences_replicate, hheader] at hunique
  refine ⟨by rw [hheader', hheader, List.append_nil], _, hunique, by simp, fun row hmem => ?_⟩
  obtain ⟨key, hkey, rfl⟩ := List.mem_map.mp hmem
  obtain rfl := List.eq_of_mem_replicate hkey
  exact ⟨[], rfl, by rw [List.append_nil, List.append_nil]⟩

/-- The values are all that there is to read. -/
theorem Repeats.values_eq (h : d.Repeats items [] values count) {rows : List Row}
    (hread : d.Yields rows) : rows.map (·.values) = List.replicate count values := by
  obtain ⟨given, hgiven, hlength, hrows⟩ := h.rows
  obtain rfl := hread.unique hgiven
  rw [List.eq_replicate_iff, List.length_map]
  refine ⟨hlength, fun v hv => ?_⟩
  obtain ⟨row, hrow, rfl⟩ := List.mem_map.mp hv
  obtain ⟨extra, hextra, rfl⟩ := hrows row hrow
  obtain rfl : extra = [] := List.length_eq_zero_iff.mp hextra
  exact List.append_nil values

end Repeats

/-! ## Aggregating -/

/-- The row of items over all rows: aggregates of them, and other values from the row beside. -/
def rowBeside (items : List Item) (rows : List Row) (beside : Option Row) : Row :=
  ⟨items, items.map (valueBeside (aggregatesAmong items)
    ((aggregatesAmong items).map (aggregateOver · rows)) beside), none⟩

/-- Aggregating leaves rows as they are if there are no aggregates.  Otherwise it reads all of them,
and keeps them if there are other items than aggregates. -/
theorem aggregated_eq_ok {d d' : RowSet} {items : List Item} {l l' : Ledger}
    (hrun : (d.aggregated items).run l = (.ok d', l')) :
    (aggregatesAmong items = [] ∧ d' = d) ∨ ∃ rows kept, d.Yields rows ∧
      kept = (if (items.filter (·.aggregate?.isNone)).isEmpty then [] else rows) ∧
      d' = ofRows items (if kept.isEmpty then [rowBeside items rows none]
        else kept.map (rowBeside items rows ∘ some)) := by
  unfold aggregated at hrun
  cases hcomputed : aggregatesOf items with
  | error e =>
    rw [hcomputed] at hrun
    exact absurd hrun run_bind_throw_ne_ok
  | ok aggregates =>
    rw [hcomputed] at hrun
    rw [← aggregatesOf_eq_ok hcomputed]
    cases aggregates with
    | nil =>
      cases hrun
      exact Or.inl ⟨rfl, rfl⟩
    | cons first rest =>
      dsimp only at hrun
      split at hrun
      · exact absurd hrun run_bind_throw_ne_ok
      · obtain ⟨collected, k, hfold, hrun⟩ := run_bind_eq_ok hrun
        cases hrun
        obtain ⟨rows, hd, hrows⟩ := foldRows_eq_ok hfold
        refine Or.inr ⟨rows, _, hd, rfl, ?_⟩
        rw [foldlM_collectRow hrows]
        simp only [List.append_nil, List.reverse_reverse, aggregateAll_inputs]
        unfold rowBeside
        rw [← aggregatesOf_eq_ok hcomputed]

/-- **One aggregate of all rows is one row**, if every row contributes to it. -/
theorem gives_aggregated_single {d : RowSet} {rows : List Row} {i : Item} (hd : d.Yields rows)
    (haggregate : i.aggregate?.isSome = true) (hstored : i.expression? = none)
    (hself : Item.sameAs true i i = true)
    (hcontributes : ∀ row ∈ rows, ∃ v, contribution i row = .ok v) (l : Ledger) :
    (d.aggregated [i]).Gives l fun d' _ => d'.Shows [[aggregateOver i rows]] := by
  have hcomputed : aggregatesOf [i] = .ok [i] := by
    simp [aggregatesOf, haggregate, hstored, Item.pushNew]
  have hothers : [i].filter (·.aggregate?.isNone) = [] := by
    simpa [Option.isSome_iff_ne_none] using haggregate
  have hcontributions : ∀ row ∈ rows, ∃ values, contributions [i] row = .ok values := by
    intro row hrow
    obtain ⟨v, hv⟩ := hcontributes row hrow
    exact ⟨[v], by rw [contributions, List.mapM_cons, hv]; rfl⟩
  obtain ⟨collected, hcollected⟩ := exists_foldlM_collectRow hcontributions {}
  unfold aggregated
  rw [hcomputed]
  dsimp only
  rw [hothers, List.find?_nil]
  refine gives_bind (gives_foldRows hd hcollected fun _ _ => gives_pure ?_)
  refine ⟨_, yields_ofRows _ _, ?_⟩
  have hresults : aggregateAll [i] (rows.map fun row => [inputOf i row]) =
      [aggregateOver i rows] := aggregateAll_inputs [i] rows
  rw [foldlM_collectRow hcollected]
  simp [hresults, valueBeside, hself]

section Aggregated

variable {d d' : RowSet} {items more : List Item} {l l' : Ledger} (hsome : items ≠ [])
  (haggregates : ∀ i ∈ items, i.aggregate?.isSome = true)
  (hself : ∀ i ∈ items, Item.sameAs true i i = true)

include haggregates hself

/-- Whatever row stands beside them, aggregates have their values from the results. -/
theorem rowBeside_eq (rows : List Row) (beside : Option Row) : ∃ extra, extra.length = more.length ∧
    rowBeside (items ++ more) rows beside = ⟨items ++ more,
      items.map (fun i => aggregateOver (computedFor (items ++ more) i) rows) ++ extra, none⟩ := by
  refine ⟨more.map (valueBeside (aggregatesAmong (items ++ more))
    ((aggregatesAmong (items ++ more)).map (aggregateOver · rows)) beside), List.length_map _, ?_⟩
  unfold rowBeside
  rw [List.map_append]
  congr 2
  refine List.map_congr_left fun i hi => ?_
  obtain ⟨n, hn, hget⟩ := findIdx?_aggregatesAmong (List.mem_append_left more hi)
    (haggregates i hi) (hself i hi)
  unfold valueBeside
  rw [hn]
  simp [hget]

include hsome

/-- **Aggregates of all rows stand in one row, or in as many as there were** if other items stand
behind them. -/
theorem repeats_of_aggregated (hrun : (d.aggregated (items ++ more)).run l = (.ok d', l')) :
    ∃ rows, d.Yields rows ∧ d'.Repeats items more
      (items.map fun i => aggregateOver (computedFor (items ++ more) i) rows)
      (if more.all (·.aggregate?.isSome) then 1 else max 1 rows.length) := by
  have hcomputed : aggregatesAmong (items ++ more) ≠ [] := by
    obtain ⟨i, rest, rfl⟩ := List.exists_cons_of_ne_nil hsome
    obtain ⟨n, -, hget⟩ := findIdx?_aggregatesAmong (List.mem_append_left more List.mem_cons_self)
      (haggregates i List.mem_cons_self) (hself i List.mem_cons_self)
    exact List.ne_nil_of_mem (List.mem_of_getElem? hget)
  have hothers : ((items ++ more).filter (·.aggregate?.isNone)).isEmpty =
      more.all (·.aggregate?.isSome) := by
    have hfront : items.filter (·.aggregate?.isNone) = [] := by
      refine List.filter_eq_nil_iff.mpr fun i hi => ?_
      rw [Option.isNone_eq_false_iff.mpr (haggregates i hi)]
      exact Bool.false_ne_true
    rw [List.filter_append, hfront, List.nil_append, Bool.eq_iff_iff, List.isEmpty_iff,
      List.filter_eq_nil_iff, List.all_eq_true]
    simp [Option.isSome_iff_ne_none]
  -- So rows are kept to stand beside the aggregates exactly if there is another item behind them.
  obtain ⟨rows, kept, hd, hkept, rfl⟩ :=
    (aggregated_eq_ok hrun).resolve_left fun hnone => hcomputed hnone.1
  rw [hothers] at hkept
  refine ⟨rows, hd, rfl, _, yields_ofRows _ _, ?_, fun row hrow => ?_⟩
  · rw [hkept]
    cases more.all (·.aggregate?.isSome) <;> cases rows <;> simp
  · obtain ⟨beside, rfl⟩ : ∃ beside, row = rowBeside (items ++ more) rows beside := by
      split at hrow
      · exact ⟨none, List.mem_singleton.mp hrow⟩
      · obtain ⟨beside, -, rfl⟩ := List.mem_map.mp hrow
        exact ⟨some beside, rfl⟩
    exact rowBeside_eq haggregates hself rows beside

end Aggregated

end RowSet

end DocQuery
