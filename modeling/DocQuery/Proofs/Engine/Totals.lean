import DocQuery.Proofs.Engine.Asking
import DocQuery.Proofs.Engine.Shortcuts
import DocQuery.Proofs.Rows.Aggregating
import Mathlib

/-!
# DocQuery.Proofs.Engine.Totals — queries that select nothing but aggregates

A query without grouping that selects nothing but aggregates answers with aggregates of all rows that
its filters leave.  It answers with one row of them, unless an item to order by stands beside them
that is no aggregate itself: then the row is repeated for every row that was read
(`Engine.answers_totals`).
-/

namespace DocQuery

open Plan
open RowSet (aggregateOver computedFor)

namespace QueryOf

/-- A query that selects nothing but aggregates, of all rows and without a window.  Its items denote
the same as themselves, and those with one identity are copies. -/
structure SelectsTotals (q : Query) : Prop where
  select : q.select ≠ []
  aggregates : ∀ i ∈ q.select, i.aggregate?.isSome = true
  reflexive : ∀ i ∈ q.select, Item.sameAs true i i = true
  clones : ∀ i ∈ q.select, ∀ j ∈ q.select, i.id = j.id → i.withoutAlias = j.withoutAlias
  groupBy : q.groupBy = []
  having : q.having = []
  firstRow : q.firstRow ≤ 1
  maxRows : q.maxRows = none

/-- The aggregate that is computed for a select item. -/
def totalFor (q : Query) (i : Item) : Item := computedFor (Engine.withLaterItems q q.select) i

/-- The aggregates of rows as they are computed. -/
def totals (q : Query) (rows : List Row) : List Value :=
  q.select.map fun i => aggregateOver (q.totalFor i) rows

/-- Whether there is one row of aggregates however many rows there are: nothing else stands beside
them, or repetitions are left out, and they match themselves. -/
def collapses (q : Query) (rows : List Row) : Bool :=
  (q.distinct && Value.allMatch (q.totals rows) (q.totals rows)) ||
    q.orderBy.all (·.item.aggregate?.isSome)

/-- How many rows of aggregates there are. -/
def totalCount (q : Query) (rows : List Row) : Nat :=
  if q.collapses rows then 1 else max 1 rows.length

theorem totalCount_eq_one_iff (q : Query) (rows : List Row) :
    q.totalCount rows = 1 ↔ q.collapses rows = true ∨ rows.length ≤ 1 := by
  unfold totalCount
  split
  next h => simp [h]
  next h =>
    rw [or_iff_right h]
    omega

end QueryOf

namespace Engine

variable {s : RowSource} {options : Options} {q : Query} {l l' : Ledger}

/-- The rows of its from items that the filters of a query accept. -/
def acceptedRows (s : RowSource) (options : Options) (q : Query) : Plan (List Row) := do
  let d ← combined q (← materializeAll s options (neededItems q) [] q.sources)
  d.toRows

namespace Totals

variable (h : q.SelectsTotals)

include h

theorem isSimple_select : isSimple q.select = false := by
  obtain ⟨i, hi⟩ := List.exists_mem_of_ne_nil _ h.select
  unfold isSimple
  rw [List.all_eq_false]
  refine ⟨i, hi, ?_⟩
  obtain ⟨f, hf⟩ := Option.isSome_iff_exists.mp (h.aggregates i hi)
  simp [hf]

/-- A query of aggregates that the source does not count takes the long way. -/
theorem longWay_of_execute (hoff : options.countPushdown = false) {d : RowSet}
    (hrun : (execute s options q).run l = (.ok d, l')) :
    (longWay s options q).run l = (.ok d, l') := by
  have hsources : q.sources ≠ [] := by
    intro hnone
    rw [execute_of_no_sources s options hnone] at hrun
    cases hrun
  have hwindow : q.maxRows ≠ some 0 := by
    rw [h.maxRows]
    exact Option.some_ne_none 0 |>.symm
  have hshort (t : Table) : shortcut s options q t = pure none := by
    unfold shortcut countShortcut keyShortcut
    simp [isSimple_select h, hoff]
  rw [execute_of_sources s options hsources hwindow] at hrun
  cases htable : shortcutTable? q with
  | none =>
    rw [htable] at hrun
    exact hrun
  | some t =>
    rw [htable] at hrun
    dsimp only at hrun
    rw [hshort t] at hrun
    exact hrun

/-- What a query of aggregates needs after filtering is its select list, and behind it what it is
ordered by. -/
theorem exists_withLaterItems : ∃ more, withLaterItems q q.select = q.select ++ more ∧
    more.all (·.aggregate?.isSome) = q.orderBy.all (·.item.aggregate?.isSome) := by
  have hlater : withLaterItems q q.select = (q.orderBy.map (·.item)).foldl Item.pushNew q.select := by
    unfold withLaterItems
    rw [h.groupBy, h.having]
    rfl
  obtain ⟨more, heq, hsub⟩ := Item.exists_foldl_pushNew_eq_append q.select (q.orderBy.map (·.item))
  refine ⟨more, hlater.trans heq, ?_⟩
  rw [Bool.eq_iff_iff, List.all_eq_true, List.all_eq_true]
  constructor
  · intro hmore o ho
    -- What was left out is the same as an aggregate that was kept.
    have hmem : o.item ∈ q.orderBy.map (·.item) := List.mem_map_of_mem ho
    obtain ⟨j, hj, hsame⟩ : ∃ j ∈ q.select ++ more, j = o.item ∨ Item.sameAs true j o.item = true :=
      heq ▸ Item.exists_mem_foldl_pushNew hmem
    have hcomputed : j.aggregate?.isSome = true := by
      rcases List.mem_append.mp hj with hselected | hrest
      · exact h.aggregates j hselected
      · exact hmore j hrest
    rcases hsame with rfl | hsame
    · exact hcomputed
    · rwa [← Item.aggregate?_of_sameAs hsame]
  · intro horder i hi
    obtain ⟨o, ho, rfl⟩ := List.mem_map.mp (hsub hi)
    exact horder o ho

theorem fits_totals (rows : List Row) : Header.Fits q.select (q.totals rows) :=
  Header.fits_map fun i hi j hj hid =>
    RowSet.aggregateOver_computedFor_congr (h.clones i hi j hj hid) _ rows

/-- **The long way of a query of aggregates repeats those of the accepted rows.** -/
theorem repeats_of_longWay {d : RowSet} (hrun : (longWay s options q).run l = (.ok d, l')) :
    ∃ rows, (acceptedRows s options q).answer l = .ok rows ∧
      d.Repeats q.select [] (q.totals rows) (q.totalCount rows) := by
  obtain ⟨sets, k, hsets, d₀, d₁, d₂, k₀, k₁, hcombined, hreduced, harranged, rfl⟩ :=
    longWay_eq_ok hrun
  obtain ⟨more, hlater, hmore⟩ := exists_withLaterItems h
  unfold reduced at hreduced
  rw [h.groupBy, hlater] at hreduced
  obtain ⟨rows, hrows, hrepeats⟩ :=
    RowSet.repeats_of_aggregated h.select h.aggregates h.reflexive hreduced
  have haccepted : (acceptedRows s options q).answer l = .ok rows := by
    unfold acceptedRows Plan.answer
    rw [run_bind_of_run hsets, run_bind_of_run hcombined]
    show d₀.toRows.answer k₀ = .ok rows
    rw [RowSet.toRows_answer, hrows, Stream.collect_rows]
  refine ⟨rows, haccepted, ?_⟩
  -- There is no window and nothing to check after grouping, so only sorting, selecting and leaving
  -- out repetitions are left, and these in one of two orders.
  have hpaged : d₂.paged q.firstRow q.maxRows = d₂ := by
    unfold RowSet.paged
    rw [h.maxRows, if_neg (by have := h.firstRow; omega)]
  rw [hmore, ← hlater] at hrepeats
  have hfits := fits_totals h rows
  rw [hpaged]
  rw [h.having] at harranged
  unfold arranged at harranged
  unfold QueryOf.totalCount QueryOf.collapses
  cases hdistinct : q.distinct with
  | false =>
    rw [hdistinct, if_neg Bool.false_ne_true] at harranged
    obtain ⟨d₃, k₃, hordered, hselected⟩ := run_bind_eq_ok harranged
    exact (hrepeats.ordered hordered).selection hfits hselected
  | true =>
    rw [hdistinct, if_pos rfl] at harranged
    obtain ⟨d₃, k₃, hselected, harranged⟩ := run_bind_eq_ok harranged
    obtain ⟨d₄, k₄, hunique, hordered⟩ := run_bind_eq_ok harranged
    have hresult := ((hrepeats.selection hfits hselected).distinct hfits hunique).ordered hordered
    -- There is a row before repetitions are left out, so there is one afterwards.
    have hcount (same alone : Bool) (n : Nat) :
        (if same = true then min 1 (if alone = true then 1 else max 1 n)
          else if alone = true then 1 else max 1 n) =
            if (true && same || alone) = true then 1 else max 1 n := by
      cases same <;> cases alone <;> simp
    rw [← hcount]
    exact hresult

end Totals

/-- **A query of aggregates answers with the aggregates of the rows that its filters accept**, in one
row if they collapse, and otherwise once for every row.  The answer is one row of the aggregates of
the select items exactly if there is no more than one row then, and if an item that refers into a
subquery has the value of the aggregate that is computed for it. -/
theorem answers_totals (h : q.SelectsTotals) (hoff : options.countPushdown = false) {a : Answer}
    (hanswer : (Answer.ofPlan (execute s options q)).answer l = .ok a) :
    ∃ rows, (acceptedRows s options q).answer l = .ok rows ∧ a.header = q.select ∧
      a.rows.map (·.values) = List.replicate (q.totalCount rows) (q.totals rows) ∧
      (a.rows.map (·.values) = [q.select.map (aggregateOver · rows)] ↔
        (q.collapses rows = true ∨ rows.length ≤ 1) ∧ ∀ i ∈ q.select, i.inner?.isSome = true →
          aggregateOver (q.totalFor i) rows = aggregateOver i rows) := by
  obtain ⟨d, l', hexecuted, hheader, hread⟩ := ofPlan_eq_ok hanswer
  obtain ⟨rows, haccepted, hrepeats⟩ :=
    Totals.repeats_of_longWay h (Totals.longWay_of_execute h hoff hexecuted)
  have hvalues := hrepeats.values_eq hread
  refine ⟨rows, haccepted, ?_, hvalues, ?_⟩
  · rw [hheader, hrepeats.header, List.append_nil]
  -- Only items that refer into a subquery can have the aggregate of another one.
  have hcells : q.totals rows = q.select.map (aggregateOver · rows) ↔
      ∀ i ∈ q.select, i.inner?.isSome = true →
        aggregateOver (q.totalFor i) rows = aggregateOver i rows := by
    unfold QueryOf.totals
    rw [List.map_inj_left]
    refine forall₂_congr fun i _ => ⟨fun heq _ => heq, fun himp => ?_⟩
    cases hinner : i.inner? with
    | none => exact RowSet.aggregateOver_computedFor hinner _ rows
    | some x => exact himp (by rw [hinner]; rfl)
  rw [hvalues, ← QueryOf.totalCount_eq_one_iff, ← hcells]
  constructor
  · intro heq
    have hone : q.totalCount rows = 1 := by simpa using congrArg List.length heq
    rw [hone] at heq
    exact ⟨hone, (List.cons.inj heq).1⟩
  · rintro ⟨hone, heq⟩
    rw [hone, heq]
    rfl

/-- A column of amounts. -/
def amount : Column := ⟨"x", "t", some .number, false⟩

/-- Its table, with three amounts. -/
def amounts : MemoryTables := ⟨[(⟨"t", [amount]⟩, [[.integer 1], [.integer 2], [.integer 3]])]⟩

/-- The number and the sum of the amounts that filters accept. -/
def tallied (filters : List Filter) (orderBy : List OrderItem) : Query where
  select := [Item.countAll 1, Item.ofFunction 2 .sum amount none]
  sources := [.table ⟨"t", [amount]⟩ none]
  filters := filters
  orderBy := orderBy

theorem selectsTotals_tallied (filters : List Filter) (orderBy : List OrderItem) :
    (tallied filters orderBy).SelectsTotals where
  select := List.cons_ne_nil _ _
  aggregates := by simp only [tallied, List.forall_mem_cons]; decide
  reflexive := by simp only [tallied, List.forall_mem_cons]; decide
  clones := by simp [tallied, Item.countAll, Item.ofFunction, Item.plain]
  groupBy := rfl
  having := rfl
  firstRow := Nat.le_refl 1
  maxRows := rfl

/-- The number and the sum of the amounts above one, in the order of their sum. -/
def talliedBySum : Query :=
  tallied [.comparison (Item.ofColumn 3 amount none) .greater (.value (.integer 1))]
    [⟨Item.ofFunction 4 .sum amount none, .descending⟩]

/-- In the order of a sum, two amounts give one row. -/
theorem answers_talliedBySum :
    ∃ a rows, (Answer.ofPlan (execute amounts.source { countPushdown := false } talliedBySum)).answer
        { nextItem := 5 } = .ok a ∧
      (acceptedRows amounts.source { countPushdown := false } talliedBySum).answer
        { nextItem := 5 } = .ok rows ∧
      a.rows.map (·.values) = [talliedBySum.select.map (aggregateOver · rows)] ∧
      a.rows.map Row.text = ["Row[2,5]"] := by
  have htext : ((Answer.ofPlan (execute amounts.source { countPushdown := false }
      talliedBySum)).answer { nextItem := 5 }).toOption.map (fun a => a.rows.map Row.text) =
        some ["Row[2,5]"] := by
    decide +kernel
  obtain ⟨a, ha, htext⟩ := Option.map_eq_some_iff.mp htext
  have hanswer := eq_ok_of_mem_toOption ha
  obtain ⟨rows, haccepted, -, -, hsingle⟩ :=
    answers_totals (selectsTotals_tallied _ _) rfl hanswer
  have hinner : ∀ i ∈ talliedBySum.select, i.inner?.isSome = false := by
    simp only [talliedBySum, tallied, List.forall_mem_cons]
    decide
  refine ⟨a, rows, hanswer, haccepted, hsingle.mpr ⟨Or.inl rfl, fun i hi hsome => ?_⟩, htext⟩
  rw [hinner i hi] at hsome
  cases hsome

/-- In the order of the amounts themselves, the row is there for each of them. -/
theorem answers_talliedByAmount :
    (tallied [] [⟨Item.ofColumn 4 amount none, .ascending⟩]).SelectsTotals ∧
    ((Answer.ofPlan (execute amounts.source { countPushdown := false }
      (tallied [] [⟨Item.ofColumn 4 amount none, .ascending⟩]))).answer { nextItem := 5 }).toOption.map
        (fun a => a.rows.map Row.text) = some ["Row[3,6]", "Row[3,6]", "Row[3,6]"] :=
  ⟨selectsTotals_tallied _ _, by cbv⟩

end Engine

end DocQuery
