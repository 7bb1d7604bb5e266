import DocQuery.Proofs.Engine.Everything
import DocQuery.Proofs.Rows.Windows

/-!
# DocQuery.Proofs.Engine.Paging — windows of what a query answers

A query cuts its window of rows in four places: with no rows at all to give, behind a count of the
source, behind a key that the source found, before the select list of a table that is read straight
away, where the source is told of it, and at the end of the long way.  All of them cut the same rows:
those of the query without a window, from the first row on, up to the count
(`Engine.answers_window_iff`).
-/

namespace DocQuery

open Plan
open RowSet (window)

/-- The query with a window of its rows. -/
def QueryOf.withWindow (q : Query) (firstRow : Nat) (maxRows : Option Nat) : Query :=
  { q with firstRow := firstRow, maxRows := maxRows }

namespace RowSource

/-! ## Reading a table -/

/-- Limits are hints: asked for some rows only, a source gives at least those, the first of all rows in
their order, and whatever it likes behind them. -/
def HonoursLimits (s : RowSource) : Prop :=
  ∀ past t columns n outcomes, s.read past t columns none = .ok outcomes →
    ∃ limited, s.read past t columns (some n) = .ok limited ∧ limited.take n = outcomes.take n

variable {s : RowSource} {t : Table} {columns : List Column} {limit : Option Nat} {d e : RowSet}
  {l l' : Ledger}

/-- The rows of some columns as they were read, under items with identities from one on. -/
def columnRows (columns : List Column) (first : Nat)
    (outcomes : List (Except QueryError (List Value))) : List (Except QueryError Row) :=
  let header := ((columns.map fun c id => Item.ofColumn id c none).zipIdx first).map fun p => p.1 p.2
  outcomes.map fun o => o.map fun values => { header := header, values := values }

/-- What is handed out depends on the next identity and on what is read. -/
theorem gives_handedOut {outcomes : List (Except QueryError (List Value))}
    (hread : s.read l.requests t columns limit = .ok outcomes) :
    (s.materializeColumns t columns limit).Gives l fun d l' => l.nextItem ≤ l'.nextItem ∧
      d.header = ((columns.map fun c id => Item.ofColumn id c none).zipIdx l.nextItem).map
        (fun p => p.1 p.2) ∧ d.stream.outcomes = columnRows columns l.nextItem outcomes := by
  unfold materializeColumns columnItems
  refine gives_bind (gives_modifyGet (gives_bind (gives_lift hread (gives_bind ?_))))
  refine ⟨_, _, run_makeItems _ _, gives_modifyGet ⟨Nat.le_add_right _ _, rfl, ?_⟩⟩
  exact Stream.outcomes_ofOutcomes _

theorem read_of_materializeColumns
    (hrun : (s.materializeColumns t columns limit).run l = (.ok d, l')) :
    ∃ outcomes, s.read l.requests t columns limit = .ok outcomes := by
  unfold materializeColumns at hrun
  obtain ⟨past, k, hpast, hrun⟩ := run_bind_eq_ok hrun
  cases hpast
  obtain ⟨outcomes, k', hread, -⟩ := run_bind_eq_ok hrun
  cases hresult : s.read l.requests t columns limit with
  | ok outcomes => exact ⟨outcomes, rfl⟩
  | error e =>
    rw [hresult] at hread
    cases hread

/-- **A limit on what is read leaves out only what the window leaves out.** -/
theorem gives_materializeColumns_limited (hs : s.HonoursLimits)
    (hrun : (s.materializeColumns t columns none).run l = (.ok d, l')) (n : Nat) {firstRow : Nat}
    (hfirst : firstRow ≤ 1) :
    (s.materializeColumns t columns (some n)).Gives l fun d' _ =>
      (d'.paged firstRow (some n)).IsWindowOf firstRow (some n) d := by
  obtain ⟨outcomes, hread⟩ := read_of_materializeColumns hrun
  obtain ⟨limited, hlimited, htake⟩ := hs _ _ _ n _ hread
  obtain ⟨-, hheader, houtcomes⟩ := (gives_handedOut hread).of_run hrun
  refine (gives_handedOut hlimited).mono fun d' _ hd' => ⟨?_, fun rows hrows => ?_⟩
  · rw [RowSet.header_paged, hd'.2.1, hheader]
  · have hzero : firstRow - 1 = 0 := by omega
    have hpaged : (d'.paged firstRow (some n)).stream = d'.stream.take n := by
      unfold RowSet.paged
      rw [if_neg (by omega)]
      rfl
    -- Both reads begin with the same rows, and none of them is a failure.
    have hprefix : (columnRows columns l.nextItem limited).take n = (rows.take n).map .ok := by
      unfold RowSet.Yields at hrows
      unfold columnRows at houtcomes ⊢
      dsimp only at houtcomes ⊢
      rw [← List.map_take, htake, List.map_take, ← houtcomes, hrows, List.map_take]
    unfold RowSet.Yields window
    rw [hpaged, Stream.outcomes_take_eq, hd'.2.2, hzero, List.drop_zero]
    exact Stream.upToRows_of_take hprefix

end RowSource

/-! ## Plans with a window -/

namespace Plan

/-- What one plan gives without a window, another one gives with it. -/
def Cuts (firstRow : Nat) (maxRows : Option Nat) (p p' : Plan RowSet) : Prop :=
  ∀ l d k, p.run l = (.ok d, k) → p'.Gives l fun d' _ => d'.IsWindowOf firstRow maxRows d

/-- The same of plans that may decline: both decline, and then they have done the same. -/
def CutsShort (firstRow : Nat) (maxRows : Option Nat) (p p' : Plan (Option RowSet)) : Prop :=
  ∀ l short k, p.run l = (.ok short, k) →
    (short = none ∧ p'.run l = (.ok none, k)) ∨
      ∃ d, short = some d ∧ p'.Gives l fun short' _ =>
        ∃ d', short' = some d' ∧ d'.IsWindowOf firstRow maxRows d

variable {firstRow : Nat} {maxRows : Option Nat} {p p' : Plan RowSet}
  {short short' : Plan (Option RowSet)}

/-- A window that is cut last. -/
theorem cuts_paged (p : Plan RowSet) :
    Cuts firstRow maxRows p (p >>= fun d => pure (d.paged firstRow maxRows)) := fun _ d k hrun =>
  gives_bind ⟨d, k, hrun, gives_pure (RowSet.isWindowOf_paged d firstRow maxRows)⟩

theorem cutsShort_paged (short : Plan (Option RowSet)) : CutsShort firstRow maxRows short
    (short >>= fun found => pure (found.map (·.paged firstRow maxRows))) := by
  intro l found k hrun
  rw [run_bind_of_run hrun]
  cases found with
  | none => exact Or.inl ⟨rfl, rfl⟩
  | some d => exact Or.inr ⟨d, rfl, gives_bind ⟨_, _, hrun,
      gives_pure ⟨_, rfl, RowSet.isWindowOf_paged d firstRow maxRows⟩⟩⟩

theorem cutsShort_none : CutsShort firstRow maxRows (pure none) (pure none) := by
  intro l found k hrun
  cases hrun
  exact Or.inl ⟨rfl, rfl⟩

theorem Cuts.some (h : Cuts firstRow maxRows p p') :
    CutsShort firstRow maxRows (p >>= fun d => pure (some d)) (p' >>= fun d => pure (some d)) := by
  intro l found k hrun
  obtain ⟨d, k', hp, hfound⟩ := run_bind_eq_ok hrun
  cases hfound
  exact Or.inr ⟨d, rfl, gives_bind ((h l d _ hp).mono fun d' _ hd' => gives_pure ⟨d', rfl, hd'⟩)⟩

/-- A plan that declines is followed by another one, which may decline as well. -/
theorem CutsShort.followed {next next' : Plan (Option RowSet)}
    (h : CutsShort firstRow maxRows short short') (hnext : CutsShort firstRow maxRows next next') :
    CutsShort firstRow maxRows
      (short >>= fun found => match found with
        | some d => pure (some d)
        | none => next)
      (short' >>= fun found => match found with
        | some d => pure (some d)
        | none => next') := by
  intro l found k hrun
  obtain ⟨first, k', hfirst, hrun⟩ := run_bind_eq_ok hrun
  rcases h l first k' hfirst with ⟨rfl, hdeclined⟩ | ⟨d, rfl, hgives⟩
  · rcases hnext k' found k hrun with ⟨rfl, hagain⟩ | ⟨d, rfl, hgives⟩
    · exact Or.inl ⟨rfl, (run_bind_of_run hdeclined).trans hagain⟩
    · exact Or.inr ⟨d, rfl, gives_bind ⟨none, k', hdeclined, hgives⟩⟩
  · cases hrun
    refine Or.inr ⟨d, rfl, gives_bind (hgives.mono ?_)⟩
    rintro _ k'' ⟨d', rfl, hd'⟩
    exact gives_pure ⟨d', rfl, hd'⟩

/-- A plan that declines is followed by one that does not. -/
theorem CutsShort.orElse (h : CutsShort firstRow maxRows short short')
    (hnext : Cuts firstRow maxRows p p') : Cuts firstRow maxRows
      (short >>= fun found => match found with
        | some d => pure d
        | none => p)
      (short' >>= fun found => match found with
        | some d => pure d
        | none => p') := by
  intro l e k hrun
  obtain ⟨first, k', hfirst, hrun⟩ := run_bind_eq_ok hrun
  rcases h l first k' hfirst with ⟨rfl, hdeclined⟩ | ⟨d, rfl, hgives⟩
  · exact gives_bind ⟨none, k', hdeclined, hnext k' e k hrun⟩
  · cases hrun
    refine gives_bind (hgives.mono ?_)
    rintro _ k'' ⟨d', rfl, hd'⟩
    exact gives_pure hd'

end Plan

/-- **A table is read straight away with its window cut first**, as it would be without one and the
window cut last. -/
theorem RowSource.cuts_materializeTable {s : RowSource} (hs : s.HonoursLimits) (t : Table)
    (items : List Item) (filters : List Filter) (firstRow : Nat) (maxRows : Option Nat) :
    Plan.Cuts firstRow maxRows (s.materializeTable t items filters 1 none)
      (s.materializeTable t items filters firstRow maxRows) := by
  intro l e k hrun
  unfold materializeTable at hrun ⊢
  rw [show (if filters.isEmpty && decide (1 ≤ 1) then none else none : Option Nat) = none by
    cases filters.isEmpty <;> rfl] at hrun
  obtain ⟨d, k, hread, hselected⟩ := run_bind_eq_ok hrun
  rw [RowSet.paged_all] at hselected
  have hwindow : (s.materializeColumns t (columnsOf (items ++ Filter.itemsOf filters))
      (if filters.isEmpty && decide (firstRow ≤ 1) then maxRows else none)).Gives l fun d' _ =>
        ((d'.filtered filters).paged firstRow maxRows).IsWindowOf firstRow maxRows
          (d.filtered filters) := by
    by_cases hlimit : (filters.isEmpty && decide (firstRow ≤ 1)) = true
    · rw [if_pos hlimit]
      rw [Bool.and_eq_true, List.isEmpty_iff, decide_eq_true_iff] at hlimit
      obtain ⟨rfl, hfirst⟩ := hlimit
      cases maxRows with
      | none => exact ⟨d, k, hread, RowSet.isWindowOf_paged _ _ _⟩
      | some n => exact gives_materializeColumns_limited hs hread n hfirst
    · rw [if_neg hlimit]
      exact ⟨d, k, hread, RowSet.isWindowOf_paged _ _ _⟩
  exact gives_bind (hwindow.mono fun d' k' hd' => hd'.gives_selection hselected k')

namespace Engine

variable {s : RowSource} {options : Options} {q : Query}

/-! ## Short ways -/

theorem countShortcut_window (s : RowSource) (options : Options) (q : Query) (t : Table)
    (firstRow : Nat) (maxRows : Option Nat) :
    countShortcut s options (q.withWindow firstRow maxRows) t = (do
      let short ← countShortcut s options (q.withWindow 1 none) t
      return short.map (·.paged firstRow maxRows)) := by
  unfold countShortcut QueryOf.withWindow
  dsimp only
  split
  · rfl
  next item _ =>
    rw [bind_assoc]
    refine bind_congr fun count => ?_
    cases count <;> rfl

theorem keyShortcut_window (s : RowSource) (options : Options) (q : Query) (t : Table)
    (firstRow : Nat) (maxRows : Option Nat) :
    keyShortcut s options (q.withWindow firstRow maxRows) t = (do
      let short ← keyShortcut s options (q.withWindow 1 none) t
      return short.map (·.paged firstRow maxRows)) := by
  unfold keyShortcut QueryOf.withWindow
  dsimp only
  generalize (if options.keyLookup && isSimple q.select then keyCondition? t q.filters else none) =
    condition
  cases condition with
  | none => rfl
  | some pair =>
    dsimp only
    rw [bind_assoc]
    refine bind_congr fun found => ?_
    cases found with
    | none => rfl
    | some d =>
      dsimp only
      rw [bind_assoc]
      rfl

theorem cutsShort_shortcut (hs : s.HonoursLimits) (t : Table) (firstRow : Nat)
    (maxRows : Option Nat) :
    Plan.CutsShort firstRow maxRows (shortcut s options (q.withWindow 1 none) t)
      (shortcut s options (q.withWindow firstRow maxRows) t) := by
  have hstraight : Plan.CutsShort firstRow maxRows
      (if isSimple q.select && !q.distinct && q.orderBy.isEmpty then do
        return some (← s.materializeTable t q.select q.filters 1 none)
      else return none)
      (if isSimple q.select && !q.distinct && q.orderBy.isEmpty then do
        return some (← s.materializeTable t q.select q.filters firstRow maxRows)
      else return none) := by
    split
    · exact (RowSource.cuts_materializeTable hs t q.select q.filters firstRow maxRows).some
    · exact cutsShort_none
  unfold shortcut
  rw [countShortcut_window s options q t firstRow maxRows,
    keyShortcut_window s options q t firstRow maxRows]
  exact (cutsShort_paged _).followed ((cutsShort_paged _).followed hstraight)

/-! ## The long way -/

theorem longWay_window (s : RowSource) (options : Options) (q : Query) (firstRow : Nat)
    (maxRows : Option Nat) : longWay s options (q.withWindow firstRow maxRows) = (do
      let d ← longWay s options (q.withWindow 1 none)
      return d.paged firstRow maxRows) := by
  unfold longWay
  rw [bind_assoc]
  refine bind_congr fun sets => ?_
  rw [finish_eq, finish_eq]
  simp only [bind_assoc]
  rfl

/-- **A query gives the window of what it gives without one**, wherever it cuts it, unless it has no
rows to give. -/
theorem cuts_execute (hs : s.HonoursLimits) (firstRow : Nat) {maxRows : Option Nat}
    (hrows : maxRows ≠ some 0) :
    Plan.Cuts firstRow maxRows (execute s options (q.withWindow 1 none))
      (execute s options (q.withWindow firstRow maxRows)) := by
  have hunpaged : (q.withWindow 1 none).maxRows ≠ some 0 := nofun
  have hpaged : (q.withWindow firstRow maxRows).maxRows ≠ some 0 := hrows
  by_cases hsources : q.sources = []
  · have hnone : (q.withWindow 1 none).sources = [] := hsources
    rw [execute_of_no_sources s options hnone]
    intro l d k hrun
    cases hrun
  · have hsome : (q.withWindow 1 none).sources ≠ [] := hsources
    have hsome' : (q.withWindow firstRow maxRows).sources ≠ [] := hsources
    rw [execute_of_sources s options hsome hunpaged, execute_of_sources s options hsome' hpaged,
      longWay_window s options q firstRow maxRows]
    have htable : shortcutTable? (q.withWindow firstRow maxRows) = shortcutTable? (q.withWindow 1 none) :=
      rfl
    rw [htable]
    refine Plan.CutsShort.orElse ?_ (cuts_paged _)
    cases shortcutTable? (q.withWindow 1 none) with
    | none => exact cutsShort_none
    | some t => exact cutsShort_shortcut hs t firstRow maxRows

/-- **The window of an answer.**  If a query answers without a window, it answers with any: the rows of
its answer from the first row on, up to the count.  The labels are those of its answer as well, unless
it is to give no rows at all: then they are the labels of its select list, whatever labels the answer
has. -/
theorem answers_window_iff (hs : s.HonoursLimits) {l : Ledger} {a : Answer}
    (h : (Answer.ofPlan (execute s options (q.withWindow 1 none))).answer l = .ok a)
    (firstRow : Nat) (maxRows : Option Nat) :
    ∃ a', (Answer.ofPlan (execute s options (q.withWindow firstRow maxRows))).answer l = .ok a' ∧
      a'.rows = window firstRow maxRows a.rows ∧
      (a'.labels = a.labels ↔ maxRows ≠ some 0 ∨ q.select.map Item.label = a.labels) := by
  obtain ⟨d, k, hrun, hheader, hrows⟩ := ofPlan_eq_ok h
  by_cases hzero : maxRows = some 0
  · have hsources : (q.withWindow firstRow maxRows).sources ≠ [] := by
      intro hnone
      have hnone' : (q.withWindow 1 none).sources = [] := hnone
      rw [execute_of_no_sources s options hnone'] at hrun
      cases hrun
    rw [execute_of_no_rows s options hsources hzero]
    refine ⟨⟨q.select, []⟩, rfl, ?_, ?_⟩
    · rw [hzero]
      rfl
    · rw [or_iff_right (not_not_intro hzero)]
      rfl
  · obtain ⟨d', k', hrun', hd'⟩ := cuts_execute hs firstRow hzero l d k hrun
    have hgives : (Answer.ofPlan (execute s options (q.withWindow firstRow maxRows))).Gives l
        fun a' _ => a' = ⟨d'.header, window firstRow maxRows a.rows⟩ :=
      gives_bind ⟨d', k', hrun', gives_bind (RowSet.gives_toRows (hd'.rows a.rows hrows)
        fun _ _ => gives_pure rfl)⟩
    obtain ⟨a', ha', -, rfl⟩ := hgives.answer
    refine ⟨_, ha', rfl, ?_⟩
    rw [iff_true_right (Or.inl hzero)]
    unfold Answer.labels
    rw [hheader, hd'.header]

/-- Tables held in memory give exactly as many rows as they are asked for. -/
theorem honoursLimits_memory (m : MemoryTables) : m.source.HonoursLimits := by
  intro past t columns n outcomes hread
  have hrows : (m.read t columns none).map (·.map Except.ok) = .ok outcomes := hread
  show ∃ limited, (m.read t columns (some n)).map (·.map Except.ok) = .ok limited ∧ _
  unfold MemoryTables.read at hrows ⊢
  split at hrows
  next stored rows _ =>
    cases hrows
    refine ⟨_, rfl, ?_⟩
    unfold MemoryTables.select
    rw [← List.map_take, ← List.map_take, ← List.map_take, ← List.map_take, List.take_take,
      Nat.min_self]
  · cases hrows

/-- All numbers. -/
def allNumbers : String := "SELECT id FROM t"

/-- The first of the numbers. -/
theorem answers_window_firstNumber : ∃ q n a a',
    numbers.source.parse {} allNumbers = .ok (q, n) ∧ numbers.source.HonoursLimits ∧
    (Answer.ofPlan (execute numbers.source {} (q.withWindow 1 none))).answer { nextItem := n } =
      .ok a ∧ a.rows.map Row.text = ["Row[1]", "Row[2]"] ∧
    (Answer.ofPlan (execute numbers.source {} (q.withWindow 1 (some 1)))).answer
      { nextItem := n } = .ok a' ∧
    a'.rows.map Row.text = ["Row[1]"] ∧ a'.labels = a.labels := by
  have hshown : (numbers.source.parse {} allNumbers).toOption.bind (fun parsed =>
      shownRows ((Answer.ofPlan (execute numbers.source {}
        (QueryOf.withWindow parsed.1 1 none))).answer { nextItem := parsed.2 })) =
      some ["Row[1]", "Row[2]"] := by
    decide +kernel
  obtain ⟨⟨q, n⟩, hparse, hshown⟩ := Option.bind_eq_some_iff.mp hshown
  obtain ⟨a, ha, htexts⟩ := Option.map_eq_some_iff.mp hshown
  have hlimits := honoursLimits_memory numbers
  have ha := eq_ok_of_mem_toOption ha
  obtain ⟨a', ha', hrows, hlabels⟩ := answers_window_iff hlimits ha 1 (some 1)
  refine ⟨q, n, a, a', eq_ok_of_mem_toOption hparse, hlimits, ha, htexts, ha', ?_,
    hlabels.mpr (Or.inl nofun)⟩
  rw [hrows, ← RowSet.window_map, htexts]
  rfl

/-- One column of a subquery under one name, grouped by it under another one. -/
def groupedUnderOtherName : String :=
  "SELECT s.a FROM (SELECT id AS a, id AS b FROM t) s GROUP BY s.b"

/-- Its rows come under the name that they are grouped by, but with no rows to give, it answers under the
name that it selects. -/
theorem not_answers_window_groupedUnderOtherName :
    ((numbers.source.ask {} groupedUnderOtherName).map Answer.labels).toOption = some ["s.b"] ∧
      ((numbers.source.ask {} (groupedUnderOtherName ++ " LIMIT 0")).map Answer.labels).toOption =
        some ["s.a"] := by
  decide +kernel

end Engine

end DocQuery
