import DocQuery.Proofs.Engine.Lockstep

/-!
# DocQuery.Proofs.Engine.Shortcuts — queries on one table in two runs

A query takes the long way unless it is one on a single table, so an option that concerns a short way
is judged by what becomes of the short way alone (`Engine.isLocallyAlike_of_shortcut`).  Steps of it
that do not ask for the option are alike in both runs.  Where a source holds the rows of a table, the
long way is that over a table held in memory (`Engine.longWay_eq_of_holds`).
-/

namespace DocQuery

open Plan

namespace Engine

variable {s : RowSource} {options : Options} {P : Item → Prop} {ρ : Pairing} {q : Query} {t : Table}

/-! ## Three kinds of queries -/

theorem execute_of_no_sources (s : RowSource) (options : Options) (h : q.sources = []) :
    execute s options q = throw (.noFromItems q.sql) := by
  rw [execute_eq, h]
  rfl

theorem execute_of_no_rows (s : RowSource) (options : Options) (h : q.sources ≠ [])
    (hzero : q.maxRows = some 0) : execute s options q = pure (.empty q.select) := by
  rw [execute_eq, if_neg (by simpa using h), if_pos hzero]

theorem execute_of_sources (s : RowSource) (options : Options) (h : q.sources ≠ [])
    (hrows : q.maxRows ≠ some 0) : execute s options q = (do
      match ← (match shortcutTable? q with
        | some t => shortcut s options q t
        | none => pure none) with
      | some d => return d
      | none => longWay s options q) := by
  have heq := execute_eq s options q
  rw [if_neg (by simpa using h), if_neg hrows] at heq
  exact heq

theorem execute_of_table (s : RowSource) (options : Options) (h : q.sources ≠ [])
    (hrows : q.maxRows ≠ some 0) (ht : shortcutTable? q = some t) : execute s options q = (do
      match ← shortcut s options q t with
      | some d => return d
      | none => longWay s options q) := by
  rw [execute_of_sources s options h hrows, ht]

theorem execute_of_no_table (s : RowSource) (options : Options) (h : q.sources ≠ [])
    (hrows : q.maxRows ≠ some 0) (ht : shortcutTable? q = none) :
    execute s options q = longWay s options q := by
  rw [execute_of_sources s options h hrows, ht]
  exact pure_bind none _

theorem exists_of_shortcutTable? (h : shortcutTable? q = some t) :
    ∃ aliasName, q.sources = [.table t aliasName] ∧ q.groupBy = [] ∧ q.having = [] := by
  unfold shortcutTable? at h
  split at h
  next source hsources =>
    split at h
    next hclauses =>
      rw [Bool.and_eq_true, List.isEmpty_iff, List.isEmpty_iff] at hclauses
      unfold FromItem.table? at h
      split at h
      next t' aliasName =>
        cases h
        exact ⟨aliasName, hsources, hclauses⟩
      next => cases h
    next => cases h
  next => cases h

/-- The long way ends with the clauses of the query. -/
theorem longWay_eq_ok {d : RowSet} {l l' : Ledger}
    (hrun : (longWay s options q).run l = (.ok d, l')) :
    ∃ sets k, (materializeAll s options (neededItems q) [] q.sources).run l = (.ok sets, k) ∧
      ∃ (d₀ d₁ d₂ : RowSet) (k₀ k₁ : Ledger), (combined q sets).run k = (.ok d₀, k₀) ∧
        (reduced q d₀).run k₀ = (.ok d₁, k₁) ∧
          (arranged q (d₁.filtered q.having)).run k₁ = (.ok d₂, l') ∧
            d = d₂.paged q.firstRow q.maxRows := by
  obtain ⟨sets, k, hsets, hrun⟩ := run_bind_eq_ok hrun
  rw [finish_eq] at hrun
  obtain ⟨d₀, k₀, hcombined, hrun⟩ := run_bind_eq_ok hrun
  obtain ⟨d₁, k₁, hreduced, hrun⟩ := run_bind_eq_ok hrun
  obtain ⟨d₂, k₂, harranged, hrun⟩ := run_bind_eq_ok hrun
  cases hrun
  exact ⟨sets, k, hsets, d₀, d₁, d₂, k₀, k₁, hcombined, hreduced, harranged, rfl⟩

/-! ## Steps that do not depend on the option -/

section Steps

variable (hs : s.IsSteady) (hown : ∀ i ∈ q.ownItems, P i) (hρ : ρ.Fixes P)

include hown hρ in
theorem alike_select : Item.AllAlike ρ q.select q.select :=
  List.forall₂_same.mpr fun i hi => hρ i (QueryOf.own_select hown i hi)

include hs in
theorem alike_askCount (t : Table) (filters : List Filter) (approximate : Bool) :
    Plan.Alike ρ (fun _ => Eq) (s.askCount t filters approximate)
      (s.askCount t filters approximate) := by
  unfold RowSource.askCount
  refine (alike_note _ _).bind fun σ _ _ past past' _ => ?_
  rw [hs.count past past']
  exact alike_lift (.of_eq rfl)

include hs hown hρ

/-- The source counts in both runs alike. -/
theorem alike_countShortcut {options' : Options}
    (hoptions : options.countPushdown = options'.countPushdown) (t : Table) :
    Plan.Alike ρ (fun σ => Option.Rel (RowSet.Alike σ)) (countShortcut s options q t)
      (countShortcut s options' q t) := by
  unfold countShortcut
  rw [hoptions]
  split
  next => exact alike_pure .none
  next item _ =>
    refine (alike_askCount hs t q.filters item.approximate).bind fun σ hσ _ count _ heq => ?_
    subst heq
    cases count with
    | none => exact alike_pure .none
    | some n =>
      have hselect := alike_select hown (hρ.mono hσ)
      exact alike_pure (.some ((RowSet.alike_ofRows hselect
        (.cons ⟨hselect, rfl, rfl⟩ .nil)).paged q.firstRow q.maxRows))

/-- The table is read straight away in both runs alike. -/
theorem alike_straightRead (t : Table) : Plan.Alike ρ (fun σ => Option.Rel (RowSet.Alike σ))
    (if isSimple q.select && !q.distinct && q.orderBy.isEmpty then do
      return some (← s.materializeTable t q.select q.filters q.firstRow q.maxRows)
    else return none)
    (if isSimple q.select && !q.distinct && q.orderBy.isEmpty then do
      return some (← s.materializeTable t q.select q.filters q.firstRow q.maxRows)
    else return none) := by
  split
  · refine (RowSource.alike_materializeTable hs t (alike_select hown hρ)
      (fun i hi => hρ i (QueryOf.own_filters hown i hi)) q.firstRow q.maxRows).bind ?_
    exact fun σ _ _ d d' hd => alike_pure (.some hd)
  · exact alike_pure .none

omit hown hρ in
theorem alike_askLookup (t : Table) (items : List Item) (column : Column) (key : Value) :
    Plan.Alike ρ (fun σ => Option.Rel (RowSet.Alike σ)) (s.askLookup t items column key)
      (s.askLookup t items column key) := by
  unfold RowSource.askLookup
  refine (alike_note _ _).bind fun σ _ _ past past' _ => ?_
  rw [hs.lookup past past']
  refine (alike_lift (R := fun _ => Eq) (.of_eq rfl)).bind fun τ _ _ found _ heq => ?_
  subst heq
  cases found with
  | none => exact alike_pure .none
  | some found =>
    refine (alike_makeItems found.1 none).bind fun υ _ _ header header' hheader => ?_
    exact alike_pure (.some (RowSet.alike_ofRows hheader (.cons ⟨hheader, rfl, rfl⟩ .nil)))

/-- A key is looked up in both runs alike. -/
theorem alike_keyShortcut {options' : Options} (hoptions : options.keyLookup = options'.keyLookup)
    (t : Table) : Plan.Alike ρ (fun σ => Option.Rel (RowSet.Alike σ)) (keyShortcut s options q t)
      (keyShortcut s options' q t) := by
  unfold keyShortcut
  rw [hoptions]
  split
  next => exact alike_pure .none
  next column key _ =>
    refine (alike_askLookup hs t q.select column key).bind fun σ hσ hone found found' hfound => ?_
    cases hfound with
    | none => exact alike_pure .none
    | some hd =>
      refine (RowSet.alike_selection hone (alike_select hown (hρ.mono hσ)) hd).bind ?_
      exact fun τ _ _ d d' hd => alike_pure (.some (hd.paged q.firstRow q.maxRows))

end Steps

/-- **Runs whose short ways are alike answer a query alike** wherever its long way is. -/
theorem isLocallyAlike_of_shortcut {options' : Options} (hown : ∀ i ∈ q.ownItems, P i)
    (h : ∀ (ρ : Pairing) t, ρ.Fixes P → shortcutTable? q = some t →
      Plan.Alike ρ (fun σ => Option.Rel (RowSet.Alike σ)) (shortcut s options q t)
        (shortcut s options' q t)) :
    IsLocallyAlike s options options' P q := by
  intro ρ hρ hlong
  by_cases hsources : q.sources = []
  · rw [execute_of_no_sources s _ hsources, execute_of_no_sources s _ hsources]
    exact alike_throw _
  by_cases hzero : q.maxRows = some 0
  · rw [execute_of_no_rows s _ hsources hzero, execute_of_no_rows s _ hsources hzero]
    exact alike_of_oneToOne fun hone =>
      alike_pure ((RowSet.alike_empty (alike_select hown hρ)).interchangeable (.refl ρ) hone)
  rw [execute_of_sources s _ hsources hzero, execute_of_sources s _ hsources hzero]
  -- Short ways that are alike are open in both runs or in none.
  cases htable : shortcutTable? q with
  | none =>
    simp only [pure_bind]
    exact (hlong ρ hρ).mono fun σ hσ hone d d' hd => hd.interchangeable hσ hone
  | some t =>
    simp only
    refine (h ρ t hρ htable).bind fun σ hσ hone short short' hshort => ?_
    cases hshort with
    | none =>
      exact (hlong σ (hρ.mono hσ)).mono fun τ hτ hone d d' hd =>
        hd.interchangeable (hτ.trans hσ) hone
    | some hd => exact alike_pure (hd.interchangeable hσ hone)

end Engine

/-! ## Rows that a source holds -/

namespace RowSource

/-- A source that reads a table as stored rows. -/
def Holds (s : RowSource) (t : Table) (rows : List (List Value)) : Prop :=
  ∀ past columns limit, s.read past t columns limit =
    .ok ((MemoryTables.select t columns rows limit).map .ok)

variable {s : RowSource} {t : Table} {rows : List (List Value)}

theorem find?_single (t : Table) (rows : List (List Value)) :
    (MemoryTables.mk [(t, rows)]).tables.find? (fun stored => stored.1.name == t.name) =
      some (t, rows) := by
  simp

theorem holds_source (t : Table) (rows : List (List Value)) :
    (MemoryTables.mk [(t, rows)]).source.Holds t rows := by
  intro past columns limit
  show ((MemoryTables.mk [(t, rows)]).read t columns limit).map _ = _
  unfold MemoryTables.read
  rw [find?_single]
  rfl

/-- Sources that hold the same rows of a table read it alike. -/
theorem Holds.materializeTable_eq {s' : RowSource} (h : s.Holds t rows) (h' : s'.Holds t rows) :
    s.materializeTable t = s'.materializeTable t := by
  have hcolumns : s.materializeColumns t = s'.materializeColumns t := by
    funext columns limit
    unfold materializeColumns
    simp only [h _ columns limit, h' _ columns limit]
  unfold materializeTable
  rw [hcolumns]

end RowSource

namespace Engine

variable {s : RowSource} {q : Query} {t : Table} {rows : List (List Value)}
  {aliasName : Option String}

/-- A query over one table takes the long way alike wherever the same rows are stored. -/
theorem longWay_eq_of_holds {s' : RowSource} (options options' : Options)
    (hsources : q.sources = [.table t aliasName]) (h : s.Holds t rows) (h' : s'.Holds t rows) :
    longWay s options q = longWay s' options' q := by
  unfold longWay
  rw [hsources]
  unfold materializeAll materializeAll materialize
  rw [h.materializeTable_eq h']

end Engine

end DocQuery
