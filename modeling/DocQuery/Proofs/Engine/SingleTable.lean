import DocQuery.Engine.Answer
import DocQuery.Proofs.Engine.TableRead

/-!
# DocQuery.Proofs.Engine.SingleTable — queries over one table held in memory

What a query over one table answers can be said without its plan: of the stored rows those that all
filters accept, stably sorted, a window of them, and of each the values of the select list
(`QueryOf.answerOver`).  The short way and the long way give the same rows, and they are this answer
unless a scalar function of the select list stands in for another one
(`Engine.execute_singleTable_iff`).
-/

namespace DocQuery

open Plan
open RowSet (Presents ReadsWithin Selects selectedValues sortedCells standIn window)

/-- Whether a table is built well: its columns have different names and belong to it. -/
structure Table.WellBuilt (t : Table) : Prop where
  names : (t.columns.map (·.name)).Nodup
  own : ∀ c ∈ t.columns, c.table = t.name

namespace QueryOf

/-! ## The answer -/

/-- The items that the clauses of a query without grouping consist of. -/
def clauseItems (q : Query) : List Item :=
  q.select ++ Filter.itemsOf q.filters ++ q.orderBy.map (·.item)

section Clauses

variable {q : Query} {columns : List Column} {first : Nat}
  (h : ReadsWithin columns first q.clauseItems)

include h

theorem readsWithin_select : ReadsWithin columns first q.select := fun i hi =>
  h i (List.mem_append_left _ (List.mem_append_left _ hi))

theorem readsWithin_filters : ReadsWithin columns first (Filter.itemsOf q.filters) := fun i hi =>
  h i (List.mem_append_left _ (List.mem_append_right _ hi))

theorem readsWithin_orderBy : ReadsWithin columns first (q.orderBy.map (·.item)) := fun i hi =>
  h i (List.mem_append_right _ hi)

end Clauses

/-- The valuations of the stored rows that a query answers from. -/
def chosen (q : Query) (t : Table) (rows : List (List Value)) : List (Column → Value) :=
  window q.firstRow q.maxRows (sortedCells q.orderBy
    ((rows.map t.cell).filter fun g => Filter.allHold (Item.valueIn g) q.filters))

theorem chosen_of_unordered {q : Query} (h : q.orderBy = []) (t : Table)
    (rows : List (List Value)) : q.chosen t rows = window q.firstRow q.maxRows
      ((rows.map t.cell).filter fun g => Filter.allHold (Item.valueIn g) q.filters) := by
  unfold chosen
  rw [h, RowSet.sortedCells_nil]

/-- The answer of a query over a table with stored rows. -/
def answerOver (q : Query) (t : Table) (rows : List (List Value)) : List (List Value) :=
  (q.chosen t rows).map fun g => q.select.map (Item.valueIn g)

/-- A query over one table under a label, without grouping and without parameters.  Its items read
columns of the table, in its scope or in none, and have identities drawn before `first`, which only
copies share. -/
structure IsOver (q : Query) (t : Table) (label : String) (first : Nat) : Prop where
  distinct : q.distinct = false
  groupBy : q.groupBy = []
  having : q.having = []
  parameters : Filter.parameterCountOf q.filters = 0
  reads : ReadsWithin t.columns first q.clauseItems
  scopes : ∀ i ∈ q.clauseItems, ∀ scope, i.scope = some scope → Text.sameName scope label = true
  clones : ∀ i ∈ q.select, ∀ j ∈ q.select, i.id = j.id → i.withoutAlias = j.withoutAlias

variable {q : Query} {t : Table} {label : String} {first : Nat}

theorem IsOver.selects (h : q.IsOver t label first) {columns : List Column}
    (hcolumns : ReadsWithin columns first q.select) : Selects columns first q.select :=
  ⟨fun i hi => (hcolumns i hi).2, fun i hi => (hcolumns i hi).1,
    fun i hi _ j hj hid => h.clones i hi j hj hid⟩

end QueryOf

namespace Engine

/-! ## The table of a query -/

/-- The columns that items read of a table under a label, each once. -/
def ownedColumns (t : Table) (label : String) (needed : List Item) : List Column :=
  (needed.filterMap (ownedColumn? t label)).foldl addColumn []

theorem mem_ownedColumns {t : Table} {label : String} {needed : List Item} {c : Column} :
    c ∈ ownedColumns t label needed ↔ ∃ i ∈ needed, ownedColumn? t label i = some c := by
  unfold ownedColumns
  rw [mem_foldl_addColumn, ← List.mem_filterMap]
  simp

theorem nodup_ownedColumns (t : Table) (label : String) (needed : List Item) :
    (ownedColumns t label needed).Nodup := nodup_foldl_addColumn List.nodup_nil

section Memory

variable {m : MemoryTables} {t : Table} {rows : List (List Value)}
  (hstored : m.tables.find? (fun stored => stored.1.name == t.name) = some (t, rows))
  (hbuilt : t.WellBuilt)

include hstored hbuilt

/-- **A table with the items needed of it presents the valuations of its stored rows.** -/
theorem gives_materialize_table (options : Options) {needed : List Item} {aliasName : Option String}
    (hneeded : ownedColumns t (aliasName.getD t.name) needed ⊆ t.columns) (l : Ledger) :
    (materialize m.source options needed (.table t aliasName)).Gives l fun d l' =>
      l.nextItem ≤ l'.nextItem ∧ d.Presents (some (aliasName.getD t.name)) l.nextItem
        (ownedColumns t (aliasName.getD t.name) needed) (rows.map t.cell) := by
  unfold materialize tableItems
  refine gives_bind ((gives_makeItems (ownedColumns t (aliasName.getD t.name) needed)
    (some (aliasName.getD t.name)) l).mono ?_)
  rintro items l' ⟨hitems, hid, hle⟩
  have hitem : ∀ i ∈ items, ∃ c ∈ ownedColumns t (aliasName.getD t.name) needed, i.Reads c :=
    fun i hi => (hitems.isPlain hi).2
  have hread : ReadsWithin t.columns l'.nextItem (items ++ Filter.itemsOf []) := by
    intro i hi
    have hi' : i ∈ items := by simpa [Filter.itemsOf] using hi
    obtain ⟨c, hc, hreads⟩ := hitem i hi'
    exact ⟨hid i hi', c, hneeded hc, hreads⟩
  refine RowSource.gives_materializeTable hstored hbuilt.names hread rfl fun d l'' hle' hd => ?_
  have howned : ownedColumns t (aliasName.getD t.name) needed ⊆
      RowSource.columnsOf (items ++ Filter.itemsOf []) := by
    intro c hc
    obtain ⟨i, hi, hofColumn, -⟩ := exists_of_mem_forall₂ hitems.flip hc
    refine RowSource.mem_columnsOf.mpr ⟨i, List.mem_append_left _ hi, ?_⟩
    rw [hofColumn]
    rfl
  -- The table is read without filters and without a window here.
  have hall : window 1 none ((rows.map t.cell).filter fun g => Filter.allHold (Item.valueIn g) []) =
      rows.map t.cell := List.filter_eq_self.mpr fun _ _ => rfl
  rw [hall] at hd
  refine (hd.gives_scoped hitems howned hid l'').mono ?_
  rintro d' _ ⟨rfl, hd'⟩
  exact ⟨Nat.le_trans hle hle', hd'⟩

end Memory

/-! ## Covered items -/

section Covered

variable {q : Query} {t : Table} {label : String} {first : Nat}

theorem neededItems_eq (h : q.IsOver t label first) :
    neededItems q = q.clauseItems.foldl Item.pushNew [] := by
  unfold neededItems withLaterItems QueryOf.clauseItems
  rw [h.groupBy, h.having, ← List.foldl_append]
  rfl

theorem ownedColumn?_of_reads (hbuilt : t.WellBuilt) {i : Item} {c : Column} (hi : i.Reads c)
    (hc : c ∈ t.columns)
    (hscope : ∀ scope, i.scope = some scope → Text.sameName scope label = true) :
    ownedColumn? t label i = some c := by
  unfold ownedColumn?
  rw [hi.column?, Option.filter_some]
  cases hlabel : i.scope with
  | none => simp [hbuilt.own c hc]
  | some scope => simp [hscope scope hlabel]

/-- The columns that are read of the table are columns of it. -/
theorem ownedColumns_subset (h : q.IsOver t label first) :
    ownedColumns t label (neededItems q) ⊆ t.columns := by
  intro c hc
  obtain ⟨i, hi, howned⟩ := mem_ownedColumns.mp hc
  rw [neededItems_eq h] at hi
  have hclause : i ∈ q.clauseItems := by
    rcases Item.mem_of_mem_foldl_pushNew hi with hnil | hclause
    · cases hnil
    · exact hclause
  obtain ⟨-, d, hd, hreads⟩ := h.reads i hclause
  unfold ownedColumn? at howned
  rw [hreads.column?] at howned
  obtain ⟨heq, -⟩ := Option.filter_eq_some_iff.mp howned
  cases heq
  exact hd

/-- **No column is missing**: what is read of the table is enough for every clause.  An item that was
left out as a repetition reads the same column in the same scope as the one that was kept. -/
theorem readsWithin_ownedColumns (h : q.IsOver t label first) (hbuilt : t.WellBuilt) :
    ReadsWithin (ownedColumns t label (neededItems q)) first q.clauseItems := by
  intro i hi
  obtain ⟨hid, c, hc, hreads⟩ := h.reads i hi
  refine ⟨hid, c, mem_ownedColumns.mpr ?_, hreads⟩
  rw [neededItems_eq h]
  obtain ⟨j, hj, rfl | hsame⟩ := Item.exists_mem_foldl_pushNew hi
  · exact ⟨j, hj, ownedColumn?_of_reads hbuilt hreads hc (h.scopes j hi)⟩
  · obtain ⟨hsource, hscope, -⟩ := Item.sameAs_true_column hsame hreads.source
    have howned : ownedColumn? t label i = some c :=
      ownedColumn?_of_reads hbuilt hreads hc (h.scopes i hi)
    refine ⟨j, hj, ?_⟩
    unfold ownedColumn? Item.column? at howned ⊢
    rw [hsource, hscope]
    rwa [hreads.source] at howned

end Covered

/-! ## The rest of the long way -/

section Finish

variable {scope : Option String} {first : Nat} {columns : List Column}
  {cells : List (Column → Value)} {d : RowSet} {q : Query} {t : Table} {label : String}

/-- Where nothing is aggregated, the rows stay as they are. -/
theorem aggregated_eq_pure {items : List Item} (hitems : ∀ i ∈ items, i.aggregate? = none) :
    d.aggregated items = pure d := by
  have hnone : items.filter (·.aggregate?.isSome) = [] := by
    refine List.filter_eq_nil_iff.mpr fun i hi => ?_
    rw [hitems i hi]
    exact Bool.false_ne_true
  have haggregates : RowSet.aggregatesOf items = .ok [] := by
    unfold RowSet.aggregatesOf
    rw [hnone]
    rfl
  unfold RowSet.aggregated
  rw [haggregates]

theorem gives_aggregated {items : List Item} (hitems : ∀ i ∈ items, i.aggregate? = none) {l : Ledger}
    {post : RowSet → Ledger → Prop} (h : post d l) : (d.aggregated items).Gives l post := by
  rw [aggregated_eq_pure hitems]
  exact gives_pure h

/-- **The clauses of a query shape the valuations of its table.** -/
theorem gives_finish (h : q.IsOver t label first) (hfirst : 0 < first)
    (hd : d.Presents scope first columns cells) (hnodup : columns.Nodup)
    (hreads : ReadsWithin columns first q.clauseItems) (l : Ledger) :
    (finish q [d]).Gives l fun d' l' => l'.nextItem = l.nextItem ∧
      d'.Answers first q.select (selectedValues q.select (window q.firstRow q.maxRows
        (sortedCells q.orderBy (cells.filter fun g => Filter.allHold (Item.valueIn g) q.filters)))) := by
  have hlater : ∀ i ∈ withLaterItems q q.select, i.aggregate? = none := by
    intro i hi
    unfold withLaterItems at hi
    rw [h.groupBy, h.having] at hi
    rcases Item.mem_of_mem_foldl_pushNew hi with hselected | hordered
    · obtain ⟨-, c, -, hc⟩ := QueryOf.readsWithin_select hreads i hselected
      exact hc.aggregate?
    · obtain ⟨-, c, -, hc⟩ := QueryOf.readsWithin_orderBy hreads i hordered
      exact hc.aggregate?
  unfold finish
  refine gives_bind (gives_pure ?_)
  rw [h.groupBy, h.having, h.distinct]
  refine gives_bind (gives_aggregated hlater ?_)
  have haccepted := hd.filtered (QueryOf.readsWithin_filters hreads) h.parameters
  refine gives_bind ((haccepted.gives_ordered (QueryOf.readsWithin_orderBy hreads) l).mono ?_)
  rintro sorted l' ⟨hnext, hsorted⟩
  have hselects := h.selects (QueryOf.readsWithin_select hreads)
  refine gives_bind ((RowSet.gives_selection hsorted hnodup hfirst hselects l').mono ?_)
  rintro d' _ ⟨rfl, hvalues⟩
  have hpaged := hvalues.paged q.firstRow q.maxRows
  rw [selectedValues, RowSet.window_map] at hpaged
  exact gives_pure ⟨hnext, hpaged⟩

end Finish

/-! ## Answered values -/

/-- The values of the rows that a plan answers. -/
def answeredValues (p : Plan RowSet) (l : Ledger) : Except QueryError (List (List Value)) :=
  ((Answer.ofPlan p).answer l).map fun a => a.rows.map (·.values)

/-- A plan that answers makes a data set, whose rows are the answer. -/
theorem ofPlan_eq_ok {p : Plan RowSet} {l : Ledger} {a : Answer}
    (h : (Answer.ofPlan p).answer l = .ok a) :
    ∃ d l', p.run l = (.ok d, l') ∧ a.header = d.header ∧ d.Yields a.rows := by
  obtain ⟨l', hrun⟩ : ∃ l', (Answer.ofPlan p).run l = (.ok a, l') := ⟨_, Prod.ext h rfl⟩
  obtain ⟨d, k, hmade, hread⟩ := run_bind_eq_ok hrun
  obtain ⟨rows, k', hrows, hanswer⟩ := run_bind_eq_ok hread
  cases hanswer
  exact ⟨d, k, hmade, rfl, RowSet.yields_of_toRows hrows⟩

/-- A plan answers if its data set can be read. -/
theorem exists_answer {p : Plan RowSet} {l : Ledger} {header : List Item}
    {values : List (List Value)} (h : p.Gives l fun d _ => d.header = header ∧ d.Shows values) :
    ∃ a, (Answer.ofPlan p).answer l = .ok a ∧ a.header = header ∧ a.rows.map (·.values) = values := by
  have hanswer : (Answer.ofPlan p).Gives l fun a _ =>
      a.header = header ∧ a.rows.map (·.values) = values := by
    refine gives_bind (h.mono ?_)
    rintro d l' ⟨hheader, rows, hrows, hvalues⟩
    exact gives_bind (RowSet.gives_toRows hrows fun _ _ => gives_pure ⟨hheader, hvalues⟩)
  obtain ⟨a, ha, -, hshown⟩ := hanswer.answer
  exact ⟨a, ha, hshown⟩

theorem answeredValues_eq {p : Plan RowSet} {l : Ledger} {values : List (List Value)}
    {first : Nat} {select : List Item} (h : p.Gives l fun d l' =>
      l.nextItem ≤ l'.nextItem ∧ d.Answers first select values) :
    answeredValues p l = .ok values := by
  obtain ⟨d, l', hrun, -, hanswers⟩ := h
  obtain ⟨a, ha, -, hvalues⟩ := exists_answer ⟨d, l', hrun, rfl, hanswers.shows⟩
  rw [answeredValues, ha]
  exact congrArg Except.ok hvalues

/-! ## Both ways -/

/-- The long way of a query: its from items are read with the items that it needs, and its clauses
shape them. -/
def longWay (s : RowSource) (options : Options) (q : Query) : Plan RowSet := do
  finish q (← materializeAll s options (neededItems q) [] q.sources)

/-- A query takes a short way if there is one, and the long way otherwise. -/
theorem execute_eq (s : RowSource) (options : Options) (q : Query) :
    execute s options q = (do
      if q.sources.isEmpty then throw (.noFromItems q.sql)
      if q.maxRows = some 0 then return .empty q.select
      match ← (match shortcutTable? q with
        | some t => shortcut s options q t
        | none => pure none) with
      | some d => return d
      | none => longWay s options q) := by
  cases q
  rw [execute]
  generalize shortcutTable? _ = short
  cases short <;> rfl

section Memory

variable {m : MemoryTables} {t : Table} {rows : List (List Value)}
  (hstored : m.tables.find? (fun stored => stored.1.name == t.name) = some (t, rows))
  (hbuilt : t.WellBuilt) {q : Query} {aliasName : Option String} {l : Ledger}
  (hsources : q.sources = [.table t aliasName])
  (hover : q.IsOver t (aliasName.getD t.name) l.nextItem) (hfirst : 0 < l.nextItem)
  (options : Options)

include hstored hbuilt hsources hover hfirst

theorem gives_longWay : (longWay m.source options q).Gives l fun d l' =>
    l.nextItem ≤ l'.nextItem ∧
      d.Answers l.nextItem q.select (selectedValues q.select (q.chosen t rows)) := by
  unfold longWay
  rw [hsources]
  -- There is one from item, so the second unfolding is that of the empty rest.
  unfold materializeAll materializeAll
  have hsubset := ownedColumns_subset hover
  refine gives_bind (gives_bind (gives_orElseClosing
    ((gives_materialize_table hstored hbuilt options hsubset l).mono fun d l' hd => ?_)))
  refine gives_pure ((gives_finish hover hfirst hd.2 (nodup_ownedColumns _ _ _)
    (readsWithin_ownedColumns hover hbuilt) l').mono ?_)
  rintro d' l'' ⟨hnext, hanswers⟩
  exact ⟨hnext ▸ hd.1, hanswers⟩

omit hsources in
theorem gives_straightRead (hunordered : q.orderBy = []) :
    (m.source.materializeTable t q.select q.filters q.firstRow q.maxRows).Gives l fun d l' =>
      l.nextItem ≤ l'.nextItem ∧
        d.Answers l.nextItem q.select (selectedValues q.select (q.chosen t rows)) := by
  have hreads : ReadsWithin t.columns l.nextItem (q.select ++ Filter.itemsOf q.filters) :=
    fun i hi => hover.reads i (List.mem_append_left _ hi)
  refine RowSource.gives_materializeTable hstored hbuilt.names hreads hover.parameters ?_
  intro d l' hle hd
  have hselect := RowSource.readsWithin_columnsOf hreads (List.subset_append_left q.select _)
  refine (RowSet.gives_selection hd (RowSource.nodup_columnsOf _) hfirst
    (hover.selects hselect) l').mono ?_
  rintro d' _ ⟨rfl, hvalues⟩
  rw [QueryOf.chosen_of_unordered hunordered]
  exact ⟨hle, hvalues⟩

omit hstored hbuilt hsources hfirst in
/-- Nothing is counted by the source: no select item is the count of all rows. -/
theorem countItem?_eq_none : countItem? q.select q.filters = none := by
  have hcount : ∀ i ∈ q.select, i.isCountAll = false := by
    intro i hi
    obtain ⟨-, c, -, hreads⟩ := QueryOf.readsWithin_select hover.reads i hi
    exact hreads.isCountAll
  unfold countItem?
  split
  next i hselect _ => rw [hcount i (by simp [hselect])]; rfl
  next i item operand hselect _ => rw [hcount i (by simp [hselect])]; rfl
  next => rfl

omit hstored hbuilt hsources hfirst in
theorem isSimple_select : isSimple q.select = true := by
  unfold isSimple
  rw [List.all_eq_true]
  intro i hi
  obtain ⟨-, c, -, hreads⟩ := QueryOf.readsWithin_select hover.reads i hi
  rw [hreads.aggregate?, hreads.expression?]
  rfl

omit hstored hbuilt hsources hover hfirst in
/-- No row is found by its key: tables in memory decline to. -/
theorem gives_keyShortcut : (keyShortcut m.source options q t).Gives l fun short l' =>
    short = none ∧ l'.nextItem = l.nextItem := by
  unfold keyShortcut
  split
  next => exact gives_pure ⟨rfl, rfl⟩
  next column key _ =>
    unfold RowSource.askLookup
    refine gives_bind (gives_bind (gives_modifyGet ?_))
    refine gives_bind (gives_lift rfl (gives_pure ?_))
    exact gives_pure ⟨rfl, rfl⟩

omit hsources in
/-- The short way gives the same values where it is taken. -/
theorem gives_shortcut : (shortcut m.source options q t).Gives l fun short l' =>
    (∃ d, short = some d ∧ l.nextItem ≤ l'.nextItem ∧
      d.Answers l.nextItem q.select (selectedValues q.select (q.chosen t rows))) ∨
      (short = none ∧ l'.nextItem = l.nextItem) := by
  have hcount : countShortcut m.source options q t = pure none := by
    unfold countShortcut
    rw [countItem?_eq_none hover]
    cases options.countPushdown <;> rfl
  unfold shortcut
  rw [hcount]
  -- Asking for a key draws no identity, so what is known of the query holds after it as well.
  refine gives_bind (gives_pure (gives_bind ((gives_keyShortcut options).mono ?_)))
  rintro _ l' ⟨rfl, hnext⟩
  rw [isSimple_select hover, hover.distinct]
  by_cases hordered : q.orderBy = []
  · rw [hordered]
    rw [← hnext] at hover hfirst
    refine gives_bind ((gives_straightRead hstored hbuilt hover hfirst hordered).mono ?_)
    rintro d l'' ⟨hle, hd⟩
    rw [hnext] at hle hd
    exact gives_pure (Or.inl ⟨d, rfl, hle, hd⟩)
  · rw [show q.orderBy.isEmpty = false from by simpa using hordered]
    exact gives_pure (Or.inr ⟨rfl, hnext⟩)

/-- **A query over one table gives the values of the items that stand in for its select list.** -/
theorem gives_execute : (execute m.source options q).Gives l fun d l' =>
    l.nextItem ≤ l'.nextItem ∧
      d.Answers l.nextItem q.select (selectedValues q.select (q.chosen t rows)) := by
  have htable : shortcutTable? q = some t := by
    unfold shortcutTable?
    rw [hsources, hover.groupBy, hover.having]
    rfl
  rw [execute_eq, hsources, htable]
  show Gives (if q.maxRows = some 0 then pure (RowSet.empty q.select) else _) l _
  by_cases hzero : q.maxRows = some 0
  · have hnone : q.chosen t rows = [] := by
      unfold QueryOf.chosen
      rw [hzero]
      rfl
    rw [if_pos hzero, hnone]
    refine gives_pure ⟨Nat.le_refl _, RowSet.answers_empty fun s hs => ?_⟩
    exact (QueryOf.readsWithin_select hover.reads s hs).1
  · rw [if_neg hzero]
    refine gives_bind ((gives_shortcut hstored hbuilt hover hfirst options).mono ?_)
    rintro _ l' (⟨d, rfl, hd⟩ | ⟨rfl, hnext⟩)
    · exact gives_pure hd
    · rw [← hnext] at hover hfirst
      have hlong := gives_longWay hstored hbuilt hsources hover hfirst options
      rwa [hnext] at hlong

/-- **A query over one table answers alike on both ways**, the straight read and the long way: the
values of the items that stand in for its select list.  Its answer is that of the stored rows exactly
if each select item has the value of the item that stands in for it, on every row it answers from. -/
theorem execute_singleTable_iff :
    answeredValues (execute m.source options q) l =
      .ok (selectedValues q.select (q.chosen t rows)) ∧
    (q.orderBy = [] → answeredValues
      (m.source.materializeTable t q.select q.filters q.firstRow q.maxRows) l =
        answeredValues (execute m.source options q) l) ∧
    answeredValues (longWay m.source options q) l = answeredValues (execute m.source options q) l ∧
    (answeredValues (execute m.source options q) l = .ok (q.answerOver t rows) ↔
      ∀ g ∈ q.chosen t rows, ∀ i ∈ q.select, (standIn q.select i).valueIn g = i.valueIn g) := by
  have hexecute := answeredValues_eq (gives_execute hstored hbuilt hsources hover hfirst options)
  have hlong := answeredValues_eq (gives_longWay hstored hbuilt hsources hover hfirst options)
  refine ⟨hexecute, fun hunordered => ?_, hlong.trans hexecute.symm, ?_⟩
  · exact (answeredValues_eq (gives_straightRead hstored hbuilt hover hfirst hunordered)).trans
      hexecute.symm
  · rw [hexecute, Except.ok.injEq]
    unfold selectedValues QueryOf.answerOver
    rw [List.map_inj_left]
    exact forall₂_congr fun g _ => List.map_inj_left

/-- A query whose scalar functions have equal parameters wherever they count as one answers the
values of the stored rows. -/
theorem execute_singleTable_of_parameters
    (hparameters : ∀ i ∈ q.select, ∀ j ∈ q.select, Item.sameAs true i j = true →
      i.parameters = j.parameters) :
    answeredValues (execute m.source options q) l = .ok (q.answerOver t rows) := by
  have hselects := hover.selects (QueryOf.readsWithin_select hover.reads)
  rw [answeredValues_eq (gives_execute hstored hbuilt hsources hover hfirst options)]
  refine congrArg Except.ok (List.map_congr_left fun g _ => List.map_congr_left fun i hi => ?_)
  exact hselects.valueIn_standIn_of_parameters hparameters hi g

end Memory

/-! ## Two zeros as keys -/

/-- A column of documents. -/
def documentColumn : Column := ⟨"doc", "t", some .other, false⟩

/-- A table of documents. -/
def documentTable : Table := ⟨"t", [documentColumn]⟩

/-- A document with a member for each zero, and a row without its cell. -/
def documentRows : List (List Value) :=
  [[.nested (.object [("0", .string "plus"), ("-0", .string "minus")])], []]

/-- The table as the only one in memory. -/
def documentTables : MemoryTables := ⟨[(documentTable, documentRows)]⟩

/-- A member of each document. -/
def memberItem (id : Nat) (key : Value) : Item :=
  { Item.ofFunction id .mapValue documentColumn none with parameters := [key] }

/-- Two members of each document. -/
def membersQuery (first second : Value) : Query where
  select := [memberItem 1 first, memberItem 2 second]
  sources := [.table documentTable none]

/-- Two members of the second of all documents, the last one in order first, under an alias. -/
def secondQuery (first second : Value) : Query where
  select := [memberItem 1 first, memberItem 2 second]
  sources := [.table documentTable (some "d")]
  filters := [.comparison (.ofColumn 3 documentColumn (some "D")) .different (.value .null)]
  orderBy := [⟨.ofColumn 4 documentColumn none, .descending⟩]
  firstRow := 2
  maxRows := some 1

theorem documentTable_wellBuilt : documentTable.WellBuilt where
  names := by decide
  own := by decide

theorem memberItem_reads (id : Nat) (key : Value) : (memberItem id key).Reads documentColumn :=
  ⟨rfl, Or.inr rfl⟩

theorem ofColumn_reads (id : Nat) (scope : Option String) :
    (Item.ofColumn id documentColumn scope).Reads documentColumn :=
  ⟨rfl, Or.inl ⟨rfl, rfl, rfl⟩⟩

theorem memberItems_clones {first second : Value} :
    ∀ i ∈ [memberItem 1 first, memberItem 2 second],
      ∀ j ∈ [memberItem 1 first, memberItem 2 second],
        i.id = j.id → i.withoutAlias = j.withoutAlias := by
  intro i hi j hj hid
  simp only [List.mem_cons, List.not_mem_nil, or_false] at hi hj
  rcases hi with rfl | rfl <;> rcases hj with rfl | rfl <;> first | rfl | cases hid

theorem membersQuery_isOver (first second : Value) :
    (membersQuery first second).IsOver documentTable "t" 3 where
  distinct := rfl
  groupBy := rfl
  having := rfl
  parameters := rfl
  reads := by
    show ReadsWithin _ 3 [memberItem 1 first, memberItem 2 second]
    intro i hi
    simp only [List.mem_cons, List.not_mem_nil, or_false] at hi
    rcases hi with rfl | rfl
    · exact ⟨by simp [memberItem, Item.ofFunction, Item.plain], _, List.mem_cons_self,
        memberItem_reads _ _⟩
    · exact ⟨by simp [memberItem, Item.ofFunction, Item.plain], _, List.mem_cons_self,
        memberItem_reads _ _⟩
  scopes := by
    show ∀ i ∈ [memberItem 1 first, memberItem 2 second], _
    intro i hi scope hscope
    simp only [List.mem_cons, List.not_mem_nil, or_false] at hi
    rcases hi with rfl | rfl <;> cases hscope
  clones := memberItems_clones

theorem secondQuery_isOver (first second : Value) :
    (secondQuery first second).IsOver documentTable "d" 5 where
  distinct := rfl
  groupBy := rfl
  having := rfl
  parameters := rfl
  reads := by
    show ReadsWithin _ 5 [memberItem 1 first, memberItem 2 second,
      .ofColumn 3 documentColumn (some "D"), .ofColumn 4 documentColumn none]
    intro i hi
    simp only [List.mem_cons, List.not_mem_nil, or_false] at hi
    rcases hi with rfl | rfl | rfl | rfl
    · exact ⟨by simp [memberItem, Item.ofFunction, Item.plain], _, List.mem_cons_self,
        memberItem_reads _ _⟩
    · exact ⟨by simp [memberItem, Item.ofFunction, Item.plain], _, List.mem_cons_self,
        memberItem_reads _ _⟩
    · exact ⟨by simp [Item.ofColumn, Item.plain], _, List.mem_cons_self, ofColumn_reads _ _⟩
    · exact ⟨by simp [Item.ofColumn, Item.plain], _, List.mem_cons_self, ofColumn_reads _ _⟩
  scopes := by
    show ∀ i ∈ [memberItem 1 first, memberItem 2 second,
      .ofColumn 3 documentColumn (some "D"), .ofColumn 4 documentColumn none], _
    intro i hi scope hscope
    simp only [List.mem_cons, List.not_mem_nil, or_false] at hi
    rcases hi with rfl | rfl | rfl | rfl
    · cases hscope
    · cases hscope
    · cases hscope
      decide
    · cases hscope
  clones := memberItems_clones

/-- Keys that differ are told apart, also behind a filter, an order and a window. -/
theorem execute_two_keys :
    (secondQuery (.integer 0) (.text "-0")).IsOver documentTable "d" 5 ∧
      answeredValues (execute documentTables.source {} (secondQuery (.integer 0) (.text "-0")))
          { nextItem := 5 } =
        .ok ((secondQuery (.integer 0) (.text "-0")).answerOver documentTable documentRows) := by
  have hover := secondQuery_isOver (.integer 0) (.text "-0")
  refine ⟨hover, ?_⟩
  refine (execute_singleTable_iff rfl documentTable_wellBuilt rfl hover (by decide) {}).2.2.2.mpr ?_
  intro g _ i hi
  have hi' : i ∈ [memberItem 1 (.integer 0), memberItem 2 (.text "-0")] := hi
  simp only [List.mem_cons, List.not_mem_nil, or_false] at hi'
  rcases hi' with rfl | rfl <;> rfl

/-- A number for grouping is equal to its negative if it is zero, but as a key it is another one. -/
theorem execute_two_zeros :
    (membersQuery (.integer 0) (.float (.zero true))).IsOver documentTable "t" 3 ∧
      (answeredValues (execute documentTables.source {}
          (membersQuery (.integer 0) (.float (.zero true)))) { nextItem := 3 }).map
            (·.map (·.map Value.display)) = .ok [["plus", "plus"], ["null", "null"]] ∧
      ((membersQuery (.integer 0) (.float (.zero true))).answerOver documentTable documentRows).map
        (·.map Value.display) = [["plus", "minus"], ["null", "null"]] := by
  refine ⟨membersQuery_isOver _ _, ?_⟩
  rw [QueryOf.answerOver, QueryOf.chosen_of_unordered rfl]
  decide +kernel

end Engine

end DocQuery
