import DocQuery.Proofs.Engine.Binding
import DocQuery.Proofs.Engine.Product
import DocQuery.Proofs.Engine.Twins
import DocQuery.Proofs.Grammar.FilledQueries

/-!
# DocQuery.Proofs.Engine.Literals — values that are bound and literals that are written

A query text over tables may have placeholders in its comparisons.  Values that are bound to them are
compared as they are, while a literal in the place of a placeholder is brought to the type of the item
that it is compared with.  Both give one answer on every source, as long as no other integer than zero
and one is compared with booleans and, where a literal is read as another value, what it is compared
with is read of its type (`RowSource.agreeing_ask_fill`).
-/

namespace DocQuery

open Plan

/-! ## The query with literals -/

namespace QueryOf

variable {q : Query} {values : List Value}

/-- The comparisons of a query with parameters whose literals are read as other values. -/
def Changes (q : Query) (values : List Value) (u : ParameterUse) : Prop :=
  u ∈ q.uses ∧ ¬ Filter.Keeps values u

/-- A column that a query compares so, or a function of it. -/
def Converts (q : Query) (values : List Value) (c : Column) : Prop :=
  ∃ u, q.Changes values u ∧ u.item.column? = some c

theorem item_of_mem_uses {u : ParameterUse} (h : u ∈ q.uses) : u.item ∈ q.itemsOfClauses := by
  rw [uses, Filter.usesOf_append, List.mem_append] at h
  unfold itemsOfClauses
  rcases h with hfilter | hhaving
  · simp [Filter.mem_itemsOf_of_mem_usesOf _ hfilter]
  · simp [Filter.mem_itemsOf_of_mem_usesOf _ hhaving]

/-- **Bound filters are twins of those with literals** where each value suits what it is compared with.
-/
theorem exists_twins (hcount : q.parameterCount ≤ values.length)
    (hscalar : ∀ u ∈ q.uses, u.op.isList = false)
    (hsuits : ∀ u ∈ q.uses, ∀ v, values[u.index]? = some v → v.suits u.item.expectedType? = true) :
    ∃ filters having, q.withParameters values = .ok (q.withFilters filters having) ∧
      Filter.Twins (Row.Serves (q.Changes values)) filters (Filter.allWithLiterals values q.filters) ∧
      Filter.Twins (Row.Serves (q.Changes values)) having (Filter.allWithLiterals values q.having) := by
  obtain ⟨hcountFilters, hcountHaving⟩ := Grammar.parameterCount_le.mp hcount
  obtain ⟨filters, hfilters, -⟩ := Filter.exists_allWithParameters q.filters hcountFilters
  obtain ⟨having, hhaving, -⟩ := Filter.exists_allWithParameters q.having hcountHaving
  have hleft : Filter.usesOf q.filters ⊆ q.uses := fun u hu => by
    rw [Grammar.uses_eq]
    exact List.mem_append_left _ hu
  have hright : Filter.usesOf q.having ⊆ q.uses := fun u hu => by
    rw [Grammar.uses_eq]
    exact List.mem_append_right _ hu
  have hall (u : ParameterUse) (hu : u ∈ q.uses) : Filter.Keeps values u ∨ q.Changes values u := by
    by_cases hkeeps : Filter.Keeps values u
    · exact Or.inl hkeeps
    · exact Or.inr ⟨hu, hkeeps⟩
  refine ⟨filters, having, ?_, ?_, ?_⟩
  · unfold withParameters
    rw [hfilters, hhaving]
    rfl
  · exact Filter.twins_withLiterals q.filters (fun u hu => hall u (hleft hu))
      (fun u hu => hscalar u (hleft hu)) (fun u hu => hsuits u (hleft hu)) hfilters
  · exact Filter.twins_withLiterals q.having (fun u hu => hall u (hright hu))
      (fun u hu => hscalar u (hright hu)) (fun u hu => hsuits u (hright hu)) hhaving

end QueryOf

namespace Engine

variable {S : Column → Prop} {s : RowSource} {q : Query} {r : Registry}

section WithFilters

variable {filters having : List Filter} (hfilters : Filter.itemsOf filters = Filter.itemsOf q.filters)
  (hhaving : Filter.itemsOf having = Filter.itemsOf q.having)

include hfilters hhaving

theorem itemsOfClauses_withFilters :
    (q.withFilters filters having).itemsOfClauses = q.itemsOfClauses := by
  unfold QueryOf.itemsOfClauses QueryOf.withFilters
  rw [hfilters, hhaving]

theorem ownItems_withFilters : (q.withFilters filters having).ownItems = q.ownItems :=
  congrArg (· ++ q.sources.flatMap FromItem.conditionItems) (itemsOfClauses_withFilters hfilters hhaving)

theorem IsListed.withFilters (h : IsListed r q) : IsListed r (q.withFilters filters having) where
  lists := by
    rw [ownItems_withFilters hfilters hhaving]
    exact h.lists
  inner := by
    rw [itemsOfClauses_withFilters hfilters hhaving]
    exact h.inner

theorem ReadsTyped.withFilters (hempty : having.isEmpty = q.having.isEmpty) (h : ReadsTyped S s q) :
    ReadsTyped S s (q.withFilters filters having) where
  asks := by
    rw [ownItems_withFilters hfilters hhaving]
    exact h.asks
  shortcut := by
    have hshortcut : shortcutTable? (q.withFilters filters having) = shortcutTable? q := by
      unfold shortcutTable? QueryOf.withFilters
      rw [hempty]
    rw [ownItems_withFilters hfilters hhaving, hshortcut]
    exact h.shortcut

end WithFilters

/-- A query over tables refers to no items of subqueries. -/
theorem isListed_of_isRead {catalog : Grammar.Catalog} (h : Grammar.IsRead catalog r q)
    (hover : IsOverTables q) : IsListed r q where
  lists := h.own
  inner := fun i hi => by
    cases hx : i.inner? with
    | none => rfl
    | some x =>
      obtain ⟨q', aliasName, hleaf, -⟩ := (h.clauses i hi).2.inner x (Item.source_of_inner? hx)
      obtain ⟨f, hf, hmem⟩ := List.mem_flatMap.mp hleaf
      obtain ⟨t, a, heq⟩ := hover.tables f hf _ hmem
      cases heq

end Engine

/-! ## Tables held in memory -/

namespace MemoryTables

variable {S : Column → Prop} {m : MemoryTables} {t : Table} {name : String}

/-- Tables held in memory whose cells are of the types of their columns, as far as these are of a kind.
-/
def HoldsTyped (S : Column → Prop) (m : MemoryTables) : Prop :=
  ∀ stored ∈ m.tables, ∀ c, S c → ∀ n, stored.1.columnIndex? c = some n →
    ∀ row ∈ stored.2, ∀ v, row[n]? = some v → v.isOfType c.type = true

/-- The table that a name means is the first one of its own name. -/
theorem exists_rows_of_table? (h : m.table? name = some t) :
    ∃ rows, m.tables.find? (fun stored => stored.1.name == t.name) = some (t, rows) := by
  unfold table? at h
  obtain ⟨⟨first, rows⟩, hfound, heq⟩ := Option.map_eq_some_iff.mp h
  obtain rfl : first = t := heq
  refine ⟨rows, ?_⟩
  rw [Option.orElse_eq_orElse, Option.orElse_eq_or, Option.or_eq_some_iff] at hfound
  have hfirst (test : String → Bool)
      (h : m.tables.find? (fun stored => test stored.1.name) = some (first, rows)) :
      m.tables.find? (fun stored => stored.1.name == first.name) = some (first, rows) := by
    obtain ⟨htest, before, after, heq, hbefore⟩ := List.find?_eq_some_iff_append.mp h
    refine List.find?_eq_some_iff_append.mpr ⟨beq_self_eq_true _, before, after, heq, ?_⟩
    intro stored hstored
    have hother := hbefore stored hstored
    rw [Bool.not_eq_true', beq_eq_false_iff_ne]
    rintro hsame
    rw [hsame] at hother
    simp [htest] at hother
  rcases hfound with hexact | ⟨-, hany⟩
  · exact hfirst (· == name) hexact
  · exact hfirst (Text.sameName · name) hany

/-- **Cells of their types are read as values of their types**, and a cell that is missing as null. -/
theorem HoldsTyped.readsTyped (h : m.HoldsTyped S) (ht : m.table? name = some t)
    (columns : List Column) : m.source.ReadsTyped S t columns := by
  intro past limit outcomes hread values hvalues
  obtain ⟨rows, hfound⟩ := exists_rows_of_table? ht
  have houtcomes : outcomes = (select t columns rows limit).map .ok := by
    change (m.read t columns limit).map _ = _ at hread
    unfold read at hread
    rw [hfound] at hread
    exact (Except.ok.inj hread).symm
  subst houtcomes
  obtain ⟨given, hgiven, heq⟩ := List.mem_map.mp hvalues
  cases heq
  unfold select at hgiven
  obtain ⟨row, hrow, rfl⟩ := List.mem_map.mp hgiven
  have hstored : row ∈ rows := by
    cases limit with
    | none => exact hrow
    | some n => exact List.mem_of_mem_take hrow
  unfold cells
  rw [List.map_map, List.forall₂_map_right_iff, List.forall₂_same]
  intro c _ hc
  cases hplace : t.columnIndex? c with
  | none =>
    simp only [Function.comp, hplace]
    exact Value.isOfType_null _
  | some n =>
    simp only [Function.comp, hplace, Option.bind_some]
    cases hcell : row[n]? with
    | none => exact Value.isOfType_null _
    | some v =>
      exact h (t, rows) (List.mem_of_find?_eq_some hfound) c hc n hplace row hstored v hcell

end MemoryTables

namespace Engine

variable {S : Column → Prop} {m : MemoryTables} {q : Query}

/-- A query is read of its types where the tables that it is over hold them. -/
theorem readsTyped_memory (h : m.HoldsTyped S)
    (hq : ∀ f ∈ q.sources, ∀ leaf ∈ f.leaves, ∀ t, leaf.table? = some t → ∃ name, m.table? name = some t) :
    ReadsTyped S m.source q where
  asks := fun f hf t aliasName hleaf columns _ => by
    obtain ⟨name, hname⟩ := hq f hf _ hleaf t rfl
    exact h.readsTyped hname columns
  shortcut := fun t ht columns _ => by
    obtain ⟨aliasName, hsources, -⟩ := exists_of_shortcutTable? ht
    obtain ⟨name, hname⟩ := hq (.table t aliasName) (by simp [hsources]) _
      (List.mem_singleton_self _) t rfl
    exact h.readsTyped hname columns

/-- Tables held in memory neither count nor look up on their own. -/
theorem shortensAlike_memory (m : MemoryTables) (options : Options) (q q' : Query) :
    ShortensAlike m.source options q q' :=
  ⟨fun _ _ _ _ _ _ => rfl, fun _ _ _ _ _ _ _ _ _ _ => rfl⟩

end Engine

/-! ## Answers -/

namespace RowSource

variable {s : RowSource} {options : Options} {sql : String} {prepared : Engine.Compiled × Nat}
  {values : List Value}

/-- What is made ready is the query that is read. -/
theorem parse_of_prepare (h : s.prepare options sql = .ok prepared) :
    s.parse options sql = .ok (prepared.1.query, prepared.2) ∧
      prepared.1.parameterCount = prepared.1.query.parameterCount := by
  obtain ⟨parsed, hparse, rfl⟩ := exists_of_map_eq_ok h
  exact ⟨hparse, rfl⟩

/-- A query made ready is read of its types where the tables in memory hold them. -/
theorem readsTyped_prepared {S : Column → Prop} {m : MemoryTables}
    (h : m.source.prepare options sql = .ok prepared) (htyped : m.HoldsTyped S) :
    Engine.ReadsTyped S m.source prepared.1.query := by
  obtain ⟨r, -, hread⟩ := exists_registry (parse_of_prepare h).1
  exact Engine.readsTyped_memory htyped (hread _ (Grammar.mem_queriesOf_self _)).tables

/-- **A filled text reads as the query with literals.** -/
theorem parse_fill {q : Query} {n : Nat} (h : s.parse options sql = .ok (q, n))
    (hapart : Grammar.standApart sql = true) (hplaceholders : Grammar.placeholders sql = values.length)
    (hcount : q.parameterCount = values.length) (hplain : ∀ v ∈ values, v.IsPlain)
    (hscalar : ∀ u ∈ q.uses, u.op.isList = false) :
    s.parse options (Grammar.fill sql values) = .ok (q.withLiterals values, n) := by
  obtain ⟨state, hrun, rfl⟩ := parse_eq_ok_iff.mp h
  exact parse_eq_ok_iff.mpr (Grammar.readQuery_fill hrun hapart hplaceholders hcount hplain hscalar)

/-- **A text is answered with values bound to it as the text with their literals in the place of its
placeholders is.**  The placeholders are all parameters of the query, which is one over tables and
joins of them and compares none by membership; they stand apart from what is around them.  Each value
suits what it is compared with, and where its literal is read as another value, what it is compared with
is read of its type.  The source counts and looks up alike for both, as far as it does so on its own. -/
theorem agreeing_ask_fill (hs : s.IsSteady) (hprepared : s.prepare options sql = .ok prepared)
    (hvalues : values.length = prepared.1.parameterCount)
    (hplaceholders : Grammar.placeholders sql = prepared.1.parameterCount)
    (hapart : Grammar.standApart sql = true) (hplain : ∀ v ∈ values, v.IsPlain)
    (hover : Engine.IsOverTables prepared.1.query)
    (hscalar : ∀ u ∈ prepared.1.query.uses, u.op.isList = false)
    (hsuits : ∀ u ∈ prepared.1.query.uses, ∀ v, values[u.index]? = some v →
      v.suits u.item.expectedType? = true)
    (hreads : Engine.ReadsTyped (prepared.1.query.Converts values) s prepared.1.query)
    (hshort : ∀ bound, prepared.1.query.withParameters values = .ok bound →
      Engine.ShortensAlike s options bound (prepared.1.query.withLiterals values)) :
    Agreeing Answer.Same (s.askPrepared options prepared values)
      (s.ask options (Grammar.fill sql values)) := by
  obtain ⟨hparse, hcount⟩ := parse_of_prepare hprepared
  obtain ⟨⟨q, count⟩, n⟩ := prepared
  dsimp only at hparse hcount hvalues hplaceholders hover hscalar hsuits hreads hshort
  obtain rfl : count = q.parameterCount := hcount
  have hfilled := parse_fill hparse hapart (hplaceholders.trans hvalues.symm) hvalues.symm hplain hscalar
  obtain ⟨filters, having, hbound, hfilters, hhaving⟩ :=
    QueryOf.exists_twins (Nat.le_of_eq hvalues.symm) hscalar hsuits
  obtain ⟨r, rfl, hread⟩ := exists_registry hparse
  have hlistedSelf := Engine.isListed_of_isRead (hread q (Grammar.mem_queriesOf_self q)) hover
  -- Both queries that run are the query with its filters replaced by twins of one another.
  let bound := q.withFilters filters having
  have hitems : Filter.itemsOf filters = Filter.itemsOf q.filters :=
    hfilters.itemsOf.trans (Filter.itemsOf_allWithLiterals q.filters)
  have hitemsHaving : Filter.itemsOf having = Filter.itemsOf q.having :=
    hhaving.itemsOf.trans (Filter.itemsOf_allWithLiterals q.having)
  have hlisted : Engine.IsListed r bound := hlistedSelf.withFilters hitems hitemsHaving
  have hreadsBound : Engine.ReadsTyped (q.Converts values) s bound := hreads.withFilters hitems
    hitemsHaving (hhaving.isEmpty.trans (Filter.isEmpty_allWithLiterals q.having))
  have hserves : ∀ r' : Registry, r'.Extends r → ∀ header row,
      Row.IsTyped (q.Converts values) r' header row → row.Serves (q.Changes values) :=
    fun r' hr header row hrow =>
      hrow.serves (fun u hu => ((hlistedSelf.flat (QueryOf.item_of_mem_uses hu.1)).mono hr).asks)
        fun u hu c hc => ⟨u, hu, hc⟩
  have hruns := Engine.alike_execute_twins (q := bound) hhaving hfilters hserves hs hlisted
    ⟨hover.sources, hover.tables⟩ hreadsBound (.refl _) (hshort bound hbound)
  have hanswers := (hruns.mono fun σ hσ hone d d' hd =>
    hd.interchangeable (P := r.Lists) hσ hone).agreeing_ofPlan (Ledger.paired_before r.positive)
  rw [ask_eq rfl hfilled]
  unfold askPrepared
  rw [executeCompiled_eq hvalues hbound]
  exact hanswers

/-- Numbers from one on with the key five, where both are parameters. -/
def chosenPairs : String := "SELECT id, k FROM t, u WHERE id >= ? AND k = ?"

/-- A text that is compared with numbers is brought to a number, bound or written. -/
theorem agreeing_ask_fill_chosenPairs : ∃ prepared,
    numbersAndKeys.source.prepare {} chosenPairs = .ok prepared ∧
    Agreeing Answer.Same
      (numbersAndKeys.source.askPrepared {} prepared [.text "2", .integer 5])
      (numbersAndKeys.source.ask {} (Grammar.fill chosenPairs [.text "2", .integer 5])) ∧
    Engine.shownRows (numbersAndKeys.source.askPrepared {} prepared [.text "2", .integer 5]) =
      some ["Row[2,5]"] := by
  have hshown : (numbersAndKeys.source.prepare {} chosenPairs).toOption.map (fun prepared =>
      (prepared.1.parameterCount, decide (Engine.IsOverTables prepared.1.query),
        prepared.1.query.uses.all (fun u => !u.op.isList && u.item.expectedType? == some .number &&
          u.item.column?.all fun c => c.type == some .number),
        Engine.shownRows (numbersAndKeys.source.askPrepared {} prepared [.text "2", .integer 5]))) =
      some (2, true, true, some ["Row[2,5]"]) := by
    decide +kernel
  obtain ⟨prepared, hprepared, hshown⟩ := Option.map_eq_some_iff.mp hshown
  obtain ⟨hcount, hshown⟩ := Prod.mk.inj hshown
  obtain ⟨hover, hshown⟩ := Prod.mk.inj hshown
  obtain ⟨huses, hrows⟩ := Prod.mk.inj hshown
  have hprepared := eq_ok_of_mem_toOption hprepared
  have hnumbers : ∀ u ∈ prepared.1.query.uses, u.op.isList = false ∧
      u.item.expectedType? = some .number ∧ ∀ c, u.item.column? = some c → c.type = some .number := by
    intro u hu
    have hchecked := List.all_eq_true.mp huses u hu
    simp only [Bool.and_eq_true, Bool.not_eq_true', beq_iff_eq] at hchecked
    refine ⟨hchecked.1.1, hchecked.1.2, fun c hc => ?_⟩
    simpa [hc] using hchecked.2
  have hcells : ∀ stored ∈ numbersAndKeys.tables, ∀ row ∈ stored.2, ∀ v ∈ row,
      v.isOfType (some .number) = true := by
    decide
  have htyped : numbersAndKeys.HoldsTyped
      (prepared.1.query.Converts [.text "2", .integer 5]) := by
    rintro stored hstored c ⟨u, hu, hc⟩ n - row hrow v hv
    rw [(hnumbers u hu.1).2.2 c hc]
    exact hcells stored hstored row hrow v (List.mem_of_getElem? hv)
  have hplaceholders : Grammar.placeholders chosenPairs = prepared.1.parameterCount := by
    rw [hcount]
    decide +kernel
  have hplain : ∀ v ∈ [Value.text "2", .integer 5], v.IsPlain := by
    refine List.forall_mem_cons.mpr ⟨?_, List.forall_mem_singleton.mpr trivial⟩
    simp [Value.IsPlain]
  have hsuits : ∀ u ∈ prepared.1.query.uses, ∀ v, [Value.text "2", .integer 5][u.index]? = some v →
      v.suits u.item.expectedType? = true := by
    intro u hu v _
    rw [(hnumbers u hu).2.1]
    rfl
  refine ⟨prepared, hprepared, ?_, hrows⟩
  exact agreeing_ask_fill (isSteady_memory _) hprepared hcount.symm hplaceholders (by decide +kernel)
    hplain (of_decide_eq_true hover) (fun u hu => (hnumbers u hu).1) hsuits
    (readsTyped_prepared hprepared htyped) fun bound _ => Engine.shortensAlike_memory _ _ _ _

/-- A table of two booleans. -/
def flags : MemoryTables :=
  ⟨[(⟨"t", [⟨"flag", "t", some .boolean, false⟩]⟩, [[.boolean true], [.boolean false]])]⟩

/-- The booleans that equal a parameter. -/
def chosenFlags : String := "SELECT flag FROM t WHERE flag = ?"

/-- The literal five is brought to a boolean and equals the true one, while the number five that is
bound equals neither of them. -/
theorem not_agreeing_ask_fill_chosenFlags : ∃ prepared,
    flags.source.prepare {} chosenFlags = .ok prepared ∧
    [Value.integer 5].length = prepared.1.parameterCount ∧
    Grammar.placeholders chosenFlags = prepared.1.parameterCount ∧
    Grammar.fill chosenFlags [.integer 5] = "SELECT flag FROM t WHERE flag = 5" ∧
    Engine.shownRows (flags.source.askPrepared {} prepared [.integer 5]) = some [] ∧
    Engine.shownRows (flags.source.ask {} (Grammar.fill chosenFlags [.integer 5])) =
      some ["Row[true]"] := by
  have hshown : (flags.source.prepare {} chosenFlags).toOption.map (fun prepared =>
      (prepared.1.parameterCount,
        Engine.shownRows (flags.source.askPrepared {} prepared [.integer 5]))) = some (1, some []) := by
    decide +kernel
  obtain ⟨prepared, hprepared, hshown⟩ := Option.map_eq_some_iff.mp hshown
  obtain ⟨hcount, hrows⟩ := Prod.mk.inj hshown
  refine ⟨prepared, eq_ok_of_mem_toOption hprepared, hcount.symm, ?_, ?_, hrows, ?_⟩
  · rw [hcount]
    decide +kernel
  · decide +kernel
  · decide +kernel

end RowSource

end DocQuery
