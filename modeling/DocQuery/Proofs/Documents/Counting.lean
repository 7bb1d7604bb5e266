import DocQuery.Proofs.Documents.Store
import DocQuery.Proofs.Engine.Asking
import DocQuery.Proofs.Engine.CountPushdown

/-!
# DocQuery.Proofs.Documents.Counting — stores count as reading does

A store counts the rows of a table with no condition by their number, and those with one equality of
a plain column by testing the cells of that column alone, under an item of its own.  A condition reads
the same there as on the rows that a query reads of the table (`Row.evaluate?_columns_congr`),
so whatever is asked of a store in no order has one answer, whether the store is asked to count or not
(`Store.agreeing_ask_countPushdown`).
-/

namespace DocQuery

open Plan
open RowSet (Presents window)

/-! ## Items without functions -/

/-- A column that is marked as if a function belonged to it is not among plain columns. -/
theorem Header.IsOfColumns.find?_marked {scope : Option String} {first : Nat} {header : List Item}
    {columns : List Column} (h : IsOfColumns scope first header columns) {i : Item} {c : Column}
    (hsource : i.source = .column c) (hfunction : i.function = none) (hmarked : ¬ i.IsPlain)
    (hi : i.id < first) : find? header i = none := by
  have hsame (strict : Bool) : header.findIdx? (Item.sameAs strict · i) = none := by
    rw [List.findIdx?_eq_none_iff]
    intro item hitem
    obtain ⟨d, -, hofColumn, -⟩ := exists_of_mem_forall₂ h hitem
    rw [hofColumn, Item.sameAs_of_columns strict rfl hsource, Bool.eq_false_iff]
    intro hsame
    simp only [Item.sameUse, Bool.and_eq_true] at hsame
    obtain ⟨⟨⟨-, hparameters⟩, happroximate⟩, -⟩ := hsame
    refine hmarked ⟨hfunction, ?_, ?_⟩
    · cases hlist : i.parameters with
      | nil => rfl
      | cons v rest =>
        rw [hlist] at hparameters
        cases hparameters
    · exact (beq_iff_eq.mp happroximate).symm
  unfold find?
  rw [h.findIdx?_id hi, hsame true, hsame false]
  rfl

namespace Row

variable {scope scope' : Option String} {first first' : Nat} {header header' : List Item}
  {columns columns' : List Column} {i : Item} {c : Column}

theorem evaluate?_marked (h : Header.IsOfColumns scope first header columns)
    (hsource : i.source = .column c) (hfunction : i.function = none) (hmarked : ¬ i.IsPlain)
    (hi : i.id < first) (values : List Value) : evaluate? ⟨header, values, none⟩ i = none := by
  have hinner : i.inner? = none := by
    unfold Item.inner?
    rw [hsource]
  have hscalar : i.scalar? = none := by
    unfold Item.scalar?
    rw [hfunction]
    rfl
  unfold evaluate? locate? Header.resolve?
  simp [h.find?_marked hsource hfunction hmarked hi, hinner, hscalar]

/-- **A column without a function reads the same** wherever it is one of the columns of a row. -/
theorem evaluate?_columns_congr (h : Header.IsOfColumns scope first header columns)
    (h' : Header.IsOfColumns scope' first' header' columns') (hsource : i.source = .column c)
    (hfunction : i.function = none) (hc : c ∈ columns) (hc' : c ∈ columns') (hi : i.id < first)
    (hi' : i.id < first') (g : Column → Value) :
    evaluate? ⟨header, columns.map g, none⟩ i = evaluate? ⟨header', columns'.map g, none⟩ i := by
  by_cases hplain : i.IsPlain
  · have hreads : i.Reads c := ⟨hsource, Or.inl hplain⟩
    rw [evaluate?_columnRow h g hreads hc hi, evaluate?_columnRow h' g hreads hc' hi']
  · rw [evaluate?_marked h hsource hfunction hplain hi,
      evaluate?_marked h' hsource hfunction hplain hi']

end Row

/-! ## Counting -/

namespace Store

variable {s : Store} {t : Table} {loaded : LoadedTable}

/-- Counting tests one row after the other, as filtering does. -/
theorem countAccepted_eq {α : Type} {header : Item} {f : Filter} {l : List α} {values : α → List Value}
    {row : α → Row} (h : ∀ a ∈ l, f.accepts ⟨[header], values a, none⟩ = f.accepts (row a)) :
    countAccepted header f (l.map values) = (Stream.collect ((l.map row).flatMap
      (Stream.tested fun row => Filter.allAccept row [f]))).map List.length := by
  have hone (row : Row) : Filter.allAccept row [f] = f.accepts row := by
    unfold Filter.allAccept Filter.allAccept
    rcases f.accepts row with e | _ | _ <;> rfl
  induction l with
  | nil => rfl
  | cons a rest ih =>
    rw [List.forall_mem_cons] at h
    rw [List.map_cons, List.map_cons, List.flatMap_cons, Stream.collect_append]
    unfold countAccepted
    rw [h.1, ih h.2]
    -- What the first row leaves does not depend on what becomes of the others.
    generalize Stream.collect ((rest.map row).flatMap _) = kept
    unfold Stream.tested
    simp only [hone]
    rcases f.accepts (row a) with e | _ | _
    · rfl
    · cases kept <;> rfl
    · cases kept <;> rfl

variable {q : Query} {aliasName : Option String} {i x : Item} {c : Column}

/-- The condition of a count that a store does on its own: one equality of a column with a value. -/
theorem exists_of_equalityHeader? {f : Filter} {header : Item}
    (h : equalityHeader? f = some (c, header)) :
    ∃ x v, f = .comparison x .equal (.value v) ∧ x.source = .column c ∧ x.function = none ∧
      header = Item.ofColumn (x.id + 1) c none := by
  unfold equalityHeader? at h
  split at h
  next x v =>
    split at h
    next hfunction =>
      obtain ⟨d, hcolumn, heq⟩ := Option.map_eq_some_iff.mp h
      cases heq
      exact ⟨x, v, rfl, Item.column?_eq_some_iff.mp hcolumn, by simpa using hfunction, rfl⟩
    next => cases h
  next => cases h

theorem count_equality (h : s.loaded t = .ok loaded) {f : Filter} {header : Item}
    (hheader : equalityHeader? f = some (c, header)) :
    s.count t [f] = (countAccepted header f (loaded.select [c] none)).map some := by
  unfold Store.count
  simp only [hheader, h]
  show (countAccepted header f _ >>= fun n => pure (some n)) = _
  cases countAccepted header f (loaded.select [c] none) <;> rfl

/-- **A store counts as reading does** where nothing is filtered. -/
theorem countsAsRead_all (h : s.loaded t = .ok loaded) (hfilters : q.filters = []) (label : String) :
    Engine.CountsAsRead s.source t label loaded.rows q i := by
  intro past d first _ hd
  show s.count t q.filters = _
  unfold Store.count Engine.acceptedCount RowSet.filtered
  rw [hfilters, h, List.isEmpty_nil, if_pos rfl, hd.rows, Stream.collect_rows]
  simp [Except.map]

/-- **A store counts as reading does** where one equality of a column with a value filters. -/
theorem countsAsRead_equality (h : s.loaded t = .ok loaded) (htable : loaded.table = t)
    (hbuilt : t.WellBuilt) {label : String} {f : Filter} (hfilters : q.filters = [f]) {header : Item}
    (hheader : equalityHeader? f = some (c, header)) (hc : c ∈ t.columns)
    (howned : c ∈ Engine.ownedColumns t label (Engine.neededItems q)) :
    Engine.CountsAsRead s.source t label loaded.rows q i := by
  obtain ⟨x, v, rfl, hsource, hfunction, rfl⟩ := exists_of_equalityHeader? hheader
  intro past d first hdrawn hd
  have hid : x.id < first := hdrawn x (by simp [hfilters, Filter.itemsOf, Filter.items,
    Filter.comparisonItems])
  have hselect : loaded.select [c] none = loaded.rows.map fun stored => [t.cell stored c] := by
    subst htable
    exact MemoryTables.select_eq hbuilt.names (List.forall_mem_singleton.mpr hc) loaded.rows none
  -- The cell of the column stands under an item of its own here, and among others there.
  have haccepts : ∀ stored ∈ loaded.rows,
      (Filter.comparison x .equal (.value v)).accepts
        ⟨[Item.ofColumn (x.id + 1) c none], [t.cell stored c], none⟩ =
      (Filter.comparison x .equal (.value v)).accepts
        ⟨d.header, (Engine.ownedColumns t label (Engine.neededItems q)).map (t.cell stored), none⟩ := by
    intro stored _
    refine Filter.accepts_congr _ fun y hy => ?_
    obtain rfl : y = x := by simpa [Filter.items, Filter.comparisonItems] using hy
    have hown : Header.IsOfColumns none (y.id + 1) [Item.ofColumn (y.id + 1) c none] [c] :=
      .cons ⟨rfl, Nat.le_refl _⟩ .nil
    exact Row.evaluate?_columns_congr hown hd.header hsource hfunction List.mem_cons_self howned
      (Nat.lt_succ_self _) hid (t.cell stored)
  show s.count t q.filters = _
  rw [hfilters, count_equality h hheader, hselect, countAccepted_eq haccepts]
  unfold Engine.acceptedCount RowSet.filtered
  rw [if_neg (by simp)]
  show _ = ((Stream.collect (Stream.filter _ d.stream).outcomes).map List.length).map some
  rw [Stream.outcomes_filter, hd.rows]
  simp only [List.flatMap_map, Stream.spread]

/-! ## Whatever is asked -/

section Read

variable {options : Options} {catalog : Grammar.Catalog} {r : Registry}

/-- What is needed to count rows is what the filters read. -/
theorem ownedColumns_count (h : Engine.Counts q t aliasName i) (hfilters : q.filters = [])
    (label : String) : Engine.ownedColumns t label (Engine.neededItems q) = [] := by
  have hneeded : Engine.neededItems q = [i] := by
    unfold Engine.neededItems
    rw [h.withLaterItems, h.select, hfilters]
    rfl
  unfold Engine.ownedColumns Engine.ownedColumn?
  rw [hneeded]
  simp [Item.column?_of_isCountAll h.counted]

theorem ownedColumns_count_equality (h : Engine.Counts q t aliasName i) {v : Value}
    (hfilters : q.filters = [.comparison x .equal (.value v)]) (hsource : x.source = .column c)
    {label : String} (howned : Engine.ownedColumn? t label x = some c) :
    Engine.ownedColumns t label (Engine.neededItems q) = [c] := by
  have hnew : Item.sameAs true i x = false := by
    have hexpression := (Item.source_of_isCountAll h.counted).1
    obtain ⟨_, source, _, _, _, _, _⟩ := i
    obtain ⟨_, source', _, _, _, _, _⟩ := x
    obtain rfl : source = .expression "*" := hexpression
    obtain rfl : source' = .column c := hsource
    rfl
  have hneeded : Engine.neededItems q = [i, x] := by
    unfold Engine.neededItems
    rw [h.withLaterItems, h.select, hfilters]
    simp [Filter.itemsOf, Filter.items, Filter.comparisonItems, Item.pushNew, hnew]
  have hnone : Engine.ownedColumn? t label i = none := by
    unfold Engine.ownedColumn?
    rw [Item.column?_of_isCountAll h.counted]
    rfl
  unfold Engine.ownedColumns
  rw [hneeded]
  simp [hnone, howned, addColumn]

/-- A column in a clause of a query over one table is read of that table. -/
theorem ownedColumn?_of_isAmong (hbuilt : t.WellBuilt)
    (h : x.IsAmong [.table t aliasName]) (hsource : x.source = .column c) :
    Engine.ownedColumn? t (aliasName.getD t.name) x = some c ∧ c ∈ t.columns := by
  obtain ⟨leaf, hleaf, t', ht', hc, hscope⟩ := h.column c hsource
  obtain rfl : leaf = .table t aliasName := by simpa [FromItem.leaves] using hleaf
  obtain rfl : t = t' := by simpa [FromItem.table?] using ht'
  have hlabel : (FromItem.table t aliasName).label? = some (aliasName.getD t.name) := by
    cases aliasName <;> rfl
  refine ⟨?_, hc⟩
  unfold Engine.ownedColumn? Item.column?
  rw [hsource, Option.filter_some]
  cases hscoped : x.scope with
  | none => simp [hbuilt.own c hc]
  | some scope =>
    rw [hscope scope hscoped, Option.some.injEq] at hlabel
    have hself : Text.sameName scope scope = true := beq_self_eq_true _
    simp [← hlabel, hself]

/-- A query that is read from its text is answered alike in both ways. -/
theorem isLocallyAlike_countPushdown (hs : AreSound s.tables)
    (hfits : ∀ e ∈ s.tables, e.2.rows.length < 2 ^ 63)
    (hread : Grammar.IsRead (s.source.catalog options.expressions) r q) (hordered : q.orderBy = []) :
    Engine.IsLocallyAlike s.source { options with countPushdown := true }
      { options with countPushdown := false } r.Lists q := by
  by_cases hcounts : ∃ t i, Engine.shortcutTable? q = some t ∧
      Engine.countItem? q.select q.filters = some i ∧ s.count t q.filters ≠ .ok none
  · -- The store counts only what it need not read in full: all rows, or those with one equality.
    obtain ⟨t, i, htable, hitem, hasked⟩ := hcounts
    obtain ⟨aliasName, hsources, hgroupBy, hhaving⟩ := Engine.exists_of_shortcutTable? htable
    obtain ⟨hselect, hcounted, hfilters⟩ := Engine.of_countItem? hitem
    have hselected : i ∈ q.itemsOfClauses := by
      simp [QueryOf.itemsOfClauses, hselect]
    obtain ⟨loaded, hloaded, rfl, hbuilt⟩ := exists_loaded_of_isRead hs hread hsources
    have hcountsOne : Engine.Counts q loaded.table aliasName i :=
      ⟨hselect, hcounted, (hread.clauses i hselected).2.counted hcounted, hsources, hgroupBy, hhaving,
        hordered⟩
    have hsmall : loaded.rows.length < 2 ^ 63 := by
      obtain ⟨e, he, rfl⟩ := mem_tables_of_loaded hloaded
      exact hfits e he
    have hheld := holds_of_loaded hloaded rfl
    rcases hfilters with hnone | ⟨f, hone⟩
    · have howned := ownedColumns_count hcountsOne hnone (aliasName.getD loaded.table.name)
      exact Engine.isLocallyAlike_of_counts hread.own hcountsOne hbuilt.wellBuilt hitem
        (howned ▸ List.nil_subset _) hheld hsmall (countsAsRead_all hloaded hnone _)
    · cases hheader : equalityHeader? f with
      | none =>
        refine absurd ?_ hasked
        rw [hone]
        unfold Store.count
        simp only [hheader]
      | some found =>
        -- The column of the condition is all that the long way reads of the table.
        obtain ⟨c, header⟩ := found
        obtain ⟨x, v, rfl, hsource, -, -⟩ := exists_of_equalityHeader? hheader
        have hclause : x ∈ q.itemsOfClauses := by
          simp [QueryOf.itemsOfClauses, hone, Filter.itemsOf, Filter.items, Filter.comparisonItems]
        have hamong := (hread.clauses x hclause).2
        rw [hsources] at hamong
        obtain ⟨hcolumn, hc⟩ := ownedColumn?_of_isAmong hbuilt.wellBuilt hamong hsource
        have howned := ownedColumns_count_equality hcountsOne hone hsource hcolumn
        refine Engine.isLocallyAlike_of_counts hread.own hcountsOne hbuilt.wellBuilt hitem ?_ hheld
          hsmall (countsAsRead_equality hloaded rfl hbuilt.wellBuilt hone hheader hc ?_)
        · rw [howned]
          exact List.cons_subset.mpr ⟨hc, List.nil_subset _⟩
        · rw [howned]
          exact List.mem_cons_self
  · refine Engine.isLocallyAlike_of_uncounted (isSteady s) hread.own fun t past i ht hi => ?_
    by_contra hcount
    exact hcounts ⟨t, i, ht, hi, hcount⟩

end Read

/-- **Whatever is asked in no order** has one answer, or fails in one way, whether the store is asked
to count or not.  Its tables have as many rows as a memory can hold. -/
theorem agreeing_ask_countPushdown (hs : s.Reached)
    (hfits : ∀ e ∈ s.tables, e.2.rows.length < 2 ^ 63) (options : Options) (sql : String)
    (hunordered : ∀ q n, s.source.parse options sql = .ok (q, n) →
      ∀ q' ∈ q.queries, q'.orderBy = []) :
    Agreeing Answer.Same (s.source.ask { options with countPushdown := true } sql)
      (s.source.ask { options with countPushdown := false } sql) :=
  RowSource.agreeing_ask (isSteady s) rfl fun q n _ hparse _ hread q' hq' =>
    isLocallyAlike_countPushdown hs.areSound hfits (hread q' hq') (hunordered q n hparse q' hq')

/-- Counted or read, both documents are answered for. -/
theorem agreeing_ask_letters :
    Agreeing Answer.Same
      (letters.source.ask { countPushdown := true } "SELECT COUNT(*) FROM letters WHERE name = 'a'")
      (letters.source.ask { countPushdown := false } "SELECT COUNT(*) FROM letters WHERE name = 'a'") ∧
    (letters.source.ask {} "SELECT COUNT(*) FROM letters WHERE name = 'a'").toOption.map
      (fun a => a.rows.map Row.text) = some ["Row[2]"] := by
  have hfits : (letters.tables.all fun e => decide (e.2.rows.length < 2 ^ 63)) = true := by
    decide +kernel
  have hunordered : ((letters.source.parse {}
      "SELECT COUNT(*) FROM letters WHERE name = 'a'").toOption.all
      fun parsed => parsed.1.queries.all fun q => q.orderBy.isEmpty) = true := by
    decide +kernel
  refine ⟨agreeing_ask_countPushdown (s := letters) (reached_ofText _ _) ?_ {} _ ?_, by decide +kernel⟩
  · intro e he
    simpa using List.all_eq_true.mp hfits e he
  · intro q n hparse q' hq'
    rw [hparse] at hunordered
    simpa using List.all_eq_true.mp hunordered q' hq'

end Store

end DocQuery
