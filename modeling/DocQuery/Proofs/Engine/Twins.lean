import DocQuery.Proofs.Engine.Typing
import DocQuery.Proofs.Rows.Twins

/-!
# DocQuery.Proofs.Engine.Twins — queries whose filters say the same of typed rows

Two queries over tables that differ in their filters alone, and in these by twins, are answered alike
where the columns that the twins compare hold values of their types
(`Engine.alike_execute_twin`).  They take the same short ways, which the source does not tell apart.
-/

namespace DocQuery

open Plan

namespace RowSet

variable {ρ : Pairing} {d e d' : RowSet}

theorem Twin.alike (h : d.Twin e) (h' : e.Alike ρ d') : d.Alike ρ d' where
  header := by
    rw [h.header]
    exact h'.header
  outcomes := by
    rw [h.outcomes]
    exact h'.outcomes

end RowSet

theorem Plan.InStep.alike {ρ : Pairing} {p p' p'' : Plan RowSet} (h : InStep RowSet.Twin p p')
    (h' : Plan.Alike ρ RowSet.Alike p' p'') : Plan.Alike ρ RowSet.Alike p p'' := by
  intro l l' hl
  obtain ⟨σ, hσ, hend, hle, hresult⟩ := h' l l' hl
  obtain ⟨hledger, htwin⟩ := h l
  rw [← hledger] at hend hle
  refine ⟨σ, hσ, hend, hle, ?_⟩
  rcases hrun : p.run l with ⟨result, k⟩
  rcases hrun' : p'.run l with ⟨result', k'⟩
  rcases hrun'' : p''.run l' with ⟨result'', k''⟩
  rw [hrun, hrun'] at htwin
  rw [hrun', hrun''] at hresult
  cases htwin with
  | error e =>
    cases hresult
    exact .error e
  | ok hde =>
    cases hresult with
    | ok hed => exact .ok (hde.alike hed)

namespace FromItem

/-- There is no query within from items that are tables or joins of them. -/
theorem queries_of_tables : (f : FromItem) → (∀ leaf ∈ f.leaves, leaf.IsTable) → f.queries = []
  | .table _ _, _ => rfl
  | .subquery _ _, h => by
    obtain ⟨t, a, heq⟩ := h _ (List.mem_singleton_self _)
    cases heq
  | .expression _ _, _ => rfl
  | .join _ l r _ _, h => by
    have hleft := queries_of_tables l fun leaf hleaf => h leaf (List.mem_append_left _ hleaf)
    have hright := queries_of_tables r fun leaf hleaf => h leaf (List.mem_append_right _ hleaf)
    rw [queries, hleft, hright]
    rfl

theorem queriesIn_of_tables {sources : List FromItem}
    (h : ∀ f ∈ sources, ∀ leaf ∈ f.leaves, leaf.IsTable) : queriesIn sources = [] := by
  induction sources with
  | nil => rfl
  | cons f rest ih =>
    rw [List.forall_mem_cons] at h
    rw [queriesIn, queries_of_tables f h.1, ih h.2]
    rfl

end FromItem

namespace Engine

variable {s : RowSource} {options : Options} {K : Row → Prop} {q : Query} {t : Table}
  {filters having filters' : List Filter}

/-! ## Short ways -/

theorem countItem?_single (i : Item) (f : Filter) : countItem? [i] [f] =
    if (f.shape?.any fun shape => shape.2.1 == .equal) && i.isCountAll then some i else none := by
  rcases f with ⟨item, op, operand⟩ | ⟨op, children⟩
  · cases op <;> cases operand <;> rfl
  · rfl

theorem countItem?_several (items : List Item) (f g : Filter) (rest : List Filter) :
    countItem? items (f :: g :: rest) = none := by
  unfold countItem?
  split
  next heq => cases heq
  next heq => cases heq
  next => rfl

/-- **The source is asked to count for both of two twins, or for neither.** -/
theorem countItem?_twins (items : List Item) (h : Filter.Twins K filters filters') :
    countItem? items filters = countItem? items filters' := by
  cases h with
  | nil => rfl
  | cons hf hrest =>
    cases hrest with
    | nil =>
      rcases items with _ | ⟨i, _ | ⟨j, more⟩⟩
      · rfl
      · rw [countItem?_single, countItem?_single, hf.shape]
      · rfl
    | cons _ _ => rw [countItem?_several, countItem?_several]

theorem keyCondition?_value (t : Table) (i : Item) (key : Value) :
    keyCondition? t [.comparison i .equal (.value key)] =
      if key.isNull || i.function.isSome then none
      else ((i.column?.bind fun c => t.columnNamed? c.name).filter (·.primaryKey)).map (·, key) := by
  unfold keyCondition?
  dsimp only
  split
  · rfl
  · cases i.column?.bind fun c => t.columnNamed? c.name with
    | none => rfl
    | some c =>
      rw [Option.filter_some]
      dsimp only
      split <;> rfl

/-- Only an equality with a value asks for a key. -/
theorem exists_of_keyCondition? {found : Column × Value} (h : keyCondition? t filters = some found) :
    ∃ i key, filters = [.comparison i .equal (.value key)] := by
  unfold keyCondition? at h
  split at h
  next i key => exact ⟨i, key, rfl⟩
  next => cases h

/-- A twin of an equality with a value asks for a key in the column that this one asks in. -/
theorem map_keyCondition?_of_value (t : Table) {i : Item} {key : Value}
    (h : Filter.Twins K [.comparison i .equal (.value key)] filters) :
    (keyCondition? t filters).map (·.1) =
      (keyCondition? t [.comparison i .equal (.value key)]).map (·.1) := by
  obtain ⟨g, _, htwin, hnil, rfl⟩ := List.forall₂_cons_left_iff.mp h
  cases hnil
  have hshape := htwin.shape
  rcases g with ⟨item, op, operand⟩ | ⟨op, children⟩
  · cases operand with
    | value key' =>
      simp only [Filter.shape?, Option.some.injEq, Prod.mk.injEq] at hshape
      obtain ⟨rfl, rfl, hnull⟩ := hshape
      rw [keyCondition?_value, keyCondition?_value, hnull]
      split
      · rfl
      · rw [Option.map_map, Option.map_map]
        rfl
    | list vs => simp [Filter.shape?] at hshape
    | item other => simp [Filter.shape?] at hshape
    | parameter index => simp [Filter.shape?] at hshape
  · cases hshape

/-- **Twins ask for a key in one column, or neither does.** -/
theorem keyCondition?_twins (t : Table) (h : Filter.Twins K filters filters') :
    (keyCondition? t filters).map (·.1) = (keyCondition? t filters').map (·.1) := by
  cases hkey : keyCondition? t filters with
  | some found =>
    obtain ⟨i, key, rfl⟩ := exists_of_keyCondition? hkey
    rw [map_keyCondition?_of_value t h, hkey]
  | none =>
    cases hkey' : keyCondition? t filters' with
    | none => rfl
    | some found =>
      obtain ⟨i, key, rfl⟩ := exists_of_keyCondition? hkey'
      rw [← hkey, ← hkey', map_keyCondition?_of_value t h.symm]

/-- A source that counts and looks up for two queries alike, as far as it is asked to. -/
structure ShortensAlike (s : RowSource) (options : Options) (q q' : Query) : Prop where
  count : options.countPushdown = true → ∀ past past' t approximate, shortcutTable? q = some t →
    s.count past t q.filters approximate = s.count past' t q'.filters approximate
  lookup : options.keyLookup = true → ∀ past past' t c key key', shortcutTable? q = some t →
    keyCondition? t q.filters = some (c, key) → keyCondition? t q'.filters = some (c, key') →
      s.lookup past t q.select c key = s.lookup past' t q.select c key'

/-- A query over tables and joins of tables. -/
structure IsOverTables (q : Query) : Prop where
  sources : q.sources ≠ []
  tables : ∀ f ∈ q.sources, ∀ leaf ∈ f.leaves, leaf.IsTable

theorem isOverTables_iff : IsOverTables q ↔ q.sources.isEmpty = false ∧
    ∀ f ∈ q.sources, ∀ leaf ∈ f.leaves, leaf.table?.isSome = true := by
  rw [List.isEmpty_eq_false_iff]
  refine ⟨fun h => ⟨h.sources, fun f hf leaf hleaf => ?_⟩, fun h => ⟨h.1, fun f hf leaf hleaf => ?_⟩⟩
  · obtain ⟨t, aliasName, rfl⟩ := h.tables f hf leaf hleaf
    rfl
  · have htable := h.2 f hf leaf hleaf
    cases leaf with
    | table t aliasName => exact ⟨t, aliasName, rfl⟩
    | subquery q aliasName => cases htable
    | expression text aliasName => cases htable
    | join kind l r conditions aliasName => cases htable

instance (q : Query) : Decidable (IsOverTables q) := decidable_of_iff' _ isOverTables_iff

/-- What a query reads of tables is of the types of the columns as far as these are of a kind. -/
structure ReadsTyped (S : Column → Prop) (s : RowSource) (q : Query) : Prop where
  asks : ∀ f ∈ q.sources, AsksTyped S s (· ∈ q.ownItems) f
  shortcut : ∀ t, shortcutTable? q = some t → ∀ columns : List Column,
    (∀ c ∈ columns, ∃ i ∈ q.ownItems, i.column? = some c) → s.ReadsTyped S t columns

/-- Items of a query that a registry lists, none of which refers to a subquery. -/
structure IsListed (r : Registry) (q : Query) : Prop where
  lists : ∀ i ∈ q.ownItems, r.Lists i
  inner : ∀ i ∈ q.itemsOfClauses, i.inner? = none

/-! ## Both runs -/

section Twins

variable {S : Column → Prop} {r : Registry} {ρ : Pairing}

theorem IsListed.flat (hlisted : IsListed r q) {i : Item} (hi : i ∈ q.itemsOfClauses) : r.Flat i :=
  ⟨(hlisted.lists i (List.mem_append_left _ hi)).enters, hlisted.inner i hi⟩

theorem IsListed.flat_withLaterItems (hlisted : IsListed r q) :
    ∀ i ∈ withLaterItems q q.select, r.Flat i := by
  -- The items of the clauses are all that a query without from items has.
  have hown : ∀ i ∈ QueryOf.ownItems { q with sources := [] }, r.Flat i := by
    intro i hi
    rw [QueryOf.ownItems, List.flatMap_nil, List.append_nil] at hi
    exact hlisted.flat hi
  have hlater := QueryOf.own_withLaterItems hown (QueryOf.own_select hown)
  exact hlater

theorem isTyped_of_combined {sets : List RowSet} {d : RowSet} {l l' : Ledger}
    (h : ∀ d ∈ sets, d.IsTyped S r) (hrun : (combined q sets).run l = (.ok d, l')) :
    d.IsTyped S r := by
  rcases sets with _ | ⟨first, _ | ⟨second, rest⟩⟩
  · cases hrun
  · cases hrun
    exact (h first (List.mem_singleton_self _)).filtered q.filters
  · exact RowSet.isTyped_of_cartesianProduct h hrun

theorem isTyped_of_reduced {d d' : RowSet} {l l' : Ledger} (hlisted : IsListed r q)
    (h : d.IsTyped S r) (hrun : (reduced q d).run l = (.ok d', l')) : d'.IsTyped S r := by
  unfold reduced at hrun
  split at hrun
  · exact RowSet.isTyped_of_aggregated h hlisted.flat_withLaterItems hrun
  · refine RowSet.isTyped_of_grouped h hlisted.flat_withLaterItems (fun i hi => hlisted.flat ?_) hrun
    simp [QueryOf.itemsOfClauses, hi]

theorem IsListed.mono {r' : Registry} (hlisted : IsListed r q) (hr : r'.Extends r) : IsListed r' q :=
  ⟨fun i hi => (hlisted.lists i hi).mono hr, hlisted.inner⟩

variable (hhaving : Filter.Twins K q.having having)

include hhaving

theorem withLaterItems_twins (filters : List Filter) (items : List Item) :
    withLaterItems (q.withFilters filters having) items = withLaterItems q items := by
  unfold withLaterItems QueryOf.withFilters
  rw [hhaving.itemsOf]

theorem shortcutTable?_twins (filters : List Filter) :
    shortcutTable? (q.withFilters filters having) = shortcutTable? q := by
  unfold shortcutTable? QueryOf.withFilters
  rw [hhaving.isEmpty]

theorem reduced_twins (filters : List Filter) (d : RowSet) :
    reduced (q.withFilters filters having) d = reduced q d := by
  unfold reduced
  rw [withLaterItems_twins hhaving]
  rfl

variable (hfilters : Filter.Twins K q.filters filters)

include hfilters

theorem ownItems_twins : (q.withFilters filters having).ownItems = q.ownItems := by
  unfold QueryOf.ownItems QueryOf.itemsOfClauses QueryOf.withFilters
  rw [hfilters.itemsOf, hhaving.itemsOf]

theorem neededItems_twins : neededItems (q.withFilters filters having) = neededItems q := by
  unfold neededItems
  rw [withLaterItems_twins hhaving, hfilters.itemsOf]
  rfl

variable (hK : ∀ r' : Registry, r'.Extends r → ∀ header row, Row.IsTyped S r' header row → K row)

include hK

omit hhaving hfilters in
/-- Data sets that are alike are filtered alike by twins, if one of them is typed. -/
theorem alike_filtered_twins {d d' : RowSet} (hone : ρ.IsOneToOne) (h : d.Alike ρ d')
    {r' : Registry} (hr : r'.Extends r) (htyped : d.IsTyped S r')
    (htwins : Filter.Twins K filters filters')
    (hknown : ∀ i ∈ Filter.itemsOf filters, Item.Alike ρ i i) :
    (d.filtered filters).Alike ρ (d'.filtered filters') := by
  have hserves : d.stream.Every K := htyped.rows.mono fun row hrow => hK r' hr _ row hrow
  rw [htwins.itemsOf] at hknown
  exact ((RowSet.twin_self d).filtered hserves htwins).alike (h.filtered hone hknown)

omit hhaving in
theorem inStep_combined {sets : List RowSet} {r' : Registry} (hr : r'.Extends r)
    (hsets : ∀ d ∈ sets, d.IsTyped S r') :
    InStep RowSet.Twin (combined q sets) (combined (q.withFilters filters having) sets) := by
  rcases sets with _ | ⟨first, _ | ⟨second, rest⟩⟩
  · exact RowSet.inStep_cartesianProduct (hK r' hr) hfilters hsets
  · have hserves : first.stream.Every K :=
      (hsets first (List.mem_singleton_self _)).rows.mono fun row hrow => hK r' hr _ row hrow
    exact inStep_pure ((RowSet.twin_self first).filtered hserves hfilters)
  · exact RowSet.inStep_cartesianProduct (hK r' hr) hfilters hsets

variable (hs : s.IsSteady) (hlisted : IsListed r q) (hover : IsOverTables q)
  (hreads : ReadsTyped S s q) (hρ : ρ.Extends (.before r.next))

include hs hlisted hover hreads hρ

/-- **The long way is alike for queries with twins as filters.** -/
theorem alike_longWay_twins : Plan.Alike ρ RowSet.Alike (longWay s options q)
    (longWay s options (q.withFilters filters having)) := by
  have hfixes {σ : Pairing} (hσ : σ.Extends ρ) : σ.Fixes r.Lists := r.fixes.mono (hσ.trans hρ)
  have hself : ∀ i ∈ q.ownItems, i ∈ q.ownItems := fun _ hi => hi
  unfold longWay
  rw [neededItems_twins hhaving hfilters]
  have hmaterialized : Plan.Alike ρ (fun σ => List.Forall₂ (RowSet.Alike σ))
      (materializeAll s options (neededItems q) [] q.sources)
      (materializeAll s options (neededItems q) [] q.sources) :=
    alike_materializeAll hs r.isPool q.sources ρ (hfixes (.refl ρ)) (neededItems q)
      (QueryOf.own_neededItems hlisted.lists) (fun f hf => QueryOf.own_conditions hlisted.lists hf)
      (by rw [FromItem.queriesIn_of_tables hover.tables]; exact List.forall_mem_nil _) [] [] .nil
  have hread := hmaterialized.and_grows hρ (grows_materializeAll hover.tables hreads.asks
    (QueryOf.own_neededItems hself) (fun f hf => QueryOf.own_conditions hself hf) hlisted.lists
    (List.forall_mem_nil _))
  refine hread.bind fun σ hσ _ sets sets' ⟨hsets, r', hr, htyped⟩ => ?_
  have hown : ∀ i ∈ (q.withFilters filters having).ownItems, r.Lists i := by
    rw [ownItems_twins hhaving hfilters]
    exact hlisted.lists
  rw [finish_eq, finish_eq]
  -- The product is filtered by twins, and nothing tells the groups of its rows apart.
  refine (((inStep_combined hfilters hK hr htyped).alike (alike_combined hown (hfixes hσ) hsets)).and_of_run
    fun _ _ _ _ _ hrun => isTyped_of_combined htyped hrun).bind ?_
  rintro τ hτ - d d' ⟨hd, hdTyped⟩
  rw [reduced_twins hhaving]
  refine ((alike_reduced hlisted.lists (hfixes (hτ.trans hσ)) hd).and_of_run
    fun _ _ _ _ _ hrun => isTyped_of_reduced (hlisted.mono hr) hdTyped hrun).bind ?_
  rintro υ hυ hone d d' ⟨hd, hdTyped⟩
  have hunified : υ.Extends ρ := (hυ.trans hτ).trans hσ
  have hknown : ∀ i ∈ Filter.itemsOf q.having, Item.Alike υ i i :=
    fun i hi => hfixes hunified i (QueryOf.own_having hlisted.lists i hi)
  have hfiltered := alike_filtered_twins hK hone hd hr hdTyped hhaving hknown
  have harranged : arranged (q.withFilters filters having) = arranged q := rfl
  rw [harranged]
  exact (alike_arranged hlisted.lists (hfixes hunified) hfiltered).bind fun _ _ _ d d' hd =>
    alike_pure (hd.paged q.firstRow q.maxRows)

omit hhaving hover in
/-- A table is read straight away alike for both. -/
theorem alike_straightRead_twins (ht : shortcutTable? q = some t) : Plan.Alike ρ RowSet.Alike
    (s.materializeTable t q.select q.filters q.firstRow q.maxRows)
    (s.materializeTable t q.select filters q.firstRow q.maxRows) := by
  have hcolumns : ∀ c ∈ RowSource.columnsOf (q.select ++ Filter.itemsOf q.filters),
      ∃ i ∈ q.ownItems, i.column? = some c := by
    intro c hc
    obtain ⟨i, hi, hcolumn⟩ := RowSource.mem_columnsOf.mp hc
    refine ⟨i, ?_, hcolumn⟩
    rcases List.mem_append.mp hi with hselect | hfilter
    · exact QueryOf.own_select (fun _ h => h) i hselect
    · exact QueryOf.own_filters (fun _ h => h) i hfilter
  unfold RowSource.materializeTable
  simp only [← hfilters.itemsOf, ← hfilters.isEmpty]
  refine ((RowSource.alike_materializeColumns hs t _ _).and_grows hρ
    (RowSource.grows_materializeColumns (hreads.shortcut t ht _ hcolumns) _ r)).bind ?_
  rintro σ hσ hone d d' ⟨hd, r', hr, hdTyped⟩
  have hfixes : σ.Fixes r.Lists := r.fixes.mono (hσ.trans hρ)
  have hknown : ∀ i ∈ Filter.itemsOf q.filters, Item.Alike σ i i :=
    fun i hi => hfixes i (QueryOf.own_filters hlisted.lists i hi)
  have hfiltered := alike_filtered_twins hK hone hd hr hdTyped hfilters hknown
  exact RowSet.alike_selection hone (alike_select hlisted.lists hfixes)
    (hfiltered.paged q.firstRow q.maxRows)

variable (hshort : ShortensAlike s options q (q.withFilters filters having))

include hshort

omit hhaving hK hs hover hreads in
/-- The source counts alike for both. -/
theorem alike_countShortcut_twins (ht : shortcutTable? q = some t) :
    Plan.Alike ρ (fun σ => Option.Rel (RowSet.Alike σ)) (countShortcut s options q t)
      (countShortcut s options (q.withFilters filters having) t) := by
  have hitem : countItem? (q.withFilters filters having).select
      (q.withFilters filters having).filters = countItem? q.select q.filters :=
    (countItem?_twins q.select hfilters).symm
  unfold countShortcut
  rw [hitem]
  cases hpushed : options.countPushdown with
  | false => exact alike_pure .none
  | true =>
    rw [if_pos rfl]
    cases countItem? q.select q.filters with
    | none => exact alike_pure .none
    | some item =>
      have hasked : Plan.Alike ρ (fun _ => Eq) (s.askCount t q.filters item.approximate)
          (s.askCount t (q.withFilters filters having).filters item.approximate) := by
        unfold RowSource.askCount
        refine (alike_note _ _).bind fun σ _ _ past past' _ => ?_
        rw [hshort.count hpushed past past' t item.approximate ht]
        exact alike_lift (.of_eq rfl)
      refine hasked.bind fun σ hσ _ count _ heq => ?_
      subst heq
      cases count with
      | none => exact alike_pure .none
      | some n =>
        have hselect := alike_select hlisted.lists (r.fixes.mono (hσ.trans hρ))
        exact alike_pure (.some ((RowSet.alike_ofRows hselect
          (.cons ⟨hselect, rfl, rfl⟩ .nil)).paged q.firstRow q.maxRows))

omit hhaving hK hs hover hreads in
/-- The source looks for the key of both, and finds one row for them. -/
theorem alike_keyShortcut_twins (ht : shortcutTable? q = some t) :
    Plan.Alike ρ (fun σ => Option.Rel (RowSet.Alike σ)) (keyShortcut s options q t)
      (keyShortcut s options (q.withFilters filters having) t) := by
  have hcolumns := keyCondition?_twins t hfilters
  have hselect : (q.withFilters filters having).select = q.select := rfl
  have hconditions : (q.withFilters filters having).filters = filters := rfl
  unfold keyShortcut
  rw [hselect, hconditions]
  by_cases hlooks : (options.keyLookup && isSimple q.select) = true
  · rw [if_pos hlooks, if_pos hlooks]
    cases hkey : keyCondition? t q.filters with
    | none =>
      rw [hkey] at hcolumns
      rw [Option.map_eq_none_iff.mp hcolumns.symm]
      exact alike_pure .none
    | some found =>
      rw [hkey] at hcolumns
      obtain ⟨found', hkey', hcolumn⟩ := Option.map_eq_some_iff.mp hcolumns.symm
      obtain ⟨c, key⟩ := found
      obtain ⟨c', key'⟩ := found'
      obtain rfl : c' = c := hcolumn
      rw [hkey']
      have hasked : Plan.Alike ρ (fun σ => Option.Rel (RowSet.Alike σ))
          (s.askLookup t q.select c' key) (s.askLookup t q.select c' key') := by
        unfold RowSource.askLookup
        refine (alike_note _ _).bind fun σ _ _ past past' _ => ?_
        rw [hshort.lookup (Bool.and_eq_true_iff.mp hlooks).1 past past' t c' key key' ht hkey hkey']
        refine (alike_lift (R := fun _ => Eq) (.of_eq rfl)).bind fun τ _ _ found _ heq => ?_
        subst heq
        cases found with
        | none => exact alike_pure .none
        | some found =>
          refine (alike_makeItems found.1 none).bind fun υ _ _ header header' hheader => ?_
          exact alike_pure (.some (RowSet.alike_ofRows hheader (.cons ⟨hheader, rfl, rfl⟩ .nil)))
      refine hasked.bind fun σ hσ hone found found' hfound => ?_
      cases hfound with
      | none => exact alike_pure .none
      | some hd =>
        have hitems := alike_select hlisted.lists (r.fixes.mono (hσ.trans hρ))
        refine (RowSet.alike_selection hone hitems hd).bind fun τ _ _ d d' hd => ?_
        exact alike_pure (.some (hd.paged q.firstRow q.maxRows))
  · rw [if_neg hlooks, if_neg hlooks]
    exact alike_pure .none

omit hhaving hover in
theorem alike_shortcut_twins (ht : shortcutTable? q = some t) :
    Plan.Alike ρ (fun σ => Option.Rel (RowSet.Alike σ)) (shortcut s options q t)
      (shortcut s options (q.withFilters filters having) t) := by
  unfold shortcut
  refine (alike_countShortcut_twins hfilters hlisted hρ hshort ht).bind ?_
  rintro σ hσ - counted counted' hcounted
  cases hcounted with
  | some hd => exact alike_pure (.some hd)
  | none =>
    have hσρ : σ.Extends (.before r.next) := hσ.trans hρ
    refine (alike_keyShortcut_twins hfilters hlisted hσρ hshort ht).bind ?_
    rintro τ hτ - found found' hfound
    cases hfound with
    | some hd => exact alike_pure (.some hd)
    | none =>
      show Plan.Alike τ _ (if isSimple q.select && !q.distinct && q.orderBy.isEmpty then _ else _)
        (if isSimple q.select && !q.distinct && q.orderBy.isEmpty then _ else _)
      split
      · refine (alike_straightRead_twins hfilters hK hs hlisted hreads (hτ.trans hσρ) ht).bind ?_
        exact fun _ _ _ d d' hd => alike_pure (.some hd)
      · exact alike_pure .none

/-- **Queries with twins as filters are answered alike**, where what the twins compare is read of its
type. -/
theorem alike_execute_twins : Plan.Alike ρ RowSet.Alike (execute s options q)
    (execute s options (q.withFilters filters having)) := by
  have hsources := hover.sources
  have hsources' : (q.withFilters filters having).sources ≠ [] := hsources
  by_cases hzero : q.maxRows = some 0
  · have hzero' : (q.withFilters filters having).maxRows = some 0 := hzero
    rw [execute_of_no_rows s _ hsources hzero, execute_of_no_rows s _ hsources' hzero']
    exact alike_pure (RowSet.alike_empty (alike_select hlisted.lists (r.fixes.mono hρ)))
  have hzero' : (q.withFilters filters having).maxRows ≠ some 0 := hzero
  have htable := shortcutTable?_twins hhaving filters
  cases ht : shortcutTable? q with
  | none =>
    rw [execute_of_no_table s _ hsources hzero ht,
      execute_of_no_table s _ hsources' hzero' (htable.trans ht)]
    exact alike_longWay_twins hhaving hfilters hK hs hlisted hover hreads hρ
  | some t =>
    rw [execute_of_table s _ hsources hzero ht,
      execute_of_table s _ hsources' hzero' (htable.trans ht)]
    refine (alike_shortcut_twins hfilters hK hs hlisted hreads hρ hshort ht).bind ?_
    rintro σ hσ - short short' hshorts
    cases hshorts with
    | none => exact alike_longWay_twins hhaving hfilters hK hs hlisted hover hreads (hσ.trans hρ)
    | some hd => exact alike_pure hd

end Twins

end Engine

end DocQuery
