import DocQuery.Proofs.Engine.SingleTable
import DocQuery.Proofs.Query.Queries
import DocQuery.Proofs.Rows.Operators

/-!
# DocQuery.Proofs.Engine.Lockstep — two runs of a query

A query that runs twice, over one source with different options, gives data sets that may be used
for each other (`RowSet.Interchangeable`) as soon as every query in it does so on its own: whatever
is done with the result of a subquery does not tell the runs apart.  So an option that only concerns
how single queries are answered is judged query by query (`Engine.alike_execute`).
-/

namespace DocQuery

open Plan

/-! ## Sources -/

/-- A source whose answers do not depend on what it was asked before. -/
structure RowSource.IsSteady (s : RowSource) : Prop where
  read : ∀ past past' t columns limit, s.read past t columns limit = s.read past' t columns limit
  count : ∀ past past' t filters approximate,
    s.count past t filters approximate = s.count past' t filters approximate
  lookup : ∀ past past' t items column key,
    s.lookup past t items column key = s.lookup past' t items column key

namespace RowSource

variable {s : RowSource} (hs : s.IsSteady) {ρ : Pairing} {items items' : List Item}

theorem columnsOf_alike (h : Item.AllAlike ρ items items') : columnsOf items = columnsOf items' := by
  unfold columnsOf
  rw [h.filterMap_eq fun i j hij => hij.column?]

include hs

theorem alike_materializeColumns (t : Table) (columns : List Column) (limit : Option Nat) :
    Plan.Alike ρ RowSet.Alike (s.materializeColumns t columns limit)
      (s.materializeColumns t columns limit) := by
  unfold materializeColumns
  refine (alike_note _ _).bind fun σ _ _ past past' _ => ?_
  rw [hs.read past past']
  refine (alike_lift (R := fun _ => Eq) (.of_eq rfl)).bind fun τ _ _ outcomes _ heq => ?_
  subst heq
  refine (alike_makeItems columns none).bind fun υ _ _ header header' hheader => ?_
  refine alike_handedOut hheader (List.rel_map (R := Eq) ?_ (List.forall₂_same.mpr fun _ _ => rfl))
  rintro o _ rfl
  exact (Agreeing.of_eq rfl).map fun values _ heq => ⟨hheader, heq, rfl⟩

/-- A table is read alike for items that are alike. -/
theorem alike_materializeTable (t : Table) (hitems : Item.AllAlike ρ items items')
    {filters : List Filter} (hfilters : ∀ i ∈ Filter.itemsOf filters, Item.Alike ρ i i)
    (firstRow : Nat) (maxRows : Option Nat) :
    Plan.Alike ρ RowSet.Alike (s.materializeTable t items filters firstRow maxRows)
      (s.materializeTable t items' filters firstRow maxRows) := by
  have hcolumns := columnsOf_alike (hitems.append (List.forall₂_same.mpr hfilters))
  unfold materializeTable
  simp only [hcolumns]
  refine (alike_materializeColumns hs t _ _).bind fun σ hσ hσone d d' hd => ?_
  have hknown : ∀ i ∈ Filter.itemsOf filters, Item.Alike σ i i :=
    fun i hi => (hfilters i hi).mono hσ
  exact RowSet.alike_selection hσone (hitems.mono hσ)
    ((hd.filtered hσone hknown).paged firstRow maxRows)

end RowSource

/-! ## The items of a query -/

namespace Item

/-- The items of a query with those that they refer to.  An identity was drawn for every item, and
items with one identity are copies. -/
structure IsPool (P : Item → Prop) : Prop where
  inner : ∀ i x, P i → i.inner? = some x → P x
  copies : ∀ i j, P i → P j → i.id = j.id → i.withoutAlias = j.withoutAlias
  drawn : ∀ i, P i → 0 < i.id

/-- An item that a subquery is asked for: it refers to an item of the query, and no item that does
not refer to one has its identity. -/
structure IsReference (P : Item → Prop) (i : Item) : Prop where
  function : i.function = none
  inner : ∃ x, i.inner? = some x ∧ P x
  id : ∀ j, P j → j.id = i.id → j.inner?.isSome = true

theorem isReference_withoutAlias {P : Item → Prop} (hP : IsPool P) {i : Item} (hi : P i)
    (hfunction : i.function = none) (hinner : i.inner?.isSome = true) :
    i.withoutAlias.IsReference P := by
  obtain ⟨x, hx⟩ := Option.isSome_iff_exists.mp hinner
  refine ⟨hfunction, ⟨x, hx, hP.inner i x hi hx⟩, fun j hj hid => ?_⟩
  have hcopy := congrArg Item.inner? (hP.copies j i hj hi hid)
  show j.withoutAlias.inner?.isSome = true
  rw [hcopy]
  exact hinner

theorem isReference_withFunction {P : Item → Prop} (hP : IsPool P) {i : Item} (hi : P i)
    (hinner : i.inner?.isSome = true) {m : Nat} (hm : ∀ j, P j → j.id ≠ m) :
    (i.withFunction m none).IsReference P := by
  obtain ⟨x, hx⟩ := Option.isSome_iff_exists.mp hinner
  exact ⟨rfl, ⟨x, inner?_withFunction hx m none, hP.inner i x hi hx⟩,
    fun j hj hid => absurd hid (hm j hj)⟩

end Item

/-- The pairing fixes the items of a query. -/
def Pairing.Fixes (ρ : Pairing) (P : Item → Prop) : Prop := ∀ i, P i → Item.Alike ρ i i

theorem Pairing.Fixes.mono {ρ σ : Pairing} {P : Item → Prop} (h : ρ.Fixes P) (hσ : σ.Extends ρ) :
    σ.Fixes P := fun i hi => (h i hi).mono hσ

/-! ## Data sets in each other's place -/

/-- Data sets that may be used for each other, as an answer or as that of a subquery. -/
structure RowSet.Interchangeable (P : Item → Prop) (ρ σ : Pairing) (d d' : RowSet) : Prop where
  labels : d.header.map Item.label = d'.header.map Item.label
  values : List.Forall₂ (Agreeing fun r r' : Row => r.values = r'.values)
    d.stream.outcomes d'.stream.outcomes
  projected : ∀ items items', Item.AllAlike ρ items items' → (∀ i ∈ items, i.IsReference P) →
    (∀ i ∈ items', i.IsReference P) → (d.projected items).Alike σ (d'.projected items')

theorem RowSet.Alike.interchangeable {P : Item → Prop} {ρ σ : Pairing} {d d' : RowSet}
    (h : d.Alike σ d') (hσ : σ.Extends ρ) (hone : σ.IsOneToOne) :
    RowSet.Interchangeable P ρ σ d d' where
  labels := map_eq_map_of_forall₂ h.header fun _ _ _ hij => hij.label
  values := h.outcomes.imp fun _ _ ho => ho.mono fun _ _ hr => hr.values
  projected := fun _ _ hitems _ _ => h.projected hone (hitems.mono hσ)

namespace QueryOf

variable {q : Query} {P : Item → Prop} (h : ∀ i ∈ q.ownItems, P i)

include h

/-- Items that are added for later clauses are items of the query. -/
theorem own_withLaterItems {items : List Item} (hitems : ∀ i ∈ items, P i) :
    ∀ i ∈ Engine.withLaterItems q items, P i := by
  intro i hi
  rcases Item.mem_of_mem_foldl_pushNew hi with hitem | hlater
  · exact hitems i hitem
  · rcases List.mem_append.mp hlater with hgroup | horder
    · rcases List.mem_append.mp hgroup with hgroup | hhaving
      · exact own_groupBy h i hgroup
      · exact own_having h i hhaving
    · exact own_orderBy h i horder

theorem own_neededItems : ∀ i ∈ Engine.neededItems q, P i := by
  refine own_withLaterItems h fun i hi => ?_
  rcases Item.mem_of_mem_foldl_pushNew hi with hnil | hmore
  · cases hnil
  · rcases List.mem_append.mp hmore with hselect | hfilter
    · exact own_select h i hselect
    · exact own_filters h i hfilter

end QueryOf

/-! ## The long way -/

namespace Engine

variable {s : RowSource} {options options' : Options} {P : Item → Prop} {ρ : Pairing}

theorem alike_subqueryItems (hP : Item.IsPool P) (hρ : ρ.Fixes P) (label : Option String)
    {needed : List Item} (hneeded : ∀ i ∈ needed, P i) :
    Plan.Alike ρ (fun σ items items' => Item.AllAlike σ items items' ∧
        (∀ i ∈ items, i.IsReference P) ∧ ∀ i ∈ items', i.IsReference P)
      (subqueryItems label needed) (subqueryItems label needed) := by
  have hbases : Plan.Alike ρ (fun σ => List.Forall₂ fun i j =>
      Item.Alike σ i j ∧ i.IsReference P ∧ j.IsReference P)
    ((needed.filter (refersInto label)).mapM fun i =>
      if i.function.isSome then do return i.withFunction (← Plan.drawItem) none
      else return i.withoutAlias)
    ((needed.filter (refersInto label)).mapM fun i =>
      if i.function.isSome then do return i.withFunction (← Plan.drawItem) none
      else return i.withoutAlias) := by
    refine alike_mapM (T := fun σ i j => i = j ∧ P i ∧ i.inner?.isSome = true ∧ σ.Fixes P)
      (List.forall₂_same.mpr fun i hi => ?_)
      (fun σ τ i j hτ h => ⟨h.1, h.2.1, h.2.2.1, h.2.2.2.mono hτ⟩)
      (fun σ τ i j hτ h => ⟨h.1.mono hτ, h.2⟩) ?_
    · obtain ⟨hmem, hrefers⟩ := List.mem_filter.mp hi
      unfold refersInto at hrefers
      exact ⟨rfl, hneeded i hmem, (Bool.and_eq_true _ _ ▸ hrefers).1, hρ⟩
    · rintro σ i _ ⟨rfl, hi, hinner, hσ⟩
      by_cases hfunction : i.function.isSome = true
      · rw [if_pos hfunction]
        refine alike_drawItem.bind fun τ hτ _ m n hmn => alike_pure ?_
        refine ⟨(hσ.mono hτ i hi).withFunction hmn.1 none,
          Item.isReference_withFunction hP hi hinner fun j hj heq => ?_,
          Item.isReference_withFunction hP hi hinner fun j hj heq => ?_⟩
        · exact (hmn.2 j.id).1 (heq ▸ (hσ j hj).id)
        · exact (hmn.2 j.id).2 (heq ▸ (hσ j hj).id)
      · rw [if_neg hfunction]
        have hnone : i.function = none := by simpa using hfunction
        have href := Item.isReference_withoutAlias hP hi hnone hinner
        exact alike_pure ⟨(hσ i hi).withoutAlias, href, href⟩
  unfold subqueryItems
  refine hbases.bind fun σ _ _ bases bases' h => alike_pure ⟨?_, fun i hi => ?_, fun i hi => ?_⟩
  · exact Item.AllAlike.foldl_pushNew .nil (h.imp fun _ _ hij => hij.1)
  · obtain ⟨j, -, -, hi, -⟩ := exists_of_mem_forall₂ h
      ((Item.mem_of_mem_foldl_pushNew hi).resolve_left List.not_mem_nil)
    exact hi
  · obtain ⟨j, -, -, -, hi⟩ := exists_of_mem_forall₂ h.flip
      ((Item.mem_of_mem_foldl_pushNew hi).resolve_left List.not_mem_nil)
    exact hi

/-- The product of the data sets of a query, of the rows that its filters accept. -/
def combined (q : Query) : List RowSet → Plan RowSet
  | [d] => return d.filtered q.filters
  | sets => RowSet.cartesianProduct sets q.filters

/-- The groups of a query, or what its aggregates make of all rows. -/
def reduced (q : Query) (d : RowSet) : Plan RowSet :=
  if q.groupBy.isEmpty then d.aggregated (withLaterItems q q.select)
  else d.grouped (withLaterItems q q.select) q.groupBy

/-- The rows of a query selected and ordered. -/
def arranged (q : Query) (d : RowSet) : Plan RowSet :=
  if q.distinct then do
    let d ← d.selection q.select
    (← d.distinct).ordered q.orderBy
  else do
    (← d.ordered q.orderBy).selection q.select

/-- A query is finished in three steps. -/
theorem finish_eq (q : Query) (sets : List RowSet) : finish q sets = (do
    let d ← combined q sets
    let d ← reduced q d
    let d ← arranged q (d.filtered q.having)
    return d.paged q.firstRow q.maxRows) := by
  unfold finish combined reduced arranged
  cases q.distinct <;> cases q.groupBy.isEmpty <;> rcases sets with _ | ⟨d, _ | _⟩ <;> simp

section Finish

variable {q : Query} (hq : ∀ i ∈ q.ownItems, P i)

include hq

theorem alike_combined (hρ : ρ.Fixes P) {sets sets' : List RowSet}
    (h : List.Forall₂ (RowSet.Alike ρ) sets sets') :
    Plan.Alike ρ RowSet.Alike (combined q sets) (combined q sets') := by
  have hfilters : ∀ i ∈ Filter.itemsOf q.filters, Item.Alike ρ i i :=
    fun i hi => hρ i (QueryOf.own_filters hq i hi)
  have hproduct := RowSet.alike_cartesianProduct h hfilters
  cases h with
  | nil => exact hproduct
  | cons hd hrest =>
    cases hrest with
    | nil => exact alike_of_oneToOne fun hone => alike_pure (hd.filtered hone hfilters)
    | cons _ _ => exact hproduct

theorem alike_reduced (hρ : ρ.Fixes P) {d d' : RowSet} (h : d.Alike ρ d') :
    Plan.Alike ρ RowSet.Alike (reduced q d) (reduced q d') := by
  have hitems : Item.AllAlike ρ (withLaterItems q q.select) (withLaterItems q q.select) :=
    List.forall₂_same.mpr fun i hi =>
      hρ i (QueryOf.own_withLaterItems hq (QueryOf.own_select hq) i hi)
  have hgroupBy : Item.AllAlike ρ q.groupBy q.groupBy :=
    List.forall₂_same.mpr fun i hi => hρ i (QueryOf.own_groupBy hq i hi)
  unfold reduced
  refine alike_of_oneToOne fun hone => ?_
  split
  · exact RowSet.alike_aggregated hone hitems h
  · exact RowSet.alike_grouped hone hgroupBy hitems h

theorem alike_arranged (hρ : ρ.Fixes P) {d d' : RowSet} (h : d.Alike ρ d') :
    Plan.Alike ρ RowSet.Alike (arranged q d) (arranged q d') := by
  have hselect {σ : Pairing} (hσ : σ.Extends ρ) : Item.AllAlike σ q.select q.select :=
    List.forall₂_same.mpr fun i hi => (hρ i (QueryOf.own_select hq i hi)).mono hσ
  have horder {σ : Pairing} (hσ : σ.Extends ρ) : ∀ o ∈ q.orderBy, Item.Alike σ o.item o.item :=
    fun o ho => (hρ _ (QueryOf.own_orderBy hq _ (List.mem_map_of_mem ho))).mono hσ
  unfold arranged
  refine alike_of_oneToOne fun hone => ?_
  split
  · refine (RowSet.alike_selection hone (hselect (.refl ρ)) h).bind fun σ hσ hone s s' hs => ?_
    refine (RowSet.alike_distinct hone hs).bind fun τ hτ hone u u' hu => ?_
    exact RowSet.alike_ordered hone (horder (hτ.trans hσ)) hu
  · refine (RowSet.alike_ordered hone (horder (.refl ρ)) h).bind fun σ hσ hone s s' hs => ?_
    exact RowSet.alike_selection hone (hselect hσ) hs

/-- **The clauses of a query shape data sets that are alike into data sets that are alike.** -/
theorem alike_finish (hρ : ρ.Fixes P) {sets sets' : List RowSet}
    (h : List.Forall₂ (RowSet.Alike ρ) sets sets') :
    Plan.Alike ρ RowSet.Alike (finish q sets) (finish q sets') := by
  rw [finish_eq, finish_eq]
  refine (alike_combined hq hρ h).bind fun σ hσ _ d d' hd => ?_
  refine (alike_reduced hq (hρ.mono hσ) hd).bind fun τ hτ hone d d' hd => ?_
  have hhaving : ∀ i ∈ Filter.itemsOf q.having, Item.Alike τ i i :=
    fun i hi => (hρ i (QueryOf.own_having hq i hi)).mono (hτ.trans hσ)
  refine (alike_arranged hq (hρ.mono (hτ.trans hσ)) (hd.filtered hone hhaving)).bind ?_
  exact fun υ _ _ d d' hd => alike_pure (hd.paged q.firstRow q.maxRows)

end Finish

/-! ## Joins -/

section Join

variable {conditions : List (Item × Item)} (hconditions : ∀ c ∈ conditions, P c.1 ∧ P c.2)

include hconditions

theorem mem_pool_joinItems {needed : List Item} (hneeded : ∀ i ∈ needed, P i) :
    ∀ i ∈ joinItems conditions needed, P i := by
  intro i hi
  rcases Item.mem_of_mem_foldl_pushNew hi with hneed | hmore
  · exact hneeded i hneed
  · rcases List.mem_append.mp hmore with hleft | hright
    · obtain ⟨c, hc, rfl⟩ := List.mem_map.mp hleft
      exact (hconditions c hc).1
    · obtain ⟨c, hc, rfl⟩ := List.mem_map.mp hright
      exact (hconditions c hc).2

theorem mem_pool_onFilters : ∀ i ∈ Filter.itemsOf (FromItem.onFilters conditions), P i := by
  intro i hi
  obtain ⟨f, hf, hmem⟩ := RowSet.mem_itemsOf.mp hi
  obtain ⟨c, hc, rfl⟩ := List.mem_map.mp hf
  have hsides : i = c.1 ∨ i = c.2 := by simpa [Filter.items, Filter.comparisonItems] using hmem
  rcases hsides with rfl | rfl
  · exact (hconditions c hc).1
  · exact (hconditions c hc).2

theorem alike_join (hρ : ρ.Fixes P) (kind : JoinKind) {l l' r r' : RowSet} (hl : l.Alike ρ l')
    (hr : r.Alike ρ r') :
    Plan.Alike ρ RowSet.Alike (join kind l r (FromItem.onFilters conditions))
      (join kind l' r' (FromItem.onFilters conditions)) := by
  have hfilters : ∀ i ∈ Filter.itemsOf (FromItem.onFilters conditions), Item.Alike ρ i i :=
    fun i hi => hρ i (mem_pool_onFilters hconditions i hi)
  cases kind with
  | inner => exact RowSet.alike_cartesianProduct (.cons hl (.cons hr .nil)) hfilters
  | left => exact RowSet.alike_leftJoin hl hr hfilters
  | right => exact RowSet.alike_rightJoin hl hr hfilters

end Join

/-! ## Query by query -/

/-- A query may be answered in both runs, if it is wherever its long way is alike.  The long way may
begin later than the query, so it is alike under every pairing. -/
def IsLocallyAlike (s : RowSource) (options options' : Options) (P : Item → Prop) (q : Query) :
    Prop :=
  ∀ ρ : Pairing, ρ.Fixes P →
    (∀ σ : Pairing, σ.Fixes P →
      Plan.Alike σ RowSet.Alike (longWay s options q) (longWay s options' q)) →
      Plan.Alike ρ (RowSet.Interchangeable P ρ) (execute s options q) (execute s options' q)

section Runs

set_option linter.unusedSectionVars false

variable (hs : s.IsSteady) (hP : Item.IsPool P)

include hs hP

mutual

/-- From items are read alike for the same items. -/
theorem alike_materialize : (f : FromItem) → (ρ : Pairing) → ρ.Fixes P → (needed : List Item) →
    (∀ i ∈ needed, P i) → (∀ i ∈ f.conditionItems, P i) →
    (∀ q ∈ f.queries, (∀ i ∈ q.ownItems, P i) ∧ IsLocallyAlike s options options' P q) →
      Plan.Alike ρ RowSet.Alike (materialize s options needed f) (materialize s options' needed f)
  | .table t aliasName, ρ, _, needed, _, _, _ => by
    unfold materialize tableItems
    refine (alike_makeItems _ _).bind fun σ _ _ items items' hitems => ?_
    exact RowSource.alike_materializeTable hs t hitems (by simp [Filter.itemsOf]) 1 none
  | .subquery q aliasName, ρ, hρ, needed, hneeded, _, hq => by
    unfold materialize
    refine (alike_subqueryItems hP hρ aliasName hneeded).bind fun σ hσ _ items items' hitems => ?_
    refine (alike_execute q σ (hρ.mono hσ) hq).bind fun τ _ _ d d' hd => alike_pure ?_
    exact hd.projected items items' hitems.1 hitems.2.1 hitems.2.2
  | .expression text _, ρ, _, needed, _, _, _ => by
    unfold materialize
    exact alike_throw _
  | .join kind l r conditions _, ρ, hρ, needed, hneeded, hitems, hq => by
    have hconditions : ∀ c ∈ conditions, P c.1 ∧ P c.2 := fun c hc =>
      ⟨hitems _ (by
        unfold FromItem.conditionItems
        exact List.mem_append_right _ (List.mem_flatMap.mpr ⟨c, hc, by simp⟩)),
      hitems _ (by
        unfold FromItem.conditionItems
        exact List.mem_append_right _ (List.mem_flatMap.mpr ⟨c, hc, by simp⟩))⟩
    have hleft : ∀ i ∈ l.conditionItems, P i := fun i hi => hitems i (by
      unfold FromItem.conditionItems
      exact List.mem_append_left _ (List.mem_append_left _ hi))
    have hright : ∀ i ∈ r.conditionItems, P i := fun i hi => hitems i (by
      unfold FromItem.conditionItems
      exact List.mem_append_left _ (List.mem_append_right _ hi))
    have hmore := mem_pool_joinItems hconditions hneeded
    -- The right side begins with the ledgers that the left one leaves, so with a longer pairing.
    unfold materialize
    refine (alike_materialize l ρ hρ _ hmore hleft fun q hmem =>
      hq q (List.mem_append_left _ hmem)).bind fun σ hσ _ d d' hd => ?_
    refine ((alike_materialize r σ (hρ.mono hσ) _ hmore hright fun q hmem =>
      hq q (List.mem_append_right _ hmem)).orElseClosing (isQuiet_close d)
        (isQuiet_close d')).bind fun τ hτ _ e e' he => ?_
    exact alike_join hconditions (hρ.mono (hτ.trans hσ)) kind (hd.mono hτ) he

/-- From items are read alike one after the other. -/
theorem alike_materializeAll : (sources : List FromItem) → (ρ : Pairing) → ρ.Fixes P →
    (needed : List Item) → (∀ i ∈ needed, P i) → (∀ f ∈ sources, ∀ i ∈ f.conditionItems, P i) →
    (∀ q ∈ FromItem.queriesIn sources,
      (∀ i ∈ q.ownItems, P i) ∧ IsLocallyAlike s options options' P q) →
    (done done' : List RowSet) → List.Forall₂ (RowSet.Alike ρ) done done' →
      Plan.Alike ρ (fun σ => List.Forall₂ (RowSet.Alike σ))
        (materializeAll s options needed done sources)
        (materializeAll s options' needed done' sources)
  | [], ρ, _, _, _, _, _, done, done', hdone => by
    unfold materializeAll
    exact alike_pure hdone
  | f :: rest, ρ, hρ, needed, hneeded, hconditions, hq, done, done', hdone => by
    rw [List.forall_mem_cons] at hconditions
    unfold materializeAll
    refine ((alike_materialize f ρ hρ needed hneeded hconditions.1 fun q hmem =>
      hq q (List.mem_append_left _ hmem)).orElseClosing (isQuiet_closeAll done)
        (isQuiet_closeAll done')).bind fun σ hσ _ d d' hd => ?_
    refine alike_materializeAll rest σ (hρ.mono hσ) needed hneeded hconditions.2
      (fun q hmem => hq q (List.mem_append_right _ hmem)) _ _ ?_
    exact List.rel_append (hdone.imp fun _ _ h => h.mono hσ) (.cons hd .nil)

/-- **A query runs alike if each query in it does on its own.** -/
theorem alike_execute : (q : QueryOf FromItem) → (ρ : Pairing) → ρ.Fixes P →
    (∀ q' ∈ FromItem.queriesOf q,
      (∀ i ∈ QueryOf.ownItems q', P i) ∧ IsLocallyAlike s options options' P q') →
      Plan.Alike ρ (RowSet.Interchangeable P ρ) (execute s options q) (execute s options' q)
  | ⟨select, distinct, sources, filters, groupBy, having, orderBy, firstRow, maxRows⟩, ρ, hρ, hq => by
    let q : Query := ⟨select, distinct, sources, filters, groupBy, having, orderBy, firstRow, maxRows⟩
    -- The query itself is the first of the queries in it; those of its from items are the others.
    obtain ⟨hown, hlocal⟩ := hq q List.mem_cons_self
    refine hlocal ρ hρ fun σ hσ => ?_
    unfold longWay
    refine (alike_materializeAll sources σ hσ (neededItems q) (QueryOf.own_neededItems hown)
      (fun f hf => QueryOf.own_conditions hown hf)
      (fun q' hmem => hq q' (List.mem_cons_of_mem _ hmem)) [] [] .nil).bind ?_
    exact fun τ hτ _ sets sets' hsets => alike_finish hown (hσ.mono hτ) hsets

end

end Runs

end Engine

end DocQuery
