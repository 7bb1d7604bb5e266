import DocQuery.Proofs.Rows.Lockstep

/-!
# DocQuery.Proofs.Rows.Operators — operators on data sets that are alike

Selecting, ordering, joining, grouping and aggregating plan and read, and end alike on data sets that
are alike: one lemma for each operator.
-/

namespace DocQuery.RowSet

open Plan

variable {ρ σ : Pairing} {d d' : RowSet} {items items' : List Item}

/-! ## Reading -/

theorem alike_foldRows {γ δ : Type} {S : γ → δ → Prop} (h : d.Alike ρ d')
    {f : γ → Row → Except QueryError γ} {g : δ → Row → Except QueryError δ}
    (hfg : ∀ c c' r r', S c c' → r.Alike ρ r' → Agreeing S (f c r) (g c' r')) {c : γ} {c' : δ}
    (hc : S c c') : Plan.Alike ρ (fun _ => S) (d.foldRows f c) (d'.foldRows g c') := by
  have hresult : Agreeing S (d.stream.fold f c).2 (d'.stream.fold g c').2 := by
    rw [Stream.fold_eq_foldlM, Stream.fold_eq_foldlM]
    refine Agreeing.foldlM h.outcomes (fun c c' o o' hc ho => ?_) hc
    exact ho.bind fun r r' hr => hfg c c' r r' hc hr
  unfold foldRows
  refine ((isQuiet_recordPulls d _).alike (isQuiet_recordPulls d' _)).bind fun σ hσ _ _ _ _ => ?_
  refine ((isQuiet_close d).alike (isQuiet_close d')).bind fun τ hτ _ _ _ _ => ?_
  exact alike_lift hresult

theorem alike_toRows (h : d.Alike ρ d') :
    Plan.Alike ρ (fun σ => List.Forall₂ (Row.Alike σ)) d.toRows d'.toRows := by
  unfold toRows
  refine (alike_foldRows h (S := List.Forall₂ (Row.Alike ρ)) (fun c c' r r' hc hr => ?_)
    .nil).bind fun σ hσ _ rows rows' hrows => alike_pure ?_
  · exact .ok (.cons hr hc)
  · exact List.rel_reverse (hrows.imp fun _ _ hr => hr.mono hσ)

/-! ## Selecting -/

section Selecting

variable (hρ : ρ.IsOneToOne) (hitems : Item.AllAlike ρ items items')

include hρ hitems

theorem missingScalars_alike {header header' : List Item}
    (hheader : Item.AllAlike ρ header header') :
    Item.AllAlike ρ (missingScalars header items) (missingScalars header' items') := by
  refine Item.AllAlike.foldl_pushNew_withoutAlias .nil (hitems.filter fun i j hij => ?_)
  rw [hij.scalar?, Header.resolve?_alike hρ hheader hij,
    Header.resolve?_alike hρ hheader (hij.bare hρ)]

theorem scalarInputs_alike {header header' : List Item}
    (hheader : Item.AllAlike ρ header header') :
    Agreeing (List.Forall₂ fun x y => Item.Alike ρ x.1 y.1 ∧ x.2 = y.2)
      (scalarInputs header items) (scalarInputs header' items') := by
  induction hitems with
  | nil => exact .ok .nil
  | @cons i j _ _ hij _ ih =>
    unfold scalarInputs
    rw [hij.scalar?, hij.sql, hij.sqlWithoutAlias, Header.resolve?_alike hρ hheader (hij.bare hρ)]
    split
    · exact .error _
    · cases Header.resolve? header' j.bare with
      | none => exact .error _
      | some found => exact ih.map fun _ _ hrest => .cons ⟨hij, rfl⟩ hrest

theorem alike_withScalars (h : d.Alike ρ d') :
    Plan.Alike ρ RowSet.Alike (d.withScalars items) (d'.withScalars items') := by
  have hinputs := scalarInputs_alike hρ hitems h.header
  unfold withScalars
  generalize scalarInputs d.header items = inputs, scalarInputs d'.header items' = inputs'
    at hinputs ⊢
  cases hinputs with
  | error e =>
    exact ((isQuiet_close d).alike (isQuiet_close d')).bind fun _ _ _ _ _ _ => alike_throw e
  | ok hfunctions =>
    have hheader := hitems.append h.header
    refine alike_pure ⟨hheader, ?_⟩
    simp only [Stream.outcomes_map]
    refine h.outcomes.map_bind fun r r' hr => .ok ⟨hheader, ?_, ?_⟩
    · have hvalues := map_eq_map_of_forall₂ hfunctions
        (f := fun x => Row.applyScalar x.1 (r.value x.2))
        (g := fun x => Row.applyScalar x.1 (r'.value x.2)) fun x _ y hxy => by
          rw [hxy.1.applyScalar, hxy.2, hr.value]
      have hcells : (List.range d.header.length).map r.value =
          (List.range d'.header.length).map r'.value := by
        rw [h.header.length_eq]
        exact List.map_congr_left fun n _ => hr.value n
      show _ ++ _ = _ ++ _
      rw [hcells]
      exact congrArg (· ++ _) hvalues
    · have hnone := map_eq_map_of_forall₂ hfunctions
        (f := fun _ => (none : Option Style)) (g := fun _ => none) fun _ _ _ _ => rfl
      show r.styles.map _ = r'.styles.map _
      rw [hr.styles]
      simp only [hnone]

/-- Projecting onto items that are readable, or refusing to. -/
theorem alike_projectedOrRefused (h : d.Alike ρ d') : Plan.Alike ρ RowSet.Alike
    (d.projectedOrRefused items) (d'.projectedOrRefused items') := by
  have hreadable (i j : Item) (hij : Item.Alike ρ i j) :
      (!Header.isReadable d.header i) = !Header.isReadable d'.header j := by
    rw [Header.isReadable_alike hρ h.header hij]
  unfold projectedOrRefused
  rcases hitems.find? hreadable with ⟨hnone, hnone'⟩ | ⟨x, y, hx, hy, hxy⟩
  · rw [hnone, hnone']
    exact alike_pure (h.projected hρ hitems)
  · rw [hx, hy]
    refine ((isQuiet_close d).alike (isQuiet_close d')).bind fun _ _ _ _ _ _ => ?_
    rw [hxy.sqlWithoutAlias]
    exact alike_throw _

/-- **Selecting from data sets that are alike.** -/
theorem alike_selection (h : d.Alike ρ d') :
    Plan.Alike ρ RowSet.Alike (d.selection items) (d'.selection items') := by
  rw [selection_eq, selection_eq, h.header.sameLayout hitems]
  by_cases hlayout : Item.sameLayout d'.header items' = true
  · rw [if_pos hlayout, if_pos hlayout]
    exact alike_pure h
  · rw [if_neg hlayout, if_neg hlayout]
    have hmissing := missingScalars_alike hρ hitems h.header
    have hempty : (missingScalars d.header items).isEmpty =
        (missingScalars d'.header items').isEmpty := hmissing.isEmpty
    simp only [hempty]
    by_cases hstage : (missingScalars d'.header items').isEmpty = true
    · rw [if_pos hstage, if_pos hstage]
      exact (alike_pure h).bind fun σ hσ hσone s s' hs =>
        alike_projectedOrRefused hσone (hitems.mono hσ) hs
    · rw [if_neg hstage, if_neg hstage]
      exact (alike_withScalars hρ hmissing h).bind fun σ hσ hσone s s' hs =>
        alike_projectedOrRefused hσone (hitems.mono hσ) hs

end Selecting

/-! ## Ordering -/

/-- Sorting related lists by tests that agree on related elements. -/
theorem forall₂_mergeSort {α β : Type} {R : α → β → Prop} {l : List α} {l' : List β}
    (h : List.Forall₂ R l l') {le : α → α → Bool} {le' : β → β → Bool}
    (hle : ∀ a a' b b', R a a' → R b b' → le a b = le' a' b') :
    List.Forall₂ R (l.mergeSort le) (l'.mergeSort le') := by
  obtain ⟨hlength, hpairs⟩ := List.forall₂_iff_zip.mp h
  -- Both lists are the sides of one list of pairs, and sorting the pairs sorts both.
  have hleft := List.map_mergeSort (l := l.zip l') (f := Prod.fst) (s := le)
    (r := fun p q => le p.1 q.1) fun _ _ _ _ => rfl
  have hright := List.map_mergeSort (l := l.zip l') (f := Prod.snd) (s := le')
    (r := fun p q => le p.1 q.1) fun p hp q hq => hle _ _ _ _ (hpairs hp) (hpairs hq)
  rw [List.map_fst_zip (Nat.le_of_eq hlength)] at hleft
  rw [List.map_snd_zip (Nat.le_of_eq hlength.symm)] at hright
  rw [← hleft, ← hright, List.forall₂_map_left_iff, List.forall₂_map_right_iff,
    List.forall₂_same]
  exact fun p hp => hpairs (List.mem_mergeSort.mp hp)

/-- Sorting rows paired with their keys is sorting them by their keys. -/
theorem sortRows_eq (orderBy : List OrderItem) (rows : List Row) : sortRows orderBy rows =
    rows.mergeSort fun a b =>
      compareKeys orderBy (sortKeys orderBy a) (sortKeys orderBy b) != .gt := by
  unfold sortRows
  rw [← List.map_mergeSort (r := fun a b =>
    compareKeys orderBy (sortKeys orderBy a) (sortKeys orderBy b) != .gt) fun _ _ _ _ => rfl,
    List.map_map]
  exact List.map_id _

theorem sortRows_perm (orderBy : List OrderItem) (rows : List Row) :
    (sortRows orderBy rows).Perm rows := by
  rw [sortRows_eq]
  exact List.mergeSort_perm _ _

/-- Ordering leaves a data set as it is, or sorts its rows. -/
theorem ordered_eq_ok {orderBy : List OrderItem} {l l' : Ledger}
    (hrun : (d.ordered orderBy).run l = (.ok d', l')) :
    d' = d ∨ ∃ rows, d.Yields rows ∧ d' = ofRows d.header (sortRows orderBy rows) := by
  unfold RowSet.ordered at hrun
  split at hrun
  · cases hrun
    exact Or.inl rfl
  · split at hrun
    · exact absurd hrun run_bind_throw_ne_ok
    · obtain ⟨rows, k, hread, hrun⟩ := run_bind_eq_ok hrun
      cases hrun
      exact Or.inr ⟨rows, yields_of_toRows hread, rfl⟩

theorem find?_congr_mem {α : Type} {l : List α} {p q : α → Bool} (h : ∀ a ∈ l, p a = q a) :
    l.find? p = l.find? q := by
  induction l with
  | nil => rfl
  | cons a rest ih =>
    rw [List.forall_mem_cons] at h
    rw [List.find?_cons, List.find?_cons, h.1, ih h.2]

section Ordering

variable {orderBy : List OrderItem} (hρ : ρ.IsOneToOne)
  (horder : ∀ o ∈ orderBy, Item.Alike ρ o.item o.item)

include hρ horder

/-- Rows that are alike are sorted alike. -/
theorem sortRows_alike {rows rows' : List Row} (h : List.Forall₂ (Row.Alike ρ) rows rows') :
    List.Forall₂ (Row.Alike ρ) (sortRows orderBy rows) (sortRows orderBy rows') := by
  have hkeys (r r' : Row) (hr : r.Alike ρ r') : sortKeys orderBy r = sortKeys orderBy r' :=
    List.map_congr_left fun o ho => by rw [hr.evaluate? hρ (horder o ho)]
  rw [sortRows_eq, sortRows_eq]
  exact forall₂_mergeSort h fun a a' b b' ha hb => by rw [hkeys a a' ha, hkeys b b' hb]

theorem alike_ordered (h : d.Alike ρ d') :
    Plan.Alike ρ RowSet.Alike (d.ordered orderBy) (d'.ordered orderBy) := by
  unfold ordered
  by_cases hempty : orderBy.isEmpty = true
  · rw [if_pos hempty, if_pos hempty]
    exact alike_pure h
  · rw [if_neg hempty, if_neg hempty]
    have hfind : (orderBy.find? fun o => !Header.isReadable d.header o.item) =
        orderBy.find? fun o => !Header.isReadable d'.header o.item := by
      refine find?_congr_mem fun o ho => ?_
      rw [Header.isReadable_alike hρ h.header (horder o ho)]
    rw [hfind]
    split
    next missing _ =>
      exact ((isQuiet_close d).alike (isQuiet_close d')).bind fun _ _ _ _ _ _ => alike_throw _
    next =>
      refine (alike_toRows h).bind fun σ hσ hσone rows rows' hrows => alike_pure ?_
      exact alike_ofRows (h.header.mono hσ)
        (sortRows_alike hσone (fun o ho => (horder o ho).mono hσ) hrows)

end Ordering

/-! ## Joining -/

section Joining

variable {filters : List Filter}

theorem mem_itemsOf {i : Item} :
    i ∈ Filter.itemsOf filters ↔ ∃ f ∈ filters, i ∈ f.items := by
  induction filters with
  | nil => simp [Filter.itemsOf]
  | cons f rest ih => rw [Filter.itemsOf, List.mem_append, ih]; simp

/-- What holds of the items of filters holds of those of a part of the filters. -/
theorem itemsOf_subset {part : List Filter} (h : part ⊆ filters) :
    Filter.itemsOf part ⊆ Filter.itemsOf filters := by
  intro i hi
  obtain ⟨f, hf, hmem⟩ := mem_itemsOf.mp hi
  exact mem_itemsOf.mpr ⟨f, h hf, hmem⟩

/-- The product of data sets that are alike with further ones. -/
theorem alike_productWith {all all' : List Item} {rest rest' : List RowSet}
    (hall : Item.AllAlike ρ all all') (h : d.Alike ρ d')
    (hrest : List.Forall₂ (RowSet.Alike ρ) rest rest')
    (hfilters : ∀ i ∈ Filter.itemsOf filters, Item.Alike ρ i i) :
    Plan.Alike ρ RowSet.Alike (productWith all d filters rest)
      (productWith all' d' filters rest') := by
  induction rest generalizing ρ d d' rest' filters with
  | nil =>
    cases hrest
    unfold productWith
    exact alike_of_oneToOne fun hρ => alike_pure (h.filtered hρ hfilters)
  | cons inner rest ih =>
    cases hrest with
    | @cons _ inner' _ rest' hinner hrest =>
      unfold productWith
      have hread := (alike_toRows hinner).orElseClosing
        ((isQuiet_close d).bind (isQuiet_closeAll rest))
        ((isQuiet_close d').bind (isQuiet_closeAll rest'))
      refine hread.bind fun σ hσ hσone rows rows' hrows => ?_
      have hempty : rows.isEmpty = rows'.isEmpty := by cases hrows <;> rfl
      have hheader := (h.header.append hinner.header).mono hσ
      have hknown : ∀ i ∈ Filter.itemsOf filters, Item.Alike σ i i :=
        fun i hi => (hfilters i hi).mono hσ
      rw [hempty]
      by_cases hnone : rows'.isEmpty = true
      · rw [if_pos hnone, if_pos hnone]
        refine ((isQuiet_close d).alike (isQuiet_close d')).bind fun τ hτ _ _ _ _ => ?_
        refine ((isQuiet_closeAll rest).alike (isQuiet_closeAll rest')).bind fun υ hυ _ _ _ _ => ?_
        exact alike_pure (alike_empty (hall.mono ((hυ.trans hτ).trans hσ)))
      · rw [if_neg hnone, if_neg hnone]
        have htest : ∀ f ∈ filters, f.items.all (Header.isReadable (d.header ++ inner.header)) =
            f.items.all (Header.isReadable (d'.header ++ inner'.header)) := by
          intro f hf
          rw [Bool.eq_iff_iff, List.all_eq_true, List.all_eq_true]
          refine forall₂_congr fun i hi => ?_
          rw [Header.isReadable_alike hσone hheader (hknown i (mem_itemsOf.mpr ⟨f, hf, hi⟩))]
        have hlater : filters.filter (not ∘ fun f =>
            f.items.all (Header.isReadable (d.header ++ inner.header))) =
              filters.filter (not ∘ fun f =>
                f.items.all (Header.isReadable (d'.header ++ inner'.header))) :=
          List.filter_congr fun f hf => congrArg not (htest f hf)
        simp only [List.partition_eq_filter_filter]
        rw [List.filter_congr htest, hlater]
        have hpart {part : List Filter} (hsub : part ⊆ filters) :
            ∀ i ∈ Filter.itemsOf part, Item.Alike σ i i :=
          fun i hi => hknown i (itemsOf_subset hsub hi)
        refine ih (hall.mono hσ) ((h.mono hσ).nestedLoop hσone (hinner.header.mono hσ) hrows
          (hpart (List.filter_subset_self _)) false) (hrest.imp fun _ _ hd => hd.mono hσ)
          (hpart (List.filter_subset_self _))

/-- **The product of data sets that are alike.** -/
theorem alike_cartesianProduct {sets sets' : List RowSet}
    (h : List.Forall₂ (RowSet.Alike ρ) sets sets')
    (hfilters : ∀ i ∈ Filter.itemsOf filters, Item.Alike ρ i i) :
    Plan.Alike ρ RowSet.Alike (cartesianProduct sets filters) (cartesianProduct sets' filters) := by
  have hall : Item.AllAlike ρ (sets.flatMap (·.header)) (sets'.flatMap (·.header)) :=
    List.rel_flatMap h fun _ _ hd => hd.header
  cases h with
  | nil => exact alike_throw _
  | cons hfirst hrest => exact alike_productWith hall hfirst hrest hfilters

variable {right right' : RowSet}

theorem alike_leftJoin (h : d.Alike ρ d') (hright : right.Alike ρ right')
    (hfilters : ∀ i ∈ Filter.itemsOf filters, Item.Alike ρ i i) :
    Plan.Alike ρ RowSet.Alike (d.leftJoin right filters) (d'.leftJoin right' filters) := by
  unfold leftJoin
  refine ((alike_toRows hright).orElseClosing (isQuiet_close d) (isQuiet_close d')).bind
    fun σ hσ hσone rows rows' hrows => alike_pure ?_
  exact (h.mono hσ).nestedLoop hσone (hright.header.mono hσ) hrows
    (fun i hi => (hfilters i hi).mono hσ) true

theorem alike_rightJoin (h : d.Alike ρ d') (hright : right.Alike ρ right')
    (hfilters : ∀ i ∈ Filter.itemsOf filters, Item.Alike ρ i i) :
    Plan.Alike ρ RowSet.Alike (d.rightJoin right filters) (d'.rightJoin right' filters) := by
  unfold rightJoin
  refine (alike_leftJoin hright h hfilters).bind fun σ hσ hσone s s' hs => ?_
  exact alike_selection hσone ((h.header.append hright.header).mono hσ) hs

end Joining

/-! ## Grouping -/

section Grouping

theorem aggregatesOf_alike (hitems : Item.AllAlike ρ items items') :
    Agreeing (Item.AllAlike ρ) (aggregatesOf items) (aggregatesOf items') := by
  have haggregates := hitems.filter (p := (·.aggregate?.isSome)) (q := (·.aggregate?.isSome))
    fun i j hij => by rw [hij.aggregate?]
  unfold aggregatesOf
  simp only
  rcases haggregates.find? (p := (·.expression?.isSome)) (q := (·.expression?.isSome))
      fun i j hij => by rw [hij.expression?] with ⟨hnone, hnone'⟩ | ⟨x, y, hx, hy, hxy⟩
  · rw [hnone, hnone']
    exact .ok (Item.AllAlike.foldl_pushNew .nil haggregates)
  · rw [hx, hy]
    simp only [hxy.sqlWithoutAlias]
    exact .error _

variable (hρ : ρ.IsOneToOne) {aggregates aggregates' groupBy groupBy' : List Item}
  (haggregates : Item.AllAlike ρ aggregates aggregates')

include hρ haggregates

omit haggregates in
theorem contribution_alike {i j : Item} (hij : Item.Alike ρ i j) {r r' : Row} (hr : r.Alike ρ r') :
    contribution i r = contribution j r' := by
  unfold contribution
  rw [hij.isCountAll, hr.evaluate? hρ (hij.bare hρ), hij.sqlWithoutAlias]

theorem contributions_alike {r r' : Row} (hr : r.Alike ρ r') :
    contributions aggregates r = contributions aggregates' r' := by
  unfold contributions
  induction haggregates with
  | nil => rfl
  | cons hij _ ih => rw [List.mapM_cons, List.mapM_cons, contribution_alike hρ hij hr, ih]

omit hρ in
theorem aggregateAll_alike (rows : List (List Value)) :
    aggregateAll aggregates rows = aggregateAll aggregates' rows := by
  unfold aggregateAll
  generalize 0 = start
  induction haggregates generalizing start with
  | nil => rfl
  | @cons i j _ _ hij _ ih =>
    have hfirst : aggregateAt rows i start = aggregateAt rows j start := by
      unfold aggregateAt
      rw [hij.aggregate?]
    rw [List.zipIdx_cons, List.zipIdx_cons, List.map_cons, List.map_cons, ih]
    exact congrArg (· :: _) hfirst

variable (hgroupBy : Item.AllAlike ρ groupBy groupBy')

include hgroupBy

omit haggregates in
theorem groupKey_alike {r r' : Row} (hr : r.Alike ρ r') :
    groupKey groupBy r = groupKey groupBy' r' := by
  unfold groupKey
  induction hgroupBy with
  | nil => rfl
  | cons hij _ ih =>
    rw [List.mapM_cons, List.mapM_cons, hr.evaluate? hρ hij, hij.sqlWithoutAlias, ih]

omit haggregates in
/-- **Grouping data sets that are alike.** -/
theorem alike_grouped (hitems : Item.AllAlike ρ items items') (h : d.Alike ρ d') :
    Plan.Alike ρ RowSet.Alike (d.grouped items groupBy) (d'.grouped items' groupBy') := by
  have haggregates := aggregatesOf_alike hitems
  unfold grouped
  generalize aggregatesOf items = found, aggregatesOf items' = found' at haggregates ⊢
  cases haggregates with
  | error e =>
    exact ((isQuiet_close d).alike (isQuiet_close d')).bind fun _ _ _ _ _ _ => alike_throw e
  | @ok aggregates aggregates' haggregates =>
    have hheader := hgroupBy.append haggregates
    have hreadable (i j : Item) (hij : Item.Alike ρ i j) :
        (!Header.isReadable (groupBy ++ aggregates) i) =
          !Header.isReadable (groupBy' ++ aggregates') j := by
      rw [Header.isReadable_alike hρ hheader hij]
    simp only
    rcases hitems.find? hreadable with ⟨hnone, hnone'⟩ | ⟨x, y, hx, hy, hxy⟩
    · rw [hnone, hnone']
      refine (alike_foldRows h (S := Eq) (fun c c' r r' hc hr => ?_) rfl).bind
        fun σ hσ hσone groups groups' hgroups => ?_
      · subst hc
        unfold groupRow
        rw [groupKey_alike hρ hgroupBy hr, contributions_alike hρ haggregates hr]
        exact .of_eq rfl
      · subst hgroups
        refine alike_selection hσone (hitems.mono hσ) (alike_ofRows (hheader.mono hσ) ?_)
        rw [List.forall₂_map_left_iff, List.forall₂_map_right_iff, List.forall₂_same]
        intro g _
        refine ⟨hheader.mono hσ, ?_, rfl⟩
        show g.key ++ _ = g.key ++ _
        rw [aggregateAll_alike haggregates]
    · rw [hx, hy]
      refine ((isQuiet_close d).alike (isQuiet_close d')).bind fun _ _ _ _ _ _ => ?_
      rw [hxy.sqlWithoutAlias]
      exact alike_throw _

end Grouping

theorem alike_distinct (hρ : ρ.IsOneToOne) (h : d.Alike ρ d') :
    Plan.Alike ρ RowSet.Alike d.distinct d'.distinct :=
  alike_grouped hρ h.header h.header h

/-! ## Aggregating without groups -/

/-- What is collected of rows that are alike. -/
structure CollectedAlike (ρ : Pairing) (c c' : Collected) : Prop where
  contributed : c.contributed = c'.contributed
  rows : List.Forall₂ (Row.Alike ρ) c.rows c'.rows

/-- One row without a row to read, or one for each row. -/
theorem rowsBeside_alike {rows rows' : List Row} (hrows : List.Forall₂ (Row.Alike ρ) rows rows')
    {rowFor rowFor' : Option Row → Row}
    (h : ∀ row row', Option.Rel (Row.Alike ρ) row row' → (rowFor row).Alike ρ (rowFor' row')) :
    List.Forall₂ (Row.Alike ρ)
      (if rows.isEmpty then [rowFor none] else rows.map (rowFor ∘ some))
      (if rows'.isEmpty then [rowFor' none] else rows'.map (rowFor' ∘ some)) := by
  cases hrows with
  | nil => exact .cons (h _ _ .none) .nil
  | cons hr hrest => exact List.rel_map (fun _ _ hr => h _ _ (.some hr)) (.cons hr hrest)

section Aggregating

variable (hρ : ρ.IsOneToOne) (hitems : Item.AllAlike ρ items items')

include hρ

theorem valueBeside_alike {aggregates aggregates' : List Item}
    (haggregates : Item.AllAlike ρ aggregates aggregates') (results : List Value)
    {row row' : Option Row} (hrow : Option.Rel (Row.Alike ρ) row row') {i j : Item}
    (hij : Item.Alike ρ i j) :
    valueBeside aggregates results row i = valueBeside aggregates' results row' j := by
  unfold valueBeside
  rw [findIdx?_of_forall₂ haggregates fun a b hab => hab.sameAs hij true]
  cases hrow with
  | none => rfl
  | some hr => simp only [Option.bind_some, hr.evaluate? hρ hij]

theorem collectRow_alike {aggregates aggregates' : List Item}
    (haggregates : Item.AllAlike ρ aggregates aggregates') {c c' : Collected}
    (hc : CollectedAlike ρ c c') {r r' : Row} (hr : r.Alike ρ r') :
    Agreeing (CollectedAlike ρ) (collectRow aggregates c r) (collectRow aggregates' c' r') := by
  unfold collectRow
  rw [contributions_alike hρ haggregates hr, hc.contributed]
  cases contributions aggregates' r' with
  | error e => exact .error e
  | ok values => exact .ok ⟨rfl, .cons hr hc.rows⟩

include hitems

/-- **Aggregating data sets that are alike.** -/
theorem alike_aggregated (h : d.Alike ρ d') :
    Plan.Alike ρ RowSet.Alike (d.aggregated items) (d'.aggregated items') := by
  have haggregates := aggregatesOf_alike hitems
  unfold aggregated
  generalize aggregatesOf items = found, aggregatesOf items' = found' at haggregates ⊢
  cases haggregates with
  | error e =>
    exact ((isQuiet_close d).alike (isQuiet_close d')).bind fun _ _ _ _ _ _ => alike_throw e
  | @ok aggregates aggregates' haggregates =>
    cases haggregates with
    | nil => exact alike_pure h
    | @cons first first' rest rest' hfirst hrest =>
      have haggregates : Item.AllAlike ρ (first :: rest) (first' :: rest') := .cons hfirst hrest
      have hothers := hitems.filter (p := (·.aggregate?.isNone)) (q := (·.aggregate?.isNone))
        fun i j hij => by rw [hij.aggregate?]
      have hreadable (i j : Item) (hij : Item.Alike ρ i j) :
          (!Header.isReadable d.header i) = !Header.isReadable d'.header j := by
        rw [Header.isReadable_alike hρ h.header hij]
      simp only
      rcases hothers.find? hreadable with ⟨hnone, hnone'⟩ | ⟨x, y, hx, hy, hxy⟩
      · rw [hnone, hnone']
        refine (alike_foldRows h (fun _ _ _ _ hc hr => collectRow_alike hρ haggregates hc hr)
          ⟨rfl, .nil⟩).bind fun σ hσ hσone c c' hc => ?_
        have hresults := aggregateAll_alike (ρ := ρ) haggregates c.contributed.reverse
        rw [hc.contributed] at hresults
        have hrow (row row' : Option Row) (hrow : Option.Rel (Row.Alike σ) row row') :
            Row.Alike σ
              ⟨items, items.map (valueBeside (first :: rest)
                (aggregateAll (first :: rest) c.contributed.reverse) row), none⟩
              ⟨items', items'.map (valueBeside (first' :: rest')
                (aggregateAll (first' :: rest') c'.contributed.reverse) row'), none⟩ := by
          refine ⟨hitems.mono hσ, ?_, rfl⟩
          rw [hc.contributed, hresults]
          exact map_eq_map_of_forall₂ (hitems.mono hσ) fun i _ j hij =>
            valueBeside_alike hσone (haggregates.mono hσ) _ hrow hij
        rw [hothers.isEmpty]
        have hrows : List.Forall₂ (Row.Alike σ)
            (if (items'.filter (·.aggregate?.isNone)).isEmpty then [] else c.rows.reverse)
            (if (items'.filter (·.aggregate?.isNone)).isEmpty then [] else c'.rows.reverse) := by
          split
          · exact .nil
          · exact List.rel_reverse (hc.rows.imp fun _ _ hr => hr.mono hσ)
        exact alike_pure (alike_ofRows (hitems.mono hσ) (rowsBeside_alike hrows hrow))
      · rw [hx, hy]
        refine ((isQuiet_close d).alike (isQuiet_close d')).bind fun _ _ _ _ _ _ => ?_
        rw [hxy.sqlWithoutAlias]
        exact alike_throw _

end Aggregating

end DocQuery.RowSet
