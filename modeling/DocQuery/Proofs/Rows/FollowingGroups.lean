import DocQuery.Proofs.Rows.Following
import DocQuery.Proofs.Rows.Grouping
import DocQuery.Proofs.Rows.Headed

/-!
# DocQuery.Proofs.Rows.FollowingGroups — groups and aggregates of counterparts

Counterparts contribute the same to an aggregate, so aggregates of counterparts are the same
(`RowSet.aggregateOver_counterparts`), rows with one key in one run have one key in the other one, and
groups are counterparts (`RowSet.follows_grouped`).  Unique rows are the first occurrences of cells, which
are the same in both runs if the headers have one sense at each place.
-/

namespace DocQuery

open Item (sense IsVocabulary AskedAlike ShareSenses AllCounterparts)

namespace RowSet

open Plan

variable {ρ σ : Runs} {leaves : List FromItem} {header header' items items' aggregates aggregates' groupBy
  groupBy' : List Item} {i i' : Item} {r r' : Row} {rows rows' : List Row} {d d' : RowSet}

/-! ## Aggregates -/

section Aggregates

variable (hρ : IsVocabulary ρ.known) (hheader : ShareSenses ρ leaves header header')

include hρ hheader

/-- Counterparts contribute the same. -/
theorem inputOf_counterparts (h : Row.Counterparts ρ leaves header header' r r')
    (hi : AskedAlike ρ leaves i i') : inputOf i r = inputOf i' r' := by
  unfold inputOf
  rw [← Item.isCountAll_sense leaves i, hi.sense, Item.isCountAll_sense,
    h.evaluate?_eq hρ hheader (hi.bare hρ)]

/-- **Aggregates of counterparts are the same.** -/
theorem aggregateOver_counterparts
    (h : List.Forall₂ (Row.Counterparts ρ leaves header header') rows rows')
    (hi : AskedAlike ρ leaves i i') : aggregateOver i rows = aggregateOver i' rows' := by
  have hinputs : rows.map (inputOf i) = rows'.map (inputOf i') :=
    map_eq_map_of_forall₂ h fun r _ r' hr => inputOf_counterparts hρ hheader hr hi
  unfold aggregateOver
  rw [← Item.aggregate?_sense leaves i, hi.sense, Item.aggregate?_sense, hinputs]

/-- Counterparts contribute to aggregates of both runs, or neither of them does. -/
theorem contributions_counterparts (hshare : ShareSenses ρ leaves aggregates aggregates')
    (h : Row.Counterparts ρ leaves header header' r r') :
    Alongside (fun values values' => values = aggregates.map (inputOf · r) ∧
        values' = aggregates'.map (inputOf · r'))
      (contributions aggregates r) (contributions aggregates' r') := by
  have hone (a a' : Item) (ha : Item.Counterparts ρ leaves a a') :
      (contribution a r).toBool = (contribution a' r').toBool := by
    unfold contribution
    rw [← Item.isCountAll_sense leaves a, ha.sense, Item.isCountAll_sense,
      h.evaluate?_eq hρ hheader (ha.asked.bare hρ)]
    split
    · rfl
    · cases r'.evaluate? a'.bare <;> rfl
  have hall := hshare.all_eq hone
  have hfails {as : List Item} {r : Row} :
      (contributions as r).toBool = as.all fun a => (contribution a r).toBool := by
    induction as with
    | nil => rfl
    | cons a as ih =>
      rw [List.all_cons, ← ih, contributions, List.mapM_cons]
      unfold contributions
      cases contribution a r with
      | error e => rfl
      | ok v => cases as.mapM (contribution · r) <;> rfl
  rw [← hfails, ← hfails] at hall
  cases hleft : contributions aggregates r with
  | error e =>
    cases hright : contributions aggregates' r' with
    | error e' => exact .error e e'
    | ok values' =>
      rw [hleft, hright] at hall
      cases hall
  | ok values =>
    cases hright : contributions aggregates' r' with
    | error e' =>
      rw [hleft, hright] at hall
      cases hall
    | ok values' => exact .ok ⟨contributions_eq_ok hleft, contributions_eq_ok hright⟩

end Aggregates

theorem shareSenses_aggregatesAmong (hρ : IsVocabulary ρ.known) (h : ShareSenses ρ leaves items items') :
    ShareSenses ρ leaves (aggregatesAmong items) (aggregatesAmong items') :=
  ShareSenses.nil.foldl_pushNew hρ (h.filter fun x => by rw [Item.aggregate?_sense])

/-- Aggregates of expressions are refused in both runs. -/
theorem aggregatesOf_counterparts (h : ShareSenses ρ leaves items items')
    (hcomputed : aggregatesOf items = .ok aggregates) :
    aggregatesOf items' = .ok (aggregatesAmong items') := by
  refine aggregatesOf_of_no_expression fun i' hi' haggregate => ?_
  obtain ⟨i, hi, hpair⟩ := h.symm_mem hi'
  rw [← Item.expression?_sense leaves, ← hpair.sense, Item.expression?_sense]
  rw [← Item.aggregate?_sense leaves, ← hpair.sense, Item.aggregate?_sense] at haggregate
  unfold aggregatesOf at hcomputed
  dsimp only at hcomputed
  split at hcomputed
  · cases hcomputed
  next hfind =>
    have hnone := List.find?_eq_none.mp hfind i (List.mem_filter.mpr ⟨hi, haggregate⟩)
    simpa using hnone

/-- The data set has the items in both runs, or in neither. -/
theorem find?_unreadable_counterparts (hρ : IsVocabulary ρ.known)
    (hheader : ShareSenses ρ leaves header header') (hitems : ShareSenses ρ leaves items items')
    (h : (items.find? fun i => !Header.isReadable header i) = none) :
    (items'.find? fun i => !Header.isReadable header' i) = none := by
  rw [List.find?_eq_none] at h ⊢
  intro i' hi'
  obtain ⟨i, hi, hpair⟩ := hitems.symm_mem hi'
  rw [← Header.isReadable_counterparts hρ hheader hpair.asked]
  exact h i hi

/-- What is computed for an item is one of the items, and has its sense. -/
theorem sense_computedFor (hρ : IsVocabulary ρ.known) {g : Registry}
    (hheld : ∀ x ∈ items, x.IsHeld leaves ρ.known g) (hi : i ∈ items) :
    computedFor items i ∈ items ∧ sense leaves (computedFor items i) = sense leaves i := by
  unfold computedFor
  cases hfind : (aggregatesAmong items).find? (Item.sameAs true · i) with
  | none => exact ⟨hi, rfl⟩
  | some j =>
    have hj := (mem_of_mem_aggregatesAmong (List.mem_of_find?_eq_some hfind)).1
    have hsame := List.find?_some hfind
    refine ⟨hj, Item.sense_congr ?_⟩
    exact (Item.sameAs_iff_meaning hρ (hheld j hj).known (hheld i hi).known true).mp hsame

/-- What is no aggregate has no place among those that are computed. -/
theorem findIdx?_aggregatesAmong_eq_none (hi : i.aggregate? = none) :
    (aggregatesAmong items).findIdx? (Item.sameAs true · i) = none := by
  rw [List.findIdx?_eq_none_iff]
  intro j hj
  rw [Bool.eq_false_iff]
  intro hsame
  have hsome := (mem_of_mem_aggregatesAmong hj).2
  rw [Item.aggregate?_of_sameAs hsame, hi] at hsome
  cases hsome

section Aggregating

variable (hρ : IsVocabulary ρ.known) (hheader : ShareSenses ρ leaves header header')
  (hitems : ShareSenses ρ leaves items items')
  (hrows : List.Forall₂ (Row.Counterparts ρ leaves header header') rows rows')

include hρ hheader hitems hrows

/-- The value of an item beside aggregates. -/
theorem valueBeside_counterparts {beside beside' : Option Row}
    (hbeside : Option.Rel (Row.Counterparts ρ leaves header header') beside beside') (hi : i ∈ items)
    (hi' : i' ∈ items') (hpair : Item.Counterparts ρ leaves i i') :
    valueBeside (aggregatesAmong items) ((aggregatesAmong items).map (aggregateOver · rows)) beside i =
      valueBeside (aggregatesAmong items') ((aggregatesAmong items').map (aggregateOver · rows'))
        beside' i' := by
  have hself {x : Item} {g : Registry} (hx : x.IsHeld leaves ρ.known g) : Item.sameAs true x x = true :=
    (Item.sameAs_iff_meaning hρ hx.known hx.known true).mpr rfl
  have haggregates : i.aggregate? = i'.aggregate? := by
    rw [← Item.aggregate?_sense leaves i, hpair.sense, Item.aggregate?_sense]
  cases haggregate : i.aggregate? with
  | some f =>
    have hsome : i.aggregate?.isSome = true := by rw [haggregate]; rfl
    have hsome' : i'.aggregate?.isSome = true := haggregates ▸ hsome
    obtain ⟨n, hn, hget⟩ := findIdx?_aggregatesAmong hi hsome (hself hpair.left)
    obtain ⟨n', hn', hget'⟩ := findIdx?_aggregatesAmong hi' hsome' (hself hpair.right)
    obtain ⟨hmem, hsense⟩ := sense_computedFor hρ hitems.left hi
    obtain ⟨hmem', hsense'⟩ := sense_computedFor hρ hitems.right hi'
    unfold valueBeside
    rw [hn, hn']
    simp only [List.getElem?_map, hget, hget', Option.map_some, Option.getD_some]
    refine aggregateOver_counterparts hρ hheader hrows ⟨(hitems.left _ hmem).asked,
      (hitems.right _ hmem').asked, ?_⟩
    rw [hsense, hsense', hpair.sense]
  | none =>
    unfold valueBeside
    rw [findIdx?_aggregatesAmong_eq_none haggregate,
      findIdx?_aggregatesAmong_eq_none (haggregates ▸ haggregate)]
    cases hbeside with
    | none => rfl
    | some hr => exact congrArg (Option.getD · .null) (hr.evaluate?_eq hρ hheader hpair.asked)

theorem rowBeside_counterparts {beside beside' : Option Row}
    (hbeside : Option.Rel (Row.Counterparts ρ leaves header header') beside beside') :
    Row.Counterparts ρ leaves items items' (rowBeside items rows beside)
      (rowBeside items' rows' beside') :=
  Row.counterparts_of_cells hitems (Row.cellsAlike_map hitems fun _ hi _ hi' hpair =>
    valueBeside_counterparts hρ hheader hitems hrows hbeside hi hi' hpair) none none

/-- The rows that aggregates stand beside, or the one that stands alone. -/
theorem rowsBeside_counterparts {kept kept' : List Row}
    (hkept : List.Forall₂ (Row.Counterparts ρ leaves header header') kept kept') :
    List.Forall₂ (Row.Counterparts ρ leaves items items')
      (if kept.isEmpty then [rowBeside items rows none] else kept.map (rowBeside items rows ∘ some))
      (if kept'.isEmpty then [rowBeside items' rows' none]
        else kept'.map (rowBeside items' rows' ∘ some)) := by
  cases hkept with
  | nil => exact .cons (rowBeside_counterparts hρ hheader hitems hrows .none) .nil
  | cons hr hrest =>
    refine List.rel_map (fun r r' hr => ?_) (List.Forall₂.cons hr hrest)
    exact rowBeside_counterparts hρ hheader hitems hrows (.some hr)

end Aggregating

/-- What two runs collect: rows that are counterparts, and what each of them contributes. -/
structure CollectedCounterparts (ρ : Runs) (leaves : List FromItem) (d d' : RowSet)
    (aggregates aggregates' : List Item) (c c' : Collected) : Prop where
  rows : List.Forall₂ (Row.Counterparts ρ leaves d.header d'.header) c.rows c'.rows
  left : c.contributed = c.rows.map fun row => aggregates.map (inputOf · row)
  right : c'.contributed = c'.rows.map fun row => aggregates'.map (inputOf · row)

theorem collectRow_counterparts (hρ : IsVocabulary ρ.known) (h : d.Counterparts ρ leaves d')
    (haggregates : ShareSenses ρ leaves aggregates aggregates') {c c' : Collected}
    (hc : CollectedCounterparts ρ leaves d d' aggregates aggregates' c c')
    (hr : Row.Counterparts ρ leaves d.header d'.header r r') :
    Alongside (CollectedCounterparts ρ leaves d d' aggregates aggregates') (collectRow aggregates c r)
      (collectRow aggregates' c' r') := by
  refine (contributions_counterparts hρ h.header haggregates hr).bind ?_
  rintro values values' ⟨rfl, rfl⟩
  refine .ok ⟨.cons hr hc.rows, ?_, ?_⟩
  · rw [hc.left, List.map_cons]
  · rw [hc.right, List.map_cons]

/-- **Aggregates of counterparts**, alone or beside each row. -/
theorem follows_aggregated (hρ : IsVocabulary ρ.known) (h : d.Counterparts ρ leaves d')
    (hitems : ShareSenses ρ leaves items items') :
    Follows ρ (fun σ e e' => e.Counterparts σ leaves e') (d.aggregated items) (d'.aggregated items') := by
  unfold aggregated
  cases hcomputed : aggregatesOf items with
  | error e => exact follows_of_failure fun _ _ _ => run_bind_throw_ne_ok
  | ok aggregates =>
    have haggregates := shareSenses_aggregatesAmong hρ hitems
    rw [aggregatesOf_counterparts hitems hcomputed]
    rw [aggregatesOf_eq_ok hcomputed]
    have hempty := haggregates.isEmpty_eq
    cases hleft : aggregatesAmong items with
    | nil =>
      rw [hleft] at hempty
      rw [List.isEmpty_iff.mp hempty.symm]
      exact follows_pure h
    | cons a rest =>
      cases hright : aggregatesAmong items' with
      | nil =>
        rw [hleft, hright] at hempty
        cases hempty
      | cons a' rest' =>
        have hothers := hitems.filter (p := fun i => i.aggregate?.isNone) fun x => by
          rw [Item.aggregate?_sense]
        dsimp only
        split
        next => exact follows_of_failure fun _ _ _ => run_bind_throw_ne_ok
        next hfind =>
          rw [find?_unreadable_counterparts hρ h.header hothers hfind]
          dsimp only
          rw [← hleft, ← hright]
          refine (follows_foldRows h (fun _ _ _ _ hc hr =>
            collectRow_counterparts hρ h haggregates hc hr) ⟨.nil, rfl, rfl⟩).bind
              fun σ hσ c c' hc => ?_
          have hread := List.rel_reverse (hc.rows.imp fun _ _ hr => hr.mono hσ)
          have hitems' := hitems.mono hσ
          rw [hc.left, hc.right, ← List.map_reverse, ← List.map_reverse, aggregateAll_inputs,
            aggregateAll_inputs, hothers.isEmpty_eq]
          refine follows_pure (counterparts_ofRows hitems' ?_)
          have hkept : List.Forall₂ (Row.Counterparts σ leaves d.header d'.header)
              (if (items'.filter (·.aggregate?.isNone)).isEmpty then [] else c.rows.reverse)
              (if (items'.filter (·.aggregate?.isNone)).isEmpty then [] else c'.rows.reverse) := by
            split
            · exact .nil
            · exact hread
          exact rowsBeside_counterparts (hσ.vocabulary hρ) (h.header.mono hσ) hitems' hread hkept

/-! ## Groups -/

theorem eq_keyOf_of_groupKey {key : List Value} (h : groupKey groupBy r = .ok key) :
    key = keyOf groupBy r := by
  have hvalues := congrArg (List.map (Option.getD · .null)) (groupKey_eq_ok_iff.mp h)
  rw [List.map_map, List.map_map] at hvalues
  exact ((List.map_id key).symm.trans hvalues.symm)

/-- Groups of two runs: one key, whose cells go with the items to group by, and the contributions of
counterparts. -/
structure GroupsAlike (ρ : Runs) (leaves : List FromItem) (d d' : RowSet)
    (groupBy groupBy' aggregates aggregates' : List Item) (g g' : Group) : Prop where
  key : g.key = g'.key
  cells : Row.CellsAlike leaves groupBy groupBy' g.key g'.key
  rows : ∃ rows rows', List.Forall₂ (Row.Counterparts ρ leaves d.header d'.header) rows rows' ∧
    g.rows = rows.map (fun row => aggregates.map (inputOf · row)) ∧
      g'.rows = rows'.map fun row => aggregates'.map (inputOf · row)

section Grouping

variable (hρ : IsVocabulary ρ.known) (h : d.Counterparts ρ leaves d')
  (hgroupBy : AllCounterparts ρ leaves groupBy groupBy')
  (haggregates : ShareSenses ρ leaves aggregates aggregates')

include hρ h hgroupBy

/-- Counterparts have one key. -/
theorem groupKey_counterparts (hr : Row.Counterparts ρ leaves d.header d'.header r r') :
    Alongside (fun key key' => key = key' ∧ Row.CellsAlike leaves groupBy groupBy' key key')
      (groupKey groupBy r) (groupKey groupBy' r') := by
  have hcells : Row.CellsAlike leaves groupBy groupBy'
      (groupBy.map fun g => (r.evaluate? g).getD .null)
      (groupBy'.map fun g => (r'.evaluate? g).getD .null) :=
    Row.cellsAlike_map hgroupBy.shareSenses fun _ _ _ _ hg => by
      rw [hr.evaluate?_eq hρ h.header hg.asked]
  have hkeys : Alongside (List.Forall₂ Eq) (groupKey groupBy r) (groupKey groupBy' r') := by
    refine Alongside.mapM hgroupBy fun g g' hg => ?_
    rw [hr.evaluate?_eq hρ h.header hg.asked]
    cases r'.evaluate? g' with
    | some v => exact .ok rfl
    | none => exact .error _ _
  generalize hleft : groupKey groupBy r = key, hright : groupKey groupBy' r' = key' at hkeys ⊢
  cases hkeys with
  | error e e' => exact .error e e'
  | ok heq =>
    refine .ok ⟨List.forall₂_eq_eq_eq ▸ heq, ?_⟩
    rw [eq_keyOf_of_groupKey hleft, eq_keyOf_of_groupKey hright]
    exact hcells

omit hρ h hgroupBy in
/-- One more row goes into groups at one place in both runs. -/
theorem forall₂_addToGroups {groups groups' : List Group} {key : List Value}
    (hgroups : List.Forall₂ (GroupsAlike ρ leaves d d' groupBy groupBy' aggregates aggregates') groups
      groups') (hcells : Row.CellsAlike leaves groupBy groupBy' key key)
    (hr : Row.Counterparts ρ leaves d.header d'.header r r') :
    List.Forall₂ (GroupsAlike ρ leaves d d' groupBy groupBy' aggregates aggregates')
      (addToGroups key (aggregates.map (inputOf · r)) groups)
      (addToGroups key (aggregates'.map (inputOf · r')) groups') := by
  induction hgroups with
  | nil => exact .cons ⟨rfl, hcells, [r], [r'], .cons hr .nil, rfl, rfl⟩ .nil
  | @cons g g' _ _ hg hrest ih =>
    unfold addToGroups
    rw [hg.key]
    split
    · obtain ⟨rows, rows', hrows, hleft, hright⟩ := hg.rows
      refine .cons ⟨rfl, hg.key ▸ hg.cells, r :: rows, r' :: rows', .cons hr hrows, ?_, ?_⟩ hrest
      · exact congrArg (_ :: ·) hleft
      · exact congrArg (_ :: ·) hright
    · exact .cons hg ih

include haggregates

theorem groupRow_counterparts {groups groups' : List Group}
    (hgroups : List.Forall₂ (GroupsAlike ρ leaves d d' groupBy groupBy' aggregates aggregates') groups
      groups') (hr : Row.Counterparts ρ leaves d.header d'.header r r') :
    Alongside (List.Forall₂ (GroupsAlike ρ leaves d d' groupBy groupBy' aggregates aggregates'))
      (groupRow groupBy aggregates groups r) (groupRow groupBy' aggregates' groups' r') := by
  unfold groupRow
  refine (groupKey_counterparts hρ h hgroupBy hr).bind ?_
  rintro key _ ⟨rfl, hcells⟩
  refine (contributions_counterparts hρ h.header haggregates hr).bind ?_
  rintro values values' ⟨rfl, rfl⟩
  exact .ok (forall₂_addToGroups hgroups hcells hr)

/-- The rows of groups: keys and aggregates side by side. -/
theorem GroupsAlike.toRow {g g' : Group}
    (hg : GroupsAlike ρ leaves d d' groupBy groupBy' aggregates aggregates' g g')
    (hapart : Item.Apart leaves groupBy aggregates) :
    Row.Counterparts ρ leaves (groupBy ++ aggregates) (groupBy' ++ aggregates')
      (g.toRow (groupBy ++ aggregates) aggregates) (g'.toRow (groupBy' ++ aggregates') aggregates') := by
  obtain ⟨rows, rows', hrows, hleft, hright⟩ := hg.rows
  unfold Group.toRow
  rw [hleft, hright, ← List.map_reverse, ← List.map_reverse, aggregateAll_inputs, aggregateAll_inputs]
  refine Row.counterparts_of_cells (hgroupBy.shareSenses.append haggregates) ?_ none none
  refine hg.cells.append hgroupBy.shareSenses haggregates hapart ?_
  refine Row.cellsAlike_map haggregates fun a _ a' _ hpair => ?_
  exact aggregateOver_counterparts hρ h.header (List.rel_reverse hrows) hpair.asked

omit haggregates in
/-- **Groups of counterparts**, if no item to group by is an aggregate. -/
theorem follows_grouped (hitems : ShareSenses ρ leaves items items')
    (hplain : ∀ g ∈ groupBy, g.aggregate? = none) :
    Follows ρ (fun σ e e' => e.Counterparts σ leaves e' ∧
        e.header.map (sense leaves) = items.map (sense leaves) ∧
        e'.header.map (sense leaves) = items'.map (sense leaves))
      (d.grouped items groupBy) (d'.grouped items' groupBy') := by
  unfold grouped
  cases hcomputed : aggregatesOf items with
  | error e => exact follows_of_failure fun _ _ _ => run_bind_throw_ne_ok
  | ok aggregates =>
    have haggregates := shareSenses_aggregatesAmong hρ hitems
    rw [aggregatesOf_counterparts hitems hcomputed]
    obtain rfl := aggregatesOf_eq_ok hcomputed
    dsimp only
    split
    next => exact follows_of_failure fun _ _ _ => run_bind_throw_ne_ok
    next hfind =>
      have hheader := hgroupBy.shareSenses.append haggregates
      rw [find?_unreadable_counterparts hρ hheader hitems hfind]
      refine (follows_foldRows h (fun _ _ _ _ hgroups hr =>
        groupRow_counterparts hρ h hgroupBy haggregates hgroups hr) .nil).bind
          fun σ hσ groups groups' hgroups => ?_
      have hapart : Item.Apart leaves groupBy (aggregatesAmong items) := by
        intro x hx y hy hsense
        have hsome := (mem_of_mem_aggregatesAmong hy).2
        rw [← Item.aggregate?_sense leaves, ← hsense, Item.aggregate?_sense, hplain x hx] at hsome
        cases hsome
      refine follows_selection (hσ.vocabulary hρ) (counterparts_ofRows (hheader.mono hσ) ?_)
        (hitems.mono hσ)
      exact List.rel_map (fun g g' hg =>
        (hg.toRow hρ h hgroupBy haggregates hapart).mono hσ) hgroups

end Grouping

/-! ## Unique rows -/

/-- Rows that show values for the senses of a header have these for its items. -/
theorem fits_of_shows {known : Item → Prop} {g : Registry} {env : Item → Value}
    (hknown : IsVocabulary known) (hheader : ∀ x ∈ header, x.IsHeld leaves known g)
    (h : r.Shows leaves known g (header.map (sense leaves)) env) :
    header.map r.evaluate? = r.values.map some ∧ Header.Fits header r.values := by
  have hvalues : r.values = header.map fun x => env (sense leaves x) := by
    rw [h.values, List.map_map]
    rfl
  rw [hvalues, List.map_map]
  refine ⟨List.map_congr_left fun x hx => ?_, Header.fits_map fun x hx y hy hid => ?_⟩
  · rw [h.evaluate? hknown (hheader x hx).asked, Row.valueFor_of_mem (List.mem_map_of_mem hx)]
    rfl
  · have hmeaning := (hheader x hx).meaning_of_id (hheader y hy).asked hid
    exact congrArg env (Item.sense_congr hmeaning)

theorem exists_yields_of_grouped {e : RowSet} {l k : Ledger}
    (hrun : (d.grouped items groupBy).run l = (.ok e, k)) : ∃ rows, d.Yields rows := by
  unfold grouped at hrun
  split at hrun
  · exact absurd hrun run_bind_throw_ne_ok
  · dsimp only at hrun
    split at hrun
    · exact absurd hrun run_bind_throw_ne_ok
    · obtain ⟨groups, _, hfold, -⟩ := run_bind_eq_ok hrun
      obtain ⟨rows, hd, -⟩ := foldRows_eq_ok hfold
      exact ⟨rows, hd⟩

/-- The aggregates of a header can be computed in both runs or in neither. -/
theorem exists_contributions_counterparts (hρ : IsVocabulary ρ.known)
    (hheader : ShareSenses ρ leaves header header')
    (hrows : List.Forall₂ (Row.Counterparts ρ leaves header header') rows rows')
    (h : ∀ r ∈ rows, ∃ values, contributions (aggregatesAmong header) r = .ok values) :
    ∀ r' ∈ rows', ∃ values, contributions (aggregatesAmong header') r' = .ok values := by
  intro r' hr'
  obtain ⟨r, hr, hpair⟩ := exists_of_mem_forall₂ hrows.flip hr'
  obtain ⟨values, hvalues⟩ := h r hr
  have halong := contributions_counterparts hρ hheader (shareSenses_aggregatesAmong hρ hheader) hpair
  rw [hvalues] at halong
  obtain ⟨values', hvalues', -⟩ := halong.exists_of_ok
  exact ⟨values', hvalues'⟩

/-- **Unique rows of counterparts** with one sense at each place. -/
theorem follows_distinct (hρ : IsVocabulary ρ.known) (h : d.Counterparts ρ leaves d')
    (hheader : d.header.map (sense leaves) = d'.header.map (sense leaves)) :
    Follows ρ (fun σ e e' => e.Counterparts σ leaves e' ∧ e.header = d.header ∧ e'.header = d'.header)
      d.distinct d'.distinct := by
  intro l l' e k hl hl' hrun
  obtain ⟨rows, hd⟩ := exists_yields_of_grouped hrun
  obtain ⟨rows', hd', hrows⟩ := h.yields hd
  have hfits : ∀ r ∈ rows, d.header.map r.evaluate? = r.values.map some ∧
      Header.Fits d.header r.values := by
    intro r hr
    obtain ⟨r', -, env, hshows, -⟩ := exists_of_mem_forall₂ hrows hr
    exact fits_of_shows hρ h.header.left hshows
  have hfits' : ∀ r' ∈ rows', d'.header.map r'.evaluate? = r'.values.map some ∧
      Header.Fits d'.header r'.values := by
    intro r' hr'
    obtain ⟨r, -, env, -, hshows⟩ := exists_of_mem_forall₂ hrows.flip hr'
    exact fits_of_shows hρ h.header.right hshows
  have hcells {r r' : Row} (hr : Row.Counterparts ρ leaves d.header d'.header r r') :
      r.values = r'.values := by
    obtain ⟨env, hleft, hright⟩ := hr
    rw [hleft.values, hright.values, hheader]
  obtain ⟨aggregates, haggregates, hcontributed⟩ :=
    contributions_of_gives_distinct hd (⟨e, k, hrun, trivial⟩ : d.distinct.Gives l fun _ _ => True)
  have hcontributed' := exists_contributions_counterparts hρ h.header hrows
    (aggregatesOf_eq_ok haggregates ▸ hcontributed)
  obtain ⟨hnext, heheader, heyields⟩ := (gives_distinct hd (fun r hr => (hfits r hr).1)
    (fun r hr => (hfits r hr).2) haggregates hcontributed l).of_run hrun
  refine (gives_distinct hd' (fun r hr => (hfits' r hr).1) (fun r hr => (hfits' r hr).2)
    (aggregatesOf_counterparts h.header haggregates) hcontributed' l').mono ?_
  rintro e' k' ⟨hnext', heheader', heyields'⟩
  have hkeys : rows.map Row.values = rows'.map Row.values :=
    map_eq_map_of_forall₂ hrows fun r _ r' hr => hcells hr
  rw [← hkeys] at heyields'
  refine ⟨ρ, .refl ρ, ⟨by omega, by omega⟩, ⟨?_, ?_⟩, heheader, heheader'⟩
  · rw [heheader, heheader']
    exact h.header
  · rw [heyields, heyields', heheader, heheader', List.map_map, List.map_map,
      List.forall₂_map_left_iff, List.forall₂_map_right_iff, List.forall₂_same]
    intro key hkey
    obtain ⟨r, hr, rfl⟩ := List.mem_map.mp (Value.mem_of_mem_firstOccurrences hkey)
    obtain ⟨r', -, hpair⟩ := exists_of_mem_forall₂ hrows hr
    refine .ok (Row.counterparts_of_cells h.header ?_ none none)
    have hboth := hpair.cells
    rwa [← hcells hpair] at hboth

end RowSet

end DocQuery
