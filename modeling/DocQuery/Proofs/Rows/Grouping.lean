import DocQuery.Proofs.Rows.Aggregating
import DocQuery.Proofs.Rows.Reshaping
import Mathlib

/-!
# DocQuery.Proofs.Rows.Grouping — what grouping gives

Rows with one key are a group.  After any number of rows, the groups are those of the keys so far, in
the order in which the keys first appeared, each with its rows so far (`RowSet.foldlM_groupRow_eq`),
and one more row adds itself to its group alone.  A selection then takes the cells of each group from
places of the select items (`RowSet.gives_grouped`), which are the right ones unless two items to
group by that differ count as one (`RowSet.grouped_conflated`).
-/

namespace DocQuery

namespace RowSet

open Plan

/-! ## Groups of rows -/

/-- The values of the items that a row is grouped by. -/
def keyOf (groupBy : List Item) (row : Row) : List Value :=
  groupBy.map fun g => (row.evaluate? g).getD .null

/-- The rows with a key, in their order. -/
def membersOf (groupBy : List Item) (rows : List Row) (key : List Value) : List Row :=
  rows.filter fun row => keyOf groupBy row == key

theorem addKey_cons_of_not {k key : List Value} (h : ¬ Value.allMatch k key = true)
    (rest : List (List Value)) : Value.addKey (k :: rest) key = k :: Value.addKey rest key := by
  unfold Value.addKey
  rw [List.any_cons, Bool.eq_false_iff.mpr h, Bool.false_or]
  split <;> rfl

/-- One more row is added to the group of its key, which is a new last one if there was none. -/
theorem addToGroups_map {keys : List (List Value)} {key contributed : List Value}
    {rowsOf : List Value → List (List Value)} (hkeys : ∀ k ∈ keys, ∀ v ∈ k, v.IsDiscrete)
    (hkey : ∀ v ∈ key, v.IsDiscrete) (hnodup : keys.Nodup) (hnew : key ∉ keys → rowsOf key = []) :
    addToGroups key contributed (keys.map fun k => ⟨k, rowsOf k⟩) =
      (Value.addKey keys key).map fun k =>
        ⟨k, if key == k then contributed :: rowsOf k else rowsOf k⟩ := by
  have hself : (key == key) = true := (Value.beq_iff_of_isDiscrete hkey hkey).mpr rfl
  induction keys with
  | nil =>
    show [Group.mk key [contributed]] = [⟨key, if key == key then _ else _⟩]
    rw [if_pos hself, hnew List.not_mem_nil]
  | cons k rest ih =>
    rw [List.forall_mem_cons] at hkeys
    rw [List.nodup_cons] at hnodup
    rw [List.map_cons, addToGroups]
    by_cases hmatch : Value.allMatch k key = true
    · obtain rfl := (Value.allMatch_iff_of_isDiscrete hkeys.1 hkey).mp hmatch
      have hothers : rest.map (fun k => (⟨k, rowsOf k⟩ : Group)) = rest.map fun k' =>
          ⟨k', if k == k' then contributed :: rowsOf k' else rowsOf k'⟩ := by
        refine List.map_congr_left fun k' hk' => ?_
        rw [if_neg fun heq => hnodup.1 ?_]
        rwa [(Value.beq_iff_of_isDiscrete hkey (hkeys.2 k' hk')).mp heq]
      have hany : (k :: rest).any (Value.allMatch · k) = true := by
        rw [List.any_cons, hmatch, Bool.true_or]
      rw [if_pos hmatch, Value.addKey, if_pos hany, List.map_cons, if_pos hself, hothers]
    · have hne : ¬ (key == k) = true := fun heq => hmatch
        ((Value.allMatch_iff_of_isDiscrete hkeys.1 hkey).mpr
          ((Value.beq_iff_of_isDiscrete hkey hkeys.1).mp heq).symm)
      have hnewRest : key ∉ rest → rowsOf key = [] := by
        intro hrest
        refine hnew fun hmem => ?_
        rcases List.mem_cons.mp hmem with rfl | hmem
        · exact hne hself
        · exact hrest hmem
      rw [if_neg hmatch, addKey_cons_of_not hmatch, List.map_cons, if_neg hne,
        ih hkeys.2 hnodup.2 hnewRest]

theorem nodup_firstOccurrences {keys : List (List Value)}
    (h : ∀ key ∈ keys, ∀ v ∈ key, v.IsDiscrete) : (Value.firstOccurrences keys).Nodup := by
  have hpairs : (Value.firstOccurrences keys).Pairwise fun a b => Value.allMatch a b = false :=
    pairwise_foldl_addNew List.Pairwise.nil
  refine hpairs.imp_of_mem fun {a b} ha hb hdifferent heq => ?_
  have ha := h a (Value.mem_of_mem_firstOccurrences ha)
  rw [← heq, (Value.allMatch_iff_of_isDiscrete ha ha).mpr rfl] at hdifferent
  cases hdifferent

theorem firstOccurrences_append (keys : List (List Value)) (key : List Value) :
    Value.firstOccurrences (keys ++ [key]) = Value.addKey (Value.firstOccurrences keys) key :=
  List.foldl_append

/-- Every key is among the first occurrences. -/
theorem mem_firstOccurrences {keys : List (List Value)}
    (h : ∀ key ∈ keys, ∀ v ∈ key, v.IsDiscrete) {key : List Value} (hkey : key ∈ keys) :
    key ∈ Value.firstOccurrences keys := by
  induction keys using List.reverseRecOn with
  | nil => cases hkey
  | append_singleton keys last ih =>
    rw [List.forall_mem_append, List.forall_mem_singleton] at h
    rw [firstOccurrences_append]
    unfold Value.addKey
    rcases List.mem_append.mp hkey with hkey | hkey
    · split
      · exact ih h.1 hkey
      · exact List.mem_append_left _ (ih h.1 hkey)
    · obtain rfl := List.mem_singleton.mp hkey
      split
      next hany =>
        obtain ⟨k, hk, hmatch⟩ := List.any_eq_true.mp hany
        have hdiscrete := h.1 k (Value.mem_of_mem_firstOccurrences hk)
        exact (Value.allMatch_iff_of_isDiscrete hdiscrete h.2).mp hmatch ▸ hk
      next => exact List.mem_append_right _ List.mem_cons_self

theorem membersOf_append (groupBy : List Item) (rows : List Row) (row : Row) (key : List Value) :
    membersOf groupBy (rows ++ [row]) key =
      membersOf groupBy rows key ++ if keyOf groupBy row == key then [row] else [] := by
  unfold membersOf
  rw [List.filter_append, List.filter_singleton, Bool.cond_eq_ite]

/-- The groups of rows, in the order in which their keys first appear, each with what its rows
contribute, last row first. -/
def groupsOf (groupBy : List Item) (contributed : Row → List Value) (rows : List Row) : List Group :=
  (Value.firstOccurrences (rows.map (keyOf groupBy))).map fun key =>
    ⟨key, ((membersOf groupBy rows key).map contributed).reverse⟩

section Groups

variable {groupBy aggregates : List Item} {contributed : Row → List Value} {rows : List Row}

/-- The groups of rows and of one more. -/
theorem groupsOf_append {row : Row} (hdiscrete : ∀ row ∈ rows, ∀ v ∈ keyOf groupBy row, v.IsDiscrete)
    (hrow : ∀ v ∈ keyOf groupBy row, v.IsDiscrete) :
    groupsOf groupBy contributed (rows ++ [row]) =
      addToGroups (keyOf groupBy row) (contributed row) (groupsOf groupBy contributed rows) := by
  have hkeys : ∀ key ∈ rows.map (keyOf groupBy), ∀ v ∈ key, v.IsDiscrete :=
    List.forall_mem_map.mpr hdiscrete
  unfold groupsOf
  rw [@addToGroups_map _ _ _ (fun key => ((membersOf groupBy rows key).map contributed).reverse)
    (fun key hmem => hkeys key (Value.mem_of_mem_firstOccurrences hmem)) hrow
    (nodup_firstOccurrences hkeys), List.map_append, List.map_singleton, firstOccurrences_append]
  · refine List.map_congr_left fun key _ => ?_
    rw [membersOf_append]
    split <;> simp
  · -- A key that is not there yet has no rows.
    intro hnew
    have hnone : membersOf groupBy rows (keyOf groupBy row) = [] := by
      refine List.filter_eq_nil_iff.mpr fun r hr heq => hnew ?_
      rw [← (Value.beq_iff_of_isDiscrete (hdiscrete r hr) hrow).mp heq]
      exact mem_firstOccurrences hkeys (List.mem_map_of_mem hr)
    rw [hnone]
    rfl

/-- **After any number of rows, the groups are those of the rows so far.** -/
theorem foldlM_groupRow_eq
    (hkey : ∀ row ∈ rows, groupKey groupBy row = .ok (keyOf groupBy row))
    (hcontributed : ∀ row ∈ rows, contributions aggregates row = .ok (contributed row))
    (hdiscrete : ∀ row ∈ rows, ∀ v ∈ keyOf groupBy row, v.IsDiscrete) :
    rows.foldlM (groupRow groupBy aggregates) [] = .ok (groupsOf groupBy contributed rows) := by
  induction rows using List.reverseRecOn with
  | nil => rfl
  | append_singleton rows row ih =>
    rw [List.forall_mem_append, List.forall_mem_singleton] at hkey hcontributed hdiscrete
    rw [List.foldlM_append, ih hkey.1 hcontributed.1 hdiscrete.1,
      groupsOf_append hdiscrete.1 hdiscrete.2]
    show (List.foldlM _ _ [row] : Except _ _) = _
    rw [List.foldlM_cons, groupRow, hkey.2, hcontributed.2]
    rfl

/-- One more row makes one group larger by one. -/
theorem sum_length_addToGroups (key contributed : List Value) (groups : List Group) :
    ((addToGroups key contributed groups).map (·.rows.length)).sum =
      (groups.map (·.rows.length)).sum + 1 := by
  induction groups with
  | nil => rfl
  | cons g rest ih =>
    unfold addToGroups
    split
    · rw [List.map_cons, List.map_cons, List.sum_cons, List.sum_cons, List.length_cons]
      omega
    · rw [List.map_cons, List.map_cons, List.sum_cons, List.sum_cons, ih]
      omega

/-- **Every row is in one group.** -/
theorem sum_length_membersOf (hdiscrete : ∀ row ∈ rows, ∀ v ∈ keyOf groupBy row, v.IsDiscrete) :
    ((Value.firstOccurrences (rows.map (keyOf groupBy))).map fun key =>
      (membersOf groupBy rows key).length).sum = rows.length := by
  have hgroups : ((groupsOf groupBy (fun _ => []) rows).map (·.rows.length)).sum = rows.length := by
    induction rows using List.reverseRecOn with
    | nil => rfl
    | append_singleton rows row ih =>
      rw [List.forall_mem_append, List.forall_mem_singleton] at hdiscrete
      rw [groupsOf_append hdiscrete.1 hdiscrete.2, sum_length_addToGroups, ih hdiscrete.1,
        List.length_append, List.length_singleton]
  unfold groupsOf at hgroups
  rw [List.map_map] at hgroups
  refine Eq.trans (congrArg List.sum (List.map_congr_left fun key _ => ?_)) hgroups
  simp

end Groups

/-! ## Grouping a data set -/

/-- A row of a group: for every select item the cell of the key that it names, or its aggregate of
the rows with that key. -/
structure IsGroup (groupBy items : List Item) (rows : List Row) (key : List Value) (row : Row) :
    Prop where
  length : row.values.length = items.length
  keys : ∀ (k n : Nat) (i g : Item), items[k]? = some i → groupBy[n]? = some g →
    Header.Names g i → row.values[k]? = key[n]?
  aggregates : ∀ (k : Nat) (i : Item), items[k]? = some i → i.aggregate?.isSome = true →
    row.values[k]? = some (aggregateOver i (membersOf groupBy rows key))
  counts : ∀ (k : Nat) (i : Item), items[k]? = some i → i.isCountAll = true →
    row.values[k]? = some (.integer (Int64.ofNat (membersOf groupBy rows key).length))

/-- One row for each key in the order in which the keys first appear, and every given row in one
group. -/
structure IsGrouping (groupBy items : List Item) (rows grouped : List Row) : Prop where
  groups : List.Forall₂ (IsGroup groupBy items rows) (rows.map (keyOf groupBy)).eraseDups grouped
  total : ((rows.map (keyOf groupBy)).eraseDups.map fun key =>
    (membersOf groupBy rows key).length).sum = rows.length

/-- What a select list over groups consists of: items to group by, and aggregates that read nothing or
what every row has.  Items have an identity in common as copies only. -/
structure SelectsGroups (groupBy items : List Item) (rows : List Row) : Prop where
  plain : ∀ g ∈ groupBy, g.aggregate? = none
  readable : ∀ g ∈ groupBy, ∀ row ∈ rows, Header.isReadable row.header g = true
  selected : ∀ i ∈ items, (∃ g ∈ groupBy, Header.Names g i) ∨
    i.aggregate?.isSome = true ∧
      (i.isCountAll = true ∨ ∀ row ∈ rows, Header.isReadable row.header i.bare = true)
  copies : Header.SharesCopies groupBy items

/-- Items that one select item counts as have one value in every row, and one input if they are
aggregates. -/
structure IsUnambiguous (groupBy items : List Item) (rows : List Row) : Prop where
  keys : ∀ i ∈ items, ∀ g ∈ groupBy, ∀ g' ∈ groupBy, Header.Names g i → Header.Names g' i →
    ∀ row ∈ rows, row.evaluate? g = row.evaluate? g'
  inputs : ∀ i ∈ items, ∀ j ∈ items, i.aggregate?.isSome = true → Item.sameAs true j i = true →
    ∀ row ∈ rows, inputOf j row = inputOf i row

section Grouped

variable {d : RowSet} {groupBy items : List Item} {rows : List Row}

theorem groupKey_eq_keyOf {row : Row}
    (h : ∀ g ∈ groupBy, Header.isReadable row.header g = true) :
    groupKey groupBy row = .ok (keyOf groupBy row) := by
  refine groupKey_eq_ok_iff.mpr ?_
  unfold keyOf
  rw [List.map_map]
  refine List.map_congr_left fun g hg => ?_
  obtain ⟨v, hv⟩ := Option.isSome_iff_exists.mp (Row.isSome_evaluate?_iff.trans (h g hg))
  show row.evaluate? g = some ((row.evaluate? g).getD .null)
  rw [hv]
  rfl

theorem aggregate?_of_names (h : SelectsGroups groupBy items rows) {x i : Item}
    (hx : x ∈ groupBy ++ items) (hi : i ∈ items) (hnames : Header.Names x i) :
    x.aggregate? = i.aggregate? := by
  rcases hnames with hid | hsame
  · have hcopy : x.withoutAlias.aggregate? = i.withoutAlias.aggregate? := by
      rw [h.copies x hx i hi hid]
    exact hcopy
  · exact Item.aggregate?_of_sameAs hsame

theorem mem_of_mem_aggregatesAmong {i : Item} (h : i ∈ aggregatesAmong items) :
    i ∈ items ∧ i.aggregate?.isSome = true := by
  rcases Item.mem_of_mem_foldl_pushNew h with hnil | hmem
  · cases hnil
  · exact List.mem_filter.mp hmem

/-- Every select item is named among the items to group by and the aggregates. -/
theorem SelectsGroups.exists_names (h : SelectsGroups groupBy items rows) {i : Item}
    (hi : i ∈ items) : ∃ x ∈ groupBy ++ aggregatesAmong items, Header.Names x i := by
  rcases h.selected i hi with ⟨g, hg, hnames⟩ | ⟨haggregate, -⟩
  · exact ⟨g, List.mem_append_left _ hg, hnames⟩
  · have hmem : i ∈ items.filter (·.aggregate?.isSome) := List.mem_filter.mpr ⟨hi, haggregate⟩
    obtain ⟨j, hj, rfl | hsame⟩ := Item.exists_mem_foldl_pushNew hmem
    · exact ⟨j, List.mem_append_right _ hj, Or.inl rfl⟩
    · exact ⟨j, List.mem_append_right _ hj, Or.inr hsame⟩

/-- A cell of a group comes from an item to group by that names the select item, or from an aggregate
that does. -/
theorem cell_of_takenFrom (h : SelectsGroups groupBy items rows) {row row' : Row}
    {results : Item → Value}
    (htaken : TakenFrom (groupBy ++ aggregatesAmong items) items
      ⟨groupBy ++ aggregatesAmong items, keyOf groupBy row ++ (aggregatesAmong items).map results, none⟩
      row') {k : Nat} {i : Item} (hi : items[k]? = some i) :
    (i.aggregate? = none ∧ ∃ g ∈ groupBy, Header.Names g i ∧
      row'.values[k]? = some ((row.evaluate? g).getD .null)) ∨
    (i.aggregate?.isSome = true ∧ ∃ j ∈ items, Header.Names j i ∧
      row'.values[k]? = some (results j)) := by
  have hmem := List.mem_of_getElem? hi
  obtain ⟨n, hplace, hcell⟩ := htaken.cells k i hi
  obtain ⟨x, hx, hnames⟩ := hplace.names (h.exists_names hmem)
  unfold Row.value at hcell
  rcases Nat.lt_or_ge n groupBy.length with hlt | hge
  · rw [List.getElem?_append_left hlt] at hx
    have hg := List.mem_of_getElem? hx
    refine Or.inl ⟨?_, x, hg, hnames, ?_⟩
    · rw [← aggregate?_of_names h (List.mem_append_left _ hg) hmem hnames]
      exact h.plain x hg
    · rw [hcell]
      unfold keyOf
      rw [List.getElem?_append_left (by rwa [List.length_map]), List.getElem?_map, hx]
      rfl
  · rw [List.getElem?_append_right hge] at hx
    obtain ⟨hj, haggregate⟩ := mem_of_mem_aggregatesAmong (List.mem_of_getElem? hx)
    refine Or.inr ⟨?_, x, hj, hnames, ?_⟩
    · rw [← aggregate?_of_names h (List.mem_append_right _ hj) hmem hnames]
      exact haggregate
    · have hlength : (keyOf groupBy row).length = groupBy.length := List.length_map _
      rw [hcell, List.getElem?_append_right (hlength ▸ hge), hlength, List.getElem?_map, hx]
      rfl

/-- Aggregates that count as one are one over rows in which they have one input. -/
theorem aggregateOver_of_names (h : SelectsGroups groupBy items rows)
    (hclear : IsUnambiguous groupBy items rows) {i j : Item} (hi : i ∈ items) (hj : j ∈ items)
    (haggregate : i.aggregate?.isSome = true) (hnames : Header.Names j i) {members : List Row}
    (hmembers : members ⊆ rows) : aggregateOver j members = aggregateOver i members := by
  rcases hnames with hid | hsame
  · have hcopy : aggregateOver j.withoutAlias members = aggregateOver i.withoutAlias members := by
      rw [h.copies j (List.mem_append_right _ hj) i hi hid]
    exact hcopy
  · have hinputs : members.map (inputOf j) = members.map (inputOf i) :=
      List.map_congr_left fun row hrow => hclear.inputs i hi j hj haggregate hsame row (hmembers hrow)
    unfold aggregateOver
    rw [Item.aggregate?_of_sameAs hsame, hinputs]

/-- The row of a group, shaped into the select items. -/
theorem isGroup_of_takenFrom (h : SelectsGroups groupBy items rows)
    (hclear : IsUnambiguous groupBy items rows) {row row' : Row} (hrow : row ∈ rows)
    (htaken : TakenFrom (groupBy ++ aggregatesAmong items) items
      ⟨groupBy ++ aggregatesAmong items, keyOf groupBy row ++
        (aggregatesAmong items).map (aggregateOver · (membersOf groupBy rows (keyOf groupBy row))),
        none⟩ row') : IsGroup groupBy items rows (keyOf groupBy row) row' := by
  have haggregates : ∀ (k : Nat) (i : Item), items[k]? = some i → i.aggregate?.isSome = true →
      row'.values[k]? = some (aggregateOver i (membersOf groupBy rows (keyOf groupBy row))) := by
    intro k i hi haggregate
    rcases cell_of_takenFrom h htaken hi with ⟨hnone, -⟩ | ⟨-, j, hj, hnames, hcell⟩
    · rw [hnone] at haggregate
      cases haggregate
    · have hmembers : membersOf groupBy rows (keyOf groupBy row) ⊆ rows := List.filter_subset_self _
      rw [hcell, aggregateOver_of_names h hclear (List.mem_of_getElem? hi) hj haggregate hnames
        hmembers]
  refine ⟨htaken.length, fun k n i g hi hg hnames => ?_, haggregates, fun k i hi hcount => ?_⟩
  · have hmem := List.mem_of_getElem? hi
    have hgmem := List.mem_of_getElem? hg
    have hkey : (keyOf groupBy row)[n]? = some ((row.evaluate? g).getD .null) := by
      unfold keyOf
      rw [List.getElem?_map, hg]
      rfl
    rcases cell_of_takenFrom h htaken hi with ⟨-, g', hg', hnames', hcell⟩ | ⟨haggregate, -⟩
    · rw [hcell, hkey, hclear.keys i hmem g' hg' g hgmem hnames' hnames row hrow]
    · rw [← aggregate?_of_names h (List.mem_append_left _ hgmem) hmem hnames, h.plain g hgmem]
        at haggregate
      cases haggregate
  · have haggregate : i.aggregate?.isSome = true := by
      rw [Item.aggregate?_of_isCountAll hcount]
      rfl
    rw [haggregates k i hi haggregate, aggregateOver_of_isCountAll hcount]

/-- Every row has what the aggregates read. -/
theorem contributions_aggregatesAmong (h : SelectsGroups groupBy items rows) {row : Row}
    (hrow : row ∈ rows) : contributions (aggregatesAmong items) row =
      .ok ((aggregatesAmong items).map (inputOf · row)) := by
  have hread : ∀ a ∈ aggregatesAmong items,
      a.isCountAll = true ∨ Header.isReadable row.header a.bare = true := by
    intro a ha
    obtain ⟨hmem, haggregate⟩ := mem_of_mem_aggregatesAmong ha
    rcases h.selected a hmem with ⟨g, hg, hnames⟩ | ⟨-, hread⟩
    · rw [← aggregate?_of_names h (List.mem_append_left _ hg) hmem hnames, h.plain g hg] at haggregate
      cases haggregate
    · exact hread.imp_right fun hread => hread row hrow
  obtain ⟨values, hvalues⟩ := exists_contributions_iff.mpr hread
  rw [hvalues, contributions_eq_ok hvalues]

/-- The rows that grouping collects: for each key the cells of the key, and the aggregates of the rows
that have it. -/
theorem map_toRow_groupsOf (header aggregates : List Item) :
    (groupsOf groupBy (fun row => aggregates.map (inputOf · row)) rows).map
        (·.toRow header aggregates) =
      (Value.firstOccurrences (rows.map (keyOf groupBy))).map fun key =>
        ⟨header, key ++ aggregates.map (aggregateOver · (membersOf groupBy rows key)), none⟩ := by
  unfold groupsOf
  rw [List.map_map]
  refine List.map_congr_left fun key _ => ?_
  show Row.mk header (key ++ aggregateAll aggregates (List.reverse (List.reverse _))) none = _
  rw [List.reverse_reverse, aggregateAll_inputs]

/-- **Groups are shaped into the select items one by one.** -/
theorem gives_selection_groups (h : SelectsGroups groupBy items rows)
    (hclear : IsUnambiguous groupBy items rows)
    (hdiscrete : ∀ row ∈ rows, ∀ v ∈ keyOf groupBy row, v.IsDiscrete) (l : Ledger) :
    ((ofRows (groupBy ++ aggregatesAmong items)
      ((Value.firstOccurrences (rows.map (keyOf groupBy))).map fun key =>
        ⟨groupBy ++ aggregatesAmong items, key ++ (aggregatesAmong items).map
          (aggregateOver · (membersOf groupBy rows key)), none⟩)).selection items).Gives l
      fun d' _ => Header.Matches d'.header items ∧
        ∃ grouped, d'.Yields grouped ∧ IsGrouping groupBy items rows grouped := by
  have hkeys : ∀ key ∈ rows.map (keyOf groupBy), ∀ v ∈ key, v.IsDiscrete :=
    List.forall_mem_map.mpr hdiscrete
  have hkept : ∀ key ∈ Value.firstOccurrences (rows.map (keyOf groupBy)),
      ∃ row ∈ rows, keyOf groupBy row = key :=
    fun key hkey => List.mem_map.mp (Value.mem_of_mem_firstOccurrences hkey)
  refine (gives_taken _ items l (fun i hi => ?_) ?_).mono ?_
  · obtain ⟨x, hx, hnames⟩ := h.exists_names hi
    exact Header.exists_find?_of_mem hx hnames
  · refine Stream.every_ofRows (List.forall_mem_map.mpr fun key hkey => ⟨rfl, ?_⟩)
    obtain ⟨row, -, rfl⟩ := hkept key hkey
    show (_ ++ _ : List Value).length = (_ ++ _ : List Item).length
    rw [List.length_append, List.length_append, List.length_map, keyOf, List.length_map]
  · rintro d' _ ⟨-, hshaped⟩
    refine ⟨?_, ?_⟩
    · rcases hshaped.header with heq | ⟨hlayout, heq⟩
      · exact Or.inl heq
      · exact Or.inr (heq ▸ hlayout)
    · obtain ⟨grouped, hgrouped, htaken⟩ := hshaped.rows.yields (yields_ofRows _ _)
      refine ⟨grouped, hgrouped, ?_, ?_⟩
      · rw [← Value.firstOccurrences_eq_eraseDups hkeys]
        rw [List.forall₂_map_left_iff] at htaken
        refine ((List.forall₂_and_left _ _).mpr ⟨hkept, htaken⟩).imp fun key row' hrow' => ?_
        obtain ⟨⟨row, hrow, rfl⟩, htaken⟩ := hrow'
        exact isGroup_of_takenFrom h hclear hrow htaken
      · rw [← Value.firstOccurrences_eq_eraseDups hkeys]
        exact sum_length_membersOf hdiscrete

end Grouped

/-- Aggregates of columns and of what subqueries select are computed. -/
theorem aggregatesOf_of_no_expression {items : List Item}
    (h : ∀ i ∈ items, i.aggregate?.isSome = true → i.expression? = none) :
    aggregatesOf items = .ok (aggregatesAmong items) := by
  have hfind : (items.filter (·.aggregate?.isSome)).find? (·.expression?.isSome) = none := by
    refine List.find?_eq_none.mpr fun i hi => ?_
    obtain ⟨hmem, haggregate⟩ := List.mem_filter.mp hi
    rw [h i hmem haggregate]
    exact Bool.false_ne_true
  unfold aggregatesOf
  dsimp only
  rw [hfind]
  rfl

/-- Aggregates of expressions are refused. -/
theorem aggregatesOf_of_expression {items : List Item} {j : Item} (hj : j ∈ items)
    (haggregate : j.aggregate?.isSome = true) (hexpression : j.expression?.isSome = true) :
    ∃ i ∈ items, i.aggregate?.isSome = true ∧ i.expression?.isSome = true ∧
      aggregatesOf items = .error (.aggregatedExpression i.sqlWithoutAlias) := by
  obtain ⟨i, hi⟩ := Option.isSome_iff_exists.mp (List.find?_isSome.mpr
    ⟨j, List.mem_filter.mpr ⟨hj, haggregate⟩, hexpression⟩ :
      ((items.filter (·.aggregate?.isSome)).find? (·.expression?.isSome)).isSome = true)
  obtain ⟨hmem, hi'⟩ := List.mem_filter.mp (List.mem_of_find?_eq_some hi)
  have hexpression' : i.expression?.isSome = true := by simpa using List.find?_some hi
  refine ⟨i, hmem, hi', hexpression', ?_⟩
  unfold aggregatesOf
  dsimp only
  rw [hi]

/-- **Grouping gives one row for each key, in the order in which the keys first appear**, with the
cells of the key and the aggregates of the rows that have it.  Aggregates of expressions are refused.
The keys are of kinds in which each value has one spelling, and no select item counts as two items
that differ. -/
theorem gives_grouped (d : RowSet) (items groupBy : List Item) (rows : List Row) (l : Ledger)
    (hd : d.Yields rows) (hselects : SelectsGroups groupBy items rows)
    (hdiscrete : ∀ row ∈ rows, ∀ v ∈ keyOf groupBy row, v.IsDiscrete)
    (hclear : IsUnambiguous groupBy items rows) :
    ((∀ i ∈ items, i.aggregate?.isSome = true → i.expression? = none) →
      (d.grouped items groupBy).Gives l fun d' _ => Header.Matches d'.header items ∧
        ∃ grouped, d'.Yields grouped ∧ IsGrouping groupBy items rows grouped) ∧
    ((∃ i ∈ items, i.aggregate?.isSome = true ∧ i.expression?.isSome = true) →
      ∃ i ∈ items, i.aggregate?.isSome = true ∧ i.expression?.isSome = true ∧
        (d.grouped items groupBy).answer l = .error (.aggregatedExpression i.sqlWithoutAlias)) := by
  constructor
  · intro hnone
    have hreadable : (items.find? fun i =>
        !Header.isReadable (groupBy ++ aggregatesAmong items) i) = none := by
      refine List.find?_eq_none.mpr fun i hi => ?_
      obtain ⟨x, hx, hnames⟩ := hselects.exists_names hi
      obtain ⟨n, hn⟩ := Header.exists_find?_of_mem hx hnames
      simp [Header.isReadable, Header.resolve?, hn]
    have hgroups := foldlM_groupRow_eq
      (fun row hrow => groupKey_eq_keyOf fun g hg => hselects.readable g hg row hrow)
      (fun row hrow => contributions_aggregatesAmong hselects hrow) hdiscrete
    unfold grouped
    rw [aggregatesOf_of_no_expression hnone]
    dsimp only
    rw [hreadable]
    refine gives_bind (gives_foldRows hd hgroups fun l' _ => ?_)
    rw [map_toRow_groupsOf]
    exact gives_selection_groups hselects hclear hdiscrete l'
  · rintro ⟨j, hj, haggregate, hexpression⟩
    obtain ⟨i, hi, hi', hexpression', haggregates⟩ :=
      aggregatesOf_of_expression hj haggregate hexpression
    refine ⟨i, hi, hi', hexpression', ?_⟩
    unfold grouped
    rw [haggregates]
    exact answer_bind (gives_close fun _ _ => rfl)

/-- A sale in a town, perhaps to a member; town, membership and amount may be missing. -/
def saleRow (town member amount : Value) : Row :=
  ⟨[Item.ofColumn 1 ⟨"town", "t", none, false⟩ none, Item.ofColumn 2 ⟨"member", "t", none, false⟩ none,
    Item.ofColumn 3 ⟨"amount", "t", none, false⟩ none], [town, member, amount], none⟩

/-- Sales by town and membership: their number, the membership, the town under an alias and the sum of
the amounts, and once more the number. -/
theorem gives_grouped_sales :
    let rows := [saleRow (.text "A") (.boolean true) (.integer 2),
      saleRow .null (.boolean true) (.integer 3), saleRow (.text "A") (.boolean true) .null,
      saleRow (.text "A") (.boolean false) (.integer 7)]
    let town := Item.ofColumn 4 ⟨"town", "t", none, false⟩ none
    let member := Item.ofColumn 5 ⟨"member", "t", none, false⟩ none
    let items := [Item.countAll 6, member, town.withAlias "place",
      Item.ofFunction 7 .sum ⟨"amount", "t", none, false⟩ none, Item.countAll 8]
    let d := ofRows (saleRow .null .null .null).header rows
    (SelectsGroups [town, member] items rows ∧
      (∀ row ∈ rows, ∀ v ∈ keyOf [town, member] row, v.IsDiscrete) ∧
      IsUnambiguous [town, member] items rows ∧
      ∀ i ∈ items, i.aggregate?.isSome = true → i.expression? = none) ∧
    (d.grouped items [town, member]).Gives {} fun d' _ => Header.Matches d'.header items ∧
      ∃ grouped, d'.Yields grouped ∧ IsGrouping [town, member] items rows grouped := by
  intro rows town member items d
  have hselects : SelectsGroups [town, member] items rows := by
    refine ⟨by decide, by decide, by decide, fun a ha b hb hid => ?_⟩
    simp only [items, List.cons_append, List.nil_append, List.mem_cons, List.not_mem_nil, or_false]
      at ha hb
    rcases ha with rfl | rfl | rfl | rfl | rfl | rfl | rfl <;>
      rcases hb with rfl | rfl | rfl | rfl | rfl <;> first | rfl | cases hid
  have hdiscrete : ∀ row ∈ rows, ∀ v ∈ keyOf [town, member] row, v.IsDiscrete := by
    intro row hrow v hv
    simp only [rows, List.mem_cons, List.not_mem_nil, or_false] at hrow
    rcases hrow with rfl | rfl | rfl | rfl <;>
      (obtain ⟨g, hg, rfl⟩ := List.mem_map.mp hv
       simp only [List.mem_cons, List.not_mem_nil, or_false] at hg
       rcases hg with rfl | rfl <;> exact trivial)
  have hapart : ∀ i ∈ items, ¬ (Header.Names town i ∧ Header.Names member i) := by decide
  have hclear : IsUnambiguous [town, member] items rows := by
    constructor
    · intro i hi g hg g' hg' hnames hnames' row _
      simp only [List.mem_cons, List.not_mem_nil, or_false] at hg hg'
      rcases hg with rfl | rfl <;> rcases hg' with rfl | rfl
      · rfl
      · exact absurd ⟨hnames, hnames'⟩ (hapart i hi)
      · exact absurd ⟨hnames', hnames⟩ (hapart i hi)
      · rfl
    · intro i hi j hj haggregate hsame row _
      simp only [items, List.mem_cons, List.not_mem_nil, or_false] at hi hj
      rcases hi with rfl | rfl | rfl | rfl | rfl <;> rcases hj with rfl | rfl | rfl | rfl | rfl <;>
        first | rfl | exact absurd hsame (by decide)
  have hexpression : ∀ i ∈ items, i.aggregate?.isSome = true → i.expression? = none := by decide
  exact ⟨⟨hselects, hdiscrete, hclear, hexpression⟩,
    (gives_grouped d items [town, member] rows {} (yields_ofRows _ _) hselects hdiscrete hclear).1
      hexpression⟩

/-- A price that an expression gives, in a town. -/
def priceRow : Row :=
  ⟨[Item.ofColumn 1 ⟨"town", "t", none, false⟩ none,
    { Item.plain 2 (.expression "a + b") none none with aliasName := some "price" }],
    [.text "A", .integer 2], none⟩

/-- The sum of the prices by town is refused, although every row has the price. -/
theorem grouped_refuses_prices :
    let town := Item.ofColumn 3 ⟨"town", "t", none, false⟩ none
    let items := [town, (Item.plain 4 (.expression "a + b") (some .sum) none).withAlias "price"]
    let d := ofRows priceRow.header [priceRow]
    d.Yields [priceRow] ∧ SelectsGroups [town] items [priceRow] ∧
      (∀ v ∈ keyOf [town] priceRow, v.IsDiscrete) ∧
      (d.grouped items [town]).answer {} = .error (.aggregatedExpression "SUM(a + b)") := by
  intro town items d
  refine ⟨yields_ofRows _ _, ⟨by decide, by decide, by decide, ?_⟩, ?_, by rfl⟩
  · intro a ha b hb hid
    simp only [items, List.cons_append, List.nil_append, List.mem_cons, List.not_mem_nil, or_false]
      at ha hb
    rcases ha with rfl | rfl | rfl <;> rcases hb with rfl | rfl <;> first | rfl | cases hid
  · intro v hv
    obtain ⟨g, hg, rfl⟩ := List.mem_map.mp hv
    cases List.mem_singleton.mp hg
    exact trivial

/-- The entries under the two zeros, grouped by and selected in the other order, count as laid out
alike, and each is shown as the other one. -/
theorem grouped_conflated :
    let groupBy := [entry 3 (.integer 0), entry 4 (.float (.zero true))]
    let items := [entry 4 (.float (.zero true)), entry 3 (.integer 0)]
    zerosSet.Yields [zerosRow] ∧ SelectsGroups groupBy items [zerosRow] ∧
      (∀ v ∈ keyOf groupBy zerosRow, v.IsDiscrete) ∧
      (keyOf groupBy zerosRow).map Value.display = ["plus", "minus"] ∧
      items.map (fun i => (zerosRow.evaluate? i).map Value.display) = [some "minus", some "plus"] ∧
      ((zerosSet.grouped items groupBy >>= toRows).answer {}).toOption.map
          (List.map fun row => row.values.map Value.display) = some [["plus", "minus"]] := by
  intro groupBy items
  refine ⟨yields_ofRows _ _, ⟨by decide, by decide +kernel, by decide +kernel, ?_⟩, ?_,
    by decide +kernel, by decide +kernel, by decide +kernel⟩
  · intro a ha b hb hid
    simp only [groupBy, items, List.cons_append, List.nil_append, List.mem_cons, List.not_mem_nil,
      or_false] at ha hb
    rcases ha with rfl | rfl | rfl | rfl <;> rcases hb with rfl | rfl <;> first | rfl | cases hid
  · intro v hv
    obtain ⟨g, hg, rfl⟩ := List.mem_map.mp hv
    simp only [groupBy, List.mem_cons, List.not_mem_nil, or_false] at hg
    rcases hg with rfl | rfl <;> exact trivial

end RowSet

end DocQuery
