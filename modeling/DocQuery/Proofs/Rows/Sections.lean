import DocQuery.Proofs.Rows.Headed
import DocQuery.Proofs.Rows.Join

/-!
# DocQuery.Proofs.Rows.Sections — selecting from a product what its sides offer

A product puts the items of its sides behind each other, and so the values of their rows.  If each
side has the items that are selected of it under their own identity or scope, and none of those that
are selected of another side, then a selection reads every cell in the section of its own side
(`RowSet.Section.gives_selection`).
-/

namespace DocQuery

open Plan

/-! ## Look-ups within a section -/

namespace Header

/-- The place of an item by its identity, or by what it denotes within its scope. -/
def findOwn? (items : List Item) (i : Item) : Option Nat :=
  items.findIdx? (fun c => c.id == i.id) <|> items.findIdx? (Item.sameAs true · i)

/-- No item of a header has the identity of another one or denotes the same within its scope. -/
def Lacks (items : List Item) (i : Item) : Prop :=
  ∀ c ∈ items, c.id ≠ i.id ∧ Item.sameAs true c i = false

variable {items before after : List Item} {i : Item} {n : Nat}

theorem find?_of_findOwn? (h : findOwn? items i = some n) : find? items i = some n := by
  unfold find?
  unfold findOwn? at h
  cases hid : items.findIdx? (fun c => c.id == i.id) with
  | some m =>
    rw [hid] at h
    exact h
  | none =>
    rw [hid] at h
    change items.findIdx? (Item.sameAs true · i) = some n at h
    rw [h]
    rfl

theorem findOwn?_lt (h : findOwn? items i = some n) : n < items.length :=
  find?_lt (find?_of_findOwn? h)

/-- An item is found so if the header has one with its identity, or one that denotes the same. -/
theorem exists_findOwn?_iff :
    (∃ n, findOwn? items i = some n) ↔
      ∃ s ∈ items, s.id = i.id ∨ Item.sameAs true s i = true := by
  unfold findOwn?
  constructor
  · rintro ⟨n, hn⟩
    cases hid : items.findIdx? (fun c => c.id == i.id) with
    | some m =>
      obtain ⟨hm, hsame, -⟩ := List.findIdx?_eq_some_iff_getElem.mp hid
      exact ⟨items[m], List.getElem_mem hm, Or.inl (by simpa using hsame)⟩
    | none =>
      rw [hid] at hn
      change items.findIdx? (Item.sameAs true · i) = some n at hn
      obtain ⟨hn', hsame, -⟩ := List.findIdx?_eq_some_iff_getElem.mp hn
      exact ⟨items[n], List.getElem_mem hn', Or.inr hsame⟩
  · rintro ⟨s, hs, h⟩
    cases hid : items.findIdx? (fun c => c.id == i.id) with
    | some m => exact ⟨m, rfl⟩
    | none =>
      have hne : s.id ≠ i.id := by simpa using List.findIdx?_eq_none_iff.mp hid s hs
      have hsame : (items.findIdx? (Item.sameAs true · i)).isSome = true := by
        rw [List.findIdx?_isSome, List.any_eq_true]
        exact ⟨s, hs, h.resolve_left hne⟩
      exact Option.isSome_iff_exists.mp hsame

theorem Lacks.findIdx?_id (h : Lacks items i) : items.findIdx? (fun c => c.id == i.id) = none :=
  List.findIdx?_eq_none_iff.mpr fun c hc => beq_false_of_ne (h c hc).1

theorem Lacks.findIdx?_sameAs (h : Lacks items i) :
    items.findIdx? (Item.sameAs true · i) = none :=
  List.findIdx?_eq_none_iff.mpr fun c hc => (h c hc).2

theorem Lacks.append (h : Lacks before i) (h' : Lacks after i) : Lacks (before ++ after) i := by
  intro c hc
  rcases List.mem_append.mp hc with hc | hc
  · exact h c hc
  · exact h' c hc

/-- **An item is found in its own section** of a header, if the other sections lack it. -/
theorem findOwn?_section (hbefore : Lacks before i) (hafter : Lacks after i)
    (h : findOwn? items i = some n) :
    findOwn? (before ++ (items ++ after)) i = some (before.length + n) := by
  unfold findOwn? at h ⊢
  simp only [List.findIdx?_append, hbefore.findIdx?_id, hbefore.findIdx?_sameAs, hafter.findIdx?_id,
    hafter.findIdx?_sameAs, Option.map_none, Option.or_none, Option.none_or]
  cases hid : items.findIdx? (fun c => c.id == i.id) with
  | some m =>
    rw [hid] at h
    cases h
    exact congrArg some (Nat.add_comm _ _)
  | none =>
    rw [hid] at h
    change items.findIdx? (Item.sameAs true · i) = some n at h
    rw [h]
    exact congrArg some (Nat.add_comm _ _)

/-- A column under the scope of a header is found where its column is. -/
theorem IsOfColumns.findOwn? {scope : Option String} {first : Nat} {columns : List Column}
    (h : IsOfColumns scope first items columns) {c : Column} (hi : i = Item.ofColumn i.id c scope)
    (hlt : i.id < first) : Header.findOwn? items i = columns.findIdx? (· == c) := by
  have hsame : items.findIdx? (Item.sameAs true · i) = columns.findIdx? (· == c) := by
    refine findIdx?_of_forall₂ h fun j d hjd => ?_
    rw [hjd.1, hi, Item.sameAs_ofColumn_plain true _ _ rfl ⟨rfl, rfl, rfl⟩]
    simp [Item.ofColumn, Item.plain]
  unfold Header.findOwn?
  rw [h.findIdx?_id hlt, hsame]
  rfl

/-- An item is found where it stands if identities differ. -/
theorem findOwn?_of_nodup (hids : (items.map Item.id).Nodup) (hi : items[n]? = some i) :
    findOwn? items i = some n := by
  obtain ⟨hlt, rfl⟩ := List.getElem?_eq_some_iff.mp hi
  have hplace : items.findIdx? (fun c => c.id == items[n].id) = some n := by
    refine List.findIdx?_eq_some_iff_getElem.mpr ⟨hlt, beq_self_eq_true _, fun m hm => ?_⟩
    have hmLt : m < (items.map Item.id).length := by
      rw [List.length_map]
      omega
    have hnLt : n < (items.map Item.id).length := by rwa [List.length_map]
    have hne : (items.map Item.id)[m] ≠ (items.map Item.id)[n] := by
      rw [Ne, hids.getElem_inj_iff]
      omega
    simpa using hne
  unfold findOwn?
  rw [hplace]
  rfl

theorem findOwn?_alike {ρ : Pairing} {items' : List Item} {i' : Item} (hρ : ρ.IsOneToOne)
    (h : Item.AllAlike ρ items items') (hi : Item.Alike ρ i i') :
    findOwn? items i = findOwn? items' i' := by
  unfold findOwn?
  rw [findIdx?_of_forall₂ h fun a b hab => hρ.beq_eq hab.id hi.id,
    findIdx?_of_forall₂ h fun a b hab => hab.sameAs hi true]

end Header

namespace RowSet

/-! ## Products without filters -/

section Unfiltered

variable {outer : RowSet} {outerRows : List Row} {all : List Item} {rest : List RowSet}
  {rows : List (List Row)}

/-- Every outer row with every inner row. -/
theorem yields_nestedLoop (houter : outer.Yields outerRows) (items : List Item) (inner : List Row) :
    (outer.nestedLoop items inner [] false).Yields (outerRows.flatMap fun row =>
      inner.map fun innerRow => combine (outer.header ++ items) row innerRow.values) := by
  have hone : ∀ row : Row, Stream.tested (Filter.allAccept · []) row = [.ok row] := fun _ => rfl
  unfold Yields
  rw [outcomes_nestedLoop, houter, List.flatMap_map, List.map_flatMap]
  refine List.flatMap_congr fun row _ => ?_
  simp only [Stream.spread, hone, List.map_map]
  rw [List.map_eq_flatMap]
  rfl

/-- **A product without filters gives the combinations of all rows.** -/
theorem gives_productWith_unfiltered (houter : outer.Yields outerRows)
    (hrest : List.Forall₂ Yields rest rows)
    (hall : all = outer.header ++ rest.flatMap (·.header)) (l : Ledger) : (productWith all outer [] rest).Gives l fun d _ => d.header = all ∧
      d.Shows ((combinations (outerRows :: rows)).map fun c => c.flatMap (·.values)) := by
  induction hrest generalizing outer outerRows l with
  | nil =>
    refine gives_pure ⟨?_, outerRows, houter, ?_⟩
    · rw [hall]
      exact (List.append_nil _).symm
    · simp [combinations, List.map_eq_flatMap, List.flatMap_assoc]
  | @cons inner r rest rows hinner _ ih =>
    refine gives_bind (gives_orElseClosing (gives_toRows hinner fun _ _ => ?_))
    by_cases hr : r = []
    · subst hr
      have hnone : combinations (outerRows :: [] :: rows) = [] :=
        combinations_eq_nil ⟨[], by simp, rfl⟩
      simp only [List.isEmpty_nil, if_true, hnone]
      refine gives_bind (gives_close fun _ _ => gives_bind (gives_closeAll fun _ _ => ?_))
      exact gives_pure ⟨rfl, [], yields_ofRows all [], rfl⟩
    · have hisEmpty : r.isEmpty = false := by simpa using hr
      simp only [hisEmpty, Bool.false_eq_true, if_false, List.partition_eq_filter_filter,
        List.filter_nil]
      -- The nested loop of both is the outer side from here on.
      refine (ih (yields_nestedLoop houter inner.header r) ?_ _).mono ?_
      · rw [hall, List.flatMap_cons, ← List.append_assoc]
        rfl
      · rintro d l' ⟨hheader, hshows⟩
        refine ⟨hheader, ?_⟩
        have hsame : (combinations ((outerRows.flatMap fun row => r.map fun innerRow =>
            combine (outer.header ++ inner.header) row innerRow.values) :: rows)).map
              (fun c => c.flatMap (·.values)) =
            (combinations (outerRows :: r :: rows)).map fun c => c.flatMap (·.values) := by
          simp [combinations, List.flatMap_assoc, List.map_flatMap, List.flatMap_map, combine,
            Function.comp_def]
        rwa [hsame] at hshows

/-- **The product of data sets without filters** gives the combinations of all their rows, the
values of each behind each other, under the items of all. -/
theorem gives_cartesianProduct_unfiltered {sets : List RowSet} (hmany : 2 ≤ sets.length)
    (hread : List.Forall₂ Yields sets rows) (l : Ledger) :
    (cartesianProduct sets []).Gives l fun d _ =>
      d.header = sets.flatMap (·.header) ∧ d.IsHeaded ∧ d.Shows ((combinations rows).map fun c => c.flatMap (·.values)) := by
  cases hread with
  | nil => simp at hmany
  | @cons first r rest rows hfirst hrest =>
    have hsome : rest ≠ [] := by
      rintro rfl
      simp at hmany
    obtain ⟨d, l', hrun, hheader, hshows⟩ :=
      gives_productWith_unfiltered hfirst hrest (List.flatMap_cons ..) l
    have hheaded := isHeaded_of_productWith (fun hnone => absurd hnone hsome) hrun
    exact ⟨d, l', hrun, hheader, hheaded, hshows⟩

end Unfiltered

/-! ## Sections -/

/-- One side of a product: a data set with its rows, and the items that are selected of it.  Each of
them is found by its own identity or scope.  The data set has as many items at most, and if it has
as many, they are in the same order. -/
structure Section where
  items : List Item
  set : RowSet
  rows : List Row
  yields : set.Yields rows
  wide : ∀ row ∈ rows, row.values.length = set.header.length
  found : ∀ i ∈ items, ∃ n, Header.findOwn? set.header i = some n
  short : set.header.length ≤ items.length
  full : set.header.length = items.length →
    ∀ n i, items[n]? = some i → Header.findOwn? set.header i = some n

namespace Section

/-- The place of an item of a section. -/
def place (x : Section) (i : Item) : Nat := (Header.findOwn? x.set.header i).getD 0

/-- The values of the items of a section in a row of it. -/
def cells (x : Section) (row : Row) : List Value := x.items.map fun i => row.value (x.place i)

/-- Two sides lack the items that are selected of the other one. -/
structure Apart (x y : Section) : Prop where
  left : ∀ i ∈ y.items, Header.Lacks x.set.header i
  right : ∀ i ∈ x.items, Header.Lacks y.set.header i

variable {x : Section} {xs : List Section} {i : Item} {row : Row}

theorem findOwn?_place (hi : i ∈ x.items) : Header.findOwn? x.set.header i = some (x.place i) := by
  obtain ⟨n, hn⟩ := x.found i hi
  unfold place
  rw [hn]
  rfl

/-- If nothing was left out, the values are all that a row has. -/
theorem cells_eq_values (hfull : x.set.header.length = x.items.length) (hrow : row ∈ x.rows) :
    x.cells row = row.values := by
  have hwide := x.wide row hrow
  refine List.ext_getElem ?_ fun n hn hn' => ?_
  · unfold cells
    rw [List.length_map, hwide, hfull]
  · have hlt : n < x.items.length := by simpa [cells] using hn
    have hplace : x.place x.items[n] = n := by
      unfold place
      rw [x.full hfull n x.items[n] (List.getElem?_eq_getElem hlt)]
      rfl
    simp only [cells, List.getElem_map, hplace]
    unfold Row.value
    rw [List.getElem?_eq_getElem hn']
    rfl

/-! ## Sides of columns -/

section Columns

variable {d : RowSet} {rows : List Row} {scope : Option String} {first start : Nat}
  {asked : List Item} {columns : List Column}

/-- Without repetitions, a column is found where it stands. -/
theorem findIdx?_of_nodup (h : columns.Nodup) {n : Nat} {c : Column} (hc : columns[n]? = some c) :
    columns.findIdx? (· == c) = some n := by
  obtain ⟨hlt, rfl⟩ := List.getElem?_eq_some_iff.mp hc
  refine List.findIdx?_eq_some_iff_getElem.mpr ⟨hlt, beq_self_eq_true _, fun m hm => ?_⟩
  rw [beq_iff_eq, h.getElem_inj_iff]
  exact Nat.ne_of_lt hm

/-- The columns of a data set as a side, each once, where columns are selected under its scope, as
often as there are items for them. -/
def ofColumns (hheader : Header.IsOfColumns scope first d.header (distinctColumns columns))
    (hasked : Header.IsOfColumns scope start asked columns) (hids : ∀ i ∈ asked, i.id < first)
    (hd : d.Yields rows) (hwide : ∀ row ∈ rows, row.values.length = d.header.length) :
    Section where
  items := asked
  set := d
  rows := rows
  yields := hd
  wide := hwide
  found := by
    intro i hi
    obtain ⟨c, hc, heq, -⟩ := exists_of_mem_forall₂ hasked hi
    obtain ⟨n, hn, -⟩ := exists_cell (mem_distinctColumns.mpr hc)
    exact ⟨n, (hheader.findOwn? heq (hids i hi)).trans hn⟩
  short := by
    rw [hheader.length_eq, hasked.length_eq]
    exact length_distinctColumns_le columns
  full := by
    intro hlength n i hi
    rw [hheader.length_eq, hasked.length_eq] at hlength
    obtain ⟨c, hc, heq, -⟩ := getElem?_of_forall₂ hasked hi
    rw [hheader.findOwn? heq (hids i (List.mem_of_getElem? hi))]
    refine findIdx?_of_nodup (nodup_distinctColumns columns) ?_
    rwa [distinctColumns_eq_self hlength]

/-- Every item that is selected has the value at the place of its column. -/
theorem cells_ofColumns
    (hheader : Header.IsOfColumns scope first d.header (distinctColumns columns))
    (hasked : Header.IsOfColumns scope start asked columns) (hids : ∀ i ∈ asked, i.id < first)
    (hd : d.Yields rows) (hwide : ∀ row ∈ rows, row.values.length = d.header.length)
    (row : Row) : (ofColumns hheader hasked hids hd hwide).cells row = columns.map fun c =>
      row.value (((distinctColumns columns).findIdx? (· == c)).getD 0) := by
  refine map_eq_map_of_forall₂ hasked fun i hi c hic => ?_
  show row.value ((Header.findOwn? d.header i).getD 0) = _
  rw [hheader.findOwn? hic.1 (hids i hi)]

end Columns

/-! ## Sides of gathered items -/

section Gathered

variable {d : RowSet} {rows : List Row} {asked : List Item}

/-- A data set of the items that are selected, as far as they are different, as a side. -/
def ofGathered (hheader : d.header = asked.foldl Item.pushNew [])
    (hids : (asked.map Item.id).Nodup) (hd : d.Yields rows)
    (hwide : ∀ row ∈ rows, row.values.length = d.header.length) : Section where
  items := asked
  set := d
  rows := rows
  yields := hd
  wide := hwide
  found := by
    intro i hi
    obtain ⟨s, hs, hsame⟩ : ∃ s ∈ asked.foldl Item.pushNew [],
        s = i ∨ Item.sameAs true s i = true := Item.exists_mem_foldl_pushNew hi
    rw [hheader]
    exact Header.exists_findOwn?_iff.mpr ⟨s, hs, hsame.imp_left fun heq => congrArg Item.id heq⟩
  short := by
    have hlength := Item.length_foldl_pushNew_le [] asked
    rw [hheader]
    simpa using hlength
  full := by
    intro hlength n i hi
    have hall : asked.foldl Item.pushNew [] = asked := by
      rw [hheader] at hlength
      exact Item.foldl_pushNew_eq_append (by simpa using hlength)
    rw [hheader, hall]
    exact Header.findOwn?_of_nodup hids hi

end Gathered

/-! ## Sides that are alike -/

section Alike

variable {ρ : Pairing} {d : RowSet} {asked : List Item}

/-- A data set that is alike is a side alike, for items that are alike. -/
theorem exists_alike (x : Section) (hρ : ρ.IsOneToOne) (hd : x.set.Alike ρ d)
    (hitems : Item.AllAlike ρ x.items asked) : ∃ y : Section, y.set = d ∧ y.items = asked ∧
      y.rows.map y.cells = x.rows.map x.cells := by
  have hfound : ∀ i j, Item.Alike ρ i j →
      Header.findOwn? x.set.header i = Header.findOwn? d.header j :=
    fun i j hij => Header.findOwn?_alike hρ hd.header hij
  have houtcomes := hd.outcomes
  rw [x.yields] at houtcomes
  obtain ⟨rows, hrows, halike⟩ := Agreeing.exists_of_forall₂_ok houtcomes
  let y : Section :=
    { items := asked
      set := d
      rows := rows
      yields := hrows
      wide := by
        intro row hrow
        obtain ⟨row', hrow', hsame⟩ := exists_of_mem_forall₂ halike.flip hrow
        rw [← hsame.values, ← hd.header.length_eq]
        exact x.wide row' hrow'
      found := by
        intro j hj
        obtain ⟨i, hi, hij⟩ := exists_of_mem_forall₂ hitems.flip hj
        rw [← hfound i j hij]
        exact x.found i hi
      short := by
        rw [← hd.header.length_eq, ← hitems.length_eq]
        exact x.short
      full := by
        intro hlength n j hj
        rw [← hd.header.length_eq, ← hitems.length_eq] at hlength
        obtain ⟨i, hi, hij⟩ := getElem?_of_forall₂ hitems.flip hj
        rw [← hfound i j hij]
        exact x.full hlength n i hi }
  refine ⟨y, rfl, rfl, (map_eq_map_of_forall₂ halike fun row _ row' hsame => ?_).symm⟩
  refine map_eq_map_of_forall₂ hitems fun i _ j hij => ?_
  unfold place
  rw [hsame.value, hfound i j hij]

end Alike

/-! ## Combinations -/

/-- The values that are selected of a combination of rows, one of each side. -/
def allCells (xs : List Section) (combination : List Row) : List Value :=
  (List.zipWith cells xs combination).flatten

/-- A combination has a row of each side. -/
theorem forall₂_mem_rows {c : List Row} (hc : c ∈ combinations (xs.map (·.rows))) :
    List.Forall₂ (fun x row => row ∈ x.rows) xs c :=
  forall₂_of_mem_combinations
    (List.forall₂_map_right_iff.mpr (List.forall₂_same.mpr fun _ _ _ hrow => hrow)) hc

/-- **The combinations of the values that are selected**, where the sides show other rows. -/
theorem map_allCells_combinations {shown : List (List Row)}
    (h : List.Forall₂ (fun x rows => x.rows.map x.cells = rows.map (·.values)) xs shown) :
    (combinations (xs.map (·.rows))).map (allCells xs) =
      (combinations shown).map fun c => c.flatMap (·.values) := by
  induction h with
  | nil => rfl
  | @cons x rows xs shown hx _ ih =>
    have hleft : (combinations ((x :: xs).map (·.rows))).map (allCells (x :: xs)) =
        (x.rows.map x.cells).flatMap fun values =>
          ((combinations (xs.map (·.rows))).map (allCells xs)).map (values ++ ·) := by
      simp only [List.map_cons, combinations, List.map_flatMap, List.flatMap_map, List.map_map]
      rfl
    have hright : (combinations (rows :: shown)).map (fun c => c.flatMap (·.values)) =
        (rows.map (·.values)).flatMap fun values =>
          ((combinations shown).map fun c => c.flatMap (·.values)).map (values ++ ·) := by
      simp only [combinations, List.map_flatMap, List.flatMap_map, List.map_map]
      rfl
    rw [hleft, hright, hx, ih]

/-- If no side left out an item, everything that the combination has is selected. -/
theorem allCells_eq_flatMap {c : List Row}
    (hfull : ∀ x ∈ xs, x.set.header.length = x.items.length)
    (hc : List.Forall₂ (fun x row => row ∈ x.rows) xs c) :
    allCells xs c = c.flatMap (·.values) := by
  induction hc with
  | nil => rfl
  | cons hrow _ ih =>
    rw [List.forall_mem_cons] at hfull
    unfold allCells at ih ⊢
    rw [List.zipWith_cons_cons, List.flatten_cons, List.flatMap_cons, cells_eq_values hfull.1 hrow,
      ih hfull.2]

theorem length_le_of_sections (xs : List Section) :
    (xs.flatMap (·.set.header)).length ≤ (xs.flatMap (·.items)).length := by
  induction xs with
  | nil => exact Nat.le_refl 0
  | cons x rest ih =>
    have hshort := x.short
    rw [List.flatMap_cons, List.flatMap_cons, List.length_append, List.length_append]
    omega

theorem full_of_length_eq
    (h : (xs.flatMap (·.set.header)).length = (xs.flatMap (·.items)).length) :
    ∀ x ∈ xs, x.set.header.length = x.items.length := by
  induction xs with
  | nil => exact List.forall_mem_nil _
  | cons x rest ih =>
    have hshort := x.short
    have hrest := length_le_of_sections rest
    rw [List.flatMap_cons, List.flatMap_cons, List.length_append, List.length_append] at h
    exact List.forall_mem_cons.mpr ⟨by omega, ih (by omega)⟩

/-! ## Selecting -/

/-- The value at a place among some values. -/
def valueAt (values : List Value) (n : Nat) : Value := (values[n]?).getD .null

/-- Every item is found in a header that has the section of its own side. -/
theorem exists_findOwn?_sections (hi : i ∈ xs.flatMap (·.items)) :
    ∃ n, Header.findOwn? (xs.flatMap (·.set.header)) i = some n := by
  obtain ⟨x, hx, hmem⟩ := List.mem_flatMap.mp hi
  obtain ⟨s, hs, hsame⟩ := Header.exists_findOwn?_iff.mp (x.found i hmem)
  exact Header.exists_findOwn?_iff.mpr ⟨s, List.mem_flatMap.mpr ⟨x, hx, hs⟩, hsame⟩

/-- **The value of every item stands in its own section.**  The induction is on the sections, with
the items and the values of those before them. -/
theorem map_valueAt_sections (hapart : xs.Pairwise Apart) (before : List Item)
    (values : List Value) (hwidth : values.length = before.length)
    (hbefore : ∀ x ∈ xs, ∀ i ∈ x.items, Header.Lacks before i) {c : List Row}
    (hc : List.Forall₂ (fun x row => row ∈ x.rows) xs c) :
    (xs.flatMap (·.items)).map (fun i => valueAt (values ++ c.flatMap (·.values))
      ((Header.findOwn? (before ++ xs.flatMap (·.set.header)) i).getD 0)) = allCells xs c := by
  induction hc generalizing before values with
  | nil => rfl
  | @cons x row rest c hrow _ ih =>
    rw [List.pairwise_cons] at hapart
    rw [List.forall_mem_cons] at hbefore
    have hwide := x.wide row hrow
    -- Later sections see the items and the values of this one before them.
    have hlater : ∀ y ∈ rest, ∀ i ∈ y.items, Header.Lacks (before ++ x.set.header) i :=
      fun y hy i hi => (hbefore.2 y hy i hi).append ((hapart.1 y hy).left i hi)
    have hnext : (values ++ row.values).length = (before ++ x.set.header).length := by
      rw [List.length_append, List.length_append, hwidth, hwide]
    have hcells := ih hapart.2 (before ++ x.set.header) (values ++ row.values) hnext hlater
    have hafter : ∀ i ∈ x.items, Header.Lacks (rest.flatMap (·.set.header)) i := by
      intro i hi s hs
      obtain ⟨y, hy, hmem⟩ := List.mem_flatMap.mp hs
      exact (hapart.1 y hy).right i hi s hmem
    have hown : ∀ i ∈ x.items,
        Header.findOwn? (before ++ (x.set.header ++ rest.flatMap (·.set.header))) i =
          some (before.length + x.place i) :=
      fun i hi => Header.findOwn?_section (hbefore.1 i hi) (hafter i hi) (findOwn?_place hi)
    simp only [List.flatMap_cons]
    rw [List.map_append]
    unfold allCells at hcells ⊢
    rw [List.zipWith_cons_cons, List.flatten_cons, ← hcells]
    congr 1
    · refine List.map_congr_left fun i hi => ?_
      have hlt : x.place i < row.values.length := by
        rw [hwide]
        exact Header.findOwn?_lt (findOwn?_place hi)
      rw [hown i hi, Option.getD_some]
      unfold valueAt
      rw [List.getElem?_append_right (by omega), hwidth, Nat.add_sub_cancel_left,
        List.getElem?_append_left hlt]
      rfl
    · simp only [List.append_assoc]

/-- Rows under the header of their data set have the value of an item at its place there. -/
theorem evaluate?_of_findOwn? {d : RowSet} {rows : List Row} (hheaded : d.IsHeaded)
    (hd : d.Yields rows) {row : Row} (hrow : row ∈ rows) {i : Item} {n : Nat}
    (hn : Header.findOwn? d.header i = some n) : row.evaluate? i = some (valueAt row.values n) := by
  have hlt := Header.findOwn?_lt hn
  have hrowHeader : row.header = d.header := by
    refine hheaded (List.ne_nil_of_length_pos (by omega)) row ?_
    rw [hd]
    exact List.mem_map_of_mem hrow
  have hplace : Header.find? row.header i = some n := by
    rw [hrowHeader]
    exact Header.find?_of_findOwn? hn
  rw [Row.evaluate?_of_find? hplace]
  rfl

/-- **What is selected from a product of sections**, row by row: the values that each side has for
its own items. -/
theorem gives_selection (hapart : xs.Pairwise Apart) {d : RowSet}
    (hheader : d.header = xs.flatMap (·.set.header)) (hheaded : d.IsHeaded)
    (hd : d.Shows ((combinations (xs.map (·.rows))).map fun c => c.flatMap (·.values)))
    (l : Ledger) : (d.selection (xs.flatMap (·.items))).Gives l fun d' _ =>
      d'.Shows ((combinations (xs.map (·.rows))).map (allCells xs)) := by
  obtain ⟨rows, hd, hrows⟩ := hd
  have hown : ∀ i ∈ xs.flatMap (·.items), ∃ n, Header.findOwn? d.header i = some n := by
    intro i hi
    rw [hheader]
    exact exists_findOwn?_sections hi
  have hfound : ∀ i ∈ xs.flatMap (·.items), ∃ n, Header.find? d.header i = some n :=
    fun i hi => (hown i hi).imp fun n hn => Header.find?_of_findOwn? hn
  by_cases hlayout : Item.sameLayout d.header (xs.flatMap (·.items)) = true
  · -- The product has as many items as are selected, so no side left out one.
    have hlength := (Item.sameLayout_iff.mp hlayout).length_eq
    rw [hheader] at hlength
    have hfull := full_of_length_eq hlength
    unfold selection
    rw [if_pos hlayout]
    refine gives_pure ⟨rows, hd, ?_⟩
    rw [hrows]
    exact List.map_congr_left fun c hc =>
      (allCells_eq_flatMap hfull (forall₂_mem_rows hc)).symm
  · rw [selection_of_find? hlayout hfound]
    have hvalue : ∀ row ∈ rows, ∀ i ∈ xs.flatMap (·.items), row.evaluate? i =
        some (valueAt row.values ((Header.findOwn? d.header i).getD 0)) := by
      intro row hrow i hi
      obtain ⟨n, hn⟩ := hown i hi
      rw [evaluate?_of_findOwn? hheaded hd hrow hn, hn, Option.getD_some]
    refine gives_pure ⟨_, yields_projected hd (Bool.eq_false_iff.mpr hlayout)
      (fun row hrow i hi => ⟨_, hvalue row hrow i hi⟩), ?_⟩
    -- Only the values of the rows matter, and they are those of the combinations.
    calc (rows.map (·.showing (xs.flatMap (·.items)))).map (·.values)
        = (rows.map (·.values)).map fun values => (xs.flatMap (·.items)).map fun i =>
            valueAt values ((Header.findOwn? d.header i).getD 0) := by
          rw [List.map_map, List.map_map]
          refine List.map_congr_left fun row hrow => List.map_congr_left fun i hi => ?_
          rw [hvalue row hrow i hi]
          rfl
      _ = (combinations (xs.map (·.rows))).map (allCells xs) := by
          have hnone : ∀ x ∈ xs, ∀ i ∈ x.items, Header.Lacks [] i :=
            fun _ _ _ _ => List.forall_mem_nil _
          rw [hrows, List.map_map, hheader]
          exact List.map_congr_left fun c hc => map_valueAt_sections hapart [] [] rfl hnone
            (forall₂_mem_rows hc)

/-- What is selected from one side. -/
theorem gives_selection_alone (x : Section) (hheaded : x.set.IsHeaded) (l : Ledger) :
    (x.set.selection x.items).Gives l fun d _ => d.Shows (x.rows.map x.cells) := by
  have hone : combinations [x.rows] = x.rows.map ([·]) := by
    simp [combinations, List.map_eq_flatMap]
  have hvalues : (combinations [x.rows]).map (fun c => c.flatMap (·.values)) =
      x.rows.map (·.values) := by
    rw [hone, List.map_map]
    exact List.map_congr_left fun row _ => List.flatMap_singleton _ row
  have hcells : (combinations [x.rows]).map (allCells [x]) = x.rows.map x.cells := by
    rw [hone, List.map_map]
    exact List.map_congr_left fun row _ => List.append_nil _
  have hgives := gives_selection (List.pairwise_singleton Apart x) (List.append_nil _).symm hheaded
    ⟨x.rows, x.yields, hvalues.symm⟩ l
  have hitems : [x].flatMap (·.items) = x.items := List.append_nil _
  rw [hitems] at hgives
  exact hgives.mono fun d _ hd => hcells ▸ hd

end Section

end RowSet

end DocQuery
