import DocQuery.Proofs.Rows.Columns
import DocQuery.Proofs.Rows.Planning

/-!
# DocQuery.Proofs.Rows.Tabular — data sets over columns, and the layouts that they may have

A data set read from a table has plain columns and rows of cells; a row is known by the valuation of
the columns that it shows (`RowSet.Presents`).  Filtering, paging and ordering such a data set is
filtering, cutting and stably sorting the list of its valuations.

A data set that has the columns of a select list already is left as it is, so its header may hold
copies of plain columns with identities of their own in the place of the select items
(`Header.LaysOut`).  An item that was made before the copies is found where the select list has it:
by its identity, or else by what it denotes, because no other select item denotes the same as a copy
(`Header.LaysOut.find?_eq`).
-/

namespace DocQuery.RowSet

open Plan

/-- The data set has these columns under a scope, with identities from `first` on, and one row for
each of some valuations of the columns. -/
structure Presents (d : RowSet) (scope : Option String) (first : Nat) (columns : List Column)
    (cells : List (Column → Value)) : Prop where
  header : Header.IsOfColumns scope first d.header columns
  rows : d.Yields (cells.map fun g => ⟨d.header, columns.map g, none⟩)

/-- The items read the columns, and their identities were drawn before `first`. -/
def ReadsWithin (columns : List Column) (first : Nat) (items : List Item) : Prop :=
  ∀ i ∈ items, i.id < first ∧ ∃ c ∈ columns, i.Reads c

section Tabular

variable {scope : Option String} {first : Nat} {columns : List Column}
  {cells : List (Column → Value)} {d : RowSet}

theorem Presents.evaluate? (hd : d.Presents scope first columns cells) {items : List Item}
    (hitems : ReadsWithin columns first items) {i : Item} (hi : i ∈ items) (g : Column → Value) :
    Row.evaluate? ⟨d.header, columns.map g, none⟩ i = some (i.valueIn g) := by
  obtain ⟨hid, c, hc, hreads⟩ := hitems i hi
  exact Row.evaluate?_columnRow hd.header g hreads hc hid

/-! ## Filtering -/

/-- Filtering keeps the rows that the filters accept, if they fail for none. -/
theorem Yields.filtered {α : Type} {given : List α} {row : α → Row}
    (hd : d.Yields (given.map row)) {filters : List Filter} {accepted : α → Bool}
    (h : ∀ a ∈ given, Filter.allAccept (row a) filters = .ok (accepted a)) :
    (d.filtered filters).Yields ((given.filter accepted).map row) := by
  unfold RowSet.filtered
  split
  next hempty =>
    obtain rfl : filters = [] := List.isEmpty_iff.mp hempty
    have hall : given.filter accepted = given :=
      List.filter_eq_self.mpr fun a ha => (Except.ok.inj (h a ha)).symm
    rw [hall]
    exact hd
  next =>
    show (Stream.filter _ d.stream).outcomes = _
    rw [Stream.outcomes_filter, hd, List.map_map, List.flatMap_map]
    exact Stream.flatMap_tested_eq _ h

/-- **Filtering keeps the valuations that all filters hold of.** -/
theorem Presents.filtered (hd : d.Presents scope first columns cells) {filters : List Filter}
    (hreads : ReadsWithin columns first (Filter.itemsOf filters))
    (hbound : Filter.parameterCountOf filters = 0) :
    (d.filtered filters).Presents scope first columns
      (cells.filter fun g => Filter.allHold (Item.valueIn g) filters) := by
  have hheader : (d.filtered filters).header = d.header := by
    unfold RowSet.filtered
    split <;> rfl
  refine ⟨hheader ▸ hd.header, ?_⟩
  rw [hheader]
  exact hd.rows.filtered fun g _ =>
    Filter.allAccept_eq_allHold filters (fun i hi => hd.evaluate? hreads hi g) hbound

/-! ## Paging -/

/-- The elements from one on, which is counted from one, and at most so many of them. -/
def window {α : Type} (firstRow : Nat) (maxRows : Option Nat) (l : List α) : List α :=
  match maxRows with
  | some n => (l.drop (firstRow - 1)).take n
  | none => l.drop (firstRow - 1)

theorem window_map {α β : Type} (f : α → β) (firstRow : Nat) (maxRows : Option Nat) (l : List α) :
    window firstRow maxRows (l.map f) = (window firstRow maxRows l).map f := by
  cases maxRows <;> simp [window, List.map_drop, List.map_take]

theorem Yields.paged {rows : List Row} (hd : d.Yields rows) (firstRow : Nat)
    (maxRows : Option Nat) : (d.paged firstRow maxRows).Yields (window firstRow maxRows rows) := by
  have hskip : Yields (if 1 < firstRow then d.fromRow firstRow else d)
      (rows.drop (firstRow - 1)) := by
    split
    · exact Stream.outcomes_skip _ hd
    · have hzero : firstRow - 1 = 0 := by omega
      rw [hzero]
      exact hd
  cases maxRows with
  | none => exact hskip
  | some n => exact Stream.outcomes_take n hskip

theorem header_paged (d : RowSet) (firstRow : Nat) (maxRows : Option Nat) :
    (d.paged firstRow maxRows).header = d.header := by
  unfold RowSet.paged
  cases maxRows <;> split <;> rfl

theorem Presents.paged (hd : d.Presents scope first columns cells) (firstRow : Nat)
    (maxRows : Option Nat) :
    (d.paged firstRow maxRows).Presents scope first columns (window firstRow maxRows cells) := by
  constructor
  · rw [header_paged]
    exact hd.header
  · rw [header_paged, ← window_map]
    exact hd.rows.paged firstRow maxRows

/-! ## Ordering -/

/-- The keys that a valuation is sorted by. -/
def keysIn (orderBy : List OrderItem) (g : Column → Value) : List Value :=
  orderBy.map fun o => o.item.valueIn g

/-- Valuations sorted by items, valuations with equal keys in their given order. -/
def sortedCells (orderBy : List OrderItem) (cells : List (Column → Value)) :
    List (Column → Value) :=
  cells.mergeSort fun a b => compareKeys orderBy (keysIn orderBy a) (keysIn orderBy b) != .gt

theorem sortedCells_nil (cells : List (Column → Value)) : sortedCells [] cells = cells :=
  List.mergeSort_of_pairwise (List.pairwise_of_forall fun _ _ => rfl)

/-- **Sorting rows sorts their valuations.** -/
theorem Presents.sortRows_eq (hd : d.Presents scope first columns cells) {orderBy : List OrderItem}
    (hreads : ReadsWithin columns first (orderBy.map (·.item))) :
    sortRows orderBy (cells.map fun g => ⟨d.header, columns.map g, none⟩) =
      (sortedCells orderBy cells).map fun g => ⟨d.header, columns.map g, none⟩ := by
  have hkeys : ∀ g, sortKeys orderBy ⟨d.header, columns.map g, none⟩ = keysIn orderBy g := by
    intro g
    refine List.map_congr_left fun o ho => ?_
    rw [hd.evaluate? hreads (List.mem_map_of_mem ho) g]
    rfl
  have hpairs : (cells.map fun g => (⟨d.header, columns.map g, none⟩ : Row)).map
      (fun row => (sortKeys orderBy row, row)) =
        cells.map fun g => (keysIn orderBy g, ⟨d.header, columns.map g, none⟩) := by
    rw [List.map_map]
    exact List.map_congr_left fun g _ => Prod.ext (hkeys g) rfl
  -- Rows are sorted paired with their keys, and the keys of a row are those of its valuation.
  unfold sortRows sortedCells
  rw [hpairs, ← List.map_mergeSort (r := fun a b =>
    compareKeys orderBy (keysIn orderBy a) (keysIn orderBy b) != .gt) fun _ _ _ _ => rfl,
    List.map_map]
  rfl

/-- Ordering a data set by items that can all be read gives its rows in order. -/
theorem Yields.gives_ordered {rows : List Row} (hd : d.Yields rows) {orderBy : List OrderItem}
    (hreadable : ∀ o ∈ orderBy, Header.isReadable d.header o.item = true) (l : Ledger) :
    (d.ordered orderBy).Gives l fun d' l' =>
      l'.nextItem = l.nextItem ∧ d'.header = d.header ∧ d'.Yields (sortRows orderBy rows) := by
  unfold ordered
  split
  next hempty =>
    obtain rfl : orderBy = [] := List.isEmpty_iff.mp hempty
    have hrows : sortRows [] rows = rows := by
      unfold sortRows
      have hpairs : ((rows.map fun row => (sortKeys [] row, row)).mergeSort fun a b =>
          compareKeys [] a.1 b.1 != .gt) = rows.map fun row => (sortKeys [] row, row) :=
        List.mergeSort_of_pairwise (List.pairwise_of_forall fun _ _ => rfl)
      rw [hpairs, List.map_map]
      exact List.map_id rows
    rw [hrows]
    exact gives_pure ⟨rfl, rfl, hd⟩
  next =>
    have hnone : (orderBy.find? fun o => !Header.isReadable d.header o.item) = none :=
      List.find?_eq_none.mpr fun o ho => by simp [hreadable o ho]
    rw [hnone]
    exact gives_bind (gives_toRows hd fun _ hl' => gives_pure ⟨hl', rfl, yields_ofRows _ _⟩)

theorem Presents.gives_ordered (hd : d.Presents scope first columns cells) {orderBy : List OrderItem}
    (hreads : ReadsWithin columns first (orderBy.map (·.item))) (l : Ledger) :
    (d.ordered orderBy).Gives l fun d' l' => l'.nextItem = l.nextItem ∧
      d'.Presents scope first columns (sortedCells orderBy cells) := by
  have hreadable : ∀ o ∈ orderBy, Header.isReadable d.header o.item = true := fun o ho =>
    Row.isReadable_of_evaluate? (hd.evaluate? hreads (List.mem_map_of_mem ho) fun _ => .null)
  refine (hd.rows.gives_ordered hreadable l).mono fun d' l' h => ?_
  obtain ⟨hl', hheader, hrows⟩ := h
  rw [hd.sortRows_eq hreads] at hrows
  exact ⟨hl', hheader ▸ hd.header, hheader ▸ hrows⟩

end Tabular

end DocQuery.RowSet

/-! ## The same columns under other identities -/

namespace DocQuery

namespace Item

/-- An item of a header in the place of a select item: the item itself, or a copy of a plain column
with an identity from `first` on. -/
inductive StandsFor (first : Nat) : Item → Item → Prop
  | self (s : Item) (h : s.id < first) : StandsFor first s s
  | copy {m : Nat} (n : Nat) (c : Column) (scope : Option String) (h : first ≤ m) :
      StandsFor first (ofColumn m c scope) (ofColumn n c scope)

variable {first : Nat} {h s : Item}

/-- Neither identities nor copies matter for what an item denotes. -/
theorem StandsFor.sameAs (hs : StandsFor first h s) (strict : Bool) (x : Item) :
    Item.sameAs strict h x = Item.sameAs strict s x := by
  cases hs with
  | self => rfl
  | copy n c scope _ =>
    obtain ⟨_, sx, _, _, _, _, _⟩ := x
    cases sx <;> rfl

/-- What stands there with a new identity is a copy. -/
theorem StandsFor.exists_copy (hs : StandsFor first h s) (hid : first ≤ h.id) :
    ∃ m n c scope, h = ofColumn m c scope ∧ s = ofColumn n c scope := by
  cases hs with
  | self _ hlt => exact absurd hlt (Nat.not_lt.mpr hid)
  | copy n c scope _ => exact ⟨_, n, c, scope, rfl, rfl⟩

theorem StandsFor.label (hs : StandsFor first h s) : h.label = s.label := by cases hs <;> rfl

theorem StandsFor.id_eq (hs : StandsFor first h s) (hid : h.id < first) : h = s := by
  cases hs with
  | self => rfl
  | copy n c scope hfirst => exact absurd hid (Nat.not_lt.mpr hfirst)

/-- Plain columns with one scope denote the same. -/
theorem sameAs_ofColumn (strict : Bool) (m n : Nat) (c : Column) (scope : Option String) :
    Item.sameAs strict (ofColumn m c scope) (ofColumn n c scope) = true := by
  rw [sameAs_ofColumn_plain strict m scope rfl ⟨rfl, rfl, rfl⟩]
  simp [ofColumn, plain]

/-- What denotes the same as a plain column does so whatever the identity of that is. -/
theorem sameAs_ofColumn_id (strict : Bool) (s : Item) (m n : Nat) (c : Column)
    (scope : Option String) :
    Item.sameAs strict s (ofColumn m c scope) = Item.sameAs strict s (ofColumn n c scope) := by
  obtain ⟨_, source, _, _, _, _, _⟩ := s
  cases source <;> rfl

/-- An item that is equal to a plain column without an alias is such a column. -/
theorem standsFor_of_same {m : Nat} {c : Column} {scope : Option String} (hplain : s.IsPlain)
    (hsource : s.source = .column c) (hm : first ≤ m)
    (hsame : same (ofColumn m c scope) s = true) : StandsFor first (ofColumn m c scope) s := by
  rw [same, Bool.and_eq_true, beq_iff_eq] at hsame
  have hscope := (sameAs_true_column hsame.2 hsource).2.1
  have hs : s = ofColumn s.id c scope := by
    obtain ⟨_, _, _, _, _, _, _⟩ := s
    obtain ⟨hfunction, hparameters, happroximate⟩ := hplain
    obtain ⟨haliasName, -⟩ := hsame
    simp only at hfunction hparameters happroximate hsource hscope
    subst hfunction hparameters happroximate hsource hscope
    cases haliasName
    rfl
  rw [hs]
  exact .copy s.id c scope hm

end Item

namespace Header

/-- A header that lays out a select list: with its items or copies of them in their places, where no
other select item denotes the same as a copy. -/
structure LaysOut (first : Nat) (header select : List Item) : Prop where
  items : List.Forall₂ (Item.StandsFor first) header select
  unique : ∀ (j k : Nat) (h s : Item), header[k]? = some h → first ≤ h.id → select[j]? = some s →
    Item.sameAs true s h = true → j = k

variable {first : Nat} {header select : List Item}

/-- A select list of items that were made before lays out itself. -/
theorem laysOut_self (h : ∀ s ∈ select, s.id < first) : LaysOut first select select where
  items := List.forall₂_same.mpr fun s hs => .self s (h s hs)
  unique := fun _ _ s _ hs hid _ _ =>
    absurd (h s (List.mem_of_getElem? hs)) (Nat.not_lt.mpr hid)

theorem LaysOut.labels (h : LaysOut first header select) :
    header.map Item.label = select.map Item.label :=
  map_eq_map_of_forall₂ h.items fun _ _ _ hs => hs.label

theorem LaysOut.findIdx?_sameAs (h : LaysOut first header select) (strict : Bool) (x : Item) :
    header.findIdx? (Item.sameAs strict · x) = select.findIdx? (Item.sameAs strict · x) :=
  findIdx?_of_forall₂ h.items fun _ _ hs => hs.sameAs strict x

/-- An item of the header with an identity that is older than the copies is that of the select list.
-/
theorem LaysOut.getElem?_eq (h : LaysOut first header select) {k : Nat} {i : Item}
    (hk : header[k]? = some i) (hid : i.id < first) : select[k]? = some i := by
  obtain ⟨s, hs, hstands⟩ := getElem?_of_forall₂ h.items hk
  rw [hstands.id_eq hid]
  exact hs

/-- An identity that the select list does not have is not in the header either. -/
theorem LaysOut.findIdx?_id_none (h : LaysOut first header select) {x : Item} (hx : x.id < first)
    (hnone : select.findIdx? (fun s => s.id == x.id) = none) :
    header.findIdx? (fun s => s.id == x.id) = none := by
  rw [List.findIdx?_eq_none_iff] at hnone ⊢
  intro i hi
  obtain ⟨k, hk⟩ := List.mem_iff_getElem?.mp hi
  refine beq_false_of_ne fun hid => ?_
  have hselect := h.getElem?_eq hk (hid ▸ hx)
  exact absurd hid (ne_of_beq_false (hnone i (List.mem_of_getElem? hselect)))

/-- An item of the select list that kept its identity is the first one with it in the header too. -/
theorem LaysOut.findIdx?_id_self (h : LaysOut first header select) {x i : Item} {j : Nat}
    (hx : x.id < first) (hfind : select.findIdx? (fun s => s.id == x.id) = some j)
    (hj : header[j]? = some i) (hid : i.id < first) :
    header.findIdx? (fun s => s.id == x.id) = some j := by
  obtain ⟨hlt, heq, hbefore⟩ := List.findIdx?_eq_some_iff_getElem.mp hfind
  have hselect := h.getElem?_eq hj hid
  obtain ⟨hlt', hi⟩ := List.getElem?_eq_some_iff.mp hj
  obtain ⟨_, hi'⟩ := List.getElem?_eq_some_iff.mp hselect
  refine List.findIdx?_eq_some_iff_getElem.mpr ⟨hlt', ?_, fun k hk hsame => ?_⟩
  · rw [hi, ← hi']
    exact heq
  · rw [beq_iff_eq] at hsame
    have hearlier := h.getElem?_eq (List.getElem?_eq_getElem (Nat.lt_trans hk hlt')) (hsame ▸ hx)
    rw [List.getElem?_eq_getElem (Nat.lt_trans hk hlt), Option.some.injEq] at hearlier
    refine hbefore k hk ?_
    rw [hearlier, beq_iff_eq]
    exact hsame

section Copies

variable {x : Item} {j m n : Nat} {c : Column} {scope : Option String}
  (h : LaysOut first header select) (hj : header[j]? = some (.ofColumn m c scope))
  (hm : first ≤ m) (hx : (Item.ofColumn n c scope).withoutAlias = x.withoutAlias)

include h hj hm hx

/-- What denotes the same as an item that has a copy stands in the place of that copy. -/
theorem LaysOut.eq_of_sameAs_copy {k : Nat} {s : Item} (hk : select[k]? = some s)
    (hsame : Item.sameAs true s x = true) : k = j := by
  rw [← Item.sameAs_withoutAlias, ← hx] at hsame
  rw [Item.sameAs_withoutAlias, Item.sameAs_ofColumn_id true s n m] at hsame
  exact h.unique k j _ s hj hm hk hsame

/-- The identity of an item that has a copy is not in the header. -/
theorem LaysOut.findIdx?_id_copy (hid : x.id < first)
    (hcopies : ∀ s ∈ select, s.id = x.id → s.withoutAlias = x.withoutAlias) :
    header.findIdx? (fun s => s.id == x.id) = none := by
  rw [List.findIdx?_eq_none_iff]
  intro i hi
  obtain ⟨k, hk⟩ := List.mem_iff_getElem?.mp hi
  refine beq_false_of_ne fun heq => ?_
  have hselect := h.getElem?_eq hk (heq ▸ hid)
  have hsame : Item.sameAs true i x = true := by
    rw [← Item.sameAs_withoutAlias, ← Item.withoutAlias_sameAs,
      hcopies i (List.mem_of_getElem? hselect) heq, ← hx]
    exact Item.sameAs_ofColumn true n n c scope
  -- So the item would stand where the copy stands.
  obtain rfl := h.eq_of_sameAs_copy hj hm hx hselect hsame
  rw [hj, Option.some.injEq] at hk
  have hlt : i.id < first := heq ▸ hid
  rw [← hk] at hlt
  exact Nat.not_lt.mpr hm hlt

/-- An item that has a copy is found by what it denotes. -/
theorem LaysOut.findIdx?_sameAs_copy (hselect : select[j]? = some (.ofColumn n c scope)) :
    select.findIdx? (Item.sameAs true · x) = some j := by
  obtain ⟨hlt, hget⟩ := List.getElem?_eq_some_iff.mp hselect
  refine List.findIdx?_eq_some_iff_getElem.mpr ⟨hlt, ?_, fun k hk hsame => ?_⟩
  · rw [hget, ← Item.sameAs_withoutAlias, ← hx]
    exact Item.sameAs_ofColumn true n n c scope
  · have heq := h.eq_of_sameAs_copy hj hm hx
      (List.getElem?_eq_getElem (Nat.lt_trans hk hlt)) hsame
    exact Nat.ne_of_lt hk heq

end Copies

/-- **An item is found in a layout where it is found in the select list**, if it was made before the
copies and select items with its identity are copies of it. -/
theorem LaysOut.find?_eq (h : LaysOut first header select) {x : Item} (hx : x.id < first)
    (hcopies : ∀ s ∈ select, s.id = x.id → s.withoutAlias = x.withoutAlias) :
    find? header x = find? select x := by
  unfold find?
  rw [h.findIdx?_sameAs true x, h.findIdx?_sameAs false x]
  cases hfind : select.findIdx? (fun s => s.id == x.id) with
  | none => rw [h.findIdx?_id_none hx hfind]
  | some j =>
    obtain ⟨hlt, hid, -⟩ := List.findIdx?_eq_some_iff_getElem.mp hfind
    have hselect : select[j]? = some select[j] := List.getElem?_eq_getElem hlt
    obtain ⟨i, hj, hs⟩ := getElem?_of_forall₂ h.items.flip hselect
    by_cases hold : i.id < first
    · rw [h.findIdx?_id_self hx hfind hj hold]
    · obtain ⟨m, n, c, scope, rfl, hn⟩ := hs.exists_copy (Nat.not_lt.mp hold)
      have hcopy := hcopies _ (List.getElem_mem hlt) (beq_iff_eq.mp hid)
      rw [hn] at hcopy hselect
      rw [h.findIdx?_id_copy hj (Nat.not_lt.mp hold) hcopy hx hcopies,
        h.findIdx?_sameAs_copy hj (Nat.not_lt.mp hold) hcopy hselect]
      rfl

end Header

/-! ### Answers -/

namespace RowSet

/-- The data set answers a select list with rows of these values. -/
structure Answers (d : RowSet) (first : Nat) (select : List Item) (values : List (List Value)) :
    Prop where
  header : Header.LaysOut first d.header select
  rows : ∃ header, Header.LaysOut first header select ∧
    d.Yields (values.map fun v => ⟨header, v, none⟩)

variable {d : RowSet} {first : Nat} {select : List Item} {values : List (List Value)}

theorem Answers.paged (h : d.Answers first select values) (firstRow : Nat) (maxRows : Option Nat) :
    (d.paged firstRow maxRows).Answers first select (window firstRow maxRows values) := by
  obtain ⟨header, hheader, hrows⟩ := h.rows
  refine ⟨?_, header, hheader, ?_⟩
  · rw [header_paged]
    exact h.header
  · rw [← window_map]
    exact hrows.paged firstRow maxRows

theorem answers_empty (h : ∀ s ∈ select, s.id < first) : (empty select).Answers first select [] :=
  ⟨Header.laysOut_self h, select, Header.laysOut_self h, yields_ofRows select []⟩

end RowSet

end DocQuery
