import DocQuery.Proofs.Rows.Operators
import DocQuery.Proofs.Rows.Reading
import DocQuery.Proofs.Rows.Tabular
import DocQuery.Proofs.Value.Order

/-!
# DocQuery.Proofs.Rows.Ordering — what ordering rows gives

What it means that rows are sorted is said of pairs of rows alone: which of two rows is before the
other one (`OrderItem.IsBefore`) and which are tied (`OrderItem.IsTied`), item by item.  Sorted rows
are the given ones, no row is before an earlier one, and tied rows stay as they were
(`RowSet.IsSorting`), which leaves no choice (`IsSorting.unique`).  Ordering a data set sorts its rows
so, because the order of values is a total preorder and so is the order of rows, one item after the
other.

A comparison of an item with a value and an order by one item see nothing of a row but one cell
(`Row.cellOf`).  The comparison keeps the rows whose cell compares so
(`RowSet.Yields.filtered_compared`), and the cells of sorted rows are the sorted cells
(`RowSet.map_cellOf_sortRows`).
-/

namespace DocQuery

open Std

/-! ## Sorting by a comparison -/

section Comparisons

variable {α : Type} (cmp : α → α → Ordering) [TransCmp cmp]

/-- What may stand in front of one element may stand in front of all that it may. -/
theorem bne_gt_trans (a b c : α) (hab : (cmp a b != .gt) = true) (hbc : (cmp b c != .gt) = true) :
    (cmp a c != .gt) = true := by
  rw [bne_iff_ne] at hab hbc ⊢
  exact Ordering.isLE_iff_ne_gt.mp (TransCmp.isLE_trans (Ordering.isLE_iff_ne_gt.mpr hab)
    (Ordering.isLE_iff_ne_gt.mpr hbc))

/-- One of two elements may stand in front of the other one. -/
theorem bne_gt_total (a b : α) : (cmp a b != .gt || cmp b a != .gt) = true := by
  have hswap : cmp b a = (cmp a b).swap := OrientedCmp.eq_swap
  rw [hswap]
  cases cmp a b <;> rfl

end Comparisons

namespace OrderItem

/-! ## The order of rows -/

/-- The order of two rows by the values of an item, in its direction. -/
def compareRows (o : OrderItem) (a b : Row) : Ordering :=
  let values := ((a.evaluate? o.item).getD .null).compare ((b.evaluate? o.item).getD .null)
  match o.direction with
  | .ascending => values
  | .descending => values.swap

/-- No item tells two rows apart. -/
def IsTied (orderBy : List OrderItem) (a b : Row) : Prop :=
  ∀ o ∈ orderBy, o.compareRows a b = .eq

instance (orderBy : List OrderItem) (a b : Row) : Decidable (IsTied orderBy a b) :=
  inferInstanceAs (Decidable (∀ o ∈ orderBy, o.compareRows a b = .eq))

/-- The first item that tells two rows apart puts the one before the other. -/
def IsBefore (orderBy : List OrderItem) (a b : Row) : Prop :=
  ∃ front o back, orderBy = front ++ o :: back ∧ IsTied front a b ∧ o.compareRows a b = .lt

instance (o : OrderItem) : TransCmp o.compareRows := by
  obtain ⟨item, direction⟩ := o
  have hvalues : TransCmp fun a b : Row =>
      ((a.evaluate? item).getD .null).compare ((b.evaluate? item).getD .null) :=
    { eq_swap := OrientedCmp.eq_swap, isLE_trans := TransCmp.isLE_trans }
  cases direction with
  | ascending => exact hvalues
  | descending =>
    -- Turning the order round is turning the sides round.
    have hswap : compareRows ⟨item, .descending⟩ = fun a b : Row =>
        ((b.evaluate? item).getD .null).compare ((a.evaluate? item).getD .null) := by
      funext a b
      exact OrientedCmp.eq_swap.symm
    rw [hswap]
    exact TransCmp.opposite

/-- The order of two rows by items, one after the other. -/
def compareAll (orderBy : List OrderItem) (a b : Row) : Ordering :=
  RowSet.compareKeys orderBy (RowSet.sortKeys orderBy a) (RowSet.sortKeys orderBy b)

theorem compareAll_nil (a b : Row) : compareAll [] a b = .eq := rfl

theorem compareAll_cons (o : OrderItem) (rest : List OrderItem) (a b : Row) :
    compareAll (o :: rest) a b = (o.compareRows a b).then (compareAll rest a b) := rfl

instance (orderBy : List OrderItem) : TransCmp (compareAll orderBy) := by
  induction orderBy with
  | nil => exact { eq_swap := rfl, isLE_trans := fun _ _ => rfl }
  | cons o rest ih => exact inferInstanceAs (TransCmp (compareLex o.compareRows (compareAll rest)))

theorem isTied_cons {o : OrderItem} {rest : List OrderItem} {a b : Row} :
    IsTied (o :: rest) a b ↔ o.compareRows a b = .eq ∧ IsTied rest a b :=
  List.forall_mem_cons

theorem isBefore_cons {o : OrderItem} {rest : List OrderItem} {a b : Row} :
    IsBefore (o :: rest) a b ↔
      o.compareRows a b = .lt ∨ o.compareRows a b = .eq ∧ IsBefore rest a b := by
  constructor
  · rintro ⟨front, p, back, hsplit, htied, hlt⟩
    cases front with
    | nil =>
      cases hsplit
      exact Or.inl hlt
    | cons q front =>
      cases hsplit
      rw [isTied_cons] at htied
      exact Or.inr ⟨htied.1, front, p, back, rfl, htied.2, hlt⟩
  · rintro (hlt | ⟨heq, front, p, back, rfl, htied, hlt⟩)
    · exact ⟨[], o, rest, rfl, List.forall_mem_nil _, hlt⟩
    · exact ⟨o :: front, p, back, rfl, isTied_cons.mpr ⟨heq, htied⟩, hlt⟩

variable {orderBy : List OrderItem} {a b c : Row}

theorem compareAll_eq_eq_iff : compareAll orderBy a b = .eq ↔ IsTied orderBy a b := by
  induction orderBy with
  | nil => simp [compareAll_nil, IsTied]
  | cons o rest ih => rw [compareAll_cons, Ordering.then_eq_eq, isTied_cons, ih]

theorem compareAll_eq_lt_iff : compareAll orderBy a b = .lt ↔ IsBefore orderBy a b := by
  induction orderBy with
  | nil => simp [compareAll_nil, IsBefore]
  | cons o rest ih => rw [compareAll_cons, Ordering.then_eq_lt, isBefore_cons, ih]

/-- A row may stand in front of another one exactly if that one is not before it. -/
theorem compareAll_bne_gt_iff : (compareAll orderBy a b != .gt) = true ↔ ¬ IsBefore orderBy b a := by
  rw [bne_iff_ne, ← compareAll_eq_lt_iff, ne_eq, not_iff_not]
  exact OrientedCmp.gt_iff_lt

theorem IsTied.not_isBefore (h : IsTied orderBy a b) : ¬ IsBefore orderBy a b := by
  rw [← compareAll_eq_lt_iff, compareAll_eq_eq_iff.mpr h]
  exact Ordering.noConfusion

/-- Rows of which neither is before the other one are tied. -/
theorem isTied_of_not_isBefore (h : ¬ IsBefore orderBy a b) (h' : ¬ IsBefore orderBy b a) :
    IsTied orderBy a b := by
  rw [← compareAll_eq_lt_iff] at h h'
  rw [← compareAll_eq_eq_iff]
  cases hcompare : compareAll orderBy a b with
  | lt => exact absurd hcompare h
  | eq => rfl
  | gt => exact absurd (OrientedCmp.gt_iff_lt.mp hcompare) h'

theorem IsTied.refl (orderBy : List OrderItem) (a : Row) : IsTied orderBy a a :=
  compareAll_eq_eq_iff.mp ReflCmp.compare_self

theorem IsTied.symm (h : IsTied orderBy a b) : IsTied orderBy b a := by
  rw [← compareAll_eq_eq_iff] at h ⊢
  exact OrientedCmp.eq_symm h

theorem IsTied.trans (h : IsTied orderBy a b) (h' : IsTied orderBy b c) : IsTied orderBy a c := by
  rw [← compareAll_eq_eq_iff] at h h' ⊢
  exact TransCmp.eq_trans h h'

end OrderItem

namespace RowSet

open Plan OrderItem

/-! ## Sorted rows -/

/-- The given rows, none of them in front of one that is before it, and all rows that are tied in the
order in which they were given. -/
structure IsSorting (orderBy : List OrderItem) (rows sorted : List Row) : Prop where
  perm : sorted.Perm rows
  inOrder : sorted.Pairwise fun earlier later => ¬ IsBefore orderBy later earlier
  stable : ∀ row, sorted.filter (IsTied orderBy row ·) = rows.filter (IsTied orderBy row ·)

/-- **There is one way to sort rows.** -/
theorem IsSorting.unique {orderBy : List OrderItem} {rows sorted sorted' : List Row}
    (h : IsSorting orderBy rows sorted) (h' : IsSorting orderBy rows sorted') :
    sorted = sorted' := by
  have hperm : sorted.Perm sorted' := h.perm.trans h'.perm.symm
  have hstable (row : Row) :
      sorted.filter (IsTied orderBy row ·) = sorted'.filter (IsTied orderBy row ·) :=
    (h.stable row).trans (h'.stable row).symm
  have horder := h.inOrder
  have horder' := h'.inOrder
  clear h h'
  induction sorted generalizing sorted' with
  | nil => exact hperm.nil_eq
  | cons a rest ih =>
    cases sorted' with
    | nil => exact absurd hperm.symm.nil_eq (List.cons_ne_nil _ _).symm
    | cons b rest' =>
      rw [List.pairwise_cons] at horder horder'
      -- Each first row is among the other rows, so neither is before the other one.
      have hab : IsTied orderBy a b := by
        rcases List.mem_cons.mp (hperm.mem_iff.mp List.mem_cons_self) with rfl | ha
        · exact IsTied.refl orderBy a
        rcases List.mem_cons.mp (hperm.mem_iff.mpr List.mem_cons_self) with rfl | hb
        · exact IsTied.refl orderBy b
        exact isTied_of_not_isBefore (horder'.1 a ha) (horder.1 b hb)
      have hfirst : a = b := by
        have htied := hstable a
        rw [List.filter_cons_of_pos (by simpa using IsTied.refl orderBy a),
          List.filter_cons_of_pos (by simpa using hab)] at htied
        exact (List.cons.inj htied).1
      subst hfirst
      refine congrArg (a :: ·) (ih hperm.cons_inv (fun row => ?_) horder.2 horder'.2)
      have htied := hstable row
      rw [List.filter_cons, List.filter_cons] at htied
      split at htied
      · exact (List.cons.inj htied).2
      · exact htied

/-- **Sorting rows sorts them.** -/
theorem isSorting_sortRows (orderBy : List OrderItem) (rows : List Row) :
    IsSorting orderBy rows (sortRows orderBy rows) := by
  have htrans := bne_gt_trans (compareAll orderBy)
  have htotal := bne_gt_total (compareAll orderBy)
  have hsorted : sortRows orderBy rows =
      rows.mergeSort fun a b => compareAll orderBy a b != .gt := sortRows_eq orderBy rows
  refine ⟨sortRows_perm orderBy rows, ?_, fun row => ?_⟩
  · rw [hsorted]
    exact (List.pairwise_mergeSort htrans htotal rows).imp compareAll_bne_gt_iff.mp
  · -- The rows tied with one are in order as they are, so sorting keeps them as a part.
    have hpart : (rows.filter (IsTied orderBy row ·)).Sublist (sortRows orderBy rows) := by
      rw [hsorted]
      refine List.sublist_mergeSort htrans htotal (List.pairwise_of_forall_mem_list ?_)
        List.filter_sublist
      intro a ha b hb
      have ha : IsTied orderBy row a := by simpa using (List.mem_filter.mp ha).2
      have hb : IsTied orderBy row b := by simpa using (List.mem_filter.mp hb).2
      exact compareAll_bne_gt_iff.mpr (hb.symm.trans ha).not_isBefore
    have hkept := hpart.filter (IsTied orderBy row ·)
    rw [List.filter_filter] at hkept
    simp only [Bool.and_self] at hkept
    exact (hkept.eq_of_length ((sortRows_perm orderBy rows).filter _).length_eq.symm).symm

/-- What is left of sorted rows is what is left of the rows, sorted. -/
theorem IsSorting.filter {orderBy : List OrderItem} {rows sorted : List Row}
    (h : IsSorting orderBy rows sorted) (p : Row → Bool) :
    IsSorting orderBy (rows.filter p) (sorted.filter p) := by
  refine ⟨h.perm.filter p, h.inOrder.filter p, fun row => ?_⟩
  rw [List.filter_comm, h.stable row, List.filter_comm]

/-! ## Ordering a data set -/

/-- Closing a data set reads nothing of any. -/
theorem advances_close (d : RowSet) (l : Ledger) :
    (d.close.run l).2.meters.map Meter.advances = l.meters.map Meter.advances := by
  unfold close
  cases d.source with
  | none => rfl
  | some n =>
    show (l.meters.modify n fun m => { m with closes := m.closes + 1 }).map Meter.advances = _
    refine List.ext_getElem? fun k => ?_
    rw [List.getElem?_map, List.getElem?_modify, List.getElem?_map]
    cases l.meters[k]? with
    | none => rfl
    | some m =>
      show some (if n = k then _ else m).advances = some m.advances
      split <;> rfl

/-- A data set with this header, and the given rows in order. -/
structure IsOrdered (d d' : RowSet) (orderBy : List OrderItem) (rows : List Row) : Prop where
  header : d'.header = d.header
  rows : ∃ sorted, d'.Yields sorted ∧ IsSorting orderBy rows sorted

/-- What ordering ends with if an item cannot be read: the data set is closed, and nothing is read of
it. -/
structure RefusesOrder (d : RowSet) (orderBy : List OrderItem) (l : Ledger) : Prop where
  failure : ∃ o ∈ orderBy, Header.isReadable d.header o.item = false ∧
    (d.ordered orderBy).run l =
      (.error (.orderItemMissing o.item.sqlWithoutAlias), (d.close.run l).2)
  unread : ((d.ordered orderBy).run l).2.meters.map Meter.advances = l.meters.map Meter.advances

/-- **Ordering a data set gives its rows sorted**, stably and in the direction of each item, under the
same header, if all items can be read.  Otherwise it fails before it reads a row. -/
theorem gives_sorted (d : RowSet) (orderBy : List OrderItem) (l : Ledger) :
    (∀ rows, d.Yields rows → (∀ o ∈ orderBy, Header.isReadable d.header o.item = true) →
      (d.ordered orderBy).Gives l fun d' _ => IsOrdered d d' orderBy rows) ∧
    ((∃ o ∈ orderBy, Header.isReadable d.header o.item = false) → RefusesOrder d orderBy l) := by
  constructor
  · intro rows hd hreadable
    have hnone : (orderBy.find? fun o => !Header.isReadable d.header o.item) = none :=
      List.find?_eq_none.mpr fun o ho => by simp [hreadable o ho]
    unfold ordered
    split
    next hempty =>
      obtain rfl := List.isEmpty_iff.mp hempty
      -- Nothing tells rows apart, so they are sorted as they are.
      refine gives_pure ⟨rfl, rows, hd, .refl rows, ?_, fun _ => rfl⟩
      refine List.pairwise_of_forall fun a b => IsTied.not_isBefore (List.forall_mem_nil _)
    next =>
      rw [hnone]
      exact gives_bind (gives_toRows hd fun _ _ =>
        gives_pure ⟨rfl, _, yields_ofRows _ _, isSorting_sortRows orderBy rows⟩)
  · rintro ⟨p, hp, hunreadable⟩
    obtain ⟨o, hfirst⟩ := Option.isSome_iff_exists.mp (List.find?_isSome.mpr
      (⟨p, hp, by simp [hunreadable]⟩ :
        ∃ o ∈ orderBy, (!Header.isReadable d.header o.item) = true))
    have hrun : (d.ordered orderBy).run l =
        (.error (.orderItemMissing o.item.sqlWithoutAlias), (d.close.run l).2) := by
      unfold ordered
      rw [if_neg (by simpa using List.ne_nil_of_mem hp), hfirst]
      have hgives : d.close.Gives l fun _ _ => True := gives_close fun _ _ => trivial
      obtain ⟨_, l', hclose, -⟩ := hgives
      show (d.close >>= fun _ => throw _).run l = _
      rw [run_bind_of_run hclose, hclose]
      rfl
    refine ⟨⟨o, List.mem_of_find?_eq_some hfirst, ?_, hrun⟩, ?_⟩
    · simpa using List.find?_some hfirst
    · rw [hrun]
      exact advances_close d l

/-- A column of a table by name, as an item to order by. -/
def byColumn (id : Nat) (name : String) (direction : Direction) : OrderItem :=
  ⟨Item.ofColumn id ⟨name, "t", none, false⟩ none, direction⟩

/-- A row of two columns. -/
def pairRow (a b : Value) : Row :=
  ⟨[(byColumn 1 "a" .ascending).item, (byColumn 2 "b" .ascending).item], [a, b], none⟩

/-- Rows of numbers and texts, a tie among them, sorted downwards by one column and upwards by the
other; and a column that they do not have. -/
theorem gives_sorted_by_two_columns :
    let rows := [pairRow (.integer 1) (.text "x"), pairRow (.text "one") (.integer 3),
      pairRow (.integer 2) (.text "z"), pairRow (.integer 1) (.integer 7),
      pairRow (.integer 2) (.text "z")]
    let d := ofRows (pairRow .null .null).header rows
    let orderBy := [byColumn 3 "a" .descending, byColumn 4 "b" .ascending]
    ((∀ o ∈ orderBy, Header.isReadable d.header o.item = true) ∧
      (d.ordered orderBy).Gives {} fun d' _ => IsOrdered d d' orderBy rows) ∧
    ((∃ o ∈ byColumn 5 "c" .ascending :: orderBy, Header.isReadable d.header o.item = false) ∧
      RefusesOrder d (byColumn 5 "c" .ascending :: orderBy) {}) := by
  intro rows d orderBy
  have hreadable : ∀ o ∈ orderBy, Header.isReadable d.header o.item = true := by decide
  have hmissing : ∃ o ∈ byColumn 5 "c" .ascending :: orderBy,
      Header.isReadable d.header o.item = false := by decide
  refine ⟨⟨hreadable, ?_⟩, hmissing, ?_⟩
  · exact (gives_sorted d orderBy {}).1 rows (yields_ofRows _ _) hreadable
  · exact (gives_sorted d (byColumn 5 "c" .ascending :: orderBy) {}).2 hmissing

end RowSet

/-! ## Rows by the cells of one item -/

open Std

/-! ### Values in a direction -/

/-- The order of values in a direction. -/
def Direction.compare : Direction → Value → Value → Ordering
  | .ascending => Value.compare
  | .descending => fun v w => (v.compare w).swap

instance (direction : Direction) : TransCmp direction.compare := by
  cases direction with
  | ascending => exact inferInstanceAs (TransCmp Value.compare)
  | descending =>
    have hswap : Direction.descending.compare = fun v w => w.compare v := by
      funext v w
      exact OrientedCmp.eq_swap.symm
    rw [hswap]
    exact TransCmp.opposite

/-- The values in the order of a direction, equal ones in their given order. -/
def Value.sortedIn (direction : Direction) (values : List Value) : List Value :=
  values.mergeSort fun v w => direction.compare v w != .gt

/-! ### Cells -/

namespace Row

/-- The value of an item in a row; null where it has none. -/
def cellOf (c : Item) (row : Row) : Value := (row.evaluate? c).getD .null

theorem cellOf_eq {c : Item} {row : Row} {v : Value} (h : row.evaluate? c = some v) :
    row.cellOf c = v := by
  rw [cellOf, h, Option.getD_some]

theorem evaluate?_eq_cellOf {c : Item} {row : Row} (h : (row.evaluate? c).isSome = true) :
    row.evaluate? c = some (row.cellOf c) := by
  obtain ⟨v, hv⟩ := Option.isSome_iff_exists.mp h
  rw [hv, cellOf_eq hv]

end Row

/-- A filter that compares an item with a value accepts a row as its cell compares. -/
theorem Filter.allAccept_comparison_value {row : Row} {c : Item}
    (h : (row.evaluate? c).isSome = true) (op : Comparison) (w : Value) :
    allAccept row [.comparison c op (.value w)] = .ok (op.holds (row.cellOf c) w) := by
  have hread : ∀ i ∈ itemsOf [.comparison c op (.value w)],
      row.evaluate? i = some (row.cellOf i) := by
    intro i hi
    obtain rfl : i = c := by simpa [itemsOf, items, comparisonItems] using hi
    exact Row.evaluate?_eq_cellOf h
  rw [allAccept_eq_allHold _ hread rfl]
  simp [allHold, Filter.holds, comparisonHolds]

namespace OrderItem

theorem compareAll_single (c : Item) (direction : Direction) (a b : Row) :
    compareAll [⟨c, direction⟩] a b = direction.compare (a.cellOf c) (b.cellOf c) := by
  rw [compareAll_cons, compareAll_nil, Ordering.then_eq]
  cases direction <;> rfl

end OrderItem

namespace RowSet

open Plan OrderItem

variable {c : Item} {direction : Direction} {rows sorted : List Row} {d : RowSet}

/-! ### Filtering -/

/-- The rows whose cell compares so with a value. -/
def compared (c : Item) (op : Comparison) (w : Value) (rows : List Row) : List Row :=
  rows.filter fun row => op.holds (row.cellOf c) w

/-- The rows whose cell is not null. -/
def present (c : Item) (rows : List Row) : List Row := rows.filter fun row => !(row.cellOf c).isNull

/-- **A filter that compares an item with a value gives the rows whose cell compares so.** -/
theorem Yields.filtered_compared (hd : d.Yields rows)
    (hcells : ∀ row ∈ rows, (row.evaluate? c).isSome = true) (op : Comparison) (w : Value) :
    (d.filtered [.comparison c op (.value w)]).Yields (compared c op w rows) := by
  rw [← List.map_id rows] at hd
  rw [← List.map_id (compared c op w rows)]
  exact hd.filtered fun row hrow => Filter.allAccept_comparison_value (hcells row hrow) op w

/-- A filter for what differs from null gives the rows with a value. -/
theorem Yields.filtered_present (hd : d.Yields rows)
    (hcells : ∀ row ∈ rows, (row.evaluate? c).isSome = true) :
    (d.filtered [.comparison c .different (.value .null)]).Yields (present c rows) :=
  hd.filtered_compared hcells .different .null

/-! ### Sorting -/

/-- Ordering a data set by one item that can be read sorts its rows by it. -/
theorem Yields.gives_ordered_by (hd : d.Yields rows) (direction : Direction)
    (hreadable : Header.isReadable d.header c = true) (l : Ledger) :
    (d.ordered [⟨c, direction⟩]).Gives l fun d' _ =>
      d'.Yields (sortRows [⟨c, direction⟩] rows) := by
  have hall : ∀ o ∈ [(⟨c, direction⟩ : OrderItem)], Header.isReadable d.header o.item = true := by
    simpa using hreadable
  exact (hd.gives_ordered hall l).mono fun _ _ h => h.2.2

/-- **The cells of sorted rows are the sorted cells.** -/
theorem map_cellOf_sortRows (c : Item) (direction : Direction) (rows : List Row) :
    (sortRows [⟨c, direction⟩] rows).map (Row.cellOf c) =
      Value.sortedIn direction (rows.map (Row.cellOf c)) := by
  rw [sortRows_eq]
  refine List.map_mergeSort fun a _ b _ => ?_
  exact congrArg (· != Ordering.gt) (compareAll_single c direction a b)

/-- Sorted rows have sorted cells. -/
theorem IsSorting.pairwise_cellOf (h : IsSorting [⟨c, direction⟩] rows sorted) :
    sorted.Pairwise fun a b => (direction.compare (a.cellOf c) (b.cellOf c)).isLE := by
  refine h.inOrder.imp fun {a b} hbefore => ?_
  have hcompare := compareAll_bne_gt_iff.mpr hbefore
  rw [compareAll_single, bne_iff_ne] at hcompare
  exact Ordering.isLE_iff_ne_gt.mpr hcompare

end RowSet

end DocQuery
