import DocQuery.Proofs.Rows.Aggregating
import DocQuery.Proofs.Rows.Ordering

/-!
# DocQuery.Proofs.Rows.Extremes — least and greatest values

The least of some values is found in one pass, and so is the greatest: of two values one is kept
(`firstOf`).  Keeping is associative, because the order of values is a total preorder, and sorting
puts a value in front of the first one of the others or behind it, so the pass ends with the value
that stands first once they are sorted (`head?_mergeSort_cons`).  Therefore the two aggregates of a
column show the value of the first row after sorting the rows that have one
(`RowSet.extremes_agree`).
-/

namespace DocQuery

open Std

/-! ## The first element in an order -/

section Lists

variable {α : Type} (cmp : α → α → Ordering)

/-- The one of two elements that comes first in an order: the left one, unless the right one is
before it. -/
def firstOf (a b : α) : α := if cmp a b != .gt then a else b

theorem firstOf_of_gt {a b : α} (h : cmp a b = .gt) : firstOf cmp a b = b := by
  simp [firstOf, h]

theorem firstOf_of_ne_gt {a b : α} (h : cmp a b ≠ .gt) : firstOf cmp a b = a := by
  simp [firstOf, h]

variable [TransCmp cmp]

theorem firstOf_assoc (a b c : α) :
    firstOf cmp (firstOf cmp a b) c = firstOf cmp a (firstOf cmp b c) := by
  by_cases hab : cmp a b = .gt <;> by_cases hbc : cmp b c = .gt
  · rw [firstOf_of_gt cmp hab, firstOf_of_gt cmp hbc,
      firstOf_of_gt cmp (TransCmp.gt_trans hab hbc)]
  · rw [firstOf_of_gt cmp hab, firstOf_of_ne_gt cmp hbc, firstOf_of_gt cmp hab]
  · rw [firstOf_of_ne_gt cmp hab, firstOf_of_gt cmp hbc]
  · have hac := bne_gt_trans cmp a b c (bne_iff_ne.mpr hab) (bne_iff_ne.mpr hbc)
    rw [firstOf_of_ne_gt cmp hab, firstOf_of_ne_gt cmp hbc, firstOf_of_ne_gt cmp hab,
      firstOf_of_ne_gt cmp (bne_iff_ne.mp hac)]

instance : Associative (firstOf cmp) := ⟨firstOf_assoc cmp⟩

/-- Sorting puts an element in front of the first one of the others, unless that is before it. -/
theorem head?_mergeSort_of_head? (a : α) {b : α} {l : List α}
    (h : (l.mergeSort fun a b => cmp a b != .gt).head? = some b) :
    ((a :: l).mergeSort fun a b => cmp a b != .gt).head? = some (firstOf cmp a b) := by
  obtain ⟨front, back, hsorted, hrest, hfront⟩ :=
    List.mergeSort_cons (bne_gt_trans cmp) (bne_gt_total cmp) a l
  rw [hrest] at h
  rw [hsorted]
  -- The sorted others are the front and the back; the front is what is before the element.
  cases front with
  | nil =>
    have hpairs := List.pairwise_mergeSort (bne_gt_trans cmp) (bne_gt_total cmp) (a :: l)
    rw [hsorted, List.nil_append, List.pairwise_cons] at hpairs
    have hle := hpairs.1 b (List.mem_of_mem_head? h)
    rw [firstOf_of_ne_gt cmp (bne_iff_ne.mp hle)]
    rfl
  | cons first front =>
    obtain rfl : first = b := Option.some.inj h
    have hgt : cmp a first = .gt := by simpa using hfront first List.mem_cons_self
    rw [firstOf_of_gt cmp hgt]
    rfl

/-- **Keeping the first of two again and again ends with the first of all** in sorted order. -/
theorem head?_mergeSort_cons (a : α) (l : List α) :
    ((a :: l).mergeSort fun a b => cmp a b != .gt).head? = some (l.foldl (firstOf cmp) a) := by
  induction l generalizing a with
  | nil => simp
  | cons b rest ih =>
    rw [head?_mergeSort_of_head? cmp a (ih b), List.foldl_cons, List.foldl_assoc]

/-- **What is kept is before all elements in front of it**, and none behind it is before it. -/
theorem exists_split_foldl_firstOf (a : α) (l : List α) : ∃ front back,
    a :: l = front ++ l.foldl (firstOf cmp) a :: back ∧
      (∀ b ∈ front, cmp (l.foldl (firstOf cmp) a) b = .lt) ∧
        ∀ b ∈ back, cmp (l.foldl (firstOf cmp) a) b ≠ .gt := by
  induction l generalizing a with
  | nil => exact ⟨[], [], rfl, List.forall_mem_nil _, List.forall_mem_nil _⟩
  | cons b rest ih =>
    obtain ⟨front, back, hsplit, hfront, hback⟩ := ih b
    rw [List.foldl_cons, List.foldl_assoc]
    -- The pass over the others keeps one of them, and the first element is compared with that alone.
    generalize rest.foldl (firstOf cmp) b = kept at *
    by_cases hgt : cmp a kept = .gt
    · rw [firstOf_of_gt cmp hgt]
      refine ⟨a :: front, back, by rw [hsplit, List.cons_append], ?_, hback⟩
      exact List.forall_mem_cons.mpr ⟨OrientedCmp.gt_iff_lt.mp hgt, hfront⟩
    · rw [firstOf_of_ne_gt cmp hgt]
      refine ⟨[], b :: rest, rfl, List.forall_mem_nil _, fun c hc => ?_⟩
      have hkept : cmp kept c ≠ .gt := by
        rw [hsplit] at hc
        rcases List.mem_append.mp hc with hc | hc
        · rw [hfront c hc]
          exact Ordering.noConfusion
        · rcases List.mem_cons.mp hc with rfl | hc
          · have hself : cmp c c = .eq := ReflCmp.compare_self
            rw [hself]
            exact Ordering.noConfusion
          · exact hback c hc
      exact bne_iff_ne.mp
        (bne_gt_trans cmp a kept c (bne_iff_ne.mpr hgt) (bne_iff_ne.mpr hkept))

end Lists

/-! ## Least and greatest values -/

/-- The function that gives the value that comes first in a direction. -/
def Direction.extreme : Direction → Builtin
  | .ascending => .minimum
  | .descending => .maximum

/-- The values that are not null. -/
def Value.presentAmong (values : List Value) : List Value := values.filter fun v => !v.isNull

/-- The value comes first in a direction: at the head of the values that are not null once they are
sorted, and as the earliest of those that are equal to it; it is null if there are none. -/
structure Value.IsExtreme (direction : Direction) (values : List Value) (v : Value) : Prop where
  head : v = ((sortedIn direction (presentAmong values)).head?).getD .null
  null : v = .null ↔ ∀ w ∈ values, w = .null
  earliest : v ≠ .null → ∃ front back, presentAmong values = front ++ v :: back ∧
    (∀ w ∈ front, direction.compare v w = .lt) ∧ ∀ w ∈ back, direction.compare v w ≠ .gt

namespace Builtin

open Value

theorem leastOf_cons (v : Value) (rest : List Value) :
    leastOf (v :: rest) = rest.foldl (firstOf Direction.ascending.compare) v := by
  refine congrArg (fun op => rest.foldl op v) (funext₂ fun best w => ?_)
  have hswap : w.compare best = (best.compare w).swap := OrientedCmp.eq_swap
  show (if w.compare best == .lt then w else best) = if best.compare w != .gt then best else w
  rw [hswap]
  cases best.compare w <;> rfl

theorem greatestOf_cons (v : Value) (rest : List Value) :
    greatestOf (v :: rest) = rest.foldl (firstOf Direction.descending.compare) v := by
  refine congrArg (fun op => rest.foldl op v) (funext₂ fun best w => ?_)
  show (if best.compare w == .lt then w else best) =
    if (best.compare w).swap != .gt then best else w
  cases best.compare w <;> rfl

/-- The least and the greatest value are found in one pass. -/
theorem aggregate_extreme {direction : Direction} {values rest : List Value} {v : Value}
    (h : presentAmong values = v :: rest) :
    direction.extreme.aggregate values = rest.foldl (firstOf direction.compare) v := by
  cases direction with
  | ascending => exact (congrArg leastOf h).trans (leastOf_cons v rest)
  | descending => exact (congrArg greatestOf h).trans (greatestOf_cons v rest)

/-- There is no least or greatest of no values. -/
theorem aggregate_extreme_of_nil {direction : Direction} {values : List Value}
    (h : presentAmong values = []) : direction.extreme.aggregate values = .null := by
  cases direction with
  | ascending => exact congrArg leastOf h
  | descending => exact congrArg greatestOf h

theorem isExtreme_aggregate (direction : Direction) (values : List Value) :
    IsExtreme direction values (direction.extreme.aggregate values) := by
  cases h : presentAmong values with
  | nil =>
    rw [aggregate_extreme_of_nil h]
    refine ⟨?_, ⟨fun _ w hw => ?_, fun _ => rfl⟩, fun hne => absurd rfl hne⟩
    · rw [h, sortedIn, List.mergeSort_nil]
      rfl
    · have hnull := List.filter_eq_nil_iff.mp h w hw
      cases w <;> first | rfl | exact absurd rfl hnull
  | cons v rest =>
    rw [aggregate_extreme h]
    obtain ⟨front, back, hsplit, hfront, hback⟩ :=
      exists_split_foldl_firstOf direction.compare v rest
    have hkept : rest.foldl (firstOf direction.compare) v ∈ presentAmong values := by
      rw [h, hsplit]
      exact List.mem_append_right _ List.mem_cons_self
    obtain ⟨hmem, hpresent⟩ := List.mem_filter.mp hkept
    refine ⟨?_, ⟨fun hnull => ?_, fun hall => hall _ hmem⟩, fun _ => ?_⟩
    · unfold sortedIn
      rw [h, head?_mergeSort_cons, Option.getD_some]
    · rw [hnull] at hpresent
      cases hpresent
    · exact ⟨front, back, h.trans hsplit, hfront, hback⟩

end Builtin

/-! ## Columns -/

namespace RowSet

open Plan Value

variable {d : RowSet} {rows : List Row} {i c : Item} {direction : Direction}

/-- An item is the least or the greatest value of a column: it reads in every row what the column
reads there. -/
structure IsExtremeOf (direction : Direction) (c : Item) (rows : List Row) (i : Item) : Prop where
  function : i.function = some direction.extreme
  stored : i.expression? = none
  reflexive : Item.sameAs true i i = true
  cells : ∀ row ∈ rows, ∃ v, row.evaluate? i.bare = some v ∧ row.evaluate? c = some v

/-- The least or the greatest value of a column. -/
def extremeCell (direction : Direction) (c : Item) (rows : List Row) : Value :=
  direction.extreme.aggregate (rows.map (Row.cellOf c))

namespace IsExtremeOf

theorem aggregate?_eq (h : IsExtremeOf direction c rows i) :
    i.aggregate? = some direction.extreme := by
  unfold Item.aggregate?
  rw [h.function]
  cases direction <;> rfl

theorem isCountAll (h : IsExtremeOf direction c rows i) : i.isCountAll = false := by
  have hfunction : (i.function == some .count) = false := by
    rw [h.function]
    cases direction <;> rfl
  unfold Item.isCountAll
  split
  · exact hfunction
  · rfl

theorem contribution_eq (h : IsExtremeOf direction c rows i) {row : Row} (hrow : row ∈ rows) :
    contribution i row = .ok (row.cellOf c) := by
  obtain ⟨v, hbare, hcell⟩ := h.cells row hrow
  unfold contribution
  rw [h.isCountAll, if_neg Bool.false_ne_true, hbare, Row.cellOf_eq hcell]

/-- The aggregate is the one of the cells. -/
theorem aggregateOver_eq (h : IsExtremeOf direction c rows i) :
    aggregateOver i rows = extremeCell direction c rows := by
  unfold aggregateOver extremeCell
  rw [h.aggregate?_eq]
  refine congrArg direction.extreme.aggregate (List.map_congr_left fun row hrow => ?_)
  exact (eq_inputOf_of_contribution (h.contribution_eq hrow)).symm

end IsExtremeOf

/-- The cells of the rows with a value are those of all rows that are not null. -/
theorem map_cellOf_present (c : Item) (rows : List Row) :
    (present c rows).map (Row.cellOf c) = presentAmong (rows.map (Row.cellOf c)) := by
  unfold present presentAmong
  rw [List.filter_map]
  rfl

/-- The first of the rows with a value, once they are sorted, has the value that comes first. -/
theorem map_cellOf_first (direction : Direction) (c : Item) (rows : List Row) :
    ((sortRows [⟨c, direction⟩] (present c rows)).take 1).map (Row.cellOf c) =
      presentAmong [extremeCell direction c rows] := by
  rw [List.map_take, map_cellOf_sortRows, map_cellOf_present]
  have hhead : extremeCell direction c rows = _ := (Builtin.isExtreme_aggregate direction _).head
  rw [hhead]
  cases hsorted : sortedIn direction (presentAmong (rows.map (Row.cellOf c))) with
  | nil => rfl
  | cons first rest =>
    have hmem : first ∈ presentAmong (rows.map (Row.cellOf c)) := by
      have hperm := List.mergeSort_perm (presentAmong (rows.map (Row.cellOf c)))
        fun a b => direction.compare a b != .gt
      refine hperm.mem_iff.mp ?_
      show first ∈ sortedIn direction _
      rw [hsorted]
      exact List.mem_cons_self
    have hpresent : first.isNull = false := by simpa using (List.mem_filter.mp hmem).2
    simp [presentAmong, hpresent]

/-- **The least and the greatest value are the first ones in order.**  Of any values that are not
null, the function of a direction gives the head once they are sorted, the earliest of those equal
to it, and null exactly if there are none.  So over a column it shows the value of the first row
after sorting the rows that have one by the column. -/
theorem extremes_agree (direction : Direction) :
    (∀ values, IsExtreme direction values (direction.extreme.aggregate values)) ∧
    ∀ {d : RowSet} {rows : List Row} {i c : Item}, d.Yields rows →
      Header.isReadable d.header c = true → IsExtremeOf direction c rows i → ∀ l : Ledger,
        ((d.aggregated [i]).Gives l fun d' _ => d'.Shows [[extremeCell direction c rows]]) ∧
          ((d.filtered [.comparison c .different (.value .null)]).ordered [⟨c, direction⟩]).Gives l
            fun d' _ => ∃ first, (d'.paged 1 (some 1)).Yields first ∧
              first.map (Row.cellOf c) = presentAmong [extremeCell direction c rows] := by
  refine ⟨Builtin.isExtreme_aggregate direction, fun {d rows i c} hd hreadable hi l => ⟨?_, ?_⟩⟩
  · rw [← hi.aggregateOver_eq]
    exact gives_aggregated_single hd (by rw [hi.aggregate?_eq]; rfl) hi.stored hi.reflexive
      (fun row hrow => ⟨_, hi.contribution_eq hrow⟩) l
  · have hcells : ∀ row ∈ rows, (row.evaluate? c).isSome = true := by
      intro row hrow
      obtain ⟨v, -, hv⟩ := hi.cells row hrow
      rw [hv, Option.isSome_some]
    refine ((hd.filtered_present hcells).gives_ordered_by direction hreadable l).mono
      fun d' _ hd' => ?_
    exact ⟨_, hd'.paged 1 (some 1), map_cellOf_first direction c rows⟩

/-- The least and the greatest value of numbers, texts and nothing. -/
theorem extremes_agree_of_pairs :
    let c := (byColumn 1 "a" .ascending).item
    let least := Item.ofFunction 3 .minimum ⟨"a", "t", none, false⟩ none
    let greatest := Item.ofFunction 4 .maximum ⟨"a", "t", none, false⟩ none
    let rows := [pairRow (.text "x") .null, pairRow .null .null, pairRow (.text "7") .null,
      pairRow (.integer 2) .null]
    let d := ofRows (pairRow .null .null).header rows
    (d.Yields rows ∧ Header.isReadable d.header c = true ∧
      IsExtremeOf .ascending c rows least ∧ IsExtremeOf .descending c rows greatest) ∧
    (((d.aggregated [least]).Gives {} fun d' _ => d'.Shows [[.integer 2]]) ∧
      ((d.filtered [.comparison c .different (.value .null)]).ordered [⟨c, .ascending⟩]).Gives {}
        fun d' _ => ∃ first, (d'.paged 1 (some 1)).Yields first ∧
          first.map (Row.cellOf c) = [.integer 2]) ∧
    (((d.aggregated [greatest]).Gives {} fun d' _ => d'.Shows [[.text "x"]]) ∧
      ((d.filtered [.comparison c .different (.value .null)]).ordered [⟨c, .descending⟩]).Gives {}
        fun d' _ => ∃ first, (d'.paged 1 (some 1)).Yields first ∧
          first.map (Row.cellOf c) = [.text "x"]) := by
  intro c least greatest rows d
  have hd : d.Yields rows := yields_ofRows _ _
  have hreadable : Header.isReadable d.header c = true := by decide
  have hcells (i : Item) (hi : i = least ∨ i = greatest) :
      ∀ row ∈ rows, ∃ v, row.evaluate? i.bare = some v ∧ row.evaluate? c = some v := by
    rcases hi with rfl | rfl <;> simp only [rows, List.forall_mem_cons] <;>
      exact ⟨⟨_, rfl, rfl⟩, ⟨_, rfl, rfl⟩, ⟨_, rfl, rfl⟩, ⟨_, rfl, rfl⟩, List.forall_mem_nil _⟩
  have hleast : IsExtremeOf .ascending c rows least := ⟨rfl, rfl, rfl, hcells _ (Or.inl rfl)⟩
  have hgreatest : IsExtremeOf .descending c rows greatest := ⟨rfl, rfl, rfl, hcells _ (Or.inr rfl)⟩
  refine ⟨⟨hd, hreadable, hleast, hgreatest⟩, ?_, ?_⟩
  · exact (extremes_agree .ascending).2 hd hreadable hleast {}
  · exact (extremes_agree .descending).2 hd hreadable hgreatest {}

end RowSet

end DocQuery
