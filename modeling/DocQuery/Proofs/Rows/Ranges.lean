import DocQuery.Proofs.Rows.Ordering
import DocQuery.Proofs.Value.Order

/-!
# DocQuery.Proofs.Rows.Ranges — numbers cut sorted columns

Rows are sorted by one order of values and filtered by another one.  On a column of numbers and
texts the two agree about every number: what is below it stands first among the sorted rows that
have a value, and what is above it stands last (`RowSet.gives_ranges`), however stored numbers,
numbers in texts and other texts are mixed.
-/

namespace DocQuery

open Std

/-! ## Tests along a list -/

section Lists

variable {α : Type} {l : List α} {p : α → Bool}

/-- What passes a test stands first, if all before it passes too. -/
theorem filter_prefix_of_pairwise (h : l.Pairwise fun a b => p b = true → p a = true) :
    l.filter p <+: l := by
  induction l with
  | nil => exact List.prefix_refl []
  | cons a rest ih =>
    rw [List.pairwise_cons] at h
    cases ha : p a with
    | true =>
      rw [List.filter_cons_of_pos ha]
      exact (List.prefix_cons_inj a).mpr (ih h.2)
    | false =>
      have hnone : (a :: rest).filter p = [] := by
        refine List.filter_eq_nil_iff.mpr fun b hb hpass => ?_
        rcases List.mem_cons.mp hb with rfl | hb
        · rw [ha] at hpass
          cases hpass
        · rw [h.1 b hb hpass] at ha
          cases ha
      rw [hnone]
      exact List.nil_prefix

/-- What passes a test stands last, if all after it passes too. -/
theorem filter_suffix_of_pairwise (h : l.Pairwise fun a b => p a = true → p b = true) :
    l.filter p <:+ l := by
  rw [← List.reverse_prefix, ← List.filter_reverse]
  exact filter_prefix_of_pairwise (List.pairwise_reverse.mpr h)

end Lists

/-! ## Comparisons with a number -/

namespace Comparison

variable {op : Comparison} {a b : Value}

/-- The comparison asks for something below, or not above. -/
def AsksBelow (op : Comparison) : Prop := op = .less ∨ op = .atMost

/-- The comparison asks for something above, or not below. -/
def AsksAbove (op : Comparison) : Prop := op = .greater ∨ op = .atLeast

/-- Null is neither below nor above anything. -/
theorem isNull_eq_false_of_holds (hop : op.AsksBelow ∨ op.AsksAbove) {v : Value}
    (h : op.holds a v = true) : a.isNull = false := by
  cases ha : a.isNull with
  | false => rfl
  | true =>
    unfold holds at h
    rw [ha] at h
    rcases hop with (rfl | rfl) | (rfl | rfl) <;> cases h

section Numbers

variable {n : Number} (ha : a.isWritten = true) (hb : b.isWritten = true) (hab : (a.compare b).isLE)

include ha hb hab

/-- **What sorts up to something below a number is below it**, too. -/
theorem holds_below_of_isLE (hop : op.AsksBelow) (h : op.holds b (.number n) = true) :
    op.holds a (.number n) = true := by
  obtain ⟨hless, hatMost⟩ := Value.compareLoose_number_mono ha hb hab n
  unfold holds at h ⊢
  rw [Value.isNull_of_isWritten hb] at h
  rw [Value.isNull_of_isWritten ha]
  rcases hop with rfl | rfl
  · exact beq_iff_eq.mpr (hless (beq_iff_eq.mp h))
  · exact bne_iff_ne.mpr (hatMost (bne_iff_ne.mp h))

/-- **What sorts from something above a number on is above it**, too. -/
theorem holds_above_of_isLE (hop : op.AsksAbove) (h : op.holds a (.number n) = true) :
    op.holds b (.number n) = true := by
  obtain ⟨hless, hatMost⟩ := Value.compareLoose_number_mono ha hb hab n
  unfold holds at h ⊢
  rw [Value.isNull_of_isWritten ha] at h
  rw [Value.isNull_of_isWritten hb]
  rcases hop with rfl | rfl
  · refine beq_iff_eq.mpr (not_not.mp fun hnot => ?_)
    exact hatMost hnot (beq_iff_eq.mp h)
  · exact bne_iff_ne.mpr fun hlt => bne_iff_ne.mp h (hless hlt)

end Numbers

end Comparison

/-! ## Cuts -/

/-- The row has nothing, a number or a text for an item. -/
def Row.IsWrittenAt (c : Item) (row : Row) : Prop :=
  ∃ v, row.evaluate? c = some v ∧ (v = .null ∨ v.isWritten = true)

theorem Row.IsWrittenAt.isSome {c : Item} {row : Row} (h : row.IsWrittenAt c) :
    (row.evaluate? c).isSome = true := by
  obtain ⟨v, hv, -⟩ := h
  rw [hv, Option.isSome_some]

theorem Row.IsWrittenAt.isWritten {c : Item} {row : Row} (h : row.IsWrittenAt c)
    (hpresent : (row.cellOf c).isNull = false) : (row.cellOf c).isWritten = true := by
  obtain ⟨v, hv, rfl | hwritten⟩ := h
  · rw [cellOf_eq hv] at hpresent
    cases hpresent
  · rwa [cellOf_eq hv]

namespace RowSet

open Plan OrderItem

variable {c : Item} {rows sorted : List Row} {d : RowSet} {op : Comparison}

/-- The rows that compare so with a value are among those that have one. -/
theorem compared_present (hop : op.AsksBelow ∨ op.AsksAbove) (w : Value) :
    compared c op w (present c rows) = compared c op w rows := by
  unfold compared present
  rw [List.filter_filter]
  refine List.filter_congr fun row _ => ?_
  cases hholds : op.holds (row.cellOf c) w with
  | false => rfl
  | true =>
    rw [Comparison.isNull_eq_false_of_holds hop hholds]
    rfl

/-- Of the sorted rows with a value, those that are below a number stand first and those that are
above it stand last. -/
theorem IsSorting.ranges (h : IsSorting [⟨c, .ascending⟩] rows sorted)
    (hcells : ∀ row ∈ rows, row.IsWrittenAt c) (n : Number) :
    (op.AsksBelow → compared c op (.number n) sorted <+: present c sorted) ∧
      (op.AsksAbove → compared c op (.number n) sorted <:+ present c sorted) := by
  have hwritten : ∀ row ∈ present c sorted, (row.cellOf c).isWritten = true := by
    intro row hrow
    obtain ⟨hsorted, hpresent⟩ := List.mem_filter.mp hrow
    exact (hcells row (h.perm.mem_iff.mp hsorted)).isWritten (by simpa using hpresent)
  have hpairs : (present c sorted).Pairwise fun a b =>
      ((a.cellOf c).compare (b.cellOf c)).isLE := h.pairwise_cellOf.filter _
  constructor
  · intro hop
    rw [← compared_present (Or.inl hop)]
    refine filter_prefix_of_pairwise (hpairs.imp_of_mem fun {a b} ha hb hle hholds => ?_)
    exact Comparison.holds_below_of_isLE (hwritten a ha) (hwritten b hb) hle hop hholds
  · intro hop
    rw [← compared_present (Or.inr hop)]
    refine filter_suffix_of_pairwise (hpairs.imp_of_mem fun {a b} ha hb hle hholds => ?_)
    exact Comparison.holds_above_of_isLE (hwritten a ha) (hwritten b hb) hle hop hholds

/-- A number cuts the rows of a data set: of the rows with a value, those that filters find below
the number stand first and those that they find above it stand last. -/
structure IsCutAt (d : RowSet) (c : Item) (rows : List Row) (n : Number) : Prop where
  below : ∀ op : Comparison, op.AsksBelow → ∃ accepted,
    (d.filtered [.comparison c op (.value (.number n))]).Yields accepted ∧
      accepted <+: present c rows
  above : ∀ op : Comparison, op.AsksAbove → ∃ accepted,
    (d.filtered [.comparison c op (.value (.number n))]).Yields accepted ∧
      accepted <:+ present c rows

/-- **Filtering first makes no difference**: what is below a number gives the first of the sorted
rows that have a value, and what is above it gives the last ones. -/
theorem gives_sorted_range (hd : d.Yields rows) (hreadable : Header.isReadable d.header c = true)
    (hcells : ∀ row ∈ rows, row.IsWrittenAt c) (op : Comparison) (n : Number) (l : Ledger) :
    ((d.filtered [.comparison c op (.value (.number n))]).ordered [⟨c, .ascending⟩]).Gives l
      fun d' _ => ∃ accepted, d'.Yields accepted ∧
        (op.AsksBelow → accepted <+: present c (sortRows [⟨c, .ascending⟩] rows)) ∧
          (op.AsksAbove → accepted <:+ present c (sortRows [⟨c, .ascending⟩] rows)) := by
  have hfiltered := hd.filtered_compared (fun row hrow => (hcells row hrow).isSome) op (.number n)
  refine (hfiltered.gives_ordered_by .ascending hreadable l).mono fun d' _ hd' => ?_
  have hsorting := isSorting_sortRows [⟨c, .ascending⟩] rows
  -- There is one way to sort what is left, and it is what is left of the sorted rows.
  have hsame : sortRows [⟨c, .ascending⟩] (compared c op (.number n) rows) =
      compared c op (.number n) (sortRows [⟨c, .ascending⟩] rows) :=
    (isSorting_sortRows _ _).unique (hsorting.filter _)
  exact ⟨_, hsame ▸ hd', hsorting.ranges hcells n⟩

/-- **Numbers cut a sorted column of numbers and texts**: of the sorted rows that have a value, a
filter for what is below a number gives the first ones, and a filter for what is above it the last
ones. -/
theorem gives_ranges (hd : d.Yields rows) (hreadable : Header.isReadable d.header c = true)
    (hcells : ∀ row ∈ rows, row.IsWrittenAt c) (l : Ledger) :
    (d.ordered [⟨c, .ascending⟩]).Gives l fun d' _ => ∃ sorted, d'.Yields sorted ∧
      IsSorting [⟨c, .ascending⟩] rows sorted ∧ ∀ n : Number, d'.IsCutAt c sorted n := by
  refine (hd.gives_ordered_by .ascending hreadable l).mono fun d' _ hd' => ?_
  have hsorting := isSorting_sortRows [⟨c, .ascending⟩] rows
  have hsome : ∀ row ∈ sortRows [⟨c, .ascending⟩] rows, (row.evaluate? c).isSome = true :=
    fun row hrow => (hcells row (hsorting.perm.mem_iff.mp hrow)).isSome
  refine ⟨_, hd', hsorting, fun n => ⟨fun op hop => ?_, fun op hop => ?_⟩⟩
  · exact ⟨_, hd'.filtered_compared hsome op _, (hsorting.ranges hcells n).1 hop⟩
  · exact ⟨_, hd'.filtered_compared hsome op _, (hsorting.ranges hcells n).2 hop⟩

/-- Numbers, texts of numbers, other texts, nothing and no number at all, sorted and cut. -/
theorem gives_ranges_of_pairs :
    let c := (byColumn 1 "a" .ascending).item
    let rows := [pairRow (.text "n/a") .null, pairRow (.text "10") .null, pairRow .null .null,
      pairRow (.float (.nan false)) .null, pairRow (.integer 3) .null, pairRow (.text " 2.5") .null]
    let d := ofRows (pairRow .null .null).header rows
    (d.Yields rows ∧ Header.isReadable d.header c = true ∧ ∀ row ∈ rows, row.IsWrittenAt c) ∧
      (d.ordered [⟨c, .ascending⟩]).Gives {} fun d' _ => ∃ sorted, d'.Yields sorted ∧
        IsSorting [⟨c, .ascending⟩] rows sorted ∧ ∀ n : Number, d'.IsCutAt c sorted n := by
  intro c rows d
  have hd : d.Yields rows := yields_ofRows _ _
  have hreadable : Header.isReadable d.header c = true := by decide
  have hcells : ∀ row ∈ rows, row.IsWrittenAt c := by
    simp only [rows, List.forall_mem_cons]
    exact ⟨⟨_, rfl, Or.inr rfl⟩, ⟨_, rfl, Or.inr rfl⟩, ⟨_, rfl, Or.inl rfl⟩, ⟨_, rfl, Or.inr rfl⟩,
      ⟨_, rfl, Or.inr rfl⟩, ⟨_, rfl, Or.inr rfl⟩, List.forall_mem_nil _⟩
  exact ⟨⟨hd, hreadable, hcells⟩, gives_ranges hd hreadable hcells {}⟩

end RowSet

end DocQuery
