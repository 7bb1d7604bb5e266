import DocQuery.Proofs.Rows.Headed

/-!
# DocQuery.Proofs.Rows.Windows — windows of data sets

A data set gives a window of another one if it has the same items and some of its rows, those from one
row on up to a count (`RowSet.IsWindowOf`).  A selection goes row by row and is decided by the items
alone, so the window may be cut before it or after it (`RowSet.IsWindowOf.gives_selection`).
-/

namespace DocQuery

open Plan

/-! ## Identities in a row -/

/-- Items get the next identities, whatever else was noted before. -/
theorem Plan.run_makeItems (pending : List (Nat → Item)) (l : Ledger) :
    (makeItems pending).run l = (.ok ((pending.zipIdx l.nextItem).map fun p => p.1 p.2),
      { l with nextItem := l.nextItem + pending.length }) := by
  induction pending generalizing l with
  | nil => rfl
  | cons make rest ih =>
    have hfirst : (do return make (← drawItem) : Plan Item).run l =
        (.ok (make l.nextItem), { l with nextItem := l.nextItem + 1 }) := rfl
    unfold makeItems at ih ⊢
    rw [List.mapM_cons, run_bind_of_run hfirst, run_bind_of_run (ih _), List.zipIdx_cons,
      List.map_cons, List.length_cons, Nat.add_right_comm, Nat.add_assoc l.nextItem]
    rfl

namespace Stream

/-- Up to a count, it does not matter what comes after so many rows. -/
theorem upToRows_of_take {n : Nat} {outcomes : List (Except QueryError Row)} {rows : List Row}
    (h : outcomes.take n = rows.map .ok) : upToRows n outcomes = rows.map .ok := by
  induction n generalizing outcomes rows with
  | zero =>
    rw [upToRows]
    exact h
  | succ n ih =>
    cases outcomes with
    | nil => exact h
    | cons o rest =>
      cases rows with
      | nil => cases h
      | cons row later =>
        obtain ⟨rfl, hrest⟩ := List.cons.inj h
        exact congrArg (Except.ok row :: ·) (ih hrest)

end Stream

namespace RowSet

variable {d d' e : RowSet} {items : List Item} {firstRow : Nat} {maxRows : Option Nat}
  {l l' : Ledger}

/-- A data set with the items of another one, which gives the rows of that from one on, up to a count.
-/
structure IsWindowOf (firstRow : Nat) (maxRows : Option Nat) (d' d : RowSet) : Prop where
  header : d'.header = d.header
  rows : ∀ rows, d.Yields rows → d'.Yields (window firstRow maxRows rows)

theorem paged_all (d : RowSet) : d.paged 1 none = d := rfl

theorem isWindowOf_paged (d : RowSet) (firstRow : Nat) (maxRows : Option Nat) :
    (d.paged firstRow maxRows).IsWindowOf firstRow maxRows d :=
  ⟨header_paged d firstRow maxRows, fun _ hrows => hrows.paged firstRow maxRows⟩

/-! ## Operators that go row by row -/

/-- A data set made from another one row by row. -/
def IsMapOf (f : Row → Except QueryError Row) (e d : RowSet) : Prop :=
  e.stream.outcomes = d.stream.outcomes.map (·.bind f)

/-- What is made row by row from rows gives the rows made from them. -/
theorem IsMapOf.exists_of_yields {f : Row → Except QueryError Row} (h : e.IsMapOf f d)
    {made : List Row} (hmade : e.Yields made) :
    ∃ rows, d.Yields rows ∧ rows.map f = made.map .ok := by
  unfold Yields at hmade ⊢
  rw [IsMapOf] at h
  rw [h] at hmade
  clear h
  generalize d.stream.outcomes = outcomes at hmade ⊢
  induction outcomes generalizing made with
  | nil => exact ⟨[], rfl, hmade⟩
  | cons o rest ih =>
    cases made with
    | nil => cases hmade
    | cons row later =>
      obtain ⟨ho, hrest⟩ := List.cons.inj hmade
      obtain ⟨rows, rfl, hrows⟩ := ih hrest
      cases o with
      | error e => cases ho
      | ok given => exact ⟨given :: rows, rfl, List.cons_eq_cons.mpr ⟨ho, hrows⟩⟩

theorem IsMapOf.yields {f : Row → Except QueryError Row} (h : e.IsMapOf f d) {rows made : List Row}
    (hrows : d.Yields rows) (hmade : rows.map f = made.map .ok) : e.Yields made := by
  unfold Yields IsMapOf at *
  rw [h, hrows, List.map_map, ← hmade]
  rfl

/-- **A window may be cut before the rows are changed one by one, or after.** -/
theorem IsWindowOf.map {f : Row → Except QueryError Row} {e' : RowSet}
    (h : d'.IsWindowOf firstRow maxRows d) (he : e.IsMapOf f d) (he' : e'.IsMapOf f d')
    (hheader : e'.header = e.header) : e'.IsWindowOf firstRow maxRows e := by
  refine ⟨hheader, fun made hmade => ?_⟩
  obtain ⟨rows, hrows, hmap⟩ := he.exists_of_yields hmade
  refine he'.yields (h.rows rows hrows) ?_
  rw [← window_map, hmap, window_map]

theorem isMapOf_self (d : RowSet) : d.IsMapOf .ok d := by
  unfold IsMapOf
  conv_lhs => rw [← List.map_id d.stream.outcomes]
  exact List.map_congr_left fun o _ => by cases o <;> rfl

theorem IsMapOf.trans {f g : Row → Except QueryError Row} {staged : RowSet}
    (h : staged.IsMapOf f d) (h' : e.IsMapOf g staged) : e.IsMapOf (fun row => (f row).bind g) d := by
  unfold IsMapOf at *
  rw [h', h, List.map_map]
  exact List.map_congr_left fun o _ => by cases o <;> rfl

theorem isMapOf_projected (d : RowSet) (items : List Item) : (d.projected items).IsMapOf
    (if Item.sameLayout d.header items then .ok else (·.project items)) d := by
  unfold projected
  split
  · exact isMapOf_self d
  · exact Stream.outcomes_map _ _

/-- What an operator made of a data set it made row by row, and it does the same to every data set with
the same items. -/
def Rowwise (operator : RowSet → Plan RowSet) (d e : RowSet) : Prop :=
  ∃ f : Row → Except QueryError Row, e.IsMapOf f d ∧ ∀ (d' : RowSet) (k : Ledger),
    d'.header = d.header → (operator d').Gives k fun e' _ => e'.header = e.header ∧ e'.IsMapOf f d'

theorem Rowwise.congr {operator operator' : RowSet → Plan RowSet} (h : Rowwise operator' d e)
    (heq : ∀ d' : RowSet, d'.header = d.header → operator d' = operator' d') :
    Rowwise operator d e := by
  obtain ⟨f, he, hany⟩ := h
  refine ⟨f, he, fun d' k hheader => ?_⟩
  rw [heq d' hheader]
  exact hany d' k hheader

theorem rowwise_pure (d : RowSet) : Rowwise pure d d :=
  ⟨.ok, isMapOf_self d, fun d' _ hheader => gives_pure ⟨hheader, isMapOf_self d'⟩⟩

theorem Rowwise.bind {operator next : RowSet → Plan RowSet} {staged : RowSet}
    (h : Rowwise operator d staged) (h' : Rowwise next staged e) :
    Rowwise (fun d => operator d >>= next) d e := by
  obtain ⟨f, hstaged, hany⟩ := h
  obtain ⟨g, he, hnext⟩ := h'
  refine ⟨_, hstaged.trans he, fun d' k hheader => gives_bind ((hany d' k hheader).mono ?_)⟩
  rintro staged' k' ⟨hheader', hstaged'⟩
  exact (hnext staged' k' hheader').mono fun e' _ he' => ⟨he'.1, hstaged'.trans he'.2⟩

theorem rowwise_withScalars {scalars : List Item}
    (hrun : (d.withScalars scalars).run l = (.ok e, l')) : Rowwise (·.withScalars scalars) d e := by
  unfold withScalars at hrun
  split at hrun
  · exact absurd hrun run_bind_throw_ne_ok
  next functions hinputs =>
    cases hrun
    refine ⟨_, Stream.outcomes_map _ _, fun d' k hheader => ?_⟩
    dsimp only
    unfold withScalars
    rw [hheader, hinputs]
    exact gives_pure ⟨rfl, Stream.outcomes_map _ _⟩

theorem rowwise_projectedOrRefused
    (hrun : (d.projectedOrRefused items).run l = (.ok e, l')) :
    Rowwise (·.projectedOrRefused items) d e := by
  unfold projectedOrRefused at hrun
  split at hrun
  · exact absurd hrun run_bind_throw_ne_ok
  next hreadable =>
    cases hrun
    refine ⟨_, isMapOf_projected d items, fun d' k hheader => ?_⟩
    show (d'.projectedOrRefused items).Gives k _
    unfold projectedOrRefused
    rw [← hheader] at hreadable ⊢
    rw [hreadable]
    exact gives_pure ⟨rfl, isMapOf_projected d' items⟩

/-- **A selection goes row by row**, whichever stages it takes. -/
theorem rowwise_selection (hrun : (d.selection items).run l = (.ok e, l')) :
    Rowwise (·.selection items) d e := by
  rw [selection_eq] at hrun
  by_cases hlayout : Item.sameLayout d.header items = true
  · rw [if_pos hlayout] at hrun
    cases hrun
    refine (rowwise_pure d).congr fun d' hheader => ?_
    rw [selection_eq, hheader, if_pos hlayout]
  · rw [if_neg hlayout] at hrun
    by_cases hstage : (missingScalars d.header items).isEmpty = true
    · rw [if_pos hstage, pure_bind] at hrun
      refine (rowwise_projectedOrRefused hrun).congr fun d' hheader => ?_
      rw [selection_eq, hheader, if_neg hlayout, if_pos hstage, pure_bind]
    · rw [if_neg hstage] at hrun
      obtain ⟨staged, k, hstaged, hrun⟩ := run_bind_eq_ok hrun
      refine ((rowwise_withScalars hstaged).bind (rowwise_projectedOrRefused hrun)).congr ?_
      intro d' hheader
      rw [selection_eq, hheader, if_neg hlayout, if_neg hstage]

/-- **A window may be cut before a selection or after it.** -/
theorem IsWindowOf.gives_selection (h : d'.IsWindowOf firstRow maxRows d)
    (hrun : (d.selection items).run l = (.ok e, l')) (k : Ledger) :
    (d'.selection items).Gives k fun e' _ => e'.IsWindowOf firstRow maxRows e := by
  obtain ⟨f, he, hany⟩ := rowwise_selection hrun
  exact (hany d' k h.header).mono fun e' _ he' => h.map he he'.2 he'.1

end RowSet

end DocQuery
