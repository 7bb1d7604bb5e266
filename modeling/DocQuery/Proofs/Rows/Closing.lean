import DocQuery.Proofs.Rows.Cleanup

/-!
# DocQuery.Proofs.Rows.Closing — operators on data sets are tidy

Whatever reads a data set closes it (`RowSet.tidy_foldRows`), and whatever refuses one closes it
first.  So an operator leaves open what the data set that it gives still reads, and nothing if it
fails.  It fails where the data set that it was given does, where a filter does, or for a reason of
its own, which is never a parameter without a value.
-/

namespace DocQuery

open Plan

namespace RowSet

variable {causes : QueryError → Prop} {first : Nat} {given : List Nat} {d : RowSet}
  {sets : List RowSet} {filters : List Filter} {items : List Item}

/-! ## Data sets that are held -/

/-- The data set of a row source that is to be closed with a data set. -/
def held (d : RowSet) : List Nat := d.source.toList

/-- A data set fails for some causes only. -/
def FailsWithin (causes : QueryError → Prop) (d : RowSet) : Prop := d.stream.FailsWithin causes

/-- A plan that makes a data set is tidy, and the data set fails for the same causes only. -/
abbrev Tidy (causes : QueryError → Prop) (first : Nat) (given : List Nat) (p : Plan RowSet) : Prop :=
  Plan.Tidy causes first given held (FailsWithin causes) p

theorem failsWithin_ofRows (header : List Item) (rows : List Row) :
    (ofRows header rows).FailsWithin causes := Stream.failsWithin_ofRows rows

theorem tidy_return (hd : d.FailsWithin causes) : Tidy causes first d.held (pure d) :=
  tidy_pure hd (List.Subset.refl _)

/-! ## Closing and reading -/

theorem tidy_recordPulls (d : RowSet) (pulls : Nat) :
    Plan.Tidy causes first given (fun _ => given) (fun _ => True) (d.recordPulls pulls) := by
  unfold recordPulls
  cases d.source with
  | none => exact tidy_pure trivial (List.Subset.refl _)
  | some n =>
    intro others l hl
    exact ⟨trivial, hl.modify n fun _ => Nat.le_refl _⟩

/-- A data set is closed. -/
theorem tidy_close (d : RowSet) :
    Plan.Tidy causes first (d.held ++ given) (fun _ => given) (fun _ => True) d.close := by
  unfold close held
  cases d.source with
  | none => exact tidy_pure trivial (List.Subset.refl _)
  | some n =>
    intro others l hl
    exact ⟨trivial, hl.close⟩

theorem tidy_closed (d : RowSet) :
    Plan.Tidy causes first d.held (fun _ => []) (fun _ => True) d.close :=
  (tidy_close d).of_subset (List.subset_append_left _ _)

theorem tidy_closeAll : Plan.Tidy causes first (sets.flatMap held ++ given) (fun _ => given)
    (fun _ => True) (closeAll sets) := by
  induction sets with
  | nil => exact tidy_pure trivial (List.Subset.refl _)
  | cons d rest ih =>
    rw [List.flatMap_cons, List.append_assoc]
    exact (tidy_close d).bind fun _ _ => ih

/-- A data set that is refused is closed first. -/
theorem tidy_refusal {α : Type} {kept : α → List Nat} {good : α → Prop} (d : RowSet) {e : QueryError}
    (he : causes e) : Plan.Tidy causes first d.held kept good (d.close >>= fun _ => throw e) :=
  (tidy_closed d).bind fun _ _ => tidy_throw he

/-- **Whatever goes over all rows of a data set closes it.** -/
theorem tidy_foldRows {σ : Type} (hd : d.FailsWithin causes) {f : σ → Row → Except QueryError σ}
    (hf : ∀ acc row e, f acc row = .error e → causes e) (start : σ) :
    Plan.Tidy causes first d.held (fun _ => []) (fun _ => True) (d.foldRows f start) := by
  unfold foldRows
  refine (tidy_recordPulls d _).bind fun _ _ => ?_
  refine (tidy_closed d).bind fun _ _ => ?_
  exact (tidy_lift fun e he => Stream.FailsWithin.fold hd hf start he).mono (fun _ _ => trivial)
    fun _ _ => List.Subset.refl _

theorem tidy_toRows (hd : d.FailsWithin causes) :
    Plan.Tidy causes first d.held (fun _ => []) (fun _ => True) d.toRows := by
  unfold toRows
  refine (tidy_foldRows hd (fun _ _ _ h => by cases h) []).bind fun _ _ => ?_
  exact tidy_pure trivial (List.nil_subset _)

/-! ## Filtering, paging and selecting -/

theorem held_filtered : (d.filtered filters).held = d.held := by
  unfold filtered
  split <;> rfl

theorem FailsWithin.filtered (hd : d.FailsWithin causes) (hfilters : Filter.FailWithin causes filters) :
    (d.filtered filters).FailsWithin causes := by
  unfold RowSet.filtered
  split
  · exact hd
  · exact Stream.FailsWithin.filter hd fun _ _ => hfilters.allAccept

theorem held_paged (firstRow : Nat) (maxRows : Option Nat) :
    (d.paged firstRow maxRows).held = d.held := by
  unfold paged held
  cases maxRows <;> split <;> rfl

theorem FailsWithin.paged (hd : d.FailsWithin causes) (firstRow : Nat) (maxRows : Option Nat) :
    (d.paged firstRow maxRows).FailsWithin causes := by
  have hfrom : (if 1 < firstRow then d.fromRow firstRow else d).FailsWithin causes := by
    split
    · exact Stream.FailsWithin.skip hd _
    · exact hd
  unfold RowSet.paged
  cases maxRows with
  | none => exact hfrom
  | some n => exact Stream.FailsWithin.take hfrom n

section Causes

variable (hcauses : QueryError.RunAdmitted causes)

include hcauses

theorem valuesOf_failsWithin {row : Row} {e : QueryError} (he : row.valuesOf items = .error e) :
    causes e := by
  induction items with
  | nil => cases he
  | cons i rest ih =>
    unfold Row.valuesOf at he
    split at he
    · exact ih (eq_error_of_map he)
    · cases he
      exact hcauses _ rfl fun _ => QueryError.noConfusion

theorem FailsWithin.projected (hd : d.FailsWithin causes) : (d.projected items).FailsWithin causes := by
  unfold RowSet.projected FailsWithin
  dsimp only
  split
  · exact hd
  · exact Stream.FailsWithin.map hd fun row e he => valuesOf_failsWithin hcauses (eq_error_of_map he)

theorem scalarInputs_failsWithin {header : List Item} {e : QueryError}
    (he : scalarInputs header items = .error e) : causes e := by
  induction items with
  | nil => cases he
  | cons i rest ih =>
    unfold scalarInputs at he
    split at he
    · cases he
      exact hcauses _ rfl fun _ => QueryError.noConfusion
    · split at he
      · exact ih (eq_error_of_map he)
      · cases he
        exact hcauses _ rfl fun _ => QueryError.noConfusion

theorem tidy_withScalars (hd : d.FailsWithin causes) (scalars : List Item) :
    Tidy causes first d.held (d.withScalars scalars) := by
  unfold withScalars
  split
  next e he => exact tidy_refusal d (scalarInputs_failsWithin hcauses he)
  next functions _ =>
    refine tidy_pure ?_ (List.Subset.refl _)
    exact Stream.FailsWithin.map hd fun _ _ h => by cases h

theorem tidy_selection (hd : d.FailsWithin causes) (items : List Item) :
    Tidy causes first d.held (d.selection items) := by
  have hshaped {d : RowSet} (hd : d.FailsWithin causes) :
      Tidy causes first d.held (d.projectedOrRefused items) := by
    unfold projectedOrRefused
    split
    · exact tidy_refusal d (hcauses _ rfl fun _ => QueryError.noConfusion)
    · exact tidy_pure (hd.projected hcauses) (List.Subset.refl _)
  rw [selection_eq]
  split
  · exact tidy_return hd
  · split
    · exact (tidy_return hd).bind fun d hd => hshaped hd
    · exact (tidy_withScalars hcauses hd _).bind fun d hd => hshaped hd

/-! ## Ordering and grouping -/

theorem tidy_ordered (hd : d.FailsWithin causes) (orderBy : List OrderItem) :
    Tidy causes first d.held (d.ordered orderBy) := by
  unfold ordered
  split
  · exact tidy_return hd
  · split
    · exact tidy_refusal d (hcauses _ rfl fun _ => QueryError.noConfusion)
    · refine (tidy_toRows hd).bind fun rows _ => ?_
      exact tidy_pure (failsWithin_ofRows _ _) (List.nil_subset _)

theorem aggregatesOf_failsWithin {e : QueryError} (he : aggregatesOf items = .error e) : causes e := by
  unfold aggregatesOf at he
  dsimp only at he
  split at he
  · cases he
    exact hcauses _ rfl fun _ => QueryError.noConfusion
  · cases he

omit hcauses in
theorem mapM_failsWithin {α β : Type} {f : α → Except QueryError β} {as : List α} {e : QueryError}
    (hf : ∀ a e, f a = .error e → causes e) (he : as.mapM f = .error e) : causes e := by
  induction as with
  | nil => cases he
  | cons a rest ih =>
    rw [List.mapM_cons] at he
    rcases failed_of_bind_eq_error he with ha | ⟨b, -, he⟩
    · exact hf a e ha
    · rcases failed_of_bind_eq_error he with hrest | ⟨bs, -, hdone⟩
      · exact ih hrest
      · cases hdone

theorem contributions_failsWithin {aggregates : List Item} {row : Row} {e : QueryError}
    (he : contributions aggregates row = .error e) : causes e := by
  refine mapM_failsWithin (fun i e he => ?_) he
  unfold contribution at he
  split at he
  · cases he
  · split at he
    · cases he
    · cases he
      exact hcauses _ rfl fun _ => QueryError.noConfusion

theorem groupRow_failsWithin {groupBy aggregates : List Item} {groups : List Group} {row : Row}
    {e : QueryError} (he : groupRow groupBy aggregates groups row = .error e) : causes e := by
  unfold groupRow at he
  rcases failed_of_bind_eq_error he with hkey | ⟨key, -, he⟩
  · refine mapM_failsWithin (fun i e he => ?_) hkey
    split at he
    · cases he
    · cases he
      exact hcauses _ rfl fun _ => QueryError.noConfusion
  · rcases failed_of_bind_eq_error he with hcontributed | ⟨contributed, -, hdone⟩
    · exact contributions_failsWithin hcauses hcontributed
    · cases hdone

theorem tidy_grouped (hd : d.FailsWithin causes) (items groupBy : List Item) :
    Tidy causes first d.held (d.grouped items groupBy) := by
  unfold grouped
  split
  next e he => exact tidy_refusal d (aggregatesOf_failsWithin hcauses he)
  next aggregates _ =>
    dsimp only
    split
    · exact tidy_refusal d (hcauses _ rfl fun _ => QueryError.noConfusion)
    · refine (tidy_foldRows hd (fun _ _ _ => groupRow_failsWithin hcauses) []).bind ?_
      exact fun groups _ => tidy_selection hcauses (failsWithin_ofRows _ _) items

theorem tidy_distinct (hd : d.FailsWithin causes) : Tidy causes first d.held d.distinct :=
  tidy_grouped hcauses hd d.header d.header

theorem collectRow_failsWithin {aggregates : List Item} {c : Collected} {row : Row} {e : QueryError}
    (he : collectRow aggregates c row = .error e) : causes e := by
  unfold collectRow at he
  rcases failed_of_bind_eq_error he with hcontributed | ⟨contributed, -, hdone⟩
  · exact contributions_failsWithin hcauses hcontributed
  · cases hdone

theorem tidy_aggregated (hd : d.FailsWithin causes) (items : List Item) :
    Tidy causes first d.held (d.aggregated items) := by
  unfold aggregated
  split
  next e he => exact tidy_refusal d (aggregatesOf_failsWithin hcauses he)
  · exact tidy_return hd
  next aggregates _ _ =>
    dsimp only
    split
    · exact tidy_refusal d (hcauses _ rfl fun _ => QueryError.noConfusion)
    · refine (tidy_foldRows hd (fun _ _ _ => collectRow_failsWithin hcauses) {}).bind ?_
      exact fun collected _ => tidy_pure (failsWithin_ofRows _ _) (List.nil_subset _)

end Causes

/-! ## Joins -/

theorem FailsWithin.nestedLoop (hd : d.FailsWithin causes) (hfilters : Filter.FailWithin causes filters)
    (innerItems : List Item) (inner : List Row) (padded : Bool) :
    (d.nestedLoop innerItems inner filters padded).FailsWithin causes := by
  refine Stream.FailsWithin.expand hd fun outer e he => ?_
  rcases mem_matchesOf he with ⟨_, -, heq⟩ | ⟨_, -, _, haccept, heq⟩ | ⟨_, -, heq⟩
  all_goals cases heq
  exact hfilters.allAccept haccept

/-- **A product closes its inner sides as it reads them**, and all that are left if one fails or has
no rows. -/
theorem tidy_productWith {all : List Item} : (outer : RowSet) → (pending : List Filter) →
    (sets : List RowSet) → outer.FailsWithin causes → Filter.FailWithin causes pending →
    (∀ d ∈ sets, d.FailsWithin causes) →
      Tidy causes first (outer.held ++ sets.flatMap held) (productWith all outer pending sets)
  | outer, pending, [], houter, hpending, _ => by
    unfold productWith
    refine tidy_pure (houter.filtered hpending) ?_
    rw [held_filtered, List.flatMap_nil, List.append_nil]
    exact List.Subset.refl _
  | outer, pending, inner :: rest, houter, hpending, hsets => by
    rw [List.forall_mem_cons] at hsets
    have hinner : Plan.Tidy causes first (rest.flatMap held) (fun _ => []) (fun _ => True)
        (closeAll rest) := tidy_closeAll.of_subset (List.subset_append_left _ _)
    unfold productWith
    refine (((tidy_toRows hsets.1).orElseClosing
      ((tidy_close outer).bind fun _ _ => hinner)).of_subset ?_).bind fun rows _ => ?_
    · rw [List.flatMap_cons]
      intro n hn
      simp only [List.mem_append] at hn ⊢
      tauto
    · rw [List.nil_append]
      split
      · exact (tidy_close outer).bind fun _ _ => hinner.bind fun _ _ =>
          tidy_pure (failsWithin_ofRows _ _) (List.nil_subset _)
      · simp only [List.partition_eq_filter_filter]
        exact tidy_productWith _ _ rest
          (houter.nestedLoop (hpending.subset (List.filter_subset_self _)) inner.header rows false)
          (hpending.subset (List.filter_subset_self _)) hsets.2

theorem tidy_cartesianProduct (hnone : sets = [] → causes .nothingToJoin)
    (hsets : ∀ d ∈ sets, d.FailsWithin causes) (hfilters : Filter.FailWithin causes filters) :
    Tidy causes first (sets.flatMap held) (cartesianProduct sets filters) := by
  cases sets with
  | nil => exact tidy_throw (hnone rfl)
  | cons outer rest =>
    rw [List.forall_mem_cons] at hsets
    exact tidy_productWith outer filters rest hsets.1 hfilters hsets.2

theorem tidy_leftJoin {right : RowSet} (hd : d.FailsWithin causes) (hright : right.FailsWithin causes)
    (hfilters : Filter.FailWithin causes filters) :
    Tidy causes first (d.held ++ right.held) (d.leftJoin right filters) := by
  unfold leftJoin
  refine (((tidy_toRows hright).orElseClosing (tidy_closed d)).of_subset
    (List.append_subset.mpr ⟨List.subset_append_right _ _, List.subset_append_left _ _⟩)).bind ?_
  exact fun rows _ => tidy_pure (hd.nestedLoop hfilters _ _ _) (List.Subset.refl _)

theorem tidy_rightJoin {right : RowSet} (hcauses : QueryError.RunAdmitted causes)
    (hd : d.FailsWithin causes) (hright : right.FailsWithin causes)
    (hfilters : Filter.FailWithin causes filters) :
    Tidy causes first (d.held ++ right.held) (d.rightJoin right filters) := by
  unfold rightJoin
  refine ((tidy_leftJoin hright hd hfilters).of_subset (List.append_subset.mpr
    ⟨List.subset_append_right _ _, List.subset_append_left _ _⟩)).bind ?_
  exact fun joined hjoined => tidy_selection hcauses hjoined _

end RowSet

end DocQuery
