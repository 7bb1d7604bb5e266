import DocQuery.Rows.Join
import DocQuery.Proofs.Rows.Planning
import DocQuery.Proofs.Rows.Reading
import Mathlib.Data.List.Forall2

/-!
# DocQuery.Proofs.Rows.Join — what a product of data sets gives

The product of data sets is meant to be the nested loop over all of them, the leftmost outermost,
followed by the filters.  The code asks each filter as soon as the items combined so far cover what
it reads, and a look-up that finds no item of the right scope takes one of another scope.  So a
filter may be asked too early, about the wrong cell.  What the code gives is described per
combination of rows (`acceptedInStages`); it is the nested loop exactly when each combination fares
in stages as it does when complete (`cartesianProduct_eq_nestedLoop_iff`).
-/

namespace DocQuery.RowSet

open Plan DocQuery.Stream

/-! ## The nested loop -/

/-- All combinations of rows, one of each list, the first list outermost. -/
def combinations : List (List Row) → List (List Row)
  | [] => [[]]
  | rows :: rest => rows.flatMap fun row => (combinations rest).map (row :: ·)

/-- The row of a complete combination. -/
def joined (header : List Item) (combination : List Row) : Row where
  header := header
  values := combination.flatMap (·.values)

/-- Whether all filters accept a row. -/
def satisfies (filters : List Filter) (row : Row) : Bool :=
  filters.all fun f => match Filter.accepts row f with
    | .ok accepted => accepted
    | .error _ => false

/-- The nested loop over rows of data sets with a common header, and then the filters. -/
def nestedLoopRows (header : List Item) (rows : List (List Row)) (filters : List Filter) :
    List Row :=
  ((combinations rows).map (joined header)).filter (satisfies filters)

/-- **What goes for all rows of each list goes for the rows of a combination.** -/
theorem forall₂_of_mem_combinations {α : Type} {R : α → Row → Prop} {as : List α}
    {rows : List (List Row)} (h : List.Forall₂ (fun a rows => ∀ row ∈ rows, R a row) as rows)
    {c : List Row} (hc : c ∈ combinations rows) : List.Forall₂ R as c := by
  induction h generalizing c with
  | nil =>
    obtain rfl : c = [] := by simpa [combinations] using hc
    exact .nil
  | cons hrows _ ih =>
    obtain ⟨row, hrow, hmap⟩ := List.mem_flatMap.mp hc
    obtain ⟨tail, htail, rfl⟩ := List.mem_map.mp hmap
    exact .cons (hrows row hrow) (ih htail)

theorem length_of_mem_combinations {rows : List (List Row)} {c : List Row}
    (hc : c ∈ combinations rows) : c.length = rows.length := by
  have htaken : List.Forall₂ (fun r row => row ∈ r) rows c :=
    forall₂_of_mem_combinations (List.forall₂_same.mpr fun _ _ _ hrow => hrow) hc
  exact htaken.length_eq.symm

theorem combinations_ne_nil {rows : List (List Row)} (h : ∀ r ∈ rows, r ≠ []) :
    combinations rows ≠ [] := by
  induction rows with
  | nil => exact List.cons_ne_nil _ _
  | cons r rest ih =>
    rw [List.forall_mem_cons] at h
    obtain ⟨row, hrow⟩ := List.exists_mem_of_ne_nil r h.1
    obtain ⟨c, hc⟩ := List.exists_mem_of_ne_nil _ (ih h.2)
    exact List.ne_nil_of_mem
      (List.mem_flatMap.mpr ⟨row, hrow, List.mem_map.mpr ⟨c, hc, rfl⟩⟩)

theorem combinations_eq_nil {rows : List (List Row)} (h : ∃ r ∈ rows, r = []) :
    combinations rows = [] := by
  induction rows with
  | nil => simp at h
  | cons r rest ih =>
    obtain ⟨empty, hmem, hempty⟩ := h
    rcases List.mem_cons.mp hmem with rfl | hmem
    · rw [hempty]
      rfl
    · simp [combinations, ih ⟨empty, hmem, hempty⟩]

/-! ## Stages -/

/-- Whether a filter can be asked of rows with these items. -/
def covers (header : List Item) (f : Filter) : Bool := f.items.all (Header.isReadable header)

/-- Whether a combination is accepted from a stage on: the outer row so far, with its items and the
filters that still wait, and the rows of the further data sets.  Each filter is asked at the first
stage that covers it. -/
def laterStages (header : List Item) (pending : List Filter) (outer : Row) :
    List (List Item) → List Row → Except QueryError Bool
  | items :: headers, row :: rows =>
    let next := combine (header ++ items) outer row.values
    match Filter.allAccept next (pending.filter (covers (header ++ items))) with
    | .ok true =>
      laterStages (header ++ items) (pending.filter fun f => !covers (header ++ items) f) next
        headers rows
    | other => other
  | _, _ => Filter.allAccept outer pending

/-- Whether a combination of rows gets through all stages. -/
def acceptedInStages (filters : List Filter) :
    List (List Item) → List Row → Except QueryError Bool
  | items :: headers, row :: rows => laterStages items filters row headers rows
  | _, _ => .ok true

/-- The row that a combination ends as. -/
def glued (header : List Item) (outer : Row) : List (List Item) → List Row → Row
  | items :: headers, row :: rows =>
    glued (header ++ items) (combine (header ++ items) outer row.values) headers rows
  | _, _ => outer

theorem glued_eq {header : List Item} {outer : Row} {headers : List (List Item)} {rows : List Row}
    (hlength : headers.length = rows.length) (hne : headers ≠ []) :
    glued header outer headers rows = joined (header ++ headers.flatten) (outer :: rows) := by
  induction headers generalizing header outer rows with
  | nil => exact absurd rfl hne
  | cons items headers ih =>
    cases rows with
    | nil => cases hlength
    | cons row rows =>
      cases headers with
      | nil =>
        obtain rfl : rows = [] := List.length_eq_zero_iff.mp (by simpa using hlength.symm)
        simp [glued, joined, combine]
      | cons items' headers =>
        rw [glued, ih (by simpa using hlength) (List.cons_ne_nil _ _)]
        simp [joined, combine]

/-- What a combination of an outer row gives: the row it ends as, nothing, or a failure. -/
def combinationOutcome (header : List Item) (pending : List Filter) (headers : List (List Item))
    (outer : Row) (rows : List Row) : List (Except QueryError Row) :=
  tested (fun _ => laterStages header pending outer headers rows) (glued header outer headers rows)

/-! ## One stage -/

theorem pairOutcome_toList (filters : List Filter) (row : Row) :
    (pairOutcome filters row).toList = tested (Filter.allAccept · filters) row := by
  unfold pairOutcome tested
  cases haccept : Filter.allAccept row filters with
  | error e => simp only [haccept, Option.toList_some]
  | ok accepted => cases accepted <;> simp [haccept]

/-- The rows of a nested loop: every outer row with every inner row, as far as the filters accept
them. -/
theorem outcomes_nestedLoop (outer : RowSet) (items : List Item) (inner : List Row)
    (filters : List Filter) :
    (outer.nestedLoop items inner filters false).stream.outcomes =
      outer.stream.outcomes.flatMap (spread fun row => inner.flatMap fun innerRow =>
        tested (Filter.allAccept · filters)
          (combine (outer.header ++ items) row innerRow.values)) := by
  have hmatches : matchesOf (outer.header ++ items) inner filters none = fun row =>
      inner.flatMap fun innerRow => tested (Filter.allAccept · filters)
        (combine (outer.header ++ items) row innerRow.values) := by
    funext row
    show List.filterMap _ inner = _
    rw [List.filterMap_eq_flatMap_toList]
    simp only [pairOutcome_toList]
  unfold nestedLoop
  simp only [Bool.false_eq_true, if_false]
  rw [outcomes_expand, hmatches]

/-- **One stage and then the others**: what a pair of rows gives, carried through the later stages,
is what the combinations that begin with the pair give. -/
theorem collect_stage {header items : List Item} {pending : List Filter}
    {headers : List (List Item)} {outer row : Row} {rest : List (List Row)}
    (hrest : combinations rest ≠ []) :
    collect ((tested (Filter.allAccept · (pending.filter (covers (header ++ items))))
        (combine (header ++ items) outer row.values)).flatMap (spread fun next =>
          (combinations rest).flatMap (combinationOutcome (header ++ items)
            (pending.filter fun f => !covers (header ++ items) f) headers next))) =
      collect ((combinations rest).flatMap fun c =>
        combinationOutcome header pending (items :: headers) outer (row :: c)) := by
  cases htest : Filter.allAccept (combine (header ++ items) outer row.values)
      (pending.filter (covers (header ++ items))) with
  | error e =>
    have hleft : tested (Filter.allAccept · (pending.filter (covers (header ++ items))))
        (combine (header ++ items) outer row.values) = [.error e] := by
      simp only [tested, htest]
    have hright : ∀ c, combinationOutcome header pending (items :: headers) outer (row :: c) =
        [.error e] := by
      intro c
      simp only [combinationOutcome, laterStages, htest, tested]
    simp only [hleft, hright]
    exact (collect_flatMap_failure hrest e).symm
  | ok accepted =>
    cases accepted with
    | true =>
      have hleft : tested (Filter.allAccept · (pending.filter (covers (header ++ items))))
          (combine (header ++ items) outer row.values) =
            [.ok (combine (header ++ items) outer row.values)] := by
        simp only [tested, htest]
      have hright : ∀ c, combinationOutcome header pending (items :: headers) outer (row :: c) =
          combinationOutcome (header ++ items) (pending.filter fun f => !covers (header ++ items) f)
            headers (combine (header ++ items) outer row.values) c := by
        intro c
        simp only [combinationOutcome, laterStages, htest, glued]
      simp only [hleft, hright, List.flatMap_singleton, spread]
    | false =>
      have hleft : tested (Filter.allAccept · (pending.filter (covers (header ++ items))))
          (combine (header ++ items) outer row.values) = [] := by
        simp only [tested, htest]
      have hright : ∀ c, combinationOutcome header pending (items :: headers) outer (row :: c) =
          [] := by
        intro c
        simp only [combinationOutcome, laterStages, htest, tested]
      simp only [hleft, hright]
      rw [List.flatMap_nil, List.flatMap_eq_nil_iff.mpr fun _ _ => rfl]

/-! ## All stages -/

/-- An inner data set without rows ends the product early. -/
theorem gives_productWith_of_empty {all : List Item} {outer : RowSet} {pending : List Filter}
    {rest : List RowSet} {rows : List (List Row)} {l : Ledger}
    (hrest : List.Forall₂ Yields rest rows) (hempty : ∃ r ∈ rows, r = []) :
    (productWith all outer pending rest).Gives l fun d _ => d.stream.outcomes = [] := by
  induction hrest generalizing outer pending l with
  | nil => simp at hempty
  | @cons inner r rest rows hinner hrest ih =>
    refine gives_bind (gives_orElseClosing (gives_toRows hinner fun _ _ => ?_))
    by_cases hr : r = []
    · subst hr
      simp only [List.isEmpty_nil, if_true]
      refine gives_bind (gives_close fun _ _ => gives_bind (gives_closeAll fun _ _ => ?_))
      exact gives_pure (yields_ofRows all [])
    · have hlater : ∃ r ∈ rows, r = [] := by
        obtain ⟨empty, hmem, hempty⟩ := hempty
        rcases List.mem_cons.mp hmem with rfl | hmem
        · exact absurd hempty hr
        · exact ⟨empty, hmem, hempty⟩
      have hisEmpty : r.isEmpty = false := by simpa using hr
      simp only [hisEmpty, Bool.false_eq_true, if_false]
      exact ih hlater

/-- **A product over inner rows gives what the combinations of every outer row give**, as far as
reading it to the end can tell. -/
theorem gives_productWith {all : List Item} {outer : RowSet} {pending : List Filter}
    {rest : List RowSet} {rows : List (List Row)} {l : Ledger}
    (hrest : List.Forall₂ Yields rest rows) (hfull : ∀ r ∈ rows, r ≠ []) :
    (productWith all outer pending rest).Gives l fun d _ =>
      collect d.stream.outcomes = collect (outer.stream.outcomes.flatMap (spread fun row =>
        (combinations rows).flatMap
          (combinationOutcome outer.header pending (rest.map (·.header)) row))) := by
  induction hrest generalizing outer pending l with
  | nil =>
    refine gives_pure ?_
    have hone : ∀ row, (combinations []).flatMap (combinationOutcome outer.header pending [] row) =
        tested (Filter.allAccept · pending) row := by
      intro row
      simp [combinations, combinationOutcome, laterStages, glued, tested]
    simp only [List.map_nil, hone]
    unfold filtered
    by_cases hpending : pending = []
    · subst hpending
      have hkept : spread (tested fun row => Filter.allAccept row []) = fun o => [o] := by
        funext o
        cases o <;> rfl
      simp [hkept]
    · have hisEmpty : pending.isEmpty = false := by simpa using hpending
      simp only [hisEmpty, Bool.false_eq_true, if_false]
      exact congrArg collect (outcomes_filter _ _)
  | @cons inner r rest rows hinner hrest ih =>
    rw [List.forall_mem_cons] at hfull
    obtain ⟨hr, hrows⟩ := hfull
    have hisEmpty : r.isEmpty = false := by simpa using hr
    refine gives_bind (gives_orElseClosing (gives_toRows hinner fun _ _ => ?_))
    simp only [hisEmpty, Bool.false_eq_true, if_false, List.partition_eq_filter_filter]
    -- The nested loop of this stage is the outer data set of the next one, so the induction
    -- hypothesis is about it, and `collect_stage` puts the stage in front of the later ones.
    refine (ih hrows).mono fun d _ hd => ?_
    rw [hd, outcomes_nestedLoop, List.flatMap_assoc]
    refine collect_flatMap_congr fun o _ => ?_
    cases o with
    | error e => rfl
    | ok row =>
      simp only [spread, List.map_cons]
      rw [combinations, List.flatMap_assoc, List.flatMap_assoc]
      refine collect_flatMap_congr fun innerRow _ => ?_
      rw [List.flatMap_map]
      exact collect_stage (combinations_ne_nil hrows)

/-- **What a product of two or more data sets gives**: the rows of all combinations that get through
their stages. -/
theorem cartesianProduct_answer {sets : List RowSet} {rows : List (List Row)}
    {filters : List Filter} (l : Ledger) (hmany : 2 ≤ sets.length)
    (hread : List.Forall₂ Yields sets rows) :
    (cartesianProduct sets filters >>= toRows).answer l =
      collect ((combinations rows).flatMap fun c =>
        tested (fun _ => acceptedInStages filters (sets.map (·.header)) c)
          (joined (sets.flatMap (·.header)) c)) := by
  cases hread with
  | nil => simp at hmany
  | @cons first r rest rows hfirst hrest =>
    -- One inner data set without rows ends the product before the outer one is read at all.
    have hne : rest.map (·.header) ≠ [] := by
      intro h
      obtain rfl : rest = [] := List.map_eq_nil_iff.mp h
      simp at hmany
    by_cases hempty : ∃ r ∈ rows, r = []
    · refine answer_bind ((gives_productWith_of_empty hrest hempty).mono fun d l' hd => ?_)
      rw [toRows_answer, hd, combinations, combinations_eq_nil hempty]
      simp only [List.map_nil, List.flatMap_eq_nil_iff.mpr fun _ _ => rfl]
      rfl
    · have hfull : ∀ r ∈ rows, r ≠ [] := fun r hr h => hempty ⟨r, hr, h⟩
      refine answer_bind ((gives_productWith hrest hfull).mono fun d l' hd => ?_)
      rw [toRows_answer, hd, combinations, hfirst, List.flatMap_map, List.flatMap_assoc]
      refine collect_flatMap_congr fun row _ => ?_
      rw [List.flatMap_map]
      refine collect_flatMap_congr fun c hc => ?_
      have hlength : (rest.map (·.header)).length = c.length := by
        rw [List.length_map, length_of_mem_combinations hc]
        exact hrest.length_eq
      rw [combinationOutcome, glued_eq hlength hne, List.flatMap_cons, List.flatMap_def]
      rfl

/-! ## The nested loop in stages -/

/-- **A product is the nested loop exactly when stages do not matter**: when every combination of
rows gets through its stages, without a failure, just in case all filters accept the complete row.
-/
theorem cartesianProduct_eq_nestedLoop_iff (sets : List RowSet) (rows : List (List Row))
    (filters : List Filter) (l : Ledger) (hmany : 2 ≤ sets.length)
    (hread : List.Forall₂ Yields sets rows) :
    (cartesianProduct sets filters >>= toRows).answer l =
        .ok (nestedLoopRows (sets.flatMap (·.header)) rows filters) ↔
      ∀ c ∈ combinations rows, acceptedInStages filters (sets.map (·.header)) c =
        .ok (satisfies filters (joined (sets.flatMap (·.header)) c)) := by
  rw [cartesianProduct_answer l hmany hread, nestedLoopRows]
  exact collect_tested_eq_filter_iff

/-! ## One table under several labels -/

/-- A table with two rows under a label, its column under an identity. -/
def labelledHeader (id : Nat) (label : String) : List Item :=
  [Item.ofColumn id ⟨"id", "t", some .number, false⟩ (some label)]

/-- The rows of the table under a label. -/
def labelledRows (id : Nat) (label : String) : List Row :=
  [⟨labelledHeader id label, [.integer 1], none⟩, ⟨labelledHeader id label, [.integer 2], none⟩]

/-- The table under a label as a data set. -/
def labelled (id : Nat) (label : String) : RowSet :=
  ofRows (labelledHeader id label) (labelledRows id label)

/-- The column under one label compared with that under another. -/
def sameId (id : Nat) (label : String) (id' : Nat) (label' : String) : Filter :=
  .comparison (Item.ofColumn id ⟨"id", "t", some .number, false⟩ (some label)) .equal
    (.item (Item.ofColumn id' ⟨"id", "t", some .number, false⟩ (some label')))

/-- A filter between the first two of three labels is asked when it should be. -/
theorem cartesianProduct_first_two_labels :
    2 ≤ [labelled 1 "a", labelled 2 "b", labelled 3 "c"].length ∧
      List.Forall₂ Yields [labelled 1 "a", labelled 2 "b", labelled 3 "c"]
        [labelledRows 1 "a", labelledRows 2 "b", labelledRows 3 "c"] ∧
      (cartesianProduct [labelled 1 "a", labelled 2 "b", labelled 3 "c"]
          [sameId 1 "a" 2 "b"] >>= toRows).answer {} =
        .ok (nestedLoopRows
          ([labelled 1 "a", labelled 2 "b", labelled 3 "c"].flatMap (·.header))
          [labelledRows 1 "a", labelledRows 2 "b", labelledRows 3 "c"] [sameId 1 "a" 2 "b"]) := by
  have hmany : 2 ≤ [labelled 1 "a", labelled 2 "b", labelled 3 "c"].length := by decide
  have hread : List.Forall₂ Yields [labelled 1 "a", labelled 2 "b", labelled 3 "c"]
      [labelledRows 1 "a", labelledRows 2 "b", labelledRows 3 "c"] :=
    .cons (yields_ofRows _ _) (.cons (yields_ofRows _ _) (.cons (yields_ofRows _ _) .nil))
  refine ⟨hmany, hread, ?_⟩
  refine (cartesianProduct_eq_nestedLoop_iff _ _ _ {} hmany hread).mpr ?_
  decide +kernel

/-- A filter between the first and the third label is asked before the third is there: it finds the
column under the first label on both sides, accepts every row, and is not asked again. -/
theorem cartesianProduct_first_and_third_label :
    covers ([labelled 1 "a", labelled 2 "b", labelled 3 "c"].flatMap (·.header))
        (sameId 1 "a" 3 "c") = true ∧
      (∀ c ∈ combinations [labelledRows 1 "a", labelledRows 2 "b", labelledRows 3 "c"],
        (Filter.accepts
          (joined ([labelled 1 "a", labelled 2 "b", labelled 3 "c"].flatMap (·.header)) c)
          (sameId 1 "a" 3 "c")).isOk = true) ∧
      ((cartesianProduct [labelled 1 "a", labelled 2 "b", labelled 3 "c"]
          [sameId 1 "a" 3 "c"] >>= toRows).answer {}).toOption.map List.length = some 8 ∧
      (nestedLoopRows ([labelled 1 "a", labelled 2 "b", labelled 3 "c"].flatMap (·.header))
        [labelledRows 1 "a", labelledRows 2 "b", labelledRows 3 "c"]
        [sameId 1 "a" 3 "c"]).length = 4 := by
  decide +kernel

/-! ## A case where stages do not matter -/

/-- Where a header locates an item. -/
def locateIn (header : List Item) (i : Item) : Option (Header.Resolution × Item) :=
  (joined header []).locate? i

/-- From a stage on, whenever the items combined so far cover a filter, they locate each of its
items where the items of all data sets do. -/
def Settled (header : List Item) (filters : List Filter) : List (List Item) → Prop
  | [] => True
  | items :: headers =>
    (∀ f ∈ filters, covers (header ++ items) f = true → ∀ i ∈ f.items,
      locateIn (header ++ items) i = locateIn (header ++ items ++ headers.flatten) i) ∧
    Settled (header ++ items) filters headers

theorem Settled.subset {header : List Item} {filters fewer : List Filter}
    {headers : List (List Item)} (h : Settled header filters headers) (hsub : fewer ⊆ filters) :
    Settled header fewer headers := by
  induction headers generalizing header with
  | nil => trivial
  | cons items headers ih => exact ⟨fun f hf => h.1 f (hsub hf), ih h.2⟩

/-- The last stage has all items, so it is settled. -/
theorem settled_single (header : List Item) (filters : List Filter) (items : List Item) :
    Settled header filters [items] := by
  refine ⟨fun f _ _ i _ => ?_, trivial⟩
  rw [List.flatten_nil, List.append_nil]

theorem allAccept_eq_satisfies {row : Row} {filters : List Filter}
    (h : ∀ f ∈ filters, ∃ b, Filter.accepts row f = .ok b) :
    Filter.allAccept row filters = .ok (satisfies filters row) := by
  induction filters with
  | nil => rfl
  | cons f rest ih =>
    rw [List.forall_mem_cons] at h
    obtain ⟨⟨b, hb⟩, hrest⟩ := h
    have htail := ih hrest
    unfold satisfies at htail ⊢
    rw [Filter.allAccept, hb, htail, List.all_cons, hb]
    cases b <;> rfl

theorem satisfies_partition (p : Filter → Bool) (filters : List Filter) (row : Row) :
    satisfies filters row =
      (satisfies (filters.filter p) row && satisfies (filters.filter fun f => !p f) row) := by
  induction filters with
  | nil => rfl
  | cons f rest ih =>
    unfold satisfies at ih ⊢
    rw [List.all_cons, ih, List.filter_cons, List.filter_cons]
    cases p f <;> simp [Bool.and_assoc, Bool.and_left_comm]

theorem value_append {header : List Item} {values more : List Value} {n : Nat}
    (h : n < values.length) :
    Row.value ⟨header, values ++ more, none⟩ n = Row.value ⟨header, values, none⟩ n := by
  unfold Row.value
  rw [List.getElem?_append_left h]

/-- A filter that is settled says of the row so far what it says of the complete row. -/
theorem accepts_of_settled {header : List Item} {values more : List Value} {full : List Item}
    {f : Filter} (hwidth : values.length = header.length)
    (hlocate : ∀ i ∈ f.items, locateIn header i = locateIn full i) :
    Filter.accepts ⟨header, values, none⟩ f = Filter.accepts ⟨full, values ++ more, none⟩ f := by
  refine Filter.accepts_congr f fun i hi => Row.evaluate?_congr ?_ fun n hn => ?_
  · exact (Row.locate?_eq_of_header_eq rfl i).trans
      ((hlocate i hi).trans (Row.locate?_eq_of_header_eq rfl i))
  · rw [← hwidth] at hn
    exact (value_append hn).symm

theorem satisfies_congr {r r' : Row} {filters : List Filter}
    (h : ∀ f ∈ filters, Filter.accepts r f = Filter.accepts r' f) :
    satisfies filters r = satisfies filters r' := by
  induction filters with
  | nil => rfl
  | cons f rest ih =>
    rw [List.forall_mem_cons] at h
    have hrest := ih h.2
    unfold satisfies at hrest ⊢
    rw [List.all_cons, List.all_cons, h.1, hrest]

/-- **Settled filters let a combination through just in case they accept the complete row.**  The
induction is on the stages; the row so far is as wide as the items so far. -/
theorem laterStages_of_settled {header : List Item} {pending : List Filter}
    {headers : List (List Item)} {values : List Value} {rows : List Row}
    (hsettled : Settled header pending headers) (hwidth : values.length = header.length)
    (hwidths : List.Forall₂ (fun items row => items.length = row.values.length) headers rows)
    (hevaluates : ∀ f ∈ pending, ∃ b, Filter.accepts
      ⟨header ++ headers.flatten, values ++ rows.flatMap (·.values), none⟩ f = .ok b) :
    laterStages header pending ⟨header, values, none⟩ headers rows = .ok (satisfies pending
      ⟨header ++ headers.flatten, values ++ rows.flatMap (·.values), none⟩) := by
  induction hwidths generalizing header pending values with
  | nil =>
    simp only [List.flatten_nil, List.flatMap_nil, List.append_nil] at hevaluates ⊢
    exact allAccept_eq_satisfies hevaluates
  | @cons items row headers rows hrow _ ih =>
    obtain ⟨hstage, hlater⟩ := hsettled
    have hnext : (values ++ row.values).length = (header ++ items).length := by
      rw [List.length_append, List.length_append, hwidth, hrow]
    simp only [List.flatten_cons, List.flatMap_cons, ← List.append_assoc] at hevaluates ⊢
    have hsame : ∀ f ∈ pending.filter (covers (header ++ items)),
        Filter.accepts ⟨header ++ items, values ++ row.values, none⟩ f =
          Filter.accepts ⟨header ++ items ++ headers.flatten,
            values ++ row.values ++ rows.flatMap (·.values), none⟩ f := by
      intro f hf
      obtain ⟨hmem, hcovers⟩ := List.mem_filter.mp hf
      exact accepts_of_settled hnext (hstage f hmem hcovers)
    have happlicable : Filter.allAccept ⟨header ++ items, values ++ row.values, none⟩
        (pending.filter (covers (header ++ items))) =
          .ok (satisfies (pending.filter (covers (header ++ items)))
            ⟨header ++ items ++ headers.flatten,
              values ++ row.values ++ rows.flatMap (·.values), none⟩) := by
      rw [← satisfies_congr hsame]
      refine allAccept_eq_satisfies fun f hf => ?_
      rw [hsame f hf]
      exact hevaluates f (List.mem_filter.mp hf).1
    -- The filters that this stage covers are asked now and those left over later; together they are
    -- all filters that were pending.
    rw [satisfies_partition (covers (header ++ items)) pending]
    simp only [laterStages, combine, happlicable]
    cases satisfies (pending.filter (covers (header ++ items))) _ with
    | false => rfl
    | true =>
      refine ih (hlater.subset fun f hf => (List.mem_filter.mp hf).1) hnext fun f hf => ?_
      exact hevaluates f (List.mem_filter.mp hf).1

/-- Of the first row only the values count. -/
theorem laterStages_outer {header : List Item} {pending : List Filter}
    {headers : List (List Item)} {rows : List Row} (outer outer' : Row)
    (hvalues : outer.values = outer'.values) (hne : headers ≠ [])
    (hlength : headers.length = rows.length) :
    laterStages header pending outer headers rows =
      laterStages header pending outer' headers rows := by
  cases headers with
  | nil => exact absurd rfl hne
  | cons items headers =>
    cases rows with
    | nil => cases hlength
    | cons row rows => simp only [laterStages, combine, hvalues]

/-- **A product with settled filters is the nested loop.**  Rows are as wide as the items of their
data set, and no filter fails on a complete row. -/
theorem cartesianProduct_of_settled (first : RowSet) (rest : List RowSet) (rows : List (List Row))
    (filters : List Filter) (l : Ledger) (hrest : rest ≠ [])
    (hread : List.Forall₂ Yields (first :: rest) rows)
    (hwidths : List.Forall₂ (fun d rows => ∀ row ∈ rows, d.header.length = row.values.length)
      (first :: rest) rows)
    (hsettled : Settled first.header filters (rest.map (·.header)))
    (hevaluates : ∀ c ∈ combinations rows, ∀ f ∈ filters, ∃ b,
      Filter.accepts (joined ((first :: rest).flatMap (·.header)) c) f = .ok b) :
    (cartesianProduct (first :: rest) filters >>= toRows).answer l =
      .ok (nestedLoopRows ((first :: rest).flatMap (·.header)) rows filters) := by
  have hmany : 2 ≤ (first :: rest).length := by
    have := List.length_pos_of_ne_nil hrest
    rw [List.length_cons]
    omega
  rw [cartesianProduct_answer l hmany hread, nestedLoopRows]
  refine collect_tested_eq_filter_iff.mpr fun c hc => ?_
  have hc' : List.Forall₂ (fun items row => items.length = row.values.length)
      ((first :: rest).map (·.header)) c :=
    List.forall₂_map_left_iff.mpr (forall₂_of_mem_combinations hwidths hc)
  have heval := hevaluates c hc
  cases c with
  | nil => cases hc'
  | cons row tail =>
    rw [List.map_cons, List.forall₂_cons] at hc'
    have hne : rest.map (·.header) ≠ [] := fun h => hrest (List.map_eq_nil_iff.mp h)
    have hjoined : joined ((first :: rest).flatMap (·.header)) (row :: tail) =
        ⟨first.header ++ (rest.map (·.header)).flatten,
          row.values ++ tail.flatMap (·.values), none⟩ := by
      rw [List.flatMap_cons, List.flatMap_def]
      rfl
    rw [hjoined] at heval ⊢
    rw [List.map_cons, acceptedInStages,
      laterStages_outer row ⟨first.header, row.values, none⟩ rfl hne hc'.2.length_eq]
    exact laterStages_of_settled hsettled hc'.1.symm hc'.2 heval

/-- **A product of two data sets is the nested loop**: its only stage has all items. -/
theorem cartesianProduct_pair (first second : RowSet) (rows rows' : List Row)
    (filters : List Filter) (l : Ledger) (hfirst : first.Yields rows)
    (hsecond : second.Yields rows')
    (hwidth : ∀ row ∈ rows, first.header.length = row.values.length)
    (hwidth' : ∀ row ∈ rows', second.header.length = row.values.length)
    (hevaluates : ∀ c ∈ combinations [rows, rows'], ∀ f ∈ filters, ∃ b,
      Filter.accepts (joined (first.header ++ second.header) c) f = .ok b) :
    (cartesianProduct [first, second] filters >>= toRows).answer l =
      .ok (nestedLoopRows (first.header ++ second.header) [rows, rows'] filters) := by
  have hheader : [first, second].flatMap (·.header) = first.header ++ second.header := by simp
  rw [← hheader] at hevaluates ⊢
  exact cartesianProduct_of_settled first [second] [rows, rows'] filters l (List.cons_ne_nil _ _)
    (.cons hfirst (.cons hsecond .nil)) (.cons hwidth (.cons hwidth' .nil))
    (settled_single _ _ _) hevaluates

end DocQuery.RowSet
