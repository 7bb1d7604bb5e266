import DocQuery.Proofs.Results
import DocQuery.Query.Scope

/-!
# DocQuery.Proofs.Query.Queries — queries within queries

A subquery may stand anywhere among the from items of a query.  What is said of a query at any depth
is said of the list of all of them (`QueryOf.queries`), and of the items of each.

Binding replaces every parameter in the filters of a query by its value.  With as many values as the
query counts parameters it succeeds and leaves none in those filters (`QueryOf.exists_withParameters`).
It does not go into the queries within the query, so that their parameters stay
(`QueryOf.isBound_iff_of_sources`).
-/

namespace DocQuery

/-! ## Queries at any depth -/

namespace FromItem

mutual

/-- The queries within a from item. -/
def queries : FromItem → List Query
  | .table _ _ => []
  | .subquery q _ => queriesOf q
  | .expression _ _ => []
  | .join _ l r _ _ => queries l ++ queries r

/-- The queries within from items. -/
def queriesIn : List FromItem → List Query
  | [] => []
  | f :: rest => queries f ++ queriesIn rest

/-- A query and the queries within it. -/
def queriesOf : QueryOf FromItem → List Query
  | ⟨select, distinct, sources, filters, groupBy, having, orderBy, firstRow, maxRows⟩ =>
    ⟨select, distinct, sources, filters, groupBy, having, orderBy, firstRow, maxRows⟩ ::
      queriesIn sources

end

theorem queriesIn_eq (sources : List FromItem) : queriesIn sources = sources.flatMap queries := by
  induction sources with
  | nil => rfl
  | cons f rest ih => rw [queriesIn, ih, List.flatMap_cons]

mutual

/-- The queries within a query within a from item are within that from item. -/
theorem queriesOf_subset_queries {p : Query} : (f : FromItem) → p ∈ queries f →
    queriesOf p ⊆ queries f
  | .table _ _, h => by cases h
  | .subquery q _, h => queriesOf_subset_queriesOf q h
  | .expression _ _, h => by cases h
  | .join _ l r _ _, h => by
    rcases List.mem_append.mp h with hl | hr
    · exact List.subset_append_of_subset_left _ (queriesOf_subset_queries l hl)
    · exact List.subset_append_of_subset_right _ (queriesOf_subset_queries r hr)

theorem queriesOf_subset_queriesIn {p : Query} : (sources : List FromItem) →
    p ∈ queriesIn sources → queriesOf p ⊆ queriesIn sources
  | [], h => by cases h
  | f :: rest, h => by
    rcases List.mem_append.mp h with hf | hrest
    · exact List.subset_append_of_subset_left _ (queriesOf_subset_queries f hf)
    · exact List.subset_append_of_subset_right _ (queriesOf_subset_queriesIn rest hrest)

/-- The queries within a query within a query are within that one. -/
theorem queriesOf_subset_queriesOf {p : Query} : (q : QueryOf FromItem) → p ∈ queriesOf q →
    queriesOf p ⊆ queriesOf q
  | ⟨_, _, sources, _, _, _, _, _, _⟩, h => by
    rcases List.mem_cons.mp h with rfl | hwithin
    · exact List.Subset.refl _
    · exact List.subset_cons_of_subset _ (queriesOf_subset_queriesIn sources hwithin)

end

/-- The items of the conditions of joins. -/
def conditionItems : FromItem → List Item
  | .join _ l r conditions _ =>
    conditionItems l ++ conditionItems r ++ conditions.flatMap fun c => [c.1, c.2]
  | _ => []

end FromItem

namespace QueryOf

/-- A query and the queries within it. -/
def queries (q : Query) : List Query := FromItem.queriesOf q

/-- A query is itself, or within one of its from items. -/
theorem mem_queries {p q : Query} : p ∈ q.queries ↔ p = q ∨ ∃ f ∈ q.sources, p ∈ f.queries := by
  cases q
  refine List.mem_cons.trans (or_congr Iff.rfl ?_)
  rw [FromItem.queriesIn_eq]
  exact List.mem_flatMap

/-- What goes for a query itself and for the queries within its from items goes for all of them. -/
theorem forall_mem_queries {P : Query → Prop} {q : Query} (hown : P q)
    (hwithin : ∀ f ∈ q.sources, ∀ inner ∈ f.queries, P inner) : ∀ inner ∈ q.queries, P inner := by
  intro inner hinner
  rcases mem_queries.mp hinner with rfl | ⟨f, hf, hmem⟩
  · exact hown
  · exact hwithin f hf inner hmem

/-- The items of all clauses of a query but FROM. -/
def itemsOfClauses (q : Query) : List Item :=
  q.select ++ Filter.itemsOf q.filters ++ q.groupBy ++ Filter.itemsOf q.having ++
    q.orderBy.map (·.item)

/-- The items of a query itself, without those of the queries within it. -/
def ownItems (q : Query) : List Item :=
  q.itemsOfClauses ++ q.sources.flatMap FromItem.conditionItems

section Items

variable {q : Query} {P : Item → Prop} (h : ∀ i ∈ q.ownItems, P i)

include h

theorem own_select : ∀ i ∈ q.select, P i := fun i hi => h i (by simp [ownItems, itemsOfClauses, hi])

theorem own_filters : ∀ i ∈ Filter.itemsOf q.filters, P i :=
  fun i hi => h i (by simp [ownItems, itemsOfClauses, hi])

theorem own_groupBy : ∀ i ∈ q.groupBy, P i := fun i hi => h i (by simp [ownItems, itemsOfClauses, hi])

theorem own_having : ∀ i ∈ Filter.itemsOf q.having, P i :=
  fun i hi => h i (by simp [ownItems, itemsOfClauses, hi])

theorem own_orderBy : ∀ i ∈ q.orderBy.map (·.item), P i := fun i hi => h i (by
  unfold ownItems itemsOfClauses
  exact List.mem_append_left _ (List.mem_append_right _ hi))

theorem own_conditions {f : FromItem} (hf : f ∈ q.sources) : ∀ i ∈ f.conditionItems, P i :=
  fun i hi => h i (by
    unfold ownItems
    exact List.mem_append_right _ (List.mem_flatMap.mpr ⟨f, hf, hi⟩))

end Items

end QueryOf

/-! ## Values for parameters -/

namespace Filter

theorem parameterCountOf_eq_zero_iff {filters : List Filter} :
    parameterCountOf filters = 0 ↔ ∀ f ∈ filters, parameterCount f = 0 := by
  induction filters with
  | nil => simp [parameterCountOf]
  | cons f rest ih => rw [parameterCountOf, Nat.max_eq_zero_iff, ih, List.forall_mem_cons]

theorem parameterCountOf_append (filters more : List Filter) :
    parameterCountOf (filters ++ more) = max (parameterCountOf filters) (parameterCountOf more) := by
  induction filters with
  | nil => simp [parameterCountOf]
  | cons f rest ih => rw [List.cons_append, parameterCountOf, parameterCountOf, ih, Nat.max_assoc]

/-- What a value becomes is not a parameter. -/
theorem boundOperand_ne_parameter (op : Comparison) (v : Value) (n : Nat) :
    boundOperand op v ≠ .parameter n := by
  unfold boundOperand
  split <;> exact Operand.noConfusion

theorem parameterCount_comparison {item : Item} {op : Comparison} {operand : Operand}
    (h : ∀ n, operand ≠ .parameter n) : parameterCount (.comparison item op operand) = 0 := by
  cases operand with
  | parameter n => exact absurd rfl (h n)
  | value v => rfl
  | list vs => rfl
  | item other => rfl

variable {values : List Value}

mutual

/-- A filter whose parameters all have values is bound without any left. -/
theorem exists_withParameters : (f : Filter) → parameterCount f ≤ values.length →
    ∃ bound, withParameters values f = .ok bound ∧ parameterCount bound = 0
  | .comparison item op (.parameter index), h => by
    have hlt : index < values.length := h
    refine ⟨.comparison item op (boundOperand op values[index]), ?_,
      parameterCount_comparison (boundOperand_ne_parameter op _)⟩
    rw [withParameters, List.getElem?_eq_getElem hlt]
  | .comparison item op (.value v), _ => ⟨_, rfl, rfl⟩
  | .comparison item op (.list vs), _ => ⟨_, rfl, rfl⟩
  | .comparison item op (.item other), _ => ⟨_, rfl, rfl⟩
  | .group op children, h => by
    obtain ⟨bound, hbound, hcount⟩ := exists_allWithParameters children h
    refine ⟨.group op bound, ?_, hcount⟩
    rw [withParameters, hbound]
    rfl

/-- Filters whose parameters all have values are bound without any left. -/
theorem exists_allWithParameters : (filters : List Filter) →
    parameterCountOf filters ≤ values.length →
    ∃ bound, allWithParameters values filters = .ok bound ∧ parameterCountOf bound = 0
  | [], _ => ⟨[], rfl, rfl⟩
  | f :: rest, h => by
    obtain ⟨hf, hrest⟩ := Nat.max_le.mp h
    obtain ⟨bound, hbound, hcount⟩ := exists_withParameters f hf
    obtain ⟨later, hlater, hcounts⟩ := exists_allWithParameters rest hrest
    refine ⟨bound :: later, ?_, ?_⟩
    · rw [allWithParameters, hbound, hlater]
      rfl
    · rw [parameterCountOf, hcount, hcounts]
      rfl

end

end Filter

namespace QueryOf

/-- No filter of the query has a parameter, nor any filter of a query within it. -/
def IsBound (q : Query) : Prop := ∀ inner ∈ q.queries, inner.parameterCount = 0

variable {q bound : Query} {values : List Value}

theorem isBound_iff : q.IsBound ↔
    q.parameterCount = 0 ∧ ∀ inner ∈ FromItem.queriesIn q.sources, inner.parameterCount = 0 := by
  cases q
  exact List.forall_mem_cons

/-- With a value for each of its parameters, a query is bound in its own filters. -/
theorem exists_withParameters (h : q.parameterCount ≤ values.length) : ∃ bound : Query,
    q.withParameters values = .ok bound ∧ bound.sources = q.sources ∧ bound.parameterCount = 0 := by
  unfold parameterCount at h
  rw [Filter.parameterCountOf_append, Nat.max_le] at h
  obtain ⟨filters, hfilters, hcount⟩ := Filter.exists_allWithParameters q.filters h.1
  obtain ⟨having, hhaving, hcounts⟩ := Filter.exists_allWithParameters q.having h.2
  refine ⟨{ q with filters := filters, having := having }, ?_, rfl, ?_⟩
  · unfold withParameters
    rw [hfilters, hhaving]
    rfl
  · show Filter.parameterCountOf (filters ++ having) = 0
    rw [Filter.parameterCountOf_append, hcount, hcounts]
    rfl

/-- **Binding reaches the filters of the query itself alone**: no parameter is left anywhere exactly
if the queries within it have none. -/
theorem isBound_iff_of_sources (hsources : bound.sources = q.sources)
    (hcount : bound.parameterCount = 0) :
    bound.IsBound ↔ ∀ inner ∈ FromItem.queriesIn q.sources, inner.parameterCount = 0 := by
  rw [isBound_iff, hsources, and_iff_right hcount]

end QueryOf

end DocQuery
