import DocQuery.Grammar.Literal
import DocQuery.Proofs.Query.Queries

/-!
# DocQuery.Proofs.Query.Literals — what is bound to parameters, and their order

A value that is bound to a parameter is compared as it is, while a literal is brought to the type of
the item that it is compared with when it is read (`Comparison.literal`).  So a query whose parameters
are bound is the query with literals in their place exactly if every value is of that type already
(`QueryOf.eq_withLiterals_iff`).

The parameters of a query are numbered in reading order if the uses, from left to right through the
groups of a filter and with WHERE in front of HAVING, carry the numbers from zero on
(`QueryOf.IsNumbered`).  Then the query counts as many parameters as it has uses, and binding values
gives each of them to a use in turn (`QueryOf.IsNumbered.withParameters_eq`).
-/

namespace DocQuery

/-- What a literal that is compared with an item is read as. -/
def Comparison.literal (op : Comparison) (item : Item) (v : Value) : Value :=
  if op.isPattern then v else Grammar.coerce v item.expectedType?

/-- A comparison of an item with a parameter. -/
structure ParameterUse where
  item : Item
  op : Comparison
  index : Nat

namespace Filter

mutual

/-- The comparisons of a filter that have parameters. -/
def uses : Filter → List ParameterUse
  | .comparison item op (.parameter index) => [⟨item, op, index⟩]
  | .comparison .. => []
  | .group _ children => usesOf children

/-- The comparisons of filters that have parameters. -/
def usesOf : List Filter → List ParameterUse
  | [] => []
  | f :: rest => uses f ++ usesOf rest

end

mutual

/-- The filter with literals in the place of its parameters. -/
def withLiterals (values : List Value) : Filter → Filter
  | .comparison item op (.parameter index) => match values[index]? with
    | some v => .comparison item op (.value (op.literal item v))
    | none => .comparison item op (.parameter index)
  | .comparison item op operand => .comparison item op operand
  | .group op children => .group op (allWithLiterals values children)

/-- The filters with literals in the place of their parameters. -/
def allWithLiterals (values : List Value) : List Filter → List Filter
  | [] => []
  | f :: rest => withLiterals values f :: allWithLiterals values rest

end

theorem usesOf_append (filters more : List Filter) :
    usesOf (filters ++ more) = usesOf filters ++ usesOf more := by
  induction filters with
  | nil => rfl
  | cons f rest ih => rw [List.cons_append, usesOf, usesOf, ih, List.append_assoc]

variable {values : List Value}

mutual

/-- Literals change nothing in what a filter reads. -/
theorem items_withLiterals : (f : Filter) → (withLiterals values f).items = f.items
  | .comparison item op (.parameter index) => by
    rw [withLiterals]
    cases values[index]? <;> rfl
  | .comparison item op (.value v) => rfl
  | .comparison item op (.list vs) => rfl
  | .comparison item op (.item other) => rfl
  | .group op children => itemsOf_allWithLiterals children

theorem itemsOf_allWithLiterals : (filters : List Filter) →
    itemsOf (allWithLiterals values filters) = itemsOf filters
  | [] => rfl
  | f :: rest => by
    rw [allWithLiterals, itemsOf, itemsOf, items_withLiterals f, itemsOf_allWithLiterals rest]

end

theorem isEmpty_allWithLiterals (filters : List Filter) :
    (allWithLiterals values filters).isEmpty = filters.isEmpty := by cases filters <;> rfl

mutual

/-- An item that is compared with a parameter is read. -/
theorem mem_items_of_mem_uses {u : ParameterUse} : (f : Filter) → u ∈ uses f → u.item ∈ f.items
  | .comparison item op (.parameter index), h => by
    obtain rfl := List.mem_singleton.mp h
    exact List.mem_cons_self
  | .comparison item op (.value v), h => nomatch h
  | .comparison item op (.list vs), h => nomatch h
  | .comparison item op (.item other), h => nomatch h
  | .group op children, h => mem_itemsOf_of_mem_usesOf children h

theorem mem_itemsOf_of_mem_usesOf {u : ParameterUse} :
    (filters : List Filter) → u ∈ usesOf filters → u.item ∈ itemsOf filters
  | [], h => nomatch h
  | f :: rest, h => by
    rw [usesOf, List.mem_append] at h
    rw [itemsOf, List.mem_append]
    exact h.imp (mem_items_of_mem_uses f) (mem_itemsOf_of_mem_usesOf rest)

end

theorem boundOperand_of_not_isList {op : Comparison} (h : op.isList = false) (v : Value) :
    boundOperand op v = .value v := by
  unfold boundOperand
  rw [h]

/-- Binding the use of a parameter to a value is what reading its literal is. -/
def Keeps (values : List Value) (u : ParameterUse) : Prop :=
  ∀ v, values[u.index]? = some v → boundOperand u.op v = .value (u.op.literal u.item v)

theorem withParameters_cons_eq_ok {f : Filter} {rest bound : List Filter}
    (h : allWithParameters values (f :: rest) = .ok bound) : ∃ first others,
      withParameters values f = .ok first ∧ allWithParameters values rest = .ok others ∧
      bound = first :: others := by
  rw [allWithParameters] at h
  cases hf : withParameters values f with
  | error e =>
    rw [hf] at h
    cases h
  | ok first =>
    cases hrest : allWithParameters values rest with
    | error e =>
      rw [hf, hrest] at h
      cases h
    | ok others =>
      rw [hf, hrest] at h
      cases h
      exact ⟨first, others, rfl, rfl, rfl⟩

mutual

/-- A filter that is bound is the one with literals if the literals are read as the values. -/
theorem eq_withLiterals_iff : (f : Filter) → {bound : Filter} →
    withParameters values f = .ok bound → (bound = withLiterals values f ↔ ∀ u ∈ uses f, Keeps values u)
  | .comparison item op (.parameter index), bound, h => by
    rw [withParameters] at h
    cases hv : values[index]? with
    | none =>
      rw [hv] at h
      cases h
    | some v =>
      rw [hv] at h
      cases h
      rw [withLiterals, hv, uses, List.forall_mem_singleton]
      simp only [Filter.comparison.injEq, true_and]
      refine ⟨fun heq v' hv' => ?_, fun hkeeps => hkeeps v hv⟩
      obtain rfl : v = v' := Option.some.inj (hv.symm.trans hv')
      exact heq
  | .comparison item op (.value v), bound, h => by
    cases h
    exact iff_of_true rfl (List.forall_mem_nil _)
  | .comparison item op (.list vs), bound, h => by
    cases h
    exact iff_of_true rfl (List.forall_mem_nil _)
  | .comparison item op (.item other), bound, h => by
    cases h
    exact iff_of_true rfl (List.forall_mem_nil _)
  | .group op children, bound, h => by
    rw [withParameters] at h
    cases hchildren : allWithParameters values children with
    | error e =>
      rw [hchildren] at h
      cases h
    | ok children' =>
      rw [hchildren] at h
      cases h
      rw [withLiterals, uses, ← all_eq_withLiterals_iff children hchildren]
      simp only [Filter.group.injEq, true_and]

/-- Filters that are bound are those with literals if the literals are read as the values. -/
theorem all_eq_withLiterals_iff : (filters : List Filter) → {bound : List Filter} →
    allWithParameters values filters = .ok bound →
    (bound = allWithLiterals values filters ↔ ∀ u ∈ usesOf filters, Keeps values u)
  | [], bound, h => by
    cases h
    exact iff_of_true rfl (List.forall_mem_nil _)
  | f :: rest, bound, h => by
    obtain ⟨first, others, hfirst, hothers, rfl⟩ := withParameters_cons_eq_ok h
    rw [allWithLiterals, usesOf, List.forall_mem_append, ← eq_withLiterals_iff f hfirst,
      ← all_eq_withLiterals_iff rest hothers, List.cons.injEq]

end

end Filter

namespace QueryOf

/-- The query with other filters. -/
def withFilters {φ : Type} (q : QueryOf φ) (filters having : List Filter) : QueryOf φ :=
  { q with filters := filters, having := having }

/-- The query with literals in the place of its parameters. -/
def withLiterals (q : Query) (values : List Value) : Query :=
  q.withFilters (Filter.allWithLiterals values q.filters) (Filter.allWithLiterals values q.having)

/-- The comparisons in the filters of a query that have parameters. -/
def uses (q : Query) : List ParameterUse := Filter.usesOf (q.filters ++ q.having)

/-- **Binding makes the query with literals** exactly if the literals are read as the values. -/
theorem eq_withLiterals_iff {q bound : Query} {values : List Value}
    (h : q.withParameters values = .ok bound) :
    bound = q.withLiterals values ↔ ∀ u ∈ q.uses, Filter.Keeps values u := by
  unfold withParameters at h
  cases hfilters : Filter.allWithParameters values q.filters with
  | error e =>
    rw [hfilters] at h
    cases h
  | ok filters =>
    cases hhaving : Filter.allWithParameters values q.having with
    | error e =>
      rw [hfilters, hhaving] at h
      cases h
    | ok having =>
      rw [hfilters, hhaving] at h
      cases h
      rw [uses, Filter.usesOf_append, List.forall_mem_append,
        ← Filter.all_eq_withLiterals_iff q.filters hfilters,
        ← Filter.all_eq_withLiterals_iff q.having hhaving]
      unfold withLiterals withFilters
      simp only [QueryOf.mk.injEq, true_and, and_true]

end QueryOf

/-! ## Parameters in the order in which they are read -/

/-- The uses carry consecutive numbers from some number on. -/
def NumberedFrom (k : Nat) (uses : List ParameterUse) : Prop :=
  uses.map (·.index) = List.range' k uses.length

theorem numberedFrom_append {k : Nat} {uses more : List ParameterUse} :
    NumberedFrom k (uses ++ more) ↔ NumberedFrom k uses ∧ NumberedFrom (k + uses.length) more := by
  unfold NumberedFrom
  rw [List.map_append, List.length_append, ← List.range'_append_1]
  refine ⟨fun h => List.append_inj h ?_, fun h => by rw [h.1, h.2]⟩
  rw [List.length_map, List.length_range']

namespace Filter

/-! ### Values in turn -/

mutual

/-- The filter with each parameter replaced by the next of some values, and the values left over. -/
def inTurn : List Value → Filter → Filter × List Value
  | v :: values, .comparison item op (.parameter _) =>
    (.comparison item op (boundOperand op v), values)
  | values, .comparison item op operand => (.comparison item op operand, values)
  | values, .group op children =>
    (.group op (allInTurn values children).1, (allInTurn values children).2)

/-- The filters with each parameter replaced by the next of some values, and the values left over. -/
def allInTurn : List Value → List Filter → List Filter × List Value
  | values, [] => ([], values)
  | values, f :: rest =>
    ((inTurn values f).1 :: (allInTurn (inTurn values f).2 rest).1,
      (allInTurn (inTurn values f).2 rest).2)

end

section InTurn

variable {values : List Value}

mutual

/-- A filter whose parameters are numbered in reading order is bound to the values in turn. -/
theorem withParameters_eq_inTurn : (f : Filter) → (k : Nat) → NumberedFrom k (uses f) →
    k + (uses f).length ≤ values.length →
    withParameters values f = .ok (inTurn (values.drop k) f).1 ∧
      (inTurn (values.drop k) f).2 = values.drop (k + (uses f).length)
  | .comparison item op (.parameter index), k, hnumbered, hlength => by
    obtain rfl : index = k := (List.cons.inj hnumbered).1
    have hlt : index < values.length := hlength
    rw [List.drop_eq_getElem_cons hlt, withParameters, List.getElem?_eq_getElem hlt]
    exact ⟨rfl, rfl⟩
  | .comparison item op (.value v), k, _, _ => by cases hdrop : values.drop k <;> exact ⟨rfl, hdrop.symm⟩
  | .comparison item op (.list vs), k, _, _ => by cases hdrop : values.drop k <;> exact ⟨rfl, hdrop.symm⟩
  | .comparison item op (.item other), k, _, _ => by
    cases hdrop : values.drop k <;> exact ⟨rfl, hdrop.symm⟩
  | .group op children, k, hnumbered, hlength => by
    obtain ⟨hbound, hleft⟩ := allWithParameters_eq_allInTurn children k hnumbered hlength
    rw [withParameters, hbound, inTurn]
    exact ⟨rfl, hleft⟩

/-- Filters whose parameters are numbered in reading order are bound to the values in turn. -/
theorem allWithParameters_eq_allInTurn : (filters : List Filter) → (k : Nat) →
    NumberedFrom k (usesOf filters) → k + (usesOf filters).length ≤ values.length →
    allWithParameters values filters = .ok (allInTurn (values.drop k) filters).1 ∧
      (allInTurn (values.drop k) filters).2 = values.drop (k + (usesOf filters).length)
  | [], k, _, _ => ⟨rfl, rfl⟩
  | f :: rest, k, hnumbered, hlength => by
    rw [usesOf, numberedFrom_append] at hnumbered
    rw [usesOf, List.length_append, ← Nat.add_assoc] at hlength
    obtain ⟨hbound, hleft⟩ := withParameters_eq_inTurn f k hnumbered.1 (by omega)
    obtain ⟨hbounds, hlefts⟩ := allWithParameters_eq_allInTurn rest _ hnumbered.2 hlength
    rw [usesOf, List.length_append, ← Nat.add_assoc, allWithParameters, allInTurn, hbound, hleft, hbounds]
    exact ⟨rfl, hlefts⟩

end

mutual

/-- A filter counts parameters up to the highest number that a use carries. -/
theorem parameterCount_le_iff {n : Nat} : (f : Filter) →
    (parameterCount f ≤ n ↔ ∀ u ∈ uses f, u.index < n)
  | .comparison item op (.parameter index) => by
    rw [uses, List.forall_mem_singleton]
    exact Nat.succ_le_iff
  | .comparison item op (.value v) => iff_of_true (Nat.zero_le n) (List.forall_mem_nil _)
  | .comparison item op (.list vs) => iff_of_true (Nat.zero_le n) (List.forall_mem_nil _)
  | .comparison item op (.item other) => iff_of_true (Nat.zero_le n) (List.forall_mem_nil _)
  | .group op children => parameterCountOf_le_iff children

theorem parameterCountOf_le_iff {n : Nat} : (filters : List Filter) →
    (parameterCountOf filters ≤ n ↔ ∀ u ∈ usesOf filters, u.index < n)
  | [] => iff_of_true (Nat.zero_le n) (List.forall_mem_nil _)
  | f :: rest => by
    rw [parameterCountOf, usesOf, Nat.max_le, List.forall_mem_append, parameterCount_le_iff f,
      parameterCountOf_le_iff rest]

end

end InTurn

end Filter

/-! ### Queries -/

namespace QueryOf

/-- The parameters of a query are numbered in reading order. -/
def IsNumbered (q : Query) : Prop := NumberedFrom 0 q.uses

/-- The query with each parameter replaced by the next of some values. -/
def inTurn (q : Query) (values : List Value) : Query :=
  q.withFilters (Filter.allInTurn values q.filters).1
    (Filter.allInTurn (Filter.allInTurn values q.filters).2 q.having).1

variable {q : Query} {values : List Value}

/-- **A query counts the uses of its parameters** if they are numbered in reading order. -/
theorem IsNumbered.parameterCount_eq (h : q.IsNumbered) : q.parameterCount = q.uses.length := by
  -- The count is the least bound of the numbers, and the numbers are those below the length.
  have hle (n : Nat) : q.parameterCount ≤ n ↔ q.uses.length ≤ n := by
    have hindexes : (∀ u ∈ q.uses, u.index < n) ↔ ∀ i ∈ List.range' 0 q.uses.length, i < n := by
      rw [← h, List.forall_mem_map]
    rw [parameterCount, Filter.parameterCountOf_le_iff]
    refine hindexes.trans ⟨fun hall => ?_, fun hlength i hi => ?_⟩
    · by_contra hlt
      exact Nat.lt_irrefl n (hall n (by rw [List.mem_range'_1]; omega))
    · rw [List.mem_range'_1] at hi
      omega
  exact Nat.le_antisymm ((hle _).mpr (Nat.le_refl _)) ((hle _).mp (Nat.le_refl _))

/-- **Values are bound in turn**, as many as the query counts parameters. -/
theorem IsNumbered.withParameters_eq (h : q.IsNumbered) (hlength : values.length = q.parameterCount) :
    q.withParameters values = .ok (q.inTurn values) := by
  have huses : NumberedFrom 0 (Filter.usesOf q.filters ++ Filter.usesOf q.having) := by
    rw [← Filter.usesOf_append]
    exact h
  have hcount : values.length = (Filter.usesOf q.filters).length + (Filter.usesOf q.having).length := by
    rw [hlength, h.parameterCount_eq, uses, Filter.usesOf_append, List.length_append]
  rw [numberedFrom_append] at huses
  have hfirst : 0 + (Filter.usesOf q.filters).length ≤ values.length := by omega
  have hsecond :
      0 + (Filter.usesOf q.filters).length + (Filter.usesOf q.having).length ≤ values.length := by omega
  obtain ⟨hfilters, hleft⟩ := Filter.allWithParameters_eq_allInTurn q.filters 0 huses.1 hfirst
  obtain ⟨hhaving, -⟩ := Filter.allWithParameters_eq_allInTurn q.having _ huses.2 hsecond
  rw [List.drop_zero] at hfilters hleft
  rw [withParameters, hfilters, hhaving, inTurn, hleft]
  rfl

end QueryOf

end DocQuery
