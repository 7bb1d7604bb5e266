import DocQuery.Proofs.Query.Literals
import DocQuery.Proofs.Rows.Typing

/-!
# DocQuery.Proofs.Rows.Twins — filters that say the same of typed rows

A filter whose parameters are bound and the one with literals in their place read the same items, and
they say the same of every row whose values are of the types that the literals are brought to
(`Filter.twin_withLiterals`).  What is filtered by the one gives the rows that the other one gives, and
so does a product (`RowSet.inStep_cartesianProduct`).
-/

namespace DocQuery

/-- A row whose values are of the types of the items that are compared with parameters of a kind. -/
def Row.Serves (U : ParameterUse → Prop) (row : Row) : Prop :=
  ∀ u, U u → ∀ v, row.evaluate? u.item = some v → v.isOfType u.item.expectedType? = true

/-- A row serves parameters if it is typed in the columns of the items that are compared with them. -/
theorem Row.IsTyped.serves {S : Column → Prop} {r : Registry} {header : List Item} {row : Row}
    {U : ParameterUse → Prop} (h : row.IsTyped S r header) (hasks : ∀ u, U u → r.Asks u.item)
    (hcolumns : ∀ u, U u → ∀ c, u.item.column? = some c → S c) : row.Serves U :=
  fun u hu _ hv => h.fits_evaluate? (hasks u hu) hv (hcolumns u hu)

namespace Filter

/-! ## Twins -/

/-- What a comparison is, its value aside: the item, how it compares, and of a value whether it is
missing. -/
def shape? : Filter → Option (Item × Comparison × Option Bool)
  | .comparison item op (.value v) => some (item, op, some v.isNull)
  | .comparison item op _ => some (item, op, none)
  | .group _ _ => none

/-- Filters that read the same items in the same form and say the same of all rows of a kind. -/
structure Twin (K : Row → Prop) (f g : Filter) : Prop where
  items : f.items = g.items
  shape : f.shape? = g.shape?
  accepts : ∀ row, K row → accepts row f = accepts row g

/-- Filters that are twins in their places. -/
abbrev Twins (K : Row → Prop) : List Filter → List Filter → Prop := List.Forall₂ (Twin K)

variable {K : Row → Prop} {f g : Filter} {filters filters' : List Filter}

theorem twin_self (K : Row → Prop) (f : Filter) : Twin K f f := ⟨rfl, rfl, fun _ _ => rfl⟩

theorem Twins.itemsOf (h : Twins K filters filters') : itemsOf filters = itemsOf filters' := by
  induction h with
  | nil => rfl
  | cons hf _ ih => rw [Filter.itemsOf, Filter.itemsOf, hf.items, ih]

theorem Twins.symm (h : Twins K filters filters') : Twins K filters' filters :=
  h.flip.imp fun _ _ hf => ⟨hf.items.symm, hf.shape.symm, fun row hrow => (hf.accepts row hrow).symm⟩

theorem Twins.isEmpty (h : Twins K filters filters') : filters.isEmpty = filters'.isEmpty := by
  cases h <;> rfl

theorem Twins.allAccept (h : Twins K filters filters') {row : Row} (hrow : K row) :
    allAccept row filters = allAccept row filters' := by
  induction h with
  | nil => rfl
  | cons hf _ ih => rw [Filter.allAccept, Filter.allAccept, hf.accepts row hrow, ih]

theorem Twins.anyAccepts (h : Twins K filters filters') {row : Row} (hrow : K row) :
    anyAccepts row filters = anyAccepts row filters' := by
  induction h with
  | nil => rfl
  | cons hf _ ih => rw [Filter.anyAccepts, Filter.anyAccepts, hf.accepts row hrow, ih]

theorem twin_group (h : Twins K filters filters') (op : Connective) :
    Twin K (.group op filters) (.group op filters') where
  items := h.itemsOf
  shape := rfl
  accepts := fun row hrow => by
    cases op with
    | and =>
      rw [accepts, accepts]
      exact h.allAccept hrow
    | or => rw [accepts, accepts, h.isEmpty, h.anyAccepts hrow]

/-- Twins pass every test of what they read together. -/
theorem Twins.filter (h : Twins K filters filters') (test : List Item → Bool) :
    Twins K (filters.filter fun f => test f.items) (filters'.filter fun f => test f.items) := by
  induction h with
  | nil => exact .nil
  | @cons f g _ _ hf _ ih =>
    rw [List.filter_cons, List.filter_cons, hf.items]
    split
    · exact .cons hf ih
    · exact ih

/-! ## Literals -/

theorem isNull_literal (op : Comparison) (item : Item) (v : Value) :
    (op.literal item v).isNull = v.isNull := by
  unfold Comparison.literal
  split
  · rfl
  · exact Value.isNull_coerce _ v

/-- **A comparison says the same with a value as with the literal**, of a row that has a value of the
type of its item. -/
theorem comparisonAccepts_literal {row : Row} {item : Item} (op : Comparison) {v : Value}
    (hrow : ∀ cell, row.evaluate? item = some cell → cell.isOfType item.expectedType? = true)
    (hv : v.suits item.expectedType? = true) :
    comparisonAccepts row item op (.value v) =
      comparisonAccepts row item op (.value (op.literal item v)) := by
  unfold Comparison.literal
  split
  next => rfl
  next hop =>
    unfold comparisonAccepts itemValue
    cases hcell : row.evaluate? item with
    | none => rfl
    | some cell =>
      have hholds := Comparison.holds_coerce (Bool.eq_false_iff.mpr hop) (hrow cell hcell) hv
      exact congrArg Except.ok hholds.symm

variable {values : List Value} {U : ParameterUse → Prop}

mutual

/-- **A filter whose parameters are bound is a twin of the one with literals**, on rows that serve the
parameters whose literals are read as other values. -/
theorem twin_withLiterals : (f : Filter) → (∀ u ∈ uses f, Keeps values u ∨ U u) →
    (∀ u ∈ uses f, u.op.isList = false) →
    (∀ u ∈ uses f, ∀ v, values[u.index]? = some v → v.suits u.item.expectedType? = true) →
    {bound : Filter} → withParameters values f = .ok bound →
      Twin (Row.Serves U) bound (withLiterals values f)
  | .comparison item op (.parameter index), hall, hop, hsuits, bound, h => by
    have hmem : (⟨item, op, index⟩ : ParameterUse) ∈ uses (.comparison item op (.parameter index)) :=
      List.mem_singleton_self _
    rw [withParameters] at h
    cases hv : values[index]? with
    | none =>
      rw [hv] at h
      cases h
    | some v =>
      rw [hv] at h
      cases h
      rw [withLiterals, hv]
      rcases hall _ hmem with hkeeps | hserved
      · rw [show boundOperand op v = .value (op.literal item v) from hkeeps v hv]
        exact twin_self _ _
      · rw [boundOperand_of_not_isList (hop _ hmem)]
        refine ⟨rfl, ?_, fun row hrow => ?_⟩
        · show some (item, op, some v.isNull) = some (item, op, some (op.literal item v).isNull)
          rw [isNull_literal]
        · rw [accepts, accepts]
          exact comparisonAccepts_literal op (hrow _ hserved) (hsuits _ hmem v hv)
  | .comparison item op (.value v), _, _, _, bound, h => by
    cases h
    exact twin_self _ _
  | .comparison item op (.list vs), _, _, _, bound, h => by
    cases h
    exact twin_self _ _
  | .comparison item op (.item other), _, _, _, bound, h => by
    cases h
    exact twin_self _ _
  | .group op children, hall, hop, hsuits, bound, h => by
    rw [withParameters] at h
    cases hchildren : allWithParameters values children with
    | error e =>
      rw [hchildren] at h
      cases h
    | ok children' =>
      rw [hchildren] at h
      cases h
      rw [withLiterals]
      exact twin_group (twins_withLiterals children hall hop hsuits hchildren) op

/-- Filters whose parameters are bound are twins of those with literals. -/
theorem twins_withLiterals : (filters : List Filter) →
    (∀ u ∈ usesOf filters, Keeps values u ∨ U u) → (∀ u ∈ usesOf filters, u.op.isList = false) →
    (∀ u ∈ usesOf filters, ∀ v, values[u.index]? = some v → v.suits u.item.expectedType? = true) →
    {bound : List Filter} → allWithParameters values filters = .ok bound →
      Twins (Row.Serves U) bound (allWithLiterals values filters)
  | [], _, _, _, bound, h => by
    cases h
    exact .nil
  | f :: rest, hall, hop, hsuits, bound, h => by
    obtain ⟨first, others, hfirst, hothers, rfl⟩ := withParameters_cons_eq_ok h
    rw [usesOf, List.forall_mem_append] at hall hop hsuits
    exact .cons (twin_withLiterals f hall.1 hop.1 hsuits.1 hfirst)
      (twins_withLiterals rest hall.2 hop.2 hsuits.2 hothers)

end

end Filter

/-! ## Plans in step -/

namespace Plan

variable {α β : Type} {R : α → α → Prop} {p p' : Plan α}

/-- Plans that leave one ledger and end in related results, or in one failure. -/
def InStep (R : α → α → Prop) (p p' : Plan α) : Prop :=
  ∀ l, (p.run l).2 = (p'.run l).2 ∧ Agreeing R (p.run l).1 (p'.run l).1

theorem inStep_pure {a b : α} (h : R a b) : InStep R (pure a) (pure b) := fun _ => ⟨rfl, .ok h⟩

theorem inStep_self (hR : ∀ a, R a a) (p : Plan α) : InStep R p p := by
  refine fun l => ⟨rfl, ?_⟩
  cases (p.run l).1 with
  | error e => exact .error e
  | ok a => exact .ok (hR a)

/-- Plans that begin alike and go on in step. -/
theorem inStep_bind {p : Plan β} {f g : β → Plan α}
    (h : ∀ b l l', p.run l = (.ok b, l') → InStep R (f b) (g b)) :
    InStep R (p >>= f) (p >>= g) := by
  intro l
  rcases hrun : p.run l with ⟨result, l'⟩
  cases result with
  | error e =>
    rw [run_bind_of_failure hrun, run_bind_of_failure hrun]
    exact ⟨rfl, .error e⟩
  | ok b =>
    rw [run_bind_of_run hrun, run_bind_of_run hrun]
    exact h b l l' hrun l'

end Plan

/-! ## Data sets -/

namespace RowSet

open Plan

/-- Data sets that give the same rows under the same items, from one bottom. -/
structure Twin (d e : RowSet) : Prop where
  header : d.header = e.header
  source : d.source = e.source
  outcomes : d.stream.outcomes = e.stream.outcomes

theorem twin_self (d : RowSet) : d.Twin d := ⟨rfl, rfl, rfl⟩

variable {S : Column → Prop} {r : Registry} {K : Row → Prop} {d e : RowSet} {filters filters' : List Filter}

theorem source_filtered (d : RowSet) (filters : List Filter) :
    (d.filtered filters).source = d.source := by
  unfold filtered
  split <;> rfl

/-- Outcomes are replaced alike if rows are. -/
theorem flatMap_spread_congr {outcomes : List (Except QueryError Row)}
    {f g : Row → List (Except QueryError Row)} (h : ∀ row, Except.ok row ∈ outcomes → f row = g row) :
    outcomes.flatMap (Stream.spread f) = outcomes.flatMap (Stream.spread g) := by
  refine List.flatMap_congr fun o ho => ?_
  cases o with
  | error e => rfl
  | ok row => exact h row ho

/-- **Rows filtered by twins are the same.** -/
theorem Twin.filtered (h : d.Twin e) (hd : d.stream.Every K) (hfilters : Filter.Twins K filters filters') :
    (d.filtered filters).Twin (e.filtered filters') where
  header := by rw [header_filtered, header_filtered, h.header]
  source := by rw [source_filtered, source_filtered, h.source]
  outcomes := by
    rw [outcomes_filtered, outcomes_filtered, ← h.outcomes]
    refine flatMap_spread_congr fun row hrow => ?_
    simp only [Stream.tested, hfilters.allAccept (hd row hrow)]

theorem Twin.nestedLoop (h : d.Twin e) {items : List Item} {inner : List Row}
    (hrows : ∀ outer, Except.ok outer ∈ d.stream.outcomes → ∀ row ∈ inner,
      K (combine (d.header ++ items) outer row.values))
    (hfilters : Filter.Twins K filters filters') :
    (d.nestedLoop items inner filters false).Twin (e.nestedLoop items inner filters' false) where
  header := congrArg (· ++ items) h.header
  source := h.source
  outcomes := by
    unfold RowSet.nestedLoop
    dsimp only
    rw [Stream.outcomes_expand, Stream.outcomes_expand, ← h.outcomes, ← h.header]
    refine flatMap_spread_congr fun outer houter => List.filterMap_congr fun row hrow => ?_
    unfold pairOutcome
    rw [hfilters.allAccept (hrows outer houter row hrow)]

section Products

variable (hK : ∀ header row, Row.IsTyped S r header row → K row)

include hK

theorem inStep_productWith {all : List Item} (h : d.Twin e) (hd : d.IsTyped S r)
    (hfilters : Filter.Twins K filters filters') {sets : List RowSet}
    (hsets : ∀ inner ∈ sets, inner.IsTyped S r) :
    InStep Twin (productWith all d filters sets) (productWith all e filters' sets) := by
  induction sets generalizing d e filters filters' with
  | nil =>
    unfold productWith
    exact inStep_pure (h.filtered (hd.rows.mono fun row hrow => hK _ row hrow) hfilters)
  | cons inner rest ih =>
    rw [List.forall_mem_cons] at hsets
    have hclose : d.close = e.close := by
      unfold close
      rw [h.source]
    unfold productWith
    rw [hclose]
    refine inStep_bind fun rows l l' hread => ?_
    have hrows := hsets.1.of_mem (yields_of_toRows (run_of_orElseClosing hread))
    split
    · exact inStep_self twin_self _
    · simp only [List.partition_eq_filter_filter, h.header]
      refine ih ?_ ?_ (hfilters.filter fun items => !items.all (Header.isReadable _)) hsets.2
      · refine h.nestedLoop (fun outer houter row hrow => ?_)
          (hfilters.filter fun items => items.all (Header.isReadable _))
        refine hK _ _ (isTyped_combine ?_ (hd.rows outer houter) (hrows row hrow).values)
        exact List.forall_mem_append.mpr ⟨hd.header, hsets.1.header⟩
      · exact hd.nestedLoop hsets.1.header (fun row hrow => (hrows row hrow).values) _ false

/-- **Products filtered by twins are the same.** -/
theorem inStep_cartesianProduct (hfilters : Filter.Twins K filters filters') {sets : List RowSet}
    (hsets : ∀ d ∈ sets, d.IsTyped S r) :
    InStep Twin (cartesianProduct sets filters) (cartesianProduct sets filters') := by
  cases sets with
  | nil => exact inStep_self twin_self _
  | cons first rest =>
    rw [List.forall_mem_cons] at hsets
    exact inStep_productWith hK (twin_self first) hsets.1 hfilters hsets.2

end Products

end RowSet

end DocQuery
