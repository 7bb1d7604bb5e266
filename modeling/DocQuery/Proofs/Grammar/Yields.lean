import DocQuery.Proofs.Grammar.ReadQueries

/-!
# DocQuery.Proofs.Grammar.Yields — what every item of a query that is read has

A reader yields a property if whatever it succeeds with has it, from all counters.  The items behind
FROM come from names alone: a name means a select item under its alias, or what it means over the
from items.  So a property of everything that names mean over the from items, which does not look at
aliases, is one of every item behind FROM (`references_of_readQuery`).
-/

namespace DocQuery

/-- The items of a query behind its from items. -/
def QueryOf.laterItems (q : Query) : List Item :=
  Filter.itemsOf q.filters ++ q.groupBy ++ Filter.itemsOf q.having ++ q.orderBy.map (·.item)

namespace Grammar

/-! ## Readers that yield a property -/

section Yields

variable {α β : Type} {m : Reader α} {P Q : α → Prop} {R : β → Prop}

/-- Whatever the reader succeeds with has the property. -/
def Yields (m : Reader α) (P : α → Prop) : Prop := ∀ s a s', m.run s = (.ok a, s') → P a

theorem Yields.mono (h : Yields m P) (hPQ : ∀ a, P a → Q a) : Yields m Q :=
  fun s a s' hrun => hPQ a (h s a s' hrun)

theorem Yields.and {P' : α → Prop} (h : Yields m P) (h' : Yields m P') :
    Yields m fun a => P a ∧ P' a :=
  fun s a s' hrun => ⟨h s a s' hrun, h' s a s' hrun⟩

theorem yields_pure {a : α} (h : P a) : Yields (pure a) P := by
  intro s b s' hrun
  cases hrun
  exact h

theorem yields_throw (e : QueryError) : Yields (throw e : Reader α) P := by
  intro s b s' hrun
  cases hrun

theorem Yields.bind {f : α → Reader β} (h : Yields m P) (hf : ∀ a, P a → Yields (f a) R) :
    Yields (m >>= f) R := by
  intro s b s' hrun
  obtain ⟨a, middle, hm, hrest⟩ := run_bind_eq_ok hrun
  exact hf a (h s a middle hm) middle b s' hrest

/-- A result that needs no counters. -/
theorem yields_lift {x : Except QueryError α} : Yields (liftM x : Reader α) fun a => x = .ok a :=
  fun _ _ _ hrun => (run_lift_eq_ok hrun).1

/-- Any reader yields what holds of everything. -/
theorem yields_true (m : Reader α) : Yields m fun _ => True := fun _ _ _ _ => trivial

theorem yields_mapM {f : β → Reader α} {l : List β} (h : ∀ b ∈ l, Yields (f b) P) :
    Yields (l.mapM f) fun results => ∀ a ∈ results, P a := by
  induction l with
  | nil => exact yields_pure (List.forall_mem_nil _)
  | cons b rest ih =>
    rw [List.forall_mem_cons] at h
    rw [List.mapM_cons]
    refine h.1.bind fun a ha => (ih h.2).bind fun results hresults => yields_pure ?_
    exact List.forall_mem_cons.mpr ⟨ha, hresults⟩

theorem yields_foldlM {f : α → β → Reader α} {l : List β} {a : α} (ha : P a)
    (h : ∀ a b, P a → Yields (f a b) P) : Yields (l.foldlM f a) P := by
  induction l generalizing a with
  | nil => exact yields_pure ha
  | cons b rest ih =>
    rw [List.foldlM_cons]
    exact (h a b ha).bind fun a' ha' => ih ha'

theorem yields_make (pending : Pending) : Yields (make pending) fun i => ∃ n, i = pending n :=
  (yields_true drawItem).bind fun n _ => yields_pure ⟨n, rfl⟩

/-- An item that was found is what the resolution means under some identity. -/
theorem yields_makeFound {found : Except QueryError (Option Pending)} {failure : QueryError} :
    Yields (makeFound found failure) fun i => ∃ pending n, found = .ok (some pending) ∧ i = pending n := by
  unfold makeFound
  refine yields_lift.bind fun result hresult => ?_
  cases result with
  | none => exact yields_throw failure
  | some pending =>
    exact (yields_make pending).mono fun i ⟨n, hi⟩ => ⟨pending, n, hresult, hi⟩

end Yields

/-! ## Clauses of references -/

section References

variable {q : Query} {P : Item → Prop}

/-- Every name that means something means an item that has the property. -/
def MeansOnly (q : Query) (P : Item → Prop) : Prop :=
  ∀ text pending n, resolveReference q text = .ok (some pending) → P (pending n)

theorem yields_reference (h : MeansOnly q P) (text : List Char) (failure : QueryError) :
    Yields (makeFound (resolveReference q text) failure) P :=
  yields_makeFound.mono fun _ ⟨pending, n, hfound, hi⟩ => hi ▸ h text pending n hfound

theorem yields_readOperand (h : MeansOnly q P) (failure : QueryError) {item : Item} (hitem : P item)
    (op : Comparison) (text : List Char) :
    Yields (readOperand q failure item op text) fun operand =>
      ∀ i ∈ Filter.comparisonItems item operand, P i := by
  have halone : ∀ i ∈ [item], P i := List.forall_mem_singleton.mpr hitem
  unfold readOperand
  dsimp only
  split
  · exact (yields_true _).bind fun _ _ => yields_pure halone
  · split
    · split
      · exact (yields_true _).bind fun _ _ => yields_pure halone
      · exact yields_throw failure
    · split
      · exact yields_pure halone
      · refine (yields_reference h _ failure).bind fun other hother => yields_pure ?_
        exact List.forall_mem_cons.mpr ⟨hitem, List.forall_mem_singleton.mpr hother⟩

theorem yields_readComparison (h : MeansOnly q P) (clause : String) (text : List Char) :
    Yields (readComparison q clause text) fun f => ∀ i ∈ Filter.items f, P i := by
  unfold readComparison
  dsimp only
  split
  · refine (yields_reference h _ _).bind fun item hitem => yields_pure ?_
    exact List.forall_mem_singleton.mpr hitem
  · split
    · refine (yields_reference h _ _).bind fun item hitem => ?_
      exact (yields_readOperand h _ hitem _ _).bind fun operand hoperand => yields_pure hoperand
    · exact yields_throw _

theorem forall_mem_itemsOf {filters : List Filter} (h : ∀ f ∈ filters, ∀ i ∈ Filter.items f, P i) :
    ∀ i ∈ Filter.itemsOf filters, P i := by
  induction filters with
  | nil => exact List.forall_mem_nil _
  | cons f rest ih =>
    rw [List.forall_mem_cons] at h
    exact List.forall_mem_append.mpr ⟨h.1, ih h.2⟩

/-- The items of a filter, by induction on its depth. -/
theorem yields_readFilter (h : MeansOnly q P) (clause : String) (depth : Nat) (text : List Char) :
    Yields (readFilter q clause depth text) fun f => ∀ i ∈ Filter.items f, P i := by
  induction depth generalizing text with
  | zero => exact yields_readComparison h clause text
  | succ depth ih =>
    unfold readFilter
    split
    · exact ih _
    · split
      · refine (yields_mapM fun part _ => ih part).bind fun filters hfilters => yields_pure ?_
        exact forall_mem_itemsOf hfilters
      · exact yields_readComparison h clause text

theorem yields_readFilters (h : MeansOnly q P) (clause : String) (text : List Char) :
    Yields (readFilters q clause text) fun filters => ∀ i ∈ Filter.itemsOf filters, P i :=
  (yields_mapM fun part _ => yields_readFilter h clause text.length part).mono
    fun _ hfilters => forall_mem_itemsOf hfilters

end References

/-! ## Whole queries -/

section Clauses

variable {catalog : Catalog} {sources : List FromItem} {P : Item → Prop} {q : Query}

/-- A property of whatever names mean over some from items, and of expressions, that does not look at
aliases. -/
structure OfNames (sources : List FromItem) (P : Item → Prop) : Prop where
  item : ∀ q : Query, q.sources = sources → ∀ text pending n,
    resolveItem q text = .ok (some pending) → P (pending n)
  expression : ∀ id text aliasName i, Item.ofExpression? id text aliasName = some i → P i
  withAlias : ∀ i aliasName, P i → P (i.withAlias aliasName)

/-- An item that one of the from items offers. -/
def IsOffered (sources : List FromItem) (i : Item) : Prop :=
  ∃ leaf ∈ sources.flatMap FromItem.leaves, ∃ pending ∈ leaf.offers, ∃ n, i = pending n

/-- A query over some from items whose references have a property: the select items that are not on
offer, and all items behind FROM. -/
structure References (sources : List FromItem) (P : Item → Prop) (q : Query) : Prop where
  select : ∀ i ∈ q.select, P i ∨ IsOffered sources i
  sources : q.sources = sources
  filters : ∀ i ∈ Filter.itemsOf q.filters, P i
  groupBy : ∀ i ∈ q.groupBy, P i
  having : ∀ i ∈ Filter.itemsOf q.having, P i
  orderBy : ∀ o ∈ q.orderBy, P o.item

theorem References.later (h : References sources P q) : ∀ i ∈ q.laterItems, P i := by
  intro i hi
  simp only [QueryOf.laterItems, List.mem_append, List.mem_map] at hi
  rcases hi with ((hi | hi) | hi) | ⟨o, ho, rfl⟩
  · exact h.filters i hi
  · exact h.groupBy i hi
  · exact h.having i hi
  · exact h.orderBy o ho

/-- What from items offer has no alias. -/
theorem aliasName_of_offers {leaf : FromItem} {pending : Pending} (h : pending ∈ leaf.offers) (n : Nat) :
    (pending n).aliasName = none := by
  cases leaf with
  | table t aliasName =>
    obtain ⟨c, -, rfl⟩ := List.mem_map.mp h
    rfl
  | subquery q aliasName =>
    obtain ⟨i, -, rfl⟩ := List.mem_map.mp h
    rfl
  | expression text aliasName => cases h
  | join kind left right conditions aliasName => cases h

/-- The select items with an alias are not on offer. -/
theorem References.named (h : References sources P q) :
    ∀ i ∈ q.select, i.aliasName ≠ none → P i := by
  intro i hi halias
  rcases h.select i hi with hP | ⟨leaf, -, pending, hpending, n, rfl⟩
  · exact hP
  · exact absurd (aliasName_of_offers hpending n) halias

theorem References.meansOnly (h : References sources P q) (hP : OfNames sources P) :
    MeansOnly q P := by
  intro text pending n hfound
  unfold resolveReference at hfound
  split at hfound
  next i hi =>
    cases hfound
    have halias : i.aliasName ≠ none := by
      intro hnone
      have hany := List.find?_some hi
      rw [hnone] at hany
      cases hany
    exact h.named i (List.mem_of_find?_eq_some hi) halias
  next => exact hP.item q h.sources text pending n hfound

theorem yields_makeOffered (offered : List FromItem) :
    Yields (makeOffered offered) fun items => ∀ i ∈ items, IsOffered offered i := by
  intro s items s' hrun
  cases hrun
  intro i hi
  obtain ⟨⟨pending, n⟩, hpending, rfl⟩ := List.mem_map.mp hi
  obtain ⟨leaf, hleaf, hoffers⟩ := List.mem_flatMap.mp (List.fst_mem_of_mem_zipIdx hpending)
  exact ⟨leaf, hleaf, pending, hoffers, n, rfl⟩

theorem yields_readSelectToken (hq : q.sources = sources) (hP : OfNames sources P)
    (token : List Char) : Yields (readSelectToken catalog q token) fun items =>
      ∀ i ∈ items, P i ∨ IsOffered sources i := by
  have hoffered {offered : List FromItem}
      (h : offered.flatMap FromItem.leaves ⊆ sources.flatMap FromItem.leaves) :
      Yields (makeOffered offered) fun items => ∀ i ∈ items, P i ∨ IsOffered sources i :=
    (yields_makeOffered offered).mono fun items hitems i hi => by
      obtain ⟨leaf, hleaf, hmeans⟩ := hitems i hi
      exact Or.inr ⟨leaf, h hleaf, hmeans⟩
  unfold readSelectToken
  dsimp only
  split
  · exact hoffered (hq ▸ List.Subset.refl _)
  · split
    · split
      next source hsource =>
        have hmem := QueryOf.mem_of_source? hsource
        obtain ⟨f, -, hf⟩ := List.mem_flatMap.mp hmem
        refine hoffered fun leaf hleaf => ?_
        rw [List.flatMap_singleton, leaves_of_mem_leaves f hf, List.mem_singleton] at hleaf
        exact hleaf ▸ hq ▸ hmem
      next => exact yields_throw _
    · refine yields_lift.bind fun result hresult => ?_
      cases result with
      | some pending =>
        refine (yields_make pending).bind ?_
        rintro _ ⟨n, rfl⟩
        have hitem := hP.item q hq _ pending n hresult
        refine yields_pure (List.forall_mem_singleton.mpr (Or.inl ?_))
        split
        · exact hP.withAlias _ _ hitem
        · exact hitem
      | none =>
        dsimp only
        split
        · refine (yields_true drawItem).bind fun n _ => ?_
          split
          next i hi =>
            exact yields_pure (List.forall_mem_singleton.mpr (Or.inl (hP.expression n _ _ i hi)))
          next => exact yields_throw _
        · exact yields_throw _

/-- **Every clause keeps the references.** -/
theorem yields_readClause (hP : OfNames sources P) (h : References sources P q) (keyword : String)
    (text : List Char) : Yields (readClause catalog q keyword text) (References sources P) := by
  have hmeans := h.meansOnly hP
  unfold readClause
  split
  · unfold readSelect
    dsimp only
    refine (yields_mapM fun token _ => yields_readSelectToken h.sources hP token).bind
      fun items hitems => ?_
    split
    · exact yields_throw _
    · refine yields_pure { h with select := fun i hi => ?_ }
      obtain ⟨l, hl, hmem⟩ := List.mem_flatten.mp hi
      exact hitems l hl i hmem
  · exact (yields_readFilters hmeans _ text).bind fun filters hfilters =>
      yields_pure { h with filters := hfilters }
  · unfold readGroupBy
    exact (yields_mapM fun token _ => yields_reference hmeans token _).bind fun items hitems =>
      yields_pure { h with groupBy := hitems }
  · exact (yields_readFilters hmeans _ text).bind fun filters hfilters =>
      yields_pure { h with having := hfilters }
  · unfold readOrderBy
    refine (yields_mapM (P := fun o : OrderItem => P o.item) fun token _ => ?_).bind
      fun items hitems => yields_pure { h with orderBy := hitems }
    exact (yields_reference hmeans _ _).bind fun i hi => yields_pure hi
  · exact (yields_true _).bind fun n _ => yields_pure { h with }
  · exact (yields_true _).bind fun n _ => yields_pure { h with }
  · exact yields_pure h

/-- From items are put into a query and change nothing else. -/
theorem yields_readFromItems {simple : List Char → Reader FromItem} (tokens : List (List Char)) :
    Yields (readFromItems simple q tokens) fun q' => q' = { q with sources := q'.sources } := by
  induction tokens generalizing q with
  | nil => exact yields_pure rfl
  | cons token rest ih =>
    unfold readFromItems
    exact (yields_true _).bind fun source _ => ih

/-- The clauses behind FROM leave the from items as they are. -/
theorem sources_of_readClauses {clauses : List (String × List Char)} : Yields
    (clauses.foldlM (fun q (keyword, text) => readClause catalog q keyword text) q)
    fun q' => q'.sources = q.sources := by
  have hall : OfNames q.sources fun _ => True :=
    ⟨fun _ _ _ _ _ _ => trivial, fun _ _ _ _ _ => trivial, fun _ _ _ => trivial⟩
  have hstart : References q.sources (fun _ => True) q := by
    constructor <;> simp
  exact (yields_foldlM hstart fun q' (clause : String × List Char) hq' =>
    yields_readClause hall hq' clause.1 clause.2).mono fun _ h => h.sources

/-- The clauses behind FROM put references to its from items into a query. -/
theorem references_of_readClauses {simple : List Char → Reader FromItem} {tokens : List (List Char)}
    {read : Query} {s k last : State}
    (hread : (readFromItems simple {} tokens).run s = (.ok read, k))
    {clauses : List (String × List Char)} (hclauses : (clauses.foldlM (fun q (keyword, text) =>
      readClause catalog q keyword text) read).run k = (.ok q, last))
    {P : Item → Prop} (hP : OfNames read.sources P) : References read.sources P q := by
  have hbare := yields_readFromItems _ _ _ _ hread
  have hstart : References read.sources P read := by
    rw [hbare]
    constructor <;> simp [Filter.itemsOf]
  exact yields_foldlM hstart (fun q' (clause : String × List Char) hq' =>
    yields_readClause hP hq' clause.1 clause.2) _ _ _ hclauses

/-- **A query that is read consists of references**, for a property of whatever names mean over its
from items. -/
theorem references_of_readQuery {sql : String} {s s' : State}
    (h : (readQuery catalog sql).run s = (.ok q, s'))
    {P : List FromItem → Item → Prop} (hP : ∀ sources, OfNames sources (P sources)) :
    References q.sources (P q.sources) q := by
  obtain ⟨text, clauses, read, k, last, -, -, hread, hclauses, -⟩ := exists_of_readQuery h
  have hrefers := references_of_readClauses hread hclauses (hP read.sources)
  rw [hrefers.sources]
  exact hrefers

end Clauses

end Grammar

end DocQuery
