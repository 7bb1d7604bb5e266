import DocQuery.Grammar.Statement
import DocQuery.Proofs.Grammar.Pending
import DocQuery.Proofs.Grammar.Reader
import DocQuery.Proofs.Query.Queries

/-!
# DocQuery.Proofs.Grammar.Registry — what reading a query enters

Whatever text a query is read from, each item of it and of the queries within it draws an identity of
its own, or is a copy of a select item that it names; so there is one registry that lists them all
(`readQuery_isRead`).  A column in a clause belongs to a table that the query draws rows from, and
every table is one of the catalog.
-/

namespace DocQuery.Grammar

variable {α β : Type} {r : Registry}

/-! ## Readers that enter items -/

/-- From counters at the next identity of a registry, the reader fails, or it gives a result that has
the property in some later registry. -/
def Grows (m : Reader α) (r : Registry) (post : Registry → α → Prop) : Prop :=
  ∀ s a s', s.nextItem = r.next → m.run s = (.ok a, s') →
    ∃ r', r'.Extends r ∧ s'.nextItem = r'.next ∧ post r' a

variable {m : Reader α} {post : Registry → α → Prop}

theorem Grows.mono {weaker : Registry → α → Prop} (h : Grows m r post)
    (hpost : ∀ r' a, r'.Extends r → post r' a → weaker r' a) : Grows m r weaker := by
  intro s a s' hs hrun
  obtain ⟨r', hr, hnext, ha⟩ := h s a s' hs hrun
  exact ⟨r', hr, hnext, hpost r' a hr ha⟩

theorem grows_pure {a : α} (h : post r a) : Grows (pure a) r post := by
  intro s b s' hs hrun
  cases hrun
  exact ⟨r, .refl r, hs, h⟩

theorem grows_throw (e : QueryError) : Grows (throw e : Reader α) r post := by
  intro s b s' _ hrun
  cases hrun

theorem Grows.bind {next : Registry → β → Prop} {f : α → Reader β} (h : Grows m r post)
    (hf : ∀ r' a, r'.Extends r → post r' a → Grows (f a) r' next) : Grows (m >>= f) r next := by
  intro s b s' hs hrun
  obtain ⟨a, middle, hm, hrest⟩ := run_bind_eq_ok hrun
  obtain ⟨r', hr, hnext, ha⟩ := h s a middle hs hm
  obtain ⟨r'', hr', hnext', hb⟩ := hf r' a hr ha middle b s' hnext hrest
  exact ⟨r'', hr'.trans hr, hnext', hb⟩

/-- A result that needs no counters. -/
theorem grows_lift {x : Except QueryError α} (post : Registry → α → Prop)
    (h : ∀ a, x = .ok a → post r a) : Grows (liftM x : Reader α) r post := by
  cases x with
  | error e => exact grows_throw e
  | ok a => exact grows_pure (h a rfl)

/-- Results over a list, each entered after those before it. -/
theorem grows_mapM {f : β → Reader α} {l : List β} (post : Registry → α → Prop)
    (hpost : ∀ r' r'' a, r''.Extends r' → post r' a → post r'' a)
    (h : ∀ r' b, r'.Extends r → Grows (f b) r' post) :
    Grows (l.mapM f) r fun r' results => ∀ a ∈ results, post r' a := by
  induction l generalizing r with
  | nil => exact grows_pure (List.forall_mem_nil _)
  | cons b rest ih =>
    rw [List.mapM_cons]
    refine (h r b (.refl r)).bind fun r' a hr ha => ?_
    refine (ih fun r'' b hr' => h r'' b (hr'.trans hr)).bind fun r'' results hr' hresults => ?_
    exact grows_pure (List.forall_mem_cons.mpr ⟨hpost r' r'' a hr' ha, hresults⟩)

/-- The next identity goes to an item. -/
theorem grows_drawItem (i : Item) : Grows drawItem r fun r' id => id = r.next ∧ r' = r.enter i := by
  intro s id s' hs hrun
  cases hrun
  exact ⟨r.enter i, r.enter_extends i, congrArg (· + 1) hs, hs, rfl⟩

/-- A parameter draws no identity. -/
theorem grows_drawParameter : Grows drawParameter r fun _ _ => True := by
  intro s n s' hs hrun
  cases hrun
  exact ⟨r, .refl r, hs, trivial⟩

/-! ## Items -/

section Items

variable {q : Query} {sources : List FromItem} {pending : Pending}

/-- An item of a query over some from items: listed, and a column only if it is one of theirs. -/
def IsItemOf (sources : List FromItem) (r : Registry) (i : Item) : Prop :=
  r.Lists i ∧ i.IsAmong sources

theorem IsItemOf.mono {r' : Registry} {i : Item} (h : IsItemOf sources r i) (hr : r'.Extends r) :
    IsItemOf sources r' i := ⟨h.1.mono hr, h.2⟩

theorem IsItemOf.withAlias {i : Item} (h : IsItemOf sources r i) (aliasName : String) :
    IsItemOf sources r (i.withAlias aliasName) := ⟨h.1.withAlias aliasName, h.2.withAlias aliasName⟩

theorem grows_make (h : Pending.IsFresh r sources pending) :
    Grows (make pending) r fun r' i => IsItemOf sources r' i ∧ i.id = r.next := by
  unfold make
  refine (grows_drawItem (pending r.next)).bind fun r' id _ hid => ?_
  obtain ⟨rfl, rfl⟩ := hid
  exact grows_pure ⟨⟨Registry.lists_enter (h.id _) (h.inner _), h.among _⟩, h.id _⟩

/-- A copy of an item draws an identity that it does not take. -/
theorem grows_make_copy {i : Item} (h : IsItemOf sources r i) :
    Grows (make fun _ => i) r (IsItemOf sources) := by
  unfold make
  refine (grows_drawItem i).bind fun r' id hr _ => ?_
  exact grows_pure (h.mono hr)

theorem grows_makeFound {found : Except QueryError (Option Pending)} {failure : QueryError}
    {post : Registry → Item → Prop}
    (h : ∀ pending, found = .ok (some pending) → Grows (make pending) r post) :
    Grows (makeFound found failure) r post := by
  unfold makeFound
  refine (grows_lift (fun r' result => r' = r ∧ found = .ok result)
    fun result hresult => ⟨rfl, hresult⟩).bind fun r' result _ hresult => ?_
  obtain ⟨rfl, hresult⟩ := hresult
  cases result with
  | none => exact grows_throw failure
  | some pending => exact h pending hresult

/-- What a query must know before names in it are resolved. -/
structure Knows (r : Registry) (q : Query) : Prop where
  sources : KnowsSources r q.sources
  select : ∀ i ∈ q.select, IsItemOf q.sources r i

theorem KnowsSources.mono {r' : Registry} (h : KnowsSources r sources) (hr : r'.Extends r) :
    KnowsSources r' sources := fun q aliasName hleaf i hi => (h q aliasName hleaf i hi).mono hr

theorem Knows.mono {r' : Registry} (h : Knows r q) (hr : r'.Extends r) : Knows r' q :=
  ⟨h.sources.mono hr, fun i hi => (h.select i hi).mono hr⟩

/-- **A reference becomes an item of the query.** -/
theorem grows_reference (h : Knows r q) (text : List Char) (failure : QueryError) :
    Grows (makeFound (resolveReference q text) failure) r (IsItemOf q.sources) := by
  refine grows_makeFound fun pending hpending => ?_
  rcases resolveReference_eq h.sources hpending with hfresh | ⟨i, hi, rfl⟩
  · exact (grows_make hfresh).mono fun _ _ _ hi => hi.1
  · exact grows_make_copy (h.select i hi)

end Items

/-! ## Filters -/

section Filters

variable {q : Query}

/-- A filter of a query consists of items of it. -/
def IsFilterOf (sources : List FromItem) (r : Registry) (f : Filter) : Prop :=
  ∀ i ∈ Filter.items f, IsItemOf sources r i

theorem IsFilterOf.mono {sources : List FromItem} {r' : Registry} {f : Filter}
    (h : IsFilterOf sources r f) (hr : r'.Extends r) : IsFilterOf sources r' f :=
  fun i hi => (h i hi).mono hr

theorem isItemOf_of_filters {sources : List FromItem} {filters : List Filter}
    (h : ∀ f ∈ filters, IsFilterOf sources r f) :
    ∀ i ∈ Filter.itemsOf filters, IsItemOf sources r i := by
  induction filters with
  | nil => exact List.forall_mem_nil _
  | cons f rest ih =>
    rw [List.forall_mem_cons] at h
    intro i hi
    rcases List.mem_append.mp hi with hf | hrest
    · exact h.1 i hf
    · exact ih h.2 i hrest

theorem grows_readOperand (h : Knows r q) (failure : QueryError) {item : Item}
    (hitem : IsItemOf q.sources r item) (op : Comparison) (text : List Char) :
    Grows (readOperand q failure item op text) r fun r' operand =>
      ∀ i ∈ Filter.comparisonItems item operand, IsItemOf q.sources r' i := by
  have halone (r' : Registry) (hr : r'.Extends r) :
      ∀ i ∈ [item], IsItemOf q.sources r' i :=
    List.forall_mem_singleton.mpr (hitem.mono hr)
  unfold readOperand
  dsimp only
  split
  · exact grows_drawParameter.bind fun r' _ hr _ => grows_pure (halone r' hr)
  · split
    · split
      next list _ =>
        refine (grows_lift (fun _ _ => True) fun _ _ => trivial).bind fun r' values hr _ => ?_
        exact grows_pure (halone r' hr)
      next => exact grows_throw failure
    · split
      · exact grows_pure (halone r (.refl r))
      · refine (grows_reference h _ failure).bind fun r' other hr hother => grows_pure ?_
        exact List.forall_mem_cons.mpr ⟨hitem.mono hr, List.forall_mem_singleton.mpr hother⟩

theorem grows_readComparison (h : Knows r q) (clause : String) (text : List Char) :
    Grows (readComparison q clause text) r (IsFilterOf q.sources) := by
  unfold readComparison
  dsimp only
  split
  next left op _ =>
    refine (grows_reference h _ _).bind fun r' item _ hitem => grows_pure ?_
    exact List.forall_mem_singleton.mpr hitem
  next =>
    split
    next left op right _ =>
      refine (grows_reference h _ _).bind fun r' item hr hitem => ?_
      refine (grows_readOperand (h.mono hr) _ hitem op _).bind fun r'' operand _ hoperand => ?_
      exact grows_pure hoperand
    next => exact grows_throw _

/-- **A filter becomes a filter of the query**, by induction on its depth. -/
theorem grows_readFilter (h : Knows r q) (clause : String) (depth : Nat) (text : List Char) :
    Grows (readFilter q clause depth text) r (IsFilterOf q.sources) := by
  induction depth generalizing text r with
  | zero => exact grows_readComparison h clause text
  | succ depth ih =>
    unfold readFilter
    split
    next inner _ => exact ih h inner
    next =>
      split
      next op parts _ =>
        refine (grows_mapM (IsFilterOf q.sources) (fun r' r'' f hr hf => hf.mono hr) fun r' part hr =>
          ih (h.mono hr) part).bind fun r' filters _ hfilters => grows_pure ?_
        exact isItemOf_of_filters hfilters
      next => exact grows_readComparison h clause text

theorem grows_readFilters (h : Knows r q) (clause : String) (text : List Char) :
    Grows (readFilters q clause text) r fun r' filters =>
      ∀ i ∈ Filter.itemsOf filters, IsItemOf q.sources r' i := by
  refine (grows_mapM (IsFilterOf q.sources) (fun r' r'' f hr hf => hf.mono hr) fun r' part hr =>
    grows_readFilter (h.mono hr) clause text.length part).mono fun r' filters _ hfilters => ?_
  exact isItemOf_of_filters hfilters

end Filters

/-! ## Select items -/

section Select

variable {q : Query} {sources : List FromItem}

/-- Items that were made since a registry: each with an identity of its own. -/
structure AreNew (sources : List FromItem) (r r' : Registry) (items : List Item) : Prop where
  own : ∀ i ∈ items, IsItemOf sources r' i
  new : ∀ i ∈ items, r.next ≤ i.id
  ids : (items.map (·.id)).Nodup

theorem areNew_single {r r' : Registry} {i : Item} (h : IsItemOf sources r' i) (hid : r.next ≤ i.id) :
    AreNew sources r r' [i] :=
  ⟨List.forall_mem_singleton.mpr h, List.forall_mem_singleton.mpr hid, by simp⟩

theorem AreNew.append {r' r'' : Registry} {items more : List Item} (h : AreNew sources r r' items)
    (hmore : AreNew sources r' r'' more) (hr : r'.Extends r) (hr' : r''.Extends r') :
    AreNew sources r r'' (items ++ more) := by
  refine ⟨fun i hi => ?_, fun i hi => ?_, ?_⟩
  · rcases List.mem_append.mp hi with hi | hi
    · exact (h.own i hi).mono hr'
    · exact hmore.own i hi
  · rcases List.mem_append.mp hi with hi | hi
    · exact h.new i hi
    · exact Nat.le_trans hr.next_le (hmore.new i hi)
  · -- The identities of the first part were all drawn before those of the second.
    rw [List.map_append]
    refine List.nodup_append.mpr ⟨h.ids, hmore.ids, fun a ha b hb heq => ?_⟩
    obtain ⟨i, hi, rfl⟩ := List.mem_map.mp ha
    obtain ⟨j, hj, rfl⟩ := List.mem_map.mp hb
    have hlt := (h.own i hi).1.enters.id_lt
    have hle := hmore.new j hj
    omega

/-- Several meanings take the next identities. -/
theorem exists_registry_of_pending {pendings : List Pending}
    (h : ∀ pending ∈ pendings, Pending.IsFresh r sources pending) :
    ∃ r', r'.Extends r ∧ r'.next = r.next + pendings.length ∧
      AreNew sources r r' ((pendings.zipIdx r.next).map fun (make, id) => make id) := by
  induction pendings generalizing r with
  | nil =>
    exact ⟨r, .refl r, rfl, List.forall_mem_nil _, List.forall_mem_nil _, List.nodup_nil⟩
  | cons pending rest ih =>
    rw [List.forall_mem_cons] at h
    have hitem : IsItemOf sources (r.enter (pending r.next)) (pending r.next) :=
      ⟨Registry.lists_enter (h.1.id _) (h.1.inner _), h.1.among _⟩
    have hextends := r.enter_extends (pending r.next)
    obtain ⟨r', hr, hnext, hnew⟩ := ih fun p hp =>
      ⟨(h.2 p hp).id, fun n x hx => ((h.2 p hp).inner n x hx).mono hextends, (h.2 p hp).among⟩
    have hfirst := areNew_single hitem (Nat.le_of_eq (h.1.id r.next).symm)
    refine ⟨r', hr.trans hextends, ?_, hfirst.append hnew hextends hr⟩
    rw [hnext, List.length_cons]
    show r.next + 1 + rest.length = r.next + (rest.length + 1)
    omega

theorem grows_makeOffered (hknows : KnowsSources r sources) {offered : List FromItem}
    (hoffered : ∀ leaf ∈ offered.flatMap FromItem.leaves,
      leaf ∈ sources.flatMap FromItem.leaves) :
    Grows (makeOffered offered) r fun r' items => AreNew sources r r' items := by
  intro s items s' hs hrun
  have hfresh : ∀ pending ∈ (offered.flatMap FromItem.leaves).flatMap FromItem.offers,
      Pending.IsFresh r sources pending := by
    intro pending hpending
    obtain ⟨leaf, hleaf, hoffers⟩ := List.mem_flatMap.mp hpending
    exact (isMeant_of_offers (hoffered leaf hleaf) pending hoffers).isFresh hknows
  obtain ⟨r', hr, hnext, hnew⟩ := exists_registry_of_pending hfresh
  cases hrun
  refine ⟨r', hr, ?_, hs ▸ hnew⟩
  show s.nextItem + (FromItem.offeredItems s.nextItem offered).length = r'.next
  unfold FromItem.offeredItems
  rw [hnext, hs, List.length_map, List.length_zipIdx]

/-- A from item that is no join has itself as its only leaf. -/
theorem leaves_of_mem_leaves {leaf : FromItem} :
    (f : FromItem) → leaf ∈ f.leaves → leaf.leaves = [leaf]
  | .table t aliasName, h => by
    rw [List.mem_singleton.mp h]
    rfl
  | .subquery q aliasName, h => by
    rw [List.mem_singleton.mp h]
    rfl
  | .expression text aliasName, h => by
    rw [List.mem_singleton.mp h]
    rfl
  | .join kind left right conditions aliasName, h => by
    rcases List.mem_append.mp h with hleft | hright
    · exact leaves_of_mem_leaves left hleft
    · exact leaves_of_mem_leaves right hright

/-- A text that means nothing known becomes an expression under its alias. -/
theorem grows_expression (text aliasName : String) :
    Grows (do
      match Item.ofExpression? (← drawItem) text aliasName with
      | some item => return [item]
      | none => throw .aliasRequired) r fun r' items => AreNew sources r r' items := by
  refine (grows_drawItem
    { Item.plain r.next (.expression text) none none with aliasName := some aliasName }).bind ?_
  rintro _ id - ⟨rfl, rfl⟩
  unfold Item.ofExpression?
  split
  next item hitem =>
    split at hitem
    · cases hitem
    · cases hitem
      have hamong : Item.IsAmong sources
          { Item.plain r.next (.expression text) none none with aliasName := some aliasName } :=
        ⟨fun c hc => (by cases hc), fun x hx => (by cases hx), fun _ => rfl⟩
      exact grows_pure (areNew_single
        ⟨Registry.lists_enter rfl fun x hx => (by cases hx), hamong⟩ (Nat.le_refl _))
  next => exact grows_throw _

/-- **A token of the select list becomes new items of the query.** -/
theorem grows_readSelectToken (catalog : Catalog) (hknows : KnowsSources r q.sources)
    (token : List Char) :
    Grows (readSelectToken catalog q token) r fun r' items => AreNew q.sources r r' items := by
  unfold readSelectToken
  dsimp only
  split
  · exact grows_makeOffered hknows fun leaf hleaf => hleaf
  · split
    next name _ =>
      split
      next source hsource =>
        have hmem := QueryOf.mem_of_source? hsource
        refine grows_makeOffered hknows fun leaf hleaf => ?_
        obtain ⟨f, -, hf⟩ := List.mem_flatMap.mp hmem
        rw [List.flatMap_singleton, leaves_of_mem_leaves f hf, List.mem_singleton] at hleaf
        exact hleaf ▸ hmem
      next => exact grows_throw _
    next =>
      refine (grows_lift (fun r' result => r' = r ∧ ∀ pending, result = some pending →
        Pending.IsFresh r q.sources pending) fun result hresult =>
          ⟨rfl, fun pending heq => (isMeant_of_resolveItem (heq ▸ hresult)).isFresh hknows⟩).bind ?_
      rintro _ result - ⟨rfl, hfresh⟩
      cases result with
      | some pending =>
        refine (grows_make (hfresh pending rfl)).bind fun r' i _ hi => grows_pure ?_
        split
        · exact areNew_single (hi.1.withAlias _) (Nat.le_of_eq hi.2.symm)
        · exact areNew_single hi.1 (Nat.le_of_eq hi.2.symm)
      | none =>
        dsimp only
        split
        · exact grows_expression _ _
        · exact grows_throw _

/-- Tokens one after the other become new items. -/
theorem grows_mapM_new {f : β → Reader (List Item)} {l : List β} (sources : List FromItem)
    (h : ∀ r' b, r'.Extends r → Grows (f b) r' fun r'' items => AreNew sources r' r'' items) :
    Grows (l.mapM f) r fun r' results => AreNew sources r r' results.flatten := by
  induction l generalizing r with
  | nil => exact grows_pure ⟨List.forall_mem_nil _, List.forall_mem_nil _, List.nodup_nil⟩
  | cons b rest ih =>
    rw [List.mapM_cons]
    refine (h r b (.refl r)).bind fun r' items hr hitems => ?_
    -- The rest is entered after this token, so its extension has to be known as well.
    have hrest : Grows (rest.mapM f) r' fun r'' results => r''.Extends r' ∧
        AreNew sources r' r'' results.flatten :=
      (ih fun r'' b hr' => h r'' b (hr'.trans hr)).mono fun r'' results hr' hnew => ⟨hr', hnew⟩
    refine hrest.bind fun r'' results _ hresults => grows_pure ?_
    exact hitems.append hresults.2 hr hresults.1

end Select

/-! ## Clauses -/

/-- A query as reading leaves it: its items are listed, its columns are among its from items, and its
tables are of the catalog. -/
structure IsRead (catalog : Catalog) (r : Registry) (q : Query) : Prop where
  clauses : ∀ i ∈ q.itemsOfClauses, IsItemOf q.sources r i
  conditions : ∀ f ∈ q.sources, ∀ i ∈ f.conditionItems, r.Lists i
  tables : ∀ f ∈ q.sources, ∀ leaf ∈ f.leaves, ∀ t, leaf.table? = some t →
    ∃ name, catalog.table? name = some t
  ids : (q.select.map (·.id)).Nodup

/-- A from item as reading leaves it, with the queries within it. -/
structure IsSource (catalog : Catalog) (r : Registry) (f : FromItem) : Prop where
  queries : ∀ q ∈ f.queries, IsRead catalog r q
  conditions : ∀ i ∈ f.conditionItems, r.Lists i
  tables : ∀ leaf ∈ f.leaves, ∀ t, leaf.table? = some t → ∃ name, catalog.table? name = some t

section Clauses

variable {catalog : Catalog} {q : Query}

theorem IsRead.mono {r' : Registry} (h : IsRead catalog r q) (hr : r'.Extends r) :
    IsRead catalog r' q where
  clauses := fun i hi => (h.clauses i hi).mono hr
  conditions := fun f hf i hi => (h.conditions f hf i hi).mono hr
  tables := h.tables
  ids := h.ids

theorem IsSource.mono {r' : Registry} {f : FromItem} (h : IsSource catalog r f)
    (hr : r'.Extends r) : IsSource catalog r' f where
  queries := fun q hq => (h.queries q hq).mono hr
  conditions := fun i hi => (h.conditions i hi).mono hr
  tables := h.tables

/-- A query while its clauses are read. -/
structure IsReading (catalog : Catalog) (r : Registry) (q : Query) : Prop where
  sources : ∀ f ∈ q.sources, IsSource catalog r f
  select : ∀ i ∈ q.select, IsItemOf q.sources r i
  filters : ∀ i ∈ Filter.itemsOf q.filters, IsItemOf q.sources r i
  groupBy : ∀ i ∈ q.groupBy, IsItemOf q.sources r i
  having : ∀ i ∈ Filter.itemsOf q.having, IsItemOf q.sources r i
  orderBy : ∀ o ∈ q.orderBy, IsItemOf q.sources r o.item
  ids : (q.select.map (·.id)).Nodup

theorem IsReading.mono {r' : Registry} (h : IsReading catalog r q) (hr : r'.Extends r) :
    IsReading catalog r' q where
  sources := fun f hf => (h.sources f hf).mono hr
  select := fun i hi => (h.select i hi).mono hr
  filters := fun i hi => (h.filters i hi).mono hr
  groupBy := fun i hi => (h.groupBy i hi).mono hr
  having := fun i hi => (h.having i hi).mono hr
  orderBy := fun o ho => (h.orderBy o ho).mono hr
  ids := h.ids

theorem mem_queriesOf_self (q : Query) : q ∈ FromItem.queriesOf q := by
  cases q
  exact List.mem_cons_self

/-- A subquery among the leaves of a from item is one of the queries within it. -/
theorem mem_queries_of_mem_leaves {q : Query} {aliasName : Option String} : (f : FromItem) →
    FromItem.subquery q aliasName ∈ f.leaves → q ∈ f.queries
  | .table t _, h => by cases List.mem_singleton.mp h
  | .subquery q' _, h => by
    cases List.mem_singleton.mp h
    exact mem_queriesOf_self _
  | .expression text _, h => by cases List.mem_singleton.mp h
  | .join kind left right conditions _, h => by
    rcases List.mem_append.mp h with hleft | hright
    · exact List.mem_append_left _ (mem_queries_of_mem_leaves left hleft)
    · exact List.mem_append_right _ (mem_queries_of_mem_leaves right hright)

theorem knowsSources {sources : List FromItem} (h : ∀ f ∈ sources, IsSource catalog r f) :
    KnowsSources r sources := by
  intro q aliasName hleaf i hi
  obtain ⟨f, hf, hmem⟩ := List.mem_flatMap.mp hleaf
  have hread := (h f hf).queries q (mem_queries_of_mem_leaves f hmem)
  refine (hread.clauses i ?_).1
  simp [QueryOf.itemsOfClauses, hi]

theorem IsReading.knows (h : IsReading catalog r q) : Knows r q := ⟨knowsSources h.sources, h.select⟩

theorem grows_readSelect (h : IsReading catalog r q) (text : List Char) :
    Grows (readSelect catalog q text) r (IsReading catalog) := by
  unfold readSelect
  dsimp only
  refine (grows_mapM_new q.sources fun r' token hr =>
    grows_readSelectToken catalog (h.mono hr).knows.sources token).bind fun r' items hr hnew => ?_
  split
  · exact grows_throw _
  · exact grows_pure { h.mono hr with select := hnew.own, ids := hnew.ids }

theorem grows_readGroupBy (h : IsReading catalog r q) (text : List Char) :
    Grows (readGroupBy q text) r (IsReading catalog) := by
  unfold readGroupBy
  refine (grows_mapM (IsItemOf q.sources) (fun r' r'' i hr hi => hi.mono hr) fun r' token hr =>
    grows_reference (h.mono hr).knows token _).bind fun r' items hr hitems => ?_
  exact grows_pure { h.mono hr with groupBy := hitems }

theorem grows_readOrderBy (h : IsReading catalog r q) (text : List Char) :
    Grows (readOrderBy q text) r (IsReading catalog) := by
  unfold readOrderBy
  refine (grows_mapM (fun r' (o : OrderItem) => IsItemOf q.sources r' o.item)
    (fun r' r'' o hr ho => ho.mono hr) fun r' token hr => ?_).bind fun r' items hr hitems => ?_
  · dsimp only
    refine (grows_reference (h.mono hr).knows _ _).bind fun r'' i _ hi => ?_
    exact grows_pure hi
  · exact grows_pure { h.mono hr with orderBy := hitems }

/-- **Every clause keeps a query readable.** -/
theorem grows_readClause (h : IsReading catalog r q) (keyword : String) (text : List Char) :
    Grows (readClause catalog q keyword text) r (IsReading catalog) := by
  unfold readClause
  split
  · exact grows_readSelect h text
  · refine (grows_readFilters h.knows "WHERE" text).bind fun r' filters hr hfilters => ?_
    exact grows_pure { h.mono hr with filters := hfilters }
  · exact grows_readGroupBy h text
  · refine (grows_readFilters h.knows "HAVING" text).bind fun r' filters hr hfilters => ?_
    exact grows_pure { h.mono hr with having := hfilters }
  · exact grows_readOrderBy h text
  · refine (grows_lift (fun r' _ => r' = r) fun _ _ => rfl).bind ?_
    rintro _ n - rfl
    exact grows_pure { h with }
  · refine (grows_lift (fun r' _ => r' = r) fun _ _ => rfl).bind ?_
    rintro _ n - rfl
    exact grows_pure { h with }
  · exact grows_pure h

end Clauses

end DocQuery.Grammar
