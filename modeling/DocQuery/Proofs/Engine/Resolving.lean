import DocQuery.Proofs.Engine.Asking
import DocQuery.Proofs.Engine.Following
import DocQuery.Proofs.Engine.Product
import DocQuery.Proofs.Engine.SingleTable
import DocQuery.Proofs.Grammar.Placements
import DocQuery.Proofs.Query.Resolution

/-!
# DocQuery.Proofs.Engine.Resolving — resolved queries answer the same

Resolving puts unscoped columns into the scope of their only owner and drops aliases, which leaves their
senses as they are.  So a resolved query mirrors the query that it comes from, under the identities that
are drawn on the way (`FromItem.makes_resolvedQuery`).
-/

namespace DocQuery

open Item (sense meaning IsVocabulary AllCounterparts)
open FromItem (owns ownerLabel? scopeItem bareItem bareOrder)

/-! ## Computations that enter items -/

namespace Supply

variable {α β : Type} {g : Registry} {post : Registry → α → Prop}

/-- From every number behind the identities of a registry, the result has the property in some later
registry. -/
def Makes (g : Registry) (x : Supply α) (post : Registry → α → Prop) : Prop :=
  ∀ n, g.next ≤ n →
    ∃ g' : Registry, g'.Extends g ∧ g'.next ≤ (x.run n).2 ∧ post g' (x.run n).1

theorem makes_pure {a : α} (h : post g a) : Makes g (pure a) post :=
  fun _ hn => ⟨g, .refl g, hn, h⟩

theorem Makes.bind {x : Supply α} {f : α → Supply β} {next : Registry → β → Prop}
    (h : Makes g x post) (hf : ∀ g' a, g'.Extends g → post g' a → Makes g' (f a) next) :
    Makes g (x >>= f) next := by
  intro n hn
  obtain ⟨g', hg, hnext, ha⟩ := h n hn
  obtain ⟨g'', hg', hnext', hb⟩ := hf g' _ hg ha _ hnext
  exact ⟨g'', hg'.trans hg, hnext', hb⟩

theorem makes_mapM (post : Registry → α → β → Prop) {as : List α} {f : α → Supply β}
    (hpost : ∀ g' g'' a b, g''.Extends g' → post g' a b → post g'' a b)
    (hf : ∀ a ∈ as, ∀ g', g'.Extends g → Makes g' (f a) fun g'' b => post g'' a b) :
    Makes g (as.mapM f) fun g' bs => List.Forall₂ (post g') as bs := by
  induction as generalizing g with
  | nil => exact makes_pure .nil
  | cons a rest ih =>
    rw [List.forall_mem_cons] at hf
    rw [List.mapM_cons]
    refine (hf.1 g (.refl g)).bind fun g' b hg hb => ?_
    refine (ih fun c hc g'' hg' => hf.2 c hc g'' (hg'.trans hg)).bind fun g'' bs hg' hbs => ?_
    exact makes_pure (.cons (hpost g' g'' a b hg' hb) hbs)

theorem Makes.mono {x : Supply α} {weaker : Registry → α → Prop} (h : Makes g x post)
    (hpost : ∀ g' a, g'.Extends g → post g' a → weaker g' a) : Makes g x weaker := by
  intro n hn
  obtain ⟨g', hg, hnext, ha⟩ := h n hn
  exact ⟨g', hg, hnext, hpost g' _ hg ha⟩

/-- An item under the next identity is listed, if what it refers to is. -/
theorem makes_item {make : Nat → Item} (hid : ∀ n, (make n).id = n)
    (hinner : ∀ n x, (make n).inner? = some x → g.Lists x) :
    Makes g (do return make (← draw) : Supply Item) fun g' i => g'.Lists i ∧ ∃ n, i = make n := by
  intro n hn
  let drawn := g.drawnUpTo n hn
  have hdrawn := g.drawnUpTo_extends hn
  refine ⟨drawn.enter (make n), (drawn.enter_extends _).trans hdrawn, Nat.le_refl _, ?_, n, rfl⟩
  exact Registry.lists_enter (hid n) fun x hx => (hinner n x hx).mono hdrawn

end Supply

open Supply

namespace Item

variable {known : Item → Prop} {left g g' : Registry} {leaves : List FromItem} {i j : Item}

/-- The identities of the second run were drawn behind those of the first one. -/
theorem extends_of_right (hg : g'.Extends g) : (Runs.mk known left g').Extends ⟨known, left, g⟩ :=
  ⟨rfl, .refl left, hg⟩

theorem Counterparts.withoutAlias {ρ : Runs} (h : Counterparts ρ leaves i j) :
    Counterparts ρ leaves i j.withoutAlias := by
  refine ⟨h.left, ⟨h.right.lists.withoutAlias, ?_, h.right.placed⟩, ?_⟩
  · unfold IsKnown
    rw [meaning_withoutAlias]
    exact h.right.known
  · rw [sense_withoutAlias, h.sense]

end Item

namespace FromItem

variable {known : Item → Prop} {left g : Registry} {leaves : List FromItem} {i : Item}

/-! ## Items -/

/-- **A scoped item has the sense of the item that it comes from.** -/
theorem counterparts_withScope {c : Column} {owner : FromItem} (hi : i.IsHeld leaves known left)
    (hscope : i.scope = none) (hcolumn : i.column? = some c) (howner : leaves.filter (owns c) = [owner])
    {n : Nat} (hlists : g.Lists (i.withScope n owner.label?)) :
    Item.Counterparts ⟨known, left, g⟩ leaves i (i.withScope n owner.label?) := by
  have howns := List.mem_filter.mp (howner ▸ List.mem_singleton_self owner)
  obtain ⟨label, hlabel⟩ := Option.isSome_iff_exists.mp (isSome_label?_of_owns howns.2)
  refine ⟨hi, ⟨hlists, ?_, fun d hd => ?_⟩, ?_⟩
  · unfold Item.IsKnown
    rw [Item.meaning_false_withScope]
    exact hi.known
  · obtain rfl := Option.some.inj (hcolumn.symm.trans hd)
    exact ⟨owner, howns.1, howns.2, fun _ h => h⟩
  · refine Item.sense_of_column hcolumn (Item.meaning_false_withScope i n _).symm ?_
    have hunscoped : i.scopeIn leaves = ownerLabel? leaves c := by
      unfold Item.scopeIn
      rw [hscope, hcolumn]
      rfl
    have hscoped : (i.withScope n owner.label?).scopeIn leaves = owner.label? := by
      unfold Item.scopeIn
      show (owner.label? <|> _) = _
      rw [hlabel]
      rfl
    rw [hunscoped, hscoped]
    unfold ownerLabel?
    rw [howner]

theorem makes_scopeItem (hi : i.IsHeld leaves known left) (hg : g.Extends left) :
    Makes g (scopeItem leaves i) fun g' j => Item.Counterparts ⟨known, left, g'⟩ leaves i j := by
  rcases scopeItem_cases leaves i with hself | ⟨c, owner, hscope, hcolumn, howner, heq⟩
  · rw [hself]
    exact makes_pure ⟨hi, hi.mono hg, rfl⟩
  · have hinner (n : Nat) : (i.withScope n owner.label?).inner? = none :=
      Item.inner?_of_column? (c := c) hcolumn
    rw [heq]
    refine (makes_item (fun _ => rfl) fun n x hx => ?_).mono ?_
    · rw [hinner] at hx
      cases hx
    · rintro g' _ - ⟨hlists, n, rfl⟩
      exact counterparts_withScope hi hscope hcolumn howner hlists

theorem makes_bareItem (hi : i.IsHeld leaves known left) (hg : g.Extends left) :
    Makes g (bareItem leaves i) fun g' j => Item.Counterparts ⟨known, left, g'⟩ leaves i j :=
  (makes_scopeItem hi hg).bind fun _ _ _ h => makes_pure h.withoutAlias

theorem makes_bareOrder {o : OrderItem} (ho : o.item.IsHeld leaves known left) (hg : g.Extends left) :
    Makes g (bareOrder leaves o) fun g' p => RowSet.OrderedAlike ⟨known, left, g'⟩ leaves o p :=
  (makes_bareItem ho hg).bind fun _ _ _ h => makes_pure ⟨h, rfl⟩

end FromItem

namespace Filter

variable {known : Item → Prop} {left : Registry} {leaves : List FromItem}

theorem makes_mapComparison {g : Registry} {i : Item} {op : Comparison} {x : Operand}
    (h : ∀ k ∈ comparisonItems i x, k.IsHeld leaves known left) (hg : g.Extends left) :
    Makes g (mapComparison (bareItem leaves) i op x) fun g' f' =>
      Paired (Item.Counterparts ⟨known, left, g'⟩ leaves) (.comparison i op x) f' := by
  unfold mapComparison
  have hi : i.IsHeld leaves known left := h i (by cases x <;> exact List.mem_cons_self)
  refine (FromItem.makes_bareItem hi hg).bind fun g' j hg' hj => ?_
  cases x with
  | item other =>
    have hother : other.IsHeld leaves known left :=
      h other (List.mem_cons_of_mem _ (List.mem_singleton_self _))
    refine (FromItem.makes_bareItem hother (hg'.trans hg)).bind fun g'' k hg'' hk => makes_pure ?_
    exact ⟨hj.mono (Item.extends_of_right hg''), rfl, .item hk⟩
  | value v => exact makes_pure ⟨hj, rfl, .value v⟩
  | list vs => exact makes_pure ⟨hj, rfl, .list vs⟩
  | parameter index => exact makes_pure ⟨hj, rfl, .parameter index⟩

mutual

theorem makes_mapItems : (f : Filter) → (g : Registry) → g.Extends left →
    (∀ i ∈ f.items, i.IsHeld leaves known left) →
      Makes g (mapItems (bareItem leaves) f) fun g' f' =>
        Paired (Item.Counterparts ⟨known, left, g'⟩ leaves) f f'
  | .comparison _ _ _, _, hg, h => makes_mapComparison h hg
  | .group op fs, g, hg, h => by
    unfold mapItems
    exact (makes_mapAllItems fs g hg h).bind fun g' fs' _ hfs => makes_pure ⟨rfl, hfs⟩

theorem makes_mapAllItems : (fs : List Filter) → (g : Registry) → g.Extends left →
    (∀ i ∈ itemsOf fs, i.IsHeld leaves known left) →
      Makes g (mapAllItems (bareItem leaves) fs) fun g' fs' =>
        AllPaired (Item.Counterparts ⟨known, left, g'⟩ leaves) fs fs'
  | [], g, _, _ => makes_pure trivial
  | f :: rest, g, hg, h => by
    have hitems := List.forall_mem_append.mp h
    unfold mapAllItems
    refine (makes_mapItems f g hg hitems.1).bind fun g' f' hg' hf => ?_
    refine (makes_mapAllItems rest g' (hg'.trans hg) hitems.2).bind fun g'' rest' hg'' hrest => ?_
    exact makes_pure ⟨Paired.mono (fun _ _ hi => hi.mono (Item.extends_of_right hg'')) f f' hf, hrest⟩

end

end Filter

/-! ## Queries -/

/-- All items of a query itself may be held by rows over its from items. -/
def QueryOf.IsHeld (known : Item → Prop) (g : Registry) (q : Query) : Prop :=
  ∀ i ∈ q.ownItems, i.IsHeld (q.sources.flatMap FromItem.leaves) known g

namespace FromItem

variable {known : Item → Prop} {left : Registry}

theorem makes_scopeOn {leaves : List FromItem} {conditions : List (Item × Item)} {g : Registry}
    (hg : g.Extends left)
    (h : ∀ i ∈ conditions.flatMap fun c => [c.1, c.2], i.IsHeld leaves known left) :
    Makes g (scopeOn (scopeItem leaves) conditions) fun g' conditions' =>
      Engine.ConditionsAlike ⟨known, left, g'⟩ leaves conditions conditions' := by
  unfold scopeOn
  refine makes_mapM (fun g' (c c' : Item × Item) =>
    Item.Counterparts ⟨known, left, g'⟩ leaves c.1 c'.1 ∧
      Item.Counterparts ⟨known, left, g'⟩ leaves c.2 c'.2) (fun g' g'' c c' hg h =>
    ⟨h.1.mono (Item.extends_of_right hg), h.2.mono (Item.extends_of_right hg)⟩) fun c hc g' hg' => ?_
  have hsides : ∀ i ∈ [c.1, c.2], i.IsHeld leaves known left :=
    fun i hi => h i (List.mem_flatMap.mpr ⟨c, hc, hi⟩)
  rw [List.forall_mem_cons, List.forall_mem_singleton] at hsides
  refine (makes_scopeItem hsides.1 (hg'.trans hg)).bind fun g'' l hg'' hl => ?_
  refine (makes_scopeItem hsides.2 (hg''.trans (hg'.trans hg))).bind fun _ r hlast hr => ?_
  exact makes_pure ⟨(hl.mono (Item.extends_of_right hlast)).withoutAlias, hr.withoutAlias⟩

/-- **The clauses of a resolved query mirror those of the query.** -/
theorem makes_scopeQuery {q : Query} {leaves : List FromItem} {g : Registry} (hg : g.Extends left)
    (h : ∀ i ∈ q.ownItems, i.IsHeld leaves known left) (sources : List FromItem) :
    Makes g (scopeQuery (scopeItem leaves) q sources) fun g' q' =>
      q'.sources = sources ∧ QueryOf.ClausesMirrored ⟨known, left, g'⟩ leaves q q' := by
  let alike := fun g' i j => Item.Counterparts ⟨known, left, g'⟩ leaves i j
  have hmono {g' g'' : Registry} (hg : g''.Extends g') {i j : Item} (hij : alike g' i j) :
      alike g'' i j := hij.mono (Item.extends_of_right hg)
  unfold scopeQuery
  refine (makes_mapM alike (fun _ _ _ _ hg hij => hmono hg hij) fun i hi g' hg' =>
    makes_scopeItem (QueryOf.own_select h i hi) (hg'.trans hg)).bind fun g₁ select hg₁ hselect => ?_
  have hg₁ := hg₁.trans hg
  refine (Filter.makes_mapAllItems q.filters g₁ hg₁ (QueryOf.own_filters h)).bind
    fun g₂ filters hg₂ hfilters => ?_
  refine (makes_mapM alike (fun _ _ _ _ hg hij => hmono hg hij) fun i hi g' hg' => makes_bareItem
    (QueryOf.own_groupBy h i hi) (hg'.trans (hg₂.trans hg₁))).bind fun g₃ groupBy hg₃ hgroupBy => ?_
  refine (Filter.makes_mapAllItems q.having g₃ (hg₃.trans (hg₂.trans hg₁)) (QueryOf.own_having h)).bind
    fun g₄ having hg₄ hhaving => ?_
  refine (makes_mapM (fun g' o p => RowSet.OrderedAlike ⟨known, left, g'⟩ leaves o p)
    (fun _ _ _ _ hg ho => ⟨hmono hg ho.item, ho.direction⟩) fun o ho g' hg' => makes_bareOrder
      (QueryOf.own_orderBy h _ (List.mem_map_of_mem ho))
      (hg'.trans (hg₄.trans (hg₃.trans (hg₂.trans hg₁))))).bind fun g₅ orderBy hg₅ horderBy => ?_
  refine makes_pure ⟨rfl, ?_, rfl, ?_, ?_, ?_, horderBy, rfl, rfl⟩
  · exact hselect.imp fun _ _ => hmono (hg₅.trans (hg₄.trans (hg₃.trans hg₂)))
  · exact Filter.AllPaired.mono (fun _ _ => hmono (hg₅.trans (hg₄.trans hg₃))) _ _ hfilters
  · exact hgroupBy.imp fun _ _ => hmono (hg₅.trans hg₄)
  · exact Filter.AllPaired.mono (fun _ _ => hmono hg₅) _ _ hhaving

mutual

theorem makes_resolved (leaves : List FromItem) : (f : FromItem) → (g : Registry) → g.Extends left →
    (∀ i ∈ f.conditionItems, i.IsHeld leaves known left) →
    (∀ q ∈ f.queries, QueryOf.IsHeld known left q) →
      Makes g (resolved (scopeItem leaves) f) fun g' f' => Mirrored ⟨known, left, g'⟩ leaves f f'
  | .table _ _, _, _, _, _ => makes_pure rfl
  | .subquery q aliasName, g, hg, _, hwithin => by
    unfold resolved
    exact (makes_resolvedQuery q g hg hwithin).bind fun g' q' _ hq => makes_pure ⟨q', rfl, hq⟩
  | .expression _ _, _, _, _, _ => makes_pure rfl
  | .join kind l r conditions aliasName, g, hg, hitems, hwithin => by
    unfold conditionItems at hitems
    rw [List.forall_mem_append, List.forall_mem_append] at hitems
    obtain ⟨⟨hleft, hright⟩, hconditions⟩ := hitems
    unfold resolved
    refine (makes_resolved leaves l g hg hleft fun q hq =>
      hwithin q (List.mem_append_left _ hq)).bind fun g₁ l' hg₁ hl => ?_
    refine (makes_resolved leaves r g₁ (hg₁.trans hg) hright fun q hq =>
      hwithin q (List.mem_append_right _ hq)).bind fun g₂ r' hg₂ hr => ?_
    refine (makes_scopeOn (hg₂.trans (hg₁.trans hg)) hconditions).bind fun g₃ conditions' hg₃ hc => ?_
    refine makes_pure ⟨l', r', conditions', rfl, ?_, ?_, hc⟩
    · exact Mirrored.mono (Item.extends_of_right (hg₃.trans hg₂)) leaves l l' hl
    · exact Mirrored.mono (Item.extends_of_right hg₃) leaves r r' hr

theorem makes_allResolved (leaves : List FromItem) : (sources : List FromItem) → (g : Registry) →
    g.Extends left → (∀ f ∈ sources, ∀ i ∈ f.conditionItems, i.IsHeld leaves known left) →
    (∀ q ∈ queriesIn sources, QueryOf.IsHeld known left q) →
      Makes g (allResolved (scopeItem leaves) sources) fun g' sources' =>
        AllMirrored ⟨known, left, g'⟩ leaves sources sources'
  | [], _, _, _, _ => makes_pure rfl
  | f :: rest, g, hg, hitems, hwithin => by
    rw [List.forall_mem_cons] at hitems
    unfold allResolved
    refine (makes_resolved leaves f g hg hitems.1 fun q hq =>
      hwithin q (List.mem_append_left _ hq)).bind fun g₁ f' hg₁ hf => ?_
    refine (makes_allResolved leaves rest g₁ (hg₁.trans hg) hitems.2 fun q hq =>
      hwithin q (List.mem_append_right _ hq)).bind fun g₂ rest' hg₂ hrest => ?_
    exact makes_pure ⟨f', rest', rfl, Mirrored.mono (Item.extends_of_right hg₂) leaves f f' hf, hrest⟩

/-- **A resolved query mirrors the query that it comes from.** -/
theorem makes_resolvedQuery : (q : QueryOf FromItem) → (g : Registry) → g.Extends left →
    (∀ p ∈ queriesOf q, QueryOf.IsHeld known left p) →
      Makes g (resolvedQuery q) fun g' q' => QueriesMirrored ⟨known, left, g'⟩ q q'
  | ⟨select, distinct, sources, filters, groupBy, having, orderBy, firstRow, maxRows⟩, g, hg, hwithin => by
    let q : Query := ⟨select, distinct, sources, filters, groupBy, having, orderBy, firstRow, maxRows⟩
    have hself : q.IsHeld known left := hwithin q List.mem_cons_self
    unfold resolvedQuery
    refine (makes_allResolved _ sources g hg (fun f hf => QueryOf.own_conditions hself hf)
      fun p hp => hwithin p (List.mem_cons_of_mem _ hp)).bind fun g₁ sources' hg₁ hsources => ?_
    refine (makes_scopeQuery (hg₁.trans hg) hself sources').mono fun g₂ q' hg₂ ⟨heq, hclauses⟩ => ?_
    refine ⟨hclauses, ?_⟩
    rw [heq]
    exact AllMirrored.mono (Item.extends_of_right hg₂) _ sources sources' hsources

end

end FromItem

/-! ## Queries that were read -/

/-- A source that knows one table by each name, and whose columns belong to their tables. -/
structure RowSource.NamesTables (s : RowSource) : Prop where
  own : ∀ name t, s.table? name = some t → ∀ c ∈ t.columns, c.table = t.name
  unique : ∀ a b t u, s.table? a = some t → s.table? b = some u → t.name = u.name → t = u

/-- The items of a query and of the queries within it. -/
def QueryOf.itemsWithin (q : Query) : List Item := q.queries.flatMap QueryOf.ownItems

/-- No two items within a query are taken for each other: items count as the same only if their
parameters are equal. -/
def QueryOf.IsExact (q : Query) : Prop :=
  ∀ i ∈ q.itemsWithin, ∀ j ∈ q.itemsWithin, Item.sameAs false i j = true →
    i.allParameters = j.allParameters

theorem Table.owns_of_mem {t : Table} {leaf : FromItem} {c : Column} (ht : leaf.table? = some t)
    (hown : c.table = t.name) (hc : c ∈ t.columns) : owns c leaf = true := by
  have hnamed : (t.columnNamed? c.name).isSome = true := by
    have hfind : (t.columns.find? fun d => d.name == c.name).isSome = true :=
      List.find?_isSome.mpr ⟨c, hc, beq_self_eq_true _⟩
    obtain ⟨d, hd⟩ := Option.isSome_iff_exists.mp hfind
    unfold columnNamed?
    rw [hd]
    rfl
  unfold owns
  rw [ht, Option.any_some, hown, hnamed, beq_self_eq_true]
  rfl

namespace Grammar

variable {s : RowSource} {options : Options} {sql : String} {q p : Query} {n : Nat} {r : Registry}

section Reading

variable (hparse : s.parse options sql = .ok (q, n))

include hparse

/-- Every item of a query that is read stands among the from items there. -/
theorem isPlacedAmong_of_parse : ∀ p ∈ q.queries, QueryHas IsPlacedAmong p := by
  obtain ⟨state, hrun, -⟩ := RowSource.parse_eq_ok_iff.mp hparse
  exact items_of_readQuery ofReadings_isPlacedAmong hrun

/-- What an item of a query refers to is an item of a query within it. -/
theorem mem_itemsWithin_of_inner? {i x : Item} (hi : i ∈ q.itemsWithin) (hx : i.inner? = some x) :
    x ∈ q.itemsWithin := by
  obtain ⟨p, hp, hmem⟩ := List.mem_flatMap.mp hi
  obtain ⟨inner, aliasName, hleaf, hselect⟩ :=
    (isPlacedAmong_of_parse hparse p hp i hmem).among.inner x (Item.source_of_inner? hx)
  obtain ⟨f, hf, hfleaf⟩ := List.mem_flatMap.mp hleaf
  have hwithin : inner ∈ p.queries :=
    QueryOf.mem_queries.mpr (Or.inr ⟨f, hf, mem_queries_of_mem_leaves f hfleaf⟩)
  refine List.mem_flatMap.mpr ⟨inner, FromItem.queriesOf_subset_queriesOf q hp hwithin, ?_⟩
  simp [QueryOf.ownItems, QueryOf.itemsOfClauses, hselect]

theorem areExact_of_parse (hexact : q.IsExact) : Item.AreExact (· ∈ q.itemsWithin) where
  inner := fun _ _ hi hx => mem_itemsWithin_of_inner? hparse hi hx
  keys := fun i hi => by
    obtain ⟨p, hp, hmem⟩ := List.mem_flatMap.mp hi
    exact (isPlacedAmong_of_parse hparse p hp i hmem).parameters
  parameters := fun i j hi hj => hexact i hi j hj

end Reading

section Read

variable (htables : s.NamesTables) (hread : IsRead (s.catalog options.expressions) r p)

include hread

theorem exists_table_of_leaf {leaf : FromItem} (hleaf : leaf ∈ p.sources.flatMap FromItem.leaves)
    {t : Table} (ht : leaf.table? = some t) : ∃ name, s.table? name = some t := by
  obtain ⟨f, hf, hmem⟩ := List.mem_flatMap.mp hleaf
  exact hread.tables f hf leaf hmem t ht

include htables

theorem owns_of_leaf : ∀ leaf ∈ p.sources.flatMap FromItem.leaves, ∀ t, leaf.table? = some t →
    ∀ c ∈ t.columns, owns c leaf = true := by
  intro leaf hleaf t ht c hc
  obtain ⟨name, hname⟩ := exists_table_of_leaf hread hleaf ht
  exact Table.owns_of_mem ht (htables.own name t hname c hc) hc

theorem isClear_of_isRead (hlabels : (p.sources.flatMap FromItem.leaves).Pairwise FromItem.ToldApart)
    (hplain : ∀ g ∈ p.groupBy, g.aggregate? = none) : p.IsClear s where
  leaves := by
    refine ⟨hlabels, fun f hf g hg t u ht hu hname => ?_⟩
    obtain ⟨a, ha⟩ := exists_table_of_leaf hread hf ht
    obtain ⟨b, hb⟩ := exists_table_of_leaf hread hg hu
    exact htables.unique a b t u ha hb hname
  tables := fun _ hleaf _ ht => exists_table_of_leaf hread hleaf ht
  columns := owns_of_leaf htables hread
  groupBy := hplain

/-- The items of a query that is read may be held by rows over its from items. -/
theorem isHeld_of_isRead (hplaced : QueryHas IsPlacedAmong p) (hp : p ∈ q.queries) :
    p.IsHeld (Item.Denoted (· ∈ q.itemsWithin)) r := by
  refine fun i hi => ⟨hread.own i hi, .self (List.mem_flatMap.mpr ⟨p, hp, hi⟩), fun c hc => ?_⟩
  obtain ⟨leaf, hleaf, t, ht, hmem, hscope⟩ :=
    (hplaced i hi).among.column c (Item.column?_eq_some_iff.mp hc)
  exact ⟨leaf, hleaf, owns_of_leaf htables hread leaf hleaf t ht c hmem, hscope⟩

end Read

end Grammar

namespace RowSource

variable {s : RowSource} {options : Options} {sql : String} {q : Query} {n : Nat}

/-- **A query that follows another one from later identities answers with the same values.** -/
theorem answers_of_mirrored (hs : s.IsUniform) {ρ : Runs} (hρ : IsVocabulary ρ.known) {q' : Query}
    (hq : FromItem.QueriesMirrored ρ q q') (hclear : ∀ p ∈ q.queries, p.IsClear s) {l l' : Ledger}
    (hl : ρ.left.next ≤ l.nextItem) (hl' : ρ.right.next ≤ l'.nextItem) {a : Answer}
    (h : (Answer.ofPlan (Engine.execute s options q)).answer l = .ok a) :
    ∃ a', (Answer.ofPlan (Engine.execute s options q')).answer l' = .ok a' ∧
      a'.rows.map (·.values) = a.rows.map (·.values) := by
  have hselect : q.select.map (sense (q.sources.flatMap FromItem.leaves)) =
      q'.select.map (sense (q.sources.flatMap FromItem.leaves)) :=
    hq.clauses.select.senses
  have hfollows : Plan.Follows ρ (fun _ (a a' : Answer) => a.rows.map (·.values) = a'.rows.map (·.values))
      (Answer.ofPlan (Engine.execute s options q)) (Answer.ofPlan (Engine.execute s options q')) := by
    refine (Engine.follows_execute hs q ρ hρ q' hq hclear).bind fun σ hσ d d' hd => ?_
    refine (RowSet.follows_toRows hd.counterparts).bind fun τ _ rows rows' hrows =>
      Plan.follows_pure (map_eq_map_of_forall₂ hrows fun r _ r' ⟨env, hr, hr'⟩ => ?_)
    rw [hr.values, hr'.values, hd.left, hd.right, hselect]
  rcases hrun : (Answer.ofPlan (Engine.execute s options q)).run l with ⟨result, k⟩
  rw [Plan.answer, hrun] at h
  obtain rfl : result = .ok a := h
  obtain ⟨a', ha', _, _, _, -, hvalues⟩ := (hfollows l l' a k hl hl' hrun).answer
  exact ⟨a', ha', hvalues.symm⟩

/-- **A query that was resolved stays as it is when it is resolved again, and it answers wherever the
query that it comes from does, with the same values**, if labels tell the from items apart in each query
within it, and if further no query groups by an aggregate and no two items are taken for each other. -/
theorem answers_resolved (hs : s.IsUniform) (htables : s.NamesTables)
    (hparse : s.parse options sql = .ok (q, n))
    (hlabels : ∀ p ∈ q.queries, (p.sources.flatMap FromItem.leaves).Pairwise FromItem.ToldApart) :
    (∀ m, (q.resolved.run n).1.resolved.run m = ((q.resolved.run n).1, m)) ∧
    ((∀ p ∈ q.queries, ∀ g ∈ p.groupBy, g.aggregate? = none) → q.IsExact →
      ∀ a, (Answer.ofPlan (Engine.execute s options q)).answer { nextItem := n } = .ok a →
        ∃ a', (Answer.ofPlan (Engine.execute s options (q.resolved.run n).1)).answer
            { nextItem := (q.resolved.run n).2 } = .ok a' ∧
          a'.rows.map (·.values) = a.rows.map (·.values)) := by
  refine ⟨fun m => ?_, fun hplain hexact a ha => ?_⟩
  · have hagain : (q.resolved.run n).1.resolved = pure (q.resolved.run n).1 :=
      FromItem.always_resolvedQuery q n
    rw [hagain]
    rfl
  · obtain ⟨r, rfl, hread⟩ := exists_registry hparse
    have hplaced := Grammar.isPlacedAmong_of_parse hparse
    have hknown := Item.isVocabulary_denoted (Grammar.areExact_of_parse hparse hexact)
    obtain ⟨g, hg, hnext, hmirrored⟩ := FromItem.makes_resolvedQuery q r (.refl r)
      (fun p hp => Grammar.isHeld_of_isRead htables (hread p hp) (hplaced p hp) hp) r.next (Nat.le_refl _)
    exact answers_of_mirrored hs (ρ := ⟨_, r, g⟩) hknown hmirrored (fun p hp =>
      Grammar.isClear_of_isRead htables (hread p hp) (hlabels p hp) (hplain p hp)) (Nat.le_refl _) hnext ha

/-! ### Tables held in memory -/

/-- Tables held in memory answer for what items denote: they neither count nor look up keys. -/
theorem isUniform_memory (m : MemoryTables) : m.source.IsUniform where
  toIsSteady := isSteady_memory m
  width := by
    intro past t columns limit outcomes hread values hvalues
    change (m.read t columns limit).map _ = _ at hread
    unfold MemoryTables.read at hread
    split at hread
    · cases hread
      obtain ⟨row, hrow, hok⟩ := List.mem_map.mp hvalues
      obtain rfl := Except.ok.inj hok
      unfold MemoryTables.select at hrow
      obtain ⟨stored, -, rfl⟩ := List.mem_map.mp hrow
      rw [MemoryTables.cells, List.length_map, List.length_map]
    · cases hread
  countSame := fun _ _ _ _ _ _ _ h => h
  lookupSame := fun _ _ _ _ _ _ _ _ h => h
  found := fun _ _ _ _ _ _ _ _ _ h => by cases h

theorem namesTables_memory {m : MemoryTables} (hnames : (m.tables.map (·.1.name)).Nodup)
    (hown : ∀ stored ∈ m.tables, ∀ c ∈ stored.1.columns, c.table = stored.1.name) :
    m.source.NamesTables := by
  have hstored {name : String} {t : Table} (h : m.table? name = some t) :
      ∃ stored ∈ m.tables, stored.1 = t := by
    obtain ⟨stored, hfound, rfl⟩ := Option.map_eq_some_iff.mp h
    rcases (Option.orElse_eq_some _ _ _).mp hfound with hfind | ⟨-, hfind⟩
    · exact ⟨stored, List.mem_of_find?_eq_some hfind, rfl⟩
    · exact ⟨stored, List.mem_of_find?_eq_some hfind, rfl⟩
  refine ⟨fun name t ht c hc => ?_, fun a b t u ht hu hname => ?_⟩
  · obtain ⟨stored, hmem, rfl⟩ := hstored ht
    exact hown stored hmem c hc
  · obtain ⟨stored, hmem, rfl⟩ := hstored ht
    obtain ⟨other, hother, rfl⟩ := hstored hu
    rw [List.inj_on_of_nodup_map hnames hmem hother hname]

/-- A table joined with itself, and the largest number of a subquery. -/
def largestBeside : String :=
  "SELECT x.id AS a, m FROM t x JOIN t y ON x.id = y.id, (SELECT MAX(id) AS m FROM t) s " ++
    "WHERE m >= a"

set_option synthInstance.maxSize 400 in
/-- The numbers beside the largest one are the same when the query is resolved. -/
theorem answers_resolved_largestBeside : ∃ q n a a',
    Engine.numbers.source.IsUniform ∧ Engine.numbers.source.NamesTables ∧
    Engine.numbers.source.parse {} largestBeside = .ok (q, n) ∧
    (∀ p ∈ q.queries, (p.sources.flatMap FromItem.leaves).Pairwise FromItem.ToldApart) ∧
    (∀ p ∈ q.queries, ∀ g ∈ p.groupBy, g.aggregate? = none) ∧ q.IsExact ∧
    (q.resolved.run n).1.resolved.run 0 = ((q.resolved.run n).1, 0) ∧
    (Answer.ofPlan (Engine.execute Engine.numbers.source {} q)).answer { nextItem := n } = .ok a ∧
    (Answer.ofPlan (Engine.execute Engine.numbers.source {} (q.resolved.run n).1)).answer
      { nextItem := (q.resolved.run n).2 } = .ok a' ∧
    a'.rows.map (·.values) = a.rows.map (·.values) ∧
    a.rows.map Row.text = ["Row[1,2]", "Row[2,2]"] := by
  obtain ⟨⟨q, n⟩, hparse, hlabels, hplain, hparameters, hshown⟩ :
      ∃ parsed ∈ (Engine.numbers.source.parse {} largestBeside).toOption,
        (∀ p ∈ parsed.1.queries, (p.sources.flatMap FromItem.leaves).Pairwise FromItem.ToldApart) ∧
        (∀ p ∈ parsed.1.queries, ∀ g ∈ p.groupBy, g.aggregate? = none) ∧
        (∀ i ∈ parsed.1.itemsWithin, i.allParameters.isEmpty = true) ∧
        Engine.shownRows ((Answer.ofPlan (Engine.execute Engine.numbers.source {} parsed.1)).answer
          { nextItem := parsed.2 }) = some ["Row[1,2]", "Row[2,2]"] := by
    decide +kernel
  have hparse := eq_ok_of_mem_toOption hparse
  have hexact : q.IsExact := fun i hi j hj _ =>
    (List.isEmpty_iff.mp (hparameters i hi)).trans (List.isEmpty_iff.mp (hparameters j hj)).symm
  have htables : Engine.numbers.source.NamesTables :=
    namesTables_memory (by decide) (by decide)
  obtain ⟨a, ha, hrows⟩ := Option.map_eq_some_iff.mp hshown
  have ha := eq_ok_of_mem_toOption ha
  obtain ⟨hagain, hanswers⟩ := answers_resolved (isUniform_memory _) htables hparse hlabels
  obtain ⟨a', ha', hvalues⟩ := hanswers hplain hexact a ha
  exact ⟨q, n, a, a', isUniform_memory _, htables, hparse, hlabels, hplain, hexact, hagain 0, ha, ha',
    hvalues, hrows⟩

/-- A text whose from items labels tell apart, in each query within it, shows some rows as it stands and
some once it is resolved. -/
def ShowsResolved (s : RowSource) (sql : String) (texts texts' : List String) : Prop :=
  ∃ parsed ∈ (s.parse {} sql).toOption,
    (∀ p ∈ parsed.1.queries, (p.sources.flatMap FromItem.leaves).Pairwise FromItem.ToldApart) ∧
    Engine.shownRows ((Answer.ofPlan (Engine.execute s {} parsed.1)).answer { nextItem := parsed.2 }) =
      some texts ∧
    Engine.shownRows ((Answer.ofPlan (Engine.execute s {} (parsed.1.resolved.run parsed.2).1)).answer
      { nextItem := (parsed.1.resolved.run parsed.2).2 }) = some texts'

instance (s : RowSource) (sql : String) (texts texts' : List String) :
    Decidable (s.ShowsResolved sql texts texts') :=
  inferInstanceAs (Decidable (∃ parsed ∈ (s.parse {} sql).toOption, _ ∧ _ ∧ _))

/-- The members of two zeros, with groups that are named by their aliases. -/
def membersGrouped : String :=
  "SELECT COUNT(*), MAP_VALUE(doc, 0) AS x, MAP_VALUE(doc, -0.0) AS y FROM t GROUP BY x, y"

/-- Resolved, the groups have items of their own, and the two zeros are taken for each other. -/
theorem not_answers_resolved_membersGrouped :
    Engine.documentTables.source.ShowsResolved membersGrouped
      ["Row[1,plus,minus]", "Row[1,null,null]"] ["Row[1,plus,plus]", "Row[1,null,null]"] := by
  decide +kernel

/-- Numbers that are counted twice, with groups that are named by the first count. -/
def countsGrouped : String :=
  "SELECT COUNT(s.id) AS n, COUNT(s.id) AS n FROM t, (SELECT id FROM t) s WHERE t.id > 0 GROUP BY n"

/-- Resolved, the groups are no longer named by the count that is selected. -/
theorem not_answers_resolved_countsGrouped :
    Engine.numbers.source.ShowsResolved countsGrouped
      ["Row[1,2]", "Row[2,2]"] ["Row[1,1]", "Row[2,2]"] := by
  decide +kernel

end RowSource

end DocQuery
