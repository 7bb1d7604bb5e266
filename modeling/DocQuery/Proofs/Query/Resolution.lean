import DocQuery.Proofs.Query.Items
import DocQuery.Query.Scope

/-!
# DocQuery.Proofs.Query.Resolution — resolving keeps queries equal

Resolving draws identities and sets scopes, and it decides by what items denote.  So two equal
queries over the same tables are resolved to equal queries, whatever identities are drawn
(`same_resolved`).  A query that was resolved stays as it is when it is resolved again
(`FromItem.always_resolvedQuery`).
-/

namespace DocQuery

/-! ## Computations with related results -/

/-- Two computations whose results are related, whatever the next identities are. -/
structure Supply.Related {α β : Type} (R : α → β → Prop) (x : Supply α) (y : Supply β) : Prop where
  results : ∀ n m, R (x.run n).1 (y.run m).1

namespace Supply.Related

variable {α β γ δ : Type} {R : α → β → Prop} {S : γ → δ → Prop}

theorem pure {a : α} {b : β} (h : R a b) : Related R (Pure.pure a) (Pure.pure b) :=
  ⟨fun _ _ => h⟩

theorem bind {x : Supply α} {y : Supply β} {f : α → Supply γ} {g : β → Supply δ}
    (h : Related R x y) (hfg : ∀ a b, R a b → Related S (f a) (g b)) :
    Related S (x >>= f) (y >>= g) :=
  ⟨fun n m => (hfg _ _ (h.results n m)).results (x.run n).2 (y.run m).2⟩

theorem draw : Related (fun _ _ => True) Supply.draw Supply.draw :=
  ⟨fun _ _ => trivial⟩

theorem mapM {as : List α} {bs : List β} {f : α → Supply γ} {g : β → Supply δ}
    (h : List.Forall₂ R as bs) (hfg : ∀ a b, R a b → Related S (f a) (g b)) :
    Related (List.Forall₂ S) (as.mapM f) (bs.mapM g) := by
  induction h with
  | nil => exact pure List.Forall₂.nil
  | cons hab _ ih =>
    rw [List.mapM_cons, List.mapM_cons]
    apply (hfg _ _ hab).bind
    intro c d hcd
    apply ih.bind
    intro cs ds hrest
    exact pure (List.Forall₂.cons hcd hrest)

end Supply.Related

open Supply

/-! ## Items -/

namespace Item

/-- What resolving looks at is the same for items that denote the same. -/
theorem parts_of_sameAs {a b : Item} (h : sameAs true a b = true) :
    a.scope = b.scope ∧ a.column? = b.column? := by
  obtain ⟨_, sa, _, _, _, _, _⟩ := a
  obtain ⟨_, sb, _, _, _, _, _⟩ := b
  cases sa <;> cases sb <;>
    simp_all [sameAs, sameUse, column?]

theorem sameAs_withScope {a b : Item} (h : sameAs true a b = true) (id id' : Nat)
    (scope : Option String) : sameAs true (a.withScope id scope) (b.withScope id' scope) = true := by
  obtain ⟨_, sa, _, _, _, _, _⟩ := a
  obtain ⟨_, sb, _, _, _, _, _⟩ := b
  cases sa <;> cases sb <;>
    simp_all [sameAs, sameUse, withScope]

end Item

namespace FromItem

/-- Items that denote the same do so after they were scoped, and keep their aliases. -/
theorem related_scopeItem {leaves : List FromItem} {a b : Item} (h : Item.sameAs true a b = true) :
    Related (fun i j => Item.sameAs true i j = true ∧ i.aliasName = a.aliasName ∧
      j.aliasName = b.aliasName) (scopeItem leaves a) (scopeItem leaves b) := by
  obtain ⟨hscope, hcolumn⟩ := Item.parts_of_sameAs h
  unfold scopeItem
  rw [hscope, hcolumn]
  split
  next c _ _ =>
    split
    next owner _ =>
      apply Related.draw.bind
      intro id id' _
      exact Related.pure ⟨Item.sameAs_withScope h id id' _, rfl, rfl⟩
    next => exact Related.pure ⟨h, rfl, rfl⟩
  next => exact Related.pure ⟨h, rfl, rfl⟩

/-- An item as it stands outside the select list: scoped and without its alias. -/
abbrev bareItem (leaves : List FromItem) (i : Item) : Supply Item := do
  return (← scopeItem leaves i).withoutAlias

/-- An item to order by, scoped and without its alias. -/
abbrev bareOrder (leaves : List FromItem) (o : OrderItem) : Supply OrderItem := do
  return ⟨← bareItem leaves o.item, o.direction⟩

theorem related_bareItem (leaves : List FromItem) {a b : Item} (h : Item.sameAs true a b = true) :
    Related (fun i j => Item.same i j = true) (bareItem leaves a) (bareItem leaves b) := by
  apply (related_scopeItem h).bind
  rintro i j ⟨hsame, -⟩
  apply Related.pure
  rw [Item.same, Item.withoutAlias_sameAs, Item.sameAs_withoutAlias, hsame]
  rfl

theorem related_scopeItem_of_same (leaves : List FromItem) {a b : Item} (h : a.same b = true) :
    Related (fun i j => Item.same i j = true) (scopeItem leaves a) (scopeItem leaves b) := by
  obtain ⟨halias, hsame⟩ := Bool.and_eq_true_iff.mp h
  refine ⟨fun n m => ?_⟩
  obtain ⟨hscoped, ha, hb⟩ := (related_scopeItem hsame).results n m
  rw [Item.same, ha, hb, halias, hscoped]
  rfl

theorem related_bareOrder (leaves : List FromItem) {a b : OrderItem}
    (h : a.direction = b.direction ∧ Item.sameAs true a.item b.item = true) :
    Related (fun o o' => o.direction = o'.direction ∧ Item.sameAs true o.item o'.item = true)
      (bareOrder leaves a) (bareOrder leaves b) := by
  apply (related_bareItem leaves h.2).bind
  intro i j hij
  exact Related.pure ⟨h.1, Item.sameAs_of_same hij⟩

end FromItem

/-! ## Filters -/

namespace Filter

variable {leaves : List FromItem}

theorem related_mapComparison {a b : Item} {op : Comparison} {x y : Operand}
    (hitem : a.same b = true) (hoperand : x.same y = true) :
    Related (fun f g => Filter.same f g = true)
      (mapComparison (FromItem.bareItem leaves) a op x)
      (mapComparison (FromItem.bareItem leaves) b op y) := by
  unfold mapComparison
  apply (FromItem.related_bareItem leaves (Item.sameAs_of_same hitem)).bind
  intro i j hij
  cases x with
  | item c =>
    cases y with
    | item d =>
      apply (FromItem.related_bareItem leaves (Item.sameAs_of_same hoperand)).bind
      intro k l hkl
      apply Related.pure
      rw [Filter.same, hij, beq_self_eq_true, show (Operand.item k).same (.item l) = true from hkl]
      rfl
    | _ => cases hoperand
  | _ =>
    cases y with
    | item d => cases hoperand
    | _ =>
      apply Related.pure
      rw [Filter.same, hij, beq_self_eq_true, hoperand]
      rfl

mutual

/-- Equal filters are equal after their items were scoped. -/
theorem related_mapItems : ∀ {f g : Filter}, f.same g = true →
    Related (fun f g => Filter.same f g = true) (mapItems (FromItem.bareItem leaves) f)
      (mapItems (FromItem.bareItem leaves) g)
  | .comparison a op x, .comparison b op' y, h => by
    rw [Filter.same, Bool.and_eq_true, Bool.and_eq_true] at h
    obtain ⟨⟨hitem, hop⟩, hoperand⟩ := h
    obtain rfl := beq_iff_eq.mp hop
    exact related_mapComparison hitem hoperand
  | .group op as, .group op' bs, h => by
    rw [Filter.same, Bool.and_eq_true] at h
    obtain ⟨hop, hchildren⟩ := h
    obtain rfl := beq_iff_eq.mp hop
    rw [mapItems, mapItems]
    apply (related_mapAllItems hchildren).bind
    intro cs ds hcd
    apply Related.pure
    rw [Filter.same, hcd, beq_self_eq_true]
    rfl
  | .comparison .., .group .., h => by cases h
  | .group .., .comparison .., h => by cases h

/-- Equal lists of filters are equal after their items were scoped. -/
theorem related_mapAllItems : ∀ {fs gs : List Filter}, allSame fs gs = true →
    Related (fun fs gs => allSame fs gs = true) (mapAllItems (FromItem.bareItem leaves) fs)
      (mapAllItems (FromItem.bareItem leaves) gs)
  | [], [], _ => Related.pure rfl
  | f :: fs, g :: gs, h => by
    rw [allSame, Bool.and_eq_true] at h
    rw [mapAllItems, mapAllItems]
    apply (related_mapItems h.1).bind
    intro f' g' hfirst
    apply (related_mapAllItems h.2).bind
    intro fs' gs' hrest
    apply Related.pure
    rw [allSame, hfirst, hrest]
    rfl
  | [], _ :: _, h => by cases h
  | _ :: _, [], h => by cases h

end

end Filter

/-! ## Queries over tables -/

namespace FromItem

theorem sameItems_iff {as bs : List Item} :
    sameItems as bs = true ↔ List.Forall₂ (fun a b => Item.sameAs true a b = true) as bs := by
  induction as generalizing bs with
  | nil => cases bs <;> simp [sameItems]
  | cons a as ih => cases bs <;> simp [sameItems, ih]

theorem sameOrder_iff {as bs : List OrderItem} : sameOrder as bs = true ↔
    List.Forall₂ (fun a b => a.direction = b.direction ∧ Item.sameAs true a.item b.item = true) as bs := by
  induction as generalizing bs with
  | nil => cases bs <;> simp [sameOrder]
  | cons a as ih => cases bs <;> simp [sameOrder, ih]

/-- A from item that is a table. -/
def IsTable (f : FromItem) : Prop := ∃ t aliasName, f = .table t aliasName

/-- Tables are resolved already. -/
theorem allResolved_tables (scope : Item → Supply Item) {sources : List FromItem}
    (h : ∀ f ∈ sources, f.IsTable) : allResolved scope sources = pure sources := by
  induction sources with
  | nil => rfl
  | cons f sources ih =>
    obtain ⟨⟨t, aliasName, rfl⟩, hrest⟩ := List.forall_mem_cons.mp h
    rw [allResolved, resolved, ih hrest]
    rfl

theorem allSame_tables {sources : List FromItem} (h : ∀ f ∈ sources, f.IsTable) :
    allSame sources sources = true := by
  induction sources with
  | nil => rfl
  | cons f sources ih =>
    obtain ⟨⟨t, aliasName, rfl⟩, hrest⟩ := List.forall_mem_cons.mp h
    rw [allSame, same, ih hrest]
    simp

/-- Queries over the same tables are equal if their clauses are. -/
theorem same_of_sameClauses {p q : Query} (hsources : p.sources = q.sources)
    (htables : ∀ f ∈ q.sources, f.IsTable) (h : sameClauses p q = true) :
    QueryOf.same p q = true := by
  obtain ⟨select, distinct, sources, filters, groupBy, having, orderBy, firstRow, maxRows⟩ := p
  obtain rfl : sources = q.sources := hsources
  unfold QueryOf.same
  rw [sameQuery, h, allSame_tables htables]
  rfl

/-- Queries with equal clauses have equal clauses after their items were scoped. -/
theorem related_scopeQuery (leaves sources : List FromItem) {p q : Query} (h : sameClauses p q = true) :
    Related (fun p' q' => sameClauses p' q' = true ∧ p'.sources = sources ∧ q'.sources = sources)
      (scopeQuery (scopeItem leaves) p sources) (scopeQuery (scopeItem leaves) q sources) := by
  simp only [sameClauses, Bool.and_eq_true, beq_iff_eq] at h
  obtain ⟨⟨⟨⟨⟨⟨⟨hselect, hdistinct⟩, hfilters⟩, hgroupBy⟩, hhaving⟩, horderBy⟩, hfirst⟩, hmax⟩ := h
  have hselected := Related.mapM (Item.sameLayout_iff.mp hselect)
    fun _ _ => related_scopeItem_of_same leaves
  have hgrouped := Related.mapM (sameItems_iff.mp hgroupBy)
    fun _ _ => related_bareItem leaves
  have hordered := Related.mapM (sameOrder_iff.mp horderBy)
    fun _ _ => related_bareOrder leaves
  unfold scopeQuery
  apply hselected.bind
  intro select select' hselect
  apply (Filter.related_mapAllItems hfilters).bind
  intro filters filters' hfilters
  apply hgrouped.bind
  intro groupBy groupBy' hgroupBy
  apply (Filter.related_mapAllItems hhaving).bind
  intro having having' hhaving
  apply hordered.bind
  intro orderBy orderBy' horderBy
  apply Related.pure
  refine ⟨?_, rfl, rfl⟩
  have hgroupBy := sameItems_iff.mpr (hgroupBy.imp fun _ _ h => Item.sameAs_of_same h)
  simp only [sameClauses, Item.sameLayout_iff.mpr hselect, hdistinct, hfilters, hgroupBy, hhaving,
    sameOrder_iff.mpr horderBy, hfirst, hmax, beq_self_eq_true, Bool.and_self]

end FromItem

/-- **Equal queries over the same tables are resolved to equal queries**, whatever identities are
drawn. -/
theorem same_resolved {p q : Query} (hsources : p.sources = q.sources)
    (htables : ∀ f ∈ q.sources, f.IsTable) (h : FromItem.sameClauses p q = true) :
    Related (fun p' q' => QueryOf.same p' q' = true) p.resolved q.resolved := by
  have hresolved (r : Query) (hr : ∀ f ∈ r.sources, f.IsTable) : r.resolved =
      FromItem.scopeQuery (FromItem.scopeItem (r.sources.flatMap FromItem.leaves)) r r.sources := by
    unfold QueryOf.resolved
    obtain ⟨select, distinct, sources, filters, groupBy, having, orderBy, firstRow, maxRows⟩ := r
    rw [FromItem.resolvedQuery, FromItem.allResolved_tables _ hr]
    rfl
  rw [hresolved p (by rwa [hsources]), hresolved q htables, hsources]
  have hclauses := FromItem.related_scopeQuery (q.sources.flatMap FromItem.leaves) q.sources h
  refine ⟨fun n m => ?_⟩
  obtain ⟨hsame, hp, hq⟩ := hclauses.results n m
  exact FromItem.same_of_sameClauses (hp.trans hq.symm) (by rwa [hq]) hsame


/-! ## Resolving twice -/

/-- Whatever the next identity is, the result has a property. -/
def Supply.Always {α : Type} (P : α → Prop) (x : Supply α) : Prop := ∀ n, P (x.run n).1

namespace Supply.Always

variable {α β : Type} {P : α → Prop} {Q : β → Prop}

theorem pure {a : α} (h : P a) : Always P (Pure.pure a) := fun _ => h

theorem bind {x : Supply α} {f : α → Supply β} (h : Always P x) (hf : ∀ a, P a → Always Q (f a)) :
    Always Q (x >>= f) := fun n => hf _ (h n) (x.run n).2

/-- What each element stays after once, a list stays after once. -/
theorem mapM_self {as : List α} {f : α → Supply α} (h : ∀ a, Always (fun b => f b = Pure.pure b) (f a)) :
    Always (fun bs => bs.mapM f = Pure.pure bs) (as.mapM f) := by
  induction as with
  | nil => exact pure rfl
  | cons a rest ih =>
    rw [List.mapM_cons]
    refine (h a).bind fun b hb => ih.bind fun bs hbs => pure ?_
    rw [List.mapM_cons, hb, pure_bind, hbs]
    rfl

end Supply.Always

namespace FromItem

variable {leaves leaves' : List FromItem}

theorem isSome_label?_of_owns {c : Column} {f : FromItem} (h : owns c f = true) :
    f.label?.isSome = true := by
  cases f with
  | table t aliasName => cases aliasName <;> rfl
  | _ => cases h

/-- An item stays as it is, or it is an unscoped column and put into the scope of its only owner. -/
theorem scopeItem_cases (leaves : List FromItem) (i : Item) : scopeItem leaves i = pure i ∨
    ∃ c owner, i.scope = none ∧ i.column? = some c ∧ leaves.filter (owns c) = [owner] ∧
      scopeItem leaves i = do return i.withScope (← Supply.draw) owner.label? := by
  unfold scopeItem
  split
  next c hscope hcolumn =>
    split
    next owner howner => exact Or.inr ⟨c, owner, hscope, hcolumn, howner, rfl⟩
    next => exact Or.inl rfl
  next => exact Or.inl rfl

/-- An item that was scoped stays as it is. -/
theorem always_scopeItem (leaves : List FromItem) (i : Item) :
    Always (fun j => scopeItem leaves j = pure j) (scopeItem leaves i) := by
  rcases scopeItem_cases leaves i with hself | ⟨c, owner, -, -, howner, heq⟩
  · rw [hself]
    exact .pure hself
  · have howns := (List.mem_filter.mp (howner ▸ List.mem_singleton_self owner)).2
    obtain ⟨label, hlabel⟩ := Option.isSome_iff_exists.mp (isSome_label?_of_owns howns)
    rw [heq, hlabel]
    intro n
    rfl

theorem scopeItem_withoutAlias (leaves : List FromItem) (i : Item) :
    scopeItem leaves i.withoutAlias = bareItem leaves i := by
  have hscope : i.withoutAlias.scope = i.scope := rfl
  have hcolumn : i.withoutAlias.column? = i.column? := rfl
  unfold bareItem scopeItem
  rw [hscope, hcolumn]
  split
  · split <;> rfl
  · rfl

/-- So does it without its alias. -/
theorem always_bareItem (leaves : List FromItem) (i : Item) :
    Always (fun j => bareItem leaves j = pure j) (bareItem leaves i) := by
  refine (always_scopeItem leaves i).bind fun j hj => .pure ?_
  have hscoped : scopeItem leaves j.withoutAlias = pure j.withoutAlias := by
    rw [scopeItem_withoutAlias, bareItem, hj]
    rfl
  unfold bareItem
  rw [hscoped]
  rfl

theorem always_bareOrder (leaves : List FromItem) (o : OrderItem) :
    Always (fun p => bareOrder leaves p = pure p) (bareOrder leaves o) := by
  refine (always_bareItem leaves o.item).bind fun j hj => .pure ?_
  unfold bareOrder
  rw [hj]
  rfl

end FromItem

namespace Filter

variable {g : Item → Supply Item}

theorem always_mapComparison (hg : ∀ i, Always (fun j => g j = pure j) (g i)) (i : Item)
    (op : Comparison) (x : Operand) :
    Always (fun f => mapItems g f = pure f) (mapComparison g i op x) := by
  unfold mapComparison
  refine (hg i).bind fun j hj => ?_
  cases x with
  | item other =>
    refine (hg other).bind fun k hk => .pure ?_
    unfold mapItems mapComparison
    rw [hj, pure_bind]
    dsimp only
    rw [hk]
    rfl
  | _ =>
    refine .pure ?_
    unfold mapItems mapComparison
    rw [hj]
    rfl

mutual

/-- Filters whose items were passed through stay as they are, if items do. -/
theorem always_mapItems (hg : ∀ i, Always (fun j => g j = pure j) (g i)) : (f : Filter) →
    Always (fun f' => mapItems g f' = pure f') (mapItems g f)
  | .comparison i op x => always_mapComparison hg i op x
  | .group op children => by
    rw [mapItems]
    refine (always_mapAllItems hg children).bind fun children' h => .pure ?_
    rw [mapItems, h]
    rfl

theorem always_mapAllItems (hg : ∀ i, Always (fun j => g j = pure j) (g i)) : (fs : List Filter) →
    Always (fun fs' => mapAllItems g fs' = pure fs') (mapAllItems g fs)
  | [] => .pure rfl
  | f :: rest => by
    rw [mapAllItems]
    refine (always_mapItems hg f).bind fun f' hf => (always_mapAllItems hg rest).bind fun rest' h => ?_
    refine .pure ?_
    rw [mapAllItems, hf, pure_bind, h]
    rfl

end

end Filter

namespace FromItem

variable {leaves leaves' : List FromItem}

/-- Conditions that were scoped stay as they are. -/
theorem always_scopeOn (leaves : List FromItem) (conditions : List (Item × Item)) :
    Always (fun c => scopeOn (scopeItem leaves) c = pure c)
      (scopeOn (scopeItem leaves) conditions) := by
  have hbare (c : Item × Item) : (do
      let l ← scopeItem leaves c.1
      let r ← scopeItem leaves c.2
      return (l.withoutAlias, r.withoutAlias) : Supply (Item × Item)) = do
        let l ← bareItem leaves c.1
        let r ← bareItem leaves c.2
        return (l, r) := rfl
  unfold scopeOn
  simp only [hbare]
  refine .mapM_self fun c => (always_bareItem leaves c.1).bind fun l hl =>
    (always_bareItem leaves c.2).bind fun r hr => .pure ?_
  dsimp only
  rw [hl, pure_bind, hr]
  rfl

/-- The clauses of a query stay as they are over the same from items. -/
theorem always_scopeQuery (leaves : List FromItem) (q : Query) (sources : List FromItem) :
    Always (fun p => p.sources = sources ∧ scopeQuery (scopeItem leaves) p sources = pure p)
      (scopeQuery (scopeItem leaves) q sources) := by
  unfold scopeQuery
  refine (Always.mapM_self (always_scopeItem leaves)).bind fun select hselect => ?_
  refine (Filter.always_mapAllItems (always_bareItem leaves) q.filters).bind fun filters hfilters => ?_
  refine (Always.mapM_self (always_bareItem leaves)).bind fun groupBy hgroupBy => ?_
  refine (Filter.always_mapAllItems (always_bareItem leaves) q.having).bind fun having hhaving => ?_
  refine (Always.mapM_self (always_bareOrder leaves)).bind fun orderBy horderBy => .pure ⟨rfl, ?_⟩
  unfold bareItem at hfilters hgroupBy hhaving
  unfold bareOrder bareItem at horderBy
  simp only [hselect, hfilters, hgroupBy, hhaving, horderBy, pure_bind]

/-! ### From items -/

/-- From items that go by one label and are one table, if they are tables. -/
def GoesBySame (f f' : FromItem) : Prop := f.table? = f'.table? ∧ f.label? = f'.label?

/-- From items with the same tables and labels own columns alike. -/
theorem scopeItem_congr (h : List.Forall₂ GoesBySame leaves leaves') :
    scopeItem leaves = scopeItem leaves' := by
  have howners (c : Column) :
      List.Forall₂ GoesBySame (leaves.filter (owns c)) (leaves'.filter (owns c)) := by
    induction h with
    | nil => exact .nil
    | @cons f f' _ _ hf _ ih =>
      have howns : owns c f = owns c f' := by
        unfold owns
        rw [hf.1]
      rw [List.filter_cons, List.filter_cons, howns]
      split
      · exact .cons hf ih
      · exact ih
  funext i
  unfold scopeItem
  split
  next c _ _ =>
    have hc := howners c
    generalize leaves.filter (owns c) = owners, leaves'.filter (owns c) = owners' at hc ⊢
    rcases hc with _ | ⟨hf, _ | _⟩
    · rfl
    · dsimp only
      rw [hf.2]
    · rfl
  next => rfl

mutual

/-- Resolving keeps the labels and the tables of the leaves. -/
theorem always_goesBySame (scope : Item → Supply Item) : (f : FromItem) →
    Always (fun f' => List.Forall₂ GoesBySame f.leaves f'.leaves) (resolved scope f)
  | .table t aliasName => .pure (.cons ⟨rfl, rfl⟩ .nil)
  | .subquery q aliasName => by
    rw [resolved]
    intro n
    refine .cons ⟨rfl, ?_⟩ .nil
    cases aliasName <;> rfl
  | .expression text aliasName => .pure (.cons ⟨rfl, rfl⟩ .nil)
  | .join kind l r conditions aliasName => by
    rw [resolved]
    refine (always_goesBySame scope l).bind fun l' hl => (always_goesBySame scope r).bind fun r' hr => ?_
    exact fun n => List.rel_append hl hr

theorem always_allGoBySame (scope : Item → Supply Item) : (sources : List FromItem) →
    Always (fun sources' => List.Forall₂ GoesBySame (sources.flatMap FromItem.leaves)
        (sources'.flatMap FromItem.leaves))
      (allResolved scope sources)
  | [] => .pure .nil
  | f :: rest => by
    rw [allResolved]
    refine (always_goesBySame scope f).bind fun f' hf =>
      (always_allGoBySame scope rest).bind fun rest' hrest => .pure ?_
    rw [List.flatMap_cons, List.flatMap_cons]
    exact List.rel_append hf hrest

end

mutual

/-- A from item that was resolved stays as it is. -/
theorem always_resolved (leaves : List FromItem) : (f : FromItem) →
    Always (fun f' => resolved (scopeItem leaves) f' = pure f') (resolved (scopeItem leaves) f)
  | .table t aliasName => .pure rfl
  | .subquery q aliasName => by
    rw [resolved]
    refine (always_resolvedQuery q).bind fun q' hq => .pure ?_
    rw [resolved, hq]
    rfl
  | .expression text aliasName => .pure rfl
  | .join kind l r conditions aliasName => by
    rw [resolved]
    refine (always_resolved leaves l).bind fun l' hl => (always_resolved leaves r).bind fun r' hr => ?_
    refine (always_scopeOn leaves conditions).bind fun conditions' hconditions => .pure ?_
    rw [resolved, hl, pure_bind, hr, pure_bind, hconditions]
    rfl

theorem always_allResolved (leaves : List FromItem) : (sources : List FromItem) →
    Always (fun sources' => allResolved (scopeItem leaves) sources' = pure sources')
      (allResolved (scopeItem leaves) sources)
  | [] => .pure rfl
  | f :: rest => by
    rw [allResolved]
    refine (always_resolved leaves f).bind fun f' hf =>
      (always_allResolved leaves rest).bind fun rest' hrest => .pure ?_
    rw [allResolved, hf, pure_bind, hrest]
    rfl

/-- **A query that was resolved stays as it is**, and nothing more is drawn for it. -/
theorem always_resolvedQuery : (q : QueryOf FromItem) →
    Always (fun q' => resolvedQuery q' = pure q') (resolvedQuery q)
  | ⟨select, distinct, sources, filters, groupBy, having, orderBy, firstRow, maxRows⟩ => by
    rw [resolvedQuery]
    have hsources : Always (fun sources' =>
        scopeItem (sources'.flatMap leaves) = scopeItem (sources.flatMap leaves) ∧
          allResolved (scopeItem (sources.flatMap leaves)) sources' = pure sources')
        (allResolved (scopeItem (sources.flatMap leaves)) sources) := fun n =>
      ⟨(scopeItem_congr (always_allGoBySame _ sources n)).symm, always_allResolved _ sources n⟩
    refine hsources.bind fun sources' ⟨hscope, hresolved⟩ => ?_
    intro n
    obtain ⟨heq, hquery⟩ := always_scopeQuery (sources.flatMap leaves)
      ⟨select, distinct, sources, filters, groupBy, having, orderBy, firstRow, maxRows⟩ sources' n
    generalize ((scopeQuery _ _ sources').run n).1 = q' at heq hquery ⊢
    obtain ⟨select', distinct', _, filters', groupBy', having', orderBy', firstRow', maxRows'⟩ := q'
    obtain rfl := heq
    rw [resolvedQuery, hscope, hresolved, pure_bind]
    exact hquery

end

end FromItem

end DocQuery
