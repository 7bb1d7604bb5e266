import DocQuery.Proofs.Grammar.Joins
import DocQuery.Proofs.Query.Sameness

/-!
# DocQuery.Proofs.Grammar.Placements — items over the from items of their queries

Every item of a query that is read is named or offered over some of its from items, those in the
conditions of joins as well.  So a property of everything that can be named or is offered over from items
is one of every item in every query within a text (`items_of_readQuery`): items stand among the from
items of their query, and the parameters of functions are literals.
-/

namespace DocQuery.Grammar

/-! ## Properties of what can be read -/

/-- A property of whatever is read over from items, which further from items do not take away. -/
structure OfReadings (P : List FromItem → Item → Prop) : Prop where
  names : ∀ sources, OfNames sources (P sources)
  offers : ∀ sources i, IsOffered sources i → P sources i
  columns : ∀ (q : Query) name pending n, resolveColumn q name = .ok (some pending) →
    P q.sources (pending n)
  mono : ∀ near sources i, near.flatMap FromItem.leaves ⊆ sources.flatMap FromItem.leaves →
    P near i → P sources i

/-- All items of a query itself have a property over its from items. -/
def QueryHas (P : List FromItem → Item → Prop) (q : Query) : Prop := ∀ i ∈ q.ownItems, P q.sources i

/-- All items of the queries within a from item have a property over the from items there, and those of
the conditions of its joins over some from items. -/
structure SourceHas (P : List FromItem → Item → Prop) (sources : List FromItem) (f : FromItem) :
    Prop where
  queries : ∀ q ∈ f.queries, QueryHas P q
  conditions : ∀ i ∈ f.conditionItems, P sources i

section Readings

variable {P : List FromItem → Item → Prop} (hP : OfReadings P) {q : Query} {catalog : Catalog}
  {simple : List Char → Reader FromItem}

include hP

theorem SourceHas.mono {near sources : List FromItem} {f : FromItem} (h : SourceHas P near f)
    (hleaves : near.flatMap FromItem.leaves ⊆ sources.flatMap FromItem.leaves) :
    SourceHas P sources f :=
  ⟨h.queries, fun i hi => hP.mono near sources i hleaves (h.conditions i hi)⟩

theorem SourceHas.withAlias {f : FromItem} (h : SourceHas P [f] f) (aliasName : String) :
    SourceHas P [f.withAlias aliasName] (f.withAlias aliasName) := by
  cases f with
  | join kind left right conditions other =>
    refine ⟨h.queries, fun i hi => hP.mono [.join kind left right conditions other] _ i ?_
      (h.conditions i hi)⟩
    exact List.Subset.refl _
  | _ => exact ⟨h.queries, List.forall_mem_nil _⟩

/-! ## From items -/

theorem yields_readConditions_has (left right : FromItem) (text : List Char) :
    Yields (readConditions q left right text) fun conditions =>
      ∀ i ∈ conditions.flatMap fun c => [c.1, c.2], P (q.sources ++ [left, right]) i := by
  have hfound (name : List Char) (failure : QueryError) :
      Yields (makeFound (resolveColumn { q with sources := q.sources ++ [left, right] } name) failure)
        (P (q.sources ++ [left, right])) :=
    yields_makeFound.mono fun i ⟨pending, n, hpending, hi⟩ => hi ▸ hP.columns _ name pending n hpending
  refine (yields_mapM (P := fun c : Item × Item => ∀ i ∈ [c.1, c.2],
    P (q.sources ++ [left, right]) i) fun part _ => ?_).mono fun conditions h i hi => ?_
  · unfold readCondition
    dsimp only
    split
    · exact yields_throw _
    · refine (hfound _ _).bind fun first hfirst => (hfound _ _).bind fun second hsecond =>
        yields_pure ?_
      split
      · exact List.forall_mem_cons.mpr ⟨hsecond, List.forall_mem_singleton.mpr hfirst⟩
      · exact List.forall_mem_cons.mpr ⟨hfirst, List.forall_mem_singleton.mpr hsecond⟩
  · obtain ⟨c, hc, hmem⟩ := List.mem_flatMap.mp hi
    exact h c hc i hmem

section Sources

variable (hsimple : ∀ token, Yields (simple token) fun f => SourceHas P [f] f)

include hsimple

/-- **A chain of joins**, over the from items in front. -/
theorem yields_readFromItem_has (token : List Char) :
    Yields (readFromItem simple q token) fun f => SourceHas P (q.sources ++ [f]) f := by
  have hbehind {f : FromItem} (h : SourceHas P [f] f) : SourceHas P (q.sources ++ [f]) f := by
    refine h.mono hP ?_
    rw [List.flatMap_append]
    exact List.subset_append_right _ _
  unfold readFromItem
  split
  · refine (yields_true _).bind fun _ _ => (hsimple _).bind fun left hleft => ?_
    refine yields_readJoins hsimple (yields_readConditions_has hP)
      (fun kind left right conditions hleft hright _ hconditions => ?_) token (hbehind hleft)
    have hleaves : (q.sources ++ [FromItem.join kind left right conditions none]).flatMap FromItem.leaves =
        q.sources.flatMap FromItem.leaves ++ (left.leaves ++ right.leaves) := by
      rw [List.flatMap_append, List.flatMap_singleton]
      rfl
    refine ⟨List.forall_mem_append.mpr ⟨hleft.queries, hright.queries⟩, ?_⟩
    refine List.forall_mem_append.mpr ⟨List.forall_mem_append.mpr ⟨fun i hi => ?_, fun i hi => ?_⟩,
      fun i hi => ?_⟩
    · refine hP.mono _ _ i ?_ (hleft.conditions i hi)
      rw [hleaves, List.flatMap_append, List.flatMap_singleton, ← List.append_assoc]
      exact List.subset_append_left _ _
    · refine hP.mono _ _ i ?_ (hright.conditions i hi)
      rw [hleaves, List.flatMap_singleton, ← List.append_assoc]
      exact List.subset_append_right _ _
    · refine hP.mono _ _ i ?_ (hconditions i hi)
      rw [hleaves, List.flatMap_append]
      simp
  · exact (hsimple token).mono fun f h => hbehind h

theorem yields_readFromItems_has {tokens : List (List Char)}
    (h : ∀ f ∈ q.sources, SourceHas P q.sources f) :
    Yields (readFromItems simple q tokens) fun q' => ∀ f ∈ q'.sources, SourceHas P q'.sources f := by
  induction tokens generalizing q with
  | nil => exact yields_pure h
  | cons token rest ih =>
    unfold readFromItems
    refine (yields_readFromItem_has hP hsimple token).bind fun source hsource => ih ?_
    refine List.forall_mem_append.mpr ⟨fun f hf => (h f hf).mono hP ?_,
      List.forall_mem_singleton.mpr hsource⟩
    rw [List.flatMap_append]
    exact List.subset_append_left _ _

/-! ## Queries -/

/-- **All items of a query and of the queries within it**, if those within its from items have the
property. -/
theorem yields_readWith_has (sql : List Char) :
    Yields (readWith catalog simple sql) fun q => ∀ inner ∈ q.queries, QueryHas P inner := by
  intro s q s' hrun
  obtain ⟨text, clauses, read, k, last, -, -, hread, hclauses, -⟩ := run_readWith_eq_ok_iff.mp hrun
  have hsources : ∀ f ∈ read.sources, SourceHas P read.sources f :=
    yields_readFromItems_has hP hsimple (q := {}) (List.forall_mem_nil _) _ _ _ hread
  have hrefers := references_of_readClauses hread hclauses (hP.names read.sources)
  have heq := hrefers.sources
  rw [← heq] at hrefers hsources
  refine QueryOf.forall_mem_queries (fun i hi => ?_) fun f hf => (hsources f hf).queries
  rcases List.mem_append.mp hi with hclause | hcondition
  · simp only [QueryOf.itemsOfClauses, List.append_assoc, List.mem_append] at hclause
    rcases hclause with hselect | hlater
    · exact (hrefers.select i hselect).elim id (hP.offers q.sources i)
    · refine hrefers.later i ?_
      simpa only [QueryOf.laterItems, List.append_assoc, List.mem_append] using hlater
  · obtain ⟨f, hf, hmem⟩ := List.mem_flatMap.mp hcondition
    exact (hsources f hf).conditions i hmem

end Sources

theorem yields_readSimple_has (depth : Nat) (token : List Char) :
    Yields (readSimple catalog depth token) fun f => SourceHas P [f] f :=
  yields_readSimple_of (fun _ _ => ⟨List.forall_mem_nil _, List.forall_mem_nil _⟩)
    (fun _ _ h => h.withAlias hP _)
    (fun _ _ ih => ⟨(yields_readWith_has hP ih _).mono fun _ h => ⟨h, List.forall_mem_nil _⟩,
      yields_readFromItem_has hP ih _⟩) depth token

/-- **Every item in every query that is read** has what everything has that can be read over from items. -/
theorem items_of_readQuery {sql : String} {s s' : State}
    (h : (readQuery catalog sql).run s = (.ok q, s')) : ∀ inner ∈ q.queries, QueryHas P inner :=
  yields_readWith_has hP (yields_readSimple_has hP _) _ _ _ _ h

end Readings

/-! ## Placements -/

/-- An item that stands among from items, with parameters that are no documents with a key twice. -/
structure IsPlacedAmong (sources : List FromItem) (i : Item) : Prop where
  among : i.IsAmong sources
  parameters : ∀ v ∈ i.parameters, v.hasDistinctKeys = true

variable {sources : List FromItem} {i : Item}

theorem isPlacedAmong_of_isMeant {pending : Pending} (h : Pending.IsMeant sources pending) (n : Nat) :
    IsPlacedAmong sources (pending n) := ⟨h.among n, h.parameters n⟩

theorem isPlacedAmong_ofExpression {id : Nat} {text aliasName : String}
    (h : Item.ofExpression? id text aliasName = some i) : IsPlacedAmong sources i := by
  unfold Item.ofExpression? at h
  split at h
  · cases h
  · cases h
    exact ⟨⟨fun _ hc => (by cases hc), fun _ hx => (by cases hx), fun _ => rfl⟩,
      List.forall_mem_nil _⟩

/-- **Whatever is read over from items stands among them.** -/
theorem ofReadings_isPlacedAmong : OfReadings IsPlacedAmong where
  names := fun _ => {
    item := fun _ hq _ _ n h => hq ▸ isPlacedAmong_of_isMeant (isMeant_of_resolveItem h) n
    expression := fun _ _ _ _ h => isPlacedAmong_ofExpression h
    withAlias := fun _ aliasName h => ⟨h.among.withAlias aliasName, h.parameters⟩ }
  offers := fun _ _ ⟨_, hleaf, pending, hpending, n, hi⟩ =>
    hi ▸ isPlacedAmong_of_isMeant (isMeant_of_offers hleaf pending hpending) n
  columns := fun _ _ _ n h => isPlacedAmong_of_isMeant (isMeant_of_resolveColumn h) n
  mono := fun _ _ _ hleaves h => ⟨h.among.mono hleaves, h.parameters⟩

end DocQuery.Grammar
