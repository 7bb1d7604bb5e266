import DocQuery.Proofs.Engine.Binding
import DocQuery.Proofs.Engine.Sides

/-!
# DocQuery.Proofs.Engine.Product — everything of several from items

`SELECT *` over several from items is meant to give the product of what it gives over each of them.
Each from item is asked for what it claims of all items on offer, which is what it offers itself as
long as labels tell the from items apart.  Then every side of the product shows what the from item
shows on its own, under items that no other side has (`RowSource.asks_product`).
-/

namespace DocQuery

open Plan
open RowSet (Section combinations)

namespace RowSource

/-- The answer of `SELECT *` over from items that have been read, with identities from one on. -/
def askEverything (s : RowSource) (options : Options) (sources : List FromItem) (next : Nat) :
    Except QueryError Answer := do
  let (result, state) :=
    (Grammar.readSelect (s.catalog options.expressions) { sources := sources } ['*']).run
      { nextItem := next }
  let q ← result
  ((Answer.ofPlan (Engine.execute s options q)).run { nextItem := state.nextItem }).1

theorem askEverything_eq_ok {s : RowSource} {options : Options} {sources : List FromItem}
    {next : Nat} {a : Answer} (h : s.askEverything options sources next = .ok a) :
    FromItem.offeredItems next sources ≠ [] ∧
      (Answer.ofPlan (Engine.execute s options (QueryOf.everythingOf sources next))).answer
        { nextItem := next + (FromItem.offeredItems next sources).length } = .ok a := by
  unfold askEverything at h
  rcases hread : (Grammar.readSelect (s.catalog options.expressions) { sources := sources }
    ['*']).run { nextItem := next } with ⟨result, state⟩
  rw [hread] at h
  cases result with
  | error e => cases h
  | ok q =>
    obtain ⟨rfl, hselect, hnext⟩ := Grammar.readSelect_everythingOf hread
    have hanswer : (Answer.ofPlan (Engine.execute s options
        (QueryOf.everythingOf sources next))).answer { nextItem := state.nextItem } = .ok a := h
    rw [hnext] at hanswer
    exact ⟨hselect, hanswer⟩

end RowSource

namespace Engine

variable {s : RowSource} {options : Options} {f g : FromItem} {sources : List FromItem}
  {first next : Nat} {l : Ledger} {a : Answer}

/-! ## What a from item is asked for -/

/-- A table or subquery is asked for what it claims, and nothing else. -/
theorem materialize_claims (s : RowSource) (options : Options) (needed : List Item)
    (hf : f.isTableOrSubquery = true) :
    materialize s options needed f = materialize s options (needed.filter f.claims) f := by
  cases f with
  | table t aliasName =>
    have howned : (needed.filter (FromItem.table t aliasName).claims).filterMap
        (ownedColumn? t (aliasName.getD t.name)) =
          needed.filterMap (ownedColumn? t (aliasName.getD t.name)) := by
      rw [List.filterMap_filter]
      refine List.filterMap_congr fun i _ => ?_
      cases howned : ownedColumn? t (aliasName.getD t.name) i <;> simp [FromItem.claims, howned]
    unfold materialize tableItems
    rw [howned]
  | subquery q aliasName =>
    have hrefers : (needed.filter (FromItem.subquery q aliasName).claims).filter
        (refersInto aliasName) = needed.filter (refersInto aliasName) := by
      rw [List.filter_filter]
      refine List.filter_congr fun i _ => ?_
      exact Bool.and_self _
    unfold materialize subqueryItems
    rw [hrefers]
  | expression text aliasName => cases hf
  | join kind left right conditions aliasName => cases hf

/-- **What a from item shows on its own, it shows as a side of a product** that asks it for all that
it offers. -/
theorem gives_side (hs : s.IsSteady) {catalog : Grammar.Catalog} {r : Registry}
    (hf : f.isTableOrSubquery = true) (hsource : Grammar.IsSource catalog r f)
    (hnext : r.next ≤ next) (hanswer : s.askEverything options [f] next = .ok a) {start : Nat} (hstart : r.next ≤ start)
    (hl : start + (FromItem.offeredItems start [f]).length ≤ l.nextItem) :
    (materialize s options ((FromItem.offeredItems start [f]).foldl Item.pushNew []) f).Gives l
      fun d l' => l.nextItem ≤ l'.nextItem ∧ ∃ x : Section, x.set = d ∧
        x.rows.map x.cells = a.rows.map Row.values ∧
          IsSide f (FromItem.offeredItems start [f]) l.nextItem x := by
  obtain ⟨hne, hanswer⟩ := RowSource.askEverything_eq_ok hanswer
  cases f with
  | table t aliasName =>
    rw [← List.length_pos_iff, FromItem.length_offeredItems_table, List.length_pos_iff] at hne
    rw [FromItem.length_offeredItems_table] at hl hanswer
    exact gives_side_table hne hs (Nat.le_refl _) hanswer hl
  | subquery q aliasName =>
    rw [← List.length_pos_iff, FromItem.length_offeredItems_subquery, List.length_pos_iff] at hne
    rw [FromItem.length_offeredItems_subquery] at hl hanswer
    exact gives_side_subquery hs hsource.queries hnext (Nat.le_refl _) hne hanswer hstart hl
  | expression text aliasName => cases hf
  | join kind left right conditions aliasName => cases hf

/-! ## The sides of a product -/

theorem IsSide.mono {asked : List Item} {earlier : Nat} {x : Section} (h : IsSide f asked next x)
    (hle : earlier ≤ next) : IsSide f asked earlier x where
  items := h.items
  scopes := h.scopes
  ids := fun c hc => (h.ids c hc).imp_right (Nat.le_trans hle)

section Sides

variable (hkinds : ∀ f ∈ sources, f.isTableOrSubquery = true)
  (hapart : sources.Pairwise FromItem.ToldApart)
  (hnext : first + (FromItem.offeredItems first sources).length ≤ next)

include hkinds hapart hnext

/-- Sides of from items that are told apart lack the items that are selected of each other: the
labels differ, and so do the identities. -/
theorem IsSide.lacks {x : Section} (hfg : f.ToldApart g) (hg : g ∈ sources)
    (hx : IsSide f ((FromItem.offeredItems first sources).filter f.claims) next x) :
    ∀ i ∈ (FromItem.offeredItems first sources).filter g.claims,
      Header.Lacks x.set.header i := by
  intro i hi c hc
  have hmem := List.mem_of_mem_filter hi
  obtain ⟨k, hclaimed, -, -⟩ := FromItem.filter_claims_offered hkinds hapart first hg
  rw [hclaimed] at hi
  constructor
  · -- An identity that was asked for belongs to one item only, which the other one does not claim;
    -- any other one was drawn after all that are selected.
    intro hid
    rcases hx.ids c hc with hasked | hnew
    · obtain ⟨j, hj, hjd⟩ := List.mem_map.mp hasked
      obtain ⟨hjMem, hjClaims⟩ := List.mem_filter.mp hj
      obtain rfl : j = i := List.inj_on_of_nodup_map (FromItem.nodup_offeredItems first sources)
        hjMem hmem (hjd.trans hid)
      rw [FromItem.not_claims_of_mem_offered hfg hi (hkinds g hg)] at hjClaims
      cases hjClaims
    · have hlt := (FromItem.id_of_mem_offeredItems hmem).2
      omega
  · refine Bool.eq_false_iff.mpr fun hsame => hfg.label_ne ?_
    rw [← hx.scopes c hc, Item.scope_of_sameAs hsame,
      FromItem.scope_of_mem_offered hi (hkinds g hg)]

variable (hs : s.IsSteady) {catalog : Grammar.Catalog} {r : Registry}
  (hsources : ∀ f ∈ sources, Grammar.IsSource catalog r f) (hfirst : r.next ≤ first)

include hs hsources hfirst

theorem gives_claimed (hf : f ∈ sources) (hanswer : s.askEverything options [f] next = .ok a)
    (hl : next ≤ l.nextItem) :
    (materialize s options ((FromItem.offeredItems first sources).foldl Item.pushNew []) f).Gives l
      fun d l' => next ≤ l'.nextItem ∧ ∃ x : Section, x.set = d ∧
        x.rows.map x.cells = a.rows.map Row.values ∧
          IsSide f ((FromItem.offeredItems first sources).filter f.claims) next x := by
  obtain ⟨k, hclaimed, hk, hlength⟩ := FromItem.filter_claims_offered hkinds hapart first hf
  rw [materialize_claims s options _ (hkinds f hf), FromItem.filter_claims_gathered, hclaimed]
  refine (gives_side hs (hkinds f hf) (hsources f hf) (by omega) hanswer (by omega)
    (by omega)).mono ?_
  rintro d l' ⟨hle, x, hx, hcells, hside⟩
  exact ⟨Nat.le_trans hl hle, x, hx, hcells, hside.mono hl⟩

/-- **The from items make a side each.** -/
theorem gives_sides {rest : List FromItem} {answers : List Answer}
    (hrest : ∀ f ∈ rest, f ∈ sources)
    (hanswers : List.Forall₂ (fun f a => s.askEverything options [f] next = .ok a) rest answers)
    (done : List RowSet) (hl : next ≤ l.nextItem) :
    (materializeAll s options ((FromItem.offeredItems first sources).foldl Item.pushNew []) done
      rest).Gives l fun sets _ => ∃ xs : List Section, sets = done ++ xs.map (·.set) ∧
        List.Forall₂ (fun f x =>
          IsSide f ((FromItem.offeredItems first sources).filter f.claims) next x) rest xs ∧
        List.Forall₂ (fun (x : Section) rows => x.rows.map x.cells = rows.map Row.values) xs
          (answers.map (·.rows)) := by
  induction hanswers generalizing done l with
  | nil =>
    unfold materializeAll
    exact gives_pure ⟨[], (List.append_nil done).symm, .nil, .nil⟩
  | @cons f a rest answers hanswer _ ih =>
    rw [List.forall_mem_cons] at hrest
    unfold materializeAll
    refine gives_bind (gives_orElseClosing ((gives_claimed hkinds hapart hnext hs hsources hfirst
      hrest.1 hanswer hl).mono ?_))
    rintro d l' ⟨hl', x, rfl, hcells, hside⟩
    refine (ih hrest.2 (done ++ [x.set]) hl').mono ?_
    rintro sets _ ⟨xs, rfl, hsides, hall⟩
    refine ⟨x :: xs, ?_, .cons hside hsides, .cons hcells hall⟩
    rw [List.append_assoc]
    rfl

end Sides

/-! ## The product -/

/-- Several from items take the long way to a product without filters. -/
theorem execute_everythingOf_several (s : RowSource) (options : Options) (first : Nat)
    (hmany : 2 ≤ sources.length) : execute s options (QueryOf.everythingOf sources first) = (do
      let sets ← materializeAll s options
        ((FromItem.offeredItems first sources).foldl Item.pushNew []) [] sources
      let d ← combined (QueryOf.everythingOf sources first) sets
      d.selection (FromItem.offeredItems first sources)) := by
  have hsources : (QueryOf.everythingOf sources first).sources ≠ [] := by
    rintro hnil
    have hnone : sources = [] := hnil
    rw [hnone] at hmany
    cases hmany
  have htable : shortcutTable? (QueryOf.everythingOf sources first) = none := by
    refine Option.eq_none_iff_forall_not_mem.mpr fun t ht => ?_
    obtain ⟨aliasName, hone, -⟩ := exists_of_shortcutTable? ht
    have hlength : sources.length = 1 := congrArg List.length hone
    omega
  rw [execute_of_no_table s options hsources (Option.some_ne_none 0).symm htable]
  unfold longWay
  rw [neededItems_everythingOf]
  exact bind_congr fun sets => finish_everythingOf sources first sets

theorem combined_eq_product {q : Query} {sets : List RowSet} (hmany : 2 ≤ sets.length)
    (hfilters : q.filters = []) : combined q sets = RowSet.cartesianProduct sets [] := by
  rcases sets with _ | ⟨d, _ | ⟨e, rest⟩⟩
  · cases hmany
  · simp at hmany
  · rw [← hfilters]
    rfl

/-- **Everything of several from items is the product of everything of each.** -/
theorem gives_product (hmany : 2 ≤ sources.length)
    (hkinds : ∀ f ∈ sources, f.isTableOrSubquery = true)
    (hapart : sources.Pairwise FromItem.ToldApart)
    (hnext : first + (FromItem.offeredItems first sources).length ≤ next) (hs : s.IsSteady)
    {catalog : Grammar.Catalog} {r : Registry}
    (hsources : ∀ f ∈ sources, Grammar.IsSource catalog r f) (hfirst : r.next ≤ first)
    {answers : List Answer}
    (hanswers : List.Forall₂ (fun f a => s.askEverything options [f] next = .ok a) sources answers)
    (hl : next ≤ l.nextItem) :
    (execute s options (QueryOf.everythingOf sources first)).Gives l fun d _ =>
      d.Shows ((combinations (answers.map (·.rows))).map fun c => c.flatMap (·.values)) := by
  rw [execute_everythingOf_several s options first hmany]
  refine gives_bind ((gives_sides hkinds hapart hnext hs hsources hfirst (fun _ h => h) hanswers []
    hl).mono ?_)
  rintro sets l' ⟨xs, rfl, hsides, hcells⟩
  have hlength : xs.length = sources.length := hsides.length_eq.symm
  have hmanySets : 2 ≤ (xs.map (·.set)).length := by
    rw [List.length_map, hlength]
    exact hmany
  have hyields : List.Forall₂ RowSet.Yields (xs.map (·.set)) (xs.map (·.rows)) := by
    rw [List.forall₂_map_left_iff, List.forall₂_map_right_iff]
    exact List.forall₂_same.mpr fun x _ => x.yields
  -- Being told apart goes both ways: either side lacks what is selected of the other one.
  have hapartSections : xs.Pairwise Section.Apart := by
    refine pairwise_of_forall₂ hsides hapart fun f hf g hg x y hfg hx hy => ⟨?_, ?_⟩
    · rw [hy.items]
      exact hx.lacks hkinds hapart hnext hfg hg
    · rw [hx.items]
      exact hy.lacks hkinds hapart hnext hfg.symm hf
  have hitems : xs.flatMap (·.items) = FromItem.offeredItems first sources := by
    have hclaimed : xs.map (·.items) =
        sources.map fun f => (FromItem.offeredItems first sources).filter f.claims :=
      map_eq_map_of_forall₂ hsides.flip fun x _ f hx => hx.items
    rw [List.flatMap_def, hclaimed, ← List.flatMap_def]
    exact FromItem.flatMap_filter_claims hkinds hapart
  rw [List.nil_append, combined_eq_product hmanySets rfl]
  refine gives_bind ((RowSet.gives_cartesianProduct_unfiltered hmanySets hyields l').mono ?_)
  rintro d l'' ⟨hheader, hheaded, hshows⟩
  rw [← hitems]
  rw [List.flatMap_map] at hheader
  refine (Section.gives_selection hapartSections hheader hheaded hshows l'').mono fun d' _ hd' => ?_
  rwa [Section.map_allCells_combinations hcells] at hd'

end Engine

namespace RowSource

variable {s : RowSource} {options : Options}

/-- A text that selects everything is read as `SELECT *` over its from items. -/
theorem everythingOf_of_parse {sql : String} (hsql : Grammar.SelectsEverything sql) {q : Query}
    {n : Nat} (hparse : s.parse options sql = .ok (q, n)) :
    ∃ r : Registry, q = QueryOf.everythingOf q.sources r.next ∧ n = r.next + q.select.length ∧
      ∀ f ∈ q.sources, Grammar.IsSource (s.catalog options.expressions) r f := by
  obtain ⟨state, hrun, rfl⟩ := parse_eq_ok_iff.mp hparse
  exact Grammar.everythingOf_of_readQuery hsql hrun

/-- **Everything of several from items is the product of everything of each**, the first one
outermost, if all of them are tables or subqueries, no two labels are the same, and at most one of
the from items has none. -/
theorem asks_product (hs : s.IsSteady) {sql : String} (hsql : Grammar.SelectsEverything sql)
    {q : Query} {n : Nat} (hparse : s.parse options sql = .ok (q, n)) (hmany : 2 ≤ q.sources.length)
    (hkinds : ∀ f ∈ q.sources, f.isTableOrSubquery = true)
    (hlabels : q.sources.Pairwise fun f g =>
      ∀ a ∈ f.label?, ∀ b ∈ g.label?, Text.sameName a b = false)
    (hlabelled : q.sources.Pairwise fun f g => f.label?.isSome ∨ g.label?.isSome)
    {answers : List Answer} (hanswers : List.Forall₂
      (fun f a => s.askEverything options [f] n = .ok a) q.sources answers) :
    ∃ a, s.ask options sql = .ok a ∧ a.rows.map (·.values) =
      (combinations (answers.map (·.rows))).map fun c => c.flatMap (·.values) := by
  rw [ask_eq rfl hparse]
  obtain ⟨r, hq, hn, hsources⟩ := everythingOf_of_parse hsql hparse
  have hapart : q.sources.Pairwise FromItem.ToldApart :=
    (hlabels.and hlabelled).imp fun h => ⟨h.1, h.2⟩
  have hnext : r.next + (FromItem.offeredItems r.next q.sources).length ≤ n := by
    rw [hq] at hn
    exact Nat.le_of_eq hn.symm
  have hgives : (Engine.execute s options q).Gives { nextItem := n } fun d _ =>
      d.Shows ((combinations (answers.map (·.rows))).map fun c => c.flatMap (·.values)) := by
    rw [hq]
    exact Engine.gives_product hmany hkinds hapart hnext hs hsources (Nat.le_refl _) hanswers
      (Nat.le_refl n)
  obtain ⟨d, l', hrun, hshows⟩ := hgives
  obtain ⟨a, ha, -, hvalues⟩ := Engine.exists_answer ⟨d, l', hrun, rfl, hshows⟩
  exact ⟨a, ha, hvalues⟩

/-- Tables held in memory answer as they did before. -/
theorem isSteady_memory (m : MemoryTables) : m.source.IsSteady :=
  ⟨fun _ _ _ _ _ => rfl, fun _ _ _ _ _ => rfl, fun _ _ _ _ _ _ => rfl⟩

/-- All numbers, each beside the second one from a subquery without a label. -/
def besideSecond : String := "SELECT * FROM t, (SELECT id FROM t WHERE id = 2)"

/-- Everything of both is their product. -/
theorem asks_product_besideSecond : ∃ q n answers a,
    Engine.numbers.source.IsSteady ∧ Grammar.SelectsEverything besideSecond ∧
    Engine.numbers.source.parse {} besideSecond = .ok (q, n) ∧ 2 ≤ q.sources.length ∧
    (∀ f ∈ q.sources, f.isTableOrSubquery = true) ∧
    q.sources.map FromItem.label? = [some "t", none] ∧
    List.Forall₂ (fun f a => Engine.numbers.source.askEverything {} [f] n = .ok a) q.sources answers ∧
    Engine.numbers.source.ask {} besideSecond = .ok a ∧
    a.rows.map (·.values) = (combinations (answers.map (·.rows))).map (fun c => c.flatMap (·.values)) ∧
    a.rows.map Row.text = ["Row[1,2]", "Row[2,2]"] := by
  have hsql : Grammar.SelectsEverything besideSecond :=
    Grammar.selectsEverything_of_clauses
      (by decide +kernel : _ = some
        [("SELECT", ['*']), ("FROM", "t, (SELECT id FROM t WHERE id = 2)".toList)])
  have hshown : (Engine.numbers.source.parse {} besideSecond).toOption.map (fun parsed =>
      (parsed.1.sources.all FromItem.isTableOrSubquery, parsed.1.sources.map FromItem.label?,
        parsed.1.sources.map fun f =>
          Engine.shownRows (Engine.numbers.source.askEverything {} [f] parsed.2))) =
      some (true, [some "t", none], [some ["Row[1]", "Row[2]"], some ["Row[2]"]]) := by
    decide +kernel
  have hrows : Engine.shownRows (Engine.numbers.source.ask {} besideSecond) =
      some ["Row[1,2]", "Row[2,2]"] := by
    decide +kernel
  obtain ⟨⟨q, n⟩, hparse, hshown⟩ := Option.map_eq_some_iff.mp hshown
  obtain ⟨hkinds, hshown⟩ := Prod.mk.inj hshown
  obtain ⟨hlabels, hanswers⟩ := Prod.mk.inj hshown
  obtain ⟨f, others, hsources, hf, hothers⟩ := List.map_eq_cons_iff.mp hlabels
  obtain ⟨g, none', rfl, hg, hnone⟩ := List.map_eq_cons_iff.mp hothers
  obtain rfl := List.map_eq_nil_iff.mp hnone
  have hparse := eq_ok_of_mem_toOption hparse
  rw [hsources] at hanswers
  obtain ⟨hfirst, hanswers⟩ := List.cons.inj hanswers
  obtain ⟨hsecond, -⟩ := List.cons.inj hanswers
  obtain ⟨first, hfirst, -⟩ := Option.map_eq_some_iff.mp hfirst
  obtain ⟨second, hsecond, -⟩ := Option.map_eq_some_iff.mp hsecond
  have hmany : 2 ≤ q.sources.length := by rw [hsources]; exact Nat.le_refl 2
  have hsingle : List.Forall₂ (fun f a => Engine.numbers.source.askEverything {} [f] n = .ok a)
      q.sources [first, second] := by
    rw [hsources]
    exact .cons (eq_ok_of_mem_toOption hfirst) (.cons (eq_ok_of_mem_toOption hsecond) .nil)
  have hdiffer : q.sources.Pairwise fun f g =>
      ∀ a ∈ f.label?, ∀ b ∈ g.label?, Text.sameName a b = false := by
    rw [hsources]
    simp [hg]
  have hlabelled : q.sources.Pairwise fun f g => f.label?.isSome ∨ g.label?.isSome := by
    rw [hsources]
    simp [hf]
  obtain ⟨a, ha, hproduct⟩ := asks_product (isSteady_memory _) hsql hparse hmany
    (List.all_eq_true.mp hkinds) hdiffer hlabelled hsingle
  rw [ha] at hrows
  exact ⟨q, n, [first, second], a, isSteady_memory _, hsql, hparse, hmany,
    List.all_eq_true.mp hkinds, hlabels, hsingle, ha, hproduct, Option.some.inj hrows⟩

/-- Two tables with a column each. -/
def numbersAndKeys : MemoryTables :=
  ⟨[(⟨"t", [⟨"id", "t", some .number, false⟩]⟩, [[.integer 1], [.integer 2]]),
    (⟨"u", [⟨"k", "u", some .number, false⟩]⟩, [[.integer 5], [.integer 6]])]⟩

/-- Two subqueries without a label. -/
def besideUnlabelled : String := "SELECT * FROM (SELECT id FROM t), (SELECT k FROM u)"

/-- Either subquery answers on its own, but both of them are asked for what the other one offers,
and so everything of both cannot be selected. -/
theorem not_asks_product_besideUnlabelled : ∃ q n,
    Grammar.SelectsEverything besideUnlabelled ∧
    numbersAndKeys.source.parse {} besideUnlabelled = .ok (q, n) ∧
    (∀ f ∈ q.sources, f.isTableOrSubquery = true) ∧ q.sources.map FromItem.label? = [none, none] ∧
    q.sources.map (fun f => Engine.shownRows (numbersAndKeys.source.askEverything {} [f] n)) =
      [some ["Row[1]", "Row[2]"], some ["Row[5]", "Row[6]"]] ∧
    numbersAndKeys.source.ask {} besideUnlabelled = .error (.selectItemMissing "id") := by
  have hsql : Grammar.SelectsEverything besideUnlabelled :=
    Grammar.selectsEverything_of_clauses (by decide +kernel :
      _ = some [("SELECT", ['*']), ("FROM", "(SELECT id FROM t), (SELECT k FROM u)".toList)])
  have hshown : (numbersAndKeys.source.parse {} besideUnlabelled).toOption.map (fun parsed =>
      (parsed.1.sources.all FromItem.isTableOrSubquery, parsed.1.sources.map FromItem.label?,
        parsed.1.sources.map fun f =>
          Engine.shownRows (numbersAndKeys.source.askEverything {} [f] parsed.2))) =
      some (true, [none, none], [some ["Row[1]", "Row[2]"], some ["Row[5]", "Row[6]"]]) := by
    decide +kernel
  have hfailed : failureOf (numbersAndKeys.source.ask {} besideUnlabelled) =
      some (.selectItemMissing "id") := by
    decide +kernel
  obtain ⟨⟨q, n⟩, hparse, hshown⟩ := Option.map_eq_some_iff.mp hshown
  obtain ⟨hkinds, hshown⟩ := Prod.mk.inj hshown
  obtain ⟨hlabels, hanswers⟩ := Prod.mk.inj hshown
  exact ⟨q, n, hsql, eq_ok_of_mem_toOption hparse, List.all_eq_true.mp hkinds, hlabels, hanswers,
    eq_error_of_failureOf hfailed⟩

end RowSource

end DocQuery
