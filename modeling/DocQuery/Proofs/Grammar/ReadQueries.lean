import DocQuery.Proofs.Grammar.Clauses
import DocQuery.Proofs.Grammar.Registry

/-!
# DocQuery.Proofs.Grammar.ReadQueries — one registry for a whole query

From items are read one after the other, each with the joins and the subqueries in it, and every
subquery is read as a whole query is.  So what one clause enters (`grows_readClause`) carries over to
queries at any depth, by induction on how deep parentheses may be nested (`grows_readSimple`).

A select list that is a single star stands for all items that the from items of its query offer,
each under the next identity.  The text of such a query has a SELECT and a FROM clause and no other
(`Grammar.SelectsEverything`), and what is read of it is nothing but its from items and that list.
-/

namespace DocQuery.Grammar

variable {r : Registry} {catalog : Catalog} {q : Query} {simple : List Char → Reader FromItem}

/-! ## From items -/

theorem IsSource.withAlias {f : FromItem} (h : IsSource catalog r f) (aliasName : String) :
    IsSource catalog r (f.withAlias aliasName) := by
  cases f with
  | table t other =>
    refine ⟨h.queries, h.conditions, fun leaf hleaf t' ht => ?_⟩
    cases List.mem_singleton.mp hleaf
    exact h.tables _ List.mem_cons_self t' ht
  | subquery q other =>
    refine ⟨h.queries, h.conditions, fun leaf hleaf t ht => ?_⟩
    cases List.mem_singleton.mp hleaf
    cases ht
  | expression text other =>
    refine ⟨h.queries, h.conditions, fun leaf hleaf t ht => ?_⟩
    cases List.mem_singleton.mp hleaf
    cases ht
  | join kind left right conditions other => exact ⟨h.queries, h.conditions, h.tables⟩

/-- A from item is put under an alias or left as it is. -/
theorem eq_of_underAlias {f source : FromItem} {text token : List Char}
    (h : underAlias f text token = .ok source) : source = f ∨ ∃ a, source = f.withAlias a := by
  unfold underAlias at h
  cases halias : readAlias text token with
  | error e =>
    rw [halias] at h
    cases h
  | ok aliasName =>
    rw [halias] at h
    cases h
    cases aliasName with
    | none => exact Or.inl rfl
    | some name => exact Or.inr ⟨_, rfl⟩

theorem isSource_of_underAlias {f source : FromItem} {text token : List Char}
    (h : IsSource catalog r f) (hread : underAlias f text token = .ok source) :
    IsSource catalog r source := by
  rcases eq_of_underAlias hread with rfl | ⟨a, rfl⟩
  · exact h
  · exact h.withAlias a

theorem isSource_table {t : Table} {name : String} (h : catalog.table? name = some t) :
    IsSource catalog r (.table t none) where
  queries := List.forall_mem_nil _
  conditions := List.forall_mem_nil _
  tables := fun leaf hleaf t' ht => by
    cases List.mem_singleton.mp hleaf
    cases ht
    exact ⟨name, h⟩

/-! ## Joins -/

/-- Both items of the conditions of a join are listed. -/
def ListsConditions (r : Registry) (conditions : List (Item × Item)) : Prop :=
  ∀ c ∈ conditions, r.Lists c.1 ∧ r.Lists c.2

/-- The conditions of a join are pairs of items. -/
theorem join?_eq_ok {kind : JoinKind} {left right join : FromItem} {conditions : List (Item × Item)}
    (h : FromItem.join? kind left right (conditions.map (·.1)) (conditions.map (·.2)) = .ok join) :
    conditions ≠ [] ∧ join = .join kind left right conditions none := by
  unfold FromItem.join? at h
  split at h
  · cases h
  · split at h
    · cases h
    next hne =>
      cases h
      rw [← List.unzip_fst, ← List.unzip_snd, List.zip_unzip]
      exact ⟨by simpa using hne, rfl⟩

theorem isSource_join {kind : JoinKind} {left right join : FromItem}
    {conditions : List (Item × Item)} (hleft : IsSource catalog r left)
    (hright : IsSource catalog r right) (hconditions : ListsConditions r conditions)
    (h : FromItem.join? kind left right (conditions.map (·.1)) (conditions.map (·.2)) = .ok join) :
    IsSource catalog r join := by
  obtain ⟨-, rfl⟩ := join?_eq_ok h
  refine ⟨fun q hq => ?_, fun i hi => ?_, fun leaf hleaf => ?_⟩
  · rcases List.mem_append.mp hq with hq | hq
    · exact hleft.queries q hq
    · exact hright.queries q hq
  · rcases List.mem_append.mp hi with hi | hi
    · rcases List.mem_append.mp hi with hi | hi
      · exact hleft.conditions i hi
      · exact hright.conditions i hi
    · obtain ⟨c, hc, hmem⟩ := List.mem_flatMap.mp hi
      have hsides : i = c.1 ∨ i = c.2 := by simpa using hmem
      rcases hsides with rfl | rfl
      · exact (hconditions c hc).1
      · exact (hconditions c hc).2
  · rcases List.mem_append.mp hleaf with hleaf | hleaf
    · exact hleft.tables leaf hleaf
    · exact hright.tables leaf hleaf

/-- A column of from items is listed. -/
theorem grows_column (h : ∀ f ∈ q.sources, IsSource catalog r f) (name : List Char)
    (failure : QueryError) :
    Grows (makeFound (resolveColumn q name) failure) r Registry.Lists := by
  refine grows_makeFound fun pending hpending => ?_
  refine (grows_make ((isMeant_of_resolveColumn hpending).isFresh (knowsSources h))).mono ?_
  exact fun _ _ _ hi => hi.1.1

theorem grows_readConditions {left right : FromItem} (h : ∀ f ∈ q.sources, IsSource catalog r f)
    (hleft : IsSource catalog r left) (hright : IsSource catalog r right) (text : List Char) :
    Grows (readConditions q left right text) r ListsConditions := by
  unfold readConditions
  dsimp only
  refine grows_mapM (fun r' (c : Item × Item) => r'.Lists c.1 ∧ r'.Lists c.2)
    (fun r' r'' c hr hc => ⟨hc.1.mono hr, hc.2.mono hr⟩) fun r' part hr => ?_
  have hscope (r'' : Registry) (hr' : r''.Extends r) :
      ∀ f ∈ q.sources ++ [left, right], IsSource catalog r'' f := by
    intro f hf
    rcases List.mem_append.mp hf with hf | hf
    · exact (h f hf).mono hr'
    · have hsides : f = left ∨ f = right := by simpa using hf
      rcases hsides with rfl | rfl
      · exact hleft.mono hr'
      · exact hright.mono hr'
  unfold readCondition
  dsimp only
  split
  next => exact grows_throw _
  next before after _ =>
    refine (grows_column (hscope r' hr) _ _).bind fun r'' first hr' hfirst => ?_
    refine (grows_column (hscope r'' (hr'.trans hr)) _ _).bind fun r''' second hr'' hsecond => ?_
    refine grows_pure ?_
    split
    · exact ⟨hsecond, hfirst.mono hr''⟩
    · exact ⟨hfirst.mono hr'', hsecond⟩

section Sources

variable (hsimple : ∀ r' token, r'.Extends r → Grows (simple token) r' (IsSource catalog))

include hsimple

/-- One join of a chain, if the joins behind it are read over all that it gives. -/
theorem grows_readJoin {left : FromItem} {kind next : JoinKind} {token part : List Char}
    {parts : List (List Char)} (h : ∀ f ∈ q.sources, IsSource catalog r f)
    (hleft : IsSource catalog r left)
    (hlater : ∀ r' join, r'.Extends r → IsSource catalog r' join →
      Grows (readJoins simple q token join next parts) r' (IsSource catalog)) :
    Grows (do
      match cutKeyword? ['O', 'N'] none part with
      | none => throw (.missingOn (String.ofList token))
      | some (rightText, conditions) =>
        let right ← simple rightText
        let conditions ← readConditions q left right (Text.trim conditions)
        let join ← (FromItem.join? kind left right (conditions.map (·.1))
          (conditions.map (·.2)) : Except QueryError FromItem)
        readJoins simple q token join next parts) r (IsSource catalog) := by
  split
  next => exact grows_throw _
  next rightText conditions _ =>
    refine (hsimple r rightText (.refl r)).bind fun r' right hr hright => ?_
    have hsources : ∀ f ∈ q.sources, IsSource catalog r' f := fun f hf => (h f hf).mono hr
    refine (grows_readConditions hsources (hleft.mono hr) hright _).bind ?_
    intro r'' pairs hr' hpairs
    refine (grows_lift (fun r' join => r' = r'' ∧ IsSource catalog r'' join)
      fun join hjoin => ⟨rfl, isSource_join ((hleft.mono hr).mono hr') (hright.mono hr') hpairs
        hjoin⟩).bind ?_
    rintro _ join - ⟨rfl, hjoin⟩
    exact hlater _ join (hr'.trans hr) hjoin

/-- **A chain of joins is read into a from item**, by induction on its parts. -/
theorem grows_readJoins {left : FromItem} {kind : JoinKind} (token : List Char)
    {parts : List (List Char)} (h : ∀ f ∈ q.sources, IsSource catalog r f)
    (hleft : IsSource catalog r left) :
    Grows (readJoins simple q token left kind parts) r (IsSource catalog) := by
  induction parts generalizing r left kind with
  | nil => exact grows_pure hleft
  | cons part parts ih =>
    have hlater (next : JoinKind) (r' : Registry) (join : FromItem) (hr : r'.Extends r)
        (hjoin : IsSource catalog r' join) :
        Grows (readJoins simple q token join next parts) r' (IsSource catalog) :=
      ih (fun r'' token hr' => hsimple r'' token (hr'.trans hr)) (fun f hf => (h f hf).mono hr) hjoin
    unfold readJoins
    split
    · exact grows_readJoin hsimple h hleft (hlater _)
    · refine (grows_lift (fun r' _ => r' = r) fun _ _ => rfl).bind ?_
      rintro _ ⟨part, next⟩ - rfl
      exact grows_readJoin hsimple h hleft (hlater next)

theorem grows_readFromItem (h : ∀ f ∈ q.sources, IsSource catalog r f) (token : List Char) :
    Grows (readFromItem simple q token) r (IsSource catalog) := by
  unfold readFromItem
  split
  next first part parts _ =>
    refine (grows_lift (fun r' _ => r' = r) fun _ _ => rfl).bind ?_
    rintro _ ⟨first, kind⟩ - rfl
    refine (hsimple _ first (.refl _)).bind fun r' left hr hleft => ?_
    exact grows_readJoins (fun r'' token hr' => hsimple r'' token (hr'.trans hr)) token
      (fun f hf => (h f hf).mono hr) hleft
  next => exact hsimple r token (.refl r)

/-- From items alone make a query that clauses can be read for. -/
theorem grows_readFromItems {tokens : List (List Char)} (h : IsReading catalog r q)
    (hbare : q.itemsOfClauses = []) :
    Grows (readFromItems simple q tokens) r (IsReading catalog) := by
  induction tokens generalizing r q with
  | nil => exact grows_pure h
  | cons token rest ih =>
    unfold readFromItems
    refine (grows_readFromItem hsimple h.sources token).bind fun r' source hr hsource => ?_
    refine ih (fun r'' token hr' => hsimple r'' token (hr'.trans hr)) ?_ hbare
    have hnone : q.select = [] ∧ Filter.itemsOf q.filters = [] ∧ q.groupBy = [] ∧
        Filter.itemsOf q.having = [] ∧ q.orderBy = [] := by
      simpa [QueryOf.itemsOfClauses, and_assoc] using hbare
    obtain ⟨hselect, hfilters, hgroupBy, hhaving, horderBy⟩ := hnone
    refine ⟨fun f hf => ?_, ?_, ?_, ?_, ?_, ?_, h.ids⟩
    · rcases List.mem_append.mp hf with hf | hf
      · exact (h.sources f hf).mono hr
      · exact List.mem_singleton.mp hf ▸ hsource
    all_goals simp [hselect, hfilters, hgroupBy, hhaving, horderBy]

end Sources

/-! ## Queries -/

/-- A query and all queries within it are as reading leaves them. -/
def AllRead (catalog : Catalog) (r : Registry) (q : Query) : Prop :=
  ∀ q' ∈ q.queries, IsRead catalog r q'

theorem IsReading.allRead (h : IsReading catalog r q) : AllRead catalog r q := by
  have hown : IsRead catalog r q := by
    refine ⟨fun i hi => ?_, fun f hf => (h.sources f hf).conditions,
      fun f hf => (h.sources f hf).tables, h.ids⟩
    simp only [QueryOf.itemsOfClauses, List.mem_append, List.mem_map] at hi
    rcases hi with (((hi | hi) | hi) | hi) | ⟨o, ho, rfl⟩
    · exact h.select i hi
    · exact h.filters i hi
    · exact h.groupBy i hi
    · exact h.having i hi
    · exact h.orderBy o ho
  exact QueryOf.forall_mem_queries hown fun f hf => (h.sources f hf).queries

theorem grows_renumbered {α : Type} {m : Reader α} {post : Registry → α → Prop}
    (h : Grows m r post) : Grows (renumbered m) r post := by
  intro s a s' hs hrun
  obtain ⟨last, hinner, rfl⟩ := run_renumbered_eq_ok_iff.mp hrun
  exact h { s with nextParameter := 0 } a last hs hinner

theorem grows_clauses (h : IsReading catalog r q) (clauses : List (String × List Char)) :
    Grows (clauses.foldlM (fun q (keyword, text) => readClause catalog q keyword text) q) r
      (IsReading catalog) := by
  induction clauses generalizing r q with
  | nil => exact grows_pure h
  | cons clause rest ih =>
    rw [List.foldlM_cons]
    exact (grows_readClause h clause.1 clause.2).bind fun r' q' _ hq' => ih hq'

theorem isReading_empty : IsReading catalog r {} := by
  constructor <;> simp [Filter.itemsOf]

theorem grows_readWith
    (hsimple : ∀ r' token, r'.Extends r → Grows (simple token) r' (IsSource catalog))
    (sql : List Char) : Grows (readWith catalog simple sql) r (AllRead catalog) := by
  unfold readWith
  refine (grows_lift (fun r' _ => r' = r) fun _ _ => rfl).bind ?_
  rintro _ sql - rfl
  apply grows_renumbered
  unfold readNormalized
  refine (grows_lift (fun r' _ => r' = _) fun _ _ => rfl).bind ?_
  rintro _ clauses - rfl
  refine (grows_readFromItems hsimple isReading_empty rfl).bind fun r' q _ hq => ?_
  exact (grows_clauses hq clauses).mono fun _ _ _ hq' => hq'.allRead

theorem isSource_subquery (h : AllRead catalog r q) : IsSource catalog r (.subquery q none) where
  queries := h
  conditions := List.forall_mem_nil _
  tables := fun leaf hleaf t ht => by
    cases List.mem_singleton.mp hleaf
    cases ht

theorem grows_underAlias {source : FromItem} (h : IsSource catalog r source)
    (text token : List Char) :
    Grows (liftM (underAlias source text token) : Reader FromItem) r (IsSource catalog) :=
  grows_lift (IsSource catalog) fun _ hread => isSource_of_underAlias h hread

theorem grows_namedTable (name : String) (after token : List Char) :
    Grows (match catalog.table? name with
      | some t => (underAlias (.table t none) after token : Except QueryError FromItem)
      | none => throw (.noSuchTable name)) r (IsSource catalog) := by
  split
  next t ht => exact grows_underAlias (isSource_table ht) after token
  next => exact grows_throw _

/-- **From items without joins, at any depth**, by induction on it. -/
theorem grows_readSimple (r : Registry) (depth : Nat) (token : List Char) :
    Grows (readSimple catalog depth token) r (IsSource catalog) := by
  induction depth generalizing r token with
  | zero =>
    unfold readSimple
    dsimp only
    split
    · exact grows_throw _
    · split
      · exact grows_throw _
      · exact grows_namedTable _ _ _
  | succ depth ih =>
    unfold readSimple
    dsimp only
    split
    · split
      next _ inside after hdepth _ =>
        cases hdepth
        split
        · refine (grows_readWith (fun r' token _ => ih r' token) _).bind fun r' q _ hq => ?_
          exact grows_underAlias (isSource_subquery hq) after _
        · refine (grows_readFromItem (fun r' token _ => ih r' token) (List.forall_mem_nil _) _).bind ?_
          exact fun r' source _ hsource => grows_underAlias hsource after _
      next => exact grows_throw _
    · split
      · exact grows_throw _
      · exact grows_namedTable _ _ _

/-- **What reading a query leaves**: one registry lists its items and those of all queries within it,
and the next identity is the one after those that were drawn. -/
theorem allRead_of_readQuery {sql : String} {s : State}
    (h : (readQuery catalog sql).run {} = (.ok q, s)) :
    ∃ r : Registry, r.next = s.nextItem ∧ AllRead catalog r q := by
  let first : Registry := ⟨fun _ => Item.countAll 0, 1, Nat.one_pos⟩
  have hreads : Grows (readQuery catalog sql) first (AllRead catalog) :=
    grows_readWith (fun r' token _ => grows_readSimple r' sql.toList.length token) sql.toList
  obtain ⟨r, -, hnext, hq⟩ := hreads {} q s rfl h
  exact ⟨r, hnext.symm, hq⟩

/-! ## Select lists -/

section Select

variable {q' : Query} {s s' : State}

theorem select_of_readSelect {text : List Char}
    (h : (readSelect catalog q text).run s = (.ok q', s')) : q'.select ≠ [] := by
  unfold readSelect at h
  dsimp only at h
  obtain ⟨items, middle, -, h⟩ := run_bind_eq_ok h
  split at h
  · cases h
  next hsome =>
    cases h
    simpa using hsome

/-- A query is read by its clauses, the from items first. -/
theorem exists_of_readQuery {sql : String} (h : (readQuery catalog sql).run s = (.ok q, s')) :
    ∃ text clauses read k last, normalize sql.toList = .ok text ∧ locateClauses text = .ok clauses ∧
      (readFromItems (readSimple catalog sql.toList.length) {}
        (splitOn [','] ((clauses.lookup "FROM").getD []))).run { s with nextParameter := 0 } =
          (.ok read, k) ∧
      (clauses.foldlM (fun q (keyword, text) => readClause catalog q keyword text) read).run k =
        (.ok q, last) ∧
      s'.nextItem = last.nextItem := by
  obtain ⟨text, clauses, read, k, last, hnormalize, hlocate, hread, hclauses, rfl⟩ :=
    run_readWith_eq_ok_iff.mp h
  exact ⟨text, clauses, read, k, last, hnormalize, hlocate, hread, hclauses, rfl⟩

end Select

end DocQuery.Grammar

/-! ## `SELECT *` over from items -/

namespace DocQuery

/-- `SELECT *` over from items, with identities counted from `first`. -/
def QueryOf.everythingOf (sources : List FromItem) (first : Nat) : Query where
  select := FromItem.offeredItems first sources
  sources := sources

namespace Grammar

variable {catalog : Catalog} {sources : List FromItem} {q : Query} {s s' : State}

/-- Reading `*` over from items makes `SELECT *` over them. -/
theorem readSelect_everythingOf
    (h : (readSelect catalog { sources := sources } ['*']).run s = (.ok q, s')) :
    q = QueryOf.everythingOf sources s.nextItem ∧ q.select ≠ [] ∧
      s'.nextItem = s.nextItem + q.select.length := by
  have hselect := select_of_readSelect h
  have hword : afterWord? "DISTINCT".toList ['*'] = none := by decide
  have hsplit : splitOn [','] ['*'] = [['*']] := by decide
  unfold readSelect at h
  rw [hword] at h
  dsimp only at h
  rw [hsplit] at h
  obtain ⟨lists, middle, hlists, h⟩ := run_bind_eq_ok h
  -- The only token is `*`, which stands for all that the from items offer.
  cases hlists
  split at h
  · cases h
  · cases h
    refine ⟨?_, hselect, ?_⟩
    · simp [QueryOf.everythingOf]
    · simp

/-- The query that a text is selects everything of its from items, and has no further clause. -/
def SelectsEverything (sql : String) : Prop :=
  ∃ text tokens, normalize sql.toList = .ok text ∧
    locateClauses text = .ok [("SELECT", ['*']), ("FROM", tokens)]

theorem selectsEverything_of_clauses {sql : String} {tokens : List Char}
    (h : (normalize sql.toList).toOption.bind (fun text => (locateClauses text).toOption) =
      some [("SELECT", ['*']), ("FROM", tokens)]) : SelectsEverything sql := by
  obtain ⟨text, htext, hclauses⟩ := Option.bind_eq_some_iff.mp h
  exact ⟨text, tokens, eq_ok_of_mem_toOption htext, eq_ok_of_mem_toOption hclauses⟩

/-- From items are all that reading them leaves. -/
theorem sources_of_readFromItems {simple : List Char → Reader FromItem} {tokens : List (List Char)}
    (h : (readFromItems simple { sources := sources } tokens).run s = (.ok q, s')) :
    q = { sources := q.sources } := by
  induction tokens generalizing sources s with
  | nil =>
    cases h
    rfl
  | cons token rest ih =>
    unfold readFromItems at h
    obtain ⟨source, middle, -, h⟩ := run_bind_eq_ok h
    exact ih h

/-- **A text that selects everything is read as `SELECT *` over its from items.**  All items in them
were entered before the select list. -/
theorem everythingOf_of_readQuery {sql : String} (hsql : SelectsEverything sql)
    (h : (readQuery catalog sql).run {} = (.ok q, s')) :
    ∃ r : Registry, q = QueryOf.everythingOf q.sources r.next ∧
      s'.nextItem = r.next + q.select.length ∧ ∀ f ∈ q.sources, IsSource catalog r f := by
  obtain ⟨text, tokens, hnormalize, hclauses⟩ := hsql
  obtain ⟨text', clauses, read, k, last, hnormalize', hclauses', hread, h, hlast⟩ :=
    exists_of_readQuery h
  rw [hnormalize] at hnormalize'
  cases hnormalize'
  rw [hclauses] at hclauses'
  cases hclauses'
  let first : Registry := ⟨fun _ => Item.countAll 0, 1, Nat.one_pos⟩
  have hgrows : Grows (readFromItems (readSimple catalog sql.toList.length) {} (splitOn [','] tokens))
      first (IsReading catalog) :=
    grows_readFromItems (fun r' token _ => grows_readSimple r' sql.toList.length token)
      isReading_empty rfl
  obtain ⟨r, -, hnext, hreading⟩ := hgrows _ read k rfl hread
  have honly : read = { sources := read.sources } := sources_of_readFromItems hread
  rw [honly] at h
  -- Only the clause of the select list is left; FROM adds nothing more.
  rw [List.foldlM_cons] at h
  obtain ⟨selected, k', hselected, h⟩ := run_bind_eq_ok h
  cases h
  obtain ⟨hq, -, hcount⟩ := readSelect_everythingOf hselected
  have hsources : q.sources = read.sources := by
    rw [hq]
    rfl
  rw [hsources]
  refine ⟨r, ?_, ?_, hreading.sources⟩
  · rw [hq, hnext]
  · rw [hlast, hcount, hnext]

end Grammar

end DocQuery
