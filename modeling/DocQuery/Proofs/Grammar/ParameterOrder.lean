import DocQuery.Proofs.Grammar.FilledQueries
import DocQuery.Proofs.Grammar.Joins
import DocQuery.Proofs.Query.Literals

/-!
# DocQuery.Proofs.Grammar.ParameterOrder — parameters are numbered as they are read

A reader numbers parameters if the uses in what it reads carry the numbers that it draws, in order
(`Numbers`).  Operands do, hence filters at any depth, and a query draws its numbers from zero for its
own filters alone (`isNumbered_of_readQuery`), whatever was read with the same counters before.  The
queries within it are numbered on their own.
-/

namespace DocQuery.Grammar

/-! ## Readers that number parameters -/

section Numbers

variable {α β : Type} {r : Reader α}

/-- The uses in what is read carry the numbers that reading it draws. -/
def Numbers (r : Reader α) (uses : α → List ParameterUse) : Prop :=
  ∀ s a s', r.run s = (.ok a, s') →
    NumberedFrom s.nextParameter (uses a) ∧ s'.nextParameter = s.nextParameter + (uses a).length

theorem numbers_throw (e : QueryError) (uses : α → List ParameterUse) :
    Numbers (throw e : Reader α) uses := by
  intro s a s' hrun
  cases hrun

/-- A reader that does not look at numbers, of things without parameters. -/
theorem Blind.numbers (h : Blind r) {uses : α → List ParameterUse}
    (hnone : Yields r fun a => uses a = []) : Numbers r uses := by
  intro s a s' hrun
  rw [hnone s a s' hrun, h.keeps hrun]
  exact ⟨rfl, rfl⟩

theorem Numbers.bind {f : α → Reader β} {first : α → List ParameterUse} {uses : β → List ParameterUse}
    (later : α → β → List ParameterUse) (h : Numbers r first) (hf : ∀ a, Numbers (f a) (later a))
    (heq : ∀ a, Yields (f a) fun b => uses b = first a ++ later a b) : Numbers (r >>= f) uses := by
  intro s b s' hrun
  obtain ⟨a, middle, hr, hrest⟩ := run_bind_eq_ok hrun
  obtain ⟨hfirst, hmiddle⟩ := h s a middle hr
  obtain ⟨hlater, hlast⟩ := hf a middle b s' hrest
  rw [hmiddle] at hlater
  rw [heq a middle b s' hrest, numberedFrom_append, List.length_append, hlast, hmiddle, Nat.add_assoc]
  exact ⟨⟨hfirst, hlater⟩, rfl⟩

/-- What is made of a thing that was read has its uses. -/
theorem Numbers.map {uses : α → List ParameterUse} {uses' : β → List ParameterUse} (h : Numbers r uses)
    {g : α → β} (hg : ∀ a, uses' (g a) = uses a) : Numbers (r >>= fun a => pure (g a)) uses' := by
  intro s b s' hrun
  obtain ⟨a, middle, hr, hrest⟩ := run_bind_eq_ok hrun
  cases hrest
  rw [hg]
  exact h s a s' hr

/-- What is read first without regard to numbers does not count. -/
theorem Blind.bind_numbers (h : Blind r) {f : α → Reader β} {uses : β → List ParameterUse}
    (hf : ∀ a, Numbers (f a) uses) : Numbers (r >>= f) uses := by
  intro s b s' hrun
  obtain ⟨a, middle, hr, hrest⟩ := run_bind_eq_ok hrun
  rw [← h.keeps hr]
  exact hf a middle b s' hrest

end Numbers

/-! ## Filters -/

section Filters

variable {q : Query} {clause : String} {depth : Nat} {text : List Char}

/-- An operand has a use exactly if it is a parameter. -/
theorem numbers_readOperand (failure : QueryError) (item : Item) (op : Comparison) :
    Numbers (readOperand q failure item op text) fun operand =>
      Filter.uses (.comparison item op operand) := by
  unfold readOperand
  dsimp only
  split
  · intro s operand s' hrun
    cases hrun
    exact ⟨rfl, rfl⟩
  · split
    · split
      · exact ((Blind.lift _).bind fun _ => Blind.pure _).numbers
          ((yields_true _).bind fun _ _ => yields_pure rfl)
      · exact numbers_throw _ _
    · split
      · exact (Blind.pure _).numbers (yields_pure rfl)
      · exact ((blind_makeFound _ _).bind fun _ => Blind.pure _).numbers
          ((yields_true _).bind fun _ _ => yields_pure rfl)

theorem numbers_readComparison : Numbers (readComparison q clause text) Filter.uses := by
  unfold readComparison
  dsimp only
  split
  · exact ((blind_makeFound _ _).bind fun _ => Blind.pure _).numbers
      ((yields_true _).bind fun _ _ => yields_pure rfl)
  · split
    · refine (blind_makeFound _ _).bind_numbers fun item => ?_
      exact (numbers_readOperand _ item _).map fun operand => rfl
    · exact numbers_throw _ _

theorem numbers_mapM {β : Type} {f : β → Reader Filter} {l : List β}
    (h : ∀ b ∈ l, Numbers (f b) Filter.uses) : Numbers (l.mapM f) Filter.usesOf := by
  induction l with
  | nil => exact (Blind.pure _).numbers (yields_pure rfl)
  | cons b l ih =>
    rw [List.forall_mem_cons] at h
    rw [List.mapM_cons]
    refine Numbers.bind (fun _ filters => Filter.usesOf filters.tail) h.1 (fun first => ?_)
      fun first => ?_
    · exact (ih h.2).map fun rest => rfl
    · exact (yields_true _).bind fun rest _ => yields_pure rfl

/-- **Filters number their parameters in order**, by induction on how deep groups are nested. -/
theorem numbers_readFilter : Numbers (readFilter q clause depth text) Filter.uses := by
  induction depth generalizing text with
  | zero => exact numbers_readComparison
  | succ depth ih =>
    unfold readFilter
    split
    · exact ih
    · split
      · exact (numbers_mapM fun part _ => ih).map fun filters => rfl
      · exact numbers_readComparison

theorem numbers_readFilters : Numbers (readFilters q clause text) Filter.usesOf :=
  numbers_mapM fun _ _ => numbers_readFilter

end Filters

/-! ## Queries -/

section Queries

variable {catalog : Catalog} {q q' : Query} {s s' : State}

/-- Between clauses the uses of a query carry the numbers drawn so far, and nothing is read yet for the
clauses to come. -/
structure NumberedSoFar (keywords : List String) (q : Query) (s : State) : Prop where
  numbered : q.IsNumbered
  drawn : s.nextParameter = q.uses.length
  filters : "WHERE" ∈ keywords → q.filters = []
  having : "WHERE" ∈ keywords ∨ "HAVING" ∈ keywords → q.having = []

theorem NumberedSoFar.readWhere {keywords : List String} {text : List Char}
    (h : NumberedSoFar ("WHERE" :: keywords) q s) (hnew : "WHERE" ∉ keywords)
    (hrun : (readClause catalog q "WHERE" text).run s = (.ok q', s')) :
    NumberedSoFar keywords q' s' := by
  obtain ⟨filters, hfilters, rfl⟩ := exists_of_readClause_where hrun
  have hempty : q.filters = [] := h.filters List.mem_cons_self
  have hhaving : q.having = [] := h.having (Or.inl List.mem_cons_self)
  obtain ⟨hnumbered, hdrawn⟩ := numbers_readFilters _ _ _ hfilters
  have huses : QueryOf.uses { q with filters := filters } = Filter.usesOf filters := by
    rw [uses_eq, hhaving]
    exact List.append_nil _
  have hstart : s.nextParameter = 0 := by
    rw [h.drawn, uses_eq, hempty, hhaving]
    rfl
  rw [hstart] at hnumbered hdrawn
  refine ⟨?_, ?_, fun hmem => absurd hmem hnew, fun _ => hhaving⟩
  · rw [QueryOf.IsNumbered, huses]
    exact hnumbered
  · rw [huses, hdrawn, Nat.zero_add]

/-- HAVING continues the numbers of WHERE, which is not to come any more. -/
theorem NumberedSoFar.readHaving {keywords : List String} {text : List Char}
    (h : NumberedSoFar ("HAVING" :: keywords) q s) (hnew : "HAVING" ∉ keywords)
    (hlast : "WHERE" ∉ keywords) (hrun : (readClause catalog q "HAVING" text).run s = (.ok q', s')) :
    NumberedSoFar keywords q' s' := by
  obtain ⟨filters, hfilters, rfl⟩ := exists_of_readClause_having hrun
  have hempty : q.having = [] := h.having (Or.inr List.mem_cons_self)
  obtain ⟨hnumbered, hdrawn⟩ := numbers_readFilters _ _ _ hfilters
  have hbefore : q.uses = Filter.usesOf q.filters := by
    rw [uses_eq, hempty]
    exact List.append_nil _
  have huses : QueryOf.uses { q with having := filters } = q.uses ++ Filter.usesOf filters := by
    rw [uses_eq, hbefore]
  rw [h.drawn] at hnumbered hdrawn
  refine ⟨?_, ?_, fun hmem => absurd hmem hlast, fun hmem => absurd hmem (not_or.mpr ⟨hlast, hnew⟩)⟩
  · rw [QueryOf.IsNumbered, huses, numberedFrom_append, Nat.zero_add]
    exact ⟨h.numbered, hnumbered⟩
  · rw [huses, List.length_append, hdrawn]

theorem NumberedSoFar.readOther {keyword : String} {keywords : List String} {text : List Char}
    (h : NumberedSoFar (keyword :: keywords) q s) (hwhere : keyword ≠ "WHERE")
    (hhaving : keyword ≠ "HAVING") (hrun : (readClause catalog q keyword text).run s = (.ok q', s')) :
    NumberedSoFar keywords q' s' := by
  obtain ⟨hfilters, hkept⟩ := filters_of_readClause hwhere hhaving hrun
  have huses : q'.uses = q.uses := by rw [uses_eq, uses_eq, hfilters, hkept]
  refine ⟨?_, ?_, fun hmem => ?_, fun hmem => ?_⟩
  · rw [QueryOf.IsNumbered, huses]
    exact h.numbered
  · rw [(blind_readClause hwhere hhaving text).keeps hrun, huses, h.drawn]
  · rw [hfilters, h.filters (List.mem_cons_of_mem _ hmem)]
  · rw [hkept, h.having (hmem.imp (List.mem_cons_of_mem _) (List.mem_cons_of_mem _))]

/-- **One clause continues the numbers.** -/
theorem NumberedSoFar.readClause {keyword : String} {keywords : List String} {text : List Char}
    (h : NumberedSoFar (keyword :: keywords) q s)
    (horder : (keyword :: keywords).Sublist clauseKeywords)
    (hrun : (readClause catalog q keyword text).run s = (.ok q', s')) :
    NumberedSoFar keywords q' s' := by
  have hnew : keyword ∉ keywords := (List.nodup_cons.mp (horder.nodup (by decide))).1
  by_cases hwhere : keyword = "WHERE"
  · subst hwhere
    exact h.readWhere hnew hrun
  by_cases hhaving : keyword = "HAVING"
  · subst hhaving
    -- WHERE comes before HAVING in the order of clauses, so it is not to come any more.
    refine h.readHaving hnew (fun hmem => ?_) hrun
    have hpair : ["HAVING", "WHERE"].Sublist clauseKeywords :=
      ((List.singleton_sublist.mpr hmem).cons_cons "HAVING").trans horder
    exact absurd hpair (by decide)
  · exact h.readOther hwhere hhaving hrun

theorem numberedSoFar_clauses {clauses : List (String × List Char)}
    (h : NumberedSoFar (clauses.map Prod.fst) q s)
    (horder : (clauses.map Prod.fst).Sublist clauseKeywords)
    (hrun : (clauses.foldlM (fun q (keyword, text) => Grammar.readClause catalog q keyword text) q).run
      s = (.ok q', s')) : NumberedSoFar [] q' s' := by
  induction clauses generalizing q s with
  | nil =>
    cases hrun
    exact h
  | cons clause rest ih =>
    rw [List.foldlM_cons] at hrun
    obtain ⟨middle, next, hclause, hrest⟩ := run_bind_eq_ok hrun
    exact ih (h.readClause horder hclause) ((List.sublist_cons_self _ _).trans horder) hrest

/-- The queries within a from item are numbered in reading order. -/
def NumberedWithin (f : FromItem) : Prop := ∀ inner ∈ f.queries, inner.IsNumbered

section Sources

variable {simple : List Char → Reader FromItem} (hsimple : ∀ token, Yields (simple token) NumberedWithin)

include hsimple

theorem numberedWithin_readFromItem (token : List Char) :
    Yields (readFromItem simple q token) NumberedWithin := by
  unfold readFromItem
  split
  · refine (yields_true _).bind fun _ _ => (hsimple _).bind fun left hleft => ?_
    exact yields_readJoins hsimple (fun _ _ _ => yields_true _) (fun _ _ _ _ hleft hright _ _ =>
      List.forall_mem_append.mpr ⟨hleft, hright⟩) token hleft
  · exact hsimple token

theorem numberedWithin_readFromItems {tokens : List (List Char)}
    (h : ∀ f ∈ q.sources, NumberedWithin f) :
    Yields (readFromItems simple q tokens) fun q' => ∀ f ∈ q'.sources, NumberedWithin f := by
  induction tokens generalizing q with
  | nil => exact yields_pure h
  | cons token rest ih =>
    unfold readFromItems
    refine (numberedWithin_readFromItem hsimple token).bind fun source hsource => ih ?_
    exact List.forall_mem_append.mpr ⟨h, List.forall_mem_singleton.mpr hsource⟩

/-- **A query is numbered in reading order**, and so are the queries within it if those within its from
items are. -/
theorem isNumbered_readWith (hblind : ∀ token, Blind (simple token)) (sql : List Char) :
    Yields (readWith catalog simple sql) fun q => ∀ inner ∈ q.queries, inner.IsNumbered := by
  intro s q s' hrun
  obtain ⟨text, clauses, read, k, last, -, hlocate, hread, hclauses, -⟩ :=
    run_readWith_eq_ok_iff.mp hrun
  -- From items leave the filters and the counter alone: subqueries draw numbers of their own.
  obtain ⟨hfilters, hhaving⟩ := filters_of_readFromItems hread
  have hnone : QueryOf.uses read = [] := by
    rw [uses_eq, hfilters, hhaving]
    rfl
  have hstart : NumberedSoFar (clauses.map Prod.fst) read k := by
    refine ⟨?_, ?_, fun _ => hfilters, fun _ => hhaving⟩
    · rw [QueryOf.IsNumbered, hnone]
      rfl
    · rw [hnone, (blind_readFromItems hblind _).keeps hread]
      rfl
  have hread := numberedWithin_readFromItems hsimple (List.forall_mem_nil _) _ _ _ hread
  have hq := numberedSoFar_clauses hstart (sublist_of_locateClauses hlocate) hclauses
  refine QueryOf.forall_mem_queries hq.numbered ?_
  rw [sources_of_readClauses _ _ _ hclauses]
  exact hread

end Sources

theorem NumberedWithin.withAlias {f : FromItem} (h : NumberedWithin f) (aliasName : String) :
    NumberedWithin (f.withAlias aliasName) := by
  cases f <;> exact h

/-- The queries within a from item, at any depth. -/
theorem numberedWithin_readSimple (depth : Nat) (token : List Char) :
    Yields (readSimple catalog depth token) NumberedWithin :=
  yields_readSimple_of (fun _ _ => List.forall_mem_nil _) (fun _ _ h => h.withAlias _)
    (fun depth _ ih => ⟨isNumbered_readWith ih (blind_readSimple depth) _,
      numberedWithin_readFromItem ih _⟩) depth token

/-- **Every query that is read is numbered in reading order**, and every query within it on its own. -/
theorem isNumbered_of_readQuery {sql : String} (h : (readQuery catalog sql).run s = (.ok q, s')) :
    ∀ inner ∈ q.queries, inner.IsNumbered :=
  isNumbered_readWith (numberedWithin_readSimple _) (blind_readSimple _) _ _ _ _ h

/-- **Parameters in reading order.**  Whatever was read before, the uses of parameters in the filters of
a query that is read carry the numbers from zero on, in order and as many as the query counts, and those
of each query within it likewise; the count of what is read around it stays; and binding as many values
replaces each parameter by the next of them and changes nothing else. -/
theorem parameters_in_reading_order {sql : String} (h : (readQuery catalog sql).run s = (.ok q, s')) :
    (q.uses.map (·.index) = List.range q.parameterCount ∧
      ∀ inner ∈ q.queries, inner.uses.map (·.index) = List.range inner.parameterCount) ∧
    s'.nextParameter = s.nextParameter ∧
    ∀ values : List Value, values.length = q.parameterCount →
      q.withParameters values = .ok (q.inTurn values) := by
  have hindexes {inner : Query} (hinner : inner.IsNumbered) :
      inner.uses.map (·.index) = List.range inner.parameterCount := by
    rw [hinner.parameterCount_eq, List.range_eq_range']
    exact hinner
  have hall := isNumbered_of_readQuery h
  have hown : q.IsNumbered := hall q (mem_queriesOf_self q)
  exact ⟨⟨hindexes hown, fun inner hinner => hindexes (hall inner hinner)⟩,
    (blind_readWith _ _ _).keeps h, fun values hlength => hown.withParameters_eq hlength⟩

/-- Parameters in a subquery, in nested groups and behind GROUP BY. -/
def parametersEverywhere : String :=
  "SELECT x.a FROM (SELECT a FROM t WHERE b = ? OR a = ?) x " ++
    "WHERE (x.a = ? OR (x.a > ? AND x.a IN ?)) AND x.a <> ? GROUP BY x.a HAVING x.a < ?"

/-- They are numbered so with counters that other texts have moved on. -/
theorem parameters_in_reading_order_everywhere : ∃ q s',
    (readQuery pairs parametersEverywhere).run { nextItem := 5, nextParameter := 3 } = (.ok q, s') ∧
    q.uses.map (·.index) = List.range 5 ∧ s'.nextParameter = 3 ∧
    q.withParameters [.text "u", .text "v", .nested (.array []), .null, .text "w"] =
      .ok (q.inTurn [.text "u", .text "v", .nested (.array []), .null, .text "w"]) := by
  have hshown : ((readQuery pairs parametersEverywhere).run
      { nextItem := 5, nextParameter := 3 }).1.toOption.map (·.parameterCount) = some 5 := by
    decide +kernel
  obtain ⟨q, hq, hcount⟩ := Option.map_eq_some_iff.mp hshown
  obtain ⟨s', hrun⟩ := exists_run_of_toOption hq
  obtain ⟨⟨hindexes, -⟩, hnext, hbound⟩ := parameters_in_reading_order hrun
  rw [hcount] at hindexes
  exact ⟨q, s', hrun, hindexes, hnext, hbound _ hcount.symm⟩

end Queries

end DocQuery.Grammar
