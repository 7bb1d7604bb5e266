import DocQuery.Proofs.Grammar.FilledFilters
import DocQuery.Proofs.Grammar.ReadQueries

/-!
# DocQuery.Proofs.Grammar.FilledQueries — queries of filled texts

A query is read from a filled text as it is read from the text, with the literals in the place of its
parameters, if every placeholder is the whole right side of a comparison of the query itself
(`readQuery_fill`).  The filters of the two clauses that have them come from filled clauses; all other
clauses stand in both texts, since every placeholder is accounted for.
-/

namespace DocQuery.Grammar

variable {α β : Type} {catalog : Catalog} {q q' : Query} {s s' : State}

/-! ## Nesting -/

/-- Whatever one reader reads, another one reads in the same way. -/
def ReadsAlso (r r' : Reader α) : Prop := ∀ s a s', r.run s = (.ok a, s') → r'.run s = (.ok a, s')

namespace ReadsAlso

variable {r r' : Reader α}

theorem refl (r : Reader α) : ReadsAlso r r := fun _ _ _ h => h

theorem throw (e : QueryError) (r : Reader α) : ReadsAlso (throw e) r := fun _ _ _ h => by cases h

theorem bind {f f' : α → Reader β} (h : ReadsAlso r r') (hf : ∀ a, ReadsAlso (f a) (f' a)) :
    ReadsAlso (r >>= f) (r' >>= f') := by
  intro s b s' hrun
  obtain ⟨a, middle, ha, hb⟩ := run_bind_eq_ok hrun
  rw [run_bind_ok (h s a middle ha)]
  exact hf a middle b s' hb

theorem renumbered (h : ReadsAlso r r') : ReadsAlso (renumbered r) (Grammar.renumbered r') := by
  intro s a s' hrun
  obtain ⟨last, hinner, rfl⟩ := run_renumbered_eq_ok_iff.mp hrun
  exact run_renumbered_eq_ok_iff.mpr ⟨last, h _ _ _ hinner, rfl⟩

end ReadsAlso

section Nesting

variable {simple simple' : List Char → Reader FromItem}
  (hsimple : ∀ token, ReadsAlso (simple token) (simple' token))

include hsimple

theorem readsAlso_readJoins (token : List Char) (parts : List (List Char)) (left : FromItem)
    (kind : JoinKind) :
    ReadsAlso (readJoins simple q token left kind parts) (readJoins simple' q token left kind parts) := by
  induction parts generalizing left kind with
  | nil => exact ReadsAlso.refl _
  | cons part parts ih =>
    have hjoin (rightText conditions : List Char) (next : JoinKind) : ReadsAlso (do
        let right ← simple rightText
        let conditions ← readConditions q left right (Text.trim conditions)
        let join ← (FromItem.join? kind left right (conditions.map (·.1))
          (conditions.map (·.2)) : Except QueryError FromItem)
        readJoins simple q token join next parts) (do
        let right ← simple' rightText
        let conditions ← readConditions q left right (Text.trim conditions)
        let join ← (FromItem.join? kind left right (conditions.map (·.1))
          (conditions.map (·.2)) : Except QueryError FromItem)
        readJoins simple' q token join next parts) :=
      (hsimple _).bind fun right => (ReadsAlso.refl _).bind fun pairs =>
        (ReadsAlso.refl _).bind fun join => ih join next
    unfold readJoins
    split
    · refine (ReadsAlso.refl _).bind fun last => ?_
      dsimp only
      split
      · exact ReadsAlso.throw _ _
      · exact hjoin _ _ last.2
    · refine (ReadsAlso.refl _).bind fun last => ?_
      dsimp only
      split
      · exact ReadsAlso.throw _ _
      · exact hjoin _ _ last.2

theorem readsAlso_readFromItem (token : List Char) :
    ReadsAlso (readFromItem simple q token) (readFromItem simple' q token) := by
  unfold readFromItem
  split
  · refine (ReadsAlso.refl _).bind fun first => (hsimple _).bind fun left => ?_
    exact readsAlso_readJoins hsimple token _ left _
  · exact hsimple token

theorem readsAlso_readFromItems (tokens : List (List Char)) :
    ReadsAlso (readFromItems simple q tokens) (readFromItems simple' q tokens) := by
  induction tokens generalizing q with
  | nil => exact ReadsAlso.refl _
  | cons token rest ih =>
    unfold readFromItems
    exact (readsAlso_readFromItem hsimple token).bind fun source => ih

theorem readsAlso_readWith (sql : List Char) :
    ReadsAlso (readWith catalog simple sql) (readWith catalog simple' sql) := by
  refine (ReadsAlso.refl _).bind fun sql => ReadsAlso.renumbered ?_
  refine (ReadsAlso.refl _).bind fun clauses => ?_
  exact (readsAlso_readFromItems hsimple _).bind fun q => ReadsAlso.refl _

end Nesting

/-- **A higher bound on the nesting reads no less.** -/
theorem readsAlso_readSimple (depth : Nat) (token : List Char) :
    ReadsAlso (readSimple catalog depth token) (readSimple catalog (depth + 1) token) := by
  induction depth generalizing token with
  | zero =>
    unfold readSimple
    dsimp only
    split
    · exact ReadsAlso.throw _ _
    · exact ReadsAlso.refl _
  | succ depth ih =>
    unfold readSimple
    dsimp only
    split
    · cases parenthesized? (Text.trim token) with
      | none => exact ReadsAlso.throw _ _
      | some found =>
        dsimp only
        split
        · exact (readsAlso_readWith ih _).bind fun q => ReadsAlso.refl _
        · exact (readsAlso_readFromItem ih _).bind fun source => ReadsAlso.refl _
    · exact ReadsAlso.refl _

theorem readsAlso_readSimple_le {n m : Nat} (h : n ≤ m) (token : List Char) :
    ReadsAlso (readSimple catalog n token) (readSimple catalog m token) := by
  induction h with
  | refl => exact ReadsAlso.refl _
  | step _ ih => exact fun s a s' hrun => readsAlso_readSimple _ token _ _ _ (ih s a s' hrun)

/-! ## Filters that names do not see -/

/-- What names mean does not depend on the filters of a query. -/
theorem readComparison_withFilters (q : Query) (filters having : List Filter) :
    readComparison (q.withFilters filters having) = readComparison q := rfl

theorem readFilter_withFilters (q : Query) (filters having : List Filter) (clause : String)
    (depth : Nat) : readFilter (q.withFilters filters having) clause depth = readFilter q clause depth := by
  induction depth with
  | zero => rfl
  | succ depth ih =>
    funext text
    rw [readFilter, readFilter, ih, readComparison_withFilters]

theorem readFilters_withFilters (q : Query) (filters having : List Filter) (clause : String)
    (text : List Char) :
    readFilters (q.withFilters filters having) clause text = readFilters q clause text := by
  rw [readFilters, readFilters, readFilter_withFilters]

/-- A clause without filters is read alike over queries that differ in their filters. -/
theorem readClause_withFilters {keyword : String} (hwhere : keyword ≠ "WHERE")
    (hhaving : keyword ≠ "HAVING") (q : Query) (filters having : List Filter) (text : List Char) :
    readClause catalog (q.withFilters filters having) keyword text =
      (fun q' => q'.withFilters filters having) <$> readClause catalog q keyword text := by
  unfold readClause
  split
  · unfold readSelect
    simp only [map_bind]
    congr 1
    funext items
    split <;> rfl
  · exact absurd rfl hwhere
  · unfold readGroupBy
    simp only [map_bind]
    rfl
  · exact absurd rfl hhaving
  · unfold readOrderBy
    simp only [map_bind]
    rfl
  · simp only [map_bind]
    rfl
  · simp only [map_bind]
    rfl
  · rfl

/-- A clause without filters leaves the filters of a query as they are. -/
theorem filters_of_readClause {keyword : String} {text : List Char} (hwhere : keyword ≠ "WHERE")
    (hhaving : keyword ≠ "HAVING") (h : (readClause catalog q keyword text).run s = (.ok q', s')) :
    q'.filters = q.filters ∧ q'.having = q.having := by
  have hmap : readClause catalog q keyword text =
      (fun q' => q'.withFilters q.filters q.having) <$> readClause catalog q keyword text :=
    readClause_withFilters hwhere hhaving q q.filters q.having text
  have hagain := h
  rw [hmap, run_map, h] at hagain
  rw [← Except.ok.inj (Prod.mk.inj hagain).1]
  exact ⟨rfl, rfl⟩

theorem filters_of_readFromItems {simple : List Char → Reader FromItem} {tokens : List (List Char)}
    (h : (readFromItems simple q tokens).run s = (.ok q', s')) :
    q'.filters = q.filters ∧ q'.having = q.having := by
  induction tokens generalizing q s with
  | nil =>
    cases h
    exact ⟨rfl, rfl⟩
  | cons token rest ih =>
    unfold readFromItems at h
    obtain ⟨source, middle, -, hrest⟩ := run_bind_eq_ok h
    have hkept := ih hrest
    exact hkept

/-! ## Clauses -/

section Clauses

variable {keyword : String} {text filled : List Char} {values placed : List Value}
  {clauses clauses' : List (String × List Char)}

theorem parameterCount_le {q : Query} {n : Nat} : q.parameterCount ≤ n ↔
    Filter.parameterCountOf q.filters ≤ n ∧ Filter.parameterCountOf q.having ≤ n := by
  rw [QueryOf.parameterCount, Filter.parameterCountOf_append, Nat.max_le]

theorem uses_eq (q : Query) : q.uses = Filter.usesOf q.filters ++ Filter.usesOf q.having :=
  Filter.usesOf_append _ _

theorem Answered.mono {uses uses' : List ParameterUse} (h : Answered values placed s s' uses)
    (hsub : uses' ⊆ uses) : Answered values placed s s' uses' :=
  ⟨h.all, h.values, fun u hu => h.scalar u (hsub hu)⟩

theorem readClause_where (q : Query) (text : List Char) : readClause catalog q "WHERE" text =
    (readFilters q "WHERE" text >>= fun filters => pure { q with filters := filters }) := rfl

theorem readClause_having (q : Query) (text : List Char) : readClause catalog q "HAVING" text =
    (readFilters q "HAVING" text >>= fun filters => pure { q with having := filters }) := rfl

theorem exists_of_readClause_where (h : (readClause catalog q "WHERE" text).run s = (.ok q', s')) :
    ∃ filters, (readFilters q "WHERE" text).run s = (.ok filters, s') ∧
      q' = { q with filters := filters } := by
  rw [readClause_where] at h
  obtain ⟨filters, last, hfilters, h⟩ := run_bind_eq_ok h
  cases h
  exact ⟨filters, hfilters, rfl⟩

theorem exists_of_readClause_having (h : (readClause catalog q "HAVING" text).run s = (.ok q', s')) :
    ∃ filters, (readFilters q "HAVING" text).run s = (.ok filters, s') ∧
      q' = { q with having := filters } := by
  rw [readClause_having] at h
  obtain ⟨filters, last, hfilters, h⟩ := run_bind_eq_ok h
  cases h
  exact ⟨filters, hfilters, rfl⟩

/-- What reading a filled clause has to do with reading the clause. -/
structure ReadsClause (catalog : Catalog) (values placed : List Value) (keyword : String)
    (filled : List Char) (q q' : Query) (s s' : State) : Prop where
  draws : Draws placed s s' q'.parameterCount
  uses : q.uses ⊆ q'.uses
  /-- Where nothing is read for a keyword, nothing is placed. -/
  source : Answered values placed s s' q'.uses → keyword = "FROM" → placed = []
  read : Answered values placed s s' q'.uses → ∀ n,
    (readClause catalog (q.withLiterals values) keyword filled).run { s with nextParameter := n } =
      (.ok (q'.withLiterals values), { s' with nextParameter := n })

/-- **WHERE and HAVING** give filters with the literals in the place of their parameters. -/
theorem readsClause_where (h : Fills {} none text filled placed) (hfresh : q.filters = [])
    (hcount : q.parameterCount ≤ s.nextParameter)
    (hrun : (readClause catalog q "WHERE" text).run s = (.ok q', s')) :
    ReadsClause catalog values placed "WHERE" filled q q' s s' := by
  obtain ⟨filters, hfilters, rfl⟩ := exists_of_readClause_where hrun
  have hfilled : ReadsFilledFilters values placed (readFilters q "WHERE" text)
      (readFilters q "WHERE" filled) := readsFilled_filters h
  obtain ⟨hdraws, hread⟩ := hfilled s filters s' hfilters
  have hhaving := (parameterCount_le.mp hcount).2
  refine ⟨⟨hdraws.grows, hdraws.bounded, parameterCount_le.mpr ⟨hdraws.counted, ?_⟩⟩, ?_, ?_, ?_⟩
  · exact Nat.le_trans hhaving hdraws.grows
  · rw [uses_eq, hfresh]
    exact fun u hu => by
      rw [uses_eq]
      exact List.mem_append_right _ hu
  · exact fun _ hsource => absurd hsource (by decide)
  · intro hanswered n
    have hsub : Filter.usesOf filters ⊆ QueryOf.uses { q with filters := filters } := fun u hu => by
      rw [uses_eq]
      exact List.mem_append_left _ hu
    rw [readClause_where, QueryOf.withLiterals, readFilters_withFilters, run_bind_ok (hread (hanswered.mono hsub) n)]
    rfl

theorem readsClause_having (h : Fills {} none text filled placed) (hfresh : q.having = [])
    (hcount : q.parameterCount ≤ s.nextParameter)
    (hrun : (readClause catalog q "HAVING" text).run s = (.ok q', s')) :
    ReadsClause catalog values placed "HAVING" filled q q' s s' := by
  obtain ⟨filters, hfilters, rfl⟩ := exists_of_readClause_having hrun
  have hfilled : ReadsFilledFilters values placed (readFilters q "HAVING" text)
      (readFilters q "HAVING" filled) := readsFilled_filters h
  obtain ⟨hdraws, hread⟩ := hfilled s filters s' hfilters
  have hwhere := (parameterCount_le.mp hcount).1
  refine ⟨⟨hdraws.grows, hdraws.bounded, parameterCount_le.mpr ⟨?_, hdraws.counted⟩⟩, ?_, ?_, ?_⟩
  · exact Nat.le_trans hwhere hdraws.grows
  · rw [uses_eq, hfresh]
    exact fun u hu => by
      rw [uses_eq]
      exact List.mem_append_left _ (by simpa [Filter.usesOf] using hu)
  · exact fun _ hsource => absurd hsource (by decide)
  · intro hanswered n
    have hsub : Filter.usesOf filters ⊆ QueryOf.uses { q with having := filters } := fun u hu => by
      rw [uses_eq]
      exact List.mem_append_right _ hu
    rw [readClause_having, QueryOf.withLiterals, readFilters_withFilters, run_bind_ok (hread (hanswered.mono hsub) n)]
    rfl

/-- **Every other clause** draws no parameter, so that it has no placeholder either. -/
theorem readsClause_other (hwhere : keyword ≠ "WHERE") (hhaving : keyword ≠ "HAVING")
    (h : Fills {} none text filled placed) (hcount : q.parameterCount ≤ s.nextParameter)
    (hrun : (readClause catalog q keyword text).run s = (.ok q', s')) :
    ReadsClause catalog values placed keyword filled q q' s s' := by
  have hblind : Blind (readClause catalog q keyword text) := blind_readClause hwhere hhaving text
  have hkeeps := hblind.keeps hrun
  obtain ⟨hfilters, hhaving'⟩ := filters_of_readClause hwhere hhaving hrun
  have hnone (hanswered : Answered values placed s s' q'.uses) : placed = [] := by
    have hall := hanswered.all
    exact List.length_eq_zero_iff.mp (by omega)
  refine ⟨⟨Nat.le_of_eq hkeeps.symm, by omega, ?_⟩, ?_, fun hanswered _ => hnone hanswered, ?_⟩
  · rw [parameterCount_le, hfilters, hhaving', ← parameterCount_le, hkeeps]
    exact hcount
  · rw [uses_eq, uses_eq, hfilters, hhaving']
    exact List.Subset.refl _
  · intro hanswered n
    obtain rfl := hnone hanswered
    rw [h.eq_of_nil, QueryOf.withLiterals, readClause_withFilters hwhere hhaving, run_map,
      hblind.run_eq hrun n, ← hfilters, ← hhaving']
    rfl

theorem readsClause (h : Fills {} none text filled placed)
    (hfilters : keyword = "WHERE" → q.filters = []) (hhaving : keyword = "HAVING" → q.having = [])
    (hcount : q.parameterCount ≤ s.nextParameter)
    (hrun : (readClause catalog q keyword text).run s = (.ok q', s')) :
    ReadsClause catalog values placed keyword filled q q' s s' := by
  by_cases hw : keyword = "WHERE"
  · subst hw
    exact readsClause_where h (hfilters rfl) hcount hrun
  · by_cases hh : keyword = "HAVING"
    · subst hh
      exact readsClause_having h (hhaving rfl) hcount hrun
    · exact readsClause_other hw hh h hcount hrun

/-- A clause leaves the filters of all others as they are. -/
theorem filters_of_otherClause (h : (readClause catalog q keyword text).run s = (.ok q', s')) :
    (keyword ≠ "WHERE" → q'.filters = q.filters) ∧ (keyword ≠ "HAVING" → q'.having = q.having) := by
  by_cases hw : keyword = "WHERE"
  · subst hw
    obtain ⟨filters, -, rfl⟩ := exists_of_readClause_where h
    exact ⟨fun hne => absurd rfl hne, fun _ => rfl⟩
  · by_cases hh : keyword = "HAVING"
    · subst hh
      obtain ⟨filters, -, rfl⟩ := exists_of_readClause_having h
      exact ⟨fun _ => rfl, fun hne => absurd rfl hne⟩
    · obtain ⟨hfilters, hhaving⟩ := filters_of_readClause hw hh h
      exact ⟨fun _ => hfilters, fun _ => hhaving⟩

/-- **The clauses of a filled query**, each of them under a keyword of its own, make the query with
the literals in the place of its parameters. -/
theorem readsFilled_clauses (h : ClausesFill clauses clauses' placed)
    (hnodup : (clauses.map Prod.fst).Nodup) (hfilters : "WHERE" ∈ clauses.map Prod.fst → q.filters = [])
    (hhaving : "HAVING" ∈ clauses.map Prod.fst → q.having = [])
    (hcount : q.parameterCount ≤ s.nextParameter)
    (hrun : (clauses.foldlM (fun q (keyword, text) => readClause catalog q keyword text) q).run s =
      (.ok q', s')) :
    Draws placed s s' q'.parameterCount ∧ q.uses ⊆ q'.uses ∧
      (Answered values placed s s' q'.uses → clauses'.lookup "FROM" = clauses.lookup "FROM" ∧ ∀ n,
        (clauses'.foldlM (fun q (keyword, text) => readClause catalog q keyword text)
          (q.withLiterals values)).run { s with nextParameter := n } =
            (.ok (q'.withLiterals values), { s' with nextParameter := n })) := by
  induction h generalizing q s with
  | nil =>
    cases hrun
    exact ⟨⟨Nat.le_refl _, Nat.le_add_right _ _, hcount⟩, List.Subset.refl _, fun _ => ⟨rfl, fun n => rfl⟩⟩
  | @cons keyword text filled clauses clauses' left right first rest ih =>
    rw [List.foldlM_cons] at hrun
    obtain ⟨middle, t, hclause, hrun⟩ := run_bind_eq_ok hrun
    rw [List.map_cons, List.nodup_cons] at hnodup
    rw [List.map_cons] at hfilters hhaving
    have hfirst : ReadsClause catalog values left keyword filled q middle s t := readsClause first
      (fun heq => hfilters (heq ▸ List.mem_cons_self)) (fun heq => hhaving (heq ▸ List.mem_cons_self))
      hcount hclause
    obtain ⟨hkeepsWhere, hkeepsHaving⟩ := filters_of_otherClause hclause
    have hlaterWhere (hmem : "WHERE" ∈ clauses.map Prod.fst) : middle.filters = [] := by
      rw [hkeepsWhere (fun heq => hnodup.1 (by rwa [← heq] at hmem))]
      exact hfilters (List.mem_cons_of_mem _ hmem)
    have hlaterHaving (hmem : "HAVING" ∈ clauses.map Prod.fst) : middle.having = [] := by
      rw [hkeepsHaving (fun heq => hnodup.1 (by rwa [← heq] at hmem))]
      exact hhaving (List.mem_cons_of_mem _ hmem)
    obtain ⟨hdraws, huses, hread⟩ := ih hnodup.2 hlaterWhere hlaterHaving hfirst.draws.counted hrun
    refine ⟨hfirst.draws.append hdraws hdraws.counted, List.Subset.trans hfirst.uses huses,
      fun hanswered => ?_⟩
    obtain ⟨hhere, hothers⟩ := hanswered.shares hfirst.draws hdraws huses (List.Subset.refl _)
    obtain ⟨hsource, hlater⟩ := hread hothers
    refine ⟨?_, fun n => ?_⟩
    · rw [List.lookup_cons, List.lookup_cons]
      by_cases hfrom : keyword = "FROM"
      · obtain rfl := hfirst.source hhere hfrom
        rw [first.eq_of_nil, hsource]
      · rw [hsource]
        have hne : ("FROM" == keyword) = false := by
          rw [beq_eq_false_iff_ne]
          exact Ne.symm hfrom
        rw [hne]
    · rw [List.foldlM_cons, run_bind_ok (hfirst.read hhere n)]
      exact hlater n

end Clauses

/-! ## Queries -/

theorem keywords_of_clausesAfter (current : String) (text : List Char) (keywords : List String) :
    ((clausesAfter current text keywords).map Prod.fst).Sublist (current :: keywords) := by
  induction keywords generalizing current text with
  | nil => exact List.Sublist.refl _
  | cons keyword keywords ih =>
    unfold clausesAfter
    split
    · exact (ih keyword _).cons_cons current
    · exact (ih current text).trans ((List.sublist_cons_self keyword keywords).cons_cons current)

/-- The clauses of a query are in order. -/
theorem sublist_of_locateClauses {sql : List Char} {clauses : List (String × List Char)}
    (h : locateClauses sql = .ok clauses) : (clauses.map Prod.fst).Sublist clauseKeywords := by
  obtain ⟨rest, -, -, hchecked⟩ := locateClauses_eq_ok_iff.mp h
  obtain ⟨-, rfl⟩ := checkClauses_eq_ok_iff.mp hchecked
  rw [List.map_map]
  exact keywords_of_clausesAfter "SELECT" rest (clauseKeywords.drop 1)

/-- No keyword has two clauses. -/
theorem nodup_of_locateClauses {sql : List Char} {clauses : List (String × List Char)}
    (h : locateClauses sql = .ok clauses) : (clauses.map Prod.fst).Nodup :=
  (sublist_of_locateClauses h).nodup (by decide)

theorem length_le_of_fills {s : Scanner} {before : Option Char} {text filled : List Char}
    {values : List Value} (h : Fills s before text filled values) : text.length ≤ filled.length := by
  induction h with
  | nil => exact Nat.le_refl _
  | char hc rest ih => exact Nat.succ_le_succ ih
  | literal hs hbefore hends hv rest ih =>
    have hpos := List.length_pos_iff.mpr (literal_ne_nil hv)
    rw [List.length_cons, List.length_append]
    omega

theorem withLiterals_of_no_filters {read : Query} (values : List Value) (hfilters : read.filters = [])
    (hhaving : read.having = []) : read.withLiterals values = read := by
  have hfilters' : Filter.allWithLiterals values read.filters = read.filters := by
    rw [hfilters]
    rfl
  have hhaving' : Filter.allWithLiterals values read.having = read.having := by
    rw [hhaving]
    rfl
  rw [QueryOf.withLiterals, hfilters', hhaving']
  rfl

/-- **A query is read from a filled text as it is read from the text**, with the literals in the place
of its parameters, if the query has a parameter for every placeholder and compares none of them by
membership.  The identities that its items get are the same. -/
theorem readQuery_fill {sql : String} {values : List Value} {last : State}
    (hrun : (readQuery catalog sql).run {} = (.ok q, last)) (hapart : standApart sql = true)
    (hplaceholders : placeholders sql = values.length) (hcount : q.parameterCount = values.length)
    (hplain : ∀ v ∈ values, v.IsPlain) (hscalar : ∀ u ∈ q.uses, u.op.isList = false) : ∃ last',
    (readQuery catalog (fill sql values)).run {} = (.ok (q.withLiterals values), last') ∧
      last'.nextItem = last.nextItem := by
  have hfills : Fills {} none sql.toList (fill sql values).toList values := by
    rw [fill, String.toList_ofList]
    exact fills_fillFrom hapart hplaceholders hplain
  obtain ⟨text, clauses, read, k, inner, hnormal, hlocated, hread, hclauses, rfl⟩ :=
    run_readWith_eq_ok_iff.mp hrun
  obtain ⟨text', hnormal', htext⟩ := hfills.normalize hnormal
  obtain ⟨clauses', hlocated', hclausesFill⟩ := htext.locateClauses hlocated
  have hk : k.nextParameter = 0 :=
    (blind_readFromItems (fun token => blind_readSimple _ token) _).keeps hread
  obtain ⟨hfilters, hhaving⟩ := filters_of_readFromItems hread
  obtain ⟨hdraws, -, hfilled⟩ := readsFilled_clauses hclausesFill
    (nodup_of_locateClauses hlocated) (fun _ => hfilters) (fun _ => hhaving)
    (parameterCount_le.mpr ⟨by rw [hfilters]; exact Nat.zero_le _, by rw [hhaving]; exact Nat.zero_le _⟩)
    hclauses
  -- The query has as many parameters as there are placeholders, so each of them was drawn.
  have hanswered : Answered values values k inner q.uses := by
    have hcounted := hdraws.counted
    have hbounded := hdraws.bounded
    refine ⟨by omega, ?_, hscalar⟩
    rw [hk]
    exact List.prefix_refl values
  obtain ⟨hsource, hquery⟩ := hfilled hanswered
  have hread' : (readFromItems (readSimple catalog (fill sql values).toList.length) {}
      (splitOn [','] ((clauses'.lookup "FROM").getD []))).run {} = (.ok read, k) := by
    rw [hsource]
    exact readsAlso_readFromItems
      (fun token => readsAlso_readSimple_le (length_le_of_fills hfills) token) _ _ _ _ hread
  have hclauses' := hquery k.nextParameter
  rw [withLiterals_of_no_filters values hfilters hhaving] at hclauses'
  exact ⟨_, run_readWith_eq_ok_iff.mpr
    ⟨text', clauses', read, k, _, hnormal', hlocated', hread', hclauses', rfl⟩, rfl⟩

end DocQuery.Grammar
