import DocQuery.Proofs.Grammar.ReadQueries

/-!
# DocQuery.Proofs.Grammar.Refusals — what a query is refused with

A text that is no query is refused with an error of reading.  One cause is of another kind: a join whose
ON is followed by nothing is made as any join is, and the making of joins fails.  As long as select items
that mean nothing known are not taken for expressions, nothing else comes out of reading
(`onlyRefuses_readQuery`).  Each reader is covered once, and those that call it cite it.
-/

namespace DocQuery

/-- The errors that a text is refused with: those of reading, and joins without conditions. -/
def QueryError.IsRefusal (e : QueryError) : Prop :=
  e.kind = .parse ∨ ∃ left right, e = .joinWithoutConditions left right

namespace Grammar

/-! ## Computations that refuse -/

section Refusals

variable {α β : Type} {x : Except QueryError α} {m : Reader α}

/-- Whatever a result fails with is a refusal. -/
def Refusing (x : Except QueryError α) : Prop := ∀ e, x = .error e → e.IsRefusal

/-- Whatever a reader fails with is a refusal, from all counters. -/
def OnlyRefuses (m : Reader α) : Prop := ∀ s e s', m.run s = (.error e, s') → e.IsRefusal

theorem refusing_ok (a : α) : Refusing (.ok a : Except QueryError α) := fun _ h => by cases h

theorem refusing_error {e : QueryError} (h : e.kind = .parse) :
    Refusing (.error e : Except QueryError α) := by
  rintro _ ⟨⟩
  exact Or.inl h

theorem Refusing.bind {f : α → Except QueryError β} (h : Refusing x) (hf : ∀ a, Refusing (f a)) :
    Refusing (x >>= f) := by
  intro e he
  rcases failed_of_bind_eq_error he with hx | ⟨a, -, ha⟩
  · exact h e hx
  · exact hf a e ha

theorem Refusing.map (h : Refusing x) (f : α → β) : Refusing (x.map f) :=
  fun e he => h e (eq_error_of_map he)

theorem onlyRefuses_pure (a : α) : OnlyRefuses (pure a) := fun _ _ _ h => by cases h

theorem onlyRefuses_throw {e : QueryError} (h : e.kind = .parse) : OnlyRefuses (throw e : Reader α) := by
  rintro s _ s' ⟨⟩
  exact Or.inl h

theorem OnlyRefuses.bind {f : α → Reader β} (h : OnlyRefuses m) (hf : ∀ a, OnlyRefuses (f a)) :
    OnlyRefuses (m >>= f) := by
  intro s e s' hrun
  rcases hm : m.run s with ⟨result, middle⟩
  cases result with
  | error e' =>
    rw [run_bind_error hm] at hrun
    cases hrun
    exact h s e s' hm
  | ok a =>
    rw [run_bind_ok hm] at hrun
    exact hf a middle e s' hrun

theorem Refusing.lift (h : Refusing x) : OnlyRefuses (liftM x : Reader α) := by
  cases x with
  | error e =>
    rintro s _ s' ⟨⟩
    exact h e rfl
  | ok a => exact onlyRefuses_pure a

theorem onlyRefuses_mapM {f : β → Reader α} (h : ∀ b, OnlyRefuses (f b)) (l : List β) :
    OnlyRefuses (l.mapM f) := by
  induction l with
  | nil => exact onlyRefuses_pure []
  | cons b rest ih =>
    rw [List.mapM_cons]
    exact (h b).bind fun a => ih.bind fun results => onlyRefuses_pure (a :: results)

theorem onlyRefuses_foldlM {f : α → β → Reader α} (h : ∀ a b, OnlyRefuses (f a b)) (l : List β)
    (a : α) : OnlyRefuses (l.foldlM f a) := by
  induction l generalizing a with
  | nil => exact onlyRefuses_pure a
  | cons b rest ih =>
    rw [List.foldlM_cons]
    exact (h a b).bind ih

theorem onlyRefuses_make (pending : Pending) : OnlyRefuses (make pending) := fun _ _ _ h => by cases h

theorem onlyRefuses_drawParameter : OnlyRefuses drawParameter := fun _ _ _ h => by cases h

theorem onlyRefuses_makeOffered (offered : List FromItem) : OnlyRefuses (makeOffered offered) :=
  fun _ _ _ h => by cases h

theorem onlyRefuses_makeFound {found : Except QueryError (Option Pending)} {failure : QueryError}
    (hfound : Refusing found) (hfailure : failure.kind = .parse) :
    OnlyRefuses (makeFound found failure) := by
  refine hfound.lift.bind fun result => ?_
  cases result with
  | none => exact onlyRefuses_throw hfailure
  | some pending => exact onlyRefuses_make pending

theorem OnlyRefuses.renumbered (h : OnlyRefuses m) : OnlyRefuses (renumbered m) := by
  intro s e s' hrun
  have hresult : (m.run { s with nextParameter := 0 }).1 = .error e := congrArg Prod.fst hrun
  exact h { s with nextParameter := 0 } e _ (Prod.ext hresult rfl)

end Refusals

/-! ## Names and filters -/

section Readers

variable {q : Query}

theorem refusing_resolveColumn (q : Query) (name : List Char) : Refusing (resolveColumn q name) := by
  unfold resolveColumn
  dsimp only
  split
  · exact refusing_ok _
  · split
    · exact refusing_ok _
    · exact refusing_ok _
    · exact refusing_error rfl

theorem refusing_readParameters (text : List Char) (arguments : List (List Char)) :
    Refusing (readParameters text arguments) := by
  induction arguments with
  | nil => exact refusing_ok []
  | cons argument rest ih =>
    unfold readParameters
    split
    · exact ih.map _
    · exact refusing_error rfl

theorem refusing_resolveFunction (f : Builtin) (arguments text : List Char) :
    Refusing (resolveFunction q f arguments text) := by
  unfold resolveFunction
  dsimp only
  split
  · exact refusing_error rfl
  · refine (refusing_resolveColumn q _).bind fun found => ?_
    split
    · exact refusing_error rfl
    · split
      · exact refusing_error rfl
      · exact (refusing_readParameters _ _).bind fun parameters => refusing_ok _

theorem refusing_resolveItem (q : Query) (text : List Char) : Refusing (resolveItem q text) := by
  unfold resolveItem
  dsimp only
  split
  · split
    · exact refusing_ok _
    · split
      · exact refusing_ok _
      · exact ((refusing_resolveFunction _ _ _).map some).bind fun found => refusing_ok _
  · exact (refusing_resolveColumn q _).bind fun found => refusing_ok _

theorem refusing_resolveReference (q : Query) (text : List Char) :
    Refusing (resolveReference q text) := by
  unfold resolveReference
  split
  · exact refusing_ok _
  · exact refusing_resolveItem q text

theorem refusing_readValues {failure : QueryError} (h : failure.kind = .parse) (type : Option ColumnType)
    (texts : List (List Char)) : Refusing (readValues failure type texts) := by
  induction texts with
  | nil => exact refusing_ok []
  | cons text rest ih =>
    unfold readValues
    split
    · exact ih.map _
    · exact refusing_error h

theorem onlyRefuses_readOperand {failure : QueryError} (h : failure.kind = .parse) (item : Item)
    (op : Comparison) (text : List Char) : OnlyRefuses (readOperand q failure item op text) := by
  unfold readOperand
  dsimp only
  split
  · exact onlyRefuses_drawParameter.bind fun n => onlyRefuses_pure _
  · split
    · split
      · exact (refusing_readValues h _ _).lift.bind fun values => onlyRefuses_pure _
      · exact onlyRefuses_throw h
    · split
      · exact onlyRefuses_pure _
      · refine (onlyRefuses_makeFound (refusing_resolveReference q _) h).bind fun other => ?_
        exact onlyRefuses_pure _

theorem onlyRefuses_readComparison (clause : String) (text : List Char) :
    OnlyRefuses (readComparison q clause text) := by
  unfold readComparison
  dsimp only
  split
  · exact (onlyRefuses_makeFound (refusing_resolveReference q _) rfl).bind fun item => onlyRefuses_pure _
  · split
    · refine (onlyRefuses_makeFound (refusing_resolveReference q _) rfl).bind fun item => ?_
      exact (onlyRefuses_readOperand rfl item _ _).bind fun operand => onlyRefuses_pure _
    · exact onlyRefuses_throw rfl

/-- Filters, by induction on their depth. -/
theorem onlyRefuses_readFilter (clause : String) (depth : Nat) (text : List Char) :
    OnlyRefuses (readFilter q clause depth text) := by
  induction depth generalizing text with
  | zero => exact onlyRefuses_readComparison clause text
  | succ depth ih =>
    unfold readFilter
    split
    · exact ih _
    · split
      · exact (onlyRefuses_mapM ih _).bind fun filters => onlyRefuses_pure _
      · exact onlyRefuses_readComparison clause text

theorem onlyRefuses_readFilters (q : Query) (clause : String) (text : List Char) :
    OnlyRefuses (readFilters q clause text) :=
  onlyRefuses_mapM (onlyRefuses_readFilter clause text.length) _

/-! ## From items -/

theorem refusing_underAlias (source : FromItem) (text token : List Char) :
    Refusing (underAlias source text token) := by
  refine Refusing.map ?_ _
  unfold readAlias
  dsimp only
  split_ifs
  · exact refusing_ok none
  · exact refusing_error rfl
  · exact refusing_ok _

theorem refusing_splitJoinKind (text token : List Char) : Refusing (splitJoinKind text token) := by
  unfold splitJoinKind
  dsimp only
  generalize Text.eqIgnoreCase (splitLastWord (Text.trim text)).2 "OUTER".toList = outer
  generalize (if outer then splitLastWord (splitLastWord (Text.trim text)).1
    else splitLastWord (Text.trim text)) = words
  split
  · split_ifs
    · exact refusing_error rfl
    · exact refusing_ok _
  · exact refusing_ok _
  · split_ifs
    · exact refusing_error rfl
    · exact refusing_error rfl
    · exact refusing_ok _

theorem onlyRefuses_namedTable (t : Option Table) (after token : List Char) (name : String) :
    OnlyRefuses (match t with
      | some t => (liftM (underAlias (.table t none) after token) : Reader FromItem)
      | none => throw (.noSuchTable name)) := by
  split
  · exact (refusing_underAlias _ _ _).lift
  · exact onlyRefuses_throw rfl

/-- The sides of conditions are as many as each other, so a join can only lack conditions. -/
theorem refusing_join? (kind : JoinKind) (left right : FromItem) (conditions : List (Item × Item)) :
    Refusing (FromItem.join? kind left right (conditions.map (·.1)) (conditions.map (·.2))) := by
  intro e he
  unfold FromItem.join? at he
  rw [List.length_map, List.length_map, if_neg (not_not.mpr rfl)] at he
  split_ifs at he
  cases he
  exact Or.inr ⟨left.sql, right.sql, rfl⟩

theorem onlyRefuses_readConditions (left right : FromItem) (text : List Char) :
    OnlyRefuses (readConditions q left right text) := by
  refine onlyRefuses_mapM (fun part => ?_) _
  unfold readCondition
  dsimp only
  split
  · exact onlyRefuses_throw rfl
  · refine (onlyRefuses_makeFound (refusing_resolveColumn _ _) rfl).bind fun first => ?_
    exact (onlyRefuses_makeFound (refusing_resolveColumn _ _) rfl).bind fun second => onlyRefuses_pure _

section Chains

variable {simple : List Char → Reader FromItem} (hsimple : ∀ text, OnlyRefuses (simple text))

include hsimple

/-- Chains of joins, by induction on their parts. -/
theorem onlyRefuses_readJoins (token : List Char) (left : FromItem) (kind : JoinKind)
    (parts : List (List Char)) : OnlyRefuses (readJoins simple q token left kind parts) := by
  induction parts generalizing left kind with
  | nil => exact onlyRefuses_pure left
  | cons part parts ih =>
    have hjoin (rightText conditions : List Char) (next : JoinKind) : OnlyRefuses (do
        let right ← simple rightText
        let conditions ← readConditions q left right (Text.trim conditions)
        let join ← (FromItem.join? kind left right (conditions.map (·.1))
          (conditions.map (·.2)) : Except QueryError FromItem)
        readJoins simple q token join next parts) :=
      (hsimple _).bind fun right => (onlyRefuses_readConditions left right _).bind fun pairs =>
        (refusing_join? kind left right pairs).lift.bind fun join => ih join next
    unfold readJoins
    split
    · refine (onlyRefuses_pure _).bind fun found => ?_
      dsimp only
      split
      · exact onlyRefuses_throw rfl
      · exact hjoin _ _ found.2
    · refine (refusing_splitJoinKind part token).lift.bind fun found => ?_
      dsimp only
      split
      · exact onlyRefuses_throw rfl
      · exact hjoin _ _ found.2

theorem onlyRefuses_readFromItem (token : List Char) : OnlyRefuses (readFromItem simple q token) := by
  unfold readFromItem
  split
  · refine (refusing_splitJoinKind _ _).lift.bind fun found => (hsimple found.1).bind fun left => ?_
    exact onlyRefuses_readJoins hsimple _ left found.2 _
  · exact hsimple token

theorem onlyRefuses_readFromItems (tokens : List (List Char)) :
    OnlyRefuses (readFromItems simple q tokens) := by
  induction tokens generalizing q with
  | nil => exact onlyRefuses_pure q
  | cons token rest ih => exact (onlyRefuses_readFromItem hsimple token).bind fun source => ih

end Chains

/-! ## Queries -/

section Queries

variable {catalog : Catalog} (hcatalog : catalog.expressions = false)

include hcatalog

theorem onlyRefuses_readSelectToken (token : List Char) :
    OnlyRefuses (readSelectToken catalog q token) := by
  unfold readSelectToken
  dsimp only
  split
  · exact onlyRefuses_makeOffered _
  · split
    · split
      · exact onlyRefuses_makeOffered _
      · exact onlyRefuses_throw rfl
    · refine (refusing_resolveItem q _).lift.bind fun result => ?_
      cases result with
      | some pending => exact (onlyRefuses_make pending).bind fun item => onlyRefuses_pure _
      | none =>
        dsimp only
        rw [hcatalog]
        exact onlyRefuses_throw rfl

theorem onlyRefuses_readSelect (text : List Char) : OnlyRefuses (readSelect catalog q text) := by
  unfold readSelect
  dsimp only
  refine (onlyRefuses_mapM (onlyRefuses_readSelectToken hcatalog) _).bind fun items => ?_
  split
  · exact onlyRefuses_throw rfl
  · exact onlyRefuses_pure _

omit hcatalog in
theorem refusing_readCount (clause : String) (text : List Char) : Refusing (readCount clause text) := by
  unfold readCount
  split
  · exact refusing_ok _
  · exact refusing_error rfl

/-- Every clause, one case per keyword. -/
theorem onlyRefuses_readClause (keyword : String) (text : List Char) :
    OnlyRefuses (readClause catalog q keyword text) := by
  have hreference (clause : String) (name token : List Char) :
      OnlyRefuses (makeFound (resolveReference q name) (.unparsable clause (String.ofList token))) :=
    onlyRefuses_makeFound (refusing_resolveReference q name) rfl
  unfold readClause
  split
  · exact onlyRefuses_readSelect hcatalog text
  · exact (onlyRefuses_readFilters q _ text).bind fun filters => onlyRefuses_pure _
  · exact (onlyRefuses_mapM (fun token => hreference _ token token) _).bind
      fun items => onlyRefuses_pure _
  · exact (onlyRefuses_readFilters q _ text).bind fun filters => onlyRefuses_pure _
  · refine (onlyRefuses_mapM (fun token => ?_) _).bind fun items => onlyRefuses_pure _
    exact (hreference _ _ token).bind fun item => onlyRefuses_pure _
  · exact (refusing_readCount _ text).lift.bind fun n => onlyRefuses_pure _
  · refine Refusing.lift ?_ |>.bind fun n => onlyRefuses_pure _
    refine (refusing_readCount _ text).bind fun n => ?_
    split_ifs
    · exact refusing_ok _
    · exact refusing_error rfl
  · exact onlyRefuses_pure q

omit hcatalog in
theorem refusing_checkClauses (sql : List Char) (clauses : List (String × List Char)) :
    Refusing (checkClauses sql clauses) := by
  induction clauses with
  | nil => exact refusing_ok []
  | cons clause rest ih =>
    unfold checkClauses
    dsimp only
    split_ifs
    · exact refusing_error rfl
    · exact ih.map _

omit hcatalog in
theorem refusing_locateClauses (sql : List Char) : Refusing (locateClauses sql) := by
  unfold locateClauses
  split
  · exact refusing_error rfl
  · dsimp only
    split_ifs
    · exact refusing_error rfl
    · exact refusing_checkClauses _ _
    · exact refusing_error rfl

omit hcatalog in
theorem refusing_normalize (text : List Char) : Refusing (normalize text) := by
  unfold normalize
  dsimp only
  split_ifs
  · exact refusing_error rfl
  · exact refusing_error rfl
  · exact refusing_ok _

theorem onlyRefuses_readWith {simple : List Char → Reader FromItem}
    (hsimple : ∀ text, OnlyRefuses (simple text)) (sql : List Char) :
    OnlyRefuses (readWith catalog simple sql) := by
  refine (refusing_normalize sql).lift.bind fun text => OnlyRefuses.renumbered ?_
  refine (refusing_locateClauses text).lift.bind fun clauses => ?_
  refine (onlyRefuses_readFromItems hsimple _).bind fun q => ?_
  exact onlyRefuses_foldlM (fun q clause => onlyRefuses_readClause hcatalog clause.1 clause.2) clauses q

/-- From items without joins, by induction on the depth of parentheses, since a subquery is a query. -/
theorem onlyRefuses_readSimple (depth : Nat) (text : List Char) :
    OnlyRefuses (readSimple catalog depth text) := by
  induction depth generalizing text with
  | zero =>
    unfold readSimple
    dsimp only
    split
    · exact onlyRefuses_throw rfl
    · split
      · exact onlyRefuses_throw rfl
      · exact onlyRefuses_namedTable _ _ _ _
  | succ depth ih =>
    rw [readSimple.eq_def]
    dsimp only
    split
    · cases parenthesized? (Text.trim text) with
      | none => exact onlyRefuses_throw rfl
      | some found =>
        dsimp only
        split
        · exact (onlyRefuses_readWith hcatalog ih _).bind fun q => (refusing_underAlias _ _ _).lift
        · exact (onlyRefuses_readFromItem ih _).bind fun source => (refusing_underAlias _ _ _).lift
    · split
      · exact onlyRefuses_throw rfl
      · exact onlyRefuses_namedTable _ _ _ _

/-- **A text that is not read is refused**: with an error of reading, or for a join without conditions. -/
theorem onlyRefuses_readQuery (sql : String) : OnlyRefuses (readQuery catalog sql) :=
  onlyRefuses_readWith hcatalog (onlyRefuses_readSimple hcatalog _) _

end Queries

end Readers

end Grammar

end DocQuery
