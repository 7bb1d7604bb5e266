import DocQuery.Grammar.Statement
import DocQuery.Proofs.Grammar.Reader

/-!
# DocQuery.Proofs.Grammar.Numbering — what is read without regard to parameters

Parameters are numbered where the operands of comparisons are read, and nowhere else does reading look
at the numbers.  A reader that does not look at them (`Blind`) gives the same result from every number
and hands the number on.  Select lists, from items at any depth, items to group and to order by and
counts of rows are read so.
-/

namespace DocQuery.Grammar

variable {α β : Type}

/-- A reader that neither looks at the number of the next parameter nor changes it. -/
def Blind (r : Reader α) : Prop := ∀ (s : State) (n : Nat),
  r.run { s with nextParameter := n } = ((r.run s).1, { (r.run s).2 with nextParameter := n })

namespace Blind

variable {r : Reader α} {s s' : State} {result : Except QueryError α}

theorem run_eq (h : Blind r) (hrun : r.run s = (result, s')) (n : Nat) :
    r.run { s with nextParameter := n } = (result, { s' with nextParameter := n }) := by
  rw [h s n, hrun]

theorem keeps (h : Blind r) (hrun : r.run s = (result, s')) : s'.nextParameter = s.nextParameter := by
  have hsame := h.run_eq hrun s.nextParameter
  rw [show r.run { s with nextParameter := s.nextParameter } = (result, s') from hrun] at hsame
  rw [(Prod.mk.inj hsame).2]

theorem pure (a : α) : Blind (Pure.pure a : Reader α) := fun _ _ => rfl

theorem throw (e : QueryError) : Blind (throw e : Reader α) := fun _ _ => rfl

theorem lift (x : Except QueryError α) : Blind (liftM x : Reader α) := fun s n => by
  cases x <;> rfl

theorem bind {f : α → Reader β} (h : Blind r) (hf : ∀ a, Blind (f a)) : Blind (r >>= f) := by
  intro s n
  rcases hrun : r.run s with ⟨result, middle⟩
  have hagain := h.run_eq hrun n
  cases result with
  | error e => rw [run_bind_error hrun, run_bind_error hagain]
  | ok a => rw [run_bind_ok hrun, run_bind_ok hagain, hf a middle n]

theorem mapM {f : β → Reader α} {l : List β} (h : ∀ b ∈ l, Blind (f b)) : Blind (l.mapM f) := by
  induction l with
  | nil => exact Blind.pure []
  | cons b l ih =>
    rw [List.mapM_cons]
    refine (h b List.mem_cons_self).bind fun a => ?_
    exact (ih fun c hc => h c (List.mem_cons_of_mem _ hc)).bind fun rest => Blind.pure _

end Blind

theorem blind_make (pending : Pending) : Blind (make pending) := fun _ _ => rfl

theorem blind_makeFound (found : Except QueryError (Option Pending)) (failure : QueryError) :
    Blind (makeFound found failure) := by
  refine (Blind.lift found).bind fun pending? => ?_
  cases pending? with
  | some pending => exact blind_make pending
  | none => exact Blind.throw failure

theorem blind_makeOffered (sources : List FromItem) : Blind (makeOffered sources) := fun _ _ => rfl

/-- What numbers its own parameters does not look at the numbers around it. -/
theorem blind_renumbered (r : Reader α) : Blind (renumbered r) := fun _ _ => rfl

/-! ## From items -/

section Sources

variable {simple : List Char → Reader FromItem} {catalog : Catalog} {q : Query}

theorem blind_readConditions (q : Query) (left right : FromItem) (text : List Char) :
    Blind (readConditions q left right text) := by
  unfold readConditions
  refine Blind.mapM fun part _ => ?_
  unfold readCondition
  dsimp only
  split
  · exact Blind.throw _
  · refine (blind_makeFound _ _).bind fun first => (blind_makeFound _ _).bind fun second => ?_
    exact Blind.pure _

theorem blind_readJoins (hsimple : ∀ token, Blind (simple token)) (token : List Char)
    (parts : List (List Char)) (left : FromItem) (kind : JoinKind) :
    Blind (readJoins simple q token left kind parts) := by
  induction parts generalizing left kind with
  | nil => exact Blind.pure left
  | cons part parts ih =>
    have hjoin (rightText conditions : List Char) (next : JoinKind) : Blind (do
        let right ← simple rightText
        let conditions ← readConditions q left right (Text.trim conditions)
        let join ← (FromItem.join? kind left right (conditions.map (·.1))
          (conditions.map (·.2)) : Except QueryError FromItem)
        readJoins simple q token join next parts) :=
      (hsimple _).bind fun right => (blind_readConditions q left right _).bind fun pairs =>
        (Blind.lift _).bind fun join => ih join next
    unfold readJoins
    split
    · refine (Blind.pure _).bind fun last => ?_
      dsimp only
      split
      · exact Blind.throw _
      · exact hjoin _ _ last.2
    · refine (Blind.lift _).bind fun last => ?_
      dsimp only
      split
      · exact Blind.throw _
      · exact hjoin _ _ last.2

theorem blind_readFromItem (hsimple : ∀ token, Blind (simple token)) (token : List Char) :
    Blind (readFromItem simple q token) := by
  unfold readFromItem
  split
  · refine (Blind.lift _).bind fun first => (hsimple _).bind fun left => ?_
    exact blind_readJoins hsimple token _ left _
  · exact hsimple token

theorem blind_readFromItems (hsimple : ∀ token, Blind (simple token)) (tokens : List (List Char)) :
    Blind (readFromItems simple q tokens) := by
  induction tokens generalizing q with
  | nil => exact Blind.pure q
  | cons token rest ih =>
    unfold readFromItems
    exact (blind_readFromItem hsimple token).bind fun source => ih

theorem blind_readWith (catalog : Catalog) (simple : List Char → Reader FromItem) (sql : List Char) :
    Blind (readWith catalog simple sql) :=
  (Blind.lift _).bind fun sql => blind_renumbered (readNormalized catalog simple sql)

/-- **From items are read without regard to parameters**, by induction on how deep they are nested:
the parameters of a subquery are its own. -/
theorem blind_readSimple (depth : Nat) (token : List Char) : Blind (readSimple catalog depth token) := by
  induction depth generalizing token with
  | zero =>
    unfold readSimple
    dsimp only
    split
    · exact Blind.throw _
    · split
      · exact Blind.throw _
      · split
        · exact Blind.lift _
        · exact Blind.throw _
  | succ depth ih =>
    unfold readSimple
    dsimp only
    split
    · split
      next _ inside after hdepth _ =>
        cases hdepth
        split
        · exact (blind_readWith catalog _ _).bind fun q => Blind.lift _
        · exact (blind_readFromItem ih _).bind fun source => Blind.lift _
      next => exact Blind.throw _
    · split
      · exact Blind.throw _
      · split
        · exact Blind.lift _
        · exact Blind.throw _

end Sources

/-! ## Clauses -/

section Clauses

variable {catalog : Catalog} {q : Query}

theorem blind_readSelect (text : List Char) : Blind (readSelect catalog q text) := by
  unfold readSelect
  dsimp only
  refine Blind.bind (Blind.mapM fun token _ => ?_) fun items => ?_
  · unfold readSelectToken
    dsimp only
    split
    · exact blind_makeOffered _
    · split
      · split
        · exact blind_makeOffered _
        · exact Blind.throw _
      · refine (Blind.lift _).bind fun pending? => ?_
        split
        · exact (blind_make _).bind fun item => Blind.pure _
        · split
          · refine Blind.bind (fun _ _ => rfl) fun id => ?_
            split
            · exact Blind.pure _
            · exact Blind.throw _
          · exact Blind.throw _
  · split
    · exact Blind.throw _
    · exact Blind.pure _

theorem blind_readGroupBy (text : List Char) : Blind (readGroupBy q text) :=
  (Blind.mapM fun _ _ => blind_makeFound _ _).bind fun _ => Blind.pure _

theorem blind_readOrderBy (text : List Char) : Blind (readOrderBy q text) :=
  (Blind.mapM fun _ _ => (blind_makeFound _ _).bind fun _ => Blind.pure _).bind fun _ => Blind.pure _

/-- **All clauses but those with filters are read without regard to parameters.** -/
theorem blind_readClause {keyword : String} (hwhere : keyword ≠ "WHERE") (hhaving : keyword ≠ "HAVING")
    (text : List Char) : Blind (readClause catalog q keyword text) := by
  unfold readClause
  split
  · exact blind_readSelect text
  · exact absurd rfl hwhere
  · exact blind_readGroupBy text
  · exact absurd rfl hhaving
  · exact blind_readOrderBy text
  · exact (Blind.lift _).bind fun n => Blind.pure _
  · exact (Blind.lift _).bind fun n => Blind.pure _
  · exact Blind.pure q

end Clauses

end DocQuery.Grammar
