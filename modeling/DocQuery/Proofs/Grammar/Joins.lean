import DocQuery.Proofs.Grammar.Naming
import DocQuery.Proofs.Grammar.Yields
import DocQuery.Proofs.Text.Chars

/-!
# DocQuery.Proofs.Grammar.Joins — joins as they are read

A condition of a join names columns over the two sides of the join and over the from items of the
query in front of it, or over the two sides alone where the join stands in parentheses.  The item of
the right side is put second.  So every join that is read has conditions, and each of them is oriented
and means columns over one of the two scopes (`joinsRead_of_readQuery`).

A join in parentheses is read over its two sides alone, and any other join over the from items in
front as well.  So the columns in the conditions of a chain can be named over what is in front of it
and the two sides of their join, if the chain comes first or does not begin with a parenthesis
(`allJoinsNamed_of_readQuery`).  Whether it does is told by the first character of its text, which
cutting the text at its JOINs and the kinds of joins leaves in place.
-/

namespace DocQuery.Grammar

/-! ## Conditions -/

/-- An item of a condition as it is read: a plain column is made as one, by some name over the from
items. -/
def IsReadOn (sources : List FromItem) (i : Item) : Prop :=
  ∀ c, i.column? = some c → i.function = none →
    (∃ n, i = Item.ofColumn n c i.scope) ∧ Named { sources := sources } c i.scope

/-- A condition of a join as it is read over from items. -/
structure IsReadCondition (sources : List FromItem) (right : FromItem) (c : Item × Item) : Prop where
  oriented : ¬(belongsTo c.1 right = true ∧ belongsTo c.2 right = false)
  first : IsReadOn sources c.1
  second : IsReadOn sources c.2

section Conditions

variable {q : Query} {left right : FromItem}

theorem isReadOn_of_resolveColumn {name : List Char} {pending : Pending}
    (h : resolveColumn q name = .ok (some pending)) (n : Nat) : IsReadOn q.sources (pending n) := by
  intro c hcolumn hfunction
  obtain ⟨scope, rfl⟩ := eq_ofColumn_of_resolveColumn h hcolumn hfunction
  exact ⟨⟨n, rfl⟩, name, h⟩

theorem yields_readCondition (text : List Char) :
    Yields (readCondition q right text) (IsReadCondition q.sources right) := by
  have hfound (name : List Char) (failure : QueryError) :
      Yields (makeFound (resolveColumn q name) failure) (IsReadOn q.sources) :=
    yields_makeFound.mono fun i ⟨pending, n, hpending, hi⟩ =>
      hi ▸ isReadOn_of_resolveColumn hpending n
  unfold readCondition
  dsimp only
  split
  · exact yields_throw _
  · refine (hfound _ _).bind fun first hfirst => (hfound _ _).bind fun second hsecond => yields_pure ?_
    -- The two are exchanged exactly if only the first one is drawn from the right side.
    cases hone : belongsTo first right <;> cases htwo : belongsTo second right
    · exact ⟨by simp [hone], hfirst, hsecond⟩
    · exact ⟨by simp [hone], hfirst, hsecond⟩
    · exact ⟨by simp [htwo], hsecond, hfirst⟩
    · exact ⟨by simp [htwo], hfirst, hsecond⟩

theorem yields_readConditions (text : List Char) :
    Yields (readConditions q left right text) fun conditions =>
      ∀ c ∈ conditions, IsReadCondition (q.sources ++ [left, right]) right c :=
  yields_mapM fun part _ => yields_readCondition part

end Conditions

/-! ## Joins -/

/-- The joins in a from item as they are read behind others: with conditions, each of which is read
over the two sides, or over those behind the from items in front. -/
def JoinsRead (before : List FromItem) : FromItem → Prop
  | .join _ left right conditions _ =>
    JoinsRead before left ∧ JoinsRead before right ∧ conditions ≠ [] ∧
      ∃ near, (near = [] ∨ near = before) ∧
        ∀ c ∈ conditions, IsReadCondition (near ++ [left, right]) right c
  | _ => True

/-- Every from item of a list as it is read behind others and those in front of it. -/
def AllJoinsRead (before : List FromItem) : List FromItem → Prop
  | [] => True
  | f :: rest => JoinsRead before f ∧ AllJoinsRead (before ++ [f]) rest

section Joins

variable {q : Query} {simple : List Char → Reader FromItem} {catalog : Catalog}

/-- What stands in parentheses is read as if nothing were in front. -/
theorem JoinsRead.behind {before : List FromItem} : {f : FromItem} → JoinsRead [] f → JoinsRead before f
  | .table _ _, _ => trivial
  | .subquery _ _, _ => trivial
  | .expression _ _, _ => trivial
  | .join _ _ _ _ _, ⟨hleft, hright, hne, near, hnear, h⟩ =>
    ⟨hleft.behind, hright.behind, hne, [], Or.inl rfl, by
      rcases hnear with rfl | rfl
      · exact h
      · exact h⟩

theorem JoinsRead.withAlias {before : List FromItem} {f : FromItem} (h : JoinsRead before f)
    (aliasName : String) : JoinsRead before (f.withAlias aliasName) := by
  cases f with
  | join kind left right conditions other => exact h
  | _ => trivial

theorem allJoinsRead_append {before sources : List FromItem} {f : FromItem}
    (h : AllJoinsRead before sources) (hf : JoinsRead (before ++ sources) f) :
    AllJoinsRead before (sources ++ [f]) := by
  induction sources generalizing before with
  | nil => exact ⟨by simpa using hf, trivial⟩
  | cons g rest ih => exact ⟨h.1, ih h.2 (by simpa using hf)⟩

/-- What joining keeps goes for a chain of joins, by induction on its parts. -/
theorem yields_readJoins {P R : FromItem → Prop}
    {C : FromItem → FromItem → List (Item × Item) → Prop} (hsimple : ∀ token, Yields (simple token) R)
    (hconditions : ∀ left right text, Yields (readConditions q left right text) (C left right))
    (hjoin : ∀ kind left right conditions, P left → R right → conditions ≠ [] →
      C left right conditions → P (.join kind left right conditions none))
    (token : List Char) {left : FromItem} {kind : JoinKind} {parts : List (List Char)} (hleft : P left) :
    Yields (readJoins simple q token left kind parts) P := by
  induction parts generalizing left kind with
  | nil => exact yields_pure hleft
  | cons part parts ih =>
    unfold readJoins
    -- The words for the next join are found or left out; the part without them is read alike.
    split
    all_goals
      refine (yields_true _).bind fun found _ => ?_
      obtain ⟨part, next⟩ := found
      dsimp only
      split
      · exact yields_throw _
      · refine (hsimple _).bind fun right hright => (hconditions _ _ _).bind fun pairs hpairs => ?_
        refine yields_lift.bind fun join hmade => ih ?_
        obtain ⟨hne, rfl⟩ := join?_eq_ok hmade
        exact hjoin kind left right pairs hleft hright hne hpairs

section Chains

variable (hsimple : ∀ token, Yields (simple token) (JoinsRead []))

include hsimple

theorem yields_readFromItem (token : List Char) :
    Yields (readFromItem simple q token) (JoinsRead q.sources) := by
  unfold readFromItem
  split
  · refine (yields_true _).bind fun _ _ => (hsimple _).bind fun left hleft => ?_
    exact yields_readJoins hsimple (fun _ _ => yields_readConditions) (fun _ _ _ _ hleft hright hne hread =>
      ⟨hleft, hright.behind, hne, q.sources, Or.inr rfl, hread⟩) token hleft.behind
  · exact (hsimple token).mono fun _ h => h.behind

theorem yields_readFromItems_joins {tokens : List (List Char)} (h : AllJoinsRead [] q.sources) :
    Yields (readFromItems simple q tokens) fun q' => AllJoinsRead [] q'.sources := by
  induction tokens generalizing q with
  | nil => exact yields_pure h
  | cons token rest ih =>
    unfold readFromItems
    exact (yields_readFromItem hsimple token).bind fun source hsource =>
      ih (allJoinsRead_append h hsource)

end Chains

/-- A property that aliases keep. -/
theorem yields_underAlias {P : FromItem → Prop} (halias : ∀ f aliasName, P f → P (f.withAlias aliasName))
    {f : FromItem} (h : P f) (text token : List Char) :
    Yields (liftM (underAlias f text token) : Reader FromItem) P := by
  refine yields_lift.mono fun source hsource => ?_
  rcases eq_of_underAlias hsource with rfl | ⟨a, rfl⟩
  · exact h
  · exact halias f a h

/-- What does not begin with a parenthesis is a table. -/
theorem yields_readSimple_open {depth : Nat} {token : List Char}
    (hopen : (Text.trim token).head? ≠ some '(') :
    Yields (readSimple catalog depth token) fun f => f.table?.isSome = true := by
  rw [readSimple.eq_def]
  simp only [if_neg hopen]
  split
  · exact yields_throw _
  · split
    · refine yields_lift.mono fun source hsource => ?_
      rcases eq_of_underAlias hsource with rfl | ⟨a, rfl⟩
      · rfl
      · rfl
    · exact yields_throw _

/-- A property of tables that aliases keep, and subqueries and joins over such from items, is one of all
from items without joins, by induction on how deep parentheses are nested. -/
theorem yields_readSimple_of {P : FromItem → Prop} (htable : ∀ t aliasName, P (.table t aliasName))
    (halias : ∀ f aliasName, P f → P (f.withAlias aliasName))
    (hwithin : ∀ depth inner, (∀ token, Yields (readSimple catalog depth token) P) →
      Yields (readWith catalog (readSimple catalog depth) inner) (fun q => P (.subquery q none)) ∧
        Yields (readFromItem (readSimple catalog depth) {} inner) P) (depth : Nat) (token : List Char) :
    Yields (readSimple catalog depth token) P := by
  have hopen {depth : Nat} {token : List Char} (h : (Text.trim token).head? ≠ some '(') :
      Yields (readSimple catalog depth token) P := by
    refine (yields_readSimple_open h).mono fun f hf => ?_
    cases f with
    | table t aliasName => exact htable t aliasName
    | _ => cases hf
  induction depth generalizing token with
  | zero =>
    by_cases h : (Text.trim token).head? = some '('
    · unfold readSimple
      simp only [if_pos h]
      exact yields_throw _
    · exact hopen h
  | succ depth ih =>
    by_cases h : (Text.trim token).head? = some '('
    · unfold readSimple
      simp only [if_pos h]
      split
      next _ inside after hdepth _ =>
        cases hdepth
        obtain ⟨hsubquery, hchain⟩ := hwithin depth (Text.trim inside) ih
        split
        · exact hsubquery.bind fun q hq => yields_underAlias halias hq after _
        · exact hchain.bind fun source hsource => yields_underAlias halias hsource after _
      next => exact yields_throw _
    · exact hopen h

/-- The joins within parentheses. -/
theorem yields_readSimple (depth : Nat) (token : List Char) :
    Yields (readSimple catalog depth token) (JoinsRead []) :=
  yields_readSimple_of (fun _ _ => trivial) (fun _ _ h => h.withAlias _)
    (fun _ _ ih => ⟨(yields_true _).mono fun _ _ => trivial, yields_readFromItem ih _⟩) depth token

/-- **The joins of a query that is read**: each is read over its two sides, or over those behind the
from items in front of it. -/
theorem joinsRead_of_readQuery {sql : String} {s s' : State}
    (h : (readQuery catalog sql).run s = (.ok q, s')) : AllJoinsRead [] q.sources := by
  obtain ⟨text, clauses, read, k, last, -, -, hread, hclauses, -⟩ := exists_of_readQuery h
  have hjoins := yields_readFromItems_joins (q := {}) (yields_readSimple sql.toList.length) trivial
    _ _ _ hread
  rw [sources_of_readClauses _ _ _ hclauses]
  exact hjoins

end Joins

end DocQuery.Grammar

/-! ## Where the columns of conditions can be named -/

namespace DocQuery

open Grammar

/-- A column without a function. -/
def Item.isPlainColumn (i : Item) : Bool := i.column?.isSome && i.function.isNone

/-- A table, or tables joined from left to right on plain columns. -/
def FromItem.isChain : FromItem → Bool
  | .table _ _ => true
  | .join _ left right conditions _ =>
    isChain left && right.table?.isSome &&
      conditions.all fun c => c.1.isPlainColumn && c.2.isPlainColumn
  | _ => false

namespace Grammar

/-- The first part of a text that is split is in front of it. -/
theorem prefix_of_splitTop {test : Option Char → List Char → Option (List Char)} {s : Scanner}
    {before : Option Char} {text first : List Char} {more : List (List Char)}
    (h : splitTop test s 0 before text = first :: more) : first <+: text := by
  induction text generalizing s before first more with
  | nil =>
    cases h
    exact List.nil_prefix
  | cons c text ih =>
    unfold splitTop at h
    split at h
    · cases h
      exact List.nil_prefix
    · cases hrest : splitTop test (s.step c) 0 (some c) text with
      | nil =>
        rw [hrest] at h
        cases h
        exact List.cons_prefix_cons.mpr ⟨rfl, List.nil_prefix⟩
      | cons part parts =>
        rw [hrest] at h
        cases h
        exact List.cons_prefix_cons.mpr ⟨rfl, ih hrest⟩

theorem prefix_of_cutAt? {d : Char} {text before after : List Char}
    (h : Text.cutAt? d text = some (before, after)) : text = before ++ d :: after := by
  induction text generalizing before with
  | nil => cases h
  | cons c text ih =>
    rw [Text.cutAt?] at h
    split at h
    next hc =>
      cases h
      rw [hc]
      rfl
    next =>
      obtain ⟨⟨u, v⟩, hcut, heq⟩ := Option.map_eq_some_iff.mp h
      cases heq
      rw [ih hcut]
      rfl

theorem head?_splitLastWord {text : List Char} {c : Char}
    (h : (Text.trim (splitLastWord text).1).head? = some c) : (Text.trim text).head? = some c := by
  unfold splitLastWord at h
  split at h
  next rest word hcut =>
    rw [Text.trim_trim] at h
    unfold cutLastSpace? at hcut
    split at hcut
    next after before hspace =>
      cases hcut
      have htext := congrArg List.reverse (prefix_of_cutAt? hspace)
      rw [List.reverse_reverse, List.reverse_append] at htext
      exact Text.head?_trim_of_prefix ⟨' ' :: after.reverse, by rw [htext]; simp⟩ h
    next => cases hcut
  next => cases h

/-- The words for a kind of join stand behind the first character. -/
theorem head?_splitJoinKind {text token rest : List Char} {kind : JoinKind} {c : Char}
    (hsplit : splitJoinKind text token = .ok (rest, kind))
    (h : (Text.trim rest).head? = some c) : (Text.trim text).head? = some c := by
  have hrest : rest = Text.trim text ∨ rest = (splitLastWord (Text.trim text)).1 ∨
      rest = (splitLastWord (splitLastWord (Text.trim text)).1).1 := by
    unfold splitJoinKind at hsplit
    dsimp only at hsplit
    cases houter : Text.eqIgnoreCase (splitLastWord (Text.trim text)).2 "OUTER".toList with
    | true =>
      simp only [houter, if_true] at hsplit
      split at hsplit
      · cases hsplit
      · cases hsplit
        exact Or.inr (Or.inr rfl)
      · split_ifs at hsplit
    | false =>
      simp only [houter, Bool.false_eq_true, if_false] at hsplit
      split at hsplit
      · cases hsplit
        exact Or.inr (Or.inl rfl)
      · cases hsplit
        exact Or.inr (Or.inl rfl)
      · split_ifs at hsplit
        cases hsplit
        exact Or.inl rfl
  rw [← Text.trim_trim text]
  rcases hrest with rfl | rfl | rfl
  · exact h
  · exact head?_splitLastWord h
  · exact head?_splitLastWord (head?_splitLastWord h)

/-! ### Names for columns -/

/-- Some name means the column of an item over from items, in the scope of the item. -/
def CanBeNamed (sources : List FromItem) (i : Item) : Prop :=
  ∀ c ∈ i.column?, Named { sources := sources } c i.scope

/-- The columns in the conditions of every join can be named over what is in front of the from item
and the two sides of the join. -/
def JoinsNamed (before : List FromItem) : FromItem → Prop
  | .join _ left right conditions _ =>
    JoinsNamed before left ∧ JoinsNamed before right ∧
      ∀ c ∈ conditions, CanBeNamed (before ++ [left, right]) c.1 ∧
        CanBeNamed (before ++ [left, right]) c.2
  | _ => True

/-- The columns in conditions can be named over what is in front of their from item. -/
def AllJoinsNamed (before : List FromItem) : List FromItem → Prop
  | [] => True
  | f :: rest => JoinsNamed before f ∧ AllJoinsNamed (before ++ [f]) rest

section Naming

variable {before : List FromItem} {q : Query} {left right : FromItem} {kind : JoinKind}
  {conditions : List (Item × Item)} {aliasName : Option String} {catalog : Catalog}

theorem isChain_join (h : (FromItem.join kind left right conditions aliasName).isChain = true) :
    left.isChain = true ∧ right.table?.isSome = true ∧
      ∀ c ∈ conditions, c.1.isPlainColumn = true ∧ c.2.isPlainColumn = true := by
  simpa [FromItem.isChain, and_assoc] using h

/-- The columns of a condition can be named over the from items that it was read over. -/
theorem joinsNamed_join (hchain : (FromItem.join kind left right conditions aliasName).isChain = true)
    (hleft : JoinsNamed before left)
    (hread : ∀ c ∈ conditions, IsReadCondition (before ++ [left, right]) right c) :
    JoinsNamed before (.join kind left right conditions aliasName) := by
  obtain ⟨-, hright, hplain⟩ := isChain_join hchain
  have hcan {i : Item} (hi : IsReadOn (before ++ [left, right]) i) (hplain : i.isPlainColumn = true) :
      CanBeNamed (before ++ [left, right]) i := by
    rw [Item.isPlainColumn, Bool.and_eq_true, Option.isNone_iff_eq_none] at hplain
    exact fun d hd => (hi d hd hplain.2).2
  refine ⟨hleft, ?_, fun c hc => ⟨hcan (hread c hc).first (hplain c hc).1,
    hcan (hread c hc).second (hplain c hc).2⟩⟩
  cases right with
  | table t aliasName => trivial
  | _ => cases hright

/-- The columns of the first from item can be named over it, whether it stood in parentheses or not. -/
theorem joinsNamed_of_first : {f : FromItem} → f.isChain = true → JoinsRead [] f → JoinsNamed [] f
  | .table _ _, _, _ => trivial
  | .subquery _ _, h, _ => by cases h
  | .expression _ _, h, _ => by cases h
  | .join _ _ _ _ _, h, ⟨hleft, _, _, near, hnear, hread⟩ => by
    obtain rfl : near = [] := by simpa using hnear
    exact joinsNamed_join h (joinsNamed_of_first (isChain_join h).1 hleft) hread

/-- A chain that does not begin with a parenthesis is read over what is in front. -/
theorem yields_readFromItem_named {depth : Nat} (token : List Char) :
    Yields (readFromItem (readSimple catalog depth) q token) fun f =>
      (Text.trim token).head? ≠ some '(' → f.isChain = true → JoinsNamed q.sources f := by
  by_cases hopen : (Text.trim token).head? = some '('
  · exact (yields_true _).mono fun f _ h => absurd hopen h
  refine Yields.mono (P := fun f => f.isChain = true → JoinsNamed q.sources f) ?_
    fun f hf _ => hf
  have htable {f : FromItem} (h : f.table?.isSome = true) : JoinsNamed q.sources f := by
    cases f with
    | table t aliasName => trivial
    | _ => cases h
  unfold readFromItem
  split
  next first part parts hsplit =>
    refine yields_lift.bind fun (rest, kind) hkind => ?_
    have hrest : (Text.trim rest).head? ≠ some '(' := fun h => hopen
      (Text.head?_trim_of_prefix (prefix_of_splitTop hsplit) (head?_splitJoinKind hkind h))
    exact (yields_readSimple_open hrest).bind fun left hleft => yields_readJoins
      (fun token => yields_true (readSimple catalog depth token)) (fun _ _ => yields_readConditions)
      (fun _ _ _ _ hleft _ _ hread hchain => joinsNamed_join hchain (hleft (isChain_join hchain).1) hread)
      token fun _ => htable hleft
  next => exact (yields_readSimple_open hopen).mono fun f hf _ => htable hf

/-- Every from item behind the first one has a text without a parenthesis in front, or columns that
can be named over the from items in front of it. -/
def OpenOrNamed (before : List FromItem) (tokens : List (List Char)) (sources : List FromItem) : Prop :=
  ∀ n token f, tokens[n]? = some token → sources[n]? = some f →
    before ++ sources.take n = [] ∨ (Text.trim token).head? ≠ some '(' ∨
      JoinsNamed (before ++ sources.take n) f

theorem OpenOrNamed.tail {token : List Char} {tokens : List (List Char)} {f : FromItem}
    {rest : List FromItem} (h : OpenOrNamed before (token :: tokens) (f :: rest)) :
    OpenOrNamed (before ++ [f]) tokens rest := by
  intro n token' g htoken hg
  have hnext := h (n + 1) token' g htoken hg
  rwa [List.take_succ_cons, List.append_cons] at hnext

/-- It is enough that no text but the first begins with a parenthesis. -/
theorem openOrNamed_of_drop {tokens : List (List Char)} {sources : List FromItem}
    (h : ∀ token ∈ tokens.drop 1, (Text.trim token).head? ≠ some '(') :
    OpenOrNamed [] tokens sources := by
  intro n token f htoken hf
  cases n with
  | zero => exact Or.inl rfl
  | succ n =>
    have hlater : (tokens.drop 1)[n]? = some token := by
      rw [List.getElem?_drop, Nat.add_comm]
      exact htoken
    exact Or.inr (Or.inl (h token (List.mem_of_getElem? hlater)))

theorem yields_readFromItems_named {depth : Nat} {tokens : List (List Char)} :
    Yields (readFromItems (readSimple catalog depth) q tokens) fun q' => ∃ read,
      q'.sources = q.sources ++ read ∧ (OpenOrNamed q.sources tokens read →
        (∀ f ∈ read, f.isChain = true) → AllJoinsNamed q.sources read) := by
  induction tokens generalizing q with
  | nil => exact yields_pure ⟨[], by simp, fun _ _ => trivial⟩
  | cons token tokens ih =>
    unfold readFromItems
    have hread : Yields (readFromItem (readSimple catalog depth) q token) (JoinsRead q.sources) :=
      yields_readFromItem (yields_readSimple depth) token
    refine (hread.and (yields_readFromItem_named token)).bind fun f hf => ?_
    obtain ⟨hjoins, hnamed⟩ := hf
    refine ih.mono ?_
    rintro q' ⟨rest, hsources, hrest⟩
    refine ⟨f :: rest, by simpa using hsources, fun hopen hchains => ?_⟩
    obtain ⟨hchain, hrestChains⟩ := List.forall_mem_cons.mp hchains
    refine ⟨?_, hrest hopen.tail hrestChains⟩
    have hfirst := hopen 0 token f rfl rfl
    rw [List.take_zero, List.append_nil] at hfirst
    rcases hfirst with hnil | hopen | hcan
    · rw [hnil] at hjoins ⊢
      exact joinsNamed_of_first hchain hjoins
    · exact hnamed hopen hchain
    · exact hcan

/-- The texts of the from items in the text of a query. -/
def fromTokens (sql : String) : List (List Char) :=
  match normalize sql.toList >>= locateClauses with
  | .ok clauses => splitOn [','] ((clauses.lookup "FROM").getD [])
  | .error _ => []

/-- **The columns in the conditions of a query that was read can be named** over what is in front of
their from item and the sides of their join, for chains that come first or do not begin with a
parenthesis. -/
theorem allJoinsNamed_of_readQuery {sql : String} {s s' : State}
    (hread : (readQuery catalog sql).run s = (.ok q, s'))
    (hchains : ∀ f ∈ q.sources, f.isChain = true)
    (hopen : OpenOrNamed [] (fromTokens sql) q.sources) : AllJoinsNamed [] q.sources := by
  obtain ⟨text, clauses, read, k, last, hnormalize, hlocate, hfrom, hclauses, -⟩ :=
    exists_of_readQuery hread
  have htokens : fromTokens sql = splitOn [','] ((clauses.lookup "FROM").getD []) := by
    unfold fromTokens
    rw [hnormalize]
    show (match locateClauses text with | .ok clauses => _ | .error _ => _) = _
    rw [hlocate]
  have hsources : q.sources = read.sources := sources_of_readClauses _ _ _ hclauses
  obtain ⟨sources, hsame, hnamed⟩ := yields_readFromItems_named _ _ _ hfrom
  obtain rfl : read.sources = sources := by simpa using hsame
  rw [hsources] at hchains hopen ⊢
  exact hnamed (htokens ▸ hopen) hchains

end Naming

end Grammar

end DocQuery
