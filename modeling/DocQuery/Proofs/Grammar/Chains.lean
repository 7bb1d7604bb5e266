import DocQuery.Proofs.Grammar.Naming

/-!
# DocQuery.Proofs.Grammar.Chains — chains of joins as they are written and read

A chain is a first table with joins of further ones, from left to right.  It is written with JOIN
between its parts: each part is a table with the conditions of its own join, and it ends in the kind
of the next one.  The parts are found again at the JOINs, so reading the text of a chain comes down
to reading its conditions, join by join (`readFromItem_chainText`).
-/

namespace DocQuery

open Grammar

/-- One join of a chain: a table joined to what is on its left. -/
structure Link where
  kind : JoinKind
  table : Table
  aliasName : Option String
  conditions : List (Item × Item)

/-- The right side of the join. -/
def Link.source (link : Link) : FromItem := .table link.table link.aliasName

/-- A from item with further tables joined to it. -/
def FromItem.linked (first : FromItem) (links : List Link) : FromItem :=
  links.foldl (fun left link => .join link.kind left link.source link.conditions none) first

namespace Grammar

open Text (Trimmed isBlank isWordChar eqIgnoreCase)

/-! ## Keywords between parts -/

section Keywords

variable {keyword : List Char}

/-- A keyword is not found at a blank. -/
theorem afterKeyword?_blank (hkeyword : IsWord keyword) (before : Option Char) (rest : List Char) :
    afterKeyword? keyword before (' ' :: rest) = none := by
  obtain ⟨c, w, rfl⟩ := List.exists_cons_of_ne_nil hkeyword.nonempty
  have hc : isWordChar c = true := hkeyword.all c List.mem_cons_self
  have hnone : afterPattern? (c :: w) (' ' :: rest) = none := by
    rw [afterPattern?, if_neg]
    exact fun heq => ne_of_isWordChar hc rfl (toLower_eq_blank heq)
  rw [afterKeyword?, hnone]
  split_ifs <;> rfl

/-- A part that does not show a keyword ends where the keyword stands behind a space. -/
theorem splitTop_keyword (hkeyword : IsWord keyword) {w : List Char} (hbalanced : Balanced w)
    (hclear : Clear [] [keyword] w) (before : Option Char) (rest : List Char) :
    splitTop (afterKeyword? keyword) {} 0 before (w ++ ' ' :: (keyword ++ ' ' :: rest)) =
      (w ++ [' ']) ::
        splitTop (afterKeyword? keyword) {} 0 (lastOr (some ' ') keyword) (' ' :: rest) := by
  have hleading : leadingWord keyword ∈ [keyword] :=
    List.mem_singleton.mpr hkeyword.leadingWord_eq
  have htext : w ++ ' ' :: (keyword ++ ' ' :: rest) = (w ++ [' ']) ++ (keyword ++ ' ' :: rest) := by
    simp
  have hnone : TopAll (fun b t => afterKeyword? keyword b (t ++ (keyword ++ ' ' :: rest)) = none) {}
      before (w ++ [' ']) := by
    refine TopAll.append_iff.mpr ⟨?_, ?_⟩
    · simp only [List.append_assoc]
      exact hclear.afterKeyword?_eq_none hleading before rfl
    · exact ⟨fun _ => afterKeyword?_blank hkeyword _ _, trivial⟩
  have hblank : lastOr before (w ++ [' ']) = some ' ' := by simp [lastOr]
  have hfound : afterKeyword? keyword (some ' ') (keyword ++ ' ' :: rest) = some (' ' :: rest) := by
    rw [afterKeyword?, afterPattern?_append]
    rfl
  have hneutral : ∀ c ∈ keyword, Neutral c := fun c hc => neutral_of_isWordChar (hkeyword.all c hc)
  have hrun : Scanner.run {} (w ++ [' ']) = {} := by
    rw [Scanner.run_append, hbalanced]
    rfl
  rw [htext, splitTop_append hnone, hrun, hblank,
    splitTop_delimiter rfl hkeyword.nonempty hneutral hfound, appendFirst, List.append_nil]

/-- **What was joined at a keyword between spaces is split there again**, up to those spaces. -/
theorem splitKeyword_joined (hkeyword : IsWord keyword) {parts : List (List Char)}
    (hne : parts ≠ []) (h : ∀ w ∈ parts, Part [] [keyword] w) :
    (splitKeyword keyword ((' ' :: (keyword ++ [' '])).intercalate parts)).map Text.trim = parts := by
  have hleading : leadingWord keyword ∈ [keyword] :=
    List.mem_singleton.mpr hkeyword.leadingWord_eq
  have hnil : [] ∉ [keyword] := fun hmem => hkeyword.nonempty (List.mem_singleton.mp hmem).symm
  -- After a keyword the next part has a space in front of it.
  suffices hpadded : ∀ pad before, (pad = [] ∨ pad = [' ']) →
      (splitTop (afterKeyword? keyword) {} 0 before
        (pad ++ (' ' :: (keyword ++ [' '])).intercalate parts)).map Text.trim = parts by
    exact hpadded [] none (Or.inl rfl)
  induction parts with
  | nil => exact absurd rfl hne
  | cons w rest ih =>
    intro pad before hpad
    obtain ⟨hw, hrest⟩ := List.forall_mem_cons.mp h
    have hblanks : ∀ c ∈ pad, isBlank c = true := by
      rcases hpad with rfl | rfl
      · exact List.forall_mem_nil _
      · simp [isBlank]
    have hbalanced : Balanced (pad ++ w) := by
      rcases hpad with rfl | rfl
      · exact hw.balanced
      · exact hw.balanced
    have hclear : Clear [] [keyword] (pad ++ w) := by
      rcases hpad with rfl | rfl
      · exact hw.clear
      · exact hw.clear.cons ⟨by decide, by decide, by decide⟩ rfl List.not_mem_nil hnil
    cases rest with
    | nil =>
      have htrim : Text.trim (pad ++ w) = w :=
        (Text.trim_blanks_append hblanks).trans hw.trimmed.trim_eq
      rw [List.intercalate_singleton, splitTop_eq_singleton (hclear.afterKeyword?_alone hleading before),
        List.map_singleton, htrim]
    | cons v rest =>
      have htext : pad ++ (' ' :: (keyword ++ [' '])).intercalate (w :: v :: rest) =
          (pad ++ w) ++ ' ' :: (keyword ++ ' ' :: (' ' :: (keyword ++ [' '])).intercalate (v :: rest)) := by
        simp [List.intercalate_cons_cons]
      have htrim : Text.trim ((pad ++ w) ++ [' ']) = w := by
        rw [List.append_assoc, Text.trim_blanks_append hblanks]
        exact hw.trimmed.trim_append_blanks (by simp [isBlank])
      have hlater := ih (List.cons_ne_nil v rest) hrest [' '] (lastOr (some ' ') keyword) (Or.inr rfl)
      rw [htext, splitTop_keyword hkeyword hbalanced hclear, List.map_cons, htrim]
      exact congrArg (w :: ·) hlater

/-- The first occurrence of a keyword between spaces. -/
theorem cutKeyword?_joined (hkeyword : IsWord keyword) {w : List Char} (hw : Part [] [keyword] w)
    (rest : List Char) : cutKeyword? keyword none (w ++ ' ' :: (keyword ++ ' ' :: rest)) =
      some (w ++ [' '], ' ' :: rest) := by
  have hleading : leadingWord keyword = keyword := hkeyword.leadingWord_eq
  have hne : leadingWord keyword ≠ [] := by
    rw [hleading]
    exact hkeyword.nonempty
  rw [hw.clear.cutKeyword?_append hw.balanced (List.mem_singleton.mpr hleading) rfl,
    cutKeyword?_blank hne, cutKeyword?_here hkeyword.nonempty rfl rfl]
  rfl

end Keywords

/-! ## Texts -/

/-- The text of a pair of items that must be equal. -/
def conditionText (c : Item × Item) : List Char :=
  c.1.sqlWithoutAlias.toList ++ ' ' :: '=' :: ' ' :: c.2.sqlWithoutAlias.toList

/-- The text of the conditions of a join. -/
def conditionsText (conditions : List (Item × Item)) : List Char :=
  (connectiveText .and).intercalate (conditions.map conditionText)

/-- The text of a join behind the word JOIN. -/
def linkText (link : Link) : List Char :=
  sourceText link.table link.aliasName ++ ' ' :: ("ON".toList ++ ' ' :: conditionsText link.conditions)

/-- The parts of a chain between its JOINs: what is in front of a JOIN ends in the kind of the join. -/
def chainParts (text : List Char) : List Link → List (List Char)
  | [] => [text]
  | link :: links => (text ++ ' ' :: link.kind.sql.toList) :: chainParts (linkText link) links

/-- A text with JOINs behind it. -/
def chainText (text : List Char) (links : List Link) : List Char :=
  (' ' :: ("JOIN".toList ++ [' '])).intercalate (chainParts text links)

theorem chainText_append (u text : List Char) (links : List Link) :
    chainText (u ++ text) links = u ++ chainText text links := by
  unfold chainText
  cases links with
  | nil => simp [chainParts]
  | cons link links =>
    simp only [chainParts]
    cases chainParts (linkText link) links <;> simp [List.intercalate_cons_cons]

theorem toList_onSql (conditions : List (Item × Item)) :
    (FromItem.onSql conditions).toList = conditionsText conditions := by
  have htext : conditionText = fun c => c.1.sqlWithoutAlias.toList ++
    ' ' :: '=' :: ' ' :: c.2.sqlWithoutAlias.toList := rfl
  simp [FromItem.onSql, conditionsText, htext, connectiveText, Connective.sql, Text.joinWith,
    String.toList_intercalate, Function.comp_def]

/-- **The text of a chain**, from the text of its first from item. -/
theorem toList_linked (first : FromItem) (links : List Link) :
    (first.linked links).sql.toList = chainText first.sql.toList links := by
  induction links generalizing first with
  | nil => simp [FromItem.linked, chainText, chainParts]
  | cons link links ih =>
    have hjoin : (FromItem.join link.kind first link.source link.conditions none).sql.toList =
        (first.sql.toList ++ ' ' :: link.kind.sql.toList ++ ' ' :: ("JOIN".toList ++ [' '])) ++
          linkText link := by
      rw [FromItem.sql]
      simp [linkText, Link.source, toList_onSql, toList_sourceSql]
    have hrest := ih (FromItem.join link.kind first link.source link.conditions none)
    rw [hjoin, chainText_append] at hrest
    refine hrest.trans ?_
    unfold chainText
    rw [chainParts]
    cases hparts : chainParts (linkText link) links with
    | nil => cases links <;> cases hparts
    | cons part parts => simp [List.intercalate_cons_cons]

/-! ## Plain chains -/

/-- A name that a table can be joined under: a plain word other than ON. -/
structure IsSourceName (w : List Char) : Prop extends IsName w where
  notOn : eqIgnoreCase w "ON".toList = false

/-- An item whose text is one word that nothing is cut at. -/
structure IsShortItem (i : Item) : Prop where
  word : IsWord i.sqlWithoutAlias.toList
  part : Part cuttingMarks cuttingWords i.sqlWithoutAlias.toList

/-- A table under a label that it can be joined under. -/
structure IsPlainSource (t : Table) (aliasName : Option String) : Prop where
  table : IsSourceName t.name.toList
  aliasName : ∀ a ∈ aliasName, IsSourceName a.toList

/-- A join of a plain source on pairs of short items. -/
structure IsPlainLink (link : Link) : Prop where
  source : IsPlainSource link.table link.aliasName
  nonempty : link.conditions ≠ []
  conditions : ∀ c ∈ link.conditions, IsShortItem c.1 ∧ IsShortItem c.2

section Parts

theorem comma_not_wordChar : ∀ m ∈ [','], isWordChar m = false := List.forall_mem_singleton.mpr rfl

variable {t : Table} {aliasName : Option String} {link : Link} {links : List Link} {c : Item × Item}

/-- The text of a source shows no mark, no word that queries are cut at, and no ON. -/
theorem IsPlainSource.part (h : IsPlainSource t aliasName) :
    Part cuttingMarks ("ON".toList :: cuttingWords) (sourceText t aliasName) := by
  have hname {w : List Char} (hw : IsSourceName w) :
      Part cuttingMarks ("ON".toList :: cuttingWords) w :=
    Part.of_isWord hw.isWord cuttingMarks_not_wordChar fun k hk => by
      rcases List.mem_cons.mp hk with rfl | hk
      · exact hw.notOn
      · exact hw.unreserved k (List.mem_append_left _ hk)
  cases haliasName : aliasName with
  | none => exact hname h.table
  | some a => exact (hname h.table).spaced (hname (h.aliasName a haliasName)) (by decide) (by decide)

theorem part_equals {words : List (List Char)} (hwords : [] ∉ words) : Part [','] words ['='] := by
  refine Part.of_symbols (List.cons_ne_nil _ _) hwords fun c hc => ?_
  obtain rfl := List.mem_singleton.mp hc
  exact ⟨⟨by decide, by decide, by decide⟩, rfl, rfl, by decide⟩

theorem part_conditionText (h : IsShortItem c.1 ∧ IsShortItem c.2) :
    Part [','] cuttingWords (conditionText c) := by
  have hmarks : [','] ⊆ cuttingMarks := by decide
  have hleft := h.1.part.mono hmarks (List.Subset.refl _)
  have hright := h.2.part.mono hmarks (List.Subset.refl _)
  exact hleft.spaced ((part_equals nil_not_mem_cuttingWords).spaced hright (by decide)
    nil_not_mem_cuttingWords) (by decide) nil_not_mem_cuttingWords

/-- Conditions show nothing but the word AND between them. -/
theorem part_conditionsText {conditions : List (Item × Item)} (hne : conditions ≠ [])
    (h : ∀ c ∈ conditions, IsShortItem c.1 ∧ IsShortItem c.2) :
    Part [','] ("JOIN".toList :: clauseWords) (conditionsText conditions) := by
  have hwords : "JOIN".toList :: clauseWords ⊆ cuttingWords := by decide
  have hand : Part [','] ("JOIN".toList :: clauseWords) "AND".toList :=
    Part.of_isWord (isWord_of_all (by decide) (by decide)) comma_not_wordChar (by decide)
  refine Part.connected (by simpa using hne) (fun w hw => ?_) hand (by decide) (by decide)
  obtain ⟨c, hc, rfl⟩ := List.mem_map.mp hw
  exact (part_conditionText (h c hc)).mono (List.Subset.refl _) hwords

theorem part_linkText (h : IsPlainLink link) :
    Part [','] ("JOIN".toList :: clauseWords) (linkText link) := by
  have hwords : "JOIN".toList :: clauseWords ⊆ "ON".toList :: cuttingWords := by decide
  have hon : Part [','] ("JOIN".toList :: clauseWords) "ON".toList :=
    Part.of_isWord (isWord_of_all (by decide) (by decide)) comma_not_wordChar (by decide)
  have hsource := h.source.part.mono (show [','] ⊆ cuttingMarks by decide) hwords
  have hconditions := part_conditionsText h.nonempty h.conditions
  exact hsource.spaced (hon.spaced hconditions (by decide) (by decide)) (by decide) (by decide)

theorem part_kind (k : JoinKind) : Part [','] ("JOIN".toList :: clauseWords) k.sql.toList := by
  cases k <;>
    exact Part.of_isWord (isWord_of_all (by decide) (by decide)) comma_not_wordChar (by decide)

/-- The parts of a chain show no JOIN, no comma and no keyword of a clause. -/
theorem part_chainParts {text : List Char} (htext : Part [','] ("JOIN".toList :: clauseWords) text)
    (h : ∀ link ∈ links, IsPlainLink link) :
    ∀ w ∈ chainParts text links, Part [','] ("JOIN".toList :: clauseWords) w := by
  induction links generalizing text with
  | nil => exact List.forall_mem_singleton.mpr htext
  | cons link links ih =>
    obtain ⟨hlink, hrest⟩ := List.forall_mem_cons.mp h
    refine List.forall_mem_cons.mpr ⟨?_, ih (part_linkText hlink) hrest⟩
    exact htext.spaced (part_kind link.kind) (by decide) (by decide)

theorem chainParts_ne_nil (text : List Char) (links : List Link) : chainParts text links ≠ [] := by
  cases links <;> exact List.cons_ne_nil _ _

/-- **The text of a chain is a part** of the text of a FROM clause. -/
theorem part_chainText {text : List Char} (htext : Part [','] ("JOIN".toList :: clauseWords) text)
    (h : ∀ link ∈ links, IsPlainLink link) : Part [','] clauseWords (chainText text links) := by
  have hjoin : Part [','] clauseWords "JOIN".toList :=
    Part.of_isWord (isWord_of_all (by decide) (by decide)) comma_not_wordChar (by decide)
  refine Part.connected (chainParts_ne_nil text links) (fun w hw => ?_) hjoin (by decide) (by decide)
  exact (part_chainParts htext h w hw).mono (List.Subset.refl _) (List.subset_cons_self _ _)

end Parts

/-! ## Reading -/

section Reading

variable {t : Table} {aliasName : Option String} {catalog : Catalog} {q : Query} {link : Link}
  {links : List Link} {token : List Char} {simple : List Char → Reader FromItem}

/-- A kind of join behind a text. -/
theorem splitJoinKind_sql {text : List Char} (htext : Trimmed text) (kind : JoinKind)
    (token : List Char) : splitJoinKind (text ++ ' ' :: kind.sql.toList) token = .ok (text, kind) := by
  have hkind : Trimmed kind.sql.toList := by
    cases kind <;> exact IsWord.trimmed (isWord_of_all (by decide) (by decide))
  have htrimmed : Trimmed (text ++ ' ' :: kind.sql.toList) := trimmed_append [' '] htext hkind
  have hlast : splitLastWord (text ++ ' ' :: kind.sql.toList) = (text, kind.sql.toList) := by
    rw [splitLastWord, cutLastSpace?_append text (by cases kind <;> decide)]
    simp only [htext.trim_eq]
  unfold splitJoinKind
  simp only [htrimmed.trim_eq, hlast]
  cases kind <;> rfl

theorem splitJoinKind_trim (text token : List Char) :
    splitJoinKind (Text.trim text) token = splitJoinKind text token := by
  unfold splitJoinKind
  simp only [Text.trim_trim]

theorem readSimple_trim (depth : Nat) (text : List Char) :
    readSimple catalog depth (Text.trim text) = readSimple catalog depth text := by
  rw [readSimple.eq_def, readSimple.eq_def]
  simp only [Text.trim_trim]

theorem IsPlainSource.readSimple (h : IsPlainSource t aliasName)
    (hcatalog : catalog.table? t.name = some t) (depth : Nat) :
    readSimple catalog depth (sourceText t aliasName) = pure (.table t aliasName) :=
  readSimple_sourceText h.table.toIsName (fun a ha => (h.aliasName a ha).toIsName) hcatalog depth

/-- The parts of a chain may have blanks around them. -/
theorem readJoins_map_trim (left : FromItem) (kind : JoinKind) (parts : List (List Char)) :
    readJoins simple q token left kind (parts.map Text.trim) =
      readJoins simple q token left kind parts := by
  induction parts generalizing left kind with
  | nil => rfl
  | cons part parts ih =>
    simp only [List.map_cons, readJoins, List.isEmpty_map, Text.trim_trim, splitJoinKind_trim, ih]

/-- The pair of items that the texts of a pair mean over the from items of a query, the one that is
not drawn from the right side first. -/
def readPair (scope : Query) (right : FromItem) (c : Item × Item) : Reader (Item × Item) := do
  let failure := QueryError.unparsable "JOIN" (String.ofList (conditionText c))
  let first ← makeFound (resolveColumn scope c.1.sqlWithoutAlias.toList) failure
  let second ← makeFound (resolveColumn scope c.2.sqlWithoutAlias.toList) failure
  return if belongsTo first right && !belongsTo second right then (second, first)
    else (first, second)

/-- A text that does not begin with a parenthesis does not stand in parentheses. -/
theorem unwrap?_eq_none {c : Char} {w : List Char} (hw : Trimmed (c :: w)) (hc : c ≠ '(') :
    unwrap? (c :: w) = none := by
  rw [unwrap?, hw.trim_eq, parenthesized?.eq_def]
  split
  next inside hinside =>
    split at hinside
    next heq => exact absurd (List.cons.inj heq).1 hc
    next => cases hinside
  next => rfl

/-- A text that begins with a word does not stand in parentheses. -/
theorem IsWord.unwrap?_append {u : List Char} (hu : IsWord u) {v : List Char}
    (hw : Trimmed (u ++ v)) : unwrap? (u ++ v) = none := by
  obtain ⟨c, w, rfl⟩ := List.exists_cons_of_ne_nil hu.nonempty
  exact unwrap?_eq_none hw (ne_of_isWordChar (hu.all c List.mem_cons_self) rfl)

theorem IsWord.unquoteName_padded {w : List Char} (h : IsWord w) :
    unquoteName (w ++ [' ']) = w ∧ unquoteName (' ' :: w) = w := by
  have hblank : ∀ c ∈ [' '], isBlank c = true := by simp [isBlank]
  have hafter : Text.trim (w ++ [' ']) = Text.trim w :=
    (h.trimmed.trim_append_blanks hblank).trans h.trimmed.trim_eq.symm
  have hbefore : Text.trim (' ' :: w) = Text.trim w := Text.trim_blanks_append hblank
  have hplain := h.unquoteName_eq
  unfold unquoteName at hplain ⊢
  rw [hafter, hbefore]
  exact ⟨hplain, hplain⟩

/-- A condition is cut at its equals sign. -/
theorem cutPattern?_conditionText {c : Item × Item} (h : IsShortItem c.1) :
    cutPattern? ['='] (conditionText c) =
      some (c.1.sqlWithoutAlias.toList ++ [' '], ' ' :: c.2.sqlWithoutAlias.toList) := by
  have htext : conditionText c = (c.1.sqlWithoutAlias.toList ++ [' ']) ++
      ('=' :: ' ' :: c.2.sqlWithoutAlias.toList) := by
    simp [conditionText]
  have hnone : TopAll (fun _ t => (afterPattern? ['=']
      (t ++ ('=' :: ' ' :: c.2.sqlWithoutAlias.toList))).map ((), ·) = none) {} none
      (c.1.sqlWithoutAlias.toList ++ [' ']) := by
    refine TopAll.append_iff.mpr ⟨?_, fun _ => rfl, trivial⟩
    have hfree := h.part.clear.afterMark?_eq_none (p := []) (show '=' ∈ cuttingMarks by decide) rfl rfl
      none ([' '] ++ ('=' :: ' ' :: c.2.sqlWithoutAlias.toList))
    refine TopAll.mono (fun _ _ _ heq => ?_) hfree
    rw [List.append_assoc, heq]
    rfl
  have hrun : Scanner.run {} (c.1.sqlWithoutAlias.toList ++ [' ']) = {} := by
    rw [Scanner.run_append, h.part.balanced]
    rfl
  rw [htext, cutPattern?, findTop?_append hnone, hrun]
  simp [findTop?, Scanner.isTopLevel, afterPattern?]

theorem readCondition_conditionText {c : Item × Item} (h : IsShortItem c.1 ∧ IsShortItem c.2)
    (scope : Query) (right : FromItem) :
    readCondition scope right (conditionText c) = readPair scope right c := by
  have htrimmed := (part_conditionText h).trimmed
  have hunwrap : unwrap? (conditionText c) = none := h.1.word.unwrap?_append htrimmed
  unfold readCondition readPair
  simp only [hunwrap, Option.getD_none, cutPattern?_conditionText h.1,
    h.1.word.unquoteName_padded.1, h.2.word.unquoteName_padded.2]

/-- The conditions of a join are read pair by pair. -/
theorem readConditions_conditionsText {conditions : List (Item × Item)} (hne : conditions ≠ [])
    (h : ∀ c ∈ conditions, IsShortItem c.1 ∧ IsShortItem c.2) (left right : FromItem) :
    readConditions q left right (conditionsText conditions) =
      conditions.mapM (readPair { q with sources := q.sources ++ [left, right] } right) := by
  have htrimmed := (part_conditionsText hne h).trimmed
  have hunwrap : unwrap? (conditionsText conditions) = none := by
    obtain ⟨c, rest, rfl⟩ := List.exists_cons_of_ne_nil hne
    obtain ⟨v, hv⟩ : conditionText c <+: conditionsText (c :: rest) := by
      unfold conditionsText
      cases rest with
      | nil => simp
      | cons d rest => simp [List.intercalate_cons_cons]
    rw [← hv, conditionText, List.append_assoc] at htrimmed ⊢
    exact (h c List.mem_cons_self).1.word.unwrap?_append htrimmed
  have hparts : ∀ w ∈ conditions.map conditionText, Part [','] cuttingWords w := by
    intro w hw
    obtain ⟨c, hc, rfl⟩ := List.mem_map.mp hw
    exact part_conditionText (h c hc)
  have hsplit : splitOn " AND ".toList (conditionsText conditions) = conditions.map conditionText :=
    splitOn_connected (isWord_connective .and) hparts (by decide)
  unfold readConditions
  simp only [hunwrap, Option.getD_none, hsplit, List.mapM_map]
  exact mapM_congr fun c hc => readCondition_conditionText (h c hc) _ _

/-- The joins of a chain behind its left side, with conditions read anew. -/
def readLinks (q : Query) (left : FromItem) : List Link → Reader FromItem
  | [] => return left
  | link :: links => do
    let conditions ← link.conditions.mapM
      (readPair { q with sources := q.sources ++ [left, link.source] } link.source)
    let join ← (FromItem.join? link.kind left link.source (conditions.map (·.1))
      (conditions.map (·.2)) : Except QueryError FromItem)
    readLinks q join links

theorem lift_ok {α : Type} (a : α) : (liftM (.ok a : Except QueryError α) : Reader α) = pure a := rfl

/-- One join is read from its text, which the kind of the next one may follow. -/
theorem readJoins_linkText {depth : Nat} {left : FromItem} {part : List Char} {next : JoinKind}
    {parts : List (List Char)} (hlink : IsPlainLink link)
    (hcatalog : catalog.table? link.table.name = some link.table)
    (hpart : (parts.isEmpty = true ∧ Text.trim part = linkText link ∧ next = .inner) ∨
      (parts.isEmpty = false ∧ splitJoinKind part token = .ok (linkText link, next))) :
    readJoins (readSimple catalog depth) q token left link.kind (part :: parts) = (do
      let conditions ← link.conditions.mapM
        (readPair { q with sources := q.sources ++ [left, link.source] } link.source)
      let join ← (FromItem.join? link.kind left link.source (conditions.map (·.1))
        (conditions.map (·.2)) : Except QueryError FromItem)
      readJoins (readSimple catalog depth) q token join next parts) := by
  have hblank : ∀ c ∈ [' '], isBlank c = true := by simp [isBlank]
  have hon : Part [] ["ON".toList] (sourceText link.table link.aliasName) :=
    hlink.source.part.mono (List.nil_subset _) (by simp)
  have hcut : cutKeyword? ['O', 'N'] none (linkText link) =
      some (sourceText link.table link.aliasName ++ [' '], ' ' :: conditionsText link.conditions) :=
    cutKeyword?_joined (isWord_of_all (by decide) (by decide)) hon _
  have hsource : readSimple catalog depth (sourceText link.table link.aliasName ++ [' ']) =
      pure link.source := by
    rw [← readSimple_trim, hlink.source.part.trimmed.trim_append_blanks hblank]
    exact hlink.source.readSimple hcatalog depth
  have hconditions : Text.trim (' ' :: conditionsText link.conditions) =
      conditionsText link.conditions :=
    (Text.trim_blanks_append hblank).trans
      (part_conditionsText hlink.nonempty hlink.conditions).trimmed.trim_eq
  have hread := readConditions_conditionsText (q := q) hlink.nonempty hlink.conditions left link.source
  rcases hpart with ⟨hempty, htrim, rfl⟩ | ⟨hempty, hsplit⟩
  · simp only [readJoins, hempty, if_true, htrim, pure_bind, hcut, hsource, hconditions, hread]
  · simp only [readJoins, hempty, Bool.false_eq_true, if_false, hsplit, lift_ok, pure_bind, hcut, hsource,
      hconditions, hread]

/-- **Joins are read from the parts of a chain**, one after the other. -/
theorem readJoins_chainParts (depth : Nat) (left : FromItem)
    (h : ∀ l ∈ link :: links, IsPlainLink l ∧ catalog.table? l.table.name = some l.table) :
    readJoins (readSimple catalog depth) q token left link.kind (chainParts (linkText link) links) =
      readLinks q left (link :: links) := by
  obtain ⟨⟨hplain, hcatalog⟩, hrest⟩ := List.forall_mem_cons.mp h
  have htrimmed := (part_linkText hplain).trimmed
  induction links generalizing left link with
  | nil =>
    rw [chainParts, readJoins_linkText hplain hcatalog (Or.inl ⟨rfl, htrimmed.trim_eq, rfl⟩), readLinks]
    rfl
  | cons next links ih =>
    obtain ⟨⟨hnext, hnextCatalog⟩, hlater⟩ := List.forall_mem_cons.mp hrest
    have hmore : (chainParts (linkText next) links).isEmpty = false :=
      List.isEmpty_eq_false_iff.mpr (chainParts_ne_nil _ _)
    rw [chainParts, readJoins_linkText hplain hcatalog
      (Or.inr ⟨hmore, splitJoinKind_sql htrimmed next.kind token⟩), readLinks]
    simp only [fun join => ih join hrest hlater hnext hnextCatalog (part_linkText hnext).trimmed]

/-- **The text of a chain is read join by join.** -/
theorem readFromItem_chainText (depth : Nat) (hsource : IsPlainSource t aliasName)
    (hcatalog : catalog.table? t.name = some t)
    (h : ∀ l ∈ links, IsPlainLink l ∧ catalog.table? l.table.name = some l.table) :
    readFromItem (readSimple catalog depth) q (chainText (sourceText t aliasName) links) =
      readLinks q (.table t aliasName) links := by
  have htext : Part [','] ("JOIN".toList :: clauseWords) (sourceText t aliasName) :=
    hsource.part.mono (by decide) (by decide)
  have hparts : ∀ w ∈ chainParts (sourceText t aliasName) links, Part [] ["JOIN".toList] w :=
    fun w hw => (part_chainParts htext (fun l hl => (h l hl).1) w hw).mono (List.nil_subset _) (by simp)
  have hsplit : (splitKeyword "JOIN".toList (chainText (sourceText t aliasName) links)).map Text.trim =
      chainParts (sourceText t aliasName) links :=
    splitKeyword_joined (isWord_of_all (by decide) (by decide)) (chainParts_ne_nil _ _) hparts
  cases links with
  | nil =>
    have hone : chainText (sourceText t aliasName) [] = sourceText t aliasName := by
      simp [chainText, chainParts]
    rw [hone] at hsplit ⊢
    obtain ⟨part, hpart, -⟩ := List.map_eq_singleton_iff.mp hsplit
    unfold readFromItem
    rw [hpart]
    exact hsource.readSimple hcatalog depth
  | cons link links =>
    obtain ⟨first, rest, hfound, hfirst, hrest⟩ := List.map_eq_cons_iff.mp hsplit
    obtain ⟨part, parts, rfl⟩ : ∃ part parts, rest = part :: parts := by
      refine List.exists_cons_of_ne_nil fun hnil => ?_
      rw [hnil] at hrest
      exact chainParts_ne_nil _ _ hrest.symm
    have hkind : splitJoinKind first (chainText (sourceText t aliasName) (link :: links)) =
        .ok (sourceText t aliasName, link.kind) := by
      rw [← splitJoinKind_trim, hfirst]
      exact splitJoinKind_sql hsource.part.trimmed link.kind _
    unfold readFromItem
    simp only [hfound, hkind]
    show (do
      let left ← readSimple catalog depth (sourceText t aliasName)
      readJoins (readSimple catalog depth) q _ left link.kind (part :: parts)) = _
    rw [hsource.readSimple hcatalog, pure_bind, ← readJoins_map_trim, hrest]
    exact readJoins_chainParts depth _ h

end Reading

end Grammar

end DocQuery
