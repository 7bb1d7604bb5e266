import DocQuery.Proofs.Grammar.FilledQueries
import DocQuery.Proofs.Grammar.PagingReaders
import DocQuery.Proofs.Grammar.Refusals

/-!
# DocQuery.Proofs.Grammar.ClauseOrder — LIMIT and OFFSET in front of an earlier clause

Clauses are found by one search per keyword, each behind the place of the one before.  A count of rows in
front of a clause that comes earlier is thus left in the text of another clause, or it has that clause
behind it as letters in a count (`exists_caught_of_locateClauses`).  No count is read with letters, and
every other clause hands the phrase on until a name takes it.  So a misplaced count of rows is refused, or
the query has a name with the phrase in it (`misplaced_paging_refused_or_named`).
-/

namespace DocQuery.Grammar

/-! ## Misplaced counts of rows -/

/-- The phrase stands at top level, and behind it, at top level too, the keyword of a clause that comes
earlier. -/
def Paging.Misplaced (p : Paging) (w : List Char) : Prop :=
  ∃ u v, w = u ++ (p.text ++ v) ∧ Balanced u ∧
    ∃ keyword ∈ clauseKeywords.takeWhile (· ≠ p.clause),
      (cutKeyword? keyword.toList p.count.getLast? v).isSome = true

/-- A clause that a misplaced count is left to: its text shows the phrase, or it is a count with letters
in it. -/
def Paging.Caught (p : Paging) (clause : String × List Char) : Prop :=
  p.Shows clause.2 ∨ (clause.1 = "LIMIT" ∨ clause.1 = "OFFSET") ∧ ∃ c ∈ clause.2, c.isAlpha = true

section Location

variable {p : Paging} {keyword : String} {w text after v : List Char} {before : Option Char}

/-- A keyword is found as it is spelled, in any case, behind a text that closes what it opens. -/
theorem exists_of_cutKeyword? {keyword : List Char}
    (h : cutKeyword? keyword before w = some (text, after)) :
    ∃ d, w = text ++ (d ++ after) ∧ d.map Char.toLower = keyword.map Char.toLower ∧
      (Scanner.run {} text).isTopLevel = true ∧ touchesWord (lastOr before text) = false := by
  obtain ⟨⟨skipped, found, rest⟩, hfound, heq⟩ := Option.map_eq_some_iff.mp h
  cases heq
  obtain ⟨t, rfl, htop, htest, -⟩ := findTop?_eq_some hfound
  obtain ⟨rest, hrest, heq⟩ := Option.map_eq_some_iff.mp htest
  cases heq
  obtain ⟨d, rfl, hd, hword⟩ := exists_of_afterKeyword? hrest
  exact ⟨d, rfl, hd, htop, hword⟩

theorem mem_takenPatterns_of_mem_clauseKeywords :
    ∀ keyword ∈ clauseKeywords, keyword.toList ∈ takenPatterns := by decide

/-- Where a keyword and a phrase begin alike, the keyword is that of the phrase, and the count follows. -/
theorem eq_of_phrase_at_keyword (hkeyword : keyword ∈ clauseKeywords) {d : List Char}
    (hd : d.map Char.toLower = keyword.toList.map Char.toLower) (h : d ++ after = p.text ++ v) :
    keyword = p.clause ∧ after = ' ' :: (p.count ++ v) := by
  have hlower := congrArg (List.map Char.toLower) h
  rw [Paging.text, List.append_assoc, List.map_append, List.map_append, hd, p.spelled] at hlower
  have happart : ∀ keyword ∈ clauseKeywords, ∀ clause, clause = "LIMIT" ∨ clause = "OFFSET" →
      keyword.toList.map Char.toLower <+: clause.toList.map Char.toLower ∨
        clause.toList.map Char.toLower <+: keyword.toList.map Char.toLower → keyword = clause := by
    rintro keyword hkeyword clause (rfl | rfl) <;> revert keyword <;> decide
  have heq := happart keyword hkeyword p.clause p.isPaging (List.prefix_or_prefix_of_prefix
    (hlower ▸ List.prefix_append _ _) (List.prefix_append _ _))
  refine ⟨heq, ?_⟩
  have hlength : d.length = p.keyword.length := by
    rw [← List.length_map Char.toLower, hd, heq, ← p.spelled, List.length_map]
  rw [Paging.text, List.append_assoc] at h
  exact (List.append_inj h hlength).2

/-- The letters of a text, in lower case. -/
def lettersOf (w : List Char) : List Char := (w.map Char.toLower).filter Char.isAlpha

theorem lettersOf_append (u w : List Char) : lettersOf (u ++ w) = lettersOf u ++ lettersOf w := by
  rw [lettersOf, List.map_append, List.filter_append]
  rfl

theorem lettersOf_eq_nil (h : ¬ ∃ c ∈ w, c.isAlpha = true) : lettersOf w = [] := by
  rw [lettersOf, List.filter_eq_nil_iff]
  intro c hc halpha
  obtain ⟨d, hd, rfl⟩ := List.mem_map.mp hc
  exact h ⟨d, hd, isAlpha_of_toLower halpha⟩

/-- The letters of a keyword that is found are letters of the text. -/
theorem infix_lettersOf (h : (cutKeyword? keyword.toList before w).isSome = true) :
    lettersOf keyword.toList <:+: lettersOf w := by
  obtain ⟨⟨front, behind⟩, hfound⟩ := Option.isSome_iff_exists.mp h
  obtain ⟨d, rfl, hd, -, -⟩ := exists_of_cutKeyword? hfound
  have hspelled : lettersOf d = lettersOf keyword.toList := congrArg (List.filter Char.isAlpha) hd
  rw [lettersOf_append, lettersOf_append, hspelled]
  exact List.infix_append' _ _ _

/-- No keyword in front of LIMIT is a part of OFFSET, so its letters are around that word. -/
theorem exists_isAlpha_around_offset (hearlier : keyword ∈ clauseKeywords.takeWhile (· ≠ "LIMIT"))
    (h : lettersOf keyword.toList <:+: lettersOf w)
    (hoffset : cutKeyword? "OFFSET".toList before w = some (text, after)) :
    (∃ c ∈ text, c.isAlpha = true) ∨ ∃ c ∈ after, c.isAlpha = true := by
  obtain ⟨d, rfl, hd, -, -⟩ := exists_of_cutKeyword? hoffset
  by_contra hnone
  rw [not_or] at hnone
  have hspelled : lettersOf d = lettersOf "OFFSET".toList := congrArg (List.filter Char.isAlpha) hd
  rw [lettersOf_append, lettersOf_append, lettersOf_eq_nil hnone.1, lettersOf_eq_nil hnone.2, hspelled,
    List.append_nil, List.nil_append] at h
  have hall : ∀ keyword ∈ clauseKeywords.takeWhile (· ≠ "LIMIT"),
      ¬ lettersOf keyword.toList <:+: lettersOf "OFFSET".toList := by decide
  exact hall keyword hearlier h

/-- **Behind a phrase at the start of its clause a misplaced keyword leaves letters in a count**: in that
of the phrase, or in that of OFFSET behind LIMIT. -/
theorem exists_caught_of_clause {keywords : List String}
    (hkeywords : p.clause :: keywords <:+ clauseKeywords)
    (hearlier : keyword ∈ clauseKeywords.takeWhile (· ≠ p.clause))
    (hcut : (cutKeyword? keyword.toList before v).isSome = true) :
    ∃ clause ∈ clausesAfter p.clause (' ' :: (p.count ++ v)) keywords, p.Caught clause := by
  have hinfix : lettersOf keyword.toList <:+: lettersOf (' ' :: (p.count ++ v)) := by
    have hrest : lettersOf (' ' :: (p.count ++ v)) = lettersOf (' ' :: p.count) ++ lettersOf v := by
      rw [← lettersOf_append, List.cons_append]
    exact hrest ▸ (infix_lettersOf hcut).trans (List.suffix_append _ _).isInfix
  have hletters : ∃ c ∈ ' ' :: (p.count ++ v), c.isAlpha = true := by
    by_contra hnone
    rw [lettersOf_eq_nil hnone, List.infix_nil] at hinfix
    have hall : ∀ keyword ∈ clauseKeywords, lettersOf keyword.toList ≠ [] := by decide
    exact hall keyword ((List.takeWhile_prefix _).subset hearlier) hinfix
  have hlast : ∀ l ∈ clauseKeywords.tails, (l.head? = some "LIMIT" → l.tail = ["OFFSET"]) ∧
      (l.head? = some "OFFSET" → l.tail = []) := by decide
  have hrest := hlast _ ((List.mem_tails _ _).mpr hkeywords)
  rcases p.isPaging with hclause | hclause
  · obtain rfl := hrest.1 (congrArg some hclause)
    rw [clausesAfter]
    split
    next text after hoffset =>
      rcases exists_isAlpha_around_offset (hclause ▸ hearlier) hinfix hoffset with hcount | hcount
      · exact ⟨_, List.mem_cons_self, Or.inr ⟨p.isPaging, hcount⟩⟩
      · exact ⟨_, List.mem_cons_of_mem _ (List.mem_singleton_self _), Or.inr ⟨Or.inr rfl, hcount⟩⟩
    next => exact ⟨_, List.mem_singleton_self _, Or.inr ⟨p.isPaging, hletters⟩⟩
  · obtain rfl := hrest.2 (congrArg some hclause)
    exact ⟨_, List.mem_singleton_self _, Or.inr ⟨p.isPaging, hletters⟩⟩

/-- **The clauses behind a keyword leave a misplaced count to one of them**, by induction on the keywords
that are looked for. -/
theorem exists_caught_of_clausesAfter {current : String} {keywords : List String} {rest u : List Char}
    (hkeywords : keywords <:+ clauseKeywords) (hrest : rest = u ++ (p.text ++ v)) (hu : Balanced u)
    (hearlier : keyword ∈ clauseKeywords.takeWhile (· ≠ p.clause))
    (hcut : (cutKeyword? keyword.toList p.count.getLast? v).isSome = true) :
    ∃ clause ∈ clausesAfter current rest keywords, p.Caught clause := by
  induction keywords generalizing current rest u with
  | nil => exact ⟨_, List.mem_singleton_self _, Or.inl ⟨u, v, hrest, hu⟩⟩
  | cons next keywords ih =>
    have hmem : next ∈ clauseKeywords := hkeywords.subset List.mem_cons_self
    have hlater : keywords <:+ clauseKeywords := (List.suffix_cons next keywords).trans hkeywords
    rw [clausesAfter]
    split
    next text after hfound =>
      obtain ⟨d, rfl, hd, htop, hword⟩ := exists_of_cutKeyword? hfound
      -- The phrase is in front of this keyword, behind it, or the keyword is the one of the phrase.
      rcases Paging.cut_cases hrest hu htop hd (mem_takenPatterns_of_mem_clauseKeywords next hmem)
        (Or.inl hword) with hfront | ⟨-, z, rfl, hz⟩ | ⟨-, hhere⟩
      · exact ⟨_, List.mem_cons_self, Or.inl hfront⟩
      · obtain ⟨clause, hclause, hcaught⟩ := @ih next _ _ hlater rfl hz
        exact ⟨clause, List.mem_cons_of_mem _ hclause, hcaught⟩
      · obtain ⟨rfl, rfl⟩ := eq_of_phrase_at_keyword hmem hd hhere
        obtain ⟨clause, hclause, hcaught⟩ := exists_caught_of_clause hkeywords hearlier hcut
        exact ⟨clause, List.mem_cons_of_mem _ hclause, hcaught⟩
    next => exact ih hlater hrest hu

theorem Paging.Caught.trim (h : p.Caught (keyword, text)) : p.Caught (keyword, Text.trim text) := by
  refine h.imp Paging.Shows.trim (And.imp_right ?_)
  rintro ⟨c, hc, halpha⟩
  exact ⟨c, mem_trim hc (isBlank_of_isWordChar (isWordChar_of_isAlpha halpha)), halpha⟩

theorem exists_caught_of_checkClauses {clauses checked : List (String × List Char)}
    (h : checkClauses w clauses = .ok checked) (hcaught : ∃ clause ∈ clauses, p.Caught clause) :
    ∃ clause ∈ checked, p.Caught clause := by
  obtain ⟨-, rfl⟩ := checkClauses_eq_ok_iff.mp h
  obtain ⟨clause, hclause, hcaught⟩ := hcaught
  exact ⟨_, List.mem_map_of_mem hclause, hcaught.trim⟩

/-- **A misplaced count of rows is left to a clause.** -/
theorem exists_caught_of_locateClauses {clauses : List (String × List Char)}
    (h : locateClauses w = .ok clauses) (hw : p.Misplaced w) : ∃ clause ∈ clauses, p.Caught clause := by
  obtain ⟨u, v, hw, hu, keyword, hearlier, hcut⟩ := hw
  obtain ⟨rest, hselect, -, hchecked⟩ := locateClauses_eq_ok_iff.mp h
  obtain ⟨d, heq, hd, htop, hword⟩ := exists_of_cutKeyword? hselect
  rw [hw] at heq
  refine exists_caught_of_checkClauses hchecked ?_
  have hcases := Paging.cut_cases heq.symm hu htop hd (by decide) (Or.inl hword)
  rcases hcases with hnil | ⟨-, z, hrest, hz⟩ | ⟨-, hhere⟩
  · exact absurd rfl hnil.holds.ne_nil
  · exact exists_caught_of_clausesAfter (List.drop_suffix 1 clauseKeywords) hrest hz hearlier hcut
  · have hselect : "SELECT" ∈ clauseKeywords := List.mem_cons_self
    obtain ⟨hclause, -⟩ := eq_of_phrase_at_keyword hselect hd hhere
    rcases p.isPaging with hpaging | hpaging <;> exact absurd (hclause.trans hpaging) (by decide)

end Location

/-! ## The clause that is left with a count -/

/-- The items that the clause of a keyword puts into a query. -/
def itemsOfClause (keyword : String) (q : Query) : List Item :=
  match keyword with
  | "SELECT" => q.select
  | "WHERE" => Filter.itemsOf q.filters
  | "GROUP BY" => q.groupBy
  | "HAVING" => Filter.itemsOf q.having
  | "ORDER BY" => q.orderBy.map (·.item)
  | _ => []

section Clauses

variable {p : Paging} {catalog : Catalog} {q : Query} {keyword : String} {text : List Char}

theorem itemsOfClause_subset (keyword : String) (q : Query) :
    itemsOfClause keyword q ⊆ q.itemsOfClauses := by
  intro i hi
  unfold itemsOfClause at hi
  unfold QueryOf.itemsOfClauses
  split at hi <;> simp_all

/-- A query that differs from another in the clause of a keyword at most, and not in its from items. -/
structure DiffersIn (keyword : String) (q q' : Query) : Prop where
  sources : q'.sources = q.sources
  select : keyword = "SELECT" ∨ q'.select = q.select
  filters : keyword = "WHERE" ∨ q'.filters = q.filters
  groupBy : keyword = "GROUP BY" ∨ q'.groupBy = q.groupBy
  having : keyword = "HAVING" ∨ q'.having = q.having
  orderBy : keyword = "ORDER BY" ∨ q'.orderBy = q.orderBy

theorem DiffersIn.itemsOfClause_eq {q' : Query} (h : DiffersIn keyword q q') {other : String}
    (hother : other ≠ keyword) : itemsOfClause other q' = itemsOfClause other q := by
  unfold itemsOfClause
  split
  · rw [h.select.resolve_left (Ne.symm hother)]
  · rw [h.filters.resolve_left (Ne.symm hother)]
  · rw [h.groupBy.resolve_left (Ne.symm hother)]
  · rw [h.having.resolve_left (Ne.symm hother)]
  · rw [h.orderBy.resolve_left (Ne.symm hother)]
  · rfl

/-- **Reading a clause changes no other clause.** -/
theorem differsIn_readClause (catalog : Catalog) (q : Query) (keyword : String) (text : List Char) :
    Yields (readClause catalog q keyword text) (DiffersIn keyword q) := by
  unfold readClause
  split
  · unfold readSelect
    dsimp only
    refine (yields_true _).bind fun items _ => ?_
    split
    · exact yields_throw _
    · exact yields_pure ⟨rfl, .inl rfl, .inr rfl, .inr rfl, .inr rfl, .inr rfl⟩
  · exact (yields_true _).bind fun filters _ => yields_pure
      ⟨rfl, .inr rfl, .inl rfl, .inr rfl, .inr rfl, .inr rfl⟩
  · exact (yields_true _).bind fun items _ => yields_pure
      ⟨rfl, .inr rfl, .inr rfl, .inl rfl, .inr rfl, .inr rfl⟩
  · exact (yields_true _).bind fun filters _ => yields_pure
      ⟨rfl, .inr rfl, .inr rfl, .inr rfl, .inl rfl, .inr rfl⟩
  · exact (yields_true _).bind fun items _ => yields_pure
      ⟨rfl, .inr rfl, .inr rfl, .inr rfl, .inr rfl, .inl rfl⟩
  · exact (yields_true _).bind fun n _ => yields_pure
      ⟨rfl, .inr rfl, .inr rfl, .inr rfl, .inr rfl, .inr rfl⟩
  · exact (yields_true _).bind fun n _ => yields_pure
      ⟨rfl, .inr rfl, .inr rfl, .inr rfl, .inr rfl, .inr rfl⟩
  · exact yields_pure ⟨rfl, .inr rfl, .inr rfl, .inr rfl, .inr rfl, .inr rfl⟩

theorem differsIn_readClauses {clauses : List (String × List Char)}
    (hkeyword : keyword ∉ clauses.map Prod.fst) : Yields
    (clauses.foldlM (fun q (keyword, text) => readClause catalog q keyword text) q)
    fun q' => q'.sources = q.sources ∧ itemsOfClause keyword q' = itemsOfClause keyword q := by
  induction clauses generalizing q with
  | nil => exact yields_pure ⟨rfl, rfl⟩
  | cons clause rest ih =>
    rw [List.map_cons, List.mem_cons, not_or] at hkeyword
    rw [List.foldlM_cons]
    refine (differsIn_readClause catalog q clause.1 clause.2).bind fun next hnext => ?_
    refine (ih hkeyword.2).mono ?_
    rintro q' ⟨hsources, hitems⟩
    exact ⟨hsources.trans hnext.sources, hitems.trans (hnext.itemsOfClause_eq hkeyword.1)⟩

/-- **A clause that shows a phrase puts it into the text of an item**, unless a from item names it; a
count with letters in it is not read at all. -/
theorem yields_caught_clause (hcatalog : catalog.expressions = false) (h : p.Caught (keyword, text))
    (hkeyword : keyword ∈ clauseKeywords) (hfrom : keyword ≠ "FROM") :
    Yields (readClause catalog q keyword text) fun q' =>
      ShowsPaging catalog p q (itemsOfClause keyword q') := by
  have hshows (hclause : keyword ≠ "LIMIT" ∧ keyword ≠ "OFFSET") : p.Shows text :=
    h.resolve_right fun hcaught => hcaught.1.elim hclause.1 hclause.2
  have hletter : keyword = "LIMIT" ∨ keyword = "OFFSET" → ∃ c ∈ text, c.isAlpha = true := by
    intro hclause
    rcases h with hshows | hcaught
    · obtain ⟨c, hc, halpha⟩ := Paging.exists_isAlpha (p := p) (List.append_nil _).symm p.text_ne_nil
      exact ⟨c, hshows.holds.mem hc, halpha⟩
    · exact hcaught.2
  have hcount {clause : String} {n : Nat} (hclause : keyword = "LIMIT" ∨ keyword = "OFFSET") :
      readCount clause text ≠ .ok n := by
    obtain ⟨c, hc, halpha⟩ := hletter hclause
    unfold readCount
    rw [readIndex?_eq_none hc halpha]
    exact nofun
  -- One case for each clause; those of LIMIT and OFFSET read counts, the others items.
  simp only [clauseKeywords, List.mem_cons, List.not_mem_nil, or_false] at hkeyword
  rcases hkeyword with rfl | rfl | rfl | rfl | rfl | rfl | rfl | rfl
  · exact yields_shown_select hcatalog (hshows (by decide))
  · exact absurd rfl hfrom
  · refine (yields_shown_filters catalog (hshows (by decide)) "WHERE").bind fun filters hfilters => ?_
    exact yields_pure hfilters
  · exact yields_shown_groupBy (hshows (by decide))
  · refine (yields_shown_filters catalog (hshows (by decide)) "HAVING").bind fun filters hfilters => ?_
    exact yields_pure hfilters
  · exact yields_shown_orderBy (hshows (by decide))
  · exact yields_lift.bind fun n hn => absurd hn (hcount (Or.inl rfl))
  · refine yields_lift.bind fun n hn => ?_
    obtain ⟨m, hm, -⟩ := exists_of_bind_eq_ok hn
    exact absurd hm (hcount (Or.inr rfl))

/-- **Of the clauses other than FROM the one that is left with a count makes the query name its phrase**,
by induction on the clauses: what it puts into the query stays there. -/
theorem yields_caught_clauses (hcatalog : catalog.expressions = false)
    {clauses : List (String × List Char)} (hkeywords : (clauses.map Prod.fst).Sublist clauseKeywords)
    (hcaught : ∃ clause ∈ clauses, p.Caught clause ∧ clause.1 ≠ "FROM") :
    Yields (clauses.foldlM (fun q (keyword, text) => readClause catalog q keyword text) q)
      (·.NamesPaging catalog p) := by
  have hnodup : (clauses.map Prod.fst).Nodup := hkeywords.nodup (by decide)
  induction clauses generalizing q with
  | nil =>
    obtain ⟨clause, hclause, -⟩ := hcaught
    cases hclause
  | cons clause rest ih =>
    rw [List.map_cons, List.nodup_cons] at hnodup
    rw [List.map_cons] at hkeywords
    rw [List.exists_mem_cons_iff] at hcaught
    rw [List.foldlM_cons]
    rcases hcaught with ⟨hcaught, hfrom⟩ | hlater
    · have hmem : clause.1 ∈ clauseKeywords := hkeywords.subset List.mem_cons_self
      have hclause := (yields_caught_clause (q := q) hcatalog hcaught hmem hfrom).and
        (differsIn_readClause catalog q clause.1 clause.2)
      refine hclause.bind fun next ⟨hshown, hnext⟩ => (differsIn_readClauses hnodup.1).mono ?_
      rintro q' ⟨hsources, hitems⟩
      rcases hshown with ⟨i, hi, hnames⟩ | ⟨f, hf, hnames⟩
      · exact Or.inl ⟨i, itemsOfClause_subset clause.1 q' (hitems ▸ hi), hnames⟩
      · exact Or.inr ⟨f, by rwa [hsources, hnext.sources], hnames⟩
    · refine (yields_true _).bind fun next _ => ?_
      exact ih ((List.sublist_cons_self _ _).trans hkeywords) hlater hnodup.2

/-- The value of a key that is there once. -/
theorem lookup_eq_some {α : Type} {l : List (String × α)} {key : String} {a : α}
    (hnodup : (l.map Prod.fst).Nodup) (h : (key, a) ∈ l) : l.lookup key = some a := by
  obtain ⟨front, behind, rfl⟩ := List.append_of_mem h
  rw [List.lookup_eq_some_iff]
  refine ⟨front, behind, rfl, fun pair hpair => ?_⟩
  rw [List.map_append, List.nodup_append] at hnodup
  have hne := hnodup.2.2 pair.1 (List.mem_map_of_mem hpair) key List.mem_cons_self
  simpa using Ne.symm hne

/-- **A count of rows in front of an earlier clause is refused or named.**  As long as select items are no
expressions, a query text with a misplaced count is refused, or the query that is read has the count behind
its keyword in a name: in the text of an item, in the label of a from item, or in the name of a table and
its alias.  A text that leaves a quote or a parenthesis open is refused in any case. -/
theorem misplaced_paging_refused_or_named (hcatalog : catalog.expressions = false) {sql : String}
    (h : ∀ text, normalize sql.toList = .ok text → p.Misplaced text) (s : State) :
    (∃ e s', (readQuery catalog sql).run s = (.error e, s') ∧ e.IsRefusal) ∨
      ∃ q s', (readQuery catalog sql).run s = (.ok q, s') ∧ q.NamesPaging catalog p := by
  rcases hrun : (readQuery catalog sql).run s with ⟨result, s'⟩
  cases result with
  | error e => exact Or.inl ⟨e, s', rfl, onlyRefuses_readQuery hcatalog sql s e s' hrun⟩
  | ok q =>
    refine Or.inr ⟨q, s', rfl, ?_⟩
    obtain ⟨text, clauses, read, k, last, hnormalize, hlocate, hread, hclauses, -⟩ :=
      exists_of_readQuery hrun
    have hkeywords := sublist_of_locateClauses hlocate
    obtain ⟨⟨keyword, token⟩, hmem, hcaught⟩ :=
      exists_caught_of_locateClauses hlocate (h text hnormalize)
    -- FROM is read before the other clauses, which are read in turn over its from items.
    by_cases hfrom : keyword = "FROM"
    · subst hfrom
      have hshows : p.Shows token := hcaught.resolve_right fun hcount =>
        hcount.1.elim (show "FROM" ≠ "LIMIT" by decide) (show "FROM" ≠ "OFFSET" by decide)
      rw [lookup_eq_some (hkeywords.nodup (by decide)) hmem, Option.getD_some] at hread
      obtain ⟨part, hpart, hpartShows⟩ := hshows.of_splitOn (d := [',']) (by decide) (by decide)
      obtain ⟨f, hf, hnames⟩ := yields_named_fromItems (fun h => yields_named_simple _ h)
        (Or.inl ⟨part, hpart, hpartShows⟩) _ _ _ hread
      exact Or.inr ⟨f, by rwa [sources_of_readClauses _ _ _ hclauses], hnames⟩
    · exact yields_caught_clauses hcatalog hkeywords ⟨_, hmem, hcaught, hfrom⟩ _ _ _ hclauses

/-- The phrase `OFFSET 2`. -/
def offsetTwo : Paging where
  clause := "OFFSET"
  keyword := "OFFSET".toList
  count := ['2']
  isPaging := Or.inr rfl
  spelled := rfl
  nonempty := by decide
  digits := by decide

/-- OFFSET in front of LIMIT is no alias of a table. -/
theorem misplaced_paging_refused : ∃ e s', (readQuery pairs "SELECT a FROM t OFFSET 2 LIMIT 5").run {} =
    (.error e, s') ∧ e.IsRefusal := by
  have hnormalize : normalize "SELECT a FROM t OFFSET 2 LIMIT 5".toList =
      .ok "SELECT a FROM t OFFSET 2 LIMIT 5".toList := by decide +kernel
  have hmisplaced : offsetTwo.Misplaced "SELECT a FROM t OFFSET 2 LIMIT 5".toList :=
    ⟨"SELECT a FROM t ".toList, " LIMIT 5".toList, by decide, by decide, "LIMIT", by decide, by decide⟩
  have hexpressions : pairs.expressions = false := rfl
  have hcases := misplaced_paging_refused_or_named hexpressions
    (fun text htext => Except.ok.inj (hnormalize.symm.trans htext) ▸ hmisplaced) {}
  refine hcases.resolve_right ?_
  rintro ⟨q, s', hrun, -⟩
  have hfails : ((readQuery pairs "SELECT a FROM t OFFSET 2 LIMIT 5").run
      {}).1.toOption.isNone = true := by
    decide +kernel
  rw [hrun] at hfails
  cases hfails

/-- A catalog with one table of a number and a document. -/
def documentTables : Catalog where
  table? name := if name = "t" then
    some ⟨"t", [⟨"a", "t", some .number, false⟩, ⟨"doc", "t", some .other, false⟩]⟩ else none

/-- OFFSET in front of LIMIT that is taken for the path into a document. -/
def documentPath : String := "SELECT doc.city FROM t ORDER BY doc.city OFFSET 2 LIMIT 5"

/-- The path into a document takes OFFSET, and the query skips no rows. -/
theorem misplaced_paging_lost : ∃ text q s', normalize documentPath.toList = .ok text ∧
    offsetTwo.Misplaced text ∧ (readQuery documentTables documentPath).run {} = (.ok q, s') ∧
    q.orderBy.map (·.item.sql) = ["MAP_VALUE(doc, 'city OFFSET 2')"] ∧
    q.maxRows = some 5 ∧ q.firstRow = 1 := by
  have hshown : ((readQuery documentTables documentPath).run {}).1.toOption.map
      (fun q => (q.orderBy.map (·.item.sql), q.maxRows, q.firstRow)) =
      some (["MAP_VALUE(doc, 'city OFFSET 2')"], some 5, 1) := by
    decide +kernel
  obtain ⟨q, hq, hshown⟩ := Option.map_eq_some_iff.mp hshown
  obtain ⟨s', hrun⟩ := exists_run_of_toOption hq
  obtain ⟨horder, hpaging⟩ := Prod.mk.inj hshown
  obtain ⟨hmax, hfirst⟩ := Prod.mk.inj hpaging
  have hnormalize : normalize documentPath.toList = .ok documentPath.toList := by decide +kernel
  exact ⟨_, q, s', hnormalize, ⟨"SELECT doc.city FROM t ORDER BY doc.city ".toList, " LIMIT 5".toList,
    by decide, by decide, "LIMIT", by decide, by decide⟩, hrun, horder, hmax, hfirst⟩

end Clauses

end DocQuery.Grammar
