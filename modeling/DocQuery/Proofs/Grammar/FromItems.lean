import DocQuery.Proofs.Grammar.Chains
import DocQuery.Proofs.Grammar.Joins
import Mathlib.Data.List.Induction

/-!
# DocQuery.Proofs.Grammar.FromItems — from items read back from their texts

A join is written behind its left side and without parentheses, so a chain of joins from left to
right is a first table with links behind it (`exists_linked`), and its text is read link by link.
The conditions are read over the from items in front and both sides of their join.  If their columns
can be named there, each text means the column again, the items stand in the order in which they were
put, and the from items are read back as they were (`readQuery_countSql`).  Only the alias of a join is
not written.
-/

namespace DocQuery

open Grammar

namespace FromItem

/-- A from item without the aliases of its joins. -/
def bare : FromItem → FromItem
  | .join kind left right conditions _ => .join kind (bare left) (bare right) conditions none
  | f => f

@[simp] theorem bare_table (t : Table) (aliasName : Option String) :
    (FromItem.table t aliasName).bare = .table t aliasName := rfl

@[simp] theorem leaves_bare (f : FromItem) : f.bare.leaves = f.leaves := by
  cases f with
  | join _ left right _ _ => rw [bare, leaves, leaves, leaves_bare left, leaves_bare right]
  | _ => rfl

/-- The alias of a join is not written. -/
@[simp] theorem sql_bare (f : FromItem) : f.bare.sql = f.sql := by
  cases f with
  | join _ left right _ _ => rw [bare, sql, sql, sql_bare left, sql_bare right]
  | _ => rfl

theorem isChain_bare : {f : FromItem} → f.isChain = true → f.bare.isChain = true
  | .table _ _, h => h
  | .subquery _ _, h => h
  | .expression _ _, h => h
  | .join _ left right _ _, h => by
    rw [isChain, Bool.and_eq_true, Bool.and_eq_true] at h
    obtain ⟨⟨hleft, hright⟩, hconditions⟩ := h
    have hright : right.bare.table?.isSome = true := by
      cases right with
      | table t aliasName => rfl
      | _ => cases hright
    rw [bare, isChain, isChain_bare hleft, hright, hconditions, Bool.and_self, Bool.and_self]

theorem linked_append_singleton (first : FromItem) (links : List Link) (link : Link) :
    first.linked (links ++ [link]) =
      .join link.kind (first.linked links) link.source link.conditions none := by
  simp [linked]

theorem leaves_linked (first : FromItem) (links : List Link) :
    (first.linked links).leaves = first.leaves ++ links.map Link.source := by
  induction links using List.reverseRecOn with
  | nil => simp [linked]
  | append_singleton links link ih =>
    rw [linked_append_singleton, leaves, ih]
    simp [Link.source, leaves]

/-- **A chain is a first table with joins behind it**, the aliases of these aside. -/
theorem exists_linked : (f : FromItem) → f.isChain = true →
    ∃ t aliasName links, f.bare = (FromItem.table t aliasName).linked links
  | .table t aliasName, _ => ⟨t, aliasName, [], rfl⟩
  | .subquery _ _, h => by cases h
  | .expression _ _, h => by cases h
  | .join kind left right conditions _, h => by
    rw [isChain, Bool.and_eq_true, Bool.and_eq_true] at h
    obtain ⟨⟨hleft, hright⟩, -⟩ := h
    obtain ⟨t, aliasName, links, hlinked⟩ := exists_linked left hleft
    cases right with
    | table u other =>
      refine ⟨t, aliasName, links ++ [⟨kind, u, other, conditions⟩], ?_⟩
      rw [linked_append_singleton, ← hlinked]
      rfl
    | _ => cases hright

end FromItem

namespace Grammar

open Text (eqIgnoreCase)

instance (w : List Char) : Decidable (IsName w) :=
  match w with
  | [] => isFalse fun h => by obtain ⟨_, _, h, -⟩ := h.spelling; cases h
  | c :: rest => decidable_of_iff (c.isAlpha = true ∧
      (rest.all fun d => Text.isAlphanumeric d || d == '_') = true ∧
        ∀ k ∈ reservedWords, eqIgnoreCase (c :: rest) k = false)
    ⟨fun h => isName_of_spelling h.1 h.2.1 h.2.2, fun h => by
      obtain ⟨_, _, heq, hc, hrest⟩ := h.spelling
      cases heq
      exact ⟨hc, List.all_eq_true.mpr fun d hd => by simpa using hrest d hd, h.unreserved⟩⟩

/-- From items whose tables and columns have names that they can be written and joined under. -/
def NamedAsWords (sources : List FromItem) : Prop :=
  ∀ leaf ∈ sources.flatMap FromItem.leaves, ∀ t ∈ leaf.table?,
    IsPlainSource t leaf.alias? ∧ ∀ c ∈ t.columns, IsName c.name.toList

instance (w : List Char) : Decidable (IsSourceName w) :=
  decidable_of_iff (IsName w ∧ eqIgnoreCase w "ON".toList = false)
    ⟨fun h => ⟨h.1, h.2⟩, fun h => ⟨h.toIsName, h.notOn⟩⟩

instance (t : Table) (aliasName : Option String) : Decidable (IsPlainSource t aliasName) :=
  decidable_of_iff (IsSourceName t.name.toList ∧ ∀ a ∈ aliasName, IsSourceName a.toList)
    ⟨fun h => ⟨h.1, h.2⟩, fun h => ⟨h.table, h.aliasName⟩⟩

instance (sources : List FromItem) : Decidable (NamedAsWords sources) :=
  inferInstanceAs (Decidable (∀ leaf ∈ sources.flatMap FromItem.leaves, ∀ t ∈ leaf.table?,
    IsPlainSource t leaf.alias? ∧ ∀ c ∈ t.columns, IsName c.name.toList))

/-! ## The same leaves -/

section Leaves

variable {p q : Query} {c : Column} {scope : Option String} {i j : Item} {f g source : FromItem}

/-- What names mean depends on the leaves of from items only. -/
theorem resolveColumn_congr (h : p.sources.map FromItem.leaves = q.sources.map FromItem.leaves)
    (name : List Char) : resolveColumn p name = resolveColumn q name := by
  have hleaves : p.sources.flatMap FromItem.leaves = q.sources.flatMap FromItem.leaves := by
    rw [List.flatMap_def, List.flatMap_def, h]
  have hsource (reference : String) : p.source? reference = q.source? reference := by
    have hreferenced (sources : List FromItem) : sources.findSome? (·.referenced? reference) =
        (sources.map FromItem.leaves).findSome? fun leaves =>
          (spelled? FromItem.alias? leaves reference <|>
            leaves.find? fun leaf => leaf.bareName?.any (Text.sameName · reference)) := by
      rw [List.findSome?_map]
      congr 1
      funext f
      exact f.referenced?_eq reference
    rw [QueryOf.source?, QueryOf.source?, hreferenced, hreferenced, h]
  simp only [resolveColumn, hsource, hleaves]

theorem Named.congr (hnamed : Named p c scope)
    (h : p.sources.map FromItem.leaves = q.sources.map FromItem.leaves) : Named q c scope := by
  obtain ⟨name, hname⟩ := hnamed
  exact ⟨name, resolveColumn_congr h name ▸ hname⟩

theorem belongsTo_congr (hscope : i.scope = j.scope) (hcolumn : i.column? = j.column?) :
    belongsTo i source = belongsTo j source := by
  unfold belongsTo
  rw [hscope, hcolumn]

theorem belongsTo_bare : belongsTo i source.bare = belongsTo i source := by
  unfold belongsTo
  rw [FromItem.leaves_bare]

theorem map_leaves_bare (near : List FromItem) (left right : FromItem) :
    (near ++ [left, right]).map FromItem.leaves =
      (near ++ [left.bare, right.bare]).map FromItem.leaves := by
  simp

theorem IsReadOn.congr {sources more : List FromItem} (hread : IsReadOn sources i)
    (h : sources.map FromItem.leaves = more.map FromItem.leaves) : IsReadOn more i :=
  fun d hcolumn hfunction =>
    ⟨(hread d hcolumn hfunction).1, (hread d hcolumn hfunction).2.congr h⟩

/-- What was read of a from item does not depend on the aliases of its joins. -/
theorem JoinsRead.bare {before : List FromItem} : {f : FromItem} → JoinsRead before f →
    JoinsRead before f.bare
  | .table _ _, h => h
  | .subquery _ _, h => h
  | .expression _ _, h => h
  | .join _ left right _ _, ⟨hleft, hright, hne, near, hnear, h⟩ => by
    refine ⟨hleft.bare, hright.bare, hne, near, hnear, fun c hc => ?_⟩
    have hleaves := map_leaves_bare near left right
    refine ⟨?_, (h c hc).first.congr hleaves, (h c hc).second.congr hleaves⟩
    rw [belongsTo_bare, belongsTo_bare]
    exact (h c hc).oriented

theorem JoinsNamed.bare {before : List FromItem} : {f : FromItem} → JoinsNamed before f →
    JoinsNamed before f.bare
  | .table _ _, h => h
  | .subquery _ _, h => h
  | .expression _ _, h => h
  | .join _ left right _ _, ⟨hleft, hright, h⟩ => by
    refine ⟨hleft.bare, hright.bare, fun c hc => ?_⟩
    have hleaves := map_leaves_bare before left right
    exact ⟨fun d hd => ((h c hc).1 d hd).congr hleaves, fun d hd => ((h c hc).2 d hd).congr hleaves⟩

end Leaves

/-! ## Conditions -/

section Conditions

variable {q : Query} {c : Column} {scope : Option String}

theorem IsPlainSource.label {t : Table} {aliasName : Option String} (h : IsPlainSource t aliasName) :
    IsName (labelOf t aliasName).toList := by
  cases haliasName : aliasName with
  | none => exact h.table.toIsName
  | some a => exact (h.aliasName a haliasName).toIsName

theorem NamedAsWords.namedPlainly {sources : List FromItem} (h : NamedAsWords sources) :
    NamedPlainly sources := fun leaf hleaf t ht =>
  ⟨(h leaf hleaf t ht).1.label.isPlainWord, fun c hc => ((h leaf hleaf t ht).2 c hc).isPlainWord⟩

theorem NamedAsWords.mono {sources more : List FromItem} (h : NamedAsWords more)
    (hsubset : sources.flatMap FromItem.leaves ⊆ more.flatMap FromItem.leaves) :
    NamedAsWords sources := fun leaf hleaf => h leaf (hsubset hleaf)

/-- The text of a column that some name means is one word that nothing is cut at. -/
theorem Named.part_columnText (h : Named q c scope) (hnames : NamedAsWords q.sources) :
    Part cuttingMarks cuttingWords (columnText c scope) := by
  refine Part.of_isWord (h.isWord_columnText hnames.namedPlainly) cuttingMarks_not_wordChar
    fun k hk => ?_
  have hreserved : k ∈ reservedWords := List.mem_append_left _ hk
  obtain ⟨name, hname⟩ := h
  rcases exists_of_resolveColumn (n := 0) hname rfl rfl with
    ⟨_, _, t, aliasName, -, -, hpending⟩ | ⟨_, t, aliasName, _, hleaves, -, hnamed, hpending⟩
  · have hscope : scope = some (labelOf t aliasName) := congrArg Item.scope (congrFun hpending 0)
    rw [hscope, columnText_some]
    exact eqIgnoreCase_of_mem (List.mem_append_right _ List.mem_cons_self)
      (reservedWords_spelling k hreserved).1
  · have hscope : scope = none := congrArg Item.scope (congrFun hpending 0)
    have hmem : FromItem.table t aliasName ∈ q.sources.flatMap FromItem.leaves :=
      hleaves ▸ List.mem_append_right _ List.mem_cons_self
    rw [hscope]
    exact ((hnames _ hmem t rfl).2 c (Table.mem_of_columnNamed? hnamed)).unreserved k hreserved

/-- A plain column that was read has a short text. -/
theorem IsReadOn.isShortItem {sources : List FromItem} {i : Item} (h : IsReadOn sources i)
    (hplain : i.isPlainColumn = true) (hnames : NamedAsWords sources) : IsShortItem i := by
  rw [Item.isPlainColumn, Bool.and_eq_true, Option.isSome_iff_exists,
    Option.isNone_iff_eq_none] at hplain
  obtain ⟨⟨d, hcolumn⟩, hfunction⟩ := hplain
  have hnamed := (h d hcolumn hfunction).2
  have htext := toList_sqlWithoutAlias hcolumn hfunction
  exact ⟨htext ▸ hnamed.isWord_columnText hnames.namedPlainly,
    htext ▸ hnamed.part_columnText hnames⟩

/-- An item in a condition that can be named is read back from its text. -/
theorem reads_conditionItem {sources : List FromItem} {i : Item} {failure : QueryError}
    (hread : IsReadOn sources i) (hplain : i.isPlainColumn = true)
    (hnamed : CanBeNamed q.sources i) (hnames : NamedAsWords q.sources) :
    Reads (makeFound (resolveColumn q i.sqlWithoutAlias.toList) failure) fun j =>
      j.same i = true := by
  rw [Item.isPlainColumn, Bool.and_eq_true, Option.isSome_iff_exists,
    Option.isNone_iff_eq_none] at hplain
  obtain ⟨⟨d, hcolumn⟩, hfunction⟩ := hplain
  have hnamed : Named q d i.scope := hnamed d hcolumn
  obtain ⟨⟨n, hi⟩, -⟩ := hread d hcolumn hfunction
  have hresolved := hnamed.resolveColumn_columnText hnames.namedPlainly
  rw [← toList_sqlWithoutAlias hcolumn hfunction] at hresolved
  refine (reads_makeFound hresolved).mono ?_
  rintro _ ⟨m, rfl⟩
  rw [hi]
  simp [Item.ofColumn, Item.plain, Item.same, Item.sameAs, Item.sameUse, Item.sameParameters]

/-- **A condition is read back with its items on their sides.** -/
theorem reads_readPair {sources : List FromItem} {right : FromItem} {pair : Item × Item}
    (hread : IsReadCondition sources right pair)
    (hplain : pair.1.isPlainColumn = true ∧ pair.2.isPlainColumn = true)
    (hnamed : CanBeNamed q.sources pair.1 ∧ CanBeNamed q.sources pair.2)
    (hnames : NamedAsWords q.sources) : Reads (readPair q right pair) fun read =>
      read.1.same pair.1 = true ∧ read.2.same pair.2 = true := by
  unfold readPair
  refine (reads_conditionItem hread.first hplain.1 hnamed.1 hnames).bind fun first hfirst => ?_
  refine (reads_conditionItem hread.second hplain.2 hnamed.2 hnames).bind fun second hsecond => ?_
  -- Items that denote the same belong to the same sides, so nothing is exchanged.
  have hsides {i j : Item} (h : i.same j = true) : belongsTo i right = belongsTo j right := by
    obtain ⟨hscope, hcolumn⟩ := Item.parts_of_sameAs (Item.sameAs_of_same h)
    exact belongsTo_congr hscope hcolumn
  have hkept : (belongsTo first right && !belongsTo second right) = false := by
    rw [hsides hfirst, hsides hsecond, Bool.eq_false_iff]
    simpa using hread.oriented
  rw [hkept]
  exact Reads.pure ⟨hfirst, hsecond⟩

theorem sameOn_of_forall₂ {conditions read : List (Item × Item)}
    (h : List.Forall₂ (fun c r => r.1.same c.1 = true ∧ r.2.same c.2 = true) conditions read) :
    FromItem.sameOn read conditions = true := by
  induction h with
  | nil => rfl
  | cons hsame _ ih => rw [FromItem.sameOn, hsame.1, hsame.2, ih, Bool.and_self, Bool.and_self]

theorem join?_of_ne_nil {kind : JoinKind} {left right : FromItem} {conditions : List (Item × Item)}
    (h : conditions ≠ []) :
    FromItem.join? kind left right (conditions.map (·.1)) (conditions.map (·.2)) =
      .ok (.join kind left right conditions none) := by
  unfold FromItem.join?
  rw [if_neg (by simp), if_neg (by simpa using h), ← List.unzip_fst, ← List.unzip_snd,
    List.zip_unzip]

end Conditions

/-! ## Chains -/

section Chains

variable {q : Query} {t : Table} {aliasName : Option String} {links : List Link}

theorem readLinks_append_singleton (left : FromItem) (link : Link) :
    readLinks q left (links ++ [link]) = (do
      let left ← readLinks q left links
      readLinks q left [link]) := by
  induction links generalizing left with
  | nil => rfl
  | cons next links ih => simp only [List.cons_append, readLinks, ih, bind_assoc]

/-- What reading a chain of joins finds out about it. -/
theorem forall_links {before : List FromItem}
    (hchain : ((FromItem.table t aliasName).linked links).isChain = true)
    (hread : JoinsRead before ((FromItem.table t aliasName).linked links))
    (hnames : NamedAsWords (before ++ [(FromItem.table t aliasName).linked links])) :
    ∀ link ∈ links, IsPlainLink link := by
  induction links using List.reverseRecOn with
  | nil => exact List.forall_mem_nil _
  | append_singleton links link ih =>
    rw [FromItem.linked_append_singleton] at hchain hread hnames
    obtain ⟨hleft, -, hne, near, hnear, hconditions⟩ := hread
    obtain ⟨hleftChain, -, hplain⟩ := isChain_join hchain
    have hsides : NamedAsWords (near ++ [(FromItem.table t aliasName).linked links, link.source]) := by
      refine hnames.mono ?_
      rcases hnear with rfl | rfl
      · simp [FromItem.leaves]
      · simp [FromItem.leaves]
    refine List.forall_mem_append.mpr ⟨ih hleftChain hleft (hnames.mono (by simp [FromItem.leaves])),
      List.forall_mem_singleton.mpr ⟨?_, hne, fun c hc => ?_⟩⟩
    · refine (hnames link.source ?_ link.table rfl).1
      simp [FromItem.leaves, Link.source]
    · exact ⟨(hconditions c hc).first.isShortItem (hplain c hc).1 hsides,
        (hconditions c hc).second.isShortItem (hplain c hc).2 hsides⟩

/-- **A chain whose conditions can be named is read back link by link.** -/
theorem reads_readLinks {before : List FromItem}
    (hsources : q.sources.map FromItem.leaves = before.map FromItem.leaves)
    (hchain : ((FromItem.table t aliasName).linked links).isChain = true)
    (hread : JoinsRead before ((FromItem.table t aliasName).linked links))
    (hnamed : JoinsNamed before ((FromItem.table t aliasName).linked links))
    (hnames : NamedAsWords (before ++ [(FromItem.table t aliasName).linked links])) :
    Reads (readLinks q (.table t aliasName) links) fun f =>
      f.same ((FromItem.table t aliasName).linked links) = true ∧
        f.leaves = ((FromItem.table t aliasName).linked links).leaves := by
  induction links using List.reverseRecOn with
  | nil => exact Reads.pure ⟨by simp [FromItem.linked, FromItem.same], rfl⟩
  | append_singleton links link ih =>
    rw [FromItem.linked_append_singleton] at hchain hread hnamed hnames ⊢
    obtain ⟨hleft, -, hne, near, -, hconditions⟩ := hread
    obtain ⟨hleftNamed, -, hconditionsNamed⟩ := hnamed
    obtain ⟨hleftChain, -, hplain⟩ := isChain_join hchain
    rw [readLinks_append_singleton]
    refine (ih hleftChain hleft hleftNamed (hnames.mono (by simp [FromItem.leaves]))).bind
      fun left hleft => ?_
    obtain ⟨hsame, hleaves⟩ := hleft
    -- The left side was read back with its leaves, so names mean the same over both.
    have hscope : (before ++ [(FromItem.table t aliasName).linked links, link.source]).map
        FromItem.leaves = (q.sources ++ [left, link.source]).map FromItem.leaves := by
      simp [hsources, hleaves]
    have hscopeNames : NamedAsWords (q.sources ++ [left, link.source]) := by
      refine hnames.mono ?_
      rw [List.flatMap_def, ← hscope, ← List.flatMap_def]
      simp [FromItem.leaves]
    have hpairs := Reads.mapM (f := readPair { q with sources := q.sources ++ [left, link.source] }
      link.source) fun c hc => reads_readPair (hconditions c hc) (hplain c hc)
        ⟨fun d hd => ((hconditionsNamed c hc).1 d hd).congr hscope,
          fun d hd => ((hconditionsNamed c hc).2 d hd).congr hscope⟩ hscopeNames
    rw [readLinks]
    refine hpairs.bind fun pairs hpairs => ?_
    have hsome : pairs ≠ [] := by
      rintro rfl
      exact hne (List.forall₂_nil_right_iff.mp hpairs)
    rw [join?_of_ne_nil hsome, lift_ok, pure_bind]
    refine Reads.pure ⟨?_, ?_⟩
    · rw [FromItem.same, hsame, sameOn_of_forall₂ hpairs]
      simp [Link.source, FromItem.same]
    · rw [FromItem.leaves, hleaves, FromItem.leaves]

end Chains

/-! ## Lists of from items -/

section Lists

variable {q : Query} {catalog : Catalog} {before sources : List FromItem} {f : FromItem}

/-- The text of a chain is the text of a first table with joins behind it, which are written plainly.
-/
theorem exists_chainText (hchain : f.isChain = true) (hread : JoinsRead before f)
    (hnames : NamedAsWords (before ++ [f])) : ∃ t aliasName links,
      f.bare = (FromItem.table t aliasName).linked links ∧
      f.sql.toList = chainText (sourceText t aliasName) links ∧ IsPlainSource t aliasName ∧
      ∀ link ∈ links, IsPlainLink link := by
  obtain ⟨t, aliasName, links, hlinked⟩ := FromItem.exists_linked f hchain
  have hbareNames : NamedAsWords (before ++ [f.bare]) := hnames.mono (by simp)
  have hfirst : FromItem.table t aliasName ∈ (before ++ [f.bare]).flatMap FromItem.leaves := by
    rw [hlinked]
    simp [FromItem.leaves_linked, FromItem.leaves]
  refine ⟨t, aliasName, links, hlinked, ?_, (hbareNames _ hfirst t rfl).1, ?_⟩
  · rw [← FromItem.sql_bare, hlinked, toList_linked, toList_sourceSql]
  · have hbareChain := FromItem.isChain_bare hchain
    have hbareRead := hread.bare
    rw [hlinked] at hbareChain hbareRead hbareNames
    exact forall_links hbareChain hbareRead hbareNames

/-- The text of a chain is a part of the text of a FROM clause. -/
theorem part_chain (hchain : f.isChain = true) (hread : JoinsRead before f)
    (hnames : NamedAsWords (before ++ [f])) : Part [','] clauseWords f.sql.toList := by
  obtain ⟨t, aliasName, links, -, htext, hsource, hlinks⟩ := exists_chainText hchain hread hnames
  rw [htext]
  exact part_chainText (hsource.part.mono (by decide) (by decide)) hlinks

/-- So are the texts of chains that were read one after the other. -/
theorem parts_chains (hchains : ∀ f ∈ sources, f.isChain = true)
    (hread : AllJoinsRead before sources) (hnames : NamedAsWords (before ++ sources)) :
    ∀ w ∈ sources.map fun f => f.sql.toList, Part [','] clauseWords w := by
  induction sources generalizing before with
  | nil => exact List.forall_mem_nil _
  | cons f rest ih =>
    obtain ⟨hchain, hrest⟩ := List.forall_mem_cons.mp hchains
    refine List.forall_mem_cons.mpr ⟨part_chain hchain hread.1 (hnames.mono (by simp)), ?_⟩
    exact ih hrest hread.2 (by simpa using hnames)

/-- The catalog has the tables of from items under their own names. -/
def HasTables (catalog : Catalog) (sources : List FromItem) : Prop :=
  ∀ leaf ∈ sources.flatMap FromItem.leaves, ∀ t ∈ leaf.table?, catalog.table? t.name = some t

/-- A chain is read back from its text. -/
theorem reads_fromItem (depth : Nat)
    (hsources : q.sources.map FromItem.leaves = before.map FromItem.leaves)
    (hchain : f.isChain = true) (hread : JoinsRead before f) (hnamed : JoinsNamed before f)
    (hnames : NamedAsWords (before ++ [f])) (htables : HasTables catalog [f]) :
    Reads (readFromItem (readSimple catalog depth) q f.sql.toList) fun g =>
      g.same f.bare = true ∧ g.leaves = f.leaves := by
  obtain ⟨t, aliasName, links, hlinked, htext, hsource, hlinks⟩ :=
    exists_chainText hchain hread hnames
  have hleaves : f.leaves = .table t aliasName :: links.map Link.source := by
    rw [← FromItem.leaves_bare, hlinked, FromItem.leaves_linked]
    rfl
  have hfirst : catalog.table? t.name = some t :=
    htables (.table t aliasName) (by simp [hleaves]) t rfl
  have hrest : ∀ link ∈ links, IsPlainLink link ∧ catalog.table? link.table.name = some link.table :=
    fun link hlink => ⟨hlinks link hlink, htables link.source (by
      simp [hleaves, List.mem_map_of_mem hlink]) link.table rfl⟩
  have hbareChain := FromItem.isChain_bare hchain
  have hbareRead := hread.bare
  have hbareNamed := hnamed.bare
  have hbareNames : NamedAsWords (before ++ [f.bare]) := hnames.mono (by simp)
  rw [hlinked] at hbareChain hbareRead hbareNamed hbareNames
  rw [htext, readFromItem_chainText depth hsource hfirst hrest, ← FromItem.leaves_bare, hlinked]
  exact reads_readLinks hsources hbareChain hbareRead hbareNamed hbareNames

/-- **From items are read back one after the other.** -/
theorem reads_readFromItems (depth : Nat)
    (hsources : q.sources.map FromItem.leaves = before.map FromItem.leaves)
    (hchains : ∀ f ∈ sources, f.isChain = true) (hread : AllJoinsRead before sources)
    (hnamed : AllJoinsNamed before sources) (hnames : NamedAsWords (before ++ sources))
    (htables : HasTables catalog sources) :
    Reads (readFromItems (readSimple catalog depth) q (sources.map fun f => f.sql.toList)) fun q' =>
      ∃ read, q' = { q with sources := q.sources ++ read } ∧
        FromItem.allSame read (sources.map FromItem.bare) = true := by
  induction sources generalizing q before with
  | nil => exact Reads.pure ⟨[], by simp, rfl⟩
  | cons f rest ih =>
    obtain ⟨hchain, hrestChains⟩ := List.forall_mem_cons.mp hchains
    have hfirst : HasTables catalog [f] :=
      fun leaf hleaf => htables leaf (by simp at hleaf; simp [hleaf])
    have hrestTables : HasTables catalog rest :=
      fun leaf hleaf => htables leaf (List.mem_append_right f.leaves hleaf)
    rw [List.map_cons, readFromItems]
    refine (reads_fromItem depth hsources hchain hread.1 hnamed.1
      (hnames.mono (by simp)) hfirst).bind fun g hg => ?_
    obtain ⟨hsame, hleaves⟩ := hg
    have hmore : (q.sources ++ [g]).map FromItem.leaves = (before ++ [f]).map FromItem.leaves := by
      simp [hsources, hleaves]
    have hrestNames : NamedAsWords ((before ++ [f]) ++ rest) := by simpa using hnames
    refine (ih (q := { q with sources := q.sources ++ [g] }) hmore hrestChains hread.2 hnamed.2
      hrestNames hrestTables).mono ?_
    rintro _ ⟨read, rfl, hrest⟩
    refine ⟨g :: read, by simp, ?_⟩
    rw [List.map_cons, FromItem.allSame, hsame, hrest]
    rfl

end Lists

/-! ## Queries -/

section Queries

variable {q : Query} {catalog : Catalog} {sources : List FromItem}

/-- The text of a query that counts what is drawn from from items. -/
theorem toList_countSql (sources : List FromItem) :
    (QueryOf.sql { select := [Item.countAll 0], sources := sources }).toList =
      queryText "COUNT(*)".toList
        [("FROM", commaText (sources.map fun f => f.sql.toList))] := by
  have hsqls : (FromItem.sqls sources).map String.toList = sources.map fun f => f.sql.toList := by
    induction sources with
    | nil => rfl
    | cons f rest ih => rw [FromItem.sqls, List.map_cons, List.map_cons, ih]
  have hcount : (Item.countAll 0).sql.toList = "COUNT(*)".toList := by decide
  unfold QueryOf.sql FromItem.sqlOfQuery FromItem.querySql
  simp [hcount, Text.joinWith, String.toList_intercalate, hsqls, queryText, clausesText, commaText]

/-- The select list of such a query is read over any from items. -/
theorem reads_count : Reads (readSelect catalog q "COUNT(*)".toList) fun q' =>
    q'.sources = q.sources := by
  have hdistinct : afterWord? "DISTINCT".toList "COUNT(*)".toList = none := by decide
  have hsplit : splitOn [','] "COUNT(*)".toList = ["COUNT(*)".toList] := by decide
  have hending : beforeEnding? ['.', '*'] "COUNT(*)".toList = none := by decide
  have halias : splitAlias "COUNT(*)".toList = ("COUNT(*)".toList, none) := by decide
  have hitem : resolveItem q "COUNT(*)".toList = .ok (some fun id => Item.countAll id) :=
    resolveItem_callText (q := q) .count false part_star.balanced part_star.tidy part_star.trimmed
      Item.countAll rfl
  have htoken : Reads (readSelectToken catalog q "COUNT(*)".toList) (· ≠ []) := by
    unfold readSelectToken
    rw [if_neg (by decide)]
    simp only [hending, halias, hitem, lift_ok, pure_bind]
    refine (reads_make _).bind ?_
    rintro _ ⟨id, rfl⟩
    exact Reads.pure (List.cons_ne_nil _ _)
  unfold readSelect
  simp only [hdistinct, hsplit, List.mapM_cons, List.mapM_nil, bind_assoc, pure_bind]
  refine htoken.bind fun items hitems => ?_
  have hsome : [items].flatten.isEmpty = false := by simpa using hitems
  simp only [hsome, Bool.false_eq_true, if_false]
  exact Reads.pure rfl

/-- From items whose joins can be named are read back from a query over them. -/
theorem reads_countSql (hne : sources ≠ []) (hchains : ∀ f ∈ sources, f.isChain = true)
    (hread : AllJoinsRead [] sources) (hnamed : AllJoinsNamed [] sources)
    (hnames : NamedAsWords sources) (htables : HasTables catalog sources) :
    Reads (readQuery catalog (QueryOf.sql { select := [Item.countAll 0], sources := sources }))
      fun p => FromItem.allSame p.sources (sources.map FromItem.bare) = true := by
  have hparts := parts_chains hchains hread hnames
  have hcount : Part [] clauseWords "COUNT(*)".toList :=
    (part_callText .count part_star.balanced part_star.tidy).mono (List.nil_subset _)
      clauseWords_subset_cuttingWords
  have hfrom : Part [] clauseWords (commaText (sources.map fun f => f.sql.toList)) :=
    Part.commas (by simpa using hne)
      (fun w hw => (hparts w hw).mono (List.nil_subset _) (List.Subset.refl _))
      List.not_mem_nil List.not_mem_nil (by decide)
  have horder : InOrder [("FROM", commaText (sources.map fun f => f.sql.toList))]
      (clauseKeywords.drop 1) := (inOrder_singleton "FROM" hfrom).append (inOrder_nil _)
  have hpart := part_queryText hcount horder
  unfold readQuery readWith
  rw [toList_countSql, hpart.tidy.normalize_eq hpart.balanced, lift_ok, pure_bind]
  apply Reads.renumbered
  unfold readNormalized
  rw [locateClauses_queryText hcount horder List.mem_cons_self, lift_ok, pure_bind]
  have hsplit : splitOn [','] (commaText (sources.map fun f => f.sql.toList)) =
      sources.map fun f => f.sql.toList := splitOn_commas hparts (by decide)
  show Reads (do
    let q ← readFromItems _ {} (splitOn [','] (commaText (sources.map fun f => f.sql.toList)))
    readClauses catalog q (("SELECT", "COUNT(*)".toList) ::
      [("FROM", commaText (sources.map fun f => f.sql.toList))])) _
  rw [hsplit]
  refine (reads_readFromItems (q := {}) _ rfl hchains hread hnamed hnames htables).bind ?_
  rintro _ ⟨read, rfl, hsame⟩
  show Reads (do
    let q ← readSelect catalog _ "COUNT(*)".toList
    readClauses catalog q [("FROM", commaText (sources.map fun f => f.sql.toList))]) _
  refine reads_count.bind fun q' hq' => ?_
  rw [readClauses_singleton]
  refine Reads.pure ?_
  rw [hq']
  exact hsame

/-- **The from items of a query that was read are read back from their texts** but for the aliases of
joins, which are not written: for tables and chains of joins under plain names, where a chain in
parentheses behind other from items has columns that can be named over these as well. -/
theorem readQuery_countSql {sql : String} {s : State}
    (hcatalog : ∀ name t, catalog.table? name = some t → catalog.table? t.name = some t)
    (hread : (readQuery catalog sql).run {} = (.ok q, s)) (hne : q.sources ≠ [])
    (hchains : ∀ f ∈ q.sources, f.isChain = true) (hnames : NamedAsWords q.sources)
    (hopen : OpenOrNamed [] (fromTokens sql) q.sources) (s' : State) : ∃ p s'',
      (readQuery catalog (QueryOf.sql { select := [Item.countAll 0], sources := q.sources })).run s' =
        (.ok p, s'') ∧ FromItem.allSame p.sources (q.sources.map FromItem.bare) = true := by
  obtain ⟨r, -, hall⟩ := allRead_of_readQuery hread
  have htables : HasTables catalog q.sources := by
    intro leaf hleaf t ht
    obtain ⟨f, hf, hleaf⟩ := List.mem_flatMap.mp hleaf
    obtain ⟨name, hname⟩ := (hall q (mem_queriesOf_self q)).tables f hf leaf hleaf t ht
    exact hcatalog name t hname
  exact reads_countSql hne hchains (joinsRead_of_readQuery hread)
    (allJoinsNamed_of_readQuery hread hchains hopen) hnames htables s'

/-- Two tables in parentheses with an alias, a third one joined to them, and two more behind. -/
def joinedPairs : String :=
  "SELECT COUNT(*) FROM (t x JOIN t y ON y.b = x.a) j LEFT OUTER JOIN t ON (t.a = y.a AND x.b = t.b)" ++
    ", t z RIGHT JOIN t w ON w.a = x.b"

/-- These from items are read back, the alias `j` aside. -/
theorem readQuery_countSql_joinedPairs : ∃ q s, (readQuery pairs joinedPairs).run {} = (.ok q, s) ∧
    q.sources.map FromItem.sql =
      ["t x INNER JOIN t y ON x.a = y.b LEFT JOIN t ON y.a = t.a AND x.b = t.b",
        "t z RIGHT JOIN t w ON x.b = w.a"] ∧
    ∃ p s', (readQuery pairs (QueryOf.sql
      { select := [Item.countAll 0], sources := q.sources })).run {} = (.ok p, s') ∧
        FromItem.allSame p.sources (q.sources.map FromItem.bare) = true := by
  have hshown : ((readQuery pairs joinedPairs).run {}).1.toOption.map (fun q =>
      (q.sources.map FromItem.sql, q.sources.all FromItem.isChain,
        decide (NamedAsWords q.sources))) =
      some (["t x INNER JOIN t y ON x.a = y.b LEFT JOIN t ON y.a = t.a AND x.b = t.b",
        "t z RIGHT JOIN t w ON x.b = w.a"], true, true) := by
    decide +kernel
  obtain ⟨q, hq, hshown⟩ := Option.map_eq_some_iff.mp hshown
  obtain ⟨htexts, hshown⟩ := Prod.mk.inj hshown
  obtain ⟨hchains, hnames⟩ := Prod.mk.inj hshown
  obtain ⟨s, hrun⟩ := exists_run_of_toOption hq
  have hne : q.sources ≠ [] := by
    intro hnil
    simp [hnil] at htexts
  have hopen : ∀ token ∈ (fromTokens joinedPairs).drop 1, (Text.trim token).head? ≠ some '(' := by
    decide +kernel
  have hcatalog (name : String) (t : Table) (h : pairs.table? name = some t) :
      pairs.table? t.name = some t := by
    unfold pairs at h ⊢
    dsimp only at h ⊢
    split at h
    · cases h
      rfl
    · cases h
  exact ⟨q, s, hrun, htexts, readQuery_countSql hcatalog hrun hne (List.all_eq_true.mp hchains)
    (of_decide_eq_true hnames) (openOrNamed_of_drop hopen) {}⟩

/-- A join in parentheses with an alias of its own loses the alias. -/
theorem countSql_drops_joinAlias : ∃ q s p s',
    (readQuery pairs "SELECT COUNT(*) FROM (t x JOIN t y ON x.a = y.b) j").run {} = (.ok q, s) ∧
    q.sources.map FromItem.alias? = [some "j"] ∧ NamedAsWords q.sources ∧
    (readQuery pairs (QueryOf.sql { select := [Item.countAll 0], sources := q.sources })).run {} =
      (.ok p, s') ∧
    p.sources.map FromItem.alias? = [none] ∧ FromItem.allSame p.sources q.sources = false := by
  have hshown : ((readQuery pairs "SELECT COUNT(*) FROM (t x JOIN t y ON x.a = y.b) j").run
      {}).1.toOption.map (fun q => (q.sources.map FromItem.alias?, decide (NamedAsWords q.sources),
        ((readQuery pairs (QueryOf.sql
          { select := [Item.countAll 0], sources := q.sources })).run {}).1.toOption.map fun p =>
            (p.sources.map FromItem.alias?, FromItem.allSame p.sources q.sources))) =
      some ([some "j"], true, some ([none], false)) := by
    decide +kernel
  obtain ⟨q, hq, hshown⟩ := Option.map_eq_some_iff.mp hshown
  obtain ⟨halias, hshown⟩ := Prod.mk.inj hshown
  obtain ⟨hnames, hshown⟩ := Prod.mk.inj hshown
  obtain ⟨p, hp, hshown⟩ := Option.map_eq_some_iff.mp hshown
  obtain ⟨hnone, hsame⟩ := Prod.mk.inj hshown
  obtain ⟨s, hrun⟩ := exists_run_of_toOption hq
  obtain ⟨s', hagain⟩ := exists_run_of_toOption hp
  exact ⟨q, s, p, s', hrun, halias, of_decide_eq_true hnames, hagain, hnone, hsame⟩

end Queries

end Grammar

end DocQuery
