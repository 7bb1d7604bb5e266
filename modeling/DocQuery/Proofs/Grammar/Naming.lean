import DocQuery.Proofs.Grammar.Pending
import DocQuery.Proofs.Grammar.Statement

/-!
# DocQuery.Proofs.Grammar.Naming — columns are found under the names they show

A name in a query may be spelled in any case and may be qualified by whatever refers to a from item,
while an item shows the name of its column and the label of its from item as they are.  Lookups
prefer the exact spelling and fall back to any case, so whatever a name finds is found again under
its own name (`spelled?_own`).  Hence a plain column that some name means is what its own text means,
over the same from items (`Named.resolveColumn_columnText`).
-/

namespace DocQuery

open Grammar

namespace Text

/-- Texts that differ in case at most have the same characters besides letters. -/
theorem mem_iff_of_eqIgnoreCase {s t : List Char} {c : Char} (hc : c.isAlpha = false)
    (h : eqIgnoreCase s t = true) : c ∈ s ↔ c ∈ t := by
  have hlower (w : List Char) : c ∈ w ↔ c ∈ w.map Char.toLower := by
    constructor
    · exact fun hw => List.mem_map.mpr ⟨c, hw, toLower_of_isAlpha_eq_false hc⟩
    · intro hw
      obtain ⟨d, hd, heq⟩ := List.mem_map.mp hw
      exact eq_of_toLower_eq hc heq ▸ hd
  unfold eqIgnoreCase at h
  rw [hlower s, hlower t, beq_iff_eq.mp h]

end Text

/-! ## Lookups by spelling, then in any case -/

section Lookup

variable {α : Type} {key : α → Option String} {l : List α} {x : α} {r s n : String}

/-- The first element whose key is a name: exactly so if there is one, else in any case. -/
def spelled? (key : α → Option String) (l : List α) (name : String) : Option α :=
  l.find? (fun a => (key a).any (· == name)) <|> l.find? fun a => (key a).any (Text.sameName · name)

/-- What is found by a test of its key has a key that passes the test. -/
theorem key_of_find? {p : String → Bool} (h : l.find? (fun a => (key a).any p) = some x) :
    ∃ n, key x = some n ∧ p n = true := by
  have hx := List.find?_some h
  exact (Option.any_eq_true _ _).mp hx

theorem any_sameName_of_any_eq {o : Option String} (h : o.any (· == r) = true) :
    o.any (Text.sameName · r) = true := by
  obtain ⟨n, rfl, hn⟩ := (Option.any_eq_true _ _).mp h
  rw [beq_iff_eq.mp hn]
  exact Text.sameName_self r

theorem spelled?_eq_none_iff :
    spelled? key l r = none ↔ ∀ a ∈ l, ¬(key a).any (Text.sameName · r) = true := by
  unfold spelled?
  rw [Option.orElse_eq_none, List.find?_eq_none, List.find?_eq_none]
  exact ⟨fun h => h.2, fun h => ⟨fun a ha hexact => h a ha (any_sameName_of_any_eq hexact), h⟩⟩

/-- Whether a lookup finds something does not change with the case of the name. -/
theorem spelled?_eq_none_congr (h : Text.sameName r s = true) :
    spelled? key l r = none ↔ spelled? key l s = none := by
  simp only [spelled?_eq_none_iff, Text.sameName_congr h]

theorem key_of_spelled? (h : spelled? key l r = some x) :
    ∃ n, key x = some n ∧ Text.sameName n r = true := by
  rcases (Option.orElse_eq_some _ _ _).mp h with hexact | ⟨-, hloose⟩
  · obtain ⟨n, hn, heq⟩ := key_of_find? hexact
    exact ⟨n, hn, beq_iff_eq.mp heq ▸ Text.sameName_self n⟩
  · exact key_of_find? hloose

/-- **What a lookup finds it finds under its own key.** -/
theorem spelled?_own (h : spelled? key l r = some x) (hx : key x = some n) :
    spelled? key l n = some x := by
  rcases (Option.orElse_eq_some _ _ _).mp h with hexact | ⟨-, hloose⟩
  · obtain ⟨m, hm, heq⟩ := key_of_find? hexact
    rw [Option.some.inj (hx.symm.trans hm), beq_iff_eq.mp heq]
    exact h
  · obtain ⟨m, hm, hsame⟩ := key_of_find? hloose
    obtain rfl := Option.some.inj (hm.symm.trans hx)
    obtain ⟨-, before, after, hl, hbefore⟩ := List.find?_eq_some_iff_append.mp hloose
    -- Nothing in front has the key in any case, so nothing there has it exactly.
    refine Option.orElse_eq_some _ _ _ |>.mpr (Or.inl (List.find?_eq_some_iff_append.mpr ?_))
    refine ⟨by simp [hx], before, after, hl, fun a ha => ?_⟩
    have hnot := hbefore a ha
    rw [Bool.not_eq_true', Bool.eq_false_iff] at hnot ⊢
    intro heq
    apply hnot
    simpa only [Text.sameName_congr hsame] using any_sameName_of_any_eq heq

end Lookup

/-! ## From items -/

section Sources

variable {f leaf : FromItem} {q : Query} {r s label : String}

theorem Table.columnNamed?_eq (t : Table) (name : String) :
    t.columnNamed? name = spelled? (fun c : Column => some c.name) t.columns name := rfl

theorem Table.columnNamed?_own {t : Table} {name : String} {c : Column}
    (h : t.columnNamed? name = some c) : t.columnNamed? c.name = some c :=
  spelled?_own ((t.columnNamed?_eq name).symm.trans h) rfl

theorem Table.sameName_of_columnNamed? {t : Table} {name : String} {c : Column}
    (h : t.columnNamed? name = some c) : Text.sameName c.name name = true := by
  obtain ⟨n, hn, hsame⟩ := key_of_spelled? ((t.columnNamed?_eq name).symm.trans h)
  exact Option.some.inj hn ▸ hsame

/-- The name of a table without an alias. -/
def FromItem.bareName? (leaf : FromItem) : Option String :=
  if leaf.alias?.isNone then leaf.table?.map (·.name) else none

theorem FromItem.referenced?_eq (f : FromItem) (reference : String) :
    f.referenced? reference = (spelled? FromItem.alias? f.leaves reference <|>
      f.leaves.find? fun leaf => leaf.bareName?.any (Text.sameName · reference)) := by
  have hbare (leaf : FromItem) : (leaf.alias?.isNone && leaf.table?.any fun t =>
      Text.sameName t.name reference) = leaf.bareName?.any (Text.sameName · reference) := by
    unfold bareName?
    cases leaf.alias? <;> cases leaf.table? <;> rfl
  unfold referenced? spelled?
  simp only [hbare]
  cases f.leaves.find? fun leaf => leaf.alias?.any (· == reference) <;> rfl

theorem FromItem.label?_of_bareName? {name : String} (h : leaf.bareName? = some name) :
    leaf.label? = some name := by
  unfold bareName? at h
  split at h
  next halias =>
    unfold label?
    rw [Option.isNone_iff_eq_none.mp halias, h]
    rfl
  next => cases h

theorem FromItem.label?_of_alias? {name : String} (h : leaf.alias? = some name) :
    leaf.label? = some name := by
  unfold label?
  rw [h]
  rfl

theorem FromItem.referenced?_eq_none_congr (h : Text.sameName r s = true) :
    f.referenced? r = none ↔ f.referenced? s = none := by
  rw [referenced?_eq, referenced?_eq, Option.orElse_eq_none, Option.orElse_eq_none,
    spelled?_eq_none_congr h]
  simp only [Text.sameName_congr h]

/-- What a reference finds shows it as its label, in some case. -/
theorem FromItem.label?_of_referenced? (h : f.referenced? r = some leaf) :
    ∃ label, leaf.label? = some label ∧ Text.sameName label r = true := by
  rw [referenced?_eq] at h
  rcases (Option.orElse_eq_some _ _ _).mp h with haliased | ⟨-, hbare⟩
  · obtain ⟨label, hlabel, hsame⟩ := key_of_spelled? haliased
    exact ⟨label, label?_of_alias? hlabel, hsame⟩
  · obtain ⟨label, hlabel, hsame⟩ := key_of_find? hbare
    exact ⟨label, label?_of_bareName? hlabel, hsame⟩

/-- What a reference finds within a from item is found there by its label. -/
theorem FromItem.referenced?_label (h : f.referenced? r = some leaf)
    (hlabel : leaf.label? = some label) : f.referenced? label = some leaf := by
  rw [referenced?_eq] at h ⊢
  rcases (Option.orElse_eq_some _ _ _).mp h with haliased | ⟨hnone, hbare⟩
  · obtain ⟨n, hn, -⟩ := key_of_spelled? haliased
    obtain rfl := Option.some.inj (hlabel.symm.trans (label?_of_alias? hn))
    exact (Option.orElse_eq_some _ _ _).mpr (Or.inl (spelled?_own haliased hn))
  · obtain ⟨n, hn, hsame⟩ := key_of_find? hbare
    obtain rfl := Option.some.inj (hlabel.symm.trans (label?_of_bareName? hn))
    refine (Option.orElse_eq_some _ _ _).mpr (Or.inr ⟨(spelled?_eq_none_congr hsame).mpr hnone, ?_⟩)
    simpa only [Text.sameName_congr hsame] using hbare

/-- **What a reference finds in a query is found there by its label.** -/
theorem QueryOf.source?_label (h : q.source? r = some leaf) (hlabel : leaf.label? = some label) :
    q.source? label = some leaf := by
  obtain ⟨before, f, after, hsources, hf, hbefore⟩ := List.findSome?_eq_some_iff.mp h
  obtain ⟨n, hn, hsame⟩ := FromItem.label?_of_referenced? hf
  obtain rfl := Option.some.inj (hlabel.symm.trans hn)
  refine List.findSome?_eq_some_iff.mpr ⟨before, f, after, hsources, f.referenced?_label hf hlabel, ?_⟩
  exact fun f' hf' => (FromItem.referenced?_eq_none_congr hsame).mpr (hbefore f' hf')

end Sources

/-! ## Names within one from item -/

namespace Grammar

section Within

variable {source : FromItem} {name other : List Char} {qualified : Bool} {pending : Pending}
  {c : Column} {n : Nat}

/-- A plain column within a from item is a column of its table, under its label if the name was
qualified. -/
theorem exists_of_resolveIn? (h : resolveIn? source name qualified = some pending)
    (hcolumn : (pending n).column? = some c) (hfunction : (pending n).function = none) :
    ∃ t aliasName, source = .table t aliasName ∧ t.columnNamed? (String.ofList name) = some c ∧
      pending = fun id => Item.ofColumn id c (if qualified then source.label? else none) := by
  unfold resolveIn? at h
  cases source with
  | table t aliasName =>
    dsimp only at h
    split at h
    next d hd =>
      cases h
      cases hcolumn
      exact ⟨t, aliasName, rfl, hd, rfl⟩
    next =>
      unfold pathInto? at h
      split at h
      · split at h
        · split at h
          · cases h
            cases hfunction
          · cases h
        · cases h
      · cases h
  | subquery q aliasName =>
    obtain ⟨i, -, rfl⟩ := Option.map_eq_some_iff.mp h
    cases hcolumn
  | expression text aliasName => cases h
  | join kind left right conditions aliasName => cases h

/-- The column of a name is the column of its own name. -/
theorem resolveIn?_own {t : Table} {aliasName : Option String}
    (h : t.columnNamed? (String.ofList name) = some c) (qualified : Bool) :
    resolveIn? (.table t aliasName) c.name.toList qualified =
      resolveIn? (.table t aliasName) name qualified := by
  simp only [resolveIn?, String.ofList_toList, h, Table.columnNamed?_own h]

theorem pathInto?_eq_none (t : Table) (scope : Option String) (hname : '.' ∉ name) :
    pathInto? t name scope = none := by
  unfold pathInto?
  rw [cutAt?_eq_none hname]

/-- Whether a subquery has an item of a name does not change with its case. -/
theorem innerNamed?_eq_none_congr (q : Query) {r s : String} (h : Text.sameName r s = true) :
    innerNamed? q r = none ↔ innerNamed? q s = none := by
  unfold innerNamed? QueryOf.aliased?
  simp only [Text.sameName_congr h]

/-- Whether a name without dots means something in a from item does not change with its case. -/
theorem resolveIn?_eq_none_congr (hname : '.' ∉ name)
    (h : Text.eqIgnoreCase name other = true) :
    resolveIn? source name qualified = none ↔ resolveIn? source other qualified = none := by
  have hother : '.' ∉ other := fun hmem => hname ((Text.mem_iff_of_eqIgnoreCase rfl h).mpr hmem)
  have hsame : Text.sameName (String.ofList name) (String.ofList other) = true := by
    unfold Text.sameName
    rwa [String.toList_ofList, String.toList_ofList]
  cases source with
  | table t aliasName =>
    have hcolumns : t.columnNamed? (String.ofList name) = none ↔
        t.columnNamed? (String.ofList other) = none := by
      rw [Table.columnNamed?_eq, Table.columnNamed?_eq]
      exact spelled?_eq_none_congr hsame
    have hmeans (w : List Char) (hw : '.' ∉ w) :
        resolveIn? (.table t aliasName) w qualified = none ↔
          t.columnNamed? (String.ofList w) = none := by
      simp only [resolveIn?, pathInto?_eq_none t _ hw]
      cases t.columnNamed? (String.ofList w) <;> simp
    rw [hmeans name hname, hmeans other hother, hcolumns]
  | subquery q aliasName =>
    simp only [resolveIn?, Option.map_eq_none_iff]
    exact innerNamed?_eq_none_congr q hsame
  | expression text aliasName => rfl
  | join kind left right conditions aliasName => rfl

end Within

/-! ## Names over from items -/

/-- A text that is one word without dots. -/
structure IsPlainWord (w : List Char) : Prop extends IsWord w where
  dotless : '.' ∉ w

theorem IsName.isPlainWord {w : List Char} (h : IsName w) : IsPlainWord w :=
  ⟨h.isWord, h.dot_not_mem⟩

instance (w : List Char) : Decidable (IsPlainWord w) :=
  decidable_of_iff (w ≠ [] ∧ w.all Text.isWordChar = true ∧ '.' ∉ w)
    ⟨fun h => ⟨isWord_of_all h.1 h.2.1, h.2.2⟩,
      fun h => ⟨h.nonempty, List.all_eq_true.mpr h.all, h.dotless⟩⟩

/-- From items whose tables have plain words for labels and for the names of their columns. -/
def NamedPlainly (sources : List FromItem) : Prop :=
  ∀ leaf ∈ sources.flatMap FromItem.leaves, ∀ t ∈ leaf.table?,
    IsPlainWord (labelOf t leaf.alias?).toList ∧ ∀ c ∈ t.columns, IsPlainWord c.name.toList

theorem NamedPlainly.of_table {sources : List FromItem} {t : Table} {aliasName : Option String}
    (h : NamedPlainly sources) (ht : FromItem.table t aliasName ∈ sources.flatMap FromItem.leaves) :
    IsPlainWord (labelOf t aliasName).toList ∧ ∀ c ∈ t.columns, IsPlainWord c.name.toList :=
  h _ ht t rfl

instance (sources : List FromItem) : Decidable (NamedPlainly sources) :=
  inferInstanceAs (Decidable (∀ leaf ∈ sources.flatMap FromItem.leaves, ∀ t ∈ leaf.table?,
    IsPlainWord (labelOf t leaf.alias?).toList ∧ ∀ c ∈ t.columns, IsPlainWord c.name.toList))

section Columns

variable {q : Query} {name : List Char} {pending : Pending} {c : Column} {scope : Option String}

/-- A name that means a plain column does so within one from item: as a qualified name, or as the
only one that has it. -/
theorem exists_of_resolveColumn {n : Nat} (h : resolveColumn q name = .ok (some pending))
    (hcolumn : (pending n).column? = some c) (hfunction : (pending n).function = none) :
    (∃ qualifier rest t aliasName, q.source? qualifier = some (.table t aliasName) ∧
      t.columnNamed? (String.ofList rest) = some c ∧
      pending = fun id => Item.ofColumn id c (some (labelOf t aliasName))) ∨
    ∃ before t aliasName after, q.sources.flatMap FromItem.leaves =
        before ++ FromItem.table t aliasName :: after ∧
      (∀ leaf ∈ before ++ after, resolveIn? leaf name false = none) ∧
      t.columnNamed? (String.ofList name) = some c ∧ pending = fun id => Item.ofColumn id c none := by
  rcases exists_resolveIn?_of_resolveColumn h with
    ⟨qualifier, rest, source, -, hsource, heq⟩ | ⟨before, source, after, hleaves, hothers, heq⟩
  · obtain ⟨t, aliasName, rfl, hnamed, hpending⟩ := exists_of_resolveIn? heq hcolumn hfunction
    refine Or.inl ⟨_, _, t, aliasName, hsource, hnamed, hpending.trans ?_⟩
    rw [if_pos rfl, label?_table]
  · obtain ⟨t, aliasName, rfl, hnamed, hpending⟩ := exists_of_resolveIn? heq hcolumn hfunction
    exact Or.inr ⟨before, t, aliasName, after, hleaves, hothers, hnamed, hpending⟩

/-- A plain column is made as one, whatever identity it takes. -/
theorem eq_ofColumn_of_resolveColumn {n : Nat} (h : resolveColumn q name = .ok (some pending))
    (hcolumn : (pending n).column? = some c) (hfunction : (pending n).function = none) :
    ∃ scope, pending = fun id => Item.ofColumn id c scope := by
  rcases exists_of_resolveColumn h hcolumn hfunction with
    ⟨_, _, _, _, -, -, hpending⟩ | ⟨_, _, _, _, -, -, -, hpending⟩
  · exact ⟨_, hpending⟩
  · exact ⟨_, hpending⟩

/-- A plain column is written as its name in its scope. -/
theorem toList_sqlWithoutAlias {i : Item} (hcolumn : i.column? = some c)
    (hfunction : i.function = none) : i.sqlWithoutAlias.toList = columnText c i.scope := by
  obtain ⟨id, source, function, parameters, approximate, scope, aliasName⟩ := i
  cases source with
  | column d =>
    cases hcolumn
    cases hfunction
    rfl
  | _ => cases hcolumn

/-- Some name means a column, in a scope or in none. -/
def Named (q : Query) (c : Column) (scope : Option String) : Prop :=
  ∃ name, resolveColumn q name = .ok (some fun id => Item.ofColumn id c scope)

/-- The text of a column that a name means is one word. -/
theorem Named.isWord_columnText (h : Named q c scope) (hplain : NamedPlainly q.sources) :
    IsWord (columnText c scope) := by
  obtain ⟨name, hname⟩ := h
  rcases exists_of_resolveColumn (n := 0) hname rfl rfl with
    ⟨_, _, t, aliasName, hsource, hnamed, hpending⟩ | ⟨_, t, aliasName, _, hleaves, -, hnamed, hpending⟩
  · obtain ⟨hlabel, hcolumns⟩ := hplain.of_table (QueryOf.mem_of_source? hsource)
    have hscope : scope = some (labelOf t aliasName) := congrArg Item.scope (congrFun hpending 0)
    have hword := (hcolumns c (Table.mem_of_columnNamed? hnamed)).toIsWord
    rw [hscope, columnText_some]
    refine ⟨by simp, fun d hd => ?_⟩
    rcases List.mem_append.mp hd with hd | hd
    · exact hlabel.all d hd
    · rcases List.mem_cons.mp hd with rfl | hd
      · rfl
      · exact hword.all d hd
  · obtain ⟨-, hcolumns⟩ := hplain.of_table (hleaves ▸ List.mem_append_right _ List.mem_cons_self)
    have hscope : scope = none := congrArg Item.scope (congrFun hpending 0)
    rw [hscope]
    exact (hcolumns c (Table.mem_of_columnNamed? hnamed)).toIsWord

/-- **A column that some name means is what its own text means**, over the same from items. -/
theorem Named.resolveColumn_columnText (h : Named q c scope) (hplain : NamedPlainly q.sources) :
    resolveColumn q (columnText c scope) = .ok (some fun id => Item.ofColumn id c scope) := by
  obtain ⟨name, hname⟩ := h
  rcases exists_of_resolveColumn (n := 0) hname rfl rfl with
    ⟨_, rest, t, aliasName, hsource, hnamed, hpending⟩ |
    ⟨before, t, aliasName, after, hleaves, hnone, hnamed, hpending⟩
  · obtain ⟨hlabel, hcolumns⟩ := hplain.of_table (QueryOf.mem_of_source? hsource)
    have hword := hcolumns c (Table.mem_of_columnNamed? hnamed)
    have hscope : scope = some (labelOf t aliasName) := congrArg Item.scope (congrFun hpending 0)
    have hfound : q.source? (labelOf t aliasName) = some (.table t aliasName) :=
      QueryOf.source?_label hsource label?_table
    unfold resolveColumn
    rw [hscope, columnText_some, dottedCuts_append hlabel.dotless hword.dotless]
    simp only [List.findSome?_cons, hlabel.unquoteName_eq, String.ofList_toList, hfound,
      Option.map_some, hword.unquoteName_eq, resolveIn?, Table.columnNamed?_own hnamed,
      label?_table, if_true]
  · obtain ⟨-, hcolumns⟩ := hplain.of_table (hleaves ▸ List.mem_append_right _ List.mem_cons_self)
    have hword := hcolumns c (Table.mem_of_columnNamed? hnamed)
    have hscope : scope = none := congrArg Item.scope (congrFun hpending 0)
    have hown : resolveIn? (.table t aliasName) c.name.toList false =
        some fun id => Item.ofColumn id c none := by
      rw [resolveIn?_own hnamed]
      simp only [resolveIn?, hnamed, Bool.false_eq_true, if_false]
    -- The name was spelled as the column is, up to case, and so it had no dots.
    have hcase : Text.eqIgnoreCase c.name.toList name = true := by
      simpa only [Text.sameName, String.toList_ofList] using Table.sameName_of_columnNamed? hnamed
    have hothers : ∀ leaf ∈ before ++ after, resolveIn? leaf c.name.toList false = none :=
      fun leaf hmem => (resolveIn?_eq_none_congr hword.dotless hcase).mpr (hnone leaf hmem)
    have hunique : (before ++ FromItem.table t aliasName :: after).filterMap
        (resolveIn? · c.name.toList false) = [fun id => Item.ofColumn id c none] := by
      refine List.filterMap_eq_cons_iff.mpr ⟨before, _, after, rfl, ?_, hown, ?_⟩
      · exact fun leaf hmem => hothers leaf (List.mem_append_left _ hmem)
      · exact List.filterMap_eq_nil_iff.mpr fun leaf hmem => hothers leaf (List.mem_append_right _ hmem)
    unfold resolveColumn
    rw [hscope, show columnText c none = c.name.toList from rfl, dottedCuts_eq_nil hword.dotless]
    simp only [List.findSome?_nil, hleaves, hunique]

/-- As an item the text means the column as well. -/
theorem Named.resolveItem_columnText (h : Named q c scope) (hplain : NamedPlainly q.sources) :
    resolveItem q (columnText c scope) = .ok (some fun id => Item.ofColumn id c scope) := by
  have hword := h.isWord_columnText hplain
  unfold resolveItem
  rw [hword.trimmed.trim_eq, spanApproximate_word hword]
  simp only [functionCall?_word hword, hword.unquoteName_eq, h.resolveColumn_columnText hplain]
  rfl

end Columns

/-- A catalog with one table of two numbers. -/
def pairs : Catalog where
  table? name := if name = "t" then
    some ⟨"t", [⟨"a", "t", some .number, false⟩, ⟨"b", "t", some .number, false⟩]⟩ else none

end Grammar

end DocQuery
