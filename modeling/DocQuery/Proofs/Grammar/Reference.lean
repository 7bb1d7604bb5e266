import DocQuery.Grammar.Reference
import DocQuery.Proofs.Grammar.Literal
import DocQuery.Proofs.Grammar.Reader
import DocQuery.Proofs.Text.Chars
import DocQuery.Proofs.Value.Sameness

/-!
# DocQuery.Proofs.Grammar.Reference — items read back

Over one table with plain names, an item that is a column, the count of all rows, or a function of a
column with plain parameters, is written as a text that means the same item again
(`resolveItem_sql`).  Only the identity is new, because it is drawn when the item is put into a
query.
-/

namespace DocQuery

open Grammar

/-! ## Plain names -/

/-- The words that are no names. -/
def Grammar.reservedWords : List (List Char) :=
  cuttingWords ++ ["DISTINCT", "NULL", "TRUE", "FALSE"].map String.toList

/-- A plain word: an ASCII letter followed by letters, digits or underscores, and not reserved. -/
structure Grammar.IsName (w : List Char) : Prop where
  spelling : ∃ c rest, w = c :: rest ∧ c.isAlpha = true ∧
    ∀ d ∈ rest, Text.isAlphanumeric d = true ∨ d = '_'
  unreserved : ∀ k ∈ reservedWords, Text.eqIgnoreCase w k = false

/-- A table whose names are plain words, and whose columns are told apart in any case. -/
structure Table.IsPlain (t : Table) : Prop where
  name : IsName t.name.toList
  columns : ∀ c ∈ t.columns, IsName c.name.toList
  distinct : t.columns.Pairwise fun c d => Text.sameName c.name d.name = false

/-- An item over one table under a label: one of its columns, a function of one with plain
parameters, or the count of all rows; none of them has an alias. -/
inductive Item.IsOver (t : Table) (label : String) : Item → Prop
  | column (id : Nat) {c : Column} {scope : Option String} (hc : c ∈ t.columns)
      (hscope : scope = none ∨ scope = some label) : IsOver t label (Item.ofColumn id c scope)
  | function (id : Nat) (f : Builtin) {c : Column} {parameters : List Value} (approximate : Bool)
      {scope : Option String} (hc : c ∈ t.columns) (hscope : scope = none ∨ scope = some label)
      (hparameters : ∀ v ∈ parameters, v.IsPlain) :
      IsOver t label ⟨id, .column c, some f, parameters, approximate, scope, none⟩
  | countAll (id : Nat) (approximate : Bool) :
      IsOver t label { Item.countAll id with approximate := approximate }

theorem Item.IsOver.aliasName {t : Table} {label : String} {i : Item} (h : i.IsOver t label) :
    i.aliasName = none := by
  cases h <;> rfl

theorem Value.IsPlain.same_self {v : Value} (hv : v.IsPlain) : v.same v = true := by
  apply Value.same_self
  cases v with
  | nested j => cases hv
  | _ => rfl

namespace Grammar

open Text (Trimmed isBlank isWordChar eqIgnoreCase)

/-! ## Names -/

theorem isAlphanumeric_of_isAlpha {c : Char} (h : c.isAlpha = true) :
    Text.isAlphanumeric c = true := by
  have hrange : c.toNat < 128 := by
    rcases isAlpha_range h with hupper | hlower
    · omega
    · omega
  unfold Text.isAlphanumeric
  rw [if_pos hrange, Char.isAlphanum, h, Bool.true_or]

namespace IsName

variable {w : List Char}

theorem mem (h : IsName w) {c : Char} (hc : c ∈ w) : Text.isAlphanumeric c = true ∨ c = '_' := by
  obtain ⟨a, rest, rfl, ha, hrest⟩ := h.spelling
  rcases List.mem_cons.mp hc with rfl | hmem
  · exact Or.inl (isAlphanumeric_of_isAlpha ha)
  · exact hrest c hmem

theorem isWord (h : IsName w) : IsWord w where
  nonempty := by
    obtain ⟨c, rest, rfl, -⟩ := h.spelling
    exact List.cons_ne_nil c rest
  all c hc := by
    rcases h.mem hc with halpha | rfl
    · simp [isWordChar, halpha]
    · rfl

theorem dot_not_mem (h : IsName w) : '.' ∉ w := by
  intro hmem
  rcases h.mem hmem with halpha | heq
  · cases halpha
  · cases heq

theorem part (h : IsName w) : Part cuttingMarks cuttingWords w :=
  Part.of_isWord h.isWord cuttingMarks_not_wordChar fun _ hk =>
    h.unreserved _ (List.mem_append_left _ hk)

end IsName

/-! ## Words -/

theorem IsWord.not_mem {w : List Char} (h : IsWord w) {c : Char} (hc : isWordChar c = false) :
    c ∉ w := fun hmem => ne_of_isWordChar (h.all c hmem) hc rfl

theorem IsWord.trimmed {w : List Char} (h : IsWord w) : Trimmed w :=
  trimmed_of_chars h.nonempty fun c hc => isBlank_of_isWordChar (h.all c hc)

/-- A word is no identifier in quotes. -/
theorem IsWord.unquoteName_eq {w : List Char} (h : IsWord w) : unquoteName w = w := by
  obtain ⟨c, rest, rfl⟩ := List.exists_cons_of_ne_nil h.nonempty
  have hc : isWordChar c = true := h.all c List.mem_cons_self
  have hne (d : Char) (hd : isWordChar d = false) : (some c == some d) = false :=
    beq_false_of_ne fun heq => ne_of_isWordChar hc hd (Option.some.inj heq)
  have hquoted : isQuotedName (c :: rest) = false := by
    simp only [isQuotedName, isDelimited, List.head?_cons, hne '"' rfl, hne '\x60' rfl, hne '[' rfl,
      Bool.and_false, Bool.false_and, Bool.or_self]
  unfold unquoteName
  rw [h.trimmed.trim_eq]
  dsimp only
  rw [hquoted]
  rfl

/-- A keyword and a space begin a text only if the keyword is its leading word. -/
theorem afterWord?_eq_none {keyword text : List Char} (hkeyword : keyword.all isWordChar = true)
    (h : eqIgnoreCase (leadingWord text) keyword = false) : afterWord? keyword text = none := by
  unfold afterWord?
  split
  next rest hrest =>
    exfalso
    obtain ⟨u, rfl, hu⟩ := afterPattern?_eq_some_iff.mp hrest
    have hleading : leadingWord keyword = keyword :=
      List.takeWhile_eq_self_iff.mpr (List.all_eq_true.mp hkeyword)
    have hword := eqIgnoreCase_leadingWord hu
    rw [leadingWord_append rfl, ← hleading, hword] at h
    cases h
  next => rfl

/-- A word has no space after a keyword. -/
theorem IsWord.afterWord?_eq_none {w : List Char} (hw : IsWord w) (keyword : List Char) :
    afterWord? keyword w = none := by
  unfold afterWord?
  split
  next rest hrest =>
    obtain ⟨u, rfl, -⟩ := afterPattern?_eq_some_iff.mp hrest
    exact absurd (List.mem_append_right u List.mem_cons_self) (hw.not_mem rfl)
  next => rfl

/-- What follows a keyword and a space. -/
theorem afterWord?_append (keyword : List Char) {text : List Char} (htext : Trimmed text) :
    afterWord? keyword (keyword ++ ' ' :: text) = some text := by
  have hblank : ∀ c ∈ [' '], isBlank c = true := by simp [isBlank]
  rw [afterWord?, afterPattern?_append]
  exact congrArg some ((Text.trim_blanks_append hblank).trans htext.trim_eq)

/-! ## Dots -/

theorem dottedCuts_eq_nil {w : List Char} (h : '.' ∉ w) : dottedCuts w = [] := by
  induction w with
  | nil => rfl
  | cons c w ih =>
    have hc : c ≠ '.' := by
      rintro rfl
      exact h List.mem_cons_self
    rw [dottedCuts]
    simp only [if_neg hc, ih fun hmem => h (List.mem_cons_of_mem _ hmem), List.map_nil]

/-- A text with one dot is cut there only. -/
theorem dottedCuts_append {u v : List Char} (hu : '.' ∉ u) (hv : '.' ∉ v) :
    dottedCuts (u ++ '.' :: v) = [(u, v)] := by
  induction u with
  | nil =>
    rw [List.nil_append, dottedCuts, dottedCuts_eq_nil hv]
    rfl
  | cons c u ih =>
    have hc : c ≠ '.' := by
      rintro rfl
      exact hu List.mem_cons_self
    rw [List.cons_append, dottedCuts]
    simp only [if_neg hc, ih fun hmem => hu (List.mem_cons_of_mem _ hmem)]
    rfl

/-! ## Columns of the table -/

section Columns

variable {t : Table} {aliasName : Option String} {q : Query} {c : Column}

theorem columnNamed?_self (ht : t.IsPlain) (hc : c ∈ t.columns) : t.columnNamed? c.name = some c := by
  have hfind : t.columns.find? (fun d => d.name == c.name) = some c := by
    have hdistinct := ht.distinct
    clear ht
    revert hc hdistinct
    induction t.columns with
    | nil => exact fun hc => absurd hc List.not_mem_nil
    | cons d columns ih =>
      intro hc hdistinct
      rw [List.pairwise_cons] at hdistinct
      rcases List.mem_cons.mp hc with rfl | hmem
      · rw [List.find?_cons_of_pos (by simp)]
      · have hne : ¬ (d.name == c.name) = true := by
          intro heq
          have hsame := hdistinct.1 c hmem
          rw [beq_iff_eq.mp heq, Text.sameName, eqIgnoreCase, beq_self_eq_true] at hsame
          cases hsame
        rw [List.find?_cons, Bool.eq_false_iff.mpr hne]
        exact ih hmem hdistinct.2
  rw [Table.columnNamed?, hfind]
  rfl

/-- The label under which the items of a query refer to a table. -/
def labelOf (t : Table) (aliasName : Option String) : String := aliasName.getD t.name

theorem label?_table : (FromItem.table t aliasName).label? = some (labelOf t aliasName) := by
  cases aliasName <;> rfl

/-- The label of the only table refers to it. -/
theorem source?_label (hq : q.sources = [.table t aliasName]) :
    q.source? (labelOf t aliasName) = some (.table t aliasName) := by
  have hreferenced : (FromItem.table t aliasName).referenced? (labelOf t aliasName) =
      some (.table t aliasName) := by
    cases aliasName with
    | some a => simp [FromItem.referenced?, FromItem.leaves, FromItem.alias?, labelOf]
    | none =>
      simp [FromItem.referenced?, FromItem.leaves, FromItem.alias?, FromItem.table?, labelOf,
        Text.sameName_self]
  rw [QueryOf.source?, hq, List.findSome?_cons, hreferenced]

theorem resolveIn?_column (ht : t.IsPlain) (hc : c ∈ t.columns) (qualified : Bool) :
    resolveIn? (.table t aliasName) c.name.toList qualified = some fun id =>
      Item.ofColumn id c (if qualified then some (labelOf t aliasName) else none) := by
  simp only [resolveIn?, String.ofList_toList, columnNamed?_self ht hc, label?_table]

/-- The text of a column that may be scoped. -/
def columnText (c : Column) (scope : Option String) : List Char :=
  (Item.underScope scope c.name).toList

theorem columnText_some (c : Column) (label : String) :
    columnText c (some label) = label.toList ++ '.' :: c.name.toList := by
  simp [columnText, Item.underScope]

/-- A plain source: the table and its alias have plain names. -/
structure PlainSource (t : Table) (aliasName : Option String) : Prop where
  table : t.IsPlain
  aliasName : ∀ a ∈ aliasName, IsName a.toList

theorem PlainSource.label (h : PlainSource t aliasName) : IsName (labelOf t aliasName).toList := by
  cases haliasName : aliasName with
  | none => exact h.table.name
  | some a => exact h.aliasName a haliasName

variable {scope : Option String}

theorem isWord_columnText (h : PlainSource t aliasName) (hc : c ∈ t.columns)
    (hscope : scope = none ∨ scope = some (labelOf t aliasName)) : IsWord (columnText c scope) := by
  have hname := (h.table.columns c hc).isWord
  rcases hscope with rfl | rfl
  · exact hname
  · rw [columnText_some]
    refine ⟨by simp, fun d hd => ?_⟩
    rcases List.mem_append.mp hd with hd | hd
    · exact h.label.isWord.all d hd
    · rcases List.mem_cons.mp hd with rfl | hd
      · rfl
      · exact hname.all d hd

/-- A text with a character that a word does not have is not that word. -/
theorem eqIgnoreCase_of_mem {w k : List Char} {d : Char} (hd : d ∈ w)
    (hk : d.toLower ∉ k.map Char.toLower) : eqIgnoreCase w k = false := by
  rw [eqIgnoreCase, beq_eq_false_iff_ne]
  intro heq
  apply hk
  rw [← heq]
  exact List.mem_map_of_mem hd

theorem reservedWords_spelling :
    ∀ k ∈ reservedWords, '.' ∉ k.map Char.toLower ∧ '(' ∉ k.map Char.toLower := by
  decide

/-- The text of a column is no reserved word, because none of these has a dot. -/
theorem columnText_unreserved (h : PlainSource t aliasName) (hc : c ∈ t.columns)
    (hscope : scope = none ∨ scope = some (labelOf t aliasName)) :
    ∀ k ∈ reservedWords, eqIgnoreCase (columnText c scope) k = false := by
  intro k hk
  rcases hscope with rfl | rfl
  · exact (h.table.columns c hc).unreserved k hk
  · rw [columnText_some]
    exact eqIgnoreCase_of_mem (List.mem_append_right _ List.mem_cons_self)
      (reservedWords_spelling k hk).1

theorem part_columnText (h : PlainSource t aliasName) (hc : c ∈ t.columns)
    (hscope : scope = none ∨ scope = some (labelOf t aliasName)) :
    Part cuttingMarks cuttingWords (columnText c scope) :=
  Part.of_isWord (isWord_columnText h hc hscope) cuttingMarks_not_wordChar fun k hk =>
    columnText_unreserved h hc hscope k (List.mem_append_left _ hk)

/-- **The text of a column means the column**, in the scope that it shows. -/
theorem resolveColumn_columnText (h : PlainSource t aliasName)
    (hq : q.sources = [.table t aliasName]) (hc : c ∈ t.columns)
    (hscope : scope = none ∨ scope = some (labelOf t aliasName)) :
    resolveColumn q (columnText c scope) = .ok (some fun id => Item.ofColumn id c scope) := by
  have hname := h.table.columns c hc
  rcases hscope with rfl | rfl
  · have hleaves : q.sources.flatMap FromItem.leaves = [.table t aliasName] := by
      rw [hq]
      rfl
    unfold resolveColumn
    rw [show columnText c none = c.name.toList from rfl, dottedCuts_eq_nil hname.dot_not_mem]
    simp only [List.findSome?_nil, hleaves]
    rw [List.filterMap_cons, resolveIn?_column h.table hc false]
    rfl
  · unfold resolveColumn
    rw [columnText_some, dottedCuts_append h.label.dot_not_mem hname.dot_not_mem]
    simp only [List.findSome?_cons, h.label.isWord.unquoteName_eq, String.ofList_toList,
      source?_label hq, Option.map_some, hname.isWord.unquoteName_eq,
      resolveIn?_column h.table hc true]
    rfl

end Columns

/-! ## Items over the table -/

section Items

variable {t : Table} {aliasName : Option String} {q : Query} {i : Item}

/-- The name of a function is a word of ASCII letters and underscores, and no reserved one. -/
theorem isWord_functionName (f : Builtin) : IsWord f.name.toList := by
  cases f <;> exact isWord_of_all (by decide) (by decide)

theorem functionName_unreserved (f : Builtin) :
    ∀ k ∈ "APPROXIMATE".toList :: reservedWords, eqIgnoreCase f.name.toList k = false := by
  cases f <;> decide

theorem functionName_spelling (f : Builtin) :
    (f.name.toList.all fun c => c != '(') = true ∧
      (f.name.toList.all fun c => c.isAlphanum || c == '_') = true := by
  cases f <;> decide

theorem ofName?_name (f : Builtin) : Builtin.ofName? f.name.toList = some f := by
  cases f <;> decide

/-- The arguments of a function call: a column and literals. -/
def argumentTexts (c : Column) (scope : Option String) (parameters : List Value) :
    List (List Char) :=
  columnText c scope :: parameters.map fun v => v.literal.toList

/-- The arguments of a function call as one text. -/
def argumentsText (c : Column) (scope : Option String) (parameters : List Value) : List Char :=
  [',', ' '].intercalate (argumentTexts c scope parameters)

/-- The text of a function call. -/
def callText (f : Builtin) (arguments : List Char) : List Char := f.name.toList ++ enclosed arguments

/-- The word that allows a function to be approximate, where it is allowed. -/
def approximately (approximate : Bool) (text : List Char) : List Char :=
  if approximate then "APPROXIMATE".toList ++ ' ' :: text else text

theorem toList_underFunction (f : Builtin) (approximate : Bool) (parameters : List Value)
    (body : String) : (Item.underFunction (some f) approximate parameters body).toList =
      approximately approximate (callText f
        ([',', ' '].intercalate (body.toList :: parameters.map fun v => v.literal.toList))) := by
  cases approximate <;>
    simp [Item.underFunction, approximately, callText, enclosed, Text.joinWith,
      String.toList_intercalate, Function.comp_def]

theorem part_approximately {approximate : Bool} {text : List Char}
    (h : Part cuttingMarks cuttingWords text) :
    Part cuttingMarks cuttingWords (approximately approximate text) := by
  unfold approximately
  split_ifs
  · have hword : Part cuttingMarks cuttingWords "APPROXIMATE".toList :=
      Part.of_isWord (isWord_of_all (by decide) (by decide)) cuttingMarks_not_wordChar (by decide)
    exact hword.spaced h (by decide) nil_not_mem_cuttingWords
  · exact h

theorem part_callText (f : Builtin) {arguments : List Char} (hbalanced : Balanced arguments)
    (htidy : Tidy arguments) : Part cuttingMarks cuttingWords (callText f arguments) := by
  have hname : Part cuttingMarks cuttingWords f.name.toList :=
    Part.of_isWord (isWord_functionName f) cuttingMarks_not_wordChar fun k hk =>
      functionName_unreserved f k (List.mem_cons_of_mem _ (List.mem_append_left _ hk))
  exact hname.append (Part.of_group hbalanced (Or.inr htidy) (by decide) nil_not_mem_cuttingWords) rfl

theorem part_argumentTexts {c : Column} {scope : Option String} {parameters : List Value}
    (h : PlainSource t aliasName) (hc : c ∈ t.columns)
    (hscope : scope = none ∨ scope = some (labelOf t aliasName))
    (hparameters : ∀ v ∈ parameters, v.IsPlain) :
    ∀ w ∈ argumentTexts c scope parameters, Part cuttingMarks cuttingWords w := by
  refine List.forall_mem_cons.mpr ⟨part_columnText h hc hscope, fun w hw => ?_⟩
  obtain ⟨v, hv, rfl⟩ := List.mem_map.mp hw
  exact part_literal (hparameters v hv)

/-- The arguments are a part as soon as commas do not count as marks. -/
theorem part_argumentsText {c : Column} {scope : Option String} {parameters : List Value}
    (h : PlainSource t aliasName) (hc : c ∈ t.columns)
    (hscope : scope = none ∨ scope = some (labelOf t aliasName))
    (hparameters : ∀ v ∈ parameters, v.IsPlain) :
    Part [] cuttingWords (argumentsText c scope parameters) := by
  apply Part.commas (List.cons_ne_nil _ _) _ (by simp) (by simp) nil_not_mem_cuttingWords
  exact fun w hw => (part_argumentTexts h hc hscope hparameters w hw).mono (List.nil_subset _)
    (List.Subset.refl _)

theorem argumentsText_ne_star {c : Column} {scope : Option String} {parameters : List Value}
    (hword : IsWord (columnText c scope)) : argumentsText c scope parameters ≠ ['*'] := by
  obtain ⟨a, w, hw⟩ := List.exists_cons_of_ne_nil hword.nonempty
  have ha : isWordChar a = true := hword.all a (by rw [hw]; exact List.mem_cons_self)
  intro heq
  have hhead := congrArg List.head? heq
  rw [argumentsText, argumentTexts, hw] at hhead
  cases parameters with
  | nil =>
    rw [List.map_nil, List.intercalate_singleton] at hhead
    exact ne_of_isWordChar ha rfl (Option.some.inj hhead)
  | cons v parameters =>
    rw [List.map_cons, List.intercalate_cons_cons] at hhead
    exact ne_of_isWordChar ha rfl (Option.some.inj hhead)

theorem part_star : Part [] cuttingWords ['*'] := by
  refine Part.of_symbols (List.cons_ne_nil _ _) nil_not_mem_cuttingWords fun c hc => ?_
  obtain rfl := List.mem_singleton.mp hc
  exact ⟨⟨by decide, by decide, by decide⟩, rfl, rfl, List.not_mem_nil⟩

/-- **The text of an item is a part.** -/
theorem part_item (h : PlainSource t aliasName) (hi : i.IsOver t (labelOf t aliasName)) :
    Part cuttingMarks cuttingWords i.sqlWithoutAlias.toList := by
  cases hi with
  | column id hc hscope => exact part_columnText h hc hscope
  | function id f approximate hc hscope hparameters =>
    have harguments := part_argumentsText h hc hscope hparameters
    rw [Item.sqlWithoutAlias, toList_underFunction]
    exact part_approximately (part_callText f harguments.balanced harguments.tidy)
  | countAll id approximate =>
    show Part _ _ (Item.underFunction (some .count) approximate [] "*").toList
    rw [toList_underFunction]
    exact part_approximately (part_callText .count part_star.balanced part_star.tidy)

theorem isAlpha_columnText {c : Column} {scope : Option String} (h : PlainSource t aliasName)
    (hc : c ∈ t.columns) (hscope : scope = none ∨ scope = some (labelOf t aliasName)) :
    ∃ a rest, columnText c scope = a :: rest ∧ a.isAlpha = true := by
  rcases hscope with rfl | rfl
  · obtain ⟨a, rest, htext, ha, -⟩ := (h.table.columns c hc).spelling
    exact ⟨a, rest, htext, ha⟩
  · obtain ⟨a, rest, htext, ha, -⟩ := h.label.spelling
    exact ⟨a, _, by rw [columnText_some, htext]; rfl, ha⟩

theorem isAlpha_approximately (f : Builtin) (approximate : Bool) (arguments : List Char) :
    ∃ a rest, approximately approximate (callText f arguments) = a :: rest ∧ a.isAlpha = true := by
  cases approximate with
  | true => exact ⟨'A', _, rfl, rfl⟩
  | false => cases f <;> exact ⟨_, _, rfl, rfl⟩

theorem paren_mem_approximately (f : Builtin) (approximate : Bool) (arguments : List Char) :
    '(' ∈ approximately approximate (callText f arguments) := by
  cases approximate <;> simp [approximately, callText, enclosed]

theorem getLast?_approximately (f : Builtin) (approximate : Bool) (arguments : List Char) :
    (approximately approximate (callText f arguments)).getLast? = some ')' := by
  have hcall : (callText f arguments).getLast? = some ')' := by
    simp [callText, enclosed, List.getLast?_cons]
  cases approximate with
  | false => exact hcall
  | true =>
    show ("APPROXIMATE".toList ++ ' ' :: callText f arguments).getLast? = _
    rw [List.getLast?_append_of_ne_nil _ (List.cons_ne_nil _ _),
      List.getLast?_cons_of_ne_nil (by simp [callText, enclosed]), hcall]

/-- What the text of an item looks like: it begins with a letter, is no reserved word, and is either
one word or ends in a parenthesis. -/
structure ItemText (w : List Char) : Prop where
  first : ∃ a rest, w = a :: rest ∧ a.isAlpha = true
  unreserved : ∀ k ∈ reservedWords, eqIgnoreCase w k = false
  ending : IsWord w ∨ w.getLast? = some ')'
  leading : eqIgnoreCase (leadingWord w) "DISTINCT".toList = false

theorem itemText_call (f : Builtin) (approximate : Bool) (arguments : List Char) :
    ItemText (approximately approximate (callText f arguments)) where
  first := isAlpha_approximately f approximate arguments
  unreserved k hk := eqIgnoreCase_of_mem (paren_mem_approximately f approximate arguments)
    (reservedWords_spelling k hk).2
  ending := Or.inr (getLast?_approximately f approximate arguments)
  leading := by
    cases approximate with
    | true => rfl
    | false =>
      have hleading : leadingWord (callText f arguments) = f.name.toList :=
        (leadingWord_append rfl).trans (isWord_functionName f).leadingWord_eq
      show eqIgnoreCase (leadingWord (callText f arguments)) _ = false
      rw [hleading]
      exact functionName_unreserved f _ (List.mem_cons_of_mem _ (by decide))

theorem itemText_sql (h : PlainSource t aliasName) (hi : i.IsOver t (labelOf t aliasName)) :
    ItemText i.sqlWithoutAlias.toList := by
  cases hi with
  | column id hc hscope =>
    have hword := isWord_columnText h hc hscope
    refine ⟨isAlpha_columnText h hc hscope, columnText_unreserved h hc hscope, Or.inl hword, ?_⟩
    show eqIgnoreCase (leadingWord (columnText _ _)) _ = false
    rw [hword.leadingWord_eq]
    exact columnText_unreserved h hc hscope _ (by decide)
  | function id f approximate hc hscope hparameters =>
    rw [Item.sqlWithoutAlias, toList_underFunction]
    exact itemText_call f approximate _
  | countAll id approximate =>
    show ItemText (Item.underFunction (some .count) approximate [] "*").toList
    rw [toList_underFunction]
    exact itemText_call .count approximate _

namespace ItemText

variable {w : List Char}

theorem head_ne (h : ItemText w) {d : Char} (hd : d.isAlpha = false) (rest : List Char) :
    w ≠ d :: rest := by
  obtain ⟨a, w', rfl, ha⟩ := h.first
  intro heq
  rw [(List.cons.inj heq).1, hd] at ha
  cases ha

/-- The text of an item is no literal. -/
theorem readLiteral?_eq_none (h : ItemText w) (htrimmed : Trimmed w) : readLiteral? w = none := by
  obtain ⟨a, rest, hw, ha⟩ := h.first
  have hword {k : List Char} (hk : k ∈ reservedWords) : eqIgnoreCase w k = false :=
    h.unreserved k hk
  have hstarts : w.head?.any startsNumber = false := by
    have hne (d : Char) (hd : d.isAlpha = false) : (a == d) = false := by
      apply beq_false_of_ne
      rintro rfl
      rw [hd] at ha
      cases ha
    have hdigit : a.isDigit = false := by
      rw [Bool.eq_false_iff]
      intro hdigit
      obtain ⟨-, hgreatest⟩ := Bool.and_eq_true_iff.mp hdigit
      have hgreatest : a.val ≤ '9'.val := of_decide_eq_true hgreatest
      have hnine : a.toNat ≤ 57 := by simpa [UInt32.le_iff_toNat_le] using hgreatest
      rcases isAlpha_range ha with hupper | hlower
      · omega
      · omega
    rw [hw]
    show startsNumber a = false
    simp only [startsNumber, hdigit, hne '-' rfl, hne '+' rfl, hne '.' rfl, Bool.or_self]
  unfold readLiteral?
  rw [htrimmed.trim_eq]
  dsimp only
  split
  next body => exact absurd rfl (h.head_ne (d := '\'') rfl body)
  next =>
    simp only [hword (show "NULL".toList ∈ reservedWords by decide),
      hword (show "TRUE".toList ∈ reservedWords by decide),
      hword (show "FALSE".toList ∈ reservedWords by decide), hstarts, Bool.false_eq_true, if_false]

end ItemText

/-! ## Reading items -/

theorem spanApproximate_of_leadingWord {text : List Char}
    (h : eqIgnoreCase (leadingWord text) "APPROXIMATE".toList = false) :
    spanApproximate text = (false, text) := by
  rw [spanApproximate, afterWord?_eq_none (by decide) h]

theorem spanApproximate_word {w : List Char} (hw : IsWord w) : spanApproximate w = (false, w) := by
  rw [spanApproximate, hw.afterWord?_eq_none]

/-- The word APPROXIMATE in front of a text is taken off. -/
theorem spanApproximate_approximately (approximate : Bool) {text : List Char}
    (htrimmed : Trimmed text)
    (h : eqIgnoreCase (leadingWord text) "APPROXIMATE".toList = false) :
    spanApproximate (approximately approximate text) = (approximate, text) := by
  cases approximate with
  | false => exact spanApproximate_of_leadingWord h
  | true =>
    have hafter := afterWord?_append "APPROXIMATE".toList htrimmed
    have hlength : text.length < ("APPROXIMATE".toList ++ ' ' :: text).length := by
      simp only [List.length_append, List.length_cons]
      omega
    show spanApproximate ("APPROXIMATE".toList ++ ' ' :: text) = _
    rw [spanApproximate, hafter]
    simp only [if_pos hlength, spanApproximate_of_leadingWord h]

theorem functionCall?_callText (f : Builtin) {arguments : List Char} (hbalanced : Balanced arguments)
    (htrimmed : Trimmed arguments) :
    functionCall? (callText f arguments) = some (f.name.toList, arguments) := by
  obtain ⟨hopen, hspelling⟩ := functionName_spelling f
  have hopen := List.all_eq_true.mp hopen
  have htake : (callText f arguments).takeWhile (· != '(') = f.name.toList := by
    rw [callText, List.takeWhile_append_of_pos hopen]
    simp [enclosed]
  have hdrop : (callText f arguments).dropWhile (· != '(') = enclosed arguments := by
    rw [callText, List.dropWhile_append_of_pos hopen]
    simp [enclosed]
  have hname := (isWord_functionName f).trimmed
  unfold functionCall?
  rw [htake, hname.trim_eq, hdrop, enclosed, parenthesized?_group hbalanced]
  dsimp only
  rw [if_neg (by simp [hname.nonempty, hspelling]), htrimmed.trim_eq]

theorem functionCall?_word {w : List Char} (hw : IsWord w) : functionCall? w = none := by
  have hopen : ∀ c ∈ w, (c != '(') = true := fun c hc =>
    bne_iff_ne.mpr (ne_of_isWordChar (hw.all c hc) rfl)
  have hdrop : w.dropWhile (· != '(') = [] := List.dropWhile_eq_nil_iff.mpr hopen
  unfold functionCall?
  dsimp only
  rw [hdrop]
  split_ifs <;> rfl

theorem readParameters_literals {parameters : List Value} (text : List Char)
    (h : ∀ v ∈ parameters, v.IsPlain) :
    readParameters text (parameters.map fun v => v.literal.toList) = .ok parameters := by
  induction parameters with
  | nil => rfl
  | cons v parameters ih =>
    rw [List.map_cons, readParameters, readLiteral?_literal (h v List.mem_cons_self)]
    simp only [ih fun w hw => h w (List.mem_cons_of_mem _ hw)]
    rfl

/-- **A function call reads back as the function of its column with its parameters.** -/
theorem resolveFunction_argumentsText (f : Builtin) {c : Column} {scope : Option String}
    {parameters : List Value} (text : List Char) (h : PlainSource t aliasName)
    (hq : q.sources = [.table t aliasName]) (hc : c ∈ t.columns)
    (hscope : scope = none ∨ scope = some (labelOf t aliasName))
    (hparameters : ∀ v ∈ parameters, v.IsPlain) :
    ∃ pending, resolveFunction q f (argumentsText c scope parameters) text = .ok pending ∧
      ∀ id, pending id = ⟨id, .column c, some f, parameters, false, scope, none⟩ := by
  have hsplit : splitOn [','] (argumentsText c scope parameters) = argumentTexts c scope parameters :=
    splitOn_commas (part_argumentTexts h hc hscope hparameters) (by decide)
  have hresolved : resolveFunction q f (argumentsText c scope parameters) text =
      .ok fun id =>
        let item := (Item.ofColumn id c scope).withFunction id (some f)
        if parameters.isEmpty then item else item.withParameters id parameters := by
    unfold resolveFunction
    rw [hsplit, argumentTexts]
    dsimp only
    rw [(isWord_columnText h hc hscope).unquoteName_eq, resolveColumn_columnText h hq hc hscope,
      readParameters_literals text hparameters]
    rfl
  refine ⟨_, hresolved, fun id => ?_⟩
  cases parameters <;> rfl

/-- What the text of a function call means, the word APPROXIMATE in front of it or not. -/
theorem resolveItem_callText (f : Builtin) (approximate : Bool) {arguments : List Char}
    (hbalanced : Balanced arguments) (htidy : Tidy arguments) (htrimmed : Trimmed arguments)
    (pending : Pending)
    (hfound : (if f = .count ∧ arguments = ['*'] then .ok (some Item.countAll)
      else (resolveFunction q f arguments (callText f arguments)).map some :
        Except QueryError (Option Pending)) = .ok (some pending)) :
    resolveItem q (approximately approximate (callText f arguments)) = .ok (some fun id =>
      if approximate then (pending id).withApproximate id true else pending id) := by
  have hpart := part_callText f hbalanced htidy
  have hleading : leadingWord (callText f arguments) = f.name.toList :=
    (leadingWord_append rfl).trans (isWord_functionName f).leadingWord_eq
  have hword : eqIgnoreCase (leadingWord (callText f arguments)) "APPROXIMATE".toList = false := by
    rw [hleading]
    exact functionName_unreserved f _ List.mem_cons_self
  unfold resolveItem
  rw [(part_approximately hpart).trimmed.trim_eq,
    spanApproximate_approximately approximate hpart.trimmed hword]
  simp only [functionCall?_callText f hbalanced htrimmed, ofName?_name]
  split_ifs at hfound ⊢
  all_goals
    rw [hfound]
    rfl

/-- **The text of an item means the item.**  The identity is the one that it is put into the query
with. -/
theorem resolveItem_sql (h : PlainSource t aliasName) (hq : q.sources = [.table t aliasName])
    (hi : i.IsOver t (labelOf t aliasName)) :
    ∃ pending, resolveItem q i.sqlWithoutAlias.toList = .ok (some pending) ∧
      ∀ id, pending id = { i with id := id } := by
  cases hi with
  | @column _ c scope hc hscope =>
    have hword := isWord_columnText h hc hscope
    refine ⟨fun id => Item.ofColumn id c scope, ?_, fun id => rfl⟩
    show resolveItem q (columnText c scope) = _
    unfold resolveItem
    rw [hword.trimmed.trim_eq, spanApproximate_word hword]
    simp only [functionCall?_word hword, hword.unquoteName_eq,
      resolveColumn_columnText h hq hc hscope]
    rfl
  | @function _ f c parameters approximate scope hc hscope hparameters =>
    have harguments := part_argumentsText h hc hscope hparameters
    obtain ⟨pending, hresolved, hpending⟩ := resolveFunction_argumentsText f
      (callText f (argumentsText c scope parameters)) h hq hc hscope hparameters
    have hstar : ¬ (f = .count ∧ argumentsText c scope parameters = ['*']) :=
      fun hstar => argumentsText_ne_star (isWord_columnText h hc hscope) hstar.2
    have hcall := resolveItem_callText f approximate harguments.balanced harguments.tidy
      harguments.trimmed pending (by rw [if_neg hstar, hresolved]; rfl)
    rw [Item.sqlWithoutAlias, toList_underFunction]
    refine ⟨_, hcall, fun id => ?_⟩
    rw [hpending]
    cases approximate <;> rfl
  | countAll id approximate =>
    have hcall := resolveItem_callText (q := q) .count approximate part_star.balanced part_star.tidy
      part_star.trimmed Item.countAll rfl
    show ∃ pending, resolveItem q (Item.underFunction (some .count) approximate [] "*").toList = _ ∧ _
    rw [toList_underFunction]
    refine ⟨_, hcall, fun id => ?_⟩
    cases approximate <;> rfl

theorem sameParameters_self {parameters : List Value} (h : ∀ v ∈ parameters, v.IsPlain) :
    Item.sameParameters parameters parameters = true := by
  induction parameters with
  | nil => rfl
  | cons v parameters ih =>
    rw [Item.sameParameters, (h v List.mem_cons_self).same_self,
      ih fun w hw => h w (List.mem_cons_of_mem _ hw)]
    rfl

/-- An item over a table is the same as its copies. -/
theorem same_of_isOver {label : String} (hi : i.IsOver t label) (id : Nat) :
    Item.same { i with id := id } i = true := by
  cases hi with
  | column _ hc hscope =>
    simp [Item.same, Item.ofColumn, Item.plain, Item.sameAs, Item.sameUse, Item.sameParameters]
  | function _ f approximate hc hscope hplain =>
    simp [Item.same, Item.sameAs, Item.sameUse, sameParameters_self hplain]
  | countAll _ approximate =>
    simp [Item.same, Item.countAll, Item.plain, Item.sameAs, Item.sameUse, Item.sameParameters]

/-! ## Items in a query -/

/-- A query that is being read: its only from item is the table, and its select items so far have no
aliases. -/
structure ReadOver (q : Query) (t : Table) (aliasName : Option String) : Prop where
  sources : q.sources = [.table t aliasName]
  unaliased : ∀ i ∈ q.select, i.aliasName = none

theorem resolveReference_sql (h : PlainSource t aliasName) (hq : ReadOver q t aliasName)
    (hi : i.IsOver t (labelOf t aliasName)) :
    ∃ pending, resolveReference q i.sqlWithoutAlias.toList = .ok (some pending) ∧
      ∀ id, pending id = { i with id := id } := by
  have hnone (name : String) : q.aliased? name = none := by
    apply List.find?_eq_none.mpr
    intro j hj
    rw [hq.unaliased j hj]
    exact Bool.false_ne_true
  unfold resolveReference
  rw [hnone]
  exact resolveItem_sql h hq.sources hi

/-- **The text of an item is read as a copy of the item.** -/
theorem reads_item (h : PlainSource t aliasName) (hq : ReadOver q t aliasName)
    (hi : i.IsOver t (labelOf t aliasName)) (failure : QueryError) :
    Reads (makeFound (resolveReference q i.sqlWithoutAlias.toList) failure) fun j =>
      ∃ id, j = { i with id := id } := by
  obtain ⟨pending, hresolved, hpending⟩ := resolveReference_sql h hq hi
  apply (reads_makeFound hresolved).mono
  rintro j ⟨id, rfl⟩
  exact ⟨id, hpending id⟩

end Items

end Grammar

end DocQuery
