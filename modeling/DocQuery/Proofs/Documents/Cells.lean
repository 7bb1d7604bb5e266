import DocQuery.Documents.Document
import DocQuery.Proofs.Documents.Loaded
import DocQuery.Proofs.Number.Texts

/-!
# DocQuery.Proofs.Documents.Cells — columns of one kind

The kind of a column is the least one that covers all of its cells that are not empty
(`CellKind.infer_within_iff`), so their order does not matter.  Every cell is of the kind of its column
or empty, and is read as a value of that kind or as null (`CellKind.fits_value_infer`).  So the columns
of comma separated values never mix kinds, neither as documents nor as a table
(`CellKind.infers_one_kind`).
-/

namespace DocQuery

namespace Decimal

/-- What a sign is cut from holds all that is left. -/
theorem mem_of_mem_spanSign {s : List Char} {c : Char} (h : c ∈ (spanSign s).2) : c ∈ s := by
  unfold spanSign at h
  split at h
  case h_3 => exact h
  all_goals exact List.mem_cons_of_mem _ h

/-- The digits of an integer of 64 bits, under its sign. -/
theorem exists_digits_of_readInt64? {s : List Char} {i : Int64} (h : readInt64? s = some i) :
    (spanSign s).2 ≠ [] ∧ ∀ c ∈ (spanSign s).2, c.isDigit = true := by
  obtain ⟨n, hn, -⟩ : ∃ n, readNat? (spanSign s).2 = some n ∧ _ := Option.bind_eq_some_iff.mp h
  unfold readNat? at hn
  split_ifs at hn with hdigits
  exact ⟨hdigits.1, List.all_eq_true.mp hdigits.2⟩

/-- **A text that is read as an integer is read as a double, too.** -/
theorem exists_readBinary64?_of_readInt64? {s : List Char} {i : Int64} (h : readInt64? s = some i) :
    ∃ x, readBinary64? s = some x := by
  obtain ⟨hne, hdigits⟩ := exists_digits_of_readInt64? h
  have hpositional : IsPositional (spanSign s).2 (spanSign s).2 [] :=
    { nonempty := hne
      whole_digits := hdigits
      fraction_digits := List.forall_mem_nil _
      text_eq := Or.inr ⟨rfl, rfl⟩ }
  exact ⟨_, hpositional.readBinary64?_of_spanSign rfl⟩

end Decimal

namespace CellKind

/-! ## The kind of a cell -/

variable {cell : List Char}

theorem not_isDigit_of_isBooleanWord (h : isBooleanWord cell = true) :
    ∀ c ∈ cell, c.isDigit = false := by
  intro c hc
  by_contra hdigit
  rw [Bool.not_eq_false] at hdigit
  -- A digit is its own lower case, and there is none in either word.
  have hlower : c ∈ cell.map Char.toLower :=
    List.mem_map.mpr ⟨c, hc, Grammar.isDigit_toLower hdigit⟩
  have hwords : ∀ d ∈ "true".toList ++ "false".toList, d.isDigit = false := by decide
  rw [isBooleanWord, Bool.or_eq_true, Text.eqIgnoreCase, Text.eqIgnoreCase, beq_iff_eq,
    beq_iff_eq] at h
  have hmem : c ∈ "true".toList ++ "false".toList := by
    rcases h with h | h <;> rw [h] at hlower
    · exact List.mem_append_left _ hlower
    · exact List.mem_append_right _ hlower
  rw [hwords c hmem] at hdigit
  cases hdigit

theorem ofCell_eq_integer_iff : ofCell cell = .integer ↔ (Decimal.readInt64? cell).isSome = true := by
  unfold ofCell
  split_ifs with hinteger <;> simp [hinteger]

/-- A cell is a boolean just if it is one of the two words. -/
theorem ofCell_eq_boolean_iff : ofCell cell = .boolean ↔ isBooleanWord cell = true := by
  unfold ofCell
  split_ifs with hinteger hfloat hboolean
  case pos =>
    refine iff_of_false (by decide) fun hword => ?_
    obtain ⟨i, hi⟩ := Option.isSome_iff_exists.mp hinteger
    obtain ⟨hne, hdigits⟩ := Decimal.exists_digits_of_readInt64? hi
    obtain ⟨c, rest, hcons⟩ := List.exists_cons_of_ne_nil hne
    have hc : c ∈ (Decimal.spanSign cell).2 := hcons ▸ List.mem_cons_self
    have hdigit := hdigits c hc
    rw [not_isDigit_of_isBooleanWord hword c (Decimal.mem_of_mem_spanSign hc)] at hdigit
    cases hdigit
  case pos =>
    refine iff_of_false (by decide) fun hword => ?_
    rw [Bool.and_eq_true, List.any_eq_true] at hfloat
    obtain ⟨⟨c, hc, hdigit⟩, -⟩ := hfloat
    rw [not_isDigit_of_isBooleanWord hword c hc] at hdigit
    cases hdigit
  case pos => exact iff_of_true rfl hboolean
  case neg => exact iff_of_false (by decide) hboolean

/-! ## The least kind that covers -/

/-- Whether a kind covers another one. -/
def Within (a b : CellKind) : Prop := a.union b = b

instance (a b : CellKind) : Decidable (a.Within b) := inferInstanceAs (Decidable (_ = _))

theorem union_within_iff {a b c : CellKind} : (a.union b).Within c ↔ a.Within c ∧ b.Within c := by
  cases a <;> cases b <;> cases c <;> decide

theorem within_integer_iff {a : CellKind} : a.Within .integer ↔ a = .integer := by
  cases a <;> decide

theorem within_float_iff {a : CellKind} : a.Within .float ↔ a = .integer ∨ a = .float := by
  cases a <;> decide

theorem within_boolean_iff {a : CellKind} : a.Within .boolean ↔ a = .boolean := by
  cases a <;> decide

theorem exists_of_foldl_widen (cells : List (List Char)) (a : CellKind) :
    ∃ b, cells.foldl widen (some a) = some b ∧
      ∀ c, b.Within c ↔ a.Within c ∧ ∀ cell ∈ cells, (ofCell cell).Within c := by
  induction cells generalizing a with
  | nil => exact ⟨a, rfl, by simp⟩
  | cons cell rest ih =>
    obtain ⟨b, hb, hwithin⟩ := ih (a.union (ofCell cell))
    refine ⟨b, hb, fun c => ?_⟩
    rw [hwithin, union_within_iff, List.forall_mem_cons, and_assoc]

/-- **The kind of a column is the least one that covers its cells**, of which one at least is not
empty. -/
theorem infer_within_iff {cells : List (List Char)} (h : ∃ cell ∈ cells, cell ≠ []) (c : CellKind) :
    (infer cells).Within c ↔ ∀ cell ∈ cells, cell ≠ [] → (ofCell cell).Within c := by
  have hfilled : ∀ cell, cell ∈ cells.filter (· ≠ []) ↔ cell ∈ cells ∧ cell ≠ [] := by simp
  cases hcells : cells.filter (· ≠ []) with
  | nil =>
    obtain ⟨cell, hcell⟩ := h
    rw [← hfilled, hcells] at hcell
    cases hcell
  | cons first rest =>
    obtain ⟨b, hb, hwithin⟩ := exists_of_foldl_widen rest (ofCell first)
    have hinfer : infer cells = b := by
      unfold infer
      rw [hcells]
      exact congrArg (Option.getD · CellKind.text) hb
    have hfirst : (ofCell first).Within c ∧ (∀ cell ∈ rest, (ofCell cell).Within c) ↔
        ∀ cell ∈ first :: rest, (ofCell cell).Within c := by rw [List.forall_mem_cons]
    rw [hinfer, hwithin, hfirst, ← hcells]
    simp only [hfilled, and_imp]

theorem infer_of_empty {cells : List (List Char)} (h : ∀ cell ∈ cells, cell = []) :
    infer cells = .text := by
  have hnone : cells.filter (· ≠ []) = [] := by simpa using h
  unfold infer
  rw [hnone]
  rfl

/-! ## Which kind a column has -/

/-- There is a cell that is not empty, and every such cell is an integer of 64 bits. -/
def AreIntegers (cells : List (List Char)) : Prop :=
  (∃ cell ∈ cells, cell ≠ []) ∧
    ∀ cell ∈ cells, cell ≠ [] → (Decimal.readInt64? cell).isSome = true

/-- Every cell that is not empty is by itself an integer or a double, and one of them a double. -/
def AreNumbers (cells : List (List Char)) : Prop :=
  (∀ cell ∈ cells, cell ≠ [] → ofCell cell = .integer ∨ ofCell cell = .float) ∧
    ∃ cell ∈ cells, cell ≠ [] ∧ ofCell cell = .float

/-- There is a cell that is not empty, and every such cell is one of the two words for booleans. -/
def AreBooleans (cells : List (List Char)) : Prop :=
  (∃ cell ∈ cells, cell ≠ []) ∧ ∀ cell ∈ cells, cell ≠ [] → isBooleanWord cell = true

section Infer

variable {cells : List (List Char)}

theorem exists_filled_of_infer_ne_text (h : infer cells ≠ .text) : ∃ cell ∈ cells, cell ≠ [] := by
  by_contra hnone
  push Not at hnone
  exact h (infer_of_empty hnone)

/-- A kind that covers no other one is that of columns whose cells are all of it. -/
theorem infer_eq_iff_of_least {a : CellKind} (htext : a ≠ .text)
    (hleast : ∀ b, Within b a ↔ b = a) :
    infer cells = a ↔ (∃ cell ∈ cells, cell ≠ []) ∧ ∀ cell ∈ cells, cell ≠ [] → ofCell cell = a := by
  constructor
  · intro h
    have hfilled := exists_filled_of_infer_ne_text (h ▸ htext)
    refine ⟨hfilled, fun cell hcell hne => (hleast _).mp ?_⟩
    exact (infer_within_iff hfilled a).mp ((hleast _).mpr h) cell hcell hne
  · rintro ⟨hfilled, hall⟩
    refine (hleast _).mp ((infer_within_iff hfilled a).mpr fun cell hcell hne => ?_)
    exact (hleast _).mpr (hall cell hcell hne)

theorem infer_eq_integer_iff : infer cells = .integer ↔ AreIntegers cells := by
  simp only [infer_eq_iff_of_least (by decide) fun _ => within_integer_iff, AreIntegers,
    ofCell_eq_integer_iff]

theorem infer_eq_boolean_iff : infer cells = .boolean ↔ AreBooleans cells := by
  simp only [infer_eq_iff_of_least (by decide) fun _ => within_boolean_iff, AreBooleans,
    ofCell_eq_boolean_iff]

theorem infer_eq_float_iff : infer cells = .float ↔ AreNumbers cells := by
  constructor
  · intro h
    have hne : infer cells ≠ .text := by rw [h]; decide
    have hfilled := exists_filled_of_infer_ne_text hne
    have hcover := (infer_within_iff hfilled .float).mp (within_float_iff.mpr (Or.inr h))
    have hall : ∀ cell ∈ cells, cell ≠ [] → ofCell cell = .integer ∨ ofCell cell = .float :=
      fun cell hcell hne => within_float_iff.mp (hcover cell hcell hne)
    refine ⟨hall, ?_⟩
    -- Were all cells integers, the kind would be that of integers.
    by_contra hnone
    push Not at hnone
    have hintegers : infer cells = .integer :=
      (infer_eq_iff_of_least (by decide) fun _ => within_integer_iff).mpr
        ⟨hfilled, fun cell hcell hne => (hall cell hcell hne).resolve_right (hnone cell hcell hne)⟩
    rw [h] at hintegers
    cases hintegers
  · rintro ⟨hall, cell, hcell, hne, hfloat⟩
    have hfilled : ∃ cell ∈ cells, cell ≠ [] := ⟨cell, hcell, hne⟩
    have hwithin := (infer_within_iff hfilled .float).mpr fun cell hcell hne =>
      within_float_iff.mpr (hall cell hcell hne)
    refine (within_float_iff.mp hwithin).resolve_left fun hintegers => ?_
    have hall' := ((infer_eq_iff_of_least (by decide) fun _ => within_integer_iff).mp hintegers).2
    rw [hall' cell hcell hne] at hfloat
    cases hfloat

theorem infer_eq_text_iff :
    infer cells = .text ↔ ¬ AreIntegers cells ∧ ¬ AreNumbers cells ∧ ¬ AreBooleans cells := by
  rw [← infer_eq_integer_iff, ← infer_eq_float_iff, ← infer_eq_boolean_iff]
  cases infer cells <;> decide

/-- The kind of a column depends on which cells there are, and not on their order. -/
theorem infer_perm {cells' : List (List Char)} (h : cells'.Perm cells) :
    infer cells' = infer cells := by
  have hmem {P : List Char → Prop} : (∀ cell ∈ cells', P cell) ↔ ∀ cell ∈ cells, P cell := by
    simp only [h.mem_iff]
  by_cases hfilled : ∃ cell ∈ cells, cell ≠ []
  · have hfilled' : ∃ cell ∈ cells', cell ≠ [] := by simpa only [h.mem_iff] using hfilled
    have hwithin (c : CellKind) : (infer cells').Within c ↔ (infer cells).Within c := by
      rw [infer_within_iff hfilled, infer_within_iff hfilled', hmem]
    have hle := (hwithin (infer cells)).mpr (by cases infer cells <;> rfl)
    have hge := (hwithin (infer cells')).mp (by cases infer cells' <;> rfl)
    revert hle hge
    cases infer cells' <;> cases infer cells <;> decide
  · push Not at hfilled
    rw [infer_of_empty hfilled, infer_of_empty (hmem.mpr hfilled)]

/-! ## Values of a column -/

/-- Whether a value is one of a kind. -/
def fits : CellKind → Value → Bool
  | .integer, .number (.integer _) => true
  | .float, .number (.float _) => true
  | .boolean, .boolean _ => true
  | .text, .text _ => true
  | _, _ => false

theorem exists_readBinary64?_of_ofCell (h : ofCell cell = .integer ∨ ofCell cell = .float) :
    ∃ x, Decimal.readBinary64? cell = some x := by
  rcases h with hinteger | hfloat
  · obtain ⟨i, hi⟩ := Option.isSome_iff_exists.mp (ofCell_eq_integer_iff.mp hinteger)
    exact Decimal.exists_readBinary64?_of_readInt64? hi
  · unfold ofCell at hfloat
    split_ifs at hfloat with _ hread
    exact Option.isSome_iff_exists.mp (Bool.and_eq_true_iff.mp hread).2

/-- **A cell that is not empty is of the kind of its column**, unless that is text. -/
theorem exists_read?_infer (hcell : cell ∈ cells) (hne : cell ≠ []) (htext : infer cells ≠ .text) :
    ∃ v, (infer cells).read? cell = some v ∧ (infer cells).fits v = true := by
  cases hkind : infer cells with
  | integer =>
    obtain ⟨i, hi⟩ := Option.isSome_iff_exists.mp ((infer_eq_integer_iff.mp hkind).2 cell hcell hne)
    exact ⟨.integer i, congrArg (Option.map Value.integer) hi, rfl⟩
  | float =>
    obtain ⟨x, hx⟩ := exists_readBinary64?_of_ofCell ((infer_eq_float_iff.mp hkind).1 cell hcell hne)
    exact ⟨.float x, congrArg (Option.map Value.float) hx, rfl⟩
  | boolean => exact ⟨_, rfl, rfl⟩
  | text => exact absurd hkind htext

theorem value_of_ne_nil (kind : CellKind) (hne : cell ≠ []) :
    kind.value cell = (kind.read? cell).getD (.text (String.ofList cell)) := if_neg hne

/-- **A cell that is not empty is read as a value of the kind of its column.** -/
theorem fits_value_infer (hcell : cell ∈ cells) (hne : cell ≠ []) :
    (infer cells).fits ((infer cells).value cell) = true := by
  rw [value_of_ne_nil _ hne]
  by_cases htext : infer cells = .text
  · rw [htext]
    rfl
  · obtain ⟨v, hv, hfits⟩ := exists_read?_infer hcell hne htext
    rw [hv]
    exact hfits

theorem value_infer_eq_null_iff (hcell : cell ∈ cells) :
    (infer cells).value cell = .null ↔ cell = [] := by
  refine ⟨fun hnull => ?_, fun hempty => if_pos hempty⟩
  by_contra hne
  have hfits := fits_value_infer hcell hne
  rw [hnull] at hfits
  cases hkind : infer cells <;> rw [hkind] at hfits <;> cases hfits

end Infer

/-! ## Comma separated values -/

/-- A value is missing, or one of a kind. -/
def Allows (kind : CellKind) (v : Value) : Prop := v = .null ∨ kind.fits v = true

/-- A document has the keys of columns, each with a value that the kind of its column allows. -/
abbrev AllowsAll (columns : List (String × CellKind)) (document : Document) : Prop :=
  List.Forall₂ (fun entry column => entry.1 = column.1 ∧ column.2.Allows entry.2) document columns

/-- A cell that a record may lack is allowed by the kind of its column. -/
theorem allows_value_columnCells {records : List (List (List Char))} {record : List (List Char)}
    (hrecord : record ∈ records) (place : Nat) :
    (infer (Document.columnCells records place)).Allows
      ((infer (Document.columnCells records place)).value ((record[place]?).getD [])) := by
  by_cases hempty : (record[place]?).getD [] = []
  · rw [hempty]
    exact Or.inl rfl
  · cases hcell : record[place]? with
    | none => exact absurd (by rw [hcell]; rfl) hempty
    | some cell =>
      rw [hcell] at hempty
      exact Or.inr (fits_value_infer (List.mem_filterMap.mpr ⟨record, hrecord, hcell⟩) hempty)

/-- **The documents of comma separated values have one kind in each column.** -/
theorem exists_allowsAll_ofRecords (text : List Char) :
    ∃ columns : List (String × CellKind), ∀ document ∈ Document.ofRecords text,
      AllowsAll columns document := by
  unfold Document.ofRecords
  split
  next => exact ⟨[], fun _ hnone => by cases hnone⟩
  next keys records _ =>
    refine ⟨keys.zipIdx.map fun column =>
      (String.ofList column.1, infer (Document.columnCells records column.2)), ?_⟩
    intro document hdocument
    obtain ⟨record, hrecord, rfl⟩ := List.mem_map.mp hdocument
    simp only [AllowsAll, List.map_map, List.forall₂_map_left_iff, List.forall₂_map_right_iff,
      List.forall₂_same]
    exact fun column _ => ⟨rfl, allows_value_columnCells hrecord column.2⟩

/-- What documents with the same keys have under one of them is allowed by one kind. -/
theorem exists_allows_valueOf {columns : List (String × CellKind)} {documents : List Document}
    (h : ∀ document ∈ documents, AllowsAll columns document) (key : String) :
    ∃ kind : CellKind, ∀ document ∈ documents,
      kind.Allows (LoadedTable.valueOf document key) := by
  -- The last column of a repeated key counts, as in the documents.
  refine ⟨(columns.reverse.lookup key).getD .text, fun document hdocument => ?_⟩
  have hreverse := List.rel_reverse (h document hdocument)
  unfold LoadedTable.valueOf
  generalize document.reverse = entries at hreverse ⊢
  generalize columns.reverse = columns' at hreverse ⊢
  induction hreverse with
  | nil => exact Or.inl rfl
  | @cons entry column _ _ hentry _ ih =>
    obtain ⟨name, v⟩ := entry
    obtain ⟨name', kind⟩ := column
    obtain ⟨rfl, hallows⟩ := hentry
    rw [List.lookup_cons, List.lookup_cons]
    cases key == name with
    | true => exact hallows
    | false => exact ih

/-- **What kind a column has, and what its cells are read as.**  The kind is determined by the cells
that are not empty, in whatever order: integers if there are any and all are integers of 64 bits,
doubles if all are numbers and not all of them integers, booleans if there are any and all are one of
the words, and texts otherwise.  A cell of the column is null just if it is empty, and otherwise a
value of that kind, which is text only if the kind is.  So each column of comma separated values
holds nulls and values of one kind, in their documents and in the table of these. -/
theorem infers_one_kind (cells : List (List Char)) (text : List Char) :
    ((infer cells = .integer ↔ AreIntegers cells) ∧
      (infer cells = .float ↔ AreNumbers cells) ∧
      (infer cells = .boolean ↔ AreBooleans cells) ∧
      (infer cells = .text ↔ ¬ AreIntegers cells ∧ ¬ AreNumbers cells ∧ ¬ AreBooleans cells)) ∧
    (∀ cells', cells'.Perm cells → infer cells' = infer cells) ∧
    (∀ cell ∈ cells, ((infer cells).value cell = .null ↔ cell = []) ∧
      (cell ≠ [] → (infer cells).fits ((infer cells).value cell) = true)) ∧
    (∃ columns, ∀ document ∈ Document.ofRecords text, AllowsAll columns document) ∧
    ∀ name primaryKey (place : Nat), ∃ kind : CellKind,
      ∀ row ∈ (LoadedTable.ofDocuments name (Document.ofRecords text) primaryKey).rows,
        ∀ v ∈ row[place]?, kind.Allows v := by
  obtain ⟨columns, hcolumns⟩ := exists_allowsAll_ofRecords text
  refine ⟨⟨infer_eq_integer_iff, infer_eq_float_iff, infer_eq_boolean_iff, infer_eq_text_iff⟩,
    fun cells' h => infer_perm h,
    fun cell hcell => ⟨value_infer_eq_null_iff hcell, fits_value_infer hcell⟩,
    ⟨columns, hcolumns⟩, fun name primaryKey place => ?_⟩
  rw [LoadedTable.rows_ofDocuments]
  cases hplace : (LoadedTable.columnsOf name (Document.ofRecords text))[place]? with
  | none =>
    refine ⟨.text, fun row hrow v hv => ?_⟩
    obtain ⟨document, -, rfl⟩ := List.mem_map.mp hrow
    rw [LoadedTable.rowOf, List.getElem?_map, hplace] at hv
    cases hv
  | some column =>
    obtain ⟨kind, hkind⟩ := exists_allows_valueOf hcolumns column.name
    refine ⟨kind, fun row hrow v hv => ?_⟩
    obtain ⟨document, hdocument, rfl⟩ := List.mem_map.mp hrow
    rw [LoadedTable.rowOf, List.getElem?_map, hplace] at hv
    cases hv
    exact hkind document hdocument

end CellKind

end DocQuery
