import DocQuery.Proofs.Documents.Store
import Mathlib.Data.List.Induction
import Mathlib.Data.List.Nodup
import Mathlib.Data.Nat.Find

/-!
# DocQuery.Proofs.Documents.Loaded — what a table says of its documents

A table is built from documents entry by entry: a key that is new adds a column, and a column without a
type takes that of the next value.  What comes of it can be said without the building: the columns are
the keys in the order in which they are first seen, each with the type of its first value, the rows have
the last value that a document has for each key, and the index leads from every key to its first row
(`LoadedTable.describes_ofDocuments`).
-/

namespace DocQuery

/-- Whether a value counts as the same key as itself alone.  Doubles count as the integers that they
are, and documents as those with the same text. -/
def Value.isPlainKey : Value → Bool
  | .number (.float _) | .nested _ => false
  | _ => true

/-- Plain keys that a hashed collection takes for one are one. -/
theorem Value.matches?_iff {v w : Value} (hv : v.isPlainKey = true) (hw : w.isPlainKey = true) :
    v.matches? w = true ↔ v = w := by
  have hself : ∀ v : Value, v.isPlainKey = true → v.matches? v = true := by
    rintro (_ | b | n | s | m | j) hplain
    case number =>
      cases n with
      | integer i => simp [matches?, same, Number.same]
      | float x => cases hplain
    case nested => cases hplain
    all_goals simp [matches?, same]
  constructor
  · intro h
    have hsame : v.same w = true := (Bool.and_eq_true_iff.mp h).2
    cases v <;> cases w <;> simp only [same, Bool.false_eq_true] at hsame
    case null => rfl
    case number a b =>
      cases a <;> cases b <;> simp_all [isPlainKey, Number.same]
    case nested => cases hv
    all_goals rw [beq_iff_eq.mp hsame]
  · rintro rfl
    exact hself v hv

namespace LoadedTable

/-! ## Columns -/

section Columns

variable {name : String} {entries : List (String × Value)}

/-- The values that are stored under a key, in order. -/
def valuesUnder (key : String) (entries : List (String × Value)) : List Value :=
  (entries.filter (·.1 == key)).map (·.2)

/-- The type that the first value under a key gives to its column, null values aside. -/
def firstType (key : String) (entries : List (String × Value)) : Option ColumnType :=
  ((valuesUnder key entries).find? fun v => !v.isNull).bind typeOf

theorem typeOf_eq_none_iff (v : Value) : typeOf v = none ↔ v.isNull = true := by
  cases v <;> simp [typeOf, Value.isNull]

/-- One more entry types its column if no entry before it did. -/
theorem firstType_append (key : String) (entries : List (String × Value)) (entry : String × Value) :
    firstType key (entries ++ [entry]) =
      if (key == entry.1 && (firstType key entries).isNone) = true then typeOf entry.2
      else firstType key entries := by
  have hearlier : (firstType key entries).isNone =
      ((valuesUnder key entries).find? fun v => !v.isNull).isNone := by
    unfold firstType
    cases hfind : (valuesUnder key entries).find? fun v => !v.isNull with
    | none => rfl
    | some v =>
      have hnull := List.find?_some hfind
      have htype : typeOf v ≠ none := fun h => by simp [(typeOf_eq_none_iff v).mp h] at hnull
      exact Option.isNone_eq_false_iff.mpr (Option.isSome_iff_ne_none.mpr htype)
  have hvalues : valuesUnder key (entries ++ [entry]) =
      valuesUnder key entries ++ if key == entry.1 then [entry.2] else [] := by
    unfold valuesUnder
    rw [List.filter_append, List.map_append, List.filter_singleton, Bool.beq_comm]
    cases key == entry.1 <;> rfl
  rw [hearlier]
  unfold firstType
  rw [hvalues, List.find?_append]
  cases hfind : (valuesUnder key entries).find? fun v => !v.isNull with
  | some v => simp
  | none =>
    cases hkey : key == entry.1 with
    | false => simp
    | true =>
      cases hnull : entry.2.isNull with
      | true => simp [hnull, (typeOf_eq_none_iff _).mpr hnull]
      | false => simp [hnull]

/-- **The columns are the keys in the order in which they are first seen.** -/
theorem names_foldl_addEntry :
    (entries.foldl (addEntry name) []).map (·.name) = (entries.map (·.1)).eraseDups := by
  induction entries using List.reverseRecOn with
  | nil => rfl
  | append_singleton entries entry ih =>
    have hany : (entries.foldl (addEntry name) []).any (·.name == entry.1) =
        decide (entry.1 ∈ entries.map (·.1)) := by
      rw [Bool.eq_iff_iff, decide_eq_true_iff, ← List.mem_eraseDups, ← ih]
      simp only [List.any_eq_true, beq_iff_eq, List.mem_map]
    rw [List.foldl_append, List.foldl_cons, List.foldl_nil, names_addEntry, ih, hany, List.map_append,
      List.eraseDups_append]
    by_cases hmem : entry.1 ∈ entries.map (·.1)
    · simp [List.removeAll, hmem]
    · simp [List.removeAll, hmem, List.eraseDups_cons]

/-- **Each column has the type of the first value under its key**, and is no key of the table yet. -/
theorem typed_foldl_addEntry : ∀ c ∈ entries.foldl (addEntry name) [],
    c.type = firstType c.name entries ∧ c.primaryKey = false := by
  induction entries using List.reverseRecOn with
  | nil => exact List.forall_mem_nil _
  | append_singleton entries entry ih =>
    rw [List.foldl_append, List.foldl_cons, List.foldl_nil]
    intro c hc
    unfold addEntry at hc
    split at hc
    next =>
      obtain ⟨d, hd, rfl⟩ := List.mem_map.mp hc
      obtain ⟨htype, hkey⟩ := ih d hd
      split
      next hfirst =>
        refine ⟨?_, hkey⟩
        rw [htype] at hfirst
        exact ((firstType_append d.name entries entry).trans (if_pos hfirst)).symm
      next hlater =>
        refine ⟨?_, hkey⟩
        rw [htype] at hlater
        rw [htype, firstType_append, if_neg hlater]
    next hnew =>
      rcases List.mem_append.mp hc with hold | hadded
      · obtain ⟨htype, hkey⟩ := ih c hold
        have hname : (c.name == entry.1) = false := by
          rw [Bool.eq_false_iff]
          exact fun heq => hnew (List.any_eq_true.mpr ⟨c, hold, heq⟩)
        refine ⟨?_, hkey⟩
        rw [htype, firstType_append, hname]
        rfl
      · rw [List.mem_singleton.mp hadded]
        -- No entry before has the key, so there is no value under it.
        have hnone : valuesUnder entry.1 entries = [] := by
          have hkeys : entry.1 ∉ entries.map (·.1) := by
            intro hmem
            have hnames : entry.1 ∈ (entries.foldl (addEntry name) []).map (·.name) := by
              rwa [names_foldl_addEntry, List.mem_eraseDups]
            obtain ⟨c, hc, hname⟩ := List.mem_map.mp hnames
            exact hnew (List.any_eq_true.mpr ⟨c, hc, beq_iff_eq.mpr hname⟩)
          unfold valuesUnder
          rw [List.map_eq_nil_iff, List.filter_eq_nil_iff]
          exact fun e he heq => hkeys (List.mem_map.mpr ⟨e, he, beq_iff_eq.mp heq⟩)
        refine ⟨?_, rfl⟩
        rw [firstType_append]
        simp [firstType, hnone]

end Columns

/-! ## Rows -/

/-- The last value that a document has under a key, or null. -/
def lastValue (document : Document) (key : String) : Value :=
  ((valuesUnder key document).getLast?).getD .null

theorem valueOf_eq_lastValue (document : Document) (key : String) :
    valueOf document key = lastValue document key := by
  have hlookup (l : Document) : l.lookup key = (l.find? (·.1 == key)).map (·.2) := by
    induction l with
    | nil => rfl
    | cons entry rest ih =>
      rw [List.find?_cons, List.lookup_cons, Bool.beq_comm]
      cases entry.1 == key with
      | true => rfl
      | false => exact ih
  unfold valueOf lastValue valuesUnder
  rw [hlookup, List.getLast?_map, List.getLast?_filter]

/-! ## Keys -/

/-- The name of the key column among the names of columns: the one that is configured, or else the first
of the usual ones. -/
def keyName? (names : List String) (configured : Option String) : Option String :=
  match configured with
  | some name => if name ∈ names then some name else none
  | none => if "_key" ∈ names then some "_key" else if "id" ∈ names then some "id" else none

theorem map_findIdx?_name (columns : List Column) (name : String) :
    (columns.findIdx? fun c => c.name == name).bind (fun place => (columns[place]?).map (·.name)) =
      if name ∈ columns.map (·.name) then some name else none := by
  cases hfind : columns.findIdx? fun c => c.name == name with
  | none =>
    rw [List.findIdx?_eq_none_iff] at hfind
    have hmem : name ∉ columns.map (·.name) := by
      intro hmem
      obtain ⟨c, hc, hname⟩ := List.mem_map.mp hmem
      simpa [hname] using hfind c hc
    rw [if_neg hmem]
    rfl
  | some place =>
    obtain ⟨hlt, hname, -⟩ := List.findIdx?_eq_some_iff_getElem.mp hfind
    have hmem : name ∈ columns.map (·.name) :=
      List.mem_map.mpr ⟨_, List.getElem_mem hlt, beq_iff_eq.mp hname⟩
    rw [if_pos hmem, Option.bind_some, List.getElem?_eq_getElem hlt, Option.map_some,
      beq_iff_eq.mp hname]

/-- The place of the key column is that of the column with the name of the key. -/
theorem map_keyColumnOf? (columns : List Column) (configured : Option String) :
    (keyColumnOf? columns configured).bind (fun place => (columns[place]?).map (·.name)) =
      keyName? (columns.map (·.name)) configured := by
  cases configured with
  | some name => exact map_findIdx?_name columns name
  | none =>
    have hfirst := map_findIdx?_name columns "_key"
    have hsecond := map_findIdx?_name columns "id"
    unfold keyName? keyColumnOf? defaultKeys
    simp only [List.findSome?_cons, List.findSome?_nil]
    cases hplace : columns.findIdx? fun c => c.name == "_key" with
    | none =>
      rw [hplace, Option.bind_none] at hfirst
      have hmem : "_key" ∉ columns.map (·.name) := by
        intro hmem
        rw [if_pos hmem] at hfirst
        cases hfirst
      rw [if_neg hmem, ← hsecond]
      cases columns.findIdx? fun c => c.name == "id" <;> rfl
    | some place =>
      obtain ⟨hlt, -⟩ := List.findIdx?_eq_some_iff_getElem.mp hplace
      rw [hplace, Option.bind_some, List.getElem?_eq_getElem hlt, Option.map_some] at hfirst
      have hmem : "_key" ∈ columns.map (·.name) := by
        by_contra hmem
        rw [if_neg hmem] at hfirst
        cases hfirst
      rw [if_pos hmem] at hfirst ⊢
      rw [Option.bind_some, List.getElem?_eq_getElem hlt]
      exact hfirst

/-- Of columns that are no keys, the one that is marked is the only key. -/
theorem primaryKeys_modify {columns : List Column} (h : ∀ c ∈ columns, c.primaryKey = false)
    {place : Nat} {c : Column} (hc : columns[place]? = some c) :
    (columns.modify place fun c => { c with primaryKey := true }).filter (·.primaryKey) =
      [{ c with primaryKey := true }] := by
  obtain ⟨hlt, rfl⟩ := List.getElem?_eq_some_iff.mp hc
  have hnone {l : List Column} (hl : l ⊆ columns) : l.filter (·.primaryKey) = [] :=
    List.filter_eq_nil_iff.mpr fun c hc => by simp [h c (hl hc)]
  rw [List.modify_eq_take_cons_drop hlt, List.filter_append, hnone (List.take_subset _ _),
    List.filter_cons_of_pos rfl, hnone (List.drop_subset _ _)]
  rfl

/-! ## The index -/

/-- The cells of a column, row by row. -/
def cellsOf (rows : List (List Value)) (column : Nat) : List Value :=
  rows.map fun row => (row[column]?).getD .null

/-- A value stands at a place, and at none before it. -/
def IsFirstAt (cells : List Value) (v : Value) (place : Nat) : Prop :=
  cells[place]? = some v ∧ ∀ earlier < place, cells[earlier]? ≠ some v

section Index

variable {cells : List Value} {index : List (Value × Nat)} {key : Value} {place : Nat}

/-- An index of plain keys finds the place of a key that is in it, and none for another plain key. -/
theorem placeOf?_eq_some_iff (hkeys : ∀ e ∈ index, e.1.isPlainKey = true)
    (honce : ∀ e ∈ index, ∀ e' ∈ index, e.1 = e'.1 → e = e') (hkey : key.isPlainKey = true) :
    placeOf? index key = some place ↔ (key, place) ∈ index := by
  have hmatch (e : Value × Nat) (he : e ∈ index) : e.1.matches? key = true ↔ e.1 = key :=
    Value.matches?_iff (hkeys e he) hkey
  unfold placeOf?
  constructor
  · intro hfound
    obtain ⟨e, he, rfl⟩ := Option.map_eq_some_iff.mp hfound
    have hmem := List.mem_of_find?_eq_some he
    have heq := (hmatch e hmem).mp (List.find?_eq_some_iff_append.mp he).1
    exact heq ▸ hmem
  · intro hmem
    have hsome : (index.find? fun e => e.1.matches? key).isSome = true :=
      List.find?_isSome.mpr ⟨_, hmem, (hmatch _ hmem).mpr rfl⟩
    obtain ⟨e, he⟩ := Option.isSome_iff_exists.mp hsome
    have he' := List.mem_of_find?_eq_some he
    have heq := (hmatch e he').mp (List.find?_eq_some_iff_append.mp he).1
    rw [he, honce e he' _ hmem heq]
    rfl

theorem exists_isFirstAt_iff : (∃ place, IsFirstAt cells key place) ↔ key ∈ cells := by
  classical
  constructor
  · rintro ⟨place, hplace, -⟩
    exact List.mem_of_getElem? hplace
  · intro hmem
    have hplaces : ∃ place, cells[place]? = some key := List.getElem?_of_mem hmem
    exact ⟨Nat.find hplaces, Nat.find_spec hplaces, fun earlier hlt => Nat.find_min hplaces hlt⟩

/-- One more cell is the first with its value, or leaves the first places as they are. -/
theorem isFirstAt_append_iff {v : Value} : IsFirstAt (cells ++ [v]) key place ↔
    IsFirstAt cells key place ∨ place = cells.length ∧ key = v ∧ v ∉ cells := by
  rcases Nat.lt_or_ge place cells.length with hlt | hge
  · have hbefore : IsFirstAt (cells ++ [v]) key place ↔ IsFirstAt cells key place := by
      unfold IsFirstAt
      rw [List.getElem?_append_left hlt]
      refine and_congr_right fun _ => forall_congr' fun earlier => imp_congr_right fun hearlier => ?_
      rw [List.getElem?_append_left (Nat.lt_trans hearlier hlt)]
    rw [hbefore]
    exact ⟨Or.inl, fun hor => hor.resolve_right fun hplace => absurd hplace.1 (Nat.ne_of_lt hlt)⟩
  · constructor
    · rintro ⟨hplace, hfirst⟩
      obtain ⟨hlt, heq⟩ := List.getElem?_eq_some_iff.mp hplace
      obtain rfl : place = cells.length := by
        simp only [List.length_append, List.length_singleton] at hlt
        omega
      obtain rfl : v = key := by simpa using heq
      refine Or.inr ⟨rfl, rfl, fun hmem => ?_⟩
      obtain ⟨earlier, hearlier⟩ := List.getElem?_of_mem hmem
      obtain ⟨hlt', -⟩ := List.getElem?_eq_some_iff.mp hearlier
      exact hfirst earlier hlt' (by rw [List.getElem?_append_left hlt', hearlier])
    · rintro (⟨hplace, -⟩ | ⟨rfl, rfl, hmem⟩)
      · rw [List.getElem?_eq_none hge] at hplace
        cases hplace
      · refine ⟨by simp, fun earlier hlt heq => hmem ?_⟩
        rw [List.getElem?_append_left hlt] at heq
        exact List.mem_of_getElem? heq

/-- An index leads from each value among some cells to its first place, null apart. -/
structure Indexes (cells : List Value) (index : List (Value × Nat)) : Prop where
  mem_iff : ∀ key place, (key, place) ∈ index ↔ key.isNull = false ∧ IsFirstAt cells key place
  nodup : (index.map (·.1)).Nodup

theorem Indexes.mem_cells (h : Indexes cells index) {e : Value × Nat} (he : e ∈ index) :
    e.1 ∈ cells := exists_isFirstAt_iff.mp ⟨e.2, ((h.mem_iff e.1 e.2).mp he).2⟩

theorem Indexes.once (h : Indexes cells index) :
    ∀ e ∈ index, ∀ e' ∈ index, e.1 = e'.1 → e = e' :=
  fun _ he _ he' heq => List.inj_on_of_nodup_map h.nodup he he' heq

/-- An index of plain keys is asked for a plain key. -/
theorem Indexes.placeOf?_eq_some_iff (h : Indexes cells index)
    (hcells : ∀ v ∈ cells, v.isPlainKey = true) (hkey : key.isPlainKey = true) :
    placeOf? index key = some place ↔ key.isNull = false ∧ IsFirstAt cells key place := by
  rw [LoadedTable.placeOf?_eq_some_iff (fun e he => hcells _ (h.mem_cells he)) h.once hkey,
    h.mem_iff]

/-- **One more cell** is indexed if it is a key that no cell before it is. -/
theorem Indexes.addKey (h : Indexes cells index) (hcells : ∀ v ∈ cells, v.isPlainKey = true) {v : Value}
    (hv : v.isPlainKey = true) : Indexes (cells ++ [v]) (addKey index (v, cells.length)) := by
  have hfound : (placeOf? index v).isSome = true ↔ v.isNull = false ∧ v ∈ cells := by
    rw [Option.isSome_iff_exists, ← exists_isFirstAt_iff, ← exists_and_left]
    simp only [h.placeOf?_eq_some_iff hcells hv]
  unfold LoadedTable.addKey
  split
  next hskip =>
    refine ⟨fun key place => ?_, h.nodup⟩
    rw [isFirstAt_append_iff, h.mem_iff]
    refine and_congr_right fun hkey => ⟨Or.inl, fun hor => hor.resolve_right ?_⟩
    rintro ⟨-, rfl, hmem⟩
    rw [hkey, Bool.false_or, hfound] at hskip
    exact hmem hskip.2
  next hadd =>
    simp only [Bool.or_eq_true, hfound, not_or, not_and, Bool.not_eq_true] at hadd
    obtain ⟨hnull, hnew⟩ := hadd
    have hmem := hnew hnull
    refine ⟨fun key place => ?_, ?_⟩
    · rw [isFirstAt_append_iff, List.mem_append, List.mem_singleton, h.mem_iff, and_or_left,
        Prod.mk.injEq]
      refine or_congr_right ⟨?_, ?_⟩
      · rintro ⟨rfl, rfl⟩
        exact ⟨hnull, rfl, rfl, hmem⟩
      · rintro ⟨-, rfl, rfl, -⟩
        exact ⟨rfl, rfl⟩
    · rw [List.map_append, List.nodup_append]
      refine ⟨h.nodup, by simp, fun a ha b hb heq => hmem ?_⟩
      obtain ⟨e, he, rfl⟩ := List.mem_map.mp ha
      rw [List.map_singleton, List.mem_singleton] at hb
      exact (heq.trans hb : e.1 = v) ▸ h.mem_cells he

/-- **The index of a column** leads from each key to its first row. -/
theorem indexes_indexOf {rows : List (List Value)} {column : Nat}
    (h : ∀ v ∈ cellsOf rows column, v.isPlainKey = true) :
    Indexes (cellsOf rows column) (indexOf rows column) := by
  have hall (cells : List Value) (h : ∀ v ∈ cells, v.isPlainKey = true) :
      Indexes cells (cells.zipIdx.foldl LoadedTable.addKey []) := by
    induction cells using List.reverseRecOn with
    | nil => exact ⟨fun key place => by simp [IsFirstAt], List.nodup_nil⟩
    | append_singleton cells v ih =>
      rw [List.forall_mem_append, List.forall_mem_singleton] at h
      rw [List.zipIdx_append, List.foldl_append]
      simpa using (ih h.1).addKey h.1 h.2
  have heq : indexOf rows column = (cellsOf rows column).zipIdx.foldl LoadedTable.addKey [] := by
    unfold indexOf cellsOf
    rw [List.zipIdx_map]
    rfl
  rw [heq]
  exact hall _ h

end Index

/-! ## Tables -/

section Tables

variable {name : String} {documents : List Document} {primaryKey : Option String}

/-- **The columns of a table** are those of its documents, but for the mark of the key. -/
theorem map_columns_ofDocuments {α : Type} (f : Column → α)
    (hf : ∀ c, f { c with primaryKey := true } = f c) :
    (ofDocuments name documents primaryKey).table.columns.map f =
      (columnsOf name documents).map f := by
  unfold ofDocuments
  dsimp only
  split
  · exact map_modify_primaryKey f hf _ _
  · rfl

theorem keyColumn_ofDocuments : (ofDocuments name documents primaryKey).keyColumn =
    keyColumnOf? (columnsOf name documents) primaryKey := by
  unfold ofDocuments
  dsimp only
  split
  · rfl
  next hnone => exact hnone.symm

theorem rows_ofDocuments : (ofDocuments name documents primaryKey).rows =
    documents.map (rowOf (columnsOf name documents)) := by
  unfold ofDocuments
  dsimp only
  split <;> rfl

/-- **The only key of a table** is its key column. -/
theorem primaryKeys_ofDocuments : (ofDocuments name documents primaryKey).table.primaryKeys.map (·.name) =
    ((keyColumnOf? (columnsOf name documents) primaryKey).bind fun place =>
      ((columnsOf name documents)[place]?).map (·.name)).toList := by
  have hnone : ∀ c ∈ columnsOf name documents, c.primaryKey = false :=
    fun c hc => (typed_foldl_addEntry c hc).2
  unfold ofDocuments Table.primaryKeys
  dsimp only
  cases hkey : keyColumnOf? (columnsOf name documents) primaryKey with
  | none =>
    show ((columnsOf name documents).filter (·.primaryKey)).map (·.name) = []
    rw [List.filter_eq_nil_iff.mpr fun c hc => by simp [hnone c hc]]
    rfl
  | some place =>
    show (((columnsOf name documents).modify place _).filter (·.primaryKey)).map (·.name) = _
    cases hplace : (columnsOf name documents)[place]? with
    | none =>
      have hle : (columnsOf name documents).length ≤ place := List.getElem?_eq_none_iff.mp hplace
      rw [List.modify_eq_self hle, List.filter_eq_nil_iff.mpr fun c hc => by simp [hnone c hc]]
      simp [hplace]
    | some c =>
      rw [primaryKeys_modify hnone hplace]
      simp [hplace]

/-- **A table says of its documents** which keys they have, each once in the order in which they are
first seen, with the type of the first value under it; for each document the last value that it has for
each key; which of the keys is the primary key; and, as long as the cells under that are plain keys, the
first row of each of them and of nothing else. -/
theorem describes_ofDocuments (name : String) (documents : List Document)
    (primaryKey : Option String) :
    let t := ofDocuments name documents primaryKey
    let names := (documents.flatten.map (·.1)).eraseDups
    t.table.columns.map (·.name) = names ∧ names.Nodup ∧
    (∀ c ∈ t.table.columns, c.type = firstType c.name documents.flatten) ∧
    t.rows = documents.map (fun document => names.map (lastValue document)) ∧
    t.table.primaryKeys.map (·.name) = (keyName? names primaryKey).toList ∧
    (t.keyColumn.bind fun place => (t.table.columns[place]?).map (·.name)) =
      keyName? names primaryKey ∧
    (t.keyColumn = none → t.keyIndex = []) ∧
    ∀ column, t.keyColumn = some column → (∀ v ∈ cellsOf t.rows column, v.isPlainKey = true) →
      (t.keyIndex.map (·.1)).Nodup ∧
      (∀ key place, (key, place) ∈ t.keyIndex ↔
        key.isNull = false ∧ IsFirstAt (cellsOf t.rows column) key place) ∧
      ∀ key place, key.isPlainKey = true → (placeOf? t.keyIndex key = some place ↔
        key.isNull = false ∧ IsFirstAt (cellsOf t.rows column) key place) := by
  intro t names
  have hnames : (columnsOf name documents).map (·.name) = names := names_foldl_addEntry
  have hcolumns : t.table.columns.map (·.name) = names :=
    (map_columns_ofDocuments (·.name) fun _ => rfl).trans hnames
  have hkeyName := map_keyColumnOf? (columnsOf name documents) primaryKey
  rw [hnames] at hkeyName
  refine ⟨hcolumns, ?_, fun c hc => ?_, ?_, ?_, ?_, fun hnone => ?_, fun column hcolumn hplain => ?_⟩
  · rw [← hcolumns]
    exact (isBuilt_ofDocuments name documents primaryKey).wellBuilt.names
  · -- A column has the name and the type of one before the key was marked.
    have hboth : (c.name, c.type) ∈ (columnsOf name documents).map fun c => (c.name, c.type) := by
      rw [← map_columns_ofDocuments (fun c => (c.name, c.type)) fun _ => rfl]
      exact List.mem_map_of_mem hc
    obtain ⟨d, hd, heq⟩ := List.mem_map.mp hboth
    obtain ⟨hname, htype⟩ := Prod.mk.inj heq
    rw [← hname, ← htype]
    exact (typed_foldl_addEntry d hd).1
  · show (ofDocuments name documents primaryKey).rows = _
    rw [rows_ofDocuments, ← hnames]
    refine List.map_congr_left fun document _ => ?_
    unfold rowOf
    rw [List.map_map]
    exact List.map_congr_left fun c _ => valueOf_eq_lastValue document c.name
  · show (ofDocuments name documents primaryKey).table.primaryKeys.map (·.name) = _
    rw [primaryKeys_ofDocuments, hkeyName]
  · have hplace (place : Nat) : (t.table.columns[place]?).map (·.name) =
        ((columnsOf name documents)[place]?).map (·.name) := by
      rw [← List.getElem?_map, ← List.getElem?_map, hcolumns, hnames]
    simp only [hplace]
    rw [← hkeyName, show t.keyColumn = _ from keyColumn_ofDocuments]
  · have hkey : keyColumnOf? (columnsOf name documents) primaryKey = none :=
      keyColumn_ofDocuments.symm.trans hnone
    show (ofDocuments name documents primaryKey).keyIndex = []
    simp only [ofDocuments, hkey]
  · have hkey : keyColumnOf? (columnsOf name documents) primaryKey = some column :=
      keyColumn_ofDocuments.symm.trans hcolumn
    have hindex : t.keyIndex = indexOf t.rows column := by
      show (ofDocuments name documents primaryKey).keyIndex = _
      rw [show t.rows = _ from rows_ofDocuments]
      simp only [ofDocuments, hkey]
    have hindexes := indexes_indexOf hplain
    rw [hindex]
    exact ⟨hindexes.nodup, hindexes.mem_iff, fun key place hkey =>
      hindexes.placeOf?_eq_some_iff hplain hkey⟩

/-- Documents with a key twice in one of them, one under a null value, and one key in two rows. -/
def repeatedEntries : List Document :=
  [[("a", .null), ("id", .integer 7), ("a", .text "x")], [("id", .integer 7), ("b", .boolean true)],
    [("id", .null), ("a", .text "y")]]

/-- The usual key column is found, and leads from the key that is there to its first row. -/
theorem describes_ofDocuments_repeatedEntries :
    let t := ofDocuments "t" repeatedEntries none
    (t.keyColumn = some 1 ∧ ∀ v ∈ cellsOf t.rows 1, v.isPlainKey = true) ∧
    t.table.columns.map (·.name) = ["a", "id", "b"] ∧
    (∀ c ∈ t.table.columns, c.type = firstType c.name repeatedEntries.flatten) ∧
    placeOf? t.keyIndex (.integer 7) = some 0 := by
  have hkey : (ofDocuments "t" repeatedEntries none).keyColumn = some 1 := by decide
  have hplain : ∀ v ∈ cellsOf (ofDocuments "t" repeatedEntries none).rows 1, v.isPlainKey = true := by
    decide
  obtain ⟨hnames, -, htypes, -, -, -, -, hindex⟩ := describes_ofDocuments "t" repeatedEntries none
  have hfirst := (hindex 1 hkey hplain).2.2 (.integer 7) 0 rfl
  refine ⟨⟨hkey, hplain⟩, ?_, htypes, hfirst.mpr ⟨rfl, rfl, fun earlier hlt => ?_⟩⟩
  · rw [hnames]
    decide
  · exact absurd hlt (Nat.not_lt_zero _)

end Tables

end LoadedTable

end DocQuery
