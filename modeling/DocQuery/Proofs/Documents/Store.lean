import DocQuery.Documents.Store
import DocQuery.Proofs.Engine.Shortcuts
import DocQuery.Proofs.Grammar.Registry
import DocQuery.Proofs.Results
import Mathlib.Data.Option.Basic

/-!
# DocQuery.Proofs.Documents.Store — stores of registered files

Whatever files are registered and read again, every table of a store is one that documents made, and
its name leads to it alone (`Store.Reached.isSound`).  So the table that a query names is the table
that the store reads, its rows are as long as its columns, and the row that its index leads to is one
of them.
-/

namespace DocQuery

/-! ## Tables of documents -/

namespace LoadedTable

theorem names_addEntry (name : String) (columns : List Column) (entry : String × Value) :
    (addEntry name columns entry).map (·.name) =
      if columns.any (·.name == entry.1) then columns.map (·.name)
      else columns.map (·.name) ++ [entry.1] := by
  unfold addEntry
  split
  · rw [List.map_map]
    refine List.map_congr_left fun c _ => ?_
    show (if (c.name == entry.1 && c.type.isNone) = true then { c with type := typeOf entry.2 }
      else c).name = c.name
    split <;> rfl
  · rw [List.map_append]
    rfl

/-- One more entry keeps the names of columns different and the columns in their table. -/
theorem wellBuilt_addEntry {name : String} {columns : List Column}
    (h : Table.WellBuilt ⟨name, columns⟩) (entry : String × Value) :
    Table.WellBuilt ⟨name, addEntry name columns entry⟩ := by
  constructor
  · show ((addEntry name columns entry).map (·.name)).Nodup
    rw [names_addEntry]
    split
    next => exact h.names
    next hnew =>
      refine List.nodup_append.mpr ⟨h.names, by simp, fun a ha b hb heq => hnew ?_⟩
      obtain ⟨c, hc, rfl⟩ := List.mem_map.mp ha
      rw [List.any_eq_true]
      exact ⟨c, hc, beq_iff_eq.mpr (heq.trans (List.mem_singleton.mp hb))⟩
  · intro c hc
    unfold addEntry at hc
    split at hc
    · obtain ⟨d, hd, rfl⟩ := List.mem_map.mp hc
      split
      · exact h.own d hd
      · exact h.own d hd
    · rcases List.mem_append.mp hc with hold | hnew
      · exact h.own c hold
      · rw [List.mem_singleton.mp hnew]

theorem wellBuilt_columnsOf (name : String) (documents : List Document) :
    Table.WellBuilt ⟨name, columnsOf name documents⟩ := by
  have hfold (entries : List (String × Value)) (columns : List Column)
      (h : Table.WellBuilt ⟨name, columns⟩) :
      Table.WellBuilt ⟨name, entries.foldl (addEntry name) columns⟩ := by
    induction entries generalizing columns with
    | nil => exact h
    | cons entry rest ih => exact ih _ (wellBuilt_addEntry h entry)
  exact hfold documents.flatten [] ⟨List.nodup_nil, List.forall_mem_nil _⟩

/-- Marking a key changes nothing else of the columns. -/
theorem map_modify_primaryKey {α : Type} (f : Column → α) (hf : ∀ c, f { c with primaryKey := true } = f c)
    (columns : List Column) (place : Nat) :
    (columns.modify place fun c => { c with primaryKey := true }).map f = columns.map f := by
  refine List.ext_getElem (by simp) fun n hn hn' => ?_
  rw [List.getElem_map, List.getElem_map, List.getElem_modify]
  split
  · exact hf _
  · rfl

theorem wellBuilt_modify {name : String} {columns : List Column}
    (h : Table.WellBuilt ⟨name, columns⟩) (place : Nat) :
    Table.WellBuilt ⟨name, columns.modify place fun c => { c with primaryKey := true }⟩ := by
  constructor
  · have hnames := h.names
    rw [← map_modify_primaryKey Column.name (fun _ => rfl) columns place] at hnames
    exact hnames
  · intro c hc
    have htable := List.mem_map_of_mem (f := Column.table) hc
    rw [map_modify_primaryKey Column.table fun _ => rfl] at htable
    obtain ⟨d, hd, heq⟩ := List.mem_map.mp htable
    rw [← heq]
    exact h.own d hd

/-- A table that is built well and has a cell for each column in every row. -/
structure IsBuilt (t : LoadedTable) : Prop where
  wellBuilt : t.table.WellBuilt
  widths : ∀ row ∈ t.rows, row.length = t.table.columns.length

/-- **Documents make tables that are built well.** -/
theorem isBuilt_ofDocuments (name : String) (documents : List Document)
    (primaryKey : Option String) : (ofDocuments name documents primaryKey).IsBuilt := by
  have hbuilt := wellBuilt_columnsOf name documents
  have hwidths : ∀ row ∈ documents.map (rowOf (columnsOf name documents)),
      row.length = (columnsOf name documents).length := by
    intro row hrow
    obtain ⟨document, -, rfl⟩ := List.mem_map.mp hrow
    exact List.length_map _
  unfold ofDocuments
  dsimp only
  split
  next place _ =>
    refine ⟨wellBuilt_modify hbuilt place, fun row hrow => ?_⟩
    rw [hwidths row hrow]
    exact (List.length_modify ..).symm
  next => exact ⟨hbuilt, hwidths⟩

theorem name_ofDocuments (name : String) (documents : List Document) (primaryKey : Option String) :
    (ofDocuments name documents primaryKey).table.name = name := by
  unfold ofDocuments
  dsimp only
  split <;> rfl

/-- What the index leads to is a row of the table. -/
theorem mem_of_find? {t : LoadedTable} {c : Column} {key : Value} {row : List Value}
    (h : t.find? c key = some row) : row ∈ t.rows := by
  unfold find? at h
  split at h
  · split at h
    · obtain ⟨place, -, hrow⟩ := Option.bind_eq_some_iff.mp h
      exact List.mem_of_getElem? hrow
    · cases h
  · cases h

end LoadedTable

namespace Store

/-! ## Sound stores -/

/-- The store of some files that were registered, and perhaps read again, one after the other. -/
inductive Reached : Store → Prop
  | empty : Reached {}
  | register {s s' : Store} {files : Files} {source : TableSource} (h : Reached s)
      (hs : s.register files source = .ok s') : Reached s'
  | refresh {s : Store} (files : Files) (h : Reached s) : Reached (s.refresh files).1

/-- The store of one table, read from the text of a JSON file; empty if it is not the text of one. -/
def ofText (name text : String) : Store :=
  match register (fun _ => .content text.toUTF8) {} { name := name, path := "documents.json" } with
  | .ok s => s
  | .error _ => {}

theorem reached_ofText (name text : String) : (ofText name text).Reached := by
  unfold ofText
  split
  next s h => exact .register .empty h
  next => exact .empty

/-- Two documents that differ in their keys alone. -/
def letters : Store :=
  ofText "letters" "[\x7b\"id\":1,\"name\":\"a\"\x7d,\x7b\"id\":2,\"name\":\"a\"\x7d]"

/-- Tables that documents made, each under its own name and no other. -/
structure AreSound (tables : List (String × LoadedTable)) : Prop where
  names : (tables.map (·.1)).Nodup
  built : ∀ e ∈ tables, e.2.IsBuilt ∧ e.2.table.name = e.1

theorem names_put (tables : List (String × LoadedTable)) (name : String) (t : LoadedTable) :
    (put tables name t).map (·.1) =
      if tables.any (·.1 == name) then tables.map (·.1) else tables.map (·.1) ++ [name] := by
  unfold put
  split
  · rw [List.map_map]
    refine List.map_congr_left fun e _ => ?_
    show (if (e.1 == name) = true then (name, t) else e).1 = e.1
    split
    next heq => exact (beq_iff_eq.mp heq).symm
    next => rfl
  · rw [List.map_append]
    rfl

theorem AreSound.put {tables : List (String × LoadedTable)} (h : AreSound tables) {name : String}
    {t : LoadedTable} (ht : t.IsBuilt) (hname : t.table.name = name) :
    AreSound (put tables name t) := by
  constructor
  · rw [names_put]
    split
    next => exact h.names
    next hnew =>
      refine List.nodup_append.mpr ⟨h.names, by simp, fun a ha b hb heq => hnew ?_⟩
      obtain ⟨e, he, rfl⟩ := List.mem_map.mp ha
      rw [List.any_eq_true]
      exact ⟨e, he, beq_iff_eq.mpr (heq.trans (List.mem_singleton.mp hb))⟩
  · intro e he
    unfold Store.put at he
    split at he
    · obtain ⟨old, hold, rfl⟩ := List.mem_map.mp he
      split
      · exact ⟨ht, hname⟩
      · exact h.built old hold
    · rcases List.mem_append.mp he with hold | hnew
      · exact h.built e hold
      · rw [List.mem_singleton.mp hnew]
        exact ⟨ht, hname⟩

theorem isBuilt_of_load {files : Files} {source : TableSource} {t : LoadedTable}
    (h : source.load files = .ok t) : t.IsBuilt ∧ t.table.name = source.name := by
  have hdocuments : ∃ documents, t = .ofDocuments source.name documents source.primaryKey := by
    unfold TableSource.load at h
    dsimp only at h
    split at h
    all_goals
      obtain ⟨format, -, h⟩ := exists_of_bind_eq_ok h
      obtain ⟨documents, -, h⟩ := exists_of_bind_eq_ok h
      cases h
      exact ⟨documents, rfl⟩
  obtain ⟨documents, rfl⟩ := hdocuments
  exact ⟨LoadedTable.isBuilt_ofDocuments _ _ _, LoadedTable.name_ofDocuments _ _ _⟩

theorem AreSound.reload {files : Files} {sources : List TableSource}
    {tables : List (String × LoadedTable)} (h : AreSound tables) :
    AreSound (reload files tables sources).1 := by
  induction sources generalizing tables with
  | nil => exact h
  | cons source rest ih =>
    unfold Store.reload
    split
    next => exact h
    next t ht =>
      obtain ⟨hbuilt, hname⟩ := isBuilt_of_load ht
      exact ih (h.put hbuilt hname)

/-- **Every store that is reached has sound tables.** -/
theorem Reached.areSound {s : Store} (h : s.Reached) : AreSound s.tables := by
  induction h with
  | empty => exact ⟨List.nodup_nil, List.forall_mem_nil _⟩
  | @register s s' files source _ hs ih =>
    unfold Store.register at hs
    dsimp only at hs
    split at hs
    · cases hs
    obtain ⟨t, ht, hs⟩ := exists_of_bind_eq_ok hs
    cases hs
    obtain ⟨hbuilt, hname⟩ := isBuilt_of_load ht
    exact ih.put hbuilt hname
  | refresh files _ ih => exact ih.reload

/-! ## Tables that queries name -/

theorem AreSound.lookup {tables : List (String × LoadedTable)} (h : AreSound tables)
    {name : String} {t : LoadedTable} (hmem : (name, t) ∈ tables) :
    tables.lookup name = some t := by
  obtain ⟨before, after, rfl⟩ := List.append_of_mem hmem
  refine List.lookup_eq_some_iff.mpr ⟨before, after, rfl, fun e he => ?_⟩
  have hnames := h.names
  rw [List.map_append, List.nodup_append] at hnames
  rw [bne_iff_ne]
  exact fun heq => hnames.2.2 _ (List.mem_map_of_mem he) _ List.mem_cons_self heq.symm

section Sound

variable {s : Store} (hs : AreSound s.tables)

include hs

/-- **The table that a name means is the one that is read under it.** -/
theorem exists_loaded {name : String} {t : Table} (ht : s.source.table? name = some t) :
    ∃ loaded, s.loaded t = .ok loaded ∧ loaded.table = t ∧ loaded.IsBuilt := by
  obtain ⟨loaded, hfind, rfl⟩ := Option.map_eq_some_iff.mp ht
  have hmem : ∃ key, (key, loaded) ∈ s.tables := by
    unfold Store.find? at hfind
    rcases (Option.orElse_eq_some _ _ _).mp hfind with hlookup | ⟨-, hother⟩
    · obtain ⟨before, after, heq, -⟩ := List.lookup_eq_some_iff.mp hlookup
      exact ⟨name, heq ▸ List.mem_append_right _ List.mem_cons_self⟩
    · obtain ⟨e, he, rfl⟩ := Option.map_eq_some_iff.mp hother
      exact ⟨e.1, List.mem_of_find?_eq_some he⟩
  obtain ⟨key, hkey⟩ := hmem
  obtain ⟨hbuilt, hname⟩ := hs.built _ hkey
  refine ⟨loaded, ?_, rfl, hbuilt⟩
  unfold Store.loaded
  rw [show loaded.table.name = key from hname, hs.lookup hkey]

/-- So is the table of a query that was read over one. -/
theorem exists_loaded_of_isRead {expressions : Bool} {r : Registry} {q : Query} {t : Table}
    {aliasName : Option String} (hread : Grammar.IsRead (s.source.catalog expressions) r q)
    (hsources : q.sources = [.table t aliasName]) :
    ∃ loaded, s.loaded t = .ok loaded ∧ loaded.table = t ∧ loaded.IsBuilt := by
  obtain ⟨name, hname⟩ := hread.tables (.table t aliasName) (by simp [hsources])
    (.table t aliasName) List.mem_cons_self t rfl
  exact exists_loaded hs hname

end Sound

/-! ## Rows that are read -/

/-- What a store answers does not depend on what it was asked before. -/
theorem isSteady (s : Store) : s.source.IsSteady := ⟨fun _ _ _ _ _ => rfl, fun _ _ _ _ _ => rfl,
  fun _ _ _ _ _ _ => rfl⟩

section Loaded

variable {s : Store} {t : Table} {loaded : LoadedTable}

/-- A store holds the rows of its tables. -/
theorem holds_of_loaded (h : s.loaded t = .ok loaded) (htable : loaded.table = t) :
    s.source.Holds t loaded.rows := by
  intro past columns limit
  show (s.loaded t).map (fun t => (t.select columns limit).map Except.ok) = _
  rw [h]
  subst htable
  rfl

theorem mem_tables_of_loaded (h : s.loaded t = .ok loaded) : ∃ e ∈ s.tables, e.2 = loaded := by
  unfold Store.loaded at h
  split at h
  next found hfound =>
    cases h
    obtain ⟨before, after, heq, -⟩ := List.lookup_eq_some_iff.mp hfound
    exact ⟨(t.name, loaded), heq ▸ List.mem_append_right _ List.mem_cons_self, rfl⟩
  next => cases h

end Loaded

end Store

end DocQuery
