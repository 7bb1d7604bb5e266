import DocQuery.Engine.Execution
import DocQuery.Engine.Memory
import DocQuery.Proofs.Rows.Selection
import Mathlib.Data.List.Nodup

/-!
# DocQuery.Proofs.Engine.TableRead — reading a table held in memory

A stored row gives every column of its table a value: the cell at the place of the column, or null
where the row is too short.  Reading some columns of the table gives a data set that presents these
valuations (`RowSource.gives_materializeColumns`), and reading it with filters, a window and a select
list shapes them (`RowSource.gives_materializeTable`).
-/

namespace DocQuery

open Plan

/-! ## Cells -/

/-- The value of a column in a stored row of its table; null where the row has no cell for it. -/
def Table.cell (t : Table) (stored : List Value) (c : Column) : Value :=
  ((t.columns.findIdx? (· == c)).bind fun n => stored[n]?).getD .null

theorem findIdx?_congr_mem {α : Type} {l : List α} {p q : α → Bool} (h : ∀ a ∈ l, p a = q a) :
    l.findIdx? p = l.findIdx? q := by
  induction l with
  | nil => rfl
  | cons a rest ih =>
    rw [List.forall_mem_cons] at h
    rw [List.findIdx?_cons, List.findIdx?_cons, h.1, ih h.2]

/-- With distinct names, a column is found by its name. -/
theorem Table.columnIndex?_eq {t : Table} (hnames : (t.columns.map (·.name)).Nodup) {c : Column}
    (hc : c ∈ t.columns) : t.columnIndex? c = t.columns.findIdx? (· == c) := by
  refine findIdx?_congr_mem fun d hd => ?_
  rw [Bool.eq_iff_iff, beq_iff_eq, beq_iff_eq]
  exact ⟨fun h => List.inj_on_of_nodup_map hnames hd hc h, fun h => h ▸ rfl⟩

theorem MemoryTables.select_eq {t : Table} (hnames : (t.columns.map (·.name)).Nodup)
    {columns : List Column} (hcolumns : ∀ c ∈ columns, c ∈ t.columns) (rows : List (List Value))
    (limit : Option Nat) : MemoryTables.select t columns rows limit =
      (RowSet.window 1 limit rows).map fun stored => columns.map (t.cell stored) := by
  have hcells : MemoryTables.cells (columns.map t.columnIndex?) =
      fun stored => columns.map (t.cell stored) := by
    funext stored
    unfold MemoryTables.cells
    rw [List.map_map]
    refine List.map_congr_left fun c hc => ?_
    show ((t.columnIndex? c).bind fun n => stored[n]?).getD .null = _
    rw [Table.columnIndex?_eq hnames (hcolumns c hc)]
    rfl
  unfold MemoryTables.select
  simp only [hcells]
  cases limit <;> rfl

/-! ## Items with new identities -/

theorem gives_makeItems (columns : List Column) (scope : Option String) (l : Ledger) :
    (makeItems (columns.map fun c id => Item.ofColumn id c scope)).Gives l fun items l' =>
      Header.IsOfColumns scope l.nextItem items columns ∧ (∀ i ∈ items, i.id < l'.nextItem) ∧
        l.nextItem ≤ l'.nextItem := by
  induction columns generalizing l with
  | nil => exact gives_pure ⟨.nil, List.forall_mem_nil _, Nat.le_refl _⟩
  | cons c rest ih =>
    unfold makeItems at ih ⊢
    rw [List.map_cons, List.mapM_cons]
    -- The first item takes the next identity, so those of the rest begin one later.
    refine gives_bind (gives_bind (gives_drawItem (gives_pure (gives_bind ?_))))
    refine (ih _).mono ?_
    rintro items l' ⟨hitems, hlt, hle⟩
    refine gives_pure ⟨?_, ?_, ?_⟩
    · refine .cons ⟨rfl, Nat.le_refl _⟩ (hitems.imp fun h c hc => ⟨hc.1, ?_⟩)
      exact Nat.le_trans (Nat.le_succ _) hc.2
    · exact List.forall_mem_cons.mpr ⟨hle, hlt⟩
    · exact Nat.le_trans (Nat.le_succ _) hle

namespace RowSource

open RowSet (ReadsWithin window)

/-! ## What is read of a table -/

theorem mem_columnsOf {items : List Item} {c : Column} :
    c ∈ columnsOf items ↔ ∃ i ∈ items, i.column? = some c := by
  rw [← List.mem_filterMap]
  show c ∈ (items.filterMap Item.column?).foldl addColumn [] ↔ _
  rw [mem_foldl_addColumn]
  simp

theorem nodup_columnsOf (items : List Item) : (columnsOf items).Nodup :=
  nodup_foldl_addColumn List.nodup_nil

/-- The columns of items are enough to read them. -/
theorem readsWithin_columnsOf {columns : List Column} {first : Nat} {items part : List Item}
    (hitems : ReadsWithin columns first items) (hpart : part ⊆ items) :
    ReadsWithin (columnsOf items) first part := by
  intro i hi
  obtain ⟨hid, c, -, hreads⟩ := hitems i (hpart hi)
  exact ⟨hid, c, mem_columnsOf.mpr ⟨i, hpart hi, hreads.column?⟩, hreads⟩

theorem columnsOf_subset {columns : List Column} {first : Nat} {items : List Item}
    (hitems : ReadsWithin columns first items) : columnsOf items ⊆ columns := by
  intro c hc
  obtain ⟨i, hi, hcolumn⟩ := mem_columnsOf.mp hc
  obtain ⟨-, d, hd, hreads⟩ := hitems i hi
  rw [hreads.column?] at hcolumn
  cases hcolumn
  exact hd

/-- What a limit on the rows leaves out, the window leaves out as well. -/
theorem window_limited (filters : List Filter) (firstRow : Nat) (maxRows : Option Nat)
    (cells : List (Column → Value)) :
    let limit := if filters.isEmpty && firstRow ≤ 1 then maxRows else none
    let accepted (l : List (Column → Value)) :=
      l.filter fun g => Filter.allHold (Item.valueIn g) filters
    window firstRow maxRows (accepted (window 1 limit cells)) =
      window firstRow maxRows (accepted cells) := by
  intro limit accepted
  by_cases hlimit : (filters.isEmpty && decide (firstRow ≤ 1)) = true
  · have hlimitEq : limit = maxRows := if_pos hlimit
    rw [Bool.and_eq_true, decide_eq_true_iff] at hlimit
    have hall (l : List (Column → Value)) : accepted l = l := by
      have hfilters := List.isEmpty_iff.mp hlimit.1
      exact List.filter_eq_self.mpr fun g _ => by rw [hfilters]; rfl
    have hfirst : firstRow - 1 = 0 := by omega
    rw [hall, hall, hlimitEq]
    cases maxRows <;> simp [window, hfirst, List.take_take]
  · have hlimitEq : limit = none := if_neg hlimit
    rw [hlimitEq]
    rfl

section Memory

variable {m : MemoryTables} {t : Table} {rows : List (List Value)}
  (hstored : m.tables.find? (fun stored => stored.1.name == t.name) = some (t, rows))
  (hnames : (t.columns.map (·.name)).Nodup)

include hstored hnames

/-- **Reading columns of a table presents the valuations of its stored rows.** -/
theorem gives_materializeColumns {columns : List Column} (hcolumns : ∀ c ∈ columns, c ∈ t.columns)
    (limit : Option Nat) (l : Ledger) :
    (m.source.materializeColumns t columns limit).Gives l fun d l' =>
      l.nextItem ≤ l'.nextItem ∧
        d.Presents none l.nextItem columns ((RowSet.window 1 limit rows).map t.cell) := by
  unfold materializeColumns
  refine gives_bind (gives_modifyGet ?_)
  have hread : m.source.read l.requests t columns limit =
      .ok ((MemoryTables.select t columns rows limit).map .ok) := by
    show (m.read t columns limit).map _ = _
    unfold MemoryTables.read
    rw [hstored]
    rfl
  refine gives_bind (gives_lift hread (gives_bind ?_))
  refine (gives_makeItems columns none _).mono ?_
  rintro header l' ⟨hheader, -, hle⟩
  refine gives_modifyGet ⟨hle, hheader, ?_⟩
  show (Stream.ofOutcomes _).outcomes = _
  rw [Stream.outcomes_ofOutcomes, MemoryTables.select_eq hnames hcolumns, List.map_map,
    List.map_map, List.map_map, List.map_map]
  rfl

/-- **Reading a table with filters and a window** selects from the valuations of the rows that the
filters accept, those in the window. -/
theorem gives_materializeTable {items : List Item} {filters : List Filter} {firstRow : Nat}
    {maxRows : Option Nat} {l : Ledger} {post : RowSet → Ledger → Prop}
    (hitems : ReadsWithin t.columns l.nextItem (items ++ Filter.itemsOf filters))
    (hbound : Filter.parameterCountOf filters = 0)
    (hselection : ∀ (d : RowSet) (l' : Ledger), l.nextItem ≤ l'.nextItem →
      d.Presents none l.nextItem (columnsOf (items ++ Filter.itemsOf filters))
        (window firstRow maxRows
          ((rows.map t.cell).filter fun g => Filter.allHold (Item.valueIn g) filters)) →
      (d.selection items).Gives l' post) :
    (m.source.materializeTable t items filters firstRow maxRows).Gives l post := by
  unfold materializeTable
  refine gives_bind ((gives_materializeColumns hstored hnames (columnsOf_subset hitems) _ l).mono ?_)
  rintro d l' ⟨hle, hd⟩
  -- The limit cuts the rows before they are filtered, where it is given only without filters.
  rw [← RowSet.window_map] at hd
  have hread := readsWithin_columnsOf hitems (List.subset_append_right items _)
  have hshaped := (hd.filtered hread hbound).paged firstRow maxRows
  rw [window_limited] at hshaped
  exact hselection _ l' hle hshaped

end Memory

end RowSource

end DocQuery
