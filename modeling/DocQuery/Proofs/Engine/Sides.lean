import DocQuery.Proofs.Engine.Asking
import DocQuery.Proofs.Engine.CountPushdown
import DocQuery.Proofs.Engine.Paging
import DocQuery.Proofs.Rows.Sections

/-!
# DocQuery.Proofs.Engine.Sides — a from item on its own and as a side of a product

`SELECT *` over a single from item shows what is to be expected of it in a product: a table is read
straight away, and a subquery is asked for all references to it.  In a product the from item is
asked for the same, under other identities, and what is handed on may lack the repetitions.
-/

namespace DocQuery

open Plan
open RowSet (Section)

namespace RowSource

variable {s : RowSource} {t : Table} {l l' : Ledger} {label : String} {first : Nat}
  {items : List Item} {columns : List Column}

/-! ## Tables -/

/-- The value of a column in a row that was read as some columns. -/
def readValue (columns : List Column) (values : List Value) (c : Column) : Value :=
  (values[((columns.findIdx? (· == c)).getD 0)]?).getD .null

/-- The rows of a table under a label, each column from where it was read. -/
def labelledRows (items : List Item) (columns : List Column)
    (outcomes : List (Except QueryError (List Value))) : List (Except QueryError Row) :=
  outcomes.map fun o => o.map fun values =>
    { header := items, values := columns.map (readValue (distinctColumns columns) values) }

theorem columnsOf_eq {scope : Option String} (h : Header.IsOfColumns scope first items columns) :
    columnsOf (items ++ Filter.itemsOf []) = distinctColumns columns := by
  have hnone : items ++ Filter.itemsOf [] = items := List.append_nil items
  unfold columnsOf
  rw [hnone, h.filterMap_eq fun _ _ => rfl]
  rfl

/-- Unscoped columns are not laid out like columns under a label. -/
theorem sameLayout_label {header : List Item} {read : List Column} {start : Nat}
    (hheader : Header.IsOfColumns none start header read)
    (hitems : Header.IsOfColumns (some label) first items columns) (hne : items ≠ []) :
    Item.sameLayout header items = false := by
  refine Bool.eq_false_iff.mpr fun hlayout => ?_
  obtain ⟨i, hi⟩ := List.exists_mem_of_ne_nil items hne
  obtain ⟨h, hh, hsame⟩ := exists_of_mem_forall₂ (Item.sameLayout_iff.mp hlayout).flip hi
  obtain ⟨c, -, hi', -⟩ := exists_of_mem_forall₂ hitems hi
  obtain ⟨d, -, hh', -⟩ := exists_of_mem_forall₂ hheader hh
  have hscope := Item.scope_of_sameAs (Item.sameAs_of_same hsame)
  rw [hi', hh'] at hscope
  cases hscope

section Read

variable {header : List Item} {read : List Column} {start : Nat}
  (hheader : Header.IsOfColumns none start header read)
  (hitems : Header.IsOfColumns (some label) first items columns)
  (hread : ∀ c ∈ columns, c ∈ read) (hids : ∀ i ∈ items, i.id < start)

include hheader hitems hread hids

/-- A column under a label is found where the column was read. -/
theorem find?_read {i : Item} (hi : i ∈ items) {c : Column}
    (hic : i = Item.ofColumn i.id c (some label)) :
    ∃ n, Header.find? header i = some n ∧ read.findIdx? (· == c) = some n := by
  have hsource : i.source = .column c := by
    rw [hic]
    rfl
  have hmem : c ∈ columns := by
    obtain ⟨c', hc', hic', -⟩ := exists_of_mem_forall₂ hitems hi
    rw [hic'] at hsource
    rwa [← ItemSource.column.inj hsource]
  obtain ⟨n, hn, -⟩ := exists_cell (hread c hmem)
  exact ⟨n, (hheader.find?_plain hsource (hitems.isPlain hi).1 (hids i hi)).trans hn, hn⟩

theorem evaluate?_read (values : List Value) {i : Item} (hi : i ∈ items) {c : Column}
    (hic : i = Item.ofColumn i.id c (some label)) :
    Row.evaluate? ⟨header, values, none⟩ i = some (readValue read values c) := by
  obtain ⟨n, hn, hplace⟩ := find?_read hheader hitems hread hids hi hic
  have hat : Header.find? (Row.mk header values none).header i = some n := hn
  rw [Row.evaluate?_of_find? hat, readValue, hplace]
  rfl

/-- **A row that was read, under a label**: every column has the value that was read for it. -/
theorem project_read (values : List Value) : Row.project ⟨header, values, none⟩ items =
    .ok ⟨items, columns.map (readValue read values), none⟩ := by
  rw [Row.project_eq_showing fun i hi => by
    obtain ⟨c, -, hic, -⟩ := exists_of_mem_forall₂ hitems hi
    exact ⟨_, evaluate?_read hheader hitems hread hids values hi hic⟩]
  refine congrArg (fun shown => Except.ok (Row.mk items shown none)) ?_
  refine map_eq_map_of_forall₂ hitems fun i hi c hic => ?_
  rw [evaluate?_read hheader hitems hread hids values hi hic.1]
  rfl

end Read

/-- **What a table gives for columns under a label**, wherever it is read. -/
theorem gives_materializeTable_label
    (hitems : Header.IsOfColumns (some label) first items columns)
    (hids : ∀ i ∈ items, i.id < l.nextItem) (hne : items ≠ [])
    {outcomes : List (Except QueryError (List Value))}
    (hread : s.read l.requests t (distinctColumns columns) none = .ok outcomes) :
    (s.materializeTable t items [] 1 none).Gives l fun d l' => l.nextItem ≤ l'.nextItem ∧
      d.header = items ∧ d.stream.outcomes = labelledRows items columns outcomes := by
  unfold materializeTable
  rw [columnsOf_eq hitems]
  refine gives_bind ((gives_handedOut hread).mono ?_)
  rintro d l' ⟨hle, hheader, houtcomes⟩
  show (d.selection items).Gives l' _
  have hof : Header.IsOfColumns none l.nextItem d.header (distinctColumns columns) := by
    rw [hheader, List.zipIdx_map, List.map_map]
    exact Header.isOfColumns_zipIdx _ none _
  have hall : ∀ c ∈ columns, c ∈ distinctColumns columns := fun c hc => mem_distinctColumns.mpr hc
  -- No label, no layout: the columns are selected one by one even if they are all in order.
  have hlayout : Item.sameLayout d.header items = false := sameLayout_label hof hitems hne
  rw [RowSet.selection_of_find? (Bool.eq_false_iff.mp hlayout) fun i hi => by
    obtain ⟨c, -, hic, -⟩ := exists_of_mem_forall₂ hitems hi
    exact (find?_read hof hitems hall hids hi hic).imp fun n hn => hn.1]
  refine gives_pure ⟨hle, rfl, ?_⟩
  unfold RowSet.projected
  simp only [hlayout, Bool.false_eq_true, if_false]
  rw [Stream.outcomes_map, houtcomes]
  unfold columnRows labelledRows
  dsimp only
  rw [← hheader, List.map_map]
  -- A row that was read is projected; a failure stays as it is.
  refine List.map_congr_left fun o _ => ?_
  cases o with
  | error e => rfl
  | ok values => exact project_read hof hitems hall hids values

theorem read_of_materializeTable (hitems : Header.IsOfColumns (some label) first items columns)
    {d : RowSet} (hrun : (s.materializeTable t items [] 1 none).run l = (.ok d, l')) :
    ∃ outcomes, s.read l.requests t (distinctColumns columns) none = .ok outcomes := by
  unfold materializeTable at hrun
  obtain ⟨given, k, hgiven, -⟩ := run_bind_eq_ok hrun
  rw [columnsOf_eq hitems] at hgiven
  exact read_of_materializeColumns hgiven

end RowSource

namespace Engine

variable {s : RowSource} {options : Options} {t : Table} {aliasName : Option String}
  {f : FromItem} {first next : Nat} {l : Ledger} {a : Answer}

/-- A side of a product that a from item makes when it is asked for items.  What it has is under the
label of the from item, and the identities are those of these items or new ones. -/
structure IsSide (f : FromItem) (asked : List Item) (next : Nat) (x : Section) : Prop where
  items : x.items = asked
  scopes : ∀ c ∈ x.set.header, c.scope = f.label?
  ids : ∀ c ∈ x.set.header, c.id ∈ asked.map Item.id ∨ next ≤ c.id

theorem isOfColumns_offered (t : Table) (aliasName : Option String) (first : Nat) :
    Header.IsOfColumns (some (aliasName.getD t.name)) first
      (FromItem.offeredItems first [.table t aliasName]) t.columns := by
  rw [FromItem.offeredItems_table]
  exact Header.isOfColumns_zipIdx _ _ _

/-- **`SELECT *` over a table reads it straight away.** -/
theorem execute_everythingOf_table (s : RowSource) (options : Options) (t : Table)
    (aliasName : Option String) (first : Nat) :
    execute s options (QueryOf.everythingOf [.table t aliasName] first) =
      s.materializeTable t (FromItem.offeredItems first [.table t aliasName]) [] 1 none := by
  let q := QueryOf.everythingOf [.table t aliasName] first
  have hplain : ∀ i ∈ q.select, ∃ c, i.Reads c := fun i hi =>
    ((isOfColumns_offered t aliasName first).isPlain hi).2.imp fun _ h => h.2
  have hcount : countShortcut s options q t = pure none := by
    have hnone : countItem? q.select q.filters = none := by
      refine Option.eq_none_iff_forall_not_mem.mpr fun i hi => ?_
      obtain ⟨hselect, hcounted, -⟩ := of_countItem? hi
      obtain ⟨c, hreads⟩ := hplain i (by rw [hselect]; exact List.mem_cons_self)
      rw [hreads.isCountAll] at hcounted
      cases hcounted
    unfold countShortcut
    rw [hnone, ite_self]
  have hkey : keyShortcut s options q t = pure none := by
    have hnone : keyCondition? t q.filters = none := rfl
    unfold keyShortcut
    rw [hnone, ite_self]
  have hsimple : isSimple q.select = true := by
    refine List.all_eq_true.mpr fun i hi => ?_
    obtain ⟨c, hreads⟩ := hplain i hi
    rw [hreads.aggregate?, hreads.expression?]
    rfl
  have hshort : shortcut s options q t = s.materializeTable t q.select [] 1 none >>= fun d =>
      pure (some d) := by
    unfold shortcut
    rw [hcount, hkey, pure_bind, pure_bind, hsimple]
    rfl
  rw [execute_of_table s options (List.cons_ne_nil _ _) (Option.some_ne_none 0).symm rfl, hshort,
    bind_assoc]
  exact bind_pure _

/-- A table is asked for the columns that it offers, each once. -/
theorem ownedColumns_offered (t : Table) (aliasName : Option String) (start : Nat) :
    ownedColumns t (aliasName.getD t.name)
      ((FromItem.offeredItems start [.table t aliasName]).foldl Item.pushNew []) =
        distinctColumns t.columns := by
  have howned : ∀ id c, ownedColumn? t (aliasName.getD t.name)
      (Item.ofColumn id c (some (aliasName.getD t.name))) = some c := by
    intro id c
    simp [ownedColumn?, Item.ofColumn, Item.plain, Item.column?, Text.sameName_self]
  unfold ownedColumns
  rw [(isOfColumns_offered t aliasName start).gathered.filterMap_eq howned]
  exact distinctColumns_distinctColumns t.columns

section Table

variable {read : List (List Value)} (hne : t.columns ≠ [])

theorem id_lt_of_mem_offered {start next : Nat} (hnext : start + t.columns.length ≤ next) :
    ∀ i ∈ FromItem.offeredItems start [.table t aliasName], i.id < next := by
  intro i hi
  have hlt := (FromItem.id_of_mem_offeredItems hi).2
  rw [FromItem.length_offeredItems_table] at hlt
  omega

include hne

/-- A table that answers on its own was read as its columns, and no row of it is a failure. -/
theorem exists_read_of_answer {single : Ledger}
    (hsingle : first + t.columns.length ≤ single.nextItem)
    (hanswer : (Answer.ofPlan (execute s options
      (QueryOf.everythingOf [.table t aliasName] first))).answer single = .ok a) :
    ∃ read : List (List Value),
      s.read single.requests t (distinctColumns t.columns) none = .ok (read.map .ok) ∧
        a.rows.map Row.values = read.map fun values =>
          t.columns.map (RowSource.readValue (distinctColumns t.columns) values) := by
  have hitems := isOfColumns_offered t aliasName first
  have hsome : FromItem.offeredItems first [.table t aliasName] ≠ [] := by
    rwa [← List.length_pos_iff, FromItem.length_offeredItems_table, List.length_pos_iff]
  obtain ⟨d, k, hrun, -, hd⟩ := ofPlan_eq_ok hanswer
  rw [execute_everythingOf_table] at hrun
  obtain ⟨outcomes, hread⟩ := RowSource.read_of_materializeTable hitems hrun
  obtain ⟨-, -, houtcomes⟩ := (RowSource.gives_materializeTable_label hitems
    (id_lt_of_mem_offered hsingle) hsome hread).of_run hrun
  rw [hd] at houtcomes
  obtain ⟨read, rfl, hrows⟩ := exists_of_map_map_eq_ok houtcomes.symm
  refine ⟨read, hread, ?_⟩
  rw [hrows, List.map_map]
  rfl

/-- As a side of a product, it is read as the same columns, under new identities. -/
theorem gives_read_table
    (hread : ∀ past, s.read past t (distinctColumns t.columns) none = .ok (read.map .ok))
    (start : Nat) : (materialize s options
      ((FromItem.offeredItems start [.table t aliasName]).foldl Item.pushNew [])
      (.table t aliasName)).Gives l fun d l' => l.nextItem ≤ l'.nextItem ∧
        Header.IsOfColumns (some (aliasName.getD t.name)) l.nextItem d.header
          (distinctColumns t.columns) ∧
        d.Yields (read.map fun values => ⟨d.header, (distinctColumns t.columns).map
          (RowSource.readValue (distinctColumns t.columns) values), none⟩) := by
  unfold materialize tableItems
  refine gives_bind ((gives_makeItems (ownedColumns t (aliasName.getD t.name) _) _ l).mono ?_)
  rw [ownedColumns_offered]
  rintro items l' ⟨hitems, hdrawn, hle⟩
  have hsome : items ≠ [] := by
    rintro rfl
    exact distinctColumns_ne_nil hne (List.forall₂_nil_left_iff.mp hitems)
  -- The columns asked for are different already, and so they are read as they are.
  have hagain := hread l'.requests
  rw [← distinctColumns_distinctColumns] at hagain
  refine (RowSource.gives_materializeTable_label hitems hdrawn hsome hagain).mono ?_
  rintro d l'' ⟨hle', rfl, hd⟩
  refine ⟨Nat.le_trans hle hle', hitems, ?_⟩
  unfold RowSource.labelledRows at hd
  rw [distinctColumns_distinctColumns, List.map_map] at hd
  unfold RowSet.Yields
  rw [hd, List.map_map]
  rfl

/-- **What a table shows on its own, it shows as a side of a product.** -/
theorem gives_side_table (hs : s.IsSteady) {single : Ledger}
    (hsingle : first + t.columns.length ≤ single.nextItem)
    (hanswer : (Answer.ofPlan (execute s options
      (QueryOf.everythingOf [.table t aliasName] first))).answer single = .ok a) {start : Nat}
    (hstart : start + t.columns.length ≤ l.nextItem) : (materialize s options
      ((FromItem.offeredItems start [.table t aliasName]).foldl Item.pushNew [])
      (.table t aliasName)).Gives l fun d l' => l.nextItem ≤ l'.nextItem ∧ ∃ x : Section, x.set = d ∧
        x.rows.map x.cells = a.rows.map Row.values ∧ IsSide (.table t aliasName)
          (FromItem.offeredItems start [.table t aliasName]) l.nextItem x := by
  obtain ⟨read, hread, hrows⟩ := exists_read_of_answer hne hsingle hanswer
  have hsteady : ∀ past, s.read past t (distinctColumns t.columns) none = .ok (read.map .ok) :=
    fun past => (hs.read past single.requests t _ none).trans hread
  refine (gives_read_table hne hsteady start).mono ?_
  rintro d l' ⟨hle, hheader, hd⟩
  have hwide : ∀ row ∈ read.map fun values => (⟨d.header, (distinctColumns t.columns).map
      (RowSource.readValue (distinctColumns t.columns) values), none⟩ : Row),
        row.values.length = d.header.length := by
    intro row hrow
    obtain ⟨values, -, rfl⟩ := List.mem_map.mp hrow
    rw [hheader.length_eq]
    exact List.length_map _
  let x := Section.ofColumns hheader (isOfColumns_offered t aliasName start)
    (id_lt_of_mem_offered hstart) hd hwide
  refine ⟨hle, x, rfl, ?_, rfl, ?_, ?_⟩
  · rw [hrows]
    show (read.map _).map x.cells = _
    rw [List.map_map]
    refine List.map_congr_left fun values _ => ?_
    show x.cells _ = _
    rw [Section.cells_ofColumns]
    exact List.map_congr_left fun c hc => Row.value_columns (mem_distinctColumns.mpr hc) _ none
  · intro c hc
    obtain ⟨column, -, heq, -⟩ := exists_of_mem_forall₂ hheader hc
    rw [heq, Grammar.label?_table]
    rfl
  · intro c hc
    obtain ⟨column, -, -, hnew⟩ := exists_of_mem_forall₂ hheader hc
    exact Or.inr hnew

end Table

/-! ## Subqueries -/

/-- Two runs of a query under the same options are alike. -/
theorem isLocallyAlike_self {P : Item → Prop} {q : Query} (hs : s.IsSteady)
    (hown : ∀ i ∈ q.ownItems, P i) : IsLocallyAlike s options options P q := by
  refine isLocallyAlike_of_shortcut hown fun ρ t hρ _ => ?_
  unfold shortcut
  refine (alike_countShortcut hs hown hρ rfl t).bind fun σ hσ _ counted counted' h => ?_
  cases h with
  | some hd => exact alike_pure (.some hd)
  | none =>
    refine (alike_keyShortcut hs hown (hρ.mono hσ) rfl t).bind fun τ hτ _ found found' h => ?_
    cases h with
    | some hd => exact alike_pure (.some hd)
    | none => exact alike_straightRead hs hown (hρ.mono (hτ.trans hσ)) t

end Engine

/-- Identities up to a limit stand for themselves, and those counted from one for those counted from
another one. -/
def Pairing.shifted (limit length first start : Nat) : Pairing := fun m n =>
  (m = n ∧ m < limit) ∨ ∃ j < length, m = first + j ∧ n = start + j

theorem Ledger.paired_shifted {limit length first start : Nat} {l l' : Ledger} (h : 0 < limit)
    (hfirst : limit ≤ first) (hstart : limit ≤ start) (hl : first + length ≤ l.nextItem)
    (hl' : start + length ≤ l'.nextItem) :
    l.Paired (.shifted limit length first start) l' where
  oneToOne := by
    refine ⟨⟨?_, ?_⟩, Or.inl ⟨rfl, h⟩⟩
    · rintro m n m' (⟨rfl, hm⟩ | ⟨j, hj, rfl, rfl⟩) (⟨rfl, hm'⟩ | ⟨j', hj', rfl, hn⟩) <;>
        omega
    · rintro m n n' (⟨rfl, hm⟩ | ⟨j, hj, rfl, rfl⟩) (⟨rfl, hm'⟩ | ⟨j', hj', hn, rfl⟩) <;>
        omega
  drawn := by
    rintro m n (⟨rfl, hm⟩ | ⟨j, hj, rfl, rfl⟩) <;> constructor <;> omega

/-- References to the same items are alike under such a pairing. -/
theorem FromItem.allAlike_offeredItems {P : Item → Prop} {q : Query} {aliasName : Option String}
    {limit first start : Nat}
    (hfixes : Pairing.Fixes (.shifted limit q.select.length first start) P)
    (hselect : ∀ x ∈ q.select, P x) :
    Item.AllAlike (.shifted limit q.select.length first start)
      (offeredItems first [.subquery q aliasName]) (offeredItems start [.subquery q aliasName]) := by
  rw [offeredItems_subquery, offeredItems_subquery]
  refine List.forall₂_iff_get.mpr ⟨by simp, fun j hj hj' => ?_⟩
  have hlt : j < q.select.length := by simpa using hj
  simp only [List.get_eq_getElem, List.getElem_map, List.getElem_zipIdx]
  exact .inner _ _ _ _ _ (Or.inr ⟨j, hlt, rfl, rfl⟩)
    (hfixes _ (hselect _ (List.getElem_mem hlt)))

namespace Engine

variable {s : RowSource} {options : Options} {aliasName : Option String} {q : Query}
  {first start : Nat} {l : Ledger} {a : Answer}

/-- The references to a subquery as they are selected from it are a side. -/
theorem exists_section_gathered {d given : RowSet} {k l' : Ledger} {rows : List Row}
    (hheader : Header.Matches given.header q.select) (hne : q.select ≠ [])
    (hrun : ((given.projected ((FromItem.offeredItems first [.subquery q aliasName]).foldl
      Item.pushNew [])).selection (FromItem.offeredItems first [.subquery q aliasName])).run k =
        (.ok d, l')) (hd : d.Yields rows) :
    ∃ x : Section, x.set = given.projected
        ((FromItem.offeredItems first [.subquery q aliasName]).foldl Item.pushNew []) ∧
      x.items = FromItem.offeredItems first [.subquery q aliasName] ∧
      x.rows.map x.cells = rows.map Row.values := by
  let asked := FromItem.offeredItems first [.subquery q aliasName]
  let references := given.projected (asked.foldl Item.pushNew [])
  have hlayout : Item.sameLayout given.header (asked.foldl Item.pushNew []) = false :=
    sameLayout_gathered hheader hne
  have hfound : ∀ i ∈ asked, i.scalar? = none ∨
      ∃ n, Header.find? references.header i = some n :=
    fun i hi => Or.inr ((RowSet.find?_gathered hi).imp fun n hn => hn.1)
  obtain ⟨shown, hshown⟩ := RowSet.exists_yields_of_selection hrun hfound hd
  have hwide : ∀ row ∈ shown, row.values.length = references.header.length := by
    intro row hrow
    refine RowSet.length_values_of_projected hlayout row ?_
    rw [hshown]
    exact List.mem_map_of_mem hrow
  let x := Section.ofGathered rfl (FromItem.nodup_offeredItems first _) hshown hwide
  have hheaded : x.set.IsHeaded := fun _ => RowSet.every_projected hlayout
  obtain ⟨rows', hrows', hvalues⟩ := (x.gives_selection_alone hheaded k).of_run hrun
  refine ⟨x, rfl, rfl, ?_⟩
  rw [← hvalues, hd.unique hrows']

/-- References to a subquery have identities that no item of a query has that was read before. -/
theorem isReference_gathered {r : Registry} (hown : ∀ i ∈ q.ownItems, r.Lists i) {k : Nat}
    (hk : r.next ≤ k) : ∀ i ∈ (FromItem.offeredItems k [.subquery q aliasName]).foldl
      Item.pushNew [], i.IsReference r.Lists := by
  intro i hi
  obtain ⟨x, hx, heq⟩ := FromItem.exists_of_mem_gathered hi
  have hmem := (Item.mem_of_mem_foldl_pushNew hi).resolve_left List.not_mem_nil
  have hid := (FromItem.id_of_mem_offeredItems hmem).1
  refine ⟨by rw [heq]; rfl, ⟨x, by rw [heq]; rfl, QueryOf.own_select hown x hx⟩, ?_⟩
  intro j hj hsame
  have hlt := hj.enters.id_lt
  omega

/-- **What a subquery shows on its own, it shows as a side of a product.** -/
theorem gives_side_subquery (hs : s.IsSteady) {catalog : Grammar.Catalog} {r : Registry}
    (hread : ∀ q' ∈ q.queries, Grammar.IsRead catalog r q') {single : Ledger}
    (hfirst : r.next ≤ first) (hsingle : first + q.select.length ≤ single.nextItem)
    (hne : q.select ≠ []) (hanswer : (Answer.ofPlan (execute s options
      (QueryOf.everythingOf [.subquery q aliasName] first))).answer single = .ok a)
    (hstart : r.next ≤ start) (hl : start + q.select.length ≤ l.nextItem) : (materialize s options
      ((FromItem.offeredItems start [.subquery q aliasName]).foldl Item.pushNew [])
      (.subquery q aliasName)).Gives l fun d l' => l.nextItem ≤ l'.nextItem ∧
        ∃ x : Section, x.set = d ∧ x.rows.map x.cells = a.rows.map Row.values ∧
          IsSide (.subquery q aliasName) (FromItem.offeredItems start [.subquery q aliasName])
            l.nextItem x := by
  obtain ⟨d, k, hrun, -, hd⟩ := ofPlan_eq_ok hanswer
  rw [execute_everythingOf_subquery] at hrun
  obtain ⟨given, k', hexecuted, hselected⟩ := run_bind_eq_ok hrun
  obtain ⟨x, hx, hitems, hcells⟩ :=
    exists_section_gathered (matches_of_execute hexecuted) hne hselected hd
  -- On its own and as a side, the subquery is the same query; only the identities drawn since it was
  -- read differ, and those of the references to it.
  let ρ := Pairing.shifted r.next q.select.length first start
  have hfixes : ρ.Fixes r.Lists := r.fixes.mono fun m n h => Or.inl h
  have hself := hread q (Grammar.mem_queriesOf_self q)
  have hlocal : ∀ q' ∈ q.queries, (∀ i ∈ q'.ownItems, r.Lists i) ∧
      IsLocallyAlike s options options r.Lists q' :=
    fun q' hq' => ⟨(hread q' hq').own, isLocallyAlike_self hs (hread q' hq').own⟩
  have hpaired := Ledger.paired_shifted r.positive hfirst hstart hsingle hl
  unfold materialize
  rw [subqueryItems_offered, pure_bind]
  refine gives_bind (((alike_execute hs r.isPool q ρ hfixes hlocal).gives hpaired
    hexecuted).mono ?_)
  rintro given' l' ⟨hle, σ, hσ, hone, hgiven⟩
  have hasked : Item.AllAlike ρ (FromItem.offeredItems first [.subquery q aliasName])
      (FromItem.offeredItems start [.subquery q aliasName]) :=
    FromItem.allAlike_offeredItems hfixes (QueryOf.own_select hself.own)
  have halike := hgiven.projected _ _ (Item.AllAlike.foldl_pushNew .nil hasked)
    (isReference_gathered hself.own hfirst) (isReference_gathered hself.own hstart)
  rw [← hx] at halike
  obtain ⟨y, hy, hyitems, hycells⟩ := x.exists_alike hone halike
    (by rw [hitems]; exact hasked.mono hσ)
  refine gives_pure ⟨hle, y, hy, hycells.trans hcells, hyitems, ?_, ?_⟩
  · intro c hc
    rw [hy] at hc
    obtain ⟨x, -, heq⟩ := FromItem.exists_of_mem_gathered hc
    rw [heq]
    cases aliasName <;> rfl
  · intro c hc
    rw [hy] at hc
    exact Or.inl (List.mem_map_of_mem
      ((Item.mem_of_mem_foldl_pushNew hc).resolve_left List.not_mem_nil))

end Engine

end DocQuery
