import DocQuery.Proofs.Rows.Tabular

/-!
# DocQuery.Proofs.Rows.Selection — shaping rows of columns into a select list

Scalar functions that rows do not have yet are computed by a stage in front of them, each once.  Two
functions count as one when they are the same up to their aliases, and sameness of parameters is
equality for grouping, which takes different parameters for one.  A select item then takes the value
of the function that stands in for it (`RowSet.standIn`), and a selection gives those values
(`RowSet.gives_selection`).
-/

namespace DocQuery.RowSet

open Plan

/-! ## Standing in -/

/-- The scalar functions of a select list, as a stage computes them. -/
def scalarStage (select : List Item) : List Item :=
  (select.filter (·.scalar?.isSome)).foldl (fun kept i => Item.pushNew kept i.withoutAlias) []

/-- The item of a stage that is found for an item: of its identity, or the same in its scope; the
item itself if there is none. -/
def foundIn (stage : List Item) (i : Item) : Item :=
  ((stage.find? fun s => s.id == i.id).or (stage.find? (Item.sameAs true · i))).getD i

/-- The item whose value a select item takes. -/
def standIn (select : List Item) (i : Item) : Item := foundIn (scalarStage select) i

/-- What a select list over columns consists of: items that read the columns, with identities that
were drawn before `first`; an item with the identity of a scalar function is a copy of it. -/
structure Selects (columns : List Column) (first : Nat) (select : List Item) : Prop where
  reads : ∀ i ∈ select, ∃ c ∈ columns, i.Reads c
  id_lt : ∀ i ∈ select, i.id < first
  clones : ∀ i ∈ select, i.scalar?.isSome = true →
    ∀ j ∈ select, i.id = j.id → i.withoutAlias = j.withoutAlias

theorem scalarStage_eq (select : List Item) : scalarStage select =
    ((select.filter (·.scalar?.isSome)).map Item.withoutAlias).foldl Item.pushNew [] := by
  rw [scalarStage, List.foldl_map]

theorem filter_scalar_eq_nil {items : List Item} (h : ∀ i ∈ items, i.IsPlain) :
    items.filter (·.scalar?.isSome) = [] := by
  refine List.filter_eq_nil_iff.mpr fun i hi => ?_
  rw [(h i hi).scalar?_eq_none]
  exact Bool.false_ne_true

/-- Plain items need no stage. -/
theorem scalarStage_of_isPlain {select : List Item} (h : ∀ i ∈ select, i.IsPlain) :
    scalarStage select = [] := by
  rw [scalarStage, filter_scalar_eq_nil h]
  rfl

theorem exists_of_mem_scalarStage {select : List Item} {s : Item} (h : s ∈ scalarStage select) :
    ∃ i ∈ select, s = i.withoutAlias ∧ i.scalar?.isSome = true := by
  rw [scalarStage_eq] at h
  rcases Item.mem_of_mem_foldl_pushNew h with hnil | hmap
  · cases hnil
  · obtain ⟨i, hi, rfl⟩ := List.mem_map.mp hmap
    obtain ⟨hmem, hscalar⟩ := List.mem_filter.mp hi
    exact ⟨i, hmem, rfl, hscalar⟩

/-- Every scalar function of a select list is in the stage, or one that counts as the same. -/
theorem exists_mem_scalarStage {select : List Item} {i : Item} (hi : i ∈ select)
    (hscalar : i.scalar?.isSome = true) :
    ∃ s ∈ scalarStage select, s.id = i.id ∨ Item.sameAs true s i = true := by
  have hmem : i.withoutAlias ∈ (select.filter (·.scalar?.isSome)).map Item.withoutAlias :=
    List.mem_map_of_mem (List.mem_filter.mpr ⟨hi, hscalar⟩)
  rw [scalarStage_eq]
  obtain ⟨s, hs, rfl | hsame⟩ := Item.exists_mem_foldl_pushNew hmem
  · exact ⟨i.withoutAlias, hs, Or.inl rfl⟩
  · rw [Item.sameAs_withoutAlias] at hsame
    exact ⟨s, hs, Or.inr hsame⟩

section Stage

variable {columns : List Column} {first : Nat} {select : List Item}

theorem Selects.mem_scalarStage (h : Selects columns first select) {s : Item}
    (hs : s ∈ scalarStage select) :
    s.scalar?.isSome = true ∧ ∃ c ∈ columns, s.Reads c := by
  obtain ⟨i, hi, rfl, hscalar⟩ := exists_of_mem_scalarStage hs
  obtain ⟨c, hc, hreads⟩ := h.reads i hi
  exact ⟨hscalar, c, hc, hreads.withoutAlias⟩

/-- An item of the stage with the identity of a select item is that item up to the alias. -/
theorem Selects.eq_of_id_eq (h : Selects columns first select) {s i : Item}
    (hs : s ∈ scalarStage select) (hi : i ∈ select) (hid : s.id = i.id) : s = i.withoutAlias := by
  obtain ⟨j, hj, rfl, hscalar⟩ := exists_of_mem_scalarStage hs
  exact h.clones j hj hscalar i hi hid

theorem Selects.id_ne_of_isPlain (h : Selects columns first select) {s i : Item}
    (hs : s ∈ scalarStage select) (hi : i ∈ select) (hplain : i.IsPlain) : s.id ≠ i.id := by
  intro hid
  have hscalar := (h.mem_scalarStage hs).1
  rw [h.eq_of_id_eq hs hi hid] at hscalar
  have hnone : i.withoutAlias.scalar? = none := hplain.scalar?_eq_none
  rw [hnone] at hscalar
  cases hscalar

theorem Selects.sameAs_of_isPlain (h : Selects columns first select) {s i : Item}
    (hs : s ∈ scalarStage select) (hi : i ∈ select) (hplain : i.IsPlain) (strict : Bool) :
    Item.sameAs strict s i = false := by
  obtain ⟨hscalar, c, -, hsreads⟩ := h.mem_scalarStage hs
  obtain ⟨d, -, hireads⟩ := h.reads i hi
  refine Item.sameAs_eq_false_of_function_ne strict hsreads.source hireads.source ?_
  rw [hplain.function]
  intro heq
  have := Item.function_isSome_of_scalar? hscalar
  rw [heq] at this
  cases this

/-- A plain item stands for itself. -/
theorem Selects.standIn_of_isPlain (h : Selects columns first select) {i : Item} (hi : i ∈ select)
    (hplain : i.IsPlain) : standIn select i = i := by
  have hid : (scalarStage select).find? (fun s => s.id == i.id) = none :=
    List.find?_eq_none.mpr fun s hs => by simpa using h.id_ne_of_isPlain hs hi hplain
  have hsame : (scalarStage select).find? (Item.sameAs true · i) = none :=
    List.find?_eq_none.mpr fun s hs => by simpa using h.sameAs_of_isPlain hs hi hplain true
  rw [standIn, foundIn, hid, hsame]
  rfl

/-- A scalar function that is itself in the stage has its own value. -/
theorem Selects.valueIn_standIn (h : Selects columns first select) {i : Item} (hi : i ∈ select)
    (hstage : i.withoutAlias ∈ scalarStage select) (cells : Column → Value) :
    (standIn select i).valueIn cells = i.valueIn cells := by
  obtain ⟨s, hs⟩ : ∃ s, (scalarStage select).find? (fun s => s.id == i.id) = some s :=
    Option.isSome_iff_exists.mp (List.find?_isSome.mpr ⟨_, hstage, beq_self_eq_true _⟩)
  have hmem := List.mem_of_find?_eq_some hs
  have hid : s.id = i.id := by simpa using List.find?_some hs
  rw [standIn, foundIn, hs, h.eq_of_id_eq hmem hi hid]
  rfl

/-- If scalar functions that count as one have equal parameters, every item has its own value. -/
theorem Selects.valueIn_standIn_of_parameters (h : Selects columns first select)
    (hparameters : ∀ i ∈ select, ∀ j ∈ select, Item.sameAs true i j = true →
      i.parameters = j.parameters) {i : Item} (hi : i ∈ select) (cells : Column → Value) :
    (standIn select i).valueIn cells = i.valueIn cells := by
  unfold standIn foundIn
  cases hid : (scalarStage select).find? (fun s => s.id == i.id) with
  | some s =>
    have heq := h.eq_of_id_eq (List.mem_of_find?_eq_some hid) hi (by simpa using List.find?_some hid)
    show s.valueIn cells = _
    rw [heq, Item.valueIn_withoutAlias]
  | none =>
    cases hsame : (scalarStage select).find? (Item.sameAs true · i) with
    | none => rfl
    | some s =>
      obtain ⟨j, hj, rfl, -⟩ := exists_of_mem_scalarStage (List.mem_of_find?_eq_some hsame)
      have hji := List.find?_some hsame
      rw [Item.withoutAlias_sameAs] at hji
      obtain ⟨c, -, hreads⟩ := h.reads i hi
      show j.withoutAlias.valueIn cells = _
      rw [Item.valueIn_withoutAlias]
      exact Item.valueIn_eq_of_sameAs hji hreads.source (hparameters j hj i hi hji) cells

end Stage

/-! ## Rows behind a stage -/

theorem find?_getElem?_of_findIdx? {l : List Item} {p : Item → Bool} {n : Nat}
    (h : l.findIdx? p = some n) : ∃ s ∈ l, l[n]? = some s ∧ l.find? p = some s := by
  obtain ⟨hn, hp, hbefore⟩ := List.findIdx?_eq_some_iff_getElem.mp h
  refine ⟨l[n], List.getElem_mem hn, List.getElem?_eq_getElem hn, ?_⟩
  rw [List.find?_eq_bind_findIdx?_getElem?, h]
  exact List.getElem?_eq_getElem hn

section Columns

variable {scope : Option String} {first : Nat} {items : List Item} {columns : List Column}

/-- A scalar function that the stage has is found there. -/
theorem find?_stage_scalar (h : Header.IsOfColumns scope first items columns) {stage : List Item}
    {i : Item} (hi : i.id < first)
    (hfound : ∃ s ∈ stage, s.id = i.id ∨ Item.sameAs true s i = true) :
    ∃ n, Header.find? (stage ++ items) i = some n ∧ stage[n]? = some (foundIn stage i) := by
  unfold Header.find? foundIn
  rw [List.findIdx?_append, h.findIdx?_id hi]
  cases hid : stage.findIdx? (fun s => s.id == i.id) with
  | some n =>
    obtain ⟨s, -, hget, hfind⟩ := find?_getElem?_of_findIdx? hid
    exact ⟨n, rfl, by rw [hget, hfind]; rfl⟩
  | none =>
    -- What stands in under another identity is found by what it denotes, in the stage as among all
    -- items, because the stage comes first.
    obtain ⟨s, hs, hsame⟩ := hfound
    have hne : s.id ≠ i.id := by simpa using List.findIdx?_eq_none_iff.mp hid s hs
    cases hstrict : stage.findIdx? (Item.sameAs true · i) with
    | none =>
      have hfalse := List.findIdx?_eq_none_iff.mp hstrict s hs
      rw [hsame.resolve_left hne] at hfalse
      cases hfalse
    | some n =>
      obtain ⟨t, -, hget, hfind⟩ := find?_getElem?_of_findIdx? hstrict
      have hidNone : stage.find? (fun s => s.id == i.id) = none := by
        rw [List.find?_eq_bind_findIdx?_getElem?, hid]
        rfl
      refine ⟨n, ?_, ?_⟩
      · rw [List.findIdx?_append, hstrict]
        rfl
      · rw [hget, hidNone, hfind]
        rfl

/-- A plain item is found behind the stage. -/
theorem find?_stage_plain {stage : List Item} {i : Item} (hid : ∀ s ∈ stage, s.id ≠ i.id)
    (hsame : ∀ s ∈ stage, ∀ strict, Item.sameAs strict s i = false) :
    Header.find? (stage ++ items) i = (Header.find? items i).map (· + stage.length) := by
  have hidNone : stage.findIdx? (fun s => s.id == i.id) = none :=
    List.findIdx?_eq_none_iff.mpr fun s hs => beq_false_of_ne (hid s hs)
  have hsameNone (strict : Bool) : stage.findIdx? (Item.sameAs strict · i) = none :=
    List.findIdx?_eq_none_iff.mpr fun s hs => hsame s hs strict
  unfold Header.find?
  rw [List.findIdx?_append, List.findIdx?_append, List.findIdx?_append, hidNone, hsameNone,
    hsameNone]
  cases items.findIdx? (fun s => s.id == i.id) <;>
    cases items.findIdx? (Item.sameAs true · i) <;>
      cases items.findIdx? (Item.sameAs false · i) <;> rfl

/-- **A row behind the stage has the value of the item that stands in.** -/
theorem evaluate?_stage (h : Header.IsOfColumns scope first items columns) {select : List Item}
    (hselect : Selects columns first select) (cells : Column → Value) {i : Item}
    (hi : i ∈ select) :
    Row.evaluate? ⟨scalarStage select ++ items,
      (scalarStage select).map (·.valueIn cells) ++ columns.map cells, none⟩ i =
        some ((standIn select i).valueIn cells) := by
  obtain ⟨c, hc, hreads⟩ := hselect.reads i hi
  have hid := hselect.id_lt i hi
  rcases hreads.use with hplain | hscalar
  · obtain ⟨n, hn, hcell⟩ := exists_cell hc
    have hfind : Header.find? (scalarStage select ++ items) i =
        some (n + (scalarStage select).length) := by
      rw [find?_stage_plain (fun s hs => hselect.id_ne_of_isPlain hs hi hplain)
        (fun s hs strict => hselect.sameAs_of_isPlain hs hi hplain strict),
        h.find?_plain hreads.source hplain hid, hn]
      rfl
    rw [Row.evaluate?_of_find? hfind, hselect.standIn_of_isPlain hi hplain, hreads.valueIn,
      Row.applyScalar_of_isPlain hplain]
    unfold Row.value
    rw [List.getElem?_append_right (by simp), List.length_map, Nat.add_sub_cancel, hcell]
    rfl
  · obtain ⟨n, hfind, hget⟩ := find?_stage_scalar h hid (exists_mem_scalarStage hi hscalar)
    have hlt : n < (scalarStage select).length := (List.getElem?_eq_some_iff.mp hget).1
    rw [Row.evaluate?_of_find? hfind]
    unfold Row.value
    rw [List.getElem?_append_left (by simpa using hlt), List.getElem?_map, hget]
    rfl

end Columns

/-! ## Selections -/

/-- The data set gives rows with these values. -/
def Shows (d : RowSet) (values : List (List Value)) : Prop :=
  ∃ rows, d.Yields rows ∧ rows.map (·.values) = values

theorem Answers.shows {d : RowSet} {first : Nat} {select : List Item} {values : List (List Value)}
    (h : d.Answers first select values) : d.Shows values := by
  obtain ⟨header, -, hrows⟩ := h.rows
  refine ⟨_, hrows, ?_⟩
  rw [List.map_map]
  exact List.map_id values

/-- The values that rows over columns have for a select list. -/
def selectedValues (select : List Item) (cells : List (Column → Value)) : List (List Value) :=
  cells.map fun g => select.map fun i => (standIn select i).valueIn g

section Projection

variable {d : RowSet} {items : List Item}

/-- With nothing to compute in front, a selection of items that can be read is a projection. -/
theorem selection_eq_projected (hlayout : ¬ Item.sameLayout d.header items = true)
    (hmissing : missingScalars d.header items = [])
    (hreadable : (items.find? fun i => !Header.isReadable d.header i) = none) :
    d.selection items = pure (d.projected items) := by
  unfold selection
  rw [if_neg hlayout]
  simp only [hmissing, List.isEmpty_nil, if_true, pure_bind, hreadable]

/-- Items that are found, or have no scalar function, need no stage. -/
theorem missingScalars_eq_nil {header : List Item}
    (h : ∀ i ∈ items, i.scalar? = none ∨ ∃ n, Header.find? header i = some n) :
    missingScalars header items = [] := by
  unfold missingScalars
  dsimp only
  rw [List.filter_eq_nil_iff.mpr, List.foldl_nil]
  intro i hi
  rcases h i hi with hscalar | ⟨n, hn⟩
  · simp [hscalar]
  · simp [Header.resolve?, hn]

/-- Items that are found are projected. -/
theorem selection_of_find? (hlayout : ¬ Item.sameLayout d.header items = true)
    (hfound : ∀ i ∈ items, ∃ n, Header.find? d.header i = some n) :
    d.selection items = pure (d.projected items) := by
  refine selection_eq_projected hlayout (missingScalars_eq_nil fun i hi => Or.inr (hfound i hi)) ?_
  refine List.find?_eq_none.mpr fun i hi => ?_
  obtain ⟨n, hn⟩ := hfound i hi
  simp [Header.isReadable, Header.resolve?, hn]

end Projection

section Selection

variable {scope : Option String} {first : Nat} {columns : List Column} {select : List Item}
  {cells : List (Column → Value)} {d : RowSet}

/-- The stage of a selection has all scalar functions of the select list. -/
theorem missingScalars_eq (h : Header.IsOfColumns scope first d.header columns)
    (hselect : Selects columns first select) :
    missingScalars d.header select = scalarStage select := by
  refine congrArg (List.foldl (fun kept (i : Item) => Item.pushNew kept i.withoutAlias) [])
    (List.filter_congr fun i hi => ?_)
  obtain ⟨c, hc, hreads⟩ := hselect.reads i hi
  have hid := hselect.id_lt i hi
  obtain ⟨n, hn, -⟩ := exists_cell hc
  have hbare : (Header.resolve? d.header i.bare).isSome = true := by
    unfold Header.resolve?
    rw [h.find?_bare hreads (by omega), hn]
    rfl
  rw [hbare, h.resolve?_reads hreads hid, hn]
  cases i.scalar?.isSome <;> rfl

/-- The stage can be computed, and gives the values of its functions. -/
theorem scalarInputs_eq (h : Header.IsOfColumns scope first d.header columns) (hfirst : 0 < first)
    {stage : List Item}
    (hstage : ∀ s ∈ stage, s.scalar?.isSome = true ∧ ∃ c ∈ columns, s.Reads c) :
    ∃ functions, scalarInputs d.header stage = .ok functions ∧ ∀ g : Column → Value,
      functions.map (fun (i, input) => Row.applyScalar i
        (Row.value ⟨d.header, columns.map g, none⟩ input)) = stage.map (·.valueIn g) := by
  induction stage with
  | nil => exact ⟨[], rfl, fun _ => rfl⟩
  | cons s rest ih =>
    rw [List.forall_mem_cons] at hstage
    obtain ⟨⟨hscalar, c, hc, hreads⟩, hrest⟩ := hstage
    obtain ⟨functions, hfunctions, hvalues⟩ := ih hrest
    obtain ⟨n, hn, hcell⟩ := exists_cell hc
    have hbare : Header.resolve? d.header s.bare = some ⟨n, false⟩ := by
      unfold Header.resolve?
      rw [h.find?_bare hreads hfirst, hn]
    refine ⟨(s, n) :: functions, ?_, fun g => ?_⟩
    · unfold scalarInputs
      rw [hbare, hfunctions, Option.isNone_eq_false_iff.mpr hscalar]
      rfl
    · have hvalue : Row.value ⟨d.header, columns.map g, none⟩ n = g c := by
        unfold Row.value
        rw [hcell]
        rfl
      rw [List.map_cons, hvalues g, List.map_cons, hreads.valueIn]
      simp only [hvalue]

/-- The rows behind the stage of a selection. -/
theorem gives_withScalars (hd : d.Presents scope first columns cells) (hfirst : 0 < first)
    {stage : List Item}
    (hstage : ∀ s ∈ stage, s.scalar?.isSome = true ∧ ∃ c ∈ columns, s.Reads c) (l : Ledger) :
    (d.withScalars stage).Gives l fun d' l' => l' = l ∧ d'.header = stage ++ d.header ∧
      d'.Yields (cells.map fun g =>
        ⟨stage ++ d.header, stage.map (·.valueIn g) ++ columns.map g, none⟩) := by
  obtain ⟨functions, hfunctions, hvalues⟩ := scalarInputs_eq hd.header hfirst hstage
  unfold withScalars
  rw [hfunctions]
  refine gives_pure ⟨rfl, rfl, ?_⟩
  show (Stream.map _ d.stream).outcomes = _
  rw [Stream.outcomes_map, hd.rows, List.map_map, List.map_map, List.map_map]
  refine List.map_congr_left fun g _ => ?_
  have hwidth : d.header.length = (columns.map g).length := by
    rw [List.length_map]
    exact hd.header.length_eq
  have hrow : Row.withScalars ⟨d.header, columns.map g, none⟩ (stage ++ d.header) functions
      d.header.length = ⟨stage ++ d.header, stage.map (·.valueIn g) ++ columns.map g, none⟩ := by
    unfold Row.withScalars
    rw [hvalues g, hwidth, Row.range_map_value]
    rfl
  exact congrArg Except.ok hrow

theorem valuesOf_eq {r : Row} {read : Item → Value} {list : List Item}
    (h : ∀ i ∈ list, r.evaluate? i = some (read i)) : r.valuesOf list = .ok (list.map read) := by
  rw [Row.valuesOf_eq_ok_iff, List.map_map]
  exact List.map_congr_left h

/-- A select item that is the same as a plain column is plain. -/
theorem Selects.isPlain_of_same {items : List Item} (hselect : Selects columns first select)
    (h : Header.IsOfColumns scope first items columns) {s i : Item} (hi : i ∈ select)
    (hs : s ∈ items) (hsame : s.same i = true) : i.IsPlain := by
  obtain ⟨c, -, hreads⟩ := hselect.reads i hi
  obtain ⟨d, -, hd⟩ := exists_of_mem_forall₂ h hs
  refine hreads.use.resolve_right fun hscalar => ?_
  have hsome := Item.function_isSome_of_scalar? hscalar
  rw [← (Item.same_column hsame hreads.source).2.2, hd.1] at hsome
  cases hsome

theorem scalarStage_of_sameLayout {items : List Item}
    (h : Header.IsOfColumns scope first items columns) (hselect : Selects columns first select)
    (hlayout : Item.sameLayout items select = true) : scalarStage select = [] := by
  refine scalarStage_of_isPlain fun i hi => ?_
  obtain ⟨s, hs, hsame⟩ := exists_of_mem_forall₂ (Item.sameLayout_iff.mp hlayout).flip hi
  exact hselect.isPlain_of_same h hi hs hsame

/-- A select list that rows behind its stage are laid out like has its scalar functions first, one
for each item of the stage, and one plain item for each column after them. -/
theorem exists_split_of_sameLayout {items : List Item}
    (h : Header.IsOfColumns scope first items columns) (hselect : Selects columns first select)
    (hlayout : Item.sameLayout (scalarStage select ++ items) select = true) :
    ∃ own rest, select = own ++ rest ∧ own.length = (scalarStage select).length ∧
      (∀ i ∈ own, i.scalar?.isSome = true) ∧ (∀ i ∈ rest, i.IsPlain) ∧
      List.Forall₂ (fun i s => s.same i = true) rest items := by
  have hflip := (Item.sameLayout_iff.mp hlayout).flip
  have hsplit := List.take_append_drop (scalarStage select).length select
  have hown := List.forall₂_take_append _ _ _ hflip
  have hrest := List.forall₂_drop_append _ _ _ hflip
  refine ⟨_, _, hsplit.symm, hown.length_eq, fun i hi => ?_, fun i hi => ?_, hrest⟩
  · obtain ⟨s, hs, hsame⟩ := exists_of_mem_forall₂ hown hi
    obtain ⟨c, -, hreads⟩ := hselect.reads i (List.mem_of_mem_take hi)
    have hscalar := (hselect.mem_scalarStage hs).1
    unfold Item.scalar? at hscalar ⊢
    rwa [(Item.same_column hsame hreads.source).2.2] at hscalar
  · obtain ⟨s, hs, hsame⟩ := exists_of_mem_forall₂ hrest hi
    exact hselect.isPlain_of_same h (List.mem_of_mem_drop hi) hs hsame

/-- A stage with as many items as there are scalar functions in front has left out none of them. -/
theorem scalarStage_append {own rest : List Item} (hown : ∀ i ∈ own, i.scalar?.isSome = true)
    (hrest : ∀ i ∈ rest, i.IsPlain) (hlength : own.length = (scalarStage (own ++ rest)).length) :
    scalarStage (own ++ rest) = own.map Item.withoutAlias := by
  have hfilter : (own ++ rest).filter (·.scalar?.isSome) = own := by
    rw [List.filter_append, List.filter_eq_self.mpr hown, filter_scalar_eq_nil hrest,
      List.append_nil]
  rw [scalarStage_eq, hfilter] at hlength ⊢
  refine Item.foldl_pushNew_eq_append ?_
  rw [← hlength, List.length_nil, List.length_map, Nat.zero_add]

/-- Rows that are laid out like the select list already have its values. -/
theorem values_of_sameLayout {items : List Item}
    (h : Header.IsOfColumns scope first items columns) (hselect : Selects columns first select)
    (hlayout : Item.sameLayout (scalarStage select ++ items) select = true) (g : Column → Value) :
    (scalarStage select).map (·.valueIn g) ++ columns.map g =
      select.map fun i => (standIn select i).valueIn g := by
  obtain ⟨own, rest, rfl, hlength, hown, hplain, hpairs⟩ :=
    exists_split_of_sameLayout h hselect hlayout
  have hstage := scalarStage_append hown hplain hlength
  have hownValues : own.map (fun i => (standIn (own ++ rest) i).valueIn g) =
      (own.map Item.withoutAlias).map (·.valueIn g) := by
    rw [List.map_map]
    refine List.map_congr_left fun i hi => ?_
    refine hselect.valueIn_standIn (List.mem_append_left _ hi) ?_ g
    rw [hstage]
    exact List.mem_map_of_mem hi
  have hcells : items.map (fun s => (s.column?.map g).getD .null) = columns.map g := by
    refine map_eq_map_of_forall₂ h fun s _ c hs => ?_
    rw [hs.1]
    rfl
  have hrestValues : rest.map (fun i => (standIn (own ++ rest) i).valueIn g) = columns.map g := by
    rw [← hcells]
    refine map_eq_map_of_forall₂ hpairs fun i hi s hsame => ?_
    have hmem := List.mem_append_right own hi
    obtain ⟨c, -, hreads⟩ := hselect.reads i hmem
    have hs : s.column? = some c := by
      unfold Item.column?
      rw [(Item.same_column hsame hreads.source).1]
    rw [hselect.standIn_of_isPlain hmem (hplain i hi), hreads.valueIn,
      Row.applyScalar_of_isPlain (hplain i hi), hs]
    rfl
  rw [List.map_append, hownValues, hrestValues, hstage]

/-- Columns stand for plain items that they are equal to. -/
theorem standsFor_of_pairs {items rest : List Item}
    (h : Header.IsOfColumns scope first items columns) (hrest : ∀ i ∈ rest, i.IsPlain)
    (hpairs : List.Forall₂ (fun i s => s.same i = true) rest items)
    (hsource : ∀ i ∈ rest, ∃ c, i.source = .column c) :
    List.Forall₂ (Item.StandsFor first) items rest := by
  have hboth : List.Forall₂ (fun s i => (i.IsPlain ∧ ∃ c, i.source = .column c) ∧
      ∃ m c, s = Item.ofColumn m c scope ∧ first ≤ m ∧ s.same i = true) items rest := by
    refine ((List.forall₂_and_left _ _).mpr ⟨fun i hi => ⟨hrest i hi, hsource i hi⟩, ?_⟩).flip
    refine ((List.forall₂_and_left _ _).mpr ⟨fun s hs => ?_, hpairs.flip⟩).flip.imp
      (R := fun i s => (∃ m c, s = Item.ofColumn m c scope ∧ first ≤ m) ∧ s.same i = true) ?_
    · obtain ⟨c, -, hs⟩ := exists_of_mem_forall₂ h hs
      exact ⟨s.id, c, hs⟩
    · rintro i s ⟨⟨m, c, hs, hm⟩, hsame⟩
      exact ⟨m, c, hs, hm, hsame⟩
  refine hboth.imp ?_
  rintro s i ⟨⟨hplain, c, hi⟩, m, d, rfl, hm, hsame⟩
  obtain ⟨hcolumn, -⟩ := Item.same_column hsame hi
  cases hcolumn
  exact Item.standsFor_of_same hplain hi hm hsame

/-- Columns of rows behind a stage: nothing else that the select list has denotes the same. -/
theorem unique_of_pairs {items own rest : List Item} {j k : Nat} {h s : Item}
    (hcolumns : Header.IsOfColumns scope first items columns) (hnodup : columns.Nodup)
    (hown : ∀ i ∈ own, i.scalar?.isSome = true)
    (hstands : List.Forall₂ (Item.StandsFor first) items rest) (hk : items[k]? = some h)
    (hj : (own ++ rest)[j]? = some s) (hsame : Item.sameAs true s h = true) :
    j = own.length + k := by
  obtain ⟨c, hc, hofColumn, -⟩ := getElem?_of_forall₂ hcolumns hk
  rw [hofColumn] at hsame
  obtain ⟨hsource, -, hfunction⟩ := Item.sameAs_true_column hsame rfl
  have hle : own.length ≤ j := by
    refine Nat.not_lt.mp fun hlt => ?_
    rw [List.getElem?_append_left hlt] at hj
    have hsome := Item.function_isSome_of_scalar? (hown s (List.mem_of_getElem? hj))
    rw [hfunction] at hsome
    cases hsome
  rw [List.getElem?_append_right hle] at hj
  obtain ⟨h', hh', hs⟩ := getElem?_of_forall₂ hstands.flip hj
  obtain ⟨d, hd, hofColumn', -⟩ := getElem?_of_forall₂ hcolumns hh'
  -- Both read one column, and the columns are different.
  have hsame' : Item.sameAs true h' h' = true := by
    rw [hofColumn']
    exact Item.sameAs_ofColumn true _ _ d scope
  rw [hs.sameAs true h'] at hsame'
  rw [hofColumn'] at hsame'
  obtain ⟨hsource', -⟩ := Item.sameAs_true_column hsame' rfl
  rw [hsource] at hsource'
  cases hsource'
  have hlt : j - own.length < columns.length := (List.getElem?_eq_some_iff.mp hd).1
  have heq := (List.getElem?_inj hlt hnodup).mp (hd.trans hc.symm)
  omega

/-- **Rows that are laid out like the select list are laid out so** but for copies of its plain
columns. -/
theorem laysOut_of_sameLayout {items : List Item}
    (h : Header.IsOfColumns scope first items columns) (hnodup : columns.Nodup)
    (hselect : Selects columns first select)
    (hlayout : Item.sameLayout (scalarStage select ++ items) select = true) :
    Header.LaysOut first (scalarStage select ++ items) select := by
  obtain ⟨own, rest, rfl, hlength, hown, hplain, hpairs⟩ :=
    exists_split_of_sameLayout h hselect hlayout
  have hstage := scalarStage_append hown hplain hlength
  rw [hstage] at hlayout ⊢
  have hbare : own.map Item.withoutAlias = own := by
    have hsame := List.forall₂_take_append _ _ _ (Item.sameLayout_iff.mp hlayout).flip
    rw [List.length_map, List.take_left, List.forall₂_map_right_iff, List.forall₂_same] at hsame
    exact (List.map_congr_left fun i hi => Item.withoutAlias_of_same (hsame i hi)).trans
      (List.map_id own)
  rw [hbare]
  have hold : ∀ i ∈ own, i.id < first := fun i hi => hselect.id_lt i (List.mem_append_left _ hi)
  have hstands := standsFor_of_pairs h hplain hpairs fun i hi => by
    obtain ⟨c, -, hreads⟩ := hselect.reads i (List.mem_append_right _ hi)
    exact ⟨c, hreads.source⟩
  refine ⟨List.rel_append (List.forall₂_same.mpr fun i hi => .self i (hold i hi)) hstands, ?_⟩
  intro j k i s hk hid hj hsame
  have hle : own.length ≤ k := by
    refine Nat.not_lt.mp fun hlt => ?_
    rw [List.getElem?_append_left hlt] at hk
    exact Nat.not_lt.mpr hid (hold i (List.mem_of_getElem? hk))
  rw [List.getElem?_append_right hle] at hk
  have heq := unique_of_pairs h hnodup hown hstands hk hj hsame
  omega

/-- Every item of a select list is readable behind its stage. -/
theorem find?_not_readable (h : Header.IsOfColumns scope first d.header columns)
    (hselect : Selects columns first select) :
    (select.find? fun i => !Header.isReadable (scalarStage select ++ d.header) i) = none := by
  rw [List.find?_eq_none]
  intro i hi
  have heval := evaluate?_stage h hselect (fun _ => .null) hi
  rw [show Header.isReadable (scalarStage select ++ d.header) i = true from
    Row.isReadable_of_evaluate? heval]
  exact Bool.false_ne_true

/-- A projection of the rows behind the stage gives the values of the items that stand in. -/
theorem projected_answers (h : Header.IsOfColumns scope first d.header columns)
    (hnodup : columns.Nodup) (hselect : Selects columns first select) {staged : RowSet}
    (hheader : staged.header = scalarStage select ++ d.header)
    (hrows : staged.Yields (cells.map fun g => ⟨scalarStage select ++ d.header,
      (scalarStage select).map (·.valueIn g) ++ columns.map g, none⟩)) :
    (staged.projected select).Answers first select (selectedValues select cells) := by
  refine ⟨Header.laysOut_self hselect.id_lt, ?_⟩
  unfold projected Yields selectedValues
  simp only [hheader]
  split
  next hlayout =>
    refine ⟨_, laysOut_of_sameLayout h hnodup hselect hlayout, hrows.trans ?_⟩
    rw [List.map_map, List.map_map, List.map_map]
    refine List.map_congr_left fun g _ => ?_
    show Except.ok (Row.mk _ _ none) = Except.ok (Row.mk _ _ none)
    rw [values_of_sameLayout h hselect hlayout g]
  next =>
    refine ⟨select, Header.laysOut_self hselect.id_lt, ?_⟩
    rw [Stream.outcomes_map, hrows, List.map_map, List.map_map, List.map_map, List.map_map]
    refine List.map_congr_left fun g _ => ?_
    have hvalues := valuesOf_eq fun i hi => evaluate?_stage h hselect g hi
    show Row.project _ select = .ok _
    unfold Row.project
    rw [hvalues]
    rfl

/-- **A selection answers the select list** with the values of the items that stand in for it. -/
theorem gives_selection (hd : d.Presents scope first columns cells) (hnodup : columns.Nodup)
    (hfirst : 0 < first) (hselect : Selects columns first select) (l : Ledger) :
    (d.selection select).Gives l fun d' l' =>
      l' = l ∧ d'.Answers first select (selectedValues select cells) := by
  unfold selection
  by_cases hlayout : Item.sameLayout d.header select = true
  · rw [if_pos hlayout]
    have hstage := scalarStage_of_sameLayout hd.header hselect hlayout
    have hstaged : d.header = scalarStage select ++ d.header := by rw [hstage, List.nil_append]
    rw [hstaged] at hlayout
    have hlays := laysOut_of_sameLayout hd.header hnodup hselect hlayout
    rw [← hstaged] at hlays
    refine gives_pure ⟨rfl, hlays, d.header, hlays, hd.rows.trans ?_⟩
    unfold selectedValues
    rw [List.map_map, List.map_map, List.map_map]
    refine List.map_congr_left fun g _ => ?_
    have hvalues := values_of_sameLayout hd.header hselect hlayout g
    rw [hstage, List.map_nil, List.nil_append] at hvalues
    show Except.ok (Row.mk _ _ none) = Except.ok (Row.mk _ _ none)
    rw [hvalues]
  · rw [if_neg hlayout]
    simp only [missingScalars_eq hd.header hselect]
    -- Without scalar functions there is no stage, and the rows are projected as they are.
    split
    next hempty =>
      have hstage : scalarStage select = [] := List.isEmpty_iff.mp hempty
      have hheader : d.header = scalarStage select ++ d.header := by rw [hstage, List.nil_append]
      have hfind := find?_not_readable hd.header hselect
      rw [← hheader] at hfind
      refine gives_bind (gives_pure ?_)
      simp only [hfind]
      refine gives_pure ⟨rfl, projected_answers hd.header hnodup hselect hheader ?_⟩
      rw [hstage]
      exact hd.rows
    next =>
      refine gives_bind ((gives_withScalars hd hfirst
        (fun s hs => hselect.mem_scalarStage hs) l).mono ?_)
      rintro staged _ ⟨rfl, hheader, hrows⟩
      simp only [hheader, find?_not_readable hd.header hselect]
      exact gives_pure ⟨rfl, projected_answers hd.header hnodup hselect hheader hrows⟩

end Selection

/-! ## Columns under a label -/

/-- Columns without a scope are never laid out like columns under a label, unless there are none. -/
theorem eq_nil_of_sameLayout {first own : Nat} {header items : List Item}
    {columns owned : List Column} (hheader : Header.IsOfColumns none first header columns)
    {label : String} (hitems : Header.IsOfColumns (some label) own items owned)
    (hlayout : Item.sameLayout header items = true) : header = [] ∧ items = [] := by
  have hpairs := Item.sameLayout_iff.mp hlayout
  have hnil : items = [] := by
    refine List.eq_nil_iff_forall_not_mem.mpr fun i hi => ?_
    obtain ⟨-, c, -, hreads⟩ := hitems.isPlain hi
    obtain ⟨h, hh, hsame⟩ := exists_of_mem_forall₂ hpairs.flip hi
    have hscope : h.scope = i.scope := (Item.same_column hsame hreads.source).2.1
    obtain ⟨_, -, hunscoped, -⟩ := exists_of_mem_forall₂ hheader hh
    obtain ⟨_, -, hscoped, -⟩ := exists_of_mem_forall₂ hitems hi
    rw [hunscoped, hscoped] at hscope
    cases hscope
  subst hnil
  exact ⟨List.forall₂_nil_right_iff.mp hpairs, rfl⟩

/-- A row of columns has the cells of some of them as the values of their items. -/
theorem valuesOf_columns {scope scope' : Option String} {first own : Nat} {header items : List Item}
    {columns owned : List Column} (hheader : Header.IsOfColumns scope first header columns)
    (hitems : Header.IsOfColumns scope' own items owned) (howned : owned ⊆ columns)
    (hid : ∀ i ∈ items, i.id < first) (g : Column → Value) :
    Row.valuesOf ⟨header, columns.map g, none⟩ items = .ok (owned.map g) := by
  have hread : ∀ i ∈ items, Row.evaluate? ⟨header, columns.map g, none⟩ i =
      some (i.valueIn g) := by
    intro i hi
    obtain ⟨-, c, hc, hreads⟩ := hitems.isPlain hi
    exact Row.evaluate?_columnRow hheader g hreads (howned hc) (hid i hi)
  have hcells : items.map (·.valueIn g) = owned.map g := by
    refine map_eq_map_of_forall₂ hitems fun i _ c hofColumn => ?_
    rw [hofColumn.1]
    rfl
  rw [valuesOf_eq hread, hcells]

/-- **A selection of columns under a label presents the same valuations there.** -/
theorem Presents.gives_scoped {first own : Nat} {columns owned : List Column}
    {cells : List (Column → Value)} {d : RowSet} (hd : d.Presents none first columns cells)
    {label : String} {items : List Item} (hitems : Header.IsOfColumns (some label) own items owned)
    (howned : owned ⊆ columns) (hid : ∀ i ∈ items, i.id < first) (l : Ledger) :
    (d.selection items).Gives l fun d' l' => l' = l ∧ d'.Presents (some label) own owned cells := by
  have hselect : Selects columns first items := by
    refine ⟨fun i hi => ?_, hid, fun i hi hscalar => ?_⟩
    · obtain ⟨-, c, hc, hreads⟩ := hitems.isPlain hi
      exact ⟨c, howned hc, hreads⟩
    · rw [(hitems.isPlain hi).1.scalar?_eq_none] at hscalar
      cases hscalar
  have hstage := scalarStage_of_isPlain fun i hi => (hitems.isPlain hi).1
  by_cases hlayout : Item.sameLayout d.header items = true
  · -- The data set stays as it is, which is right only because it has no columns.
    unfold selection
    rw [if_pos hlayout]
    obtain ⟨hheader, rfl⟩ := eq_nil_of_sameLayout hd.header hitems hlayout
    have hcolumns := hd.header
    rw [hheader] at hcolumns
    refine gives_pure ⟨rfl, ?_, ?_⟩
    · rw [hheader]
      exact hitems
    · rw [List.forall₂_nil_left_iff.mp hitems, ← List.forall₂_nil_left_iff.mp hcolumns]
      exact hd.rows
  · have hfind := find?_not_readable hd.header hselect
    rw [hstage, List.nil_append] at hfind
    have hmissing := (missingScalars_eq hd.header hselect).trans hstage
    rw [selection_eq_projected hlayout hmissing hfind]
    refine gives_pure ⟨rfl, hitems, ?_⟩
    show (if Item.sameLayout d.header items then d.stream
      else d.stream.map (·.project items)).outcomes = _
    rw [if_neg hlayout, Stream.outcomes_map, hd.rows, List.map_map, List.map_map, List.map_map]
    refine List.map_congr_left fun g _ => ?_
    show Row.project _ items = .ok _
    unfold Row.project
    rw [valuesOf_columns hd.header hitems howned hid g]
    rfl

end DocQuery.RowSet
