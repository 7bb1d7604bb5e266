import DocQuery.Proofs.Query.Items
import DocQuery.Proofs.Rows.Reading
import Mathlib.Data.List.Forall2

/-!
# DocQuery.Proofs.Rows.Columns — rows of plain columns

A data set read from a table has items that are plain columns, under one scope or none, with new
identities.  An item that reads one of the columns finds it there by what it denotes, whatever its
own scope, and a scalar function finds what it reads.  So such a row has the value of every item
that reads a column of it (`Row.evaluate?_columnRow`).
-/

namespace DocQuery

/-! ## Finding in parallel lists -/

theorem findIdx?_of_forall₂ {α β : Type} {R : α → β → Prop} {as : List α} {bs : List β}
    (h : List.Forall₂ R as bs) {p : α → Bool} {q : β → Bool} (hpq : ∀ a b, R a b → p a = q b) :
    as.findIdx? p = bs.findIdx? q := by
  induction h with
  | nil => rfl
  | cons hab _ ih => rw [List.findIdx?_cons, List.findIdx?_cons, hpq _ _ hab, ih]

theorem exists_of_mem_forall₂ {α β : Type} {R : α → β → Prop} {as : List α} {bs : List β}
    (h : List.Forall₂ R as bs) {a : α} (ha : a ∈ as) : ∃ b ∈ bs, R a b := by
  induction h with
  | nil => cases ha
  | cons hab _ ih =>
    rcases List.mem_cons.mp ha with rfl | hrest
    · exact ⟨_, List.mem_cons_self, hab⟩
    · obtain ⟨b, hb, hR⟩ := ih hrest
      exact ⟨b, List.mem_cons_of_mem _ hb, hR⟩

theorem getElem?_of_forall₂ {α β : Type} {R : α → β → Prop} {as : List α} {bs : List β}
    (h : List.Forall₂ R as bs) {n : Nat} {a : α} (ha : as[n]? = some a) :
    ∃ b, bs[n]? = some b ∧ R a b := by
  obtain ⟨hlt, rfl⟩ := List.getElem?_eq_some_iff.mp ha
  have hlt' : n < bs.length := h.length_eq ▸ hlt
  exact ⟨bs[n], List.getElem?_eq_getElem hlt', h.get hlt hlt'⟩

theorem map_eq_map_of_forall₂ {α β γ : Type} {R : α → β → Prop} {as : List α} {bs : List β}
    (h : List.Forall₂ R as bs) {f : α → γ} {g : β → γ}
    (hfg : ∀ a ∈ as, ∀ b, R a b → f a = g b) : as.map f = bs.map g := by
  induction h with
  | nil => rfl
  | cons hab _ ih =>
    rw [List.forall_mem_cons] at hfg
    rw [List.map_cons, List.map_cons, hfg.1 _ hab, ih hfg.2]

theorem pairwise_of_forall₂ {α β : Type} {R : α → α → Prop} {S : α → β → Prop}
    {T : β → β → Prop} {as : List α} {bs : List β} (h : List.Forall₂ S as bs) (hR : as.Pairwise R)
    (himp : ∀ a ∈ as, ∀ a' ∈ as, ∀ b b', R a a' → S a b → S a' b' → T b b') :
    bs.Pairwise T := by
  induction h with
  | nil => exact .nil
  | @cons a b as bs hab hrest ih =>
    rw [List.pairwise_cons] at hR ⊢
    constructor
    · intro b' hb'
      obtain ⟨a', ha', hab'⟩ := exists_of_mem_forall₂ hrest.flip hb'
      exact himp a List.mem_cons_self a' (List.mem_cons_of_mem a ha') b b' (hR.1 a' ha') hab hab'
    · exact ih hR.2 fun c hc c' hc' =>
        himp c (List.mem_cons_of_mem a hc) c' (List.mem_cons_of_mem a hc')

/-- A column among others has a place, and its cell stands there. -/
theorem exists_cell {columns : List Column} {c : Column} (hc : c ∈ columns) :
    ∃ n, columns.findIdx? (· == c) = some n ∧
      ∀ cells : Column → Value, (columns.map cells)[n]? = some (cells c) := by
  obtain ⟨n, hn⟩ : ∃ n, columns.findIdx? (· == c) = some n :=
    Option.isSome_iff_exists.mp (by simpa using hc)
  obtain ⟨hlt, heq, -⟩ := List.findIdx?_eq_some_iff_getElem.mp hn
  refine ⟨n, hn, fun cells => ?_⟩
  rw [List.getElem?_map, List.getElem?_eq_getElem hlt, beq_iff_eq.mp heq]
  rfl

namespace Header

/-! ## Headers of columns -/

/-- The items are these columns under a scope, with identities from `first` on. -/
def IsOfColumns (scope : Option String) (first : Nat) (items : List Item) (columns : List Column) :
    Prop :=
  List.Forall₂ (fun h c => h = Item.ofColumn h.id c scope ∧ first ≤ h.id) items columns

variable {scope : Option String} {first : Nat} {items : List Item} {columns : List Column}

theorem IsOfColumns.isPlain (h : IsOfColumns scope first items columns) {i : Item}
    (hi : i ∈ items) : i.IsPlain ∧ ∃ c ∈ columns, i.Reads c := by
  obtain ⟨c, hc, hofColumn, -⟩ := exists_of_mem_forall₂ h hi
  have hplain : i.IsPlain := by
    rw [hofColumn]
    exact ⟨rfl, rfl, rfl⟩
  have hsource : i.source = .column c := by
    rw [hofColumn]
    rfl
  exact ⟨hplain, c, hc, hsource, Or.inl hplain⟩

/-- Columns under identities that are counted from one on. -/
theorem isOfColumns_zipIdx (columns : List Column) (scope : Option String) (first : Nat) :
    IsOfColumns scope first
      ((columns.zipIdx first).map fun (c, id) => Item.ofColumn id c scope) columns := by
  have hall : ∀ start, first ≤ start → IsOfColumns scope first
      ((columns.zipIdx start).map fun (c, id) => Item.ofColumn id c scope) columns := by
    induction columns with
    | nil => exact fun _ _ => .nil
    | cons c rest ih =>
      intro start hstart
      exact .cons ⟨rfl, hstart⟩ (ih (start + 1) (Nat.le_succ_of_le hstart))
  exact hall first (Nat.le_refl first)

theorem IsOfColumns.filterMap_eq (h : IsOfColumns scope first items columns)
    {read : Item → Option Column} (hread : ∀ id c, read (Item.ofColumn id c scope) = some c) :
    items.filterMap read = columns := by
  induction h with
  | nil => rfl
  | cons hic _ ih =>
    rw [hic.1, List.filterMap_cons_some (hread _ _), ih]

/-- Gathering items without repetitions is gathering their columns so. -/
theorem IsOfColumns.foldl_pushNew {more : List Item} {moreColumns : List Column}
    (h : IsOfColumns scope first items columns)
    (hmore : IsOfColumns scope first more moreColumns) :
    IsOfColumns scope first (more.foldl Item.pushNew items)
      (moreColumns.foldl addColumn columns) := by
  induction hmore generalizing items columns with
  | nil => exact h
  | @cons i c more moreColumns hic _ ih =>
    rw [List.foldl_cons, List.foldl_cons]
    refine ih ?_
    have hany : items.any (Item.sameAs true · i) = columns.contains c := by
      rw [List.contains_eq_any_beq, ← List.findIdx?_isSome, ← List.findIdx?_isSome]
      refine congrArg Option.isSome (findIdx?_of_forall₂ h fun j d hjd => ?_)
      rw [hjd.1, hic.1, Item.sameAs_ofColumn_plain true _ _ rfl ⟨rfl, rfl, rfl⟩]
      simp [Item.ofColumn, Item.plain, eq_comm]
    unfold Item.pushNew addColumn
    rw [hany]
    split
    · exact h
    · exact List.rel_append h (.cons hic .nil)

theorem IsOfColumns.gathered (h : IsOfColumns scope first items columns) :
    IsOfColumns scope first (items.foldl Item.pushNew []) (distinctColumns columns) :=
  IsOfColumns.foldl_pushNew .nil h

theorem IsOfColumns.findIdx?_id (h : IsOfColumns scope first items columns) {i : Item}
    (hi : i.id < first) : items.findIdx? (fun c => c.id == i.id) = none := by
  have hnone := findIdx?_of_forall₂ h (p := fun c => c.id == i.id) (q := fun _ => false)
    fun a b hab => beq_false_of_ne (by omega)
  rw [hnone]
  simp

/-- A plain item is found where its column is, in its own scope or in another one. -/
theorem IsOfColumns.find?_plain (h : IsOfColumns scope first items columns) {i : Item} {c : Column}
    (hsource : i.source = .column c) (hplain : i.IsPlain) (hi : i.id < first) :
    find? items i = columns.findIdx? (· == c) := by
  have hsame (strict : Bool) : items.findIdx? (Item.sameAs strict · i) =
      columns.findIdx? fun d => (!strict || scope == i.scope) && d == c := by
    refine findIdx?_of_forall₂ h fun a b hab => ?_
    rw [hab.1]
    exact Item.sameAs_ofColumn_plain strict _ _ hsource hplain
  unfold find?
  rw [h.findIdx?_id hi, hsame true, hsame false]
  -- Under the same scope the second search finds the column, under another one only the third.
  by_cases hscope : scope == i.scope
  · cases hfind : columns.findIdx? (· == c) <;> simp [hscope, hfind]
  · have hnone : columns.findIdx? (fun _ => false) = none := by simp
    simp [hscope, hnone]

/-- A scalar function is not among plain columns. -/
theorem IsOfColumns.find?_scalar (h : IsOfColumns scope first items columns) {i : Item} {c : Column}
    (hsource : i.source = .column c) (hscalar : i.scalar?.isSome = true) (hi : i.id < first) :
    find? items i = none := by
  have hfunction := Item.function_isSome_of_scalar? hscalar
  have hsame (strict : Bool) : items.findIdx? (Item.sameAs strict · i) = none := by
    have hnone := findIdx?_of_forall₂ h (p := (Item.sameAs strict · i)) (q := fun _ => false)
      fun a b hab => by
        refine Item.sameAs_eq_false_of_function_ne strict (c := b) ?_ hsource ?_
        · rw [hab.1]
          rfl
        · rw [hab.1]
          intro heq
          rw [← heq] at hfunction
          cases hfunction
    rw [hnone]
    simp
  unfold find?
  rw [h.findIdx?_id hi, hsame true, hsame false]
  rfl

theorem IsOfColumns.find?_bare (h : IsOfColumns scope first items columns) {i : Item} {c : Column}
    (hi : i.Reads c) (hfirst : 0 < first) : find? items i.bare = columns.findIdx? (· == c) :=
  h.find?_plain hi.bare.1 hi.bare.2 hfirst

/-- **An item that reads a column is found where the column is**, a scalar function with its function
still to be applied. -/
theorem IsOfColumns.resolve?_reads (h : IsOfColumns scope first items columns) {i : Item}
    {c : Column} (hreads : i.Reads c) (hi : i.id < first) :
    resolve? items i = (columns.findIdx? (· == c)).map (⟨·, i.scalar?.isSome⟩) := by
  unfold resolve?
  rcases hreads.use with hplain | hscalar
  · rw [h.find?_plain hreads.source hplain hi, hplain.scalar?_eq_none]
    cases columns.findIdx? (· == c) <;> rfl
  · rw [h.find?_scalar hreads.source hscalar hi, h.find?_bare hreads (by omega), hscalar]
    rfl

end Header

/-! ## Values -/

namespace Item

/-- The value of an item over the cells of columns. -/
def valueIn (cells : Column → Value) (i : Item) : Value :=
  Row.applyScalar i ((i.column?.map cells).getD .null)

theorem Reads.valueIn {i : Item} {c : Column} (h : i.Reads c) (cells : Column → Value) :
    i.valueIn cells = Row.applyScalar i (cells c) := by
  unfold Item.valueIn
  rw [h.column?]
  rfl

/-- What is the same has the same value, if its parameters are not just the same but equal. -/
theorem valueIn_eq_of_sameAs {a b : Item} {c : Column} (h : sameAs true a b = true)
    (hb : b.source = .column c) (hparameters : a.parameters = b.parameters)
    (cells : Column → Value) : a.valueIn cells = b.valueIn cells := by
  obtain ⟨hsource, -, hfunction⟩ := sameAs_true_column h hb
  unfold Item.valueIn Row.applyScalar Item.scalar? Item.column?
  rw [hsource, hb, hfunction, hparameters]

theorem valueIn_withoutAlias (i : Item) (cells : Column → Value) :
    i.withoutAlias.valueIn cells = i.valueIn cells := rfl

end Item

namespace Row

/-- The value at the place of a column among some columns. -/
theorem value_columns {header : List Item} {columns : List Column} {c : Column} (hc : c ∈ columns)
    (cells : Column → Value) (styles : Option (List (Option Style))) :
    value ⟨header, columns.map cells, styles⟩ ((columns.findIdx? (· == c)).getD 0) = cells c := by
  obtain ⟨n, hn, hcell⟩ := exists_cell hc
  unfold value
  rw [hn]
  show ((columns.map cells)[n]?).getD .null = cells c
  rw [hcell]
  rfl

theorem range_map_value (header : List Item) (values : List Value) :
    (List.range values.length).map (value ⟨header, values, none⟩) = values := by
  refine List.ext_getElem (by simp) fun n h h' => ?_
  simp [value, List.getElem?_eq_getElem h']

theorem applyScalar_of_isPlain {i : Item} (h : i.IsPlain) (v : Value) : applyScalar i v = v := by
  unfold applyScalar
  rw [h.scalar?_eq_none]

/-- **A row of columns has the value of every item that reads one of them.** -/
theorem evaluate?_columnRow {scope : Option String} {first : Nat} {items : List Item}
    {columns : List Column} (h : Header.IsOfColumns scope first items columns)
    (cells : Column → Value) {i : Item} {c : Column} (hreads : i.Reads c) (hc : c ∈ columns)
    (hi : i.id < first) :
    evaluate? ⟨items, columns.map cells, none⟩ i = some (i.valueIn cells) := by
  obtain ⟨n, hn, hcell⟩ := exists_cell hc
  have hvalue : value ⟨items, columns.map cells, none⟩ n = cells c := by
    unfold value
    rw [hcell]
    rfl
  have hlocate := locate?_of_resolve? (r := ⟨items, columns.map cells, none⟩)
    ((h.resolve?_reads hreads hi).trans (congrArg _ hn))
  unfold evaluate?
  rw [hlocate, hreads.valueIn]
  simp only [Option.map_some, hvalue]
  cases hscalar : i.scalar? with
  | some f => rfl
  | none => simp [applyScalar, hscalar]

end Row

end DocQuery
