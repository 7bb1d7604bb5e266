import DocQuery.Rows.Header
import Mathlib.Data.List.Forall2

/-!
# DocQuery.Proofs.Query.Items — columns and scalar functions of columns

The items that a query over one table consists of read one column each: the column itself or a
scalar function of it (`Item.Reads`).  Gathering items and columns without repetitions loses none:
what is left out is the same as something kept (`Item.exists_mem_foldl_pushNew`).
-/

namespace DocQuery

/-! ## Lists without repetitions -/

section Gathering

variable {α : Type} {r : α → α → Bool} {kept more : List α} {a b : α}

/-- A list with one more element, unless one in it counts as the same. -/
abbrev addNew (r : α → α → Bool) (kept : List α) (a : α) : List α :=
  if kept.any (r · a) then kept else kept ++ [a]

theorem mem_addNew (h : b ∈ addNew r kept a) : b ∈ kept ∨ b = a := by
  unfold addNew at h
  split at h
  · exact Or.inl h
  · exact (List.mem_append.mp h).imp_right List.mem_singleton.mp

theorem mem_of_mem_foldl_addNew (h : b ∈ more.foldl (addNew r) kept) : b ∈ kept ∨ b ∈ more := by
  induction more generalizing kept with
  | nil => exact Or.inl h
  | cons a rest ih =>
    rw [List.foldl_cons] at h
    rcases ih h with hkept | hrest
    · exact (mem_addNew hkept).imp_right fun heq => List.mem_cons.mpr (Or.inl heq)
    · exact Or.inr (List.mem_cons_of_mem _ hrest)

theorem pairwise_foldl_addNew (h : kept.Pairwise fun a b => r a b = false) :
    (more.foldl (addNew r) kept).Pairwise fun a b => r a b = false := by
  induction more generalizing kept with
  | nil => exact h
  | cons a rest ih =>
    rw [List.foldl_cons]
    refine ih ?_
    unfold addNew
    split
    · exact h
    next hnone =>
      refine List.pairwise_append.mpr ⟨h, List.pairwise_singleton _ _, fun b hb c hc => ?_⟩
      rw [List.any_eq_true, not_exists] at hnone
      rw [List.mem_singleton.mp hc]
      exact Bool.eq_false_iff.mpr fun hsame => hnone b ⟨hb, hsame⟩

/-- Elements of which none counts as an earlier one are all kept. -/
theorem foldl_addNew_of_pairwise (h : (kept ++ more).Pairwise fun a b => r a b = false) :
    more.foldl (addNew r) kept = kept ++ more := by
  induction more generalizing kept with
  | nil => exact (List.append_nil kept).symm
  | cons a rest ih =>
    have hnew : kept.any (r · a) = false := by
      rw [List.any_eq_false]
      intro b hb
      rw [(List.pairwise_append.mp h).2.2 b hb a List.mem_cons_self]
      exact Bool.false_ne_true
    rw [List.foldl_cons, addNew, hnew, if_neg Bool.false_ne_true, ih, List.append_assoc]
    · rfl
    · rw [List.append_assoc]
      exact h

/-- **Leaving out repetitions once more changes nothing.** -/
theorem foldl_addNew_foldl_addNew (r : α → α → Bool) (more : List α) :
    (more.foldl (addNew r) []).foldl (addNew r) [] = more.foldl (addNew r) [] :=
  foldl_addNew_of_pairwise (pairwise_foldl_addNew List.Pairwise.nil)

theorem length_foldl_addNew_le (r : α → α → Bool) (kept more : List α) :
    (more.foldl (addNew r) kept).length ≤ kept.length + more.length := by
  induction more generalizing kept with
  | nil => exact Nat.le_refl _
  | cons a rest ih =>
    have hadd : (addNew r kept a).length ≤ kept.length + 1 := by
      unfold addNew
      split <;> simp
    have hrest := ih (addNew r kept a)
    rw [List.foldl_cons, List.length_cons]
    omega

/-- If nothing was left out, the elements were gathered in their order. -/
theorem foldl_addNew_eq_append
    (h : (more.foldl (addNew r) kept).length = kept.length + more.length) :
    more.foldl (addNew r) kept = kept ++ more := by
  induction more generalizing kept with
  | nil => exact (List.append_nil kept).symm
  | cons a rest ih =>
    rw [List.foldl_cons, List.length_cons] at h
    have hle := length_foldl_addNew_le r (addNew r kept a) rest
    by_cases hany : kept.any (r · a) = true
    · rw [addNew, if_pos hany] at h hle
      omega
    · have hadd : addNew r kept a = kept ++ [a] := by rw [addNew, if_neg hany]
      rw [hadd] at h
      rw [List.foldl_cons, hadd, ih, List.append_assoc]
      · rfl
      · rw [h, List.length_append, List.length_singleton]
        omega

/-- Gathering and leaving out what a test tells apart may be done in either order. -/
theorem filter_foldl_addNew {p : α → Bool} (hp : ∀ a b, r a b = true → p a = p b) :
    (more.foldl (addNew r) kept).filter p = (more.filter p).foldl (addNew r) (kept.filter p) := by
  induction more generalizing kept with
  | nil => rfl
  | cons a rest ih =>
    rw [List.foldl_cons, ih]
    cases ha : p a with
    | true =>
      -- What counts as the same is told apart alike, so it is among what is left.
      have hany : (kept.filter p).any (r · a) = kept.any (r · a) := by
        rw [Bool.eq_iff_iff, List.any_eq_true, List.any_eq_true]
        constructor
        · rintro ⟨b, hb, hsame⟩
          exact ⟨b, List.mem_of_mem_filter hb, hsame⟩
        · rintro ⟨b, hb, hsame⟩
          exact ⟨b, List.mem_filter.mpr ⟨hb, (hp b a hsame).trans ha⟩, hsame⟩
      rw [List.filter_cons_of_pos ha, List.foldl_cons]
      unfold addNew
      rw [hany]
      split
      · rfl
      · rw [List.filter_append, List.filter_singleton, ha]
        rfl
    | false =>
      have hnew : (addNew r kept a).filter p = kept.filter p := by
        unfold addNew
        split
        · rfl
        · rw [List.filter_append, List.filter_singleton, ha]
          exact List.append_nil _
      rw [List.filter_cons_of_neg (by simp [ha]), hnew]

end Gathering

namespace Item

/-! ## Items that read a column -/

/-- An item without a function, or anything that belongs to one. -/
structure IsPlain (i : Item) : Prop where
  function : i.function = none
  parameters : i.parameters = []
  approximate : i.approximate = false

/-- The item is a column or a scalar function of it. -/
structure Reads (i : Item) (c : Column) : Prop where
  source : i.source = .column c
  use : i.IsPlain ∨ i.scalar?.isSome = true

instance (i : Item) : Decidable i.IsPlain :=
  decidable_of_iff (i.function = none ∧ i.parameters = [] ∧ i.approximate = false)
    ⟨fun h => ⟨h.1, h.2.1, h.2.2⟩, fun h => ⟨h.function, h.parameters, h.approximate⟩⟩

theorem IsPlain.scalar?_eq_none {i : Item} (h : i.IsPlain) : i.scalar? = none := by
  unfold scalar?
  rw [h.function]
  rfl

theorem column?_eq_some_iff {i : Item} {c : Column} : i.column? = some c ↔ i.source = .column c := by
  unfold column?
  cases i.source <;> simp

instance (i : Item) (c : Column) : Decidable (i.Reads c) :=
  decidable_of_iff (i.column? = some c ∧ (i.IsPlain ∨ i.scalar?.isSome = true))
    ⟨fun h => ⟨column?_eq_some_iff.mp h.1, h.2⟩, fun h => ⟨column?_eq_some_iff.mpr h.source, h.use⟩⟩

theorem function_isSome_of_scalar? {i : Item} (h : i.scalar?.isSome = true) :
    i.function.isSome = true := by
  unfold scalar? at h
  cases hf : i.function with
  | none => simp [hf] at h
  | some f => rfl

theorem Reads.column? {i : Item} {c : Column} (h : i.Reads c) : i.column? = some c := by
  unfold Item.column?
  rw [h.source]

theorem Reads.aggregate? {i : Item} {c : Column} (h : i.Reads c) : i.aggregate? = none := by
  rcases h.use with hplain | hscalar
  · unfold Item.aggregate?
    rw [hplain.function]
    rfl
  · unfold scalar? at hscalar
    unfold Item.aggregate?
    cases hf : i.function with
    | none => rfl
    | some f =>
      rw [hf] at hscalar
      cases f <;> first | rfl | (exact absurd hscalar (by decide))

theorem Reads.expression? {i : Item} {c : Column} (h : i.Reads c) : i.expression? = none := by
  unfold Item.expression?
  rw [h.source]

theorem Reads.isCountAll {i : Item} {c : Column} (h : i.Reads c) : i.isCountAll = false := by
  unfold Item.isCountAll
  rw [h.source]

theorem Reads.inner? {i : Item} {c : Column} (h : i.Reads c) : i.inner? = none := by
  unfold Item.inner?
  rw [h.source]

/-- Without its function, an item still reads its column. -/
theorem Reads.bare {i : Item} {c : Column} (h : i.Reads c) :
    i.bare.source = .column c ∧ i.bare.IsPlain := by
  refine ⟨?_, ⟨rfl, rfl, rfl⟩⟩
  show i.sourceUnder none = _
  unfold sourceUnder
  rw [h.isCountAll, h.source]
  rfl

theorem Reads.withoutAlias {i : Item} {c : Column} (h : i.Reads c) : i.withoutAlias.Reads c :=
  ⟨h.source, h.use.imp (fun p => ⟨p.function, p.parameters, p.approximate⟩) fun s => s⟩

/-! ## The count of all rows -/

/-- The count of all rows is the count of the expression that stands for all columns. -/
theorem source_of_isCountAll {i : Item} (h : i.isCountAll = true) :
    i.source = .expression "*" ∧ i.function = some .count := by
  unfold isCountAll at h
  split at h
  next hsource => exact ⟨hsource, beq_iff_eq.mp h⟩
  next => cases h

theorem aggregate?_of_isCountAll {i : Item} (h : i.isCountAll = true) :
    i.aggregate? = some .count := by
  unfold aggregate?
  rw [(source_of_isCountAll h).2]
  rfl

theorem expression?_of_isCountAll {i : Item} (h : i.isCountAll = true) : i.expression? = none := by
  unfold expression?
  rw [(source_of_isCountAll h).1, h]
  rfl

theorem column?_of_isCountAll {i : Item} (h : i.isCountAll = true) : i.column? = none := by
  unfold column?
  rw [(source_of_isCountAll h).1]

/-- Without its function an item reads the same column, if it reads one. -/
theorem column?_bare (i : Item) : i.bare.column? = i.column? := by
  unfold bare withFunction sourceUnder
  cases hcount : i.isCountAll with
  | true =>
    rw [column?_of_isCountAll hcount]
    rfl
  | false => rfl

/-- Without parameters the count of all rows is the same as itself. -/
theorem sameAs_self_of_isCountAll {i : Item} (h : i.isCountAll = true)
    (hparameters : i.parameters = []) (strict : Bool) : sameAs strict i i = true := by
  have hsource := (source_of_isCountAll h).1
  obtain ⟨id, source, function, parameters, approximate, scope, aliasName⟩ := i
  obtain rfl : source = .expression "*" := hsource
  obtain rfl : parameters = [] := hparameters
  simp [sameAs, sameUse, sameParameters]

/-! ## References -/

theorem source_of_inner? {i x : Item} (h : i.inner? = some x) : i.source = .inner x := by
  unfold inner? at h
  split at h
  next y hy =>
    cases h
    exact hy
  next => cases h

/-- Under any function or none, a reference refers to the same item. -/
theorem inner?_withFunction {i x : Item} (h : i.inner? = some x) (id : Nat)
    (function : Option Builtin) : (i.withFunction id function).inner? = some x := by
  have hsource := source_of_inner? h
  have hcount : i.isCountAll = false := by
    unfold isCountAll
    rw [hsource]
  unfold inner? withFunction sourceUnder
  rw [hcount, hsource]
  rfl

/-! ## Sameness -/

theorem sameAs_of_columns {a b : Item} {c d : Column} (strict : Bool) (ha : a.source = .column c)
    (hb : b.source = .column d) : sameAs strict a b = (sameUse strict a b && c == d) := by
  obtain ⟨_, sa, _, _, _, _, _⟩ := a
  obtain ⟨_, sb, _, _, _, _, _⟩ := b
  simp only at ha hb
  subst ha hb
  rfl

theorem sameUse_of_sameAs {strict : Bool} {a b : Item} (h : sameAs strict a b = true) :
    sameUse strict a b = true := by
  obtain ⟨_, sa, _, _, _, _, _⟩ := a
  obtain ⟨_, sb, _, _, _, _, _⟩ := b
  cases sa <;> cases sb <;> simp only [sameAs, Bool.and_eq_true, Bool.false_eq_true] at h
  all_goals first | exact h.1 | exact h

/-- Items that are the same have the same function. -/
theorem function_of_sameAs {strict : Bool} {a b : Item} (h : sameAs strict a b = true) :
    a.function = b.function := by
  have huse := sameUse_of_sameAs h
  simp only [sameUse, Bool.and_eq_true, beq_iff_eq] at huse
  exact huse.1.1.2

/-- Items that are the same within a scope have the same one. -/
theorem scope_of_sameAs {a b : Item} (h : sameAs true a b = true) : a.scope = b.scope := by
  have huse := sameUse_of_sameAs h
  simp only [sameUse, Bool.not_true, Bool.false_or, Bool.and_eq_true, beq_iff_eq] at huse
  exact huse.1.1.1

/-- Items that denote the same refer to nothing, or to items that denote the same. -/
theorem inner?_of_sameAs {strict : Bool} {a b : Item} (h : sameAs strict a b = true) :
    (a.inner? = none ∧ b.inner? = none) ∨
      ∃ x y, a.inner? = some x ∧ b.inner? = some y ∧ sameAs strict x y = true := by
  obtain ⟨_, sa, _, _, _, _, _⟩ := a
  obtain ⟨_, sb, _, _, _, _, _⟩ := b
  cases sa <;> cases sb <;> simp only [sameAs, Bool.and_eq_true, Bool.false_eq_true] at h
  case inner.inner x y => exact Or.inr ⟨x, y, rfl, rfl, h.2⟩
  all_goals exact Or.inl ⟨rfl, rfl⟩

theorem column?_of_sameAs {strict : Bool} {a b : Item} (h : sameAs strict a b = true) :
    a.column? = b.column? := by
  obtain ⟨_, sa, _, _, _, _, _⟩ := a
  obtain ⟨_, sb, _, _, _, _, _⟩ := b
  cases sa <;> cases sb <;> simp only [sameAs, Bool.and_eq_true, Bool.false_eq_true] at h
  case column.column => exact congrArg some (beq_iff_eq.mp h.2)
  all_goals rfl

theorem aggregate?_of_sameAs {strict : Bool} {a b : Item} (h : sameAs strict a b = true) :
    a.aggregate? = b.aggregate? := by
  unfold aggregate?
  rw [function_of_sameAs h]

/-- Items of tables that are the same in one scope read the same without their functions. -/
theorem bare_of_sameAs {a b : Item} (h : sameAs true a b = true) (hb : b.inner? = none) :
    a.isCountAll = b.isCountAll ∧ a.bare = b.bare := by
  obtain ⟨_, sa, fa, _, _, scope, _⟩ := a
  obtain ⟨_, sb, fb, _, _, scope', _⟩ := b
  have hfunction : fa = fb := function_of_sameAs h
  subst hfunction
  cases sa <;> cases sb <;>
    simp only [sameAs, sameUse, Bool.and_eq_true, Bool.false_eq_true, Bool.not_true, Bool.false_or,
      beq_iff_eq] at h
  case column.column =>
    obtain ⟨⟨⟨⟨rfl, -⟩, -⟩, -⟩, rfl⟩ := h
    exact ⟨rfl, rfl⟩
  case expression.expression =>
    obtain ⟨⟨⟨⟨rfl, -⟩, -⟩, -⟩, rfl⟩ := h
    exact ⟨rfl, rfl⟩
  case nothing.nothing =>
    obtain ⟨⟨⟨rfl, -⟩, -⟩, -⟩ := h
    exact ⟨rfl, rfl⟩
  case inner.inner => cases hb

theorem sameAs_withoutAlias (strict : Bool) (a b : Item) :
    sameAs strict a b.withoutAlias = sameAs strict a b := by
  obtain ⟨_, sa, _, _, _, _, _⟩ := a
  obtain ⟨_, sb, _, _, _, _, _⟩ := b
  cases sa <;> cases sb <;> rfl

theorem withoutAlias_sameAs (strict : Bool) (a b : Item) :
    sameAs strict a.withoutAlias b = sameAs strict a b := by
  obtain ⟨_, sa, _, _, _, _, _⟩ := a
  obtain ⟨_, sb, _, _, _, _, _⟩ := b
  cases sa <;> cases sb <;> rfl

/-- A column item is the same as another plain item if the columns are equal, and with `strict` the
scopes as well. -/
theorem sameAs_ofColumn_plain {i : Item} {c d : Column} (strict : Bool) (id : Nat)
    (scope : Option String) (hi : i.source = .column d) (hplain : i.IsPlain) :
    sameAs strict (ofColumn id c scope) i = ((!strict || scope == i.scope) && c == d) := by
  rw [sameAs_of_columns strict rfl hi]
  unfold sameUse
  rw [hplain.function, hplain.parameters, hplain.approximate]
  simp [ofColumn, plain, sameParameters]

/-- Items with different functions are not the same. -/
theorem sameAs_eq_false_of_function_ne {a b : Item} {c d : Column} (strict : Bool)
    (ha : a.source = .column c) (hb : b.source = .column d) (h : a.function ≠ b.function) :
    sameAs strict a b = false := by
  rw [sameAs_of_columns strict ha hb]
  unfold sameUse
  rw [beq_false_of_ne h]
  simp

/-- What is the same in one scope reads the same column in the same scope. -/
theorem sameAs_true_column {a b : Item} {c : Column} (h : sameAs true a b = true)
    (hb : b.source = .column c) :
    a.source = .column c ∧ a.scope = b.scope ∧ a.function = b.function := by
  obtain ⟨_, sa, _, _, _, _, _⟩ := a
  obtain ⟨_, sb, _, _, _, _, _⟩ := b
  simp only at hb
  subst hb
  cases sa with
  | column d =>
    simp only [sameAs, sameUse, Bool.not_true, Bool.false_or, Bool.and_eq_true, beq_iff_eq] at h
    obtain ⟨⟨⟨⟨hscope, hfunction⟩, -⟩, -⟩, rfl⟩ := h
    exact ⟨rfl, hscope, hfunction⟩
  | expression text => cases h
  | inner item => cases h
  | nothing => cases h

theorem sameAs_of_same {a b : Item} (h : same a b = true) : sameAs true a b = true :=
  (Bool.and_eq_true_iff.mp h).2

theorem same_column {a b : Item} {c : Column} (h : same a b = true) (hb : b.source = .column c) :
    a.source = .column c ∧ a.scope = b.scope ∧ a.function = b.function := by
  rw [same, Bool.and_eq_true] at h
  exact sameAs_true_column h.2 hb

/-- An item that is equal to itself without its alias has none. -/
theorem withoutAlias_of_same {i : Item} (h : same i.withoutAlias i = true) : i.withoutAlias = i := by
  rw [same, Bool.and_eq_true, beq_iff_eq] at h
  obtain ⟨_, _, _, _, _, _, aliasName⟩ := i
  cases h.1
  rfl

theorem sameLayout_iff {as bs : List Item} :
    sameLayout as bs = true ↔ List.Forall₂ (fun a b => same a b = true) as bs := by
  induction as generalizing bs with
  | nil => cases bs <;> simp [sameLayout]
  | cons a as ih => cases bs <;> simp [sameLayout, ih]

/-! ## Gathering without repetitions -/

theorem mem_of_mem_foldl_pushNew {items more : List Item} {j : Item}
    (h : j ∈ more.foldl pushNew items) : j ∈ items ∨ j ∈ more :=
  mem_of_mem_foldl_addNew (r := sameAs true) h

theorem foldl_pushNew_foldl_pushNew (more : List Item) :
    (more.foldl pushNew []).foldl pushNew [] = more.foldl pushNew [] :=
  foldl_addNew_foldl_addNew (sameAs true) more

theorem length_foldl_pushNew_le (items more : List Item) :
    (more.foldl pushNew items).length ≤ items.length + more.length :=
  length_foldl_addNew_le (sameAs true) items more

/-- If nothing was left out, the items were gathered in their order. -/
theorem foldl_pushNew_eq_append {items more : List Item}
    (h : (more.foldl pushNew items).length = items.length + more.length) :
    more.foldl pushNew items = items ++ more :=
  foldl_addNew_eq_append (r := sameAs true) h

/-- What is gathered behind items is some of what there is to gather. -/
theorem exists_foldl_pushNew_eq_append (items more : List Item) :
    ∃ rest, more.foldl pushNew items = items ++ rest ∧ rest ⊆ more := by
  induction more generalizing items with
  | nil => exact ⟨[], (List.append_nil items).symm, List.Subset.refl []⟩
  | cons i more ih =>
    obtain ⟨rest, heq, hsub⟩ := ih (pushNew items i)
    rw [List.foldl_cons, heq]
    unfold pushNew
    split
    · exact ⟨rest, rfl, List.subset_cons_of_subset i hsub⟩
    · exact ⟨i :: rest, List.append_assoc _ _ _, List.cons_subset_cons i hsub⟩

theorem subset_pushNew (items : List Item) (i : Item) : items ⊆ pushNew items i := by
  intro j hj
  unfold pushNew
  split
  · exact hj
  · exact List.mem_append_left _ hj

theorem subset_foldl_pushNew (items more : List Item) : items ⊆ more.foldl pushNew items := by
  induction more generalizing items with
  | nil => exact fun _ h => h
  | cons i rest ih => exact fun j hj => ih _ (subset_pushNew items i hj)

/-- **Nothing gets lost**: an item that was left out is the same as one that was kept. -/
theorem exists_mem_foldl_pushNew {items more : List Item} {i : Item} (h : i ∈ more) :
    ∃ j ∈ more.foldl pushNew items, j = i ∨ sameAs true j i = true := by
  induction more generalizing items with
  | nil => cases h
  | cons first rest ih =>
    rw [List.foldl_cons]
    rcases List.mem_cons.mp h with rfl | hrest
    · by_cases hany : items.any (sameAs true · i)
      · obtain ⟨j, hj, hsame⟩ := List.any_eq_true.mp hany
        exact ⟨j, subset_foldl_pushNew _ _ (subset_pushNew items i hj), Or.inr hsame⟩
      · refine ⟨i, subset_foldl_pushNew _ _ ?_, Or.inl rfl⟩
        unfold pushNew
        rw [if_neg hany]
        exact List.mem_append_right _ List.mem_cons_self
    · exact ih hrest

end Item

/-! ## Columns, each once -/

/-- The columns with one more, unless it is among them. -/
abbrev addColumn (kept : List Column) (c : Column) : List Column :=
  if kept.contains c then kept else kept ++ [c]

theorem addColumn_eq_addNew : addColumn = addNew (fun c d : Column => c == d) := by
  funext kept c
  unfold addColumn addNew
  rw [List.contains_eq_any_beq]
  simp only [Bool.beq_comm]

theorem mem_addColumn {kept : List Column} {c d : Column} :
    d ∈ addColumn kept c ↔ d ∈ kept ∨ d = c := by
  unfold addColumn
  split
  next h =>
    refine ⟨Or.inl, fun hd => hd.elim id fun heq => ?_⟩
    rw [heq]
    exact List.contains_iff_mem.mp h
  next => simp

theorem nodup_foldl_addColumn {kept more : List Column} (h : kept.Nodup) :
    (more.foldl addColumn kept).Nodup := by
  induction more generalizing kept with
  | nil => exact h
  | cons c rest ih =>
    rw [List.foldl_cons]
    refine ih ?_
    unfold addColumn
    split
    · exact h
    next hnew =>
      rw [List.contains_iff_mem] at hnew
      exact List.nodup_append.mpr ⟨h, by simp, fun a ha b hb heq =>
        hnew (List.mem_singleton.mp hb ▸ heq ▸ ha)⟩

theorem mem_foldl_addColumn {kept more : List Column} {d : Column} :
    d ∈ more.foldl addColumn kept ↔ d ∈ kept ∨ d ∈ more := by
  induction more generalizing kept with
  | nil => simp
  | cons c rest ih => rw [List.foldl_cons, ih, mem_addColumn, List.mem_cons, or_assoc]

/-- Columns, each once. -/
def distinctColumns (columns : List Column) : List Column := columns.foldl addColumn []

section Distinct

variable {columns : List Column} {c : Column}

theorem mem_distinctColumns : c ∈ distinctColumns columns ↔ c ∈ columns := by
  unfold distinctColumns
  rw [mem_foldl_addColumn]
  simp

theorem nodup_distinctColumns (columns : List Column) : (distinctColumns columns).Nodup :=
  nodup_foldl_addColumn List.nodup_nil

theorem distinctColumns_distinctColumns (columns : List Column) :
    distinctColumns (distinctColumns columns) = distinctColumns columns := by
  unfold distinctColumns
  rw [addColumn_eq_addNew]
  exact foldl_addNew_foldl_addNew _ _

theorem distinctColumns_ne_nil (h : columns ≠ []) : distinctColumns columns ≠ [] := by
  obtain ⟨c, hc⟩ := List.exists_mem_of_ne_nil columns h
  exact List.ne_nil_of_mem (mem_distinctColumns.mpr hc)

theorem length_distinctColumns_le (columns : List Column) :
    (distinctColumns columns).length ≤ columns.length := by
  have hle := length_foldl_addNew_le (fun c d : Column => c == d) [] columns
  unfold distinctColumns
  rw [addColumn_eq_addNew]
  simpa using hle

theorem distinctColumns_eq_self (h : (distinctColumns columns).length = columns.length) :
    distinctColumns columns = columns := by
  unfold distinctColumns at h ⊢
  rw [addColumn_eq_addNew] at h ⊢
  exact foldl_addNew_eq_append (by simpa using h)

end Distinct

end DocQuery
