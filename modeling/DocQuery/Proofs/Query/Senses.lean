import DocQuery.Proofs.Query.Sameness
import DocQuery.Proofs.Query.Registry

/-!
# DocQuery.Proofs.Query.Senses — what an item denotes within a query

An unscoped column that one from item alone owns denotes the same as the column in the scope of that
from item.  The sense of an item is its meaning once it is scoped so (`Item.sense`); it is the same
before and after resolving.  Where every column in a scope belongs to the from item of that label,
items of one sense can be told apart from all others in whichever of their forms they stand
(`Item.sense_eq_of_isPlaced`).
-/

namespace DocQuery

namespace FromItem

variable {leaves : List FromItem} {leaf : FromItem} {c : Column} {label : String}

/-- The label of the only from item that owns a column, if there is only one. -/
def ownerLabel? (leaves : List FromItem) (c : Column) : Option String :=
  match leaves.filter (owns c) with
  | [owner] => owner.label?
  | _ => none

/-- A from item that owns a column is the one that alone does. -/
theorem ownerLabel?_eq_some (h : ownerLabel? leaves c = some label) (hleaf : leaf ∈ leaves)
    (howns : owns c leaf = true) : leaf.label? = some label := by
  unfold ownerLabel? at h
  split at h
  next owner howner =>
    have hmem : leaf ∈ leaves.filter (owns c) := List.mem_filter.mpr ⟨hleaf, howns⟩
    rw [howner, List.mem_singleton] at hmem
    exact hmem ▸ h
  next => cases h

end FromItem

namespace Item

open FromItem (owns ownerLabel?)

variable {leaves : List FromItem} {strict : Bool} {a b i x : Item} {c : Column}

/-! ## Parts of meanings -/

theorem meaning_meaning (strict : Bool) (i : Item) :
    meaning strict (meaning strict i) = meaning strict i := by
  induction i using inner_induction with | h i ih =>
  obtain ⟨_, source, _, _, _, _, _⟩ := i
  cases source with
  | inner x =>
    rw [meaning, meaning, ih x rfl]
    cases strict <;> rfl
  | _ => cases strict <;> rfl

theorem scope_meaning (i : Item) : (meaning true i).scope = i.scope := by
  obtain ⟨_, source, _, _, _, _, _⟩ := i
  cases source <;> rfl

theorem column?_meaning (strict : Bool) (i : Item) : (meaning strict i).column? = i.column? := by
  obtain ⟨_, source, _, _, _, _, _⟩ := i
  cases source <;> rfl

theorem inner?_meaning (strict : Bool) (i : Item) :
    (meaning strict i).inner? = i.inner?.map (meaning strict) := by
  obtain ⟨_, source, _, _, _, _, _⟩ := i
  cases source <;> rfl

theorem expression?_meaning (strict : Bool) (i : Item) :
    (meaning strict i).expression? = i.expression? := by
  have hcount := isCountAll_meaning strict i
  unfold expression?
  rw [hcount]
  obtain ⟨_, source, _, _, _, _, _⟩ := i
  cases source <;> rfl

theorem allParameters_meaning (strict : Bool) (i : Item) :
    (meaning strict i).allParameters = i.allParameters := by
  induction i using inner_induction with | h i ih =>
  obtain ⟨_, source, _, _, _, _, _⟩ := i
  cases source with
  | inner x =>
    rw [meaning, allParameters, ih x rfl]
    rfl
  | _ => rfl

/-- The scope plays no part in what an item denotes in any. -/
theorem meaning_false_withScope (i : Item) (id : Nat) (scope : Option String) :
    meaning false (i.withScope id scope) = meaning false i := by
  obtain ⟨_, source, _, _, _, _, _⟩ := i
  cases source <;> rfl

/-- The identity plays no part in what an item reads without its function. -/
theorem meaning_withFunction (strict : Bool) (i : Item) (id : Nat) :
    meaning strict (i.withFunction id none) = meaning strict i.bare := by
  unfold bare withFunction
  cases i.sourceUnder none <;> rfl

/-- A column in a scope is known by the scope and by what it denotes in any. -/
theorem meaning_true_of_column (hcolumn : a.column? = some c)
    (h : meaning false a = meaning false b) (hscope : a.scope = b.scope) :
    meaning true a = meaning true b := by
  obtain ⟨_, sa, _, _, _, _, _⟩ := a
  obtain ⟨_, sb, _, _, _, _, _⟩ := b
  cases sa with
  | column d =>
    cases sb <;> simp only [meaning, Item.mk.injEq, ItemSource.column.injEq, reduceCtorEq, false_and,
      and_false] at h
    obtain ⟨-, rfl, rfl, rfl, rfl, -⟩ := h
    obtain rfl := hscope
    rfl
  | _ => cases hcolumn

/-! ## Senses -/

/-- The scope of an item within a query: its own, or for a column that of its only owner. -/
def scopeIn (leaves : List FromItem) (i : Item) : Option String :=
  i.scope <|> i.column?.bind (ownerLabel? leaves)

/-- What an item denotes within a query over some from items. -/
def sense (leaves : List FromItem) (i : Item) : Item :=
  (meaning true i).withScope 0 (i.scopeIn leaves)

/-- A column belongs to one of the from items, whose label is its scope if it has one. -/
def IsPlaced (leaves : List FromItem) (i : Item) : Prop :=
  ∀ c, i.column? = some c → ∃ leaf ∈ leaves, owns c leaf = true ∧
    ∀ label, i.scope = some label → leaf.label? = some label

theorem scopeIn_of_column?_eq_none (h : i.column? = none) : i.scopeIn leaves = i.scope := by
  unfold scopeIn
  rw [h]
  cases i.scope <;> rfl

/-- What is no column has its meaning for its sense. -/
theorem sense_of_column?_eq_none (h : i.column? = none) : sense leaves i = meaning true i := by
  unfold sense
  rw [scopeIn_of_column?_eq_none h]
  obtain ⟨_, source, _, _, _, _, _⟩ := i
  cases source <;> rfl

theorem meaning_false_sense (leaves : List FromItem) (i : Item) :
    meaning false (sense leaves i) = meaning false i := by
  rw [sense, meaning_false_withScope, meaning_false_meaning_true]

/-- Items of one sense denote the same in any scope. -/
theorem meaning_false_of_sense (h : sense leaves a = sense leaves b) :
    meaning false a = meaning false b := by
  rw [← meaning_false_sense leaves, h, meaning_false_sense]

/-- Items of one meaning have one sense. -/
theorem sense_congr (h : meaning true a = meaning true b) : sense leaves a = sense leaves b := by
  unfold sense scopeIn
  rw [h, ← scope_meaning a, ← scope_meaning b, ← column?_meaning true a, ← column?_meaning true b, h]

theorem sense_meaning (leaves : List FromItem) (i : Item) :
    sense leaves (meaning true i) = sense leaves i := sense_congr (meaning_meaning true i)

theorem sense_withoutAlias (leaves : List FromItem) (i : Item) :
    sense leaves i.withoutAlias = sense leaves i := sense_congr (meaning_withoutAlias true i)

theorem column?_sense (leaves : List FromItem) (i : Item) : (sense leaves i).column? = i.column? := by
  rw [← column?_meaning false, meaning_false_sense, column?_meaning]

theorem scalar?_sense (leaves : List FromItem) (i : Item) : (sense leaves i).scalar? = i.scalar? := by
  rw [← scalar?_meaning false, meaning_false_sense, scalar?_meaning]

theorem function_sense (leaves : List FromItem) (i : Item) :
    (sense leaves i).function = i.function := by
  rw [← function_meaning false, meaning_false_sense, function_meaning]

theorem aggregate?_sense (leaves : List FromItem) (i : Item) :
    (sense leaves i).aggregate? = i.aggregate? :=
  congrArg (Option.filter Builtin.isAggregate) (function_sense leaves i)

theorem expression?_sense (leaves : List FromItem) (i : Item) :
    (sense leaves i).expression? = i.expression? := by
  rw [← expression?_meaning false, meaning_false_sense, expression?_meaning]

theorem isCountAll_sense (leaves : List FromItem) (i : Item) :
    (sense leaves i).isCountAll = i.isCountAll := by
  rw [← isCountAll_meaning false, meaning_false_sense, isCountAll_meaning]

theorem approximate_sense (leaves : List FromItem) (i : Item) :
    (sense leaves i).approximate = i.approximate := by
  obtain ⟨_, source, _, _, _, _, _⟩ := i
  cases source <;> rfl

/-- The scope that an item has within a query is part of its sense. -/
theorem scopeIn_of_sense (h : sense leaves a = sense leaves b) :
    a.scopeIn leaves = b.scopeIn leaves := congrArg scope h

/-- A reference has for its sense a reference to what it refers to. -/
theorem inner?_sense (leaves : List FromItem) (i : Item) :
    (sense leaves i).inner? = i.inner?.map (meaning true) := by
  show ((meaning true i).withScope 0 _).inner? = _
  rw [← inner?_meaning]
  rfl

theorem inner?_of_column? (h : i.column? = some c) : i.inner? = none := by
  unfold column? at h
  unfold inner?
  split at h
  next hsource => rw [hsource]
  next => cases h

theorem column?_of_inner? (h : i.inner? = some x) : i.column? = none := by
  cases hcolumn : i.column? with
  | none => rfl
  | some c =>
    rw [inner?_of_column? hcolumn] at h
    cases h

theorem sense_bare (leaves : List FromItem) (i : Item) :
    sense leaves i.bare = (sense leaves i).bare := by
  have hscope : i.bare.scopeIn leaves = i.scopeIn leaves := by
    unfold scopeIn
    rw [column?_bare]
    rfl
  have hcount : (sense leaves i).isCountAll = (meaning true i).isCountAll := rfl
  unfold sense at hcount ⊢
  rw [hscope, meaning_bare]
  unfold bare withFunction sourceUnder
  rw [hcount]
  rfl

/-- Columns that denote the same in any scope have one sense if they have one scope. -/
theorem sense_of_column (hcolumn : a.column? = some c) (h : meaning false a = meaning false b)
    (hscope : a.scopeIn leaves = b.scopeIn leaves) : sense leaves a = sense leaves b := by
  obtain ⟨_, sa, _, _, _, _, _⟩ := a
  obtain ⟨_, sb, _, _, _, _, _⟩ := b
  cases sa with
  | column d =>
    cases sb <;> simp only [meaning, Item.mk.injEq, ItemSource.column.injEq, reduceCtorEq, false_and,
      and_false] at h
    obtain ⟨-, rfl, rfl, rfl, rfl, -⟩ := h
    unfold sense
    rw [hscope]
    rfl
  | _ => cases hcolumn

/-- **Where a sense stands in two forms, nothing else can be taken for it**: an item that denotes the
same in any scope has the same sense, if it is placed. -/
theorem sense_eq_of_isPlaced (h : sense leaves a = sense leaves i)
    (hforms : meaning true a ≠ meaning true i) (hb : b.IsPlaced leaves)
    (hloose : meaning false b = meaning false i) : sense leaves b = sense leaves a := by
  have hfalse := meaning_false_of_sense h
  have hcolumns : a.column? = i.column? ∧ b.column? = i.column? := by
    rw [← column?_meaning false a, ← column?_meaning false b, hfalse, hloose, column?_meaning]
    exact ⟨rfl, rfl⟩
  cases hcolumn : i.column? with
  | none =>
    rw [sense_of_column?_eq_none (hcolumns.1.trans hcolumn), sense_of_column?_eq_none hcolumn] at h
    exact absurd h hforms
  | some c =>
    rw [hcolumn] at hcolumns
    have hscopeIn := scopeIn_of_sense h
    have hscopes : a.scope ≠ i.scope := fun heq =>
      hforms (meaning_true_of_column hcolumns.1 hfalse heq)
    -- One of the two is unscoped, and its only owner gives it the scope of the other one.
    obtain ⟨label, howner, hlabel⟩ : ∃ label, ownerLabel? leaves c = some label ∧
        a.scopeIn leaves = some label := by
      unfold scopeIn at hscopeIn ⊢
      rw [hcolumns.1, hcolumn] at hscopeIn
      rw [hcolumns.1]
      cases ha : a.scope with
      | none =>
        cases hi : i.scope with
        | none => exact absurd (ha.trans hi.symm) hscopes
        | some label =>
          rw [ha, hi] at hscopeIn
          exact ⟨label, hscopeIn, hscopeIn⟩
      | some label =>
        cases hi : i.scope with
        | none =>
          rw [ha, hi] at hscopeIn
          exact ⟨label, hscopeIn.symm, rfl⟩
        | some other =>
          rw [ha, hi] at hscopeIn
          exact absurd (ha.trans (hscopeIn.trans hi.symm)) hscopes
    refine sense_of_column hcolumns.2 (hloose.trans hfalse.symm) ?_
    rw [hlabel]
    unfold scopeIn
    rw [hcolumns.2]
    cases hscope : b.scope with
    | none => exact howner
    | some scope =>
      obtain ⟨leaf, hleaf, howns, hscoped⟩ := hb c hcolumns.2
      exact (hscoped scope hscope).symm.trans (FromItem.ownerLabel?_eq_some howner hleaf howns)

/-! ## Vocabularies -/

/-- What items may denote in any scope: all columns, with each meaning those of its parts, and
meanings that count as the same are equal. -/
structure IsVocabulary (known : Item → Prop) : Prop where
  column : ∀ c, known (meaning false (ofColumn 0 c none))
  same_iff : ∀ a b, known a → known b → (sameAs false a b = true ↔ a = b)
  bare : ∀ a, known a → known a.bare
  inner : ∀ a x, known a → a.inner? = some x → known x

/-- The item has a meaning of a vocabulary. -/
def IsKnown (known : Item → Prop) (i : Item) : Prop := known (meaning false i)

/-- An item that is the same as itself is so within its scope. -/
theorem sameAs_true_self (h : sameAs false i i = true) : sameAs true i i = true := by
  induction i using inner_induction with | h i ih =>
  obtain ⟨_, source, _, _, _, _, _⟩ := i
  cases source with
  | inner x =>
    rw [sameAs, Bool.and_eq_true] at h ⊢
    refine ⟨?_, ih x rfl h.2⟩
    have huse := h.1
    simp only [sameUse, Bool.and_eq_true, beq_self_eq_true] at huse ⊢
    exact ⟨⟨⟨rfl, trivial⟩, huse.1.2⟩, trivial⟩
  | _ =>
    simp only [sameAs, sameUse, Bool.and_eq_true, beq_self_eq_true] at h ⊢
    simp_all

section Vocabulary

variable {known : Item → Prop} (hknown : IsVocabulary known)

include hknown

theorem IsKnown.bare (h : i.IsKnown known) : i.bare.IsKnown known := by
  unfold IsKnown
  rw [meaning_bare]
  exact hknown.bare _ h

theorem IsKnown.inner (h : i.IsKnown known) (hx : i.inner? = some x) : x.IsKnown known := by
  refine hknown.inner _ _ h ?_
  rw [inner?_meaning, hx]
  rfl

/-- **Known items are the same if and only if they have one meaning.** -/
theorem sameAs_iff_meaning (ha : a.IsKnown known) (hb : b.IsKnown known) (strict : Bool) :
    sameAs strict a b = true ↔ meaning strict a = meaning strict b := by
  have hfalse : sameAs false a b = true ↔ meaning false a = meaning false b := by
    rw [← sameAs_meaning false]
    exact hknown.same_iff _ _ ha hb
  cases strict with
  | false => exact hfalse
  | true =>
    constructor
    · intro h
      refine meaning_eq_of_sameAs h ?_
      rw [← allParameters_meaning false a, hfalse.mp (sameAs_false_of_sameAs h),
        allParameters_meaning]
    · intro h
      have hself : sameAs false b b = true := by
        rw [← sameAs_congr (meaning_false_of_meaning h) rfl]
        exact hfalse.mpr (meaning_false_of_meaning h)
      rw [sameAs_congr h rfl]
      exact sameAs_true_self hself

end Vocabulary

/-! ### What the items of a query denote -/

/-- Items together with those that they refer to, which count as the same only if their parameters are
equal, and whose parameters are no documents with a key twice. -/
structure AreExact (P : Item → Prop) : Prop where
  inner : ∀ i x, P i → i.inner? = some x → P x
  keys : ∀ i, P i → ∀ v ∈ i.parameters, v.hasDistinctKeys = true
  parameters : ∀ i j, P i → P j → sameAs false i j = true → i.allParameters = j.allParameters

/-- What items denote with and without their functions, and what columns do. -/
inductive Denoted (P : Item → Prop) : Item → Prop
  | self {i : Item} (h : P i) : Denoted P (meaning false i)
  | bare {i : Item} (h : P i) : Denoted P (meaning false i).bare
  | column (c : Column) : Denoted P (meaning false (ofColumn 0 c none))

theorem bare_bare (i : Item) : i.bare.bare = i.bare := by
  unfold bare withFunction sourceUnder isCountAll
  cases i.source with
  | expression text => split <;> rfl
  | _ => rfl

namespace Denoted

variable {P : Item → Prop} {m k : Item}

theorem meaning_eq (h : Denoted P m) : meaning false m = m := by
  cases h with
  | self => exact meaning_meaning false _
  | bare => rw [meaning_bare, meaning_meaning]
  | column c => rfl

theorem bare_of (h : Denoted P m) : Denoted P m.bare := by
  cases h with
  | self h => exact .bare h
  | bare h => exact (bare_bare _).symm ▸ .bare h
  | column c => exact .column c

variable (hP : AreExact P)

include hP

/-- What is referred to is denoted by an item itself. -/
theorem exists_of_inner? (h : Denoted P m) (hx : m.inner? = some x) :
    ∃ i, P i ∧ x = meaning false i := by
  have hself {i : Item} (hi : P i) (hx : (meaning false i).inner? = some x) :
      ∃ j, P j ∧ x = meaning false j := by
    rw [inner?_meaning] at hx
    obtain ⟨y, hy, rfl⟩ := Option.map_eq_some_iff.mp hx
    exact ⟨y, hP.inner i y hi hy, rfl⟩
  cases h with
  | self h => exact hself h hx
  | bare h => exact hself h (Workshop.inner?_of_withFunction hx)
  | column c => cases hx

/-- No parameter is a document with a key twice.  The induction is on what is referred to. -/
theorem keys (h : Denoted P m) : ∀ v ∈ m.allParameters, v.hasDistinctKeys = true := by
  induction m using inner_induction with | h m ih =>
  rw [allParameters_eq_append]
  refine List.forall_mem_append.mpr ⟨?_, ?_⟩
  · cases h with
    | self h =>
      rw [parameters_meaning]
      exact hP.keys _ h
    | bare h => exact List.forall_mem_nil _
    | column c => exact List.forall_mem_nil _
  · cases hx : m.inner? with
    | none => exact List.forall_mem_nil _
    | some x =>
      obtain ⟨i, hi, rfl⟩ := h.exists_of_inner? hP hx
      exact ih _ hx (.self hi)

/-- What counts as the same has equal parameters. -/
theorem allParameters_eq (hm : Denoted P m) (hk : Denoted P k) (h : sameAs false m k = true) :
    m.allParameters = k.allParameters := by
  have hloose {i j : Item} (hi : P i) (hj : P j)
      (h : sameAs false (meaning false i) (meaning false j) = true) :
      (meaning false i).allParameters = (meaning false j).allParameters := by
    rw [sameAs_meaning] at h
    rw [allParameters_meaning, allParameters_meaning]
    exact hP.parameters i j hi hj h
  -- Without a function there are no parameters, so those of the other one are none either.
  have hbare (hnone : m.parameters = [] ∨ k.parameters = []) :
      m.allParameters = k.allParameters := by
    have huse := sameUse_of_sameAs h
    simp only [sameUse, Bool.and_eq_true] at huse
    have hlength := length_eq_of_sameParameters huse.1.2
    have hparameters : m.parameters = k.parameters := by
      rcases hnone with hnil | hnil
      · rw [hnil] at hlength ⊢
        exact (List.length_eq_zero_iff.mp hlength.symm).symm
      · rw [hnil] at hlength ⊢
        exact List.length_eq_zero_iff.mp hlength
    rw [allParameters_eq_append m, allParameters_eq_append k, hparameters]
    rcases inner?_of_sameAs h with ⟨hx, hy⟩ | ⟨x, y, hx, hy, hsame⟩
    · rw [hx, hy]
    · obtain ⟨i, hi, rfl⟩ := hm.exists_of_inner? hP hx
      obtain ⟨j, hj, rfl⟩ := hk.exists_of_inner? hP hy
      rw [hx, hy]
      exact congrArg (k.parameters ++ ·) (hloose hi hj hsame)
  cases hm with
  | self hi =>
    cases hk with
    | self hj => exact hloose hi hj h
    | bare hj => exact hbare (Or.inr rfl)
    | column c => exact hbare (Or.inr rfl)
  | bare hi => exact hbare (Or.inl rfl)
  | column c => exact hbare (Or.inl rfl)

end Denoted

/-- **What the items of a query denote is a vocabulary.** -/
theorem isVocabulary_denoted {P : Item → Prop} (hP : AreExact P) : IsVocabulary (Denoted P) where
  column := .column
  same_iff := fun a b ha hb => by
    refine ⟨fun h => ?_, ?_⟩
    · rw [← ha.meaning_eq, ← hb.meaning_eq]
      exact meaning_eq_of_sameAs h (ha.allParameters_eq hP hb h)
    · rintro rfl
      exact sameAs_self false (ha.keys hP)
  bare := fun _ h => h.bare_of
  inner := fun a x h hx => by
    obtain ⟨i, hi, rfl⟩ := h.exists_of_inner? hP hx
    exact .self hi

/-! ## Items of a registry -/

/-- An item that may be asked for: it is known, it was made for a look-up alone or is entered in a
registry, and what it refers to is listed there. -/
structure IsAsked (known : Item → Prop) (g : Registry) (i : Item) : Prop where
  entered : i.id = 0 ∨ g.Enters i
  inner : ∀ x, i.inner? = some x → g.Lists x
  known : i.IsKnown known

/-- An item that rows may hold: it is listed and known, and a column belongs to one of the from items.
-/
structure IsHeld (leaves : List FromItem) (known : Item → Prop) (g : Registry) (i : Item) : Prop where
  lists : g.Lists i
  known : i.IsKnown known
  placed : i.IsPlaced leaves

variable {known : Item → Prop} {g g' : Registry}

theorem isAsked_of_lists (h : g.Lists i) (hi : i.IsKnown known) : i.IsAsked known g :=
  ⟨Or.inr h.enters, fun _ hx => h.inner hx, hi⟩

theorem IsHeld.asked (h : i.IsHeld leaves known g) : i.IsAsked known g := isAsked_of_lists h.lists h.known

theorem IsHeld.mono (h : i.IsHeld leaves known g) (hg : g'.Extends g) : i.IsHeld leaves known g' :=
  ⟨h.lists.mono hg, h.known, h.placed⟩

/-- What an item reads without its function may be asked for as well. -/
theorem IsAsked.bare (hknown : IsVocabulary known) (h : i.IsAsked known g) : i.bare.IsAsked known g where
  entered := Or.inl rfl
  inner := fun x hx => h.inner x (Workshop.inner?_of_withFunction hx)
  known := h.known.bare hknown

/-- What an item refers to may be asked for. -/
theorem IsAsked.of_inner (hknown : IsVocabulary known) (h : i.IsAsked known g)
    (hx : i.inner? = some x) : x.IsAsked known g :=
  isAsked_of_lists (h.inner x hx) (h.known.inner hknown hx)

/-- An entered item that has the identity of a held one has its meaning. -/
theorem IsHeld.meaning_of_id (h : a.IsHeld leaves known g) (hi : i.IsAsked known g)
    (hid : a.id = i.id) : meaning true a = meaning true i := by
  rcases hi.entered with hzero | hentered
  · exact absurd (hid.trans hzero) (Nat.ne_of_gt h.lists.enters.positive)
  · refine meaning_of_copies ?_
    rw [← h.lists.enters.entry, ← hentered.entry, hid]

end Item

end DocQuery
