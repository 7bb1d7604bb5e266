import DocQuery.Proofs.Query.Items
import DocQuery.Proofs.Value.Sameness
import DocQuery.Rows.Row

/-!
# DocQuery.Proofs.Query.Sameness — sameness of items, and what items denote

Sameness of items is sameness of their parameters, besides parts that are compared exactly.  So an
item is the same as itself if its parameters are, and two items that are the same as a third one are
the same as each other unless three of their parameters are conflated.

The meaning of an item is the item without what sameness leaves aside: identities and aliases, and in
any scope also the scopes.  Sameness is asked of meanings alone (`Item.sameAs_congr`), and items that
are the same have one meaning if their parameters are equal, not only the same
(`Item.meaning_eq_of_sameAs`).
-/

namespace DocQuery

namespace Item

/-- The parameters of an item and of the items that it refers to, one behind the other. -/
def allParameters : Item → List Value
  | ⟨_, .inner item, _, parameters, _, _, _⟩ => parameters ++ item.allParameters
  | ⟨_, _, _, parameters, _, _, _⟩ => parameters

/-- What goes for an item if it goes for the item that it refers to goes for all items. -/
theorem inner_induction {P : Item → Prop} (h : ∀ i, (∀ x, i.inner? = some x → P x) → P i) :
    (i : Item) → P i
  | ⟨id, .inner x, f, ps, approximate, scope, aliasName⟩ =>
    h ⟨id, .inner x, f, ps, approximate, scope, aliasName⟩ fun y hy => by
      cases hy
      exact inner_induction h x
  | ⟨id, .column c, f, ps, approximate, scope, aliasName⟩ => h _ fun _ hy => by cases hy
  | ⟨id, .expression text, f, ps, approximate, scope, aliasName⟩ => h _ fun _ hy => by cases hy
  | ⟨id, .nothing, f, ps, approximate, scope, aliasName⟩ => h _ fun _ hy => by cases hy

theorem allParameters_eq_append (i : Item) :
    i.allParameters = i.parameters ++ (i.inner?.map allParameters).getD [] := by
  obtain ⟨_, source, _, _, _, _, _⟩ := i
  cases source <;> first | rfl | exact (List.append_nil _).symm

/-! ## One item -/

theorem sameParameters_self {vs : List Value} (h : ∀ v ∈ vs, v.hasDistinctKeys = true) :
    sameParameters vs vs = true := by
  induction vs with
  | nil => rfl
  | cons v vs ih =>
    rw [List.forall_mem_cons] at h
    rw [sameParameters, Value.same_self h.1, ih h.2]
    rfl

theorem sameUse_self {i : Item} (strict : Bool) (h : ∀ v ∈ i.parameters, v.hasDistinctKeys = true) :
    sameUse strict i i = true := by
  simp [sameUse, sameParameters_self h]

/-- **An item is the same as itself** if no document among its parameters has a key twice. -/
theorem sameAs_self {i : Item} (strict : Bool)
    (h : ∀ v ∈ i.allParameters, v.hasDistinctKeys = true) : sameAs strict i i = true := by
  induction i using inner_induction with | h i ih =>
  obtain ⟨_, source, _, _, _, _, _⟩ := i
  cases source with
  | inner x =>
    rw [sameAs, sameUse_self strict fun v hv => h v (List.mem_append_left _ hv),
      ih x rfl fun v hv => h v (List.mem_append_right _ hv)]
    rfl
  | column c => rw [sameAs, sameUse_self strict h, beq_self_eq_true, Bool.and_self]
  | expression text => rw [sameAs, sameUse_self strict h, beq_self_eq_true, Bool.and_self]
  | nothing => exact sameUse_self strict h

/-- Copies of an item are the same, whatever aliases they have. -/
theorem sameAs_of_copies {i k : Item} (strict : Bool) (hcopies : i.withoutAlias = k.withoutAlias)
    (h : ∀ v ∈ k.allParameters, v.hasDistinctKeys = true) : sameAs strict i k = true := by
  rw [← withoutAlias_sameAs, hcopies, withoutAlias_sameAs]
  exact sameAs_self strict h

/-! ## Three items -/

/-- Values between which sameness carries over. -/
def Joins (us vs ws : List Value) : Prop :=
  ∀ u ∈ us, ∀ v ∈ vs, ∀ w ∈ ws,
    ¬ Value.Conflated u v w ∧ v.hasDistinctKeys = true ∧ w.hasDistinctKeys = true

theorem Joins.mono {us vs ws us' vs' ws' : List Value} (h : Joins us vs ws) (hu : us' ⊆ us)
    (hv : vs' ⊆ vs) (hw : ws' ⊆ ws) : Joins us' vs' ws' :=
  fun u hu' v hv' w hw' => h u (hu hu') v (hv hv') w (hw hw')

theorem sameParameters_of_common {us vs ws : List Value} (h : sameParameters us vs = true)
    (h' : sameParameters ws vs = true) (hjoins : Joins us vs ws) :
    sameParameters us ws = true := by
  induction us generalizing vs ws with
  | nil =>
    cases vs with
    | nil => cases ws with
      | nil => rfl
      | cons w ws => cases h'
    | cons v vs => cases h
  | cons u us ih =>
    cases vs with
    | nil => cases h
    | cons v vs =>
      cases ws with
      | nil => cases h'
      | cons w ws =>
        simp only [sameParameters, Bool.and_eq_true] at h h' ⊢
        obtain ⟨hnot, hv, hw⟩ := hjoins u List.mem_cons_self v List.mem_cons_self w
          List.mem_cons_self
        refine ⟨(Value.same_trans_iff u v w).mpr hnot h.1 (Value.same_comm hv hw ▸ h'.1), ?_⟩
        exact ih h.2 h'.2 (hjoins.mono (List.subset_cons_self u us) (List.subset_cons_self v vs)
          (List.subset_cons_self w ws))

theorem sameUse_of_common {strict : Bool} {a b c : Item} (h : sameUse strict a b = true)
    (h' : sameUse strict c b = true) (hjoins : Joins a.parameters b.parameters c.parameters) :
    sameUse strict a c = true := by
  simp only [sameUse, Bool.and_eq_true, Bool.or_eq_true, beq_iff_eq] at h h' ⊢
  obtain ⟨⟨⟨hscope, hfunction⟩, hparameters⟩, happroximate⟩ := h
  obtain ⟨⟨⟨hscope', hfunction'⟩, hparameters'⟩, happroximate'⟩ := h'
  refine ⟨⟨⟨?_, hfunction.trans hfunction'.symm⟩, ?_⟩, happroximate.trans happroximate'.symm⟩
  · rcases hscope with hloose | hscope
    · exact Or.inl hloose
    · exact hscope'.imp_right fun hscope' => hscope.trans hscope'.symm
  · exact sameParameters_of_common hparameters hparameters' hjoins

/-- **Items that are the same as a third one are the same as each other**, as far as their parameters
are.  The induction is on what the items refer to. -/
theorem sameAs_of_common {strict : Bool} {a b c : Item} (h : sameAs strict a b = true)
    (h' : sameAs strict c b = true)
    (hjoins : Joins a.allParameters b.allParameters c.allParameters) :
    sameAs strict a c = true := by
  induction a using inner_induction generalizing b c with | h a ih =>
  obtain ⟨_, sa, _, _, _, _, _⟩ := a
  obtain ⟨_, sb, _, _, _, _, _⟩ := b
  obtain ⟨_, sc, _, _, _, _, _⟩ := c
  cases sa <;> cases sb <;> simp only [sameAs, Bool.and_eq_true, Bool.false_eq_true] at h
  all_goals cases sc <;> simp only [sameAs, Bool.and_eq_true, Bool.false_eq_true] at h' ⊢
  case inner.inner.inner x y z =>
    refine ⟨sameUse_of_common h.1 h'.1 ?_, ih x rfl h.2 h'.2 ?_⟩
    · exact hjoins.mono (List.subset_append_left _ _) (List.subset_append_left _ _)
        (List.subset_append_left _ _)
    · exact hjoins.mono (List.subset_append_right _ _) (List.subset_append_right _ _)
        (List.subset_append_right _ _)
  case nothing.nothing.nothing => exact sameUse_of_common h h' hjoins
  all_goals
    rw [beq_iff_eq] at h h' ⊢
    exact ⟨sameUse_of_common h.1 h'.1 hjoins, h.2.trans h'.2.symm⟩

end Item

/-! ## What an item denotes -/

namespace Item

/-- What an item denotes within its scope, or in any: all that sameness compares, parameters and all.
-/
def meaning (strict : Bool) : Item → Item
  | ⟨_, .inner x, f, ps, approximate, scope, _⟩ =>
    ⟨0, .inner (meaning strict x), f, ps, approximate, if strict then scope else none, none⟩
  | ⟨_, source, f, ps, approximate, scope, _⟩ =>
    ⟨0, source, f, ps, approximate, if strict then scope else none, none⟩

variable {strict : Bool} {a b i : Item}

theorem function_meaning (strict : Bool) (i : Item) : (meaning strict i).function = i.function := by
  obtain ⟨_, source, _, _, _, _, _⟩ := i
  cases source <;> rfl

theorem parameters_meaning (strict : Bool) (i : Item) :
    (meaning strict i).parameters = i.parameters := by
  obtain ⟨_, source, _, _, _, _, _⟩ := i
  cases source <;> rfl

theorem scalar?_meaning (strict : Bool) (i : Item) : (meaning strict i).scalar? = i.scalar? :=
  congrArg (Option.filter Builtin.isScalar) (function_meaning strict i)

theorem meaning_withoutAlias (strict : Bool) (i : Item) :
    meaning strict i.withoutAlias = meaning strict i := by
  obtain ⟨_, source, _, _, _, _, _⟩ := i
  cases source <;> rfl

/-- Copies have one meaning. -/
theorem meaning_of_copies (h : a.withoutAlias = b.withoutAlias) : meaning strict a = meaning strict b := by
  rw [← meaning_withoutAlias, h, meaning_withoutAlias]

/-- What an item denotes in any scope is settled by what it denotes within its own. -/
theorem meaning_false_meaning_true (i : Item) : meaning false (meaning true i) = meaning false i := by
  induction i using inner_induction with | h i ih =>
  obtain ⟨_, source, _, _, _, _, _⟩ := i
  cases source with
  | inner x =>
    rw [meaning, meaning, meaning, ih x rfl]
    rfl
  | column c => rfl
  | expression text => rfl
  | nothing => rfl

/-- Items of one meaning denote the same in any scope. -/
theorem meaning_false_of_meaning (h : meaning strict a = meaning strict b) :
    meaning false a = meaning false b := by
  cases strict with
  | false => exact h
  | true => rw [← meaning_false_meaning_true, h, meaning_false_meaning_true]

theorem isCountAll_meaning (strict : Bool) (i : Item) :
    (meaning strict i).isCountAll = i.isCountAll := by
  obtain ⟨_, source, _, _, _, _, _⟩ := i
  cases source <;> rfl

/-- What is read without a function is part of the meaning. -/
theorem meaning_bare (strict : Bool) (i : Item) : meaning strict i.bare = (meaning strict i).bare := by
  have hcount := isCountAll_meaning strict i
  unfold bare withFunction sourceUnder
  rw [hcount]
  obtain ⟨_, source, _, _, _, _, _⟩ := i
  cases source with
  | inner x => rfl
  | expression text => cases isCountAll _ <;> rfl
  | column c => rfl
  | nothing => cases isCountAll _ <;> rfl

/-! ## Sameness of meanings -/

theorem sameUse_meaning (strict : Bool) (a b : Item) :
    sameUse strict (meaning strict a) (meaning strict b) = sameUse strict a b := by
  obtain ⟨_, sa, _, _, _, _, _⟩ := a
  obtain ⟨_, sb, _, _, _, _, _⟩ := b
  cases strict <;> cases sa <;> cases sb <;> rfl

/-- Sameness is asked of meanings alone. -/
theorem sameAs_meaning (strict : Bool) (a b : Item) :
    sameAs strict (meaning strict a) (meaning strict b) = sameAs strict a b := by
  induction a using inner_induction generalizing b with | h a ih =>
  have huse := sameUse_meaning strict a b
  obtain ⟨_, sa, _, _, _, _, _⟩ := a
  obtain ⟨_, sb, _, _, _, _, _⟩ := b
  cases sa with
  | inner x =>
    cases sb with
    | inner y =>
      unfold meaning at huse ⊢
      rw [sameAs, sameAs, huse, ih x rfl y]
    | _ => rfl
  | _ =>
    cases sb with
    | inner y => rfl
    | _ => cases strict <;> rfl

/-- Items of one meaning are the same as the same items. -/
theorem sameAs_congr {a' b' : Item} (ha : meaning strict a = meaning strict a')
    (hb : meaning strict b = meaning strict b') : sameAs strict a b = sameAs strict a' b' := by
  rw [← sameAs_meaning, ha, hb, sameAs_meaning]

/-- What is the same within its scope is the same in any. -/
theorem sameAs_false_of_sameAs (h : sameAs strict a b = true) : sameAs false a b = true := by
  induction a using inner_induction generalizing b with | h a ih =>
  have huse : sameUse false a b = true := by
    have hstrict := sameUse_of_sameAs h
    simp only [sameUse, Bool.and_eq_true] at hstrict ⊢
    exact ⟨⟨⟨rfl, hstrict.1.1.2⟩, hstrict.1.2⟩, hstrict.2⟩
  obtain ⟨_, sa, _, _, _, _, _⟩ := a
  obtain ⟨_, sb, _, _, _, _, _⟩ := b
  cases sa <;> cases sb <;> simp only [sameAs, Bool.and_eq_true, Bool.false_eq_true] at h ⊢
  case inner.inner x y => exact ⟨huse, ih x rfl h.2⟩
  case nothing.nothing => exact huse
  all_goals exact ⟨huse, h.2⟩

theorem length_eq_of_sameParameters {vs ws : List Value} (h : sameParameters vs ws = true) :
    vs.length = ws.length := by
  induction vs generalizing ws with
  | nil =>
    cases ws with
    | nil => rfl
    | cons w ws => cases h
  | cons v vs ih =>
    cases ws with
    | nil => cases h
    | cons w ws =>
      rw [sameParameters, Bool.and_eq_true] at h
      exact congrArg Nat.succ (ih h.2)

/-- **Items that are the same, with equal parameters, have one meaning.** -/
theorem meaning_eq_of_sameAs (h : sameAs strict a b = true)
    (hparameters : a.allParameters = b.allParameters) : meaning strict a = meaning strict b := by
  induction a using inner_induction generalizing b with | h a ih =>
  have huse := sameUse_of_sameAs h
  obtain ⟨_, sa, fa, ps, _, scope, _⟩ := a
  obtain ⟨_, sb, fb, qs, _, scope', _⟩ := b
  simp only [sameUse, Bool.and_eq_true, Bool.or_eq_true, Bool.not_eq_true', beq_iff_eq] at huse
  obtain ⟨⟨⟨hscope, rfl⟩, hsame⟩, rfl⟩ := huse
  have hscope : (if strict then scope else none) = if strict then scope' else none := by
    rcases hscope with rfl | rfl <;> rfl
  cases sa <;> cases sb <;> simp only [sameAs, Bool.and_eq_true, Bool.false_eq_true] at h
  case inner.inner x y =>
    obtain ⟨rfl, hrest⟩ := List.append_inj hparameters (length_eq_of_sameParameters hsame)
    unfold meaning
    rw [hscope, ih x rfl h.2 hrest]
  case nothing.nothing =>
    obtain rfl : ps = qs := hparameters
    unfold meaning
    rw [hscope]
  all_goals
    obtain rfl : ps = qs := hparameters
    obtain rfl := beq_iff_eq.mp h.2
    unfold meaning
    rw [hscope]

/-! ## Texts of meanings -/

/-- The aliases of the items that an item refers to, from the outside in. -/
def innerAliases : Item → List (Option String)
  | ⟨_, .inner x, _, _, _, _, _⟩ => x.aliasName :: x.innerAliases
  | _ => []

/-- Items of one meaning have one text, if the items that they refer to have the same aliases. -/
theorem sqlWithoutAlias_congr (h : meaning true a = meaning true b)
    (haliases : a.innerAliases = b.innerAliases) : a.sqlWithoutAlias = b.sqlWithoutAlias := by
  induction a using inner_induction generalizing b with | h a ih =>
  obtain ⟨_, sa, _, _, _, _, _⟩ := a
  obtain ⟨_, sb, _, _, _, _, _⟩ := b
  cases sa <;> cases sb <;> simp only [meaning, Item.mk.injEq, ItemSource.inner.injEq,
    ItemSource.column.injEq, ItemSource.expression.injEq, reduceCtorEq, false_and, and_false,
    true_and, and_true, if_true] at h
  case inner.inner x y =>
    obtain ⟨hmeaning, rfl, rfl, rfl, rfl⟩ := h
    obtain ⟨halias, hrest⟩ := List.cons.inj haliases
    rw [sqlWithoutAlias, sqlWithoutAlias, halias, ih x rfl hmeaning hrest]
  case nothing.nothing =>
    obtain ⟨rfl, rfl, rfl, rfl⟩ := h
    rfl
  all_goals
    obtain ⟨rfl, rfl, rfl, rfl, rfl⟩ := h
    rfl

end Item

/-- Items of one meaning compute the same of a value. -/
theorem Row.applyScalar_congr {strict : Bool} {a b : Item}
    (h : Item.meaning strict a = Item.meaning strict b) (v : Value) :
    applyScalar a v = applyScalar b v := by
  unfold applyScalar
  rw [← Item.scalar?_meaning strict a, ← Item.parameters_meaning strict a, h, Item.scalar?_meaning,
    Item.parameters_meaning]

end DocQuery
