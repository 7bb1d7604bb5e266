import DocQuery.Proofs.Number.Order
import DocQuery.Value.Order

/-!
# DocQuery.Proofs.Value.Order — the order for sorting and the order of filters

Values of any kinds are compared by their sort keys, keys of different ranks by rank alone.  So the
order is a total preorder as soon as the order within each rank is one
(`transCmp_of_rank`): dates and moments compare field by field, texts by their characters, and
numbers, stored or written in a text, by their place on the number line, then by whether they are
stored, then by the text.  Nothing here depends on which number a text is read as.

Filters bring two values to one kind before they compare them: to numbers, else to moments, else to
booleans.  Which kinds are tried does not depend on the side on which a value stands, and each kind
has an order that turns round with its sides, so the whole order does (`Value.compareLoose_swap`).

It is not transitive in general, but against a number it never goes down along the order for sorting
(`Value.compareLoose_number_mono`): there, texts that are numbers stand among the numbers in both
orders, and all other texts above them.
-/

namespace DocQuery

open Std

/-! ## Comparing by rank first -/

/-- Comparing by rank first, and within one rank by an order that is total and transitive there. -/
theorem transCmp_of_rank {α : Type} (rank : α → Nat) (within : α → α → Ordering)
    (hswap : ∀ a b, within a b = (within b a).swap)
    (htrans : ∀ a b c, rank a = rank b → rank b = rank c → (within a b).isLE →
      (within b c).isLE → (within a c).isLE) :
    TransCmp fun a b => (Ord.compare (rank a) (rank b)).then (within a b) where
  eq_swap {a b} := by
    rw [Ordering.swap_then, ← hswap, ← OrientedOrd.eq_swap]
  isLE_trans {a b c} hab hbc := by
    rw [Ordering.isLE_then_iff_and] at hab hbc ⊢
    obtain ⟨hab, hab'⟩ := hab
    obtain ⟨hbc, hbc'⟩ := hbc
    refine ⟨TransOrd.isLE_trans hab hbc, ?_⟩
    rw [Nat.isLE_compare] at hab hbc
    rw [Nat.compare_eq_lt] at hab' hbc' ⊢
    -- If any two neighbours differ in rank, the outer two do, and rank alone decides.
    by_cases hranks : rank a = rank b ∧ rank b = rank c
    · obtain ⟨h, h'⟩ := hranks
      exact Or.inr (htrans a b c h h' (hab'.resolve_left (by omega)) (hbc'.resolve_left (by omega)))
    · exact Or.inl (by omega)

/-! ## Dates and moments -/

instance : TransCmp Date.compare :=
  inferInstanceAs (TransCmp (compareLex (compareOn Date.year)
    (compareLex (compareOn Date.month) (compareOn Date.day))))

instance : TransCmp Moment.compare :=
  have : TransCmp fun a b : Moment => a.date.compare b.date :=
    { eq_swap := OrientedCmp.eq_swap, isLE_trans := TransCmp.isLE_trans }
  inferInstanceAs (TransCmp (compareLex (fun a b : Moment => a.date.compare b.date)
    (compareLex (compareOn Moment.second) (compareOn Moment.nanos))))

namespace Value

namespace SortKey

/-! ## Within a rank -/

theorem compareText_eq (s t : Option String) : compareText s t = Ord.compare s t := by
  cases s <;> cases t <;> rfl

instance : TransCmp compareText where
  eq_swap {s t} := by
    rw [compareText_eq, compareText_eq]
    exact OrientedOrd.eq_swap
  isLE_trans {s t u} hst htu := by
    rw [compareText_eq] at hst htu ⊢
    exact TransOrd.isLE_trans hst htu

/-- The order of numbers with the texts that they are written in. -/
def compareWritten (a b : Number × Option String) : Ordering :=
  (a.1.compare b.1).then (compareText a.2 b.2)

instance : TransCmp compareWritten :=
  have : TransCmp fun a b : Number × Option String => a.1.compare b.1 :=
    { eq_swap := OrientedCmp.eq_swap, isLE_trans := TransCmp.isLE_trans }
  have : TransCmp fun a b : Number × Option String => compareText a.2 b.2 :=
    { eq_swap := OrientedCmp.eq_swap, isLE_trans := TransCmp.isLE_trans }
  inferInstanceAs (TransCmp (compareLex (fun a b : Number × Option String => a.1.compare b.1)
    (fun a b => compareText a.2 b.2)))

theorem compareWithin_swap (a b : SortKey) : compareWithin a b = (compareWithin b a).swap := by
  cases a <;> cases b <;> try rfl
  case boolean.boolean => exact OrientedOrd.eq_swap
  case number.number a s b t =>
    have hwritten : OrientedCmp compareWritten := inferInstance
    exact hwritten.eq_swap (a := (a, s)) (b := (b, t))
  case temporal.temporal a b =>
    have hmoment : OrientedCmp Moment.compare := inferInstance
    exact hmoment.eq_swap (a := a) (b := b)
  case text.text => exact OrientedOrd.eq_swap
  case nested.nested => exact OrientedOrd.eq_swap

theorem compareWithin_trans (a b c : SortKey) (hab : a.rank = b.rank) (hbc : b.rank = c.rank)
    (h : (compareWithin a b).isLE) (h' : (compareWithin b c).isLE) :
    (compareWithin a c).isLE := by
  cases a <;> cases b <;> simp [rank] at hab <;> cases c <;> simp [rank] at hbc
  case null.null.null => rfl
  case boolean.boolean.boolean => exact TransOrd.isLE_trans h h'
  case number.number.number a s b t c u =>
    have hwritten : TransCmp compareWritten := inferInstance
    exact hwritten.isLE_trans (a := (a, s)) (b := (b, t)) (c := (c, u)) h h'
  case temporal.temporal.temporal =>
    have hmoment : TransCmp Moment.compare := inferInstance
    exact hmoment.isLE_trans h h'
  case text.text.text => exact TransOrd.isLE_trans h h'
  case nested.nested.nested => exact TransOrd.isLE_trans h h'

instance : TransCmp SortKey.compare :=
  transCmp_of_rank rank compareWithin compareWithin_swap compareWithin_trans

end SortKey

/-! ## The order of values -/

instance : TransCmp Value.compare where
  eq_swap := (inferInstance : TransCmp SortKey.compare).eq_swap
  isLE_trans := (inferInstance : TransCmp SortKey.compare).isLE_trans

/-- **The order for sorting is a total preorder**: turning the sides round reverses it, every value
is equal to itself, and not coming after is transitive, whatever the kinds of the values. -/
theorem compare_total_preorder (a b c : Value) :
    b.compare a = (a.compare b).swap ∧ a.compare a = .eq ∧
      (a.compare b ≠ .gt → b.compare c ≠ .gt → a.compare c ≠ .gt) := by
  refine ⟨OrientedCmp.eq_swap, ReflCmp.compare_self, ?_⟩
  intro hab hbc
  have horder : TransCmp Value.compare := inferInstance
  have hle : (a.compare c).isLE :=
    horder.isLE_trans (Ordering.isLE_iff_ne_gt.mpr hab) (Ordering.isLE_iff_ne_gt.mpr hbc)
  exact Ordering.isLE_iff_ne_gt.mp hle

-- The greatest integer stays below the double that it rounds to, and that below the same number in
-- a text.
example : (integer 9223372036854775807).compare (float (.ofInt 9223372036854775807)) = .lt ∧
    (float (.ofInt 9223372036854775807)).compare (text "9223372036854775808") = .lt := by
  decide +kernel

end Value

end DocQuery

/-! ## The order that filters use -/

namespace DocQuery.Value

open Std

/-! ### Views of one kind -/

/-- The order of the views of two values as one kind, where both have one. -/
def compareViews {α : Type} (cmp : α → α → Ordering) : Option α → Option α → Option Ordering
  | some x, some y => some (cmp x y)
  | _, _ => none

theorem compareViews_swap {α : Type} (cmp : α → α → Ordering) [OrientedCmp cmp] (x y : Option α) :
    compareViews cmp y x = (compareViews cmp x y).map Ordering.swap := by
  cases x with
  | none => cases y <;> rfl
  | some x =>
    cases y with
    | none => rfl
    | some y => exact congrArg some OrientedCmp.eq_swap

/-- Whether the value is a moment. -/
def isTemporal : Value → Bool
  | .temporal _ => true
  | _ => false

/-- Whether the value is a boolean. -/
def isBoolean : Value → Bool
  | .boolean _ => true
  | _ => false

/-- The order of two values seen as one kind, if either of them is of that kind. -/
def compareAs {α : Type} (isKind : Value → Bool) (view : Value → Option α)
    (cmp : α → α → Ordering) (a b : Value) : Option Ordering :=
  if isKind a || isKind b then compareViews cmp (view a) (view b) else none

theorem compareAs_swap {α : Type} (isKind : Value → Bool) (view : Value → Option α)
    (cmp : α → α → Ordering) [OrientedCmp cmp] (a b : Value) :
    compareAs isKind view cmp b a = (compareAs isKind view cmp a b).map Ordering.swap := by
  unfold compareAs
  rw [Bool.or_comm]
  split
  · exact compareViews_swap cmp _ _
  · rfl

/-- One kind after the other is tried: numbers, moments, booleans. -/
theorem compareCoerced?_eq (a b : Value) : a.compareCoerced? b =
    (compareAs isNumber toNumber? Number.compare a b <|>
      compareAs isTemporal toMoment? Moment.compare a b <|>
        compareAs isBoolean toBoolean? Ord.compare a b) := by
  unfold compareCoerced?
  dsimp only
  refine congrArg₂ (· <|> ·) ?_ (congrArg₂ (· <|> ·) ?_ ?_)
  · unfold compareAs
    cases a.toNumber? <;> cases b.toNumber? <;> rfl
  · unfold compareAs
    cases a.toMoment? <;> cases b.toMoment? <;> cases a <;> cases b <;> rfl
  · unfold compareAs
    cases a.toBoolean? <;> cases b.toBoolean? <;> cases a <;> cases b <;> rfl

/-! ### Turning the sides round -/

theorem compareCoerced?_swap (a b : Value) :
    b.compareCoerced? a = (a.compareCoerced? b).map Ordering.swap := by
  simp only [compareCoerced?_eq, Option.orElse_eq_orElse, Option.orElse_eq_or, Option.map_or,
    compareAs_swap _ _ _ a b]

/-- **Turning the sides round turns the order that filters use round**, whatever the kinds of the
values. -/
theorem compareLoose_swap (a b : Value) : b.compareLoose a = (a.compareLoose b).swap := by
  have hcompare : b.compare a = (a.compare b).swap := OrientedCmp.eq_swap
  unfold compareLoose
  rw [Bool.or_comm, compareCoerced?_swap, hcompare]
  split
  · rfl
  · cases a.compareCoerced? b <;> rfl

theorem looseEq_comm (a b : Value) : b.looseEq a = a.looseEq b := by
  unfold looseEq
  rw [Bool.or_comm, Bool.and_comm, compareLoose_swap]
  cases a.compareLoose b <;> rfl

/-! ### Against a number -/

/-- Whether the value is a number or a text. -/
def isWritten : Value → Bool
  | .number _ | .text _ => true
  | _ => false

variable {a b : Value}

theorem isNull_of_isWritten (h : a.isWritten = true) : a.isNull = false := by
  cases a <;> first | rfl | cases h

/-- A number or a text is sorted as the number that it is, or else as a text. -/
theorem sortKey_of_isWritten (h : a.isWritten = true) :
    (∃ m t, a.toNumber? = some m ∧ a.sortKey = .number m t) ∨
      a.toNumber? = none ∧ ∃ s, a = .text s ∧ a.sortKey = .text s := by
  cases a with
  | number m => exact Or.inl ⟨m, none, rfl, rfl⟩
  | text s =>
    cases hread : Number.read? s.toList with
    | some m => exact Or.inl ⟨m, some s, hread, by simp [sortKey, hread]⟩
    | none => exact Or.inr ⟨hread, s, rfl, by simp [sortKey, hread]⟩
  | _ => cases h

/-- Against a number, a number or a text is taken for the number that it is, and a text that is none
stands above. -/
theorem compareLoose_number (h : a.isWritten = true) (n : Number) :
    a.compareLoose (.number n) = (a.toNumber?.map (·.compare n)).getD .gt := by
  have hnumber : (Value.number n).isNull = false := rfl
  have hread : (Value.number n).toNumber? = some n := rfl
  unfold compareLoose
  rw [isNull_of_isWritten h, hnumber, Bool.or_self, if_neg Bool.false_ne_true, compareCoerced?_eq]
  rcases sortKey_of_isWritten h with ⟨m, t, hm, -⟩ | ⟨hnone, s, rfl, hkey⟩
  · simp [compareAs, compareViews, isNumber, hread, hm]
  · have habove : (text s).compare (.number n) = .gt := by
      unfold compare
      rw [hkey]
      rfl
    simp [compareAs, compareViews, isNumber, isTemporal, isBoolean, hnone, habove]

/-- What sorts up to a number, stored or in a text, is itself a number up to it. -/
theorem exists_number_of_compare_isLE (ha : a.isWritten = true) (hb : b.isWritten = true)
    (hab : (a.compare b).isLE) {m : Number} (hm : b.toNumber? = some m) :
    ∃ k, a.toNumber? = some k ∧ (k.compare m).isLE := by
  rcases sortKey_of_isWritten hb with ⟨m', t, hm', hkey'⟩ | ⟨hnone, -⟩
  · obtain rfl : m' = m := Option.some.inj (hm'.symm.trans hm)
    unfold compare at hab
    rw [hkey'] at hab
    rcases sortKey_of_isWritten ha with ⟨k, t', hk, hkey⟩ | ⟨-, s, -, hkey⟩
    · rw [hkey] at hab
      -- Both sort among the numbers, by their numbers first.
      have hwithin : ((k.compare m').then (SortKey.compareText t' t)).isLE := hab
      exact ⟨k, hk, (Ordering.isLE_then_iff_and.mp hwithin).1⟩
    · rw [hkey] at hab
      cases hab
  · rw [hnone] at hm
    cases hm

/-- **Against a number, the order that filters use never goes down along the order for sorting.** -/
theorem compareLoose_number_mono (ha : a.isWritten = true) (hb : b.isWritten = true)
    (hab : (a.compare b).isLE) (n : Number) :
    (b.compareLoose (.number n) = .lt → a.compareLoose (.number n) = .lt) ∧
      (b.compareLoose (.number n) ≠ .gt → a.compareLoose (.number n) ≠ .gt) := by
  rw [compareLoose_number ha, compareLoose_number hb]
  cases hm : b.toNumber? with
  | none =>
    -- Everything is below a text that is no number.
    refine ⟨fun h => ?_, fun h => ?_⟩
    · cases h
    · exact absurd rfl h
  | some m =>
    obtain ⟨k, hk, hle⟩ := exists_number_of_compare_isLE ha hb hab hm
    rw [hk]
    refine ⟨fun h => ?_, fun h => ?_⟩
    · exact TransCmp.lt_of_isLE_of_lt hle h
    · exact Ordering.isLE_iff_ne_gt.mp (TransCmp.isLE_trans hle (Ordering.isLE_iff_ne_gt.mpr h))

end DocQuery.Value
