import DocQuery.Builtin.Aggregate
import Mathlib.Data.List.Perm.Basic

/-!
# DocQuery.Proofs.Builtin.Sums — sums of integers

A sum is taken from left to right, and it stays an integer as long as what has been added so far
fits 64 bits.  So it is the sum of the integers exactly if all sums on the way fit, and it may be a
double although the last one does.  On the way through any order of the integers no sum leaves the
range between the sum of the negative ones and that of the positive ones, and two orders reach its
ends.  So the order does not matter exactly if these two sums fit (`Builtin.sum_integers`).
-/

namespace DocQuery

/-! ## The range of 64 bits -/

namespace Word

/-- The integer is one of 64 bits. -/
def Fits (n : Int) : Prop := least ≤ n ∧ n ≤ greatest

instance (n : Int) : Decidable (Fits n) := inferInstanceAs (Decidable (_ ∧ _))

theorem fits_toInt (i : Int64) : Fits i.toInt :=
  ⟨Int64.le_toInt i, Int.le_of_lt_add_one (Int64.toInt_lt i)⟩

theorem Fits.exists_ofInt? {n : Int} (h : Fits n) : ∃ i, ofInt? n = some i ∧ i.toInt = n :=
  ⟨Int64.ofInt n, if_pos h, Int64.toInt_ofInt_of_le h.1 (Int.lt_add_one_of_le h.2)⟩

/-- What lies between integers of 64 bits is one. -/
theorem Fits.between {low n high : Int} (hlow : Fits low) (hhigh : Fits high)
    (h : low ≤ n ∧ n ≤ high) : Fits n :=
  ⟨Int.le_trans hlow.1 h.1, Int.le_trans h.2 hhigh.2⟩

end Word

namespace Builtin

open Word

/-! ## Totals -/

/-- The sum of integers, however great. -/
def total : List Int64 → Int
  | [] => 0
  | t :: rest => t.toInt + total rest

@[simp]
theorem total_nil : total [] = 0 := rfl

@[simp]
theorem total_cons (t : Int64) (rest : List Int64) : total (t :: rest) = t.toInt + total rest := rfl

theorem total_append (terms more : List Int64) :
    total (terms ++ more) = total terms + total more := by
  induction terms with
  | nil => simp
  | cons t rest ih => rw [List.cons_append, total_cons, total_cons, ih, Int.add_assoc]

theorem total_perm {terms terms' : List Int64} (h : terms.Perm terms') :
    total terms = total terms' := by
  induction h with
  | nil => rfl
  | cons t _ ih => rw [total_cons, total_cons, ih]
  | swap t u rest => simp only [total_cons, Int.add_left_comm]
  | trans _ _ ih ih' => exact ih.trans ih'

/-- The positive ones among integers. -/
def positives (terms : List Int64) : List Int64 := terms.filter fun t => 0 < t.toInt

/-- The negative ones among integers. -/
def negatives (terms : List Int64) : List Int64 := terms.filter fun t => t.toInt < 0

/-- A sum is no less than the one of the negative terms, and no greater than the one of the positive
terms. -/
theorem total_between (terms : List Int64) :
    (total (negatives terms) ≤ 0 ∧ 0 ≤ total (positives terms)) ∧
      total (negatives terms) ≤ total terms ∧ total terms ≤ total (positives terms) := by
  induction terms with
  | nil => decide
  | cons t rest ih =>
    unfold negatives positives at *
    by_cases hpositive : 0 < t.toInt <;> by_cases hnegative : t.toInt < 0 <;>
      simp [hpositive, hnegative] <;> omega

/-- So are the sums on the way. -/
theorem total_prefix_between {front terms : List Int64} (h : front <+: terms) :
    total (negatives terms) ≤ total front ∧ total front ≤ total (positives terms) := by
  obtain ⟨rest, rfl⟩ := h
  have hfront := (total_between front).2
  have hrest := (total_between rest).1
  have hnegatives : total (negatives (front ++ rest)) =
      total (negatives front) + total (negatives rest) := by
    rw [negatives, List.filter_append, total_append]
    rfl
  have hpositives : total (positives (front ++ rest)) =
      total (positives front) + total (positives rest) := by
    rw [positives, List.filter_append, total_append]
    rfl
  omega

/-! ## Adding step by step -/

/-- All sums on the way from left to right fit 64 bits. -/
def FitsThroughout (terms : List Int64) : Prop := ∀ front, front <+: terms → Fits (total front)

theorem foldl_addInteger?_none (ns : List Number) : ns.foldl addInteger? none = none := by
  induction ns with
  | nil => rfl
  | cons n rest ih => exact ih

/-- Adding goes on as long as the sums fit. -/
theorem foldl_addInteger?_eq_some {terms : List Int64} (start : Int64)
    (h : ∀ front, front <+: terms → Fits (start.toInt + total front)) :
    ∃ i, (terms.map Number.integer).foldl addInteger? (some start) = some i ∧
      i.toInt = start.toInt + total terms := by
  induction terms generalizing start with
  | nil => exact ⟨start, rfl, (Int.add_zero _).symm⟩
  | cons t rest ih =>
    have hfirst : Fits (start.toInt + t.toInt) := by
      simpa using h [t] (List.prefix_append [t] rest)
    obtain ⟨next, hnext, hsum⟩ := hfirst.exists_ofInt?
    have hstep : addInteger? (some start) (.integer t) = some next := hnext
    rw [List.map_cons, List.foldl_cons, hstep, total_cons, ← Int.add_assoc, ← hsum]
    refine ih next fun front hfront => ?_
    rw [hsum, Int.add_assoc, ← total_cons]
    exact h _ ((List.prefix_cons_inj t).mpr hfront)

/-- Adding is given up for good once a sum does not fit. -/
theorem foldl_addInteger?_eq_none {terms : List Int64} (start : Int64)
    (h : ∃ front, front <+: terms ∧ ¬ Fits (start.toInt + total front)) :
    (terms.map Number.integer).foldl addInteger? (some start) = none := by
  obtain ⟨front, hfront, hnot⟩ := h
  induction terms generalizing start front with
  | nil =>
    obtain rfl := List.prefix_nil.mp hfront
    exact absurd (by simpa using fits_toInt start) hnot
  | cons t rest ih =>
    cases front with
    | nil => exact absurd (by simpa using fits_toInt start) hnot
    | cons s front =>
      obtain ⟨rfl, hrest⟩ := List.cons_prefix_cons.mp hfront
      rw [List.map_cons, List.foldl_cons]
      -- If this sum still fits, a later one does not.
      by_cases hfirst : Fits (start.toInt + s.toInt)
      · obtain ⟨next, hnext, hsum⟩ := hfirst.exists_ofInt?
        have hstep : addInteger? (some start) (.integer s) = some next := hnext
        rw [hstep]
        refine ih next front hrest ?_
        rwa [hsum, Int.add_assoc, ← total_cons]
      · have hstep : addInteger? (some start) (.integer s) = none := if_neg hfirst
        rw [hstep]
        exact foldl_addInteger?_none _

/-! ## Sums -/

/-- The integer that a value converts to. -/
def integerOf? (v : Value) : Option Int64 :=
  match v.toNumber? with
  | some (.integer i) => some i
  | _ => none

/-- The integers that the values convert to. -/
def integers (values : List Value) : List Int64 := values.filterMap integerOf?

/-- All numbers that the values convert to are integers. -/
def AllIntegers (values : List Value) : Prop := ∀ n ∈ numbers values, ∃ i, n = .integer i

/-- The sum of the values is this integer. -/
def SumsTo (values : List Value) (n : Int) : Prop :=
  ∃ i : Int64, aggregate .sum values = .integer i ∧ i.toInt = n

variable {values values' : List Value}

theorem allIntegers_of_numbers_eq {terms : List Int64} (h : numbers values = terms.map .integer) :
    AllIntegers values := by
  intro n hn
  rw [h] at hn
  obtain ⟨i, -, rfl⟩ := List.mem_map.mp hn
  exact ⟨i, rfl⟩

theorem AllIntegers.perm (h : AllIntegers values) (hperm : values'.Perm values) :
    AllIntegers values' := fun n hn => h n ((hperm.filterMap _).mem_iff.mp hn)

theorem AllIntegers.numbers_eq (h : AllIntegers values) :
    numbers values = (integers values).map Number.integer := by
  unfold integers numbers
  rw [List.map_filterMap]
  refine List.filterMap_congr fun v hv => ?_
  unfold integerOf?
  cases hn : v.toNumber? with
  | none => rfl
  | some n =>
    obtain ⟨i, rfl⟩ := h n (List.mem_filterMap.mpr ⟨v, hv, hn⟩)
    rfl

/-- Null converts to no number, so a sum may as well be taken of all values. -/
theorem aggregate_sum (values : List Value) : aggregate .sum values = sumOf values := by
  have hnumbers : numbers (values.filter fun v => !v.isNull) = numbers values := by
    unfold numbers
    rw [List.filterMap_filter]
    refine List.filterMap_congr fun v _ => ?_
    cases v <;> rfl
  show sumOf (values.filter fun v => !v.isNull) = sumOf values
  unfold sumOf
  rw [hnumbers]

/-- The sum of integers is an integer if all sums on the way fit. -/
theorem AllIntegers.sumsTo (h : AllIntegers values) (hfits : FitsThroughout (integers values)) :
    SumsTo values (total (integers values)) := by
  have hzero : (0 : Int64).toInt = 0 := rfl
  have hstart : ∀ front, front <+: integers values → Fits ((0 : Int64).toInt + total front) := by
    intro front hfront
    rw [hzero, Int.zero_add]
    exact hfits front hfront
  obtain ⟨i, hfold, hsum⟩ := foldl_addInteger?_eq_some 0 hstart
  refine ⟨i, ?_, by rw [hsum, hzero, Int.zero_add]⟩
  rw [aggregate_sum, sumOf, h.numbers_eq, hfold]

/-- The sum of integers is a double if one on the way does not fit. -/
theorem AllIntegers.aggregate_sum_eq_float (h : AllIntegers values)
    (hfits : ¬ FitsThroughout (integers values)) :
    aggregate .sum values = .float (floatSum (.zero false) (numbers values)) := by
  have hstart : ∃ front, front <+: integers values ∧
      ¬ Fits ((0 : Int64).toInt + total front) := by
    have hzero : (0 : Int64).toInt = 0 := rfl
    simpa [FitsThroughout, hzero] using hfits
  rw [aggregate_sum, sumOf, h.numbers_eq, foldl_addInteger?_eq_none 0 hstart]

theorem AllIntegers.sumsTo_iff (h : AllIntegers values) :
    SumsTo values (total (integers values)) ↔ FitsThroughout (integers values) := by
  refine ⟨fun ⟨i, hi, _⟩ => ?_, h.sumsTo⟩
  by_contra hfits
  rw [h.aggregate_sum_eq_float hfits] at hi
  cases hi

/-! ## Orders -/

/-- The values with those in front whose integers pass a test. -/
def inFront (test : Int64 → Bool) (values : List Value) : List Value :=
  values.filter (fun v => (integerOf? v).any test) ++
    values.filter fun v => !(integerOf? v).any test

theorem inFront_perm (test : Int64 → Bool) (values : List Value) :
    (inFront test values).Perm values := List.filter_append_perm _ values

theorem integers_inFront (test : Int64 → Bool) (values : List Value) :
    (integers values).filter test <+: integers (inFront test values) := by
  have hfront : integers (values.filter fun v => (integerOf? v).any test) =
      (integers values).filter test := by
    unfold integers
    rw [List.filterMap_filter, List.filter_filterMap]
    refine List.filterMap_congr fun v _ => ?_
    cases integerOf? v with
    | none => rfl
    | some i => cases htest : test i <;> simp [Option.filter, htest]
  unfold inFront integers
  rw [List.filterMap_append]
  exact hfront ▸ List.prefix_append _ _

/-- All orders of the values have the sum of the integers exactly if the sums of the negative and of
the positive ones fit: no sum on the way leaves the range between them, and with the ones or the
others in front it reaches its ends. -/
theorem AllIntegers.sumsTo_perm_iff (h : AllIntegers values) :
    (∀ values', values'.Perm values → SumsTo values' (total (integers values))) ↔
      Fits (total (negatives (integers values))) ∧ Fits (total (positives (integers values))) := by
  have htotal {values' : List Value} (hperm : values'.Perm values) :
      (integers values').Perm (integers values) := hperm.filterMap _
  constructor
  · intro hall
    -- With the integers that pass a test in front, their sum is one on the way.
    have hreach (test : Int64 → Bool) : Fits (total ((integers values).filter test)) := by
      have hperm := inFront_perm test values
      have hsum := hall _ hperm
      rw [← total_perm (htotal hperm), (h.perm hperm).sumsTo_iff] at hsum
      exact hsum _ (integers_inFront test values)
    exact ⟨hreach _, hreach _⟩
  · rintro ⟨hlow, hhigh⟩ values' hperm
    rw [← total_perm (htotal hperm), (h.perm hperm).sumsTo_iff]
    intro front hfront
    have hbetween := total_prefix_between hfront
    rw [negatives, positives, total_perm ((htotal hperm).filter _),
      total_perm ((htotal hperm).filter _)] at hbetween
    exact hlow.between hhigh hbetween

/-- **A sum of integers is their sum exactly if all sums on the way fit 64 bits**, and otherwise a
double.  It is their sum in every order exactly if the sum of the negative ones and that of the
positive ones fit. -/
theorem sum_integers (h : AllIntegers values) :
    (SumsTo values (total (integers values)) ↔ FitsThroughout (integers values)) ∧
    (¬ FitsThroughout (integers values) →
      aggregate .sum values = .float (floatSum (.zero false) (numbers values))) ∧
    ((∀ values', values'.Perm values → SumsTo values' (total (integers values))) ↔
      Fits (total (negatives (integers values))) ∧ Fits (total (positives (integers values)))) :=
  ⟨h.sumsTo_iff, h.aggregate_sum_eq_float, h.sumsTo_perm_iff⟩

/-- Booleans, texts and integers, among them the greatest one, in any order. -/
theorem sum_integers_mixed :
    let values : List Value :=
      [.integer 9223372036854775806, .null, .text "-5", .boolean true, .text "none"]
    AllIntegers values ∧ Fits (total (negatives (integers values))) ∧
      Fits (total (positives (integers values))) ∧
        ∀ values', values'.Perm values → SumsTo values' 9223372036854775802 := by
  intro values
  have hnumbers : numbers values = [9223372036854775806, -5, 1].map .integer := rfl
  have h := allIntegers_of_numbers_eq hnumbers
  have hlow : Fits (total (negatives (integers values))) := by decide
  have hhigh : Fits (total (positives (integers values))) := by decide
  exact ⟨h, hlow, hhigh, (sum_integers h).2.2.mpr ⟨hlow, hhigh⟩⟩

/-- The greatest integer, one and minus one sum up to an integer, but not in this order. -/
theorem not_sumsTo_greatest :
    let values : List Value := [.integer 9223372036854775807, .integer 1, .integer (-1)]
    let reordered : List Value := [.integer 1, .integer (-1), .integer 9223372036854775807]
    AllIntegers values ∧ Fits (total (integers values)) ∧ reordered.Perm values ∧
      ¬ SumsTo values (total (integers values)) ∧ SumsTo reordered (total (integers values)) := by
  intro values reordered
  have hnumbers : numbers values = [9223372036854775807, 1, -1].map .integer := rfl
  have h := allIntegers_of_numbers_eq hnumbers
  have hperm : reordered.Perm values :=
    (List.perm_append_comm : ([.integer 1, .integer (-1)] ++ [.integer 9223372036854775807] :
      List Value).Perm _)
  refine ⟨h, by decide, hperm, ?_, 9223372036854775807, rfl, rfl⟩
  rw [h.sumsTo_iff]
  intro hfits
  have hfront := hfits [9223372036854775807, 1] (List.prefix_append _ [-1])
  exact absurd hfront (by decide)

end Builtin

end DocQuery
