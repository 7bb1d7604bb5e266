import DocQuery.Number.Basic
import DocQuery.Proofs.Number.Magnitude
import Mathlib.Order.Defs.LinearOrder
import Mathlib.Tactic.Linarith
import Mathlib.Tactic.Ring

/-!
# DocQuery.Proofs.Number.Order — the order of numbers is the order of the number line

`Number.compare` never turns an integer into a double: it compares with the whole part of the double
and lets the fraction break the tie.  Here that procedure is shown to be the order of the places on
the number line (`Number.compare_eq_place`), where an integer and a double both stand at a whole
number of units of `2 ^ -1074`.  The order of the places is a total preorder, and so is the order of
the numbers.
-/

namespace DocQuery

open Std

/-! ## The number line -/

namespace Binary64.Place

theorem compare_swap (p q : Place) : q.compare p = (p.compare q).swap := by
  cases p <;> cases q <;> simp [Place.compare, ← OrientedOrd.eq_swap]

theorem compare_isLE_trans {p q r : Place} (hpq : (p.compare q).isLE) (hqr : (q.compare r).isLE) :
    (p.compare r).isLE := by
  cases p <;> cases q <;> cases r <;> simp_all [Place.compare]
  exact TransOrd.isLE_trans hpq hqr

instance : TransCmp Place.compare where
  eq_swap := compare_swap _ _
  isLE_trans := compare_isLE_trans

instance : LawfulEqCmp Place.compare where
  eq_of_compare {p q} h := by
    cases p <;> cases q <;> simp_all [Place.compare]

end Binary64.Place

namespace Number

/-- Where a number stands on the number line. -/
def place : Number → Binary64.Place
  | .integer i => .ofInt i.toInt
  | .float x => x.place

/-! ## Whole part and fraction -/

/-- A multiple compares with whole parts first and what is left over second. -/
theorem compare_mul_add (i w : Int) {o r : Int} (hlow : -o < r) (hhigh : r < o) :
    Ord.compare (i * o) (w * o + r) = (Ord.compare i w).then (Ord.compare 0 r) := by
  have ho : 0 ≤ o := by omega
  -- Different whole parts are at least one whole apart, which is more than what is left over.
  rcases Int.lt_trichotomy i w with h | rfl | h
  · have hstep : (i + 1) * o ≤ w * o := Int.mul_le_mul_of_nonneg_right h ho
    rw [Int.compare_eq_lt.mpr h, Int.compare_eq_lt.mpr (by linarith)]
    rfl
  · rw [Int.compare_eq_eq.mpr (rfl : i = i), Ordering.then]
    rcases Int.lt_trichotomy 0 r with hr | rfl | hr
    · rw [Int.compare_eq_lt.mpr hr, Int.compare_eq_lt.mpr (by omega)]
    · rw [Int.add_zero, Int.compare_eq_eq.mpr rfl, Int.compare_eq_eq.mpr rfl]
    · rw [Int.compare_eq_gt.mpr hr, Int.compare_eq_gt.mpr (by omega)]
  · have hstep : (w + 1) * o ≤ i * o := Int.mul_le_mul_of_nonneg_right h ho
    rw [Int.compare_eq_gt.mpr h, Int.compare_eq_gt.mpr (by linarith)]
    rfl

/-- The whole part of a double from `-2 ^ 63` up to `2 ^ 63` is within the integers of 64 bits. -/
theorem toIntWithin_eq_tdiv {negative : Bool} {m : Magnitude}
    (hlow : -(Power.two 63 * Magnitude.one : Int) ≤ Binary64.signedUnits negative m)
    (hhigh : Binary64.signedUnits negative m < Power.two 63 * Magnitude.one) :
    (Binary64.finite negative m).toIntWithin Word.least Word.greatest =
      (Binary64.signedUnits negative m).tdiv Magnitude.one := by
  have hone : (0 : Int) < Magnitude.one := Int.natCast_pos.mpr Magnitude.one_pos
  have hleast : Word.least = -(Power.two 63 : Int) := rfl
  have hgreatest : Word.greatest = (Power.two 63 : Int) - 1 := rfl
  have hwhole : ((m.units / Magnitude.one : Nat) : Int) = (m.units : Int) / Magnitude.one := rfl
  unfold Binary64.toIntWithin
  unfold Binary64.signedUnits at hlow hhigh ⊢
  -- The whole part is cut towards zero, so that only the bound on the side of the sign is near.
  cases negative with
  | false =>
    simp only [Bool.false_eq_true, if_false] at hhigh ⊢
    have habove : (m.units : Int) / Magnitude.one < Power.two 63 := Int.ediv_lt_of_lt_mul hone hhigh
    have hbelow : 0 ≤ (m.units : Int) / Magnitude.one := Int.ediv_nonneg (Int.natCast_nonneg _) hone.le
    rw [Int.natCast_tdiv_eq_ediv]
    omega
  | true =>
    simp only [if_true] at hlow ⊢
    have habove : (m.units : Int) / Magnitude.one ≤ Power.two 63 := by
      have := Int.ediv_le_ediv hone (neg_le_neg_iff.mp hlow)
      rwa [Int.mul_ediv_cancel _ hone.ne'] at this
    have hbelow : 0 ≤ (m.units : Int) / Magnitude.one := Int.ediv_nonneg (Int.natCast_nonneg _) hone.le
    rw [Int.neg_tdiv, Int.natCast_tdiv_eq_ediv]
    omega

/-! ## The order -/

theorem compare_toInt (i j : Int64) : Ord.compare i j = Ord.compare i.toInt j.toInt := by
  show compareOfLessAndEq i j = compareOfLessAndEq i.toInt j.toInt
  unfold compareOfLessAndEq
  simp only [Int64.lt_iff_toInt_lt, ← Int64.toInt_inj]

theorem compareMixed_eq_place (i : Int64) (x : Binary64) :
    compareMixed i x = (Binary64.Place.ofInt i.toInt).compare x.place := by
  have hone : (0 : Int) < Magnitude.one := Int.natCast_pos.mpr Magnitude.one_pos
  cases x with
  | nan negative => rfl
  | infinite negative => cases negative <;> rfl
  | finite negative m =>
    have hlow : -(Power.two 63 : Int) ≤ i.toInt := Int64.le_toInt i
    have hhigh : i.toInt < Power.two 63 := Int64.toInt_lt i
    unfold compareMixed
    simp only [Binary64.place, Binary64.Place.ofInt, Binary64.Place.compare]
    -- A double beyond 64 bits is on one side of every integer; within them its whole part is exact.
    split_ifs with habove hbelow
    · have : i.toInt * Magnitude.one < Power.two 63 * Magnitude.one :=
        Int.mul_lt_mul_of_pos_right hhigh hone
      exact (Int.compare_eq_lt.mpr (by omega)).symm
    · have : -(Power.two 63 : Int) * Magnitude.one ≤ i.toInt * Magnitude.one :=
        Int.mul_le_mul_of_nonneg_right hlow hone.le
      exact (Int.compare_eq_gt.mpr (by linarith)).symm
    · rw [toIntWithin_eq_tdiv (Int.not_lt.mp hbelow) (Int.not_le.mp habove),
        ← compare_mul_add _ _ (Int.lt_tmod_of_pos _ hone) (Int.tmod_lt_of_pos _ hone),
        Int.tdiv_mul_add_tmod]

/-- **Numbers compare as their places on the number line do.** -/
theorem compare_eq_place (a b : Number) : a.compare b = a.place.compare b.place := by
  cases a with
  | integer i =>
    cases b with
    | integer j =>
      have hone : (0 : Int) < Magnitude.one := Int.natCast_pos.mpr Magnitude.one_pos
      have hplace := compare_mul_add i.toInt j.toInt (r := 0) (Int.neg_neg_of_pos hone) hone
      rw [Int.add_zero, Int.compare_eq_eq.mpr rfl, Ordering.then_eq] at hplace
      exact (compare_toInt i j).trans hplace.symm
    | float y => exact compareMixed_eq_place i y
  | float x =>
    cases b with
    | integer j =>
      rw [Number.compare, compareMixed_eq_place, ← Binary64.Place.compare_swap]
      rfl
    | float y => rfl

instance : TransCmp Number.compare where
  eq_swap {a b} := by
    rw [compare_eq_place, compare_eq_place]
    exact OrientedCmp.eq_swap
  isLE_trans {a b c} hab hbc := by
    rw [compare_eq_place] at hab hbc ⊢
    exact TransCmp.isLE_trans hab hbc

end Number

end DocQuery
