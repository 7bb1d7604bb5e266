import DocQuery.Number.Binary64

/-!
# DocQuery.Proofs.Number.Magnitude — what double precision holds exactly

Rounding to the nearest magnitude changes nothing that is a magnitude already
(`Magnitude.nearest?_units`), because a magnitude has one form only: the exponent that rounding
chooses for its units is its own.  So every integer up to `2 ^ 53` is held exactly
(`Binary64.ofInt_place`), and that bound is where the equality of an integer with a double begins to
confuse integers.
-/

namespace DocQuery

/-! ## Powers -/

namespace Power

theorem two_pos (n : Nat) : 0 < two n := Nat.two_pow_pos n

theorem two_add (a b : Nat) : two (a + b) = two a * two b := Nat.pow_add 2 a b

theorem log2_lt_iff {n k : Nat} (hn : n ≠ 0) : n.log2 < k ↔ n < two k := Nat.log2_lt hn

theorem two_log2_le {n : Nat} (hn : n ≠ 0) : two n.log2 ≤ n := Nat.log2_self_le hn

/-- The bit length of a number between two neighbouring powers of two. -/
theorem log2_eq {n k : Nat} (hlow : two k ≤ n) (hhigh : n < two (k + 1)) : n.log2 = k := by
  have hn : n ≠ 0 := by
    have := two_pos k
    omega
  have hlt : n.log2 < k + 1 := (log2_lt_iff hn).mpr hhigh
  have hge : ¬ n.log2 < k := fun h => absurd ((log2_lt_iff hn).mp h) (by omega)
  omega

end Power

namespace Magnitude

open Power

theorem one_pos : 0 < one := two_pos 1074

/-! ## Rounding -/

theorem roundedQuotient_mul (s : Nat) {d : Nat} (hd : 0 < d) : roundedQuotient (s * d) d = s := by
  have hq : s * d / d = s := Nat.mul_div_cancel s hd
  have hr : s * d % d = 0 := Nat.mul_mod_left s d
  unfold roundedQuotient
  simp only [hq, hr]
  rw [if_neg]
  omega

/-- The exponent chosen for whole units leaves 53 bits, or is zero. -/
theorem exponentOf_one (n : Nat) : exponentOf n 1 = n.log2 - 52 := by
  have hlog : Nat.log2 1 = 0 := by decide
  by_cases hn : n = 0
  · subst hn
    rfl
  · unfold exponentOf
    simp only [hlog, Nat.one_mul, Nat.zero_add]
    by_cases h : n.log2 < 53
    · -- Nothing has to be shifted out, so the first guess stands.
      have hp : n.log2 - 53 = 0 := by omega
      have hlt : n < two 53 := (log2_lt_iff hn).mp h
      have hz : two 0 = 1 := rfl
      rw [hp, hz, Nat.div_one, if_pos hlt]
      omega
    · -- The first guess leaves 54 bits, one too many.
      have hsplit : two n.log2 = two 53 * two (n.log2 - 53) := by
        rw [← two_add]
        congr 1
        omega
      have hge : two 53 ≤ n / two (n.log2 - 53) := by
        rw [Nat.le_div_iff_mul_le (two_pos _), ← hsplit]
        exact two_log2_le hn
      rw [if_neg (by omega)]
      omega

/-- The exponent chosen for the units of a magnitude is its own. -/
theorem exponentOf_units (m : Magnitude) : exponentOf m.units 1 = m.exponent := by
  rw [exponentOf_one]
  rcases m.normal with hnormal | hzero
  · have hlow : two (52 + m.exponent) ≤ m.units := by
      rw [two_add]
      exact Nat.mul_le_mul_right _ hnormal
    have hhigh : m.units < two (52 + m.exponent + 1) := by
      have hsum : 52 + m.exponent + 1 = 53 + m.exponent := by omega
      rw [hsum, two_add]
      exact Nat.mul_lt_mul_of_pos_right m.significand_lt (two_pos _)
    rw [log2_eq hlow hhigh]
    omega
  · have hz : two 0 = 1 := rfl
    have hunits : m.units = m.significand := by rw [units, hzero, hz, Nat.mul_one]
    rw [hunits, hzero]
    by_cases hs : m.significand = 0
    · rw [hs]
      rfl
    · have := (log2_lt_iff hs).mpr m.significand_lt
      omega

/-- **Rounding keeps what is a magnitude already.** -/
theorem nearest?_units (m : Magnitude) : nearest? m.units 1 = some m := by
  have hround : roundedQuotient m.units (1 * two m.exponent) = m.significand := by
    rw [Nat.one_mul]
    exact roundedQuotient_mul m.significand (two_pos _)
  have hne : m.significand ≠ two 53 := Nat.ne_of_lt m.significand_lt
  unfold nearest?
  simp only [exponentOf_units, hround, if_neg hne]
  exact dif_pos ⟨m.significand_lt, m.normal, m.exponent_le⟩

/-! ## Whole numbers -/

/-- A positive whole number, moved up to exactly 53 bits. -/
theorem normalized_bounds {k : Nat} (hzero : k ≠ 0) (hlog : k.log2 < 53) :
    k * two (52 - k.log2) < two 53 ∧ two 52 ≤ k * two (52 - k.log2) := by
  have hbound : k < two (k.log2 + 1) := (log2_lt_iff hzero).mp (by omega)
  have hupper : two (k.log2 + 1) * two (52 - k.log2) = two 53 := by
    rw [← two_add]
    congr 1
    omega
  have hlower : two k.log2 * two (52 - k.log2) = two 52 := by
    rw [← two_add]
    congr 1
    omega
  constructor
  · rw [← hupper]
    exact Nat.mul_lt_mul_of_pos_right hbound (two_pos _)
  · rw [← hlower]
    exact Nat.mul_le_mul_right _ (two_log2_le hzero)

/-- A whole number of up to 53 bits has a magnitude. -/
theorem exists_units_eq_mul_one {k : Nat} (hk : k ≤ two 53) :
    ∃ m : Magnitude, m.units = k * one := by
  by_cases hzero : k = 0
  · subst hzero
    exact ⟨zero, by rw [units, zero, Nat.zero_mul, Nat.zero_mul]⟩
  rcases Nat.lt_or_eq_of_le hk with hlt | rfl
  · have hlog : k.log2 < 53 := (log2_lt_iff hzero).mpr hlt
    obtain ⟨hupper, hlower⟩ := normalized_bounds hzero hlog
    refine ⟨⟨k * two (52 - k.log2), 1022 + k.log2, hupper, Or.inl hlower, by omega⟩, ?_⟩
    have hone : 52 - k.log2 + (1022 + k.log2) = 1074 := by omega
    rw [units, Nat.mul_assoc, ← two_add, hone]
    rfl
  · -- The bound itself has 54 bits, but the last of them is zero.
    refine ⟨⟨two 52, 1075, by decide, Or.inl (Nat.le_refl _), by decide⟩, ?_⟩
    have hsum : 52 + 1075 = 53 + 1074 := rfl
    rw [units, one, ← two_add, ← two_add]
    exact congrArg two hsum

end Magnitude

namespace Binary64

open Power

theorem ofUnits_units (negative : Bool) (m : Magnitude) :
    ofUnits negative m.units 1 = .finite negative m := by
  unfold ofUnits
  rw [Magnitude.nearest?_units]

/-- **An integer of up to 53 bits is held exactly.** -/
theorem ofInt_place {i : Int} (hi : i.natAbs ≤ two 53) : (ofInt i).place = Place.ofInt i := by
  obtain ⟨m, hm⟩ := Magnitude.exists_units_eq_mul_one hi
  have hunits : signedUnits (decide (i < 0)) m = i * Magnitude.one := by
    unfold signedUnits
    rw [hm, Int.natCast_mul]
    by_cases h : i < 0
    · have hneg : (i.natAbs : Int) = -i := by omega
      rw [if_pos (decide_eq_true h), hneg, Int.neg_mul, Int.neg_neg]
    · have hpos : (i.natAbs : Int) = i := by omega
      rw [if_neg (by simpa using h), hpos]
  unfold ofInt
  rw [← hm, ofUnits_units]
  exact congrArg Place.units hunits

end Binary64

end DocQuery
