import DocQuery.Number.Shortest
import DocQuery.Proofs.Number.Magnitude
import Mathlib.Data.Nat.Dist
import Mathlib.Tactic.Ring

/-!
# DocQuery.Proofs.Number.Decimals — rounding, decimals and the numbers nearest to them

A number is rounded as a quotient of natural numbers, and the exponent is guessed from the bit
lengths of the two.  The guess is corrected once, and what comes out is the least exponent at which
53 bits are enough (`Magnitude.exponentOf_le_iff`).  So nothing of the two numbers is left in it but
their quotient, and equal quotients are rounded alike (`Magnitude.nearest?_eq_of_cross`).

No magnitude is nearer to the quotient than the one it is rounded to (`Magnitude.dist_nearest?_le`).
With an exponent at least the chosen one a magnitude is a multiple of the same step, and one with a
lesser exponent lies below the least significand of 53 bits, which is a multiple of the step and not
above the quotient.

A decimal `digits * 10 ^ exponent` may be written with more digits and a lower exponent, and is read
as the same number (`Binary64.ofDecimal_mul_ten`): the guards that answer for decimals far out of
range look at the place of the first digit only, and rounding at the quotient only.

The shortest decimal of a magnitude reads back as the magnitude (`Magnitude.readsBack_shortest`).
Every decimal of up to 17 digits that the search gives was tried, and where the search gives none,
the exact expansion takes its place.
-/

namespace DocQuery

theorem Power.two_le_two {a b : Nat} (h : a ≤ b) : two a ≤ two b :=
  Nat.pow_le_pow_right (by decide) h

theorem Power.two_lt_two {a b : Nat} (h : a < b) : two a < two b :=
  Nat.pow_lt_pow_right Nat.one_lt_two h

namespace Magnitude

open Power

variable {n d : Nat}

/-! ## The exponent -/

theorem div_lt_of_le {p p' : Nat} (hd : 0 < d) (hp : p ≤ p') (h : n / (d * two p) < two 53) :
    n / (d * two p') < two 53 := by
  obtain ⟨k, rfl⟩ := Nat.exists_eq_add_of_le hp
  have hle : d * two p ≤ d * two (p + k) :=
    Nat.mul_le_mul_left d (two_le_two hp)
  exact Nat.lt_of_le_of_lt (Nat.div_le_div_left hle (Nat.mul_pos hd (two_pos p))) h

/-- Fifty-three bits more than the denominator has, and the shift, are enough for the quotient. -/
theorem div_lt_of_log2 {p : Nat} (hd : 0 < d) (hlog : n.log2 < d.log2 + p + 53) :
    n / (d * two p) < two 53 := by
  by_cases hn : n = 0
  · rw [hn, Nat.zero_div]
    exact two_pos 53
  rw [Nat.div_lt_iff_lt_mul (Nat.mul_pos hd (two_pos p))]
  calc n < two (d.log2 + p + 53) := (log2_lt_iff hn).mp hlog
    _ = two 53 * (two d.log2 * two p) := by rw [two_add, two_add, Nat.mul_comm]
    _ ≤ two 53 * (d * two p) :=
      Nat.mul_le_mul_left _ (Nat.mul_le_mul_right _ (two_log2_le hd.ne'))

/-- They are not, where the numerator has more bits than that. -/
theorem not_div_lt_of_log2 {p : Nat} (hd : 0 < d) (hlog : d.log2 + p + 53 < n.log2) :
    ¬ n / (d * two p) < two 53 := by
  have hn : n ≠ 0 := by
    rintro rfl
    rw [show Nat.log2 0 = 0 by decide] at hlog
    omega
  have hbits : d < two (d.log2 + 1) := (log2_lt_iff hd.ne').mp (Nat.lt_succ_self _)
  rw [Nat.not_lt, Nat.le_div_iff_mul_le (Nat.mul_pos hd (two_pos p))]
  calc two 53 * (d * two p) ≤ two 53 * (two (d.log2 + 1) * two p) :=
      Nat.mul_le_mul_left _ (Nat.mul_le_mul_right _ hbits.le)
    _ = two (d.log2 + 1 + p + 53) := by rw [two_add (d.log2 + 1 + p), two_add _ p, Nat.mul_comm]
    _ ≤ two n.log2 := two_le_two (by omega)
    _ ≤ n := two_log2_le hn

/-- **The exponent is the least one at which the quotient has 53 bits.** -/
theorem exponentOf_le_iff {p : Nat} (hd : 0 < d) :
    exponentOf n d ≤ p ↔ n / (d * two p) < two 53 := by
  unfold exponentOf
  simp only
  by_cases hguess : n / (d * two (n.log2 - (d.log2 + 53))) < two 53
  · rw [if_pos hguess]
    constructor
    · intro hle
      exact div_lt_of_le hd hle hguess
    · intro hlt
      by_contra hle
      exact not_div_lt_of_log2 hd (by omega) hlt
  · rw [if_neg hguess]
    constructor
    · intro hle
      exact div_lt_of_log2 hd (by omega)
    · intro hlt
      by_contra hle
      exact hguess (div_lt_of_le hd (by omega) hlt)

/-! ## Common factors -/

theorem mul_div_mul {c : Nat} (hc : 0 < c) (p : Nat) :
    c * n / (c * d * two p) = n / (d * two p) := by
  rw [Nat.mul_assoc, Nat.mul_div_mul_left _ _ hc]

theorem exponentOf_mul {c : Nat} (hc : 0 < c) (hd : 0 < d) :
    exponentOf (c * n) (c * d) = exponentOf n d := by
  have hiff (p : Nat) : exponentOf (c * n) (c * d) ≤ p ↔ exponentOf n d ≤ p := by
    rw [exponentOf_le_iff (Nat.mul_pos hc hd), exponentOf_le_iff hd, mul_div_mul hc]
  exact Nat.le_antisymm ((hiff _).mpr (Nat.le_refl _)) ((hiff _).mp (Nat.le_refl _))

theorem roundedQuotient_mul_mul {c : Nat} (hc : 0 < c) :
    roundedQuotient (c * n) (c * d) = roundedQuotient n d := by
  have htwice : 2 * (c * (n % d)) = c * (2 * (n % d)) := by ring
  unfold roundedQuotient
  simp only [Nat.mul_div_mul_left _ _ hc, Nat.mul_mod_mul_left, htwice,
    Nat.mul_lt_mul_left hc, Nat.mul_left_cancel_iff hc]

theorem nearest?_mul {c : Nat} (hc : 0 < c) (hd : 0 < d) :
    nearest? (c * n) (c * d) = nearest? n d := by
  unfold nearest?
  simp only [exponentOf_mul hc hd, Nat.mul_assoc, roundedQuotient_mul_mul hc]

/-- **Equal quotients are rounded alike.** -/
theorem nearest?_eq_of_cross {n' d' : Nat} (hd : 0 < d) (hd' : 0 < d') (h : n * d' = n' * d) :
    nearest? n d = nearest? n' d' := by
  rw [← nearest?_mul hd' hd, ← nearest?_mul hd hd', Nat.mul_comm d' n, h, Nat.mul_comm n' d,
    Nat.mul_comm d' d]

/-! ## The nearest magnitude -/

/-- No multiple of the divisor is nearer than the rounded one. -/
theorem dist_roundedQuotient_le (hd : 0 < d) (k : Nat) :
    Nat.dist (roundedQuotient n d * d) n ≤ Nat.dist (k * d) n := by
  have hsplit : n / d * d + n % d = n := by rw [Nat.mul_comm, Nat.div_add_mod]
  have hrest : n % d < d := Nat.mod_lt n hd
  have hnext : (n / d + 1) * d = n / d * d + d := Nat.succ_mul _ _
  have hother : k * d ≤ n / d * d ∨ (n / d + 1) * d ≤ k * d := by
    rcases Nat.lt_or_ge k (n / d + 1) with hk | hk
    · exact Or.inl (Nat.mul_le_mul_right d (Nat.le_of_lt_succ hk))
    · exact Or.inr (Nat.mul_le_mul_right d hk)
  unfold roundedQuotient Nat.dist
  dsimp only
  split_ifs with hup <;> omega

theorem two_53 : two 53 = two 52 * two 1 := two_add 52 1

/-- An exponent above zero is chosen only for what has 53 bits with it. -/
theorem le_of_exponentOf_pos (hd : 0 < d) (hp : 0 < exponentOf n d) :
    two 52 * (d * two (exponentOf n d)) ≤ n := by
  obtain ⟨p, hp'⟩ : ∃ p, exponentOf n d = p + 1 := ⟨exponentOf n d - 1, by omega⟩
  have hmore : ¬ n / (d * two p) < two 53 := by
    rw [← exponentOf_le_iff hd]
    omega
  have hle := (Nat.le_div_iff_mul_le (Nat.mul_pos hd (two_pos p))).mp (Nat.le_of_not_lt hmore)
  have hsame : two 52 * (d * two (p + 1)) = two 53 * (d * two p) := by
    rw [two_add p 1, two_53]
    ring
  rw [hp', hsame]
  exact hle

/-- The units of the magnitude taken: the rounded quotient at the exponent chosen. -/
theorem units_of_nearest? {m : Magnitude} (h : nearest? n d = some m) :
    m.units = roundedQuotient n (d * two (exponentOf n d)) * two (exponentOf n d) := by
  unfold nearest? ofParts? at h
  dsimp only at h
  split_ifs at h with hcarry
  · rw [← Option.some.inj h, hcarry, units]
    dsimp only
    rw [two_add (exponentOf n d) 1, two_53]
    ring
  · rw [← Option.some.inj h, units]

/-- **No magnitude is nearer to a quotient than the one it is rounded to.** -/
theorem dist_nearest?_le (hd : 0 < d) {m : Magnitude} (h : nearest? n d = some m)
    (other : Magnitude) : Nat.dist (m.units * d) n ≤ Nat.dist (other.units * d) n := by
  set p := exponentOf n d with hp
  have hstep : 0 < d * two p := Nat.mul_pos hd (two_pos p)
  have hunits : m.units * d = roundedQuotient n (d * two p) * (d * two p) := by
    rw [units_of_nearest? h]
    ring
  rw [hunits]
  rcases Nat.lt_or_ge other.exponent p with hless | hge
  · -- A lesser exponent: below the least significand of 53 bits with the exponent chosen.
    have hlow : two 52 * (d * two p) ≤ n := le_of_exponentOf_pos hd (by omega)
    have hbelow : other.units * d ≤ two 52 * (d * two p) := by
      have hone : two 53 * two (p - 1) = two 52 * two p := by
        rw [← two_add, ← two_add]
        congr 1
        omega
      have hle : other.units ≤ two 52 * two p := by
        rw [← hone]
        exact Nat.mul_le_mul (Nat.le_of_lt other.significand_lt) (two_le_two (by omega))
      calc other.units * d ≤ two 52 * two p * d := Nat.mul_le_mul_right d hle
        _ = two 52 * (d * two p) := by ring
    refine Nat.le_trans (dist_roundedQuotient_le hstep (two 52)) ?_
    unfold Nat.dist
    omega
  · -- Otherwise a multiple of the same step.
    have hmultiple : other.units * d =
        other.significand * two (other.exponent - p) * (d * two p) := by
      have hsum : other.exponent = other.exponent - p + p := by omega
      rw [units]
      conv_lhs => rw [hsum, two_add]
      ring
    rw [hmultiple]
    exact dist_roundedQuotient_le hstep _

/-! ### Quotients in range -/

theorem roundedQuotient_le {b : Nat} (h : n / d < b) : roundedQuotient n d ≤ b := by
  unfold roundedQuotient
  dsimp only
  split_ifs <;> omega

theorem div_le_roundedQuotient : n / d ≤ roundedQuotient n d := by
  unfold roundedQuotient
  dsimp only
  split_ifs <;> omega

/-- What is far below the largest magnitude is rounded to one. -/
theorem exists_nearest?_eq (hd : 0 < d) (h : exponentOf n d ≤ 2044) :
    ∃ m, nearest? n d = some m := by
  have hupper := roundedQuotient_le ((exponentOf_le_iff hd).mp (Nat.le_refl (exponentOf n d)))
  have hnormal : two 52 ≤ roundedQuotient n (d * two (exponentOf n d)) ∨ exponentOf n d = 0 := by
    rcases Nat.eq_zero_or_pos (exponentOf n d) with hzero | hpos
    · exact Or.inr hzero
    · have hstep : 0 < d * two (exponentOf n d) := Nat.mul_pos hd (two_pos _)
      exact Or.inl (Nat.le_trans ((Nat.le_div_iff_mul_le hstep).mpr (le_of_exponentOf_pos hd hpos))
        div_le_roundedQuotient)
  unfold nearest? ofParts?
  dsimp only
  by_cases hcarry : roundedQuotient n (d * two (exponentOf n d)) = two 53
  · rw [if_pos hcarry, dif_pos ⟨by decide, Or.inl (Nat.le_refl _), by omega⟩]
    exact ⟨_, rfl⟩
  · rw [if_neg hcarry, dif_pos ⟨by omega, hnormal, by omega⟩]
    exact ⟨_, rfl⟩

theorem mul_one_lt_two {k bits e : Nat} (hk : k ≤ two bits) (he : bits + 1074 < e) :
    k * one < two e :=
  calc k * one ≤ two bits * one := Nat.mul_le_mul_right _ hk
    _ = two (bits + 1074) := (two_add bits 1074).symm
    _ < two e := two_lt_two he

end Magnitude

open Power

namespace Binary64

theorem ofUnits_eq_of_cross (negative : Bool) {n d n' d' : Nat} (hd : 0 < d) (hd' : 0 < d')
    (h : n * d' = n' * d) : ofUnits negative n d = ofUnits negative n' d' := by
  unfold ofUnits
  rw [Magnitude.nearest?_eq_of_cross hd hd' h]

/-- The sign is beside the magnitude: a number rounds to a magnitude under either sign. -/
theorem ofUnits_eq_finite_iff {s t : Bool} {n d : Nat} {m : Magnitude} :
    ofUnits s n d = .finite t m ↔ s = t ∧ Magnitude.nearest? n d = some m := by
  unfold ofUnits
  cases Magnitude.nearest? n d <;> simp

/-- **A whole number of 64 bits is rounded to a finite number**, and none is nearer to it. -/
theorem exists_ofInt_eq {i : Int} (hi : i.natAbs ≤ Word.greatestUnsigned) :
    ∃ m, ofInt i = .finite (decide (i < 0)) m ∧ ∀ other : Magnitude,
      Nat.dist m.units (i.natAbs * Magnitude.one) ≤
        Nat.dist other.units (i.natAbs * Magnitude.one) := by
  have hsmall : Magnitude.exponentOf (i.natAbs * Magnitude.one) 1 ≤ 2044 := by
    rw [Magnitude.exponentOf_le_iff Nat.one_pos, Nat.one_mul,
      Nat.div_lt_iff_lt_mul (two_pos _), ← two_add]
    have hword : Word.greatestUnsigned ≤ two 64 := by decide
    exact Magnitude.mul_one_lt_two (Nat.le_trans hi hword) (by decide)
  obtain ⟨m, hm⟩ := Magnitude.exists_nearest?_eq Nat.one_pos hsmall
  refine ⟨m, ofUnits_eq_finite_iff.mpr ⟨rfl, hm⟩, fun other => ?_⟩
  have hle := Magnitude.dist_nearest?_le Nat.one_pos hm other
  rwa [Nat.mul_one, Nat.mul_one] at hle

end Binary64

/-! ## Decimals and the numbers nearest to them -/

namespace Power

theorem ten_pos (n : Nat) : 0 < ten n := Nat.pow_pos (by decide)

theorem ten_add (a b : Nat) : ten (a + b) = ten a * ten b := Nat.pow_add 10 a b

theorem two_dvd_ten (n : Nat) : two n ∣ ten n := pow_dvd_pow_of_dvd (by decide : 2 ∣ 10) n

end Power

theorem length_toDigits_le_iff {n k : Nat} (hk : 0 < k) :
    (Nat.toDigits 10 n).length ≤ k ↔ n < ten k :=
  Nat.length_toDigits_le_iff (by decide) hk

/-- A number times a power of ten is its digits with zeros behind them. -/
theorem toDigits_mul_ten {n : Nat} (hn : 0 < n) (k : Nat) :
    Nat.toDigits 10 (n * ten k) = Nat.toDigits 10 n ++ List.replicate k '0' := by
  induction k with
  | zero =>
    rw [show ten 0 = 1 from rfl, Nat.mul_one, List.replicate_zero, List.append_nil]
  | succ k ih =>
    have hnext : n * ten (k + 1) = 10 * (n * ten k) + 0 := by
      rw [ten_add, show ten 1 = 10 from rfl]
      ring
    have hpos : 0 < n * ten k := Nat.mul_pos hn (ten_pos k)
    rw [hnext, ← Nat.toDigits_append_toDigits (by decide) hpos (by decide), ih,
      List.replicate_succ', ← List.append_assoc]
    rfl

namespace Binary64

/-! ### One decimal in many forms -/

/-- The number of a decimal other than zero, with the exponent on one side of the quotient. -/
theorem ofDecimal_of_ne_zero (negative : Bool) {digits : Nat} (h : digits ≠ 0) (exponent : Int) :
    ofDecimal negative digits exponent =
      if (Nat.toDigits 10 digits).length + exponent < -330 then zero negative
      else if 310 < (Nat.toDigits 10 digits).length + exponent then infinite negative
      else ofUnits negative (digits * ten exponent.toNat * Magnitude.one) (ten (-exponent).toNat) := by
  have hzero : ten 0 = 1 := rfl
  unfold ofDecimal
  simp only [if_neg h]
  cases exponent with
  | ofNat e =>
    have hneg : (-Int.ofNat e).toNat = 0 := by simp
    rw [hneg, hzero]
    rfl
  | negSucc e =>
    have hpos : (Int.negSucc e).toNat = 0 := rfl
    rw [hpos, hzero, Nat.mul_one]
    rfl

/-- **Zeros at the end of the digits count as the exponent does.** -/
theorem ofDecimal_mul_ten (negative : Bool) (digits k : Nat) (exponent : Int) :
    ofDecimal negative (digits * ten k) exponent = ofDecimal negative digits (exponent + k) := by
  by_cases h : digits = 0
  · subst h
    rw [Nat.zero_mul]
    rfl
  have hpos : 0 < digits := Nat.pos_of_ne_zero h
  have hsize : ((Nat.toDigits 10 (digits * ten k)).length : Int) + exponent =
      (Nat.toDigits 10 digits).length + (exponent + k) := by
    rw [toDigits_mul_ten hpos, List.length_append, List.length_replicate]
    omega
  -- The two quotients differ by the power of ten that one of them has on both sides.
  have hpowers : ten k * ten exponent.toNat * ten (-(exponent + k)).toNat =
      ten (exponent + k).toNat * ten (-exponent).toNat := by
    rw [← ten_add, ← ten_add, ← ten_add]
    congr 1
    omega
  have hcross : digits * ten k * ten exponent.toNat * Magnitude.one * ten (-(exponent + k)).toNat =
      digits * ten (exponent + k).toNat * Magnitude.one * ten (-exponent).toNat := by
    calc digits * ten k * ten exponent.toNat * Magnitude.one * ten (-(exponent + k)).toNat
        = digits * Magnitude.one * (ten k * ten exponent.toNat * ten (-(exponent + k)).toNat) := by
          ring
      _ = digits * Magnitude.one * (ten (exponent + k).toNat * ten (-exponent).toNat) := by
          rw [hpowers]
      _ = digits * ten (exponent + k).toNat * Magnitude.one * ten (-exponent).toNat := by ring
  rw [ofDecimal_of_ne_zero negative (Nat.mul_pos hpos (ten_pos k)).ne',
    ofDecimal_of_ne_zero negative h, hsize,
    ofUnits_eq_of_cross negative (ten_pos _) (ten_pos _) hcross]

/-- A decimal that is read as a finite number is read as its opposite under a minus. -/
theorem ofDecimal_signed {digits : Nat} {exponent : Int} {m : Magnitude}
    (h : ofDecimal false digits exponent = .finite false m) (negative : Bool) :
    ofDecimal negative digits exponent = .finite negative m := by
  by_cases hzero : digits = 0
  · subst hzero
    have hm : zero false = .finite false m := h
    obtain ⟨-, rfl⟩ := (finite.injEq ..).mp hm
    rfl
  rw [ofDecimal_of_ne_zero false hzero] at h
  rw [ofDecimal_of_ne_zero negative hzero]
  split_ifs at h ⊢
  · obtain ⟨-, rfl⟩ := (finite.injEq ..).mp h
    rfl
  · exact ofUnits_eq_finite_iff.mpr ⟨rfl, (ofUnits_eq_finite_iff.mp h).2⟩

end Binary64

namespace Magnitude

/-! ### The shortest decimal -/

theorem units_lt (m : Magnitude) : m.units < two 53 * two 2045 := by
  calc m.units < two 53 * two m.exponent :=
      Nat.mul_lt_mul_of_pos_right m.significand_lt (two_pos _)
    _ ≤ two 53 * two 2045 := Nat.mul_le_mul_left _ (two_le_two m.exponent_le)

theorem ten_le_scale : ten 743 ≤ ten 1074 / one := by decide +kernel

theorem scale_mul_one : ten 1074 / one * one = ten 1074 := Nat.div_mul_cancel (two_dvd_ten 1074)

/-- The exact expansion has its first digit where no guard answers for it. -/
theorem length_exactDigits {m : Magnitude} (hm : m.units ≠ 0) :
    743 < (Nat.toDigits 10 m.exactDigits.digits).length ∧
      (Nat.toDigits 10 m.exactDigits.digits).length ≤ 1384 := by
  have hbound : two 53 * two 2045 * (ten 1074 / one) < ten 1384 := by decide +kernel
  constructor
  · rw [← Nat.not_le, length_toDigits_le_iff (by decide), Nat.not_lt]
    exact ten_le_scale.trans (Nat.le_mul_of_pos_left _ (Nat.pos_of_ne_zero hm))
  · rw [length_toDigits_le_iff (by decide)]
    exact Nat.lt_of_le_of_lt (Nat.mul_le_mul_right _ m.units_lt.le) hbound

theorem readsBack_exactDigits {m : Magnitude} (hm : m.units ≠ 0) :
    m.readsBack m.exactDigits = true := by
  obtain ⟨hlow, hhigh⟩ := length_exactDigits hm
  have hscale : 0 < ten 1074 / one := (ten_pos 743).trans_le ten_le_scale
  have hdigits : m.exactDigits.digits ≠ 0 := Nat.mul_ne_zero hm hscale.ne'
  have hexponent : m.exactDigits.exponent = -1074 := rfl
  have hwhole : (-1074 : Int).toNat = 0 := rfl
  have hplaces : (- -1074 : Int).toNat = 1074 := rfl
  have hcross : m.exactDigits.digits * ten 0 * one * 1 = m.units * ten 1074 := by
    rw [exactDigits, show ten 0 = 1 from rfl, Nat.mul_one, Nat.mul_one, Nat.mul_assoc,
      scale_mul_one]
  rw [readsBack, decide_eq_true_iff, Binary64.ofDecimal_of_ne_zero false hdigits, hexponent,
    if_neg (by omega), if_neg (by omega), hwhole, hplaces,
    Binary64.ofUnits_eq_of_cross false (ten_pos _) Nat.one_pos hcross, Binary64.ofUnits_units]

theorem holds_of_firstOf {α : Type} {p : α → Bool} {a b c : α}
    (h : (if p a then some a else if p b then some b else none) = some c) : p c = true := by
  split_ifs at h with ha hb
  · rw [← Option.some.inj h]
    exact ha
  · rw [← Option.some.inj h]
    exact hb

theorem readsBack_withDigits? {tie : Tie} {m : Magnitude} {count : Nat} {d : Digits}
    (h : m.withDigits? tie count = some d) : m.readsBack d = true := by
  unfold withDigits? at h
  exact holds_of_firstOf h

/-- **The shortest decimal of a magnitude reads back as the magnitude.** -/
theorem readsBack_shortest (tie : Tie) {m : Magnitude} (hm : m.units ≠ 0) :
    m.readsBack (m.shortest tie) = true := by
  unfold shortest
  cases hfound : (List.range' 1 17).findSome? (m.withDigits? tie) with
  | none => exact readsBack_exactDigits hm
  | some d =>
    obtain ⟨count, -, hcount⟩ := List.exists_of_findSome?_eq_some hfound
    exact readsBack_withDigits? hcount

end Magnitude

end DocQuery
