import DocQuery.Proofs.Grammar.Literal
import DocQuery.Proofs.Number.Decimals
import DocQuery.Proofs.Number.Sameness
import Mathlib.Data.List.TakeDrop

/-!
# DocQuery.Proofs.Number.Texts — numbers read back from their texts

A finite double is written in positional form: the digits of its shortest decimal, zeros, and a
point where one is needed (`Decimal.IsPositional`).  Read as a double this is the number itself.
Where there is no point and the digits fit an integer of 64 bits, an integer is read in its place,
and that one rounds to the number.  So what is read is always the same number
(`Number.exists_read?_write`).
-/

namespace DocQuery

open Power Grammar
open Text (Trimmed isBlank)

namespace Decimal

/-! ## Digits -/

theorem ofDigits_append_zeros (ds : List Char) (k : Nat) :
    ofDigits (ds ++ List.replicate k '0') = ofDigits ds * ten k := by
  have happend : ofDigits (ds ++ List.replicate k '0') =
      Nat.ofDigitChars 10 (List.replicate k '0') (ofDigits ds) := Nat.ofDigitChars_append 0
  rw [happend, Nat.ofDigitChars_replicate_zero, Nat.mul_comm]
  rfl

theorem ofDigits_zeros_append (k : Nat) (ds : List Char) :
    ofDigits (List.replicate k '0' ++ ds) = ofDigits ds := by
  have happend : ofDigits (List.replicate k '0' ++ ds) =
      Nat.ofDigitChars 10 ds (Nat.ofDigitChars 10 (List.replicate k '0') 0) :=
    Nat.ofDigitChars_append 0
  rw [happend, Nat.ofDigitChars_replicate_zero, Nat.mul_zero]
  rfl

theorem isDigit_of_mem_zeros {k : Nat} {c : Char} (h : c ∈ List.replicate k '0') :
    c.isDigit = true := by
  rw [(List.mem_replicate.mp h).2]
  rfl

theorem spanDigits_append {ds s : List Char} (hds : ∀ c ∈ ds, c.isDigit = true)
    (hs : ∀ c ∈ s.head?, c.isDigit = false) : spanDigits (ds ++ s) = (ds, s) := by
  rw [spanDigits, List.span_eq_takeWhile_dropWhile, List.takeWhile_append_of_pos hds,
    List.dropWhile_append_of_pos hds]
  cases s with
  | nil => simp
  | cons c s =>
    have hc : c.isDigit = false := hs c rfl
    simp [hc]

theorem spanDigits_self {ds : List Char} (hds : ∀ c ∈ ds, c.isDigit = true) :
    spanDigits ds = (ds, []) := by
  have h := spanDigits_append (s := []) hds (by simp)
  rwa [List.append_nil] at h

/-! ## Positional form -/

/-- A decimal in positional form: digits, and a point with digits behind it if it has a fraction. -/
structure IsPositional (text whole fraction : List Char) : Prop where
  nonempty : whole ≠ []
  whole_digits : ∀ c ∈ whole, c.isDigit = true
  fraction_digits : ∀ c ∈ fraction, c.isDigit = true
  text_eq : text = whole ++ '.' :: fraction ∨ fraction = [] ∧ text = whole

namespace IsPositional

variable {text whole fraction : List Char}

theorem exists_cons (h : IsPositional text whole fraction) :
    ∃ c rest, text = c :: rest ∧ c.isDigit = true := by
  obtain ⟨c, rest, hwhole⟩ := List.exists_cons_of_ne_nil h.nonempty
  have hc : c.isDigit = true := h.whole_digits c (by rw [hwhole]; exact List.mem_cons_self)
  rcases h.text_eq with heq | ⟨-, heq⟩ <;> rw [heq, hwhole]
  · exact ⟨c, _, rfl, hc⟩
  · exact ⟨c, _, rfl, hc⟩

theorem isDigit_or_eq (h : IsPositional text whole fraction) :
    ∀ c ∈ text, c.isDigit = true ∨ c = '.' := by
  intro c hc
  rcases h.text_eq with rfl | ⟨-, rfl⟩
  · rcases List.mem_append.mp hc with hmem | hmem
    · exact Or.inl (h.whole_digits c hmem)
    · rcases List.mem_cons.mp hmem with rfl | hmem
      · exact Or.inr rfl
      · exact Or.inl (h.fraction_digits c hmem)
  · exact Or.inl (h.whole_digits c hc)

theorem readUnsigned? (h : IsPositional text whole fraction) (negative : Bool) :
    readUnsigned? negative text =
      some (Binary64.ofDecimal negative (ofDigits (whole ++ fraction)) (0 - fraction.length)) := by
  rcases h.text_eq with rfl | ⟨rfl, rfl⟩
  · have hwhole := spanDigits_append (s := '.' :: fraction) h.whole_digits
      (by rintro c ⟨⟩; rfl)
    unfold Decimal.readUnsigned?
    simp only [hwhole, spanDigits_self h.fraction_digits]
    rw [if_neg fun hnil => h.nonempty hnil.1]
    rfl
  · unfold Decimal.readUnsigned?
    simp only [spanDigits_self h.whole_digits]
    rw [if_neg fun hnil => h.nonempty hnil.1]
    rfl

/-- As an integer nothing is read but digits alone. -/
theorem readNat? (h : IsPositional text whole fraction) {n : Nat} (hn : readNat? text = some n) :
    fraction = [] ∧ n = ofDigits whole := by
  unfold Decimal.readNat? at hn
  split_ifs at hn with hdigits
  rcases h.text_eq with heq | ⟨hfraction, rfl⟩
  · have hpoint : '.'.isDigit = true := List.all_eq_true.mp hdigits.2 '.' (by simp [heq])
    cases hpoint
  · exact ⟨hfraction, (Option.some.inj hn).symm⟩

end IsPositional

/-- A text under its sign. -/
def signed (negative : Bool) (text : List Char) : List Char :=
  if negative then '-' :: text else text

theorem spanSign_signed {text : List Char} (h : ∃ c rest, text = c :: rest ∧ c.isDigit = true)
    (negative : Bool) : spanSign (signed negative text) = (negative, text) := by
  obtain ⟨c, rest, rfl, hc⟩ := h
  cases negative with
  | true => rfl
  | false => exact spanSign_of_isDigit hc rest

theorem IsPositional.trimmed_signed {text whole fraction : List Char}
    (h : IsPositional text whole fraction) (negative : Bool) : Trimmed (signed negative text) := by
  obtain ⟨c, rest, htext, -⟩ := h.exists_cons
  have hchars : ∀ c ∈ text, isBlank c = false := by
    intro c hc
    rcases h.isDigit_or_eq c hc with hdigit | rfl
    · exact isBlank_of_isWordChar (isWordChar_of_isDigit hdigit)
    · rfl
  cases negative with
  | true =>
    refine trimmed_of_chars (List.cons_ne_nil _ _) fun c hc => ?_
    rcases List.mem_cons.mp hc with rfl | hmem
    · rfl
    · exact hchars c hmem
  | false => exact trimmed_of_chars (by rw [htext]; exact List.cons_ne_nil _ _) hchars

/-- What begins with a digit behind its sign is read as a number, not as a name. -/
theorem readBinary64?_of_spanSign {s text : List Char} {negative : Bool}
    (h : ∃ c rest, text = c :: rest ∧ c.isDigit = true) (hsign : spanSign s = (negative, text)) :
    Decimal.readBinary64? s = Decimal.readUnsigned? negative text := by
  obtain ⟨c, rest, htext, hc⟩ := h
  have hname (d : Char) (name : List Char) (hd : d.isDigit = false) :
      ¬ Text.lower text = d :: name := by
    rw [htext]
    intro heq
    have hhead : c.toLower = d := (List.cons.inj heq).1
    rw [isDigit_toLower hc] at hhead
    rw [hhead, hd] at hc
    cases hc
  have hinfinite : ¬ (Text.lower text = "inf".toList ∨ Text.lower text = "infinity".toList) :=
    not_or.mpr ⟨hname 'i' _ rfl, hname 'i' _ rfl⟩
  have hnan : ¬ Text.lower text = "nan".toList := hname 'n' _ rfl
  unfold Decimal.readBinary64?
  simp only [hsign]
  rw [if_neg hinfinite, if_neg hnan]

/-- **Under any sign** a decimal in positional form is read as the double nearest to it. -/
theorem IsPositional.readBinary64?_of_spanSign {s text whole fraction : List Char} {negative : Bool}
    (h : IsPositional text whole fraction) (hsign : spanSign s = (negative, text)) :
    Decimal.readBinary64? s =
      some (Binary64.ofDecimal negative (ofDigits (whole ++ fraction)) (0 - fraction.length)) := by
  rw [Decimal.readBinary64?_of_spanSign h.exists_cons hsign, h.readUnsigned?]

theorem IsPositional.readBinary64? {text whole fraction : List Char}
    (h : IsPositional text whole fraction) (negative : Bool) :
    readBinary64? (signed negative text) =
      some (Binary64.ofDecimal negative (ofDigits (whole ++ fraction)) (0 - fraction.length)) :=
  h.readBinary64?_of_spanSign (spanSign_signed h.exists_cons negative)

end Decimal

namespace NumberStyle

open Decimal (IsPositional ofDigits signed)

variable {ds : List Char}

/-- Digits with zeros in place of the exponent, and one more zero behind a point. -/
theorem isPositional_zeros (pointZero : Bool) (hne : ds ≠ []) (hds : ∀ c ∈ ds, c.isDigit = true)
    (z : Nat) :
    ∃ whole fraction, IsPositional (writePositional pointZero ds z) whole fraction ∧
      ∀ negative, Binary64.ofDecimal negative (ofDigits (whole ++ fraction)) (0 - fraction.length) =
        Binary64.ofDecimal negative (ofDigits ds) z := by
  have hzeros : ∀ c ∈ ds ++ List.replicate z '0', c.isDigit = true := fun c hc =>
    (List.mem_append.mp hc).elim (hds c) Decimal.isDigit_of_mem_zeros
  cases pointZero with
  | true =>
    refine ⟨ds ++ List.replicate z '0', ['0'], ⟨by simp [hne], hzeros, by simp, Or.inl rfl⟩, ?_⟩
    intro negative
    rw [List.append_assoc, ← List.replicate_succ', Decimal.ofDigits_append_zeros,
      Binary64.ofDecimal_mul_ten]
    congr 1
    simp
  | false =>
    refine ⟨ds ++ List.replicate z '0', [], ⟨by simp [hne], hzeros, by simp, Or.inr ⟨rfl, ?_⟩⟩, ?_⟩
    · exact List.append_nil _
    intro negative
    rw [List.append_nil, Decimal.ofDigits_append_zeros, Binary64.ofDecimal_mul_ten]
    congr 1
    simp

/-- Digits with the point between them. -/
theorem isPositional_between (hds : ∀ c ∈ ds, c.isDigit = true) {places : Nat}
    (hplaces : places < ds.length) :
    IsPositional (ds.take (ds.length - places) ++ '.' :: ds.drop (ds.length - places))
      (ds.take (ds.length - places)) (ds.drop (ds.length - places)) where
  nonempty hnil := by
    have hlength := congrArg List.length hnil
    rw [List.length_take, List.length_nil] at hlength
    omega
  whole_digits c hc := hds c (List.mem_of_mem_take hc)
  fraction_digits c hc := hds c (List.mem_of_mem_drop hc)
  text_eq := Or.inl rfl

/-- Digits with the point and zeros in front of them. -/
theorem isPositional_inFront (hds : ∀ c ∈ ds, c.isDigit = true) (k : Nat) :
    IsPositional ('0' :: '.' :: (List.replicate k '0' ++ ds)) ['0'] (List.replicate k '0' ++ ds) where
  nonempty := List.cons_ne_nil _ _
  whole_digits := by simp
  fraction_digits c hc := (List.mem_append.mp hc).elim Decimal.isDigit_of_mem_zeros (hds c)
  text_eq := Or.inl rfl

/-- **What is written in positional form**, and the decimal that it stands for. -/
theorem isPositional_writePositional (pointZero : Bool) (hne : ds ≠ [])
    (hds : ∀ c ∈ ds, c.isDigit = true) (e : Int) :
    ∃ whole fraction, IsPositional (writePositional pointZero ds e) whole fraction ∧
      ∀ negative, Binary64.ofDecimal negative (ofDigits (whole ++ fraction)) (0 - fraction.length) =
        Binary64.ofDecimal negative (ofDigits ds) e := by
  cases e with
  | ofNat z => exact isPositional_zeros pointZero hne hds z
  | negSucc z =>
    unfold writePositional
    simp only
    split_ifs with hplaces
    · refine ⟨_, _, isPositional_between hds hplaces, fun negative => ?_⟩
      rw [List.take_append_drop, List.length_drop]
      congr 1
      omega
    · refine ⟨_, _, isPositional_inFront hds _, fun negative => ?_⟩
      have hzero : ['0'] ++ (List.replicate (z + 1 - ds.length) '0' ++ ds) =
          List.replicate (z + 1 - ds.length + 1) '0' ++ ds := rfl
      rw [hzero, Decimal.ofDigits_zeros_append, List.length_append, List.length_replicate]
      congr 1
      omega

/-! ## The digits of a magnitude -/

/-- The digits that trimming keeps, with zeros behind them, are those of the decimal. -/
theorem trimZeros_spec (d : Digits) : ∃ k : Nat,
    Nat.toDigits 10 d.digits = (trimZeros d).1 ++ List.replicate k '0' ∧
      (trimZeros d).2 = d.exponent + k := by
  have hsplit := List.takeWhile_append_dropWhile (p := (· == '0'))
    (l := (Nat.toDigits 10 d.digits).reverse)
  have hzeros : (Nat.toDigits 10 d.digits).reverse.takeWhile (· == '0') =
      List.replicate ((Nat.toDigits 10 d.digits).reverse.takeWhile (· == '0')).length '0' := by
    rw [List.eq_replicate_iff]
    exact ⟨rfl, fun c hc => beq_iff_eq.mp (List.mem_takeWhile_imp (p := (· == '0')) hc)⟩
  have hdigits := congrArg List.reverse hsplit
  rw [List.reverse_append, List.reverse_reverse, hzeros, List.reverse_replicate] at hdigits
  refine ⟨_, hdigits.symm, ?_⟩
  have hlength := congrArg List.length hdigits
  rw [List.length_append, List.length_replicate] at hlength
  unfold trimZeros
  simp only
  omega

/-- The digits that a magnitude other than zero is written with: some, and they stand for it. -/
theorem trimZeros_shortest (tie : Tie) {m : Magnitude} (hm : m.units ≠ 0) :
    (trimZeros (m.shortest tie)).1 ≠ [] ∧ (∀ c ∈ (trimZeros (m.shortest tie)).1, c.isDigit = true) ∧
      Binary64.ofDecimal false (ofDigits (trimZeros (m.shortest tie)).1)
        (trimZeros (m.shortest tie)).2 = .finite false m := by
  have hread := Magnitude.readsBack_shortest tie hm
  obtain ⟨k, hdigits, hexponent⟩ := trimZeros_spec (m.shortest tie)
  have hvalue : Binary64.ofDecimal false (ofDigits (trimZeros (m.shortest tie)).1)
      (trimZeros (m.shortest tie)).2 = .finite false m := by
    rw [hexponent, ← Binary64.ofDecimal_mul_ten, ← Decimal.ofDigits_append_zeros, ← hdigits,
      ofDigits_toDigits]
    exact of_decide_eq_true hread
  refine ⟨fun hnil => ?_, fun c hc => ?_, hvalue⟩
  · rw [hnil] at hvalue
    have hzero : Binary64.zero false = .finite false m := hvalue
    obtain ⟨-, rfl⟩ := (Binary64.finite.injEq ..).mp hzero
    exact hm rfl
  · apply isDigit_of_mem_toDigits (n := (m.shortest tie).digits)
    rw [hdigits]
    exact List.mem_append_left _ hc

/-- **A magnitude is written in positional form as a decimal that is read as it.** -/
theorem isPositional_writeMagnitude (style : NumberStyle) (hstyle : ∀ e, style.positional e = true)
    (m : Magnitude) :
    ∃ whole fraction, IsPositional (style.writeMagnitude m) whole fraction ∧
      Binary64.ofDecimal false (ofDigits (whole ++ fraction)) (0 - fraction.length) =
        .finite false m := by
  unfold writeMagnitude
  by_cases hm : m.units = 0
  · obtain ⟨whole, fraction, hpositional, hdecimal⟩ :=
      isPositional_writePositional style.pointZero (List.cons_ne_nil '0' []) (by simp) 0
    have hzero : m = .zero := Magnitude.units_injective (by rw [hm]; rfl)
    rw [if_pos hm]
    refine ⟨whole, fraction, hpositional, ?_⟩
    rw [hdecimal, hzero]
    rfl
  · obtain ⟨hne, hds, hvalue⟩ := trimZeros_shortest style.tie hm
    obtain ⟨whole, fraction, hpositional, hdecimal⟩ :=
      isPositional_writePositional style.pointZero hne hds (trimZeros (m.shortest style.tie)).2
    rw [if_neg hm]
    simp only [hstyle, if_true]
    exact ⟨whole, fraction, hpositional, (hdecimal false).trans hvalue⟩

/-! ### Scientific form -/

/-- The digits of the scientific form, with a point behind the first of several. -/
def mantissa (ds : List Char) : List Char :=
  match ds with
  | d :: f :: fs => d :: '.' :: f :: fs
  | _ => ds

theorem writeScientific_eq (ds : List Char) (e : Int) : writeScientific ds e =
    mantissa ds ++ 'e' :: (if e < 0 then '-' else '+') :: Nat.toDigits 10 e.natAbs := by
  rcases ds with _ | ⟨d, _ | ⟨f, fs⟩⟩ <;> rfl

theorem exists_writeScientific_cons (hne : ds ≠ []) (hds : ∀ c ∈ ds, c.isDigit = true) (e : Int) :
    ∃ c rest, writeScientific ds e = c :: rest ∧ c.isDigit = true := by
  match ds, hne with
  | [d], _ => exact ⟨d, _, rfl, hds d List.mem_cons_self⟩
  | d :: f :: fs, _ => exact ⟨d, _, rfl, hds d List.mem_cons_self⟩

/-- The mantissa is followed by the mark, a sign and the digits of the exponent, which is read. -/
theorem exists_writeScientific_eq (ds : List Char) (e : Int) :
    ∃ rest, writeScientific ds e = mantissa ds ++ 'e' :: rest ∧
      Decimal.readExponent? ('e' :: rest) = some e := by
  rw [writeScientific_eq]
  refine ⟨_, rfl, ?_⟩
  by_cases h : e < 0
  · have hvalue : -(e.natAbs : Int) = e := by omega
    rw [if_pos h, Decimal.readExponent?, if_pos (Or.inl rfl)]
    simp only [Decimal.spanSign, readNat?_toDigits]
    exact congrArg some hvalue
  · have hvalue : (e.natAbs : Int) = e := by omega
    rw [if_neg h, Decimal.readExponent?, if_pos (Or.inl rfl)]
    simp only [Decimal.spanSign, readNat?_toDigits]
    exact congrArg some hvalue

/-- **Digits in scientific form** stand for the decimal whose first digit has the exponent. -/
theorem readUnsigned?_writeScientific (hne : ds ≠ []) (hds : ∀ c ∈ ds, c.isDigit = true) (e : Int)
    (negative : Bool) :
    Decimal.readUnsigned? negative (writeScientific ds e) =
      some (Binary64.ofDecimal negative (ofDigits ds) (e + 1 - ds.length)) := by
  obtain ⟨rest, htext, hend⟩ := exists_writeScientific_eq ds e
  have hmark : ∀ c ∈ ('e' :: rest).head?, c.isDigit = false := by
    rintro c ⟨⟩
    rfl
  rw [htext]
  unfold Decimal.readUnsigned?
  match ds, hne with
  | [d], _ =>
    have hwhole : mantissa [d] = [d] := rfl
    rw [hwhole, Decimal.spanDigits_append hds hmark]
    simp [hend]
  | d :: f :: fs, _ =>
    have hwhole : ∀ c ∈ [d], c.isDigit = true := by simpa using hds d List.mem_cons_self
    have hfraction : ∀ c ∈ f :: fs, c.isDigit = true := fun c hc => hds c (List.mem_cons_of_mem _ hc)
    have hpoint : ∀ c ∈ ('.' :: ((f :: fs) ++ 'e' :: rest)).head?, c.isDigit = false := by
      rintro c ⟨⟩
      rfl
    have hsplit : mantissa (d :: f :: fs) ++ 'e' :: rest =
        [d] ++ '.' :: ((f :: fs) ++ 'e' :: rest) := rfl
    rw [hsplit, Decimal.spanDigits_append hwhole hpoint]
    simp only [Decimal.spanDigits_append hfraction hmark, hend]
    simp

/-! ### Any form -/

/-- **A magnitude is written in any style as a decimal that is read as it**, under any sign. -/
theorem readUnsigned?_writeMagnitude (style : NumberStyle) (m : Magnitude) (negative : Bool) :
    (∃ c rest, style.writeMagnitude m = c :: rest ∧ c.isDigit = true) ∧
      Decimal.readUnsigned? negative (style.writeMagnitude m) = some (.finite negative m) := by
  unfold writeMagnitude
  by_cases hm : m.units = 0
  · obtain ⟨whole, fraction, hpositional, hdecimal⟩ :=
      isPositional_writePositional style.pointZero (List.cons_ne_nil '0' []) (by simp) 0
    have hzero : m = .zero := Magnitude.units_injective (by rw [hm]; rfl)
    rw [if_pos hm, hpositional.readUnsigned?, hdecimal, hzero]
    exact ⟨hpositional.exists_cons, rfl⟩
  · obtain ⟨hne, hds, hvalue⟩ := trimZeros_shortest style.tie hm
    rw [if_neg hm]
    dsimp only
    split_ifs
    · obtain ⟨whole, fraction, hpositional, hdecimal⟩ := isPositional_writePositional
        style.pointZero hne hds (trimZeros (m.shortest style.tie)).2
      rw [hpositional.readUnsigned?, hdecimal, Binary64.ofDecimal_signed hvalue]
      exact ⟨hpositional.exists_cons, rfl⟩
    · refine ⟨exists_writeScientific_cons hne hds _, ?_⟩
      rw [readUnsigned?_writeScientific hne hds, ← Binary64.ofDecimal_signed hvalue]
      congr 2
      omega

end NumberStyle

/-! ## Reading back -/

theorem Word.toInt_of_ofInt? {n : Int} {i : Int64} (h : ofInt? n = some i) : i.toInt = n := by
  unfold ofInt? at h
  split_ifs at h with hrange
  rw [← Option.some.inj h]
  exact Int64.toInt_ofInt_of_le hrange.1 (Int.lt_of_le_of_lt hrange.2 (by decide))

/-- Whole digits that are read as a finite number are the integer that rounds to it. -/
theorem Binary64.place_ofInt_signed {n : Nat} {m : Magnitude}
    (h : ofDecimal false n 0 = .finite false m) (negative : Bool) :
    (ofInt (if negative then -(n : Int) else n)).place = (finite negative m).place := by
  by_cases hn : n = 0
  · subst hn
    have hzero : zero false = .finite false m := h
    obtain ⟨-, rfl⟩ := (finite.injEq ..).mp hzero
    cases negative <;> decide +kernel
  · have hsign : decide ((if negative then -(n : Int) else n) < 0) = negative := by
      cases negative
      · simp
      · simp
        omega
    have habs : (if negative then -(n : Int) else n).natAbs = n := by
      cases negative <;> simp
    rw [ofDecimal_of_ne_zero false hn] at h
    split_ifs at h with hbelow
    · omega
    have hround := (ofUnits_eq_finite_iff.mp h).2
    rw [Int.neg_zero, Int.toNat_zero, show ten 0 = 1 from rfl, Nat.mul_one] at hround
    unfold ofInt
    rw [hsign, habs, ofUnits_eq_finite_iff.mpr ⟨rfl, hround⟩]

/-- **The text of a finite double is read as the double**, in every style. -/
theorem Binary64.readBinary64?_write (style : NumberStyle) (negative : Bool) (m : Magnitude) :
    Decimal.readBinary64? (style.write negative m) = some (.finite negative m) := by
  obtain ⟨hdigit, hread⟩ := style.readUnsigned?_writeMagnitude m negative
  have hsign := Decimal.readBinary64?_of_spanSign hdigit (Decimal.spanSign_signed hdigit negative)
  exact hsign.trans hread

namespace Number

open Decimal (IsPositional ofDigits signed)

/-- **A number in positional form is read as the same number**: as a double, or as the integer that
rounds to it. -/
theorem exists_read?_signed {text whole fraction : List Char} {m : Magnitude}
    (h : IsPositional text whole fraction)
    (hdecimal : Binary64.ofDecimal false (ofDigits (whole ++ fraction)) (0 - fraction.length) =
      .finite false m) (negative : Bool) :
    ∃ n, read? (signed negative text) = some n ∧ n.same (.float (.finite negative m)) = true := by
  unfold read?
  simp only [(h.trimmed_signed negative).trim_eq]
  cases hinteger : Decimal.readInt64? (signed negative text) with
  | some i =>
    refine ⟨.integer i, rfl, same_mixed_iff.mpr ?_⟩
    unfold Decimal.readInt64? at hinteger
    simp only [Decimal.spanSign_signed h.exists_cons] at hinteger
    obtain ⟨n, hn, hi⟩ := Option.bind_eq_some_iff.mp hinteger
    obtain ⟨rfl, rfl⟩ := h.readNat? hn
    rw [List.append_nil] at hdecimal
    rw [Word.toInt_of_ofInt? hi]
    exact Binary64.place_ofInt_signed hdecimal negative
  | none =>
    refine ⟨.float (.finite negative m), ?_, same_self _⟩
    simp only [h.readBinary64?, Binary64.ofDecimal_signed hdecimal]
    rfl

/-- **The text of a finite double in positional form is read as the same number.** -/
theorem exists_read?_write (style : NumberStyle) (hstyle : ∀ e, style.positional e = true)
    (negative : Bool) (m : Magnitude) :
    ∃ n, read? (style.write negative m) = some n ∧
      n.same (.float (.finite negative m)) = true := by
  obtain ⟨whole, fraction, hpositional, hdecimal⟩ := style.isPositional_writeMagnitude hstyle m
  exact exists_read?_signed hpositional hdecimal negative

end Number

end DocQuery
