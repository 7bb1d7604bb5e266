import DocQuery.Proofs.Number.Texts
import DocQuery.Value.Basic

/-!
# DocQuery.Proofs.Value.Documents — documents that become values and come back

A document that is loaded becomes a value (`Value.ofJson`), and a value that is written becomes a
document (`Value.toJson`).  Containers travel as they are, whatever they hold.  Among scalars only
one kind does not come back: a value holds integers with a sign, so a whole number beyond `2 ^ 63 - 1`
has no integer to become.  It becomes a double and comes back as one, the nearest there is, which is
never the same as a whole number, not even where it has its value.
-/

namespace DocQuery

/-! ## Numbers with a sign -/

theorem Word.ofInt?_eq_none_iff {n : Int} : ofInt? n = none ↔ n < least ∨ greatest < n := by
  unfold ofInt?
  split_ifs with hrange
  · simp only [false_iff]
    omega
  · simp only [true_iff]
    omega

theorem JsonNumber.ofInt64_of_toInt64? {n : JsonNumber} {i : Int64} (h : n.toInt64? = some i) :
    ofInt64 i = n := by
  cases n with
  | integer k lower upper =>
    have hvalue : i.toInt = k := Word.toInt_of_ofInt? h
    subst hvalue
    rfl
  | float negative m => cases h

/-! ## What comes back -/

/-- Whether a document is itself a whole number beyond the integers of 64 bits with a sign; what
lies within a container does not count. -/
def Json.isBeyondInt64 : Json → Bool
  | .number (.integer i _ _) => decide (Word.greatest < i)
  | _ => false

/-- The double that a document beyond the integers comes back as: of the magnitudes of double
precision none is nearer to it. -/
structure Json.ComesBackAsNearest (j back : Json) : Prop where
  exists_nearest : ∃ i lower upper m, j = .number (.integer i lower upper) ∧
    back = .number (.float false m) ∧ ∀ other : Magnitude,
      Nat.dist m.units (i.toNat * Magnitude.one) ≤ Nat.dist other.units (i.toNat * Magnitude.one)
  not_same : j.same back = false

namespace Value

theorem ofJson_number_of_some {n : JsonNumber} {i : Int64} (h : n.toInt64? = some i) :
    ofJson (.number n) = .integer i := by
  simp only [ofJson, h]

theorem ofJson_number_of_none {n : JsonNumber} (h : n.toInt64? = none) :
    ofJson (.number n) = .float n.toBinary64 := by
  simp only [ofJson, h]

theorem toJson_ofJson_number {n : JsonNumber} (h : (Json.number n).isBeyondInt64 = false) :
    (ofJson (.number n)).toJson = .number n := by
  cases hint : n.toInt64? with
  | some i =>
    rw [ofJson_number_of_some hint]
    exact congrArg Json.number (JsonNumber.ofInt64_of_toInt64? hint)
  | none =>
    cases n with
    | float negative m => rfl
    | integer i lower upper =>
      have hinside : i ≤ Word.greatest := by simpa [Json.isBeyondInt64] using h
      rcases Word.ofInt?_eq_none_iff.mp hint with hbelow | habove <;> omega

theorem toJson_ofJson_beyond {i : Int} {lower : Word.least ≤ i}
    {upper : i ≤ Word.greatestUnsigned} (h : Word.greatest < i) :
    Json.ComesBackAsNearest (.number (.integer i lower upper))
      (ofJson (.number (.integer i lower upper))).toJson := by
  have hpositive : 0 < i := Int.lt_trans (by decide) h
  have habs : i.natAbs = i.toNat := by omega
  have hsize : i.natAbs ≤ Word.greatestUnsigned := by omega
  obtain ⟨m, hm, hnearest⟩ := Binary64.exists_ofInt_eq hsize
  rw [decide_eq_false (by omega : ¬ i < 0)] at hm
  rw [habs] at hnearest
  have hint : (JsonNumber.integer i lower upper).toInt64? = none :=
    Word.ofInt?_eq_none_iff.mpr (Or.inr h)
  have hback : (ofJson (.number (.integer i lower upper))).toJson = .number (.float false m) := by
    rw [ofJson_number_of_none hint, JsonNumber.toBinary64, hm]
    rfl
  rw [hback]
  exact ⟨⟨i, lower, upper, m, rfl, rfl, hnearest⟩, rfl⟩

/-- **A document that became a value comes back as it was**, nested to any depth, with the members
of its objects in their order, the sign of a zero and the kind of every number; unless it is itself a
whole number beyond `2 ^ 63 - 1`, which comes back as the nearest double. -/
theorem toJson_ofJson (j : Json) :
    (j.isBeyondInt64 = false → (ofJson j).toJson = j) ∧
      (j.isBeyondInt64 = true → j.ComesBackAsNearest (ofJson j).toJson) := by
  cases j with
  | null | bool | string | array | object => exact ⟨fun _ => rfl, nofun⟩
  | number n =>
    refine ⟨toJson_ofJson_number, fun hbeyond => ?_⟩
    cases n with
    | integer i lower upper => exact toJson_ofJson_beyond (of_decide_eq_true hbeyond)
    | float => cases hbeyond

/-- The greatest whole number of 64 bits. -/
def greatestWhole : Json := .number (.integer Word.greatestUnsigned (by decide) (by decide))

/-- The greatest whole number of a document comes back as another number. -/
theorem toJson_ofJson_greatestWhole :
    (ofJson greatestWhole).toJson ≠ greatestWhole ∧
      greatestWhole.same (ofJson greatestWhole).toJson = false := by
  have hsame : greatestWhole.same (ofJson greatestWhole).toJson = false := by decide +kernel
  refine ⟨fun heq => ?_, hsame⟩
  rw [heq] at hsame
  cases hsame

end Value

end DocQuery
