import DocQuery.Proofs.Rows.Headed
import DocQuery.Proofs.Rows.Ordering
import DocQuery.Proofs.Value.Order

/-!
# DocQuery.Proofs.Rows.Turning — comparisons with their sides turned round

`x < y` says what `y > x` says, and so on (`Comparison.turned?`).  The order behind the comparisons
turns round whatever the kinds of the values (`Value.compareLoose_swap`), null equals null alone,
and nothing is below or above it, on either side.  Only `<>` looks at its right side first: beside
one null it holds if that stands on its right, and not if it stands on its left.
-/

namespace DocQuery

namespace Comparison

/-- The comparison that says the same with its sides turned round, if there is one. -/
def turned? : Comparison → Option Comparison
  | .equal => some .equal
  | .different => some .different
  | .less => some .greater
  | .atMost => some .atLeast
  | .greater => some .less
  | .atLeast => some .atMost
  | _ => none

theorem holds_equal_comm (v w : Value) : equal.holds w v = equal.holds v w := by
  unfold holds
  dsimp only
  rw [Value.looseEq_comm v w]
  cases v.isNull <;> cases w.isNull <;> rfl

/-- `<>` can be turned round if both sides are null or neither is. -/
theorem holds_different_comm {v w : Value} (h : v.isNull = w.isNull) :
    different.holds w v = different.holds v w := by
  unfold holds
  dsimp only
  rw [Value.looseEq_comm v w, h]

/-- `<>` beside one null holds exactly if the null stands on its right. -/
theorem holds_different_of_isNull_ne {v w : Value} (h : v.isNull ≠ w.isNull) :
    different.holds v w = w.isNull := by
  unfold holds
  dsimp only
  revert h
  cases v.isNull <;> cases w.isNull <;> simp

/-- **A comparison says what it says with its sides turned round**, except that `<>` does not where
one side alone is null. -/
theorem holds_turned {op turned : Comparison} (hop : op.turned? = some turned) {v w : Value}
    (h : op ≠ .different ∨ v.isNull = w.isNull) : turned.holds w v = op.holds v w := by
  have hswap := Value.compareLoose_swap v w
  cases op with
  | equal =>
    cases hop
    exact holds_equal_comm v w
  | different =>
    cases hop
    exact holds_different_comm (h.resolve_left fun hne => hne rfl)
  | less | atMost | greater | atLeast =>
    cases hop
    unfold holds
    dsimp only
    rw [hswap, Bool.and_comm (!w.isNull)]
    cases v.compareLoose w <;> rfl
  | _ => cases hop

end Comparison

namespace Filter

/-- A comparison of two items says what it says of their values. -/
theorem accepts_comparison_item {r : Row} {x y : Item} {v w : Value} (hx : r.evaluate? x = some v)
    (hy : r.evaluate? y = some w) (op : Comparison) :
    accepts r (.comparison x op (.item y)) = .ok (op.holds v w) := by
  have hleft : itemValue r x = .ok v := by
    unfold itemValue
    rw [hx]
  have hright : itemValue r y = .ok w := by
    unfold itemValue
    rw [hy]
  rw [accepts]
  simp only [comparisonAccepts, hleft, hright]
  rfl

/-- **A filter that compares two cells of a row accepts it as the filter with its sides turned
round does**, whatever the kinds of the cells and also where they are null, with one exception: `<>`
accepts a cell beside a null on its right, and turned round it does not. -/
theorem accepts_turned (r : Row) {x y : Item} (hx : x ∈ r.header) (hy : y ∈ r.header)
    {op turned : Comparison} (hop : op.turned? = some turned) :
    ∃ v w, r.evaluate? x = some v ∧ r.evaluate? y = some w ∧
      (op ≠ .different ∨ v.isNull = w.isNull → ∃ accepted,
        accepts r (.comparison x op (.item y)) = .ok accepted ∧
          accepts r (.comparison y turned (.item x)) = .ok accepted) ∧
      (op = .different → v.isNull ≠ w.isNull →
        accepts r (.comparison x op (.item y)) = .ok w.isNull ∧
          accepts r (.comparison y turned (.item x)) = .ok v.isNull) := by
  obtain ⟨n, hn⟩ := Header.exists_find?_of_mem hx (Or.inl rfl)
  obtain ⟨m, hm⟩ := Header.exists_find?_of_mem hy (Or.inl rfl)
  have hv := Row.evaluate?_of_find? hn
  have hw := Row.evaluate?_of_find? hm
  refine ⟨_, _, hv, hw, fun h => ⟨_, accepts_comparison_item hv hw op, ?_⟩, fun hdifferent h => ?_⟩
  · rw [accepts_comparison_item hw hv turned, Comparison.holds_turned hop h]
  · subst hdifferent
    cases hop
    rw [accepts_comparison_item hv hw, accepts_comparison_item hw hv,
      Comparison.holds_different_of_isNull_ne h, Comparison.holds_different_of_isNull_ne h.symm]
    exact ⟨rfl, rfl⟩

/-- A text of a number below a number is the number above the text; and a cell that differs from a
null on its right does not from one on its left. -/
theorem accepts_turned_text_and_null :
    let x := (RowSet.byColumn 1 "a" .ascending).item
    let y := (RowSet.byColumn 2 "b" .ascending).item
    let mixed := RowSet.pairRow (.text "9") (.integer 10)
    let beside := RowSet.pairRow (.integer 5) .null
    (∃ accepted, accepts mixed (.comparison x .less (.item y)) = .ok accepted ∧
      accepts mixed (.comparison y .greater (.item x)) = .ok accepted) ∧
    accepts beside (.comparison x .different (.item y)) = .ok true ∧
      accepts beside (.comparison y .different (.item x)) = .ok false := by
  intro x y mixed beside
  have hless : Comparison.less.turned? = some .greater := rfl
  have hdifferent : Comparison.different.turned? = some .different := rfl
  constructor
  · have hx : x ∈ mixed.header := List.mem_cons_self
    have hy : y ∈ mixed.header := List.mem_cons_of_mem _ List.mem_cons_self
    obtain ⟨_, _, -, -, hsame, -⟩ := accepts_turned mixed hx hy hless
    exact hsame (Or.inl (by decide))
  · have hx : x ∈ beside.header := List.mem_cons_self
    have hy : y ∈ beside.header := List.mem_cons_of_mem _ List.mem_cons_self
    obtain ⟨v, w, hv, hw, -, hdiffer⟩ := accepts_turned beside hx hy hdifferent
    cases hv
    cases hw
    exact hdiffer rfl (by decide)

/-- `<>` cannot always be turned round: the cell 5 differs from a null on its right, and the null
does not differ from it. -/
theorem not_accepts_turned_beside_null :
    ¬ ∀ (r : Row) (x y : Item), x ∈ r.header → y ∈ r.header → ∀ op turned : Comparison,
      op.turned? = some turned →
        accepts r (.comparison x op (.item y)) = accepts r (.comparison y turned (.item x)) := by
  intro h
  have hsame := h (RowSet.pairRow (.integer 5) .null) (RowSet.byColumn 1 "a" .ascending).item
    (RowSet.byColumn 2 "b" .ascending).item List.mem_cons_self
    (List.mem_cons_of_mem _ List.mem_cons_self) .different .different rfl
  cases hsame

end Filter

end DocQuery
