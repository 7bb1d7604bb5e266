import DocQuery.Builtin.Aggregate
import DocQuery.Grammar.Literal
import DocQuery.Rows.Row

/-!
# DocQuery.Proofs.Value.Coercion — values of a type and literals brought to it

A literal that is compared with an item is brought to the type of the item, a value that is bound to a
parameter is not.  Both compare alike with every value that fits the type (`Comparison.holds_coerce`),
since a comparison brings both sides to one kind itself; the exception are integers other than zero
and one that are compared with booleans (`Comparison.holds_coerce_boolean_iff`).  What a function
gives fits the type that it gives to its item.
-/

namespace DocQuery

namespace Value

/-- Whether a value may stand where values of a type are expected: it is of the type, or nothing.
Where literals are brought to no type, every value may. -/
def isOfType (type : Option ColumnType) (v : Value) : Bool :=
  match type, v with
  | _, .null => true
  | some .number, .number _ | some .boolean, .boolean _ | some .temporal, .temporal _ => true
  | some .number, _ | some .boolean, _ | some .temporal, _ => false
  | _, _ => true

/-- Whether comparisons with values of a type do not tell a value from what it is brought to: an
integer that is brought to a boolean is zero or one. -/
def suits (type : Option ColumnType) (v : Value) : Bool :=
  match type, v with
  | some .boolean, .number (.integer i) => i == 0 || i == 1
  | _, _ => true

variable {type : Option ColumnType} {cell v : Value}

@[simp] theorem isOfType_null (type : Option ColumnType) : isOfType type .null = true := by
  unfold isOfType
  rfl

@[simp] theorem isOfType_none (v : Value) : v.isOfType none = true := by cases v <;> rfl

theorem isOfType_number_iff : v.isOfType (some .number) = true ↔ v = .null ∨ ∃ n, v = .number n := by
  cases v <;> simp [isOfType]

theorem isOfType_boolean_iff : v.isOfType (some .boolean) = true ↔ v = .null ∨ ∃ b, v = .boolean b := by
  cases v <;> simp [isOfType]

theorem isOfType_temporal_iff : v.isOfType (some .temporal) = true ↔ v = .null ∨ ∃ m, v = .temporal m := by
  cases v <;> simp [isOfType]

/-! ## Literals -/

/-- A literal is missing exactly if what it is brought to is. -/
theorem isNull_coerce (type : Option ColumnType) (v : Value) :
    (Grammar.coerce v type).isNull = v.isNull := by
  unfold Grammar.coerce
  dsimp only
  split
  next s =>
    cases Number.read? s.toList <;> rfl
  next s =>
    cases Moment.read? s.toList <;> rfl
  next s =>
    cases (Value.text s).toBoolean? <;> rfl
  next i =>
    cases (Value.number (.integer i)).toBoolean? <;> rfl
  next => rfl

/-- A boolean compares with a text as with the boolean that the text means. -/
theorem compareLoose_boolean_text {b b' : Bool} {s : String} (h : readBoolean? s.toList = some b') :
    (Value.boolean b).compareLoose (.boolean b') = (Value.boolean b).compareLoose (.text s) := by
  simp [compareLoose, compareCoerced?, isNull, isNumber, toBoolean?, h]

/-- A boolean compares with zero and one as with the booleans that they mean. -/
theorem compareLoose_boolean_integer (b : Bool) {i : Int64} (h : i = 0 ∨ i = 1) :
    (Value.boolean b).compareLoose (.boolean (Number.integer i).isNonzero) =
      (Value.boolean b).compareLoose (.number (.integer i)) := by
  rcases h with rfl | rfl <;> cases b <;> decide

theorem compareLoose_number_text {n n' : Number} {s : String} (h : Number.read? s.toList = some n') :
    (Value.number n).compareLoose (.number n') = (Value.number n).compareLoose (.text s) := by
  simp [compareLoose, compareCoerced?, isNull, isNumber, toNumber?, h]

theorem compareLoose_temporal_text {m m' : Moment} {s : String} (h : Moment.read? s.toList = some m') :
    (Value.temporal m).compareLoose (.temporal m') = (Value.temporal m).compareLoose (.text s) := by
  simp [compareLoose, compareCoerced?, isNull, isNumber, toMoment?, h]

/-- **A value of a type compares with a literal as with what it is brought to.** -/
theorem compareLoose_coerce (hcell : cell.isOfType type = true) (hpresent : cell.isNull = false)
    (hv : v.suits type = true) :
    cell.compareLoose (Grammar.coerce v type) = cell.compareLoose v := by
  unfold Grammar.coerce
  dsimp only
  split
  next s =>
    rcases isOfType_number_iff.mp hcell with rfl | ⟨n, rfl⟩
    · cases hpresent
    · cases hread : Number.read? s.toList with
      | none => rfl
      | some n' => exact compareLoose_number_text hread
  next s =>
    rcases isOfType_temporal_iff.mp hcell with rfl | ⟨m, rfl⟩
    · cases hpresent
    · cases hread : Moment.read? s.toList with
      | none => rfl
      | some m' => exact compareLoose_temporal_text hread
  next s =>
    rcases isOfType_boolean_iff.mp hcell with rfl | ⟨b, rfl⟩
    · cases hpresent
    · cases hread : readBoolean? s.toList with
      | none => simp [toBoolean?, hread]
      | some b' => simpa [toBoolean?, hread] using compareLoose_boolean_text hread
  next i =>
    rcases isOfType_boolean_iff.mp hcell with rfl | ⟨b, rfl⟩
    · cases hpresent
    · have hi : i = 0 ∨ i = 1 := by simpa [suits] using hv
      exact compareLoose_boolean_integer b hi
  next => rfl

theorem looseEq_coerce (hcell : cell.isOfType type = true) (hpresent : cell.isNull = false)
    (hv : v.suits type = true) : cell.looseEq (Grammar.coerce v type) = cell.looseEq v := by
  unfold looseEq
  rw [isNull_coerce, compareLoose_coerce hcell hpresent hv]

end Value

namespace Comparison

variable {type : Option ColumnType} {cell v : Value}

/-- **A value of a type compares alike with a literal and with what the literal is brought to.** -/
theorem holds_coerce {op : Comparison} (hop : op.isPattern = false) (hcell : cell.isOfType type = true)
    (hv : v.suits type = true) : op.holds cell (Grammar.coerce v type) = op.holds cell v := by
  unfold holds
  rw [Value.isNull_coerce]
  cases hpresent : cell.isNull with
  | true => cases op <;> rfl
  | false =>
    have hcompare := Value.compareLoose_coerce hcell hpresent hv
    have hequal := Value.looseEq_coerce hcell hpresent hv
    cases op with
    | like => cases hop
    | notLike => cases hop
    | _ => simp only [hcompare, hequal]

/-- **Only zero and one say the same of booleans as literals and as they are.**  Every other integer
is read as the true boolean, but does not equal it. -/
theorem holds_coerce_boolean_iff (i : Int64) :
    (∀ b, equal.holds (.boolean b) (Grammar.coerce (.integer i) (some .boolean)) =
      equal.holds (.boolean b) (.integer i)) ↔ i = 0 ∨ i = 1 := by
  constructor
  · intro h
    -- The true boolean is one as a number, and so is what every integer but zero is brought to.
    have htrue := h true
    rw [Bool.eq_iff_iff] at htrue
    by_cases hzero : i = 0
    · exact Or.inl hzero
    · have hread : Grammar.coerce (.integer i) (some .boolean) = .boolean true := by
        have hnonzero : (Number.integer i).isNonzero = true := by simpa [Number.isNonzero] using hzero
        simp [Grammar.coerce, Value.integer, Value.toBoolean?, hnonzero]
      rw [hread] at htrue
      have hequal : equal.holds (.boolean true) (.integer i) = true := htrue.mp (by decide)
      unfold holds at hequal
      have hone : 1 = i := by
        simpa [Value.integer, Value.looseEq, Value.compareLoose, Value.compareCoerced?,
          Value.isNull, Value.isNumber, Value.toNumber?, Number.compare] using hequal
      exact Or.inr hone.symm
  · intro h b
    refine holds_coerce rfl ?_ ?_
    · rfl
    · rcases h with rfl | rfl <;> rfl

end Comparison

/-! ## Functions -/

namespace Builtin

variable {f : Builtin} {type : Option ColumnType} {values : List Value}

/-- **What a scalar function gives fits its type**, whatever it is given. -/
theorem isOfType_scalar (hf : f.isScalar = true) (type : Option ColumnType) (parameters : List Value)
    (v : Value) : (f.scalar parameters v).isOfType ((Item.functionType? (some f)).getD type) = true := by
  unfold scalar
  split
  · exact Value.isOfType_null _
  · cases f with
    | toText => rfl
    | substring => rfl
    | toNumber =>
      show ((v.toNumber?.map Value.number).getD .null).isOfType (some .number) = true
      cases v.toNumber? <;> rfl
    | toBoolean =>
      show ((v.toBoolean?.map Value.boolean).getD .null).isOfType (some .boolean) = true
      cases v.toBoolean? <;> rfl
    | toDate =>
      show (toDateOf v parameters.head?).isOfType (some .temporal) = true
      have hgiven (moment : Option Moment) :
          ((moment.map Value.temporal).getD .null).isOfType (some .temporal) = true := by
        cases moment <;> rfl
      exact hgiven _
    | mapValue => exact Value.isOfType_none _
    | _ => cases hf

/-- A choice between values, one after the other, is one of them. -/
theorem foldl_choice_mem (choose : Value → Value → Bool) (v : Value) (rest : List Value) :
    rest.foldl (fun best w => if choose best w then w else best) v ∈ v :: rest := by
  induction rest generalizing v with
  | nil => exact List.mem_singleton_self v
  | cons w rest ih =>
    rw [List.foldl_cons]
    split
    · exact List.mem_cons_of_mem _ (ih w)
    · rcases List.mem_cons.mp (ih v) with hfirst | hrest
      · exact List.mem_cons.mpr (Or.inl hfirst)
      · exact List.mem_cons_of_mem _ (List.mem_cons_of_mem _ hrest)

theorem isOfType_leastOf (h : ∀ v ∈ values, v.isOfType type = true) : (leastOf values).isOfType type = true := by
  cases values with
  | nil => exact Value.isOfType_null type
  | cons v rest => exact h _ (foldl_choice_mem (fun best w => w.compare best == .lt) v rest)

theorem isOfType_greatestOf (h : ∀ v ∈ values, v.isOfType type = true) :
    (greatestOf values).isOfType type = true := by
  cases values with
  | nil => exact Value.isOfType_null type
  | cons v rest => exact h _ (foldl_choice_mem (fun best w => best.compare w == .lt) v rest)

/-- **What an aggregate gives fits its type**, if it has one of its own or the values fit. -/
theorem isOfType_aggregate (hf : f.isAggregate = true) (h : ∀ v ∈ values, v.isOfType type = true) :
    (f.aggregate values).isOfType ((Item.functionType? (some f)).getD type) = true := by
  have hpresent : ∀ v ∈ values.filter fun v => !v.isNull, v.isOfType type = true :=
    fun v hv => h v (List.mem_filter.mp hv).1
  unfold aggregate
  dsimp only
  generalize values.filter (fun v => !v.isNull) = present at hpresent
  cases f with
  | count => rfl
  | sum =>
    show (sumOf present).isOfType (some .number) = true
    unfold sumOf
    dsimp only
    split <;> rfl
  | average =>
    show (averageOf present).isOfType (some .number) = true
    unfold averageOf
    split <;> rfl
  | minimum => exact isOfType_leastOf hpresent
  | maximum => exact isOfType_greatestOf hpresent
  | first =>
    cases hhead : present.head? with
    | none => exact Value.isOfType_null type
    | some v => exact hpresent v (List.mem_of_head? hhead)
  | last =>
    cases hlast : present.getLast? with
    | none => exact Value.isOfType_null type
    | some v => exact hpresent v (List.mem_of_getLast? hlast)
  | _ => cases hf

end Builtin

end DocQuery
