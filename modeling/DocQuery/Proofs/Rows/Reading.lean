import DocQuery.Proofs.Results
import DocQuery.Rows.Row

/-!
# DocQuery.Proofs.Rows.Reading — what filters read of a row

A filter reads a row only through the values of its items, and the value of an item only depends on
where the header locates it and on the cell there.  So rows with different headers are accepted
alike as soon as the items are found in cells of the same value, and a filter without parameters has
a meaning in terms of the values of items alone (`Filter.holds`).
-/

namespace DocQuery

/-! ## Places -/

namespace Header

theorem find?_lt {items : List Item} {i : Item} {n : Nat} (h : find? items i = some n) :
    n < items.length := by
  simp only [find?, Option.orElse_eq_orElse, Option.orElse_eq_or, Option.or_eq_some_iff] at h
  rcases h with h | ⟨-, h | ⟨-, h⟩⟩ <;>
    exact (List.findIdx?_eq_some_iff_getElem.mp h).1

theorem resolve?_lt {items : List Item} {i : Item} {found : Resolution}
    (h : resolve? items i = some found) : found.index < items.length := by
  unfold resolve? at h
  cases hfind : find? items i with
  | some n =>
    rw [hfind] at h
    cases h
    exact find?_lt hfind
  | none =>
    rw [hfind] at h
    simp only at h
    split at h
    · obtain ⟨n, hn, rfl⟩ := Option.map_eq_some_iff.mp h
      exact find?_lt hn
    · cases h

end Header

namespace Row

/-- Where a header locates an item does not depend on the cells. -/
theorem locate?_eq_of_header_eq {r r' : Row} (h : r.header = r'.header) (i : Item) :
    r.locate? i = r'.locate? i := by
  unfold locate?
  rw [h]

theorem locate?_lt {r : Row} {i target : Item} {found : Header.Resolution}
    (h : r.locate? i = some (found, target)) : found.index < r.header.length := by
  simp only [locate?, Option.orElse_eq_orElse, Option.orElse_eq_or, Option.or_eq_some_iff] at h
  rcases h with h | ⟨-, h⟩
  · obtain ⟨place, hplace, heq⟩ := Option.map_eq_some_iff.mp h
    cases heq
    exact Header.resolve?_lt hplace
  · obtain ⟨inner, -, hinner⟩ := Option.bind_eq_some_iff.mp h
    obtain ⟨place, hplace, heq⟩ := Option.map_eq_some_iff.mp hinner
    cases heq
    exact Header.resolve?_lt hplace

theorem isSome_locate?_iff {r : Row} {i : Item} :
    (r.locate? i).isSome = Header.isReadable r.header i := by
  unfold locate? Header.isReadable
  cases Header.resolve? r.header i with
  | some found => rfl
  | none =>
    cases i.inner? with
    | none => rfl
    | some inner => cases hinner : Header.resolve? r.header inner <;> simp [hinner]

theorem locate?_of_resolve? {r : Row} {i : Item} {found : Header.Resolution}
    (h : Header.resolve? r.header i = some found) : r.locate? i = some (found, i) := by
  unfold locate?
  rw [h]
  rfl

/-- The value of an item that a header has is the cell there. -/
theorem evaluate?_of_find? {r : Row} {i : Item} {n : Nat} (h : Header.find? r.header i = some n) :
    r.evaluate? i = some (r.value n) := by
  have hresolve : Header.resolve? r.header i = some ⟨n, false⟩ := by
    unfold Header.resolve?
    rw [h]
  unfold evaluate?
  rw [locate?_of_resolve? hresolve]
  rfl

/-- An item with a value is readable. -/
theorem isReadable_of_evaluate? {r : Row} {i : Item} {v : Value} (h : r.evaluate? i = some v) :
    Header.isReadable r.header i = true := by
  obtain ⟨found, hfound, -⟩ := Option.map_eq_some_iff.mp h
  rw [← isSome_locate?_iff, hfound]
  rfl

theorem isSome_evaluate?_iff {r : Row} {i : Item} :
    (r.evaluate? i).isSome = Header.isReadable r.header i := by
  unfold evaluate?
  rw [Option.isSome_map, isSome_locate?_iff]

/-- An item that is located alike and in equal cells has one value. -/
theorem evaluate?_congr {r r' : Row} {i : Item} (hlocate : r.locate? i = r'.locate? i)
    (hvalue : ∀ n < r.header.length, r.value n = r'.value n) :
    r.evaluate? i = r'.evaluate? i := by
  unfold evaluate?
  rw [← hlocate]
  cases hfound : r.locate? i with
  | none => rfl
  | some found =>
    obtain ⟨place, target⟩ := found
    simp only [Option.map_some, hvalue place.index (locate?_lt hfound)]

/-- **The values of items are those that the row has for each.** -/
theorem valuesOf_eq_ok_iff {r : Row} {items : List Item} {values : List Value} :
    r.valuesOf items = .ok values ↔ items.map r.evaluate? = values.map some := by
  constructor
  · intro h
    induction items generalizing values with
    | nil =>
      cases h
      rfl
    | cons i rest ih =>
      unfold valuesOf at h
      split at h
      next v hv =>
        obtain ⟨more, hmore, rfl⟩ := exists_of_map_eq_ok h
        rw [List.map_cons, List.map_cons, hv, ih hmore]
      next => cases h
  · intro h
    induction items generalizing values with
    | nil =>
      cases values with
      | nil => rfl
      | cons v values => cases h
    | cons i rest ih =>
      cases values with
      | nil => cases h
      | cons v values =>
        rw [List.map_cons, List.map_cons, List.cons.injEq] at h
        unfold valuesOf
        rw [h.1, ih h.2]
        rfl

/-- A row gets other items if it has a value for each of them. -/
theorem project_eq_ok_iff {r p : Row} {items : List Item} : r.project items = .ok p ↔
    ∃ values, items.map r.evaluate? = values.map some ∧
      p = ⟨items, values, r.styles.map fun _ => items.map fun i => some (r.styleOf i)⟩ := by
  unfold project
  constructor
  · intro h
    obtain ⟨values, hvalues, rfl⟩ := exists_of_map_eq_ok h
    exact ⟨values, valuesOf_eq_ok_iff.mp hvalues, rfl⟩
  · rintro ⟨values, hvalues, rfl⟩
    rw [valuesOf_eq_ok_iff.mpr hvalues]
    rfl

end Row

/-! ## Filters -/

namespace Filter

theorem comparisonAccepts_congr {r r' : Row} {item : Item} (op : Comparison) {operand : Operand}
    (h : ∀ i ∈ comparisonItems item operand, r.evaluate? i = r'.evaluate? i) :
    comparisonAccepts r item op operand = comparisonAccepts r' item op operand := by
  have hleft : itemValue r item = itemValue r' item := by
    unfold itemValue
    rw [h item (by cases operand <;> exact List.mem_cons_self)]
  cases operand with
  | item other =>
    have hright : itemValue r other = itemValue r' other := by
      unfold itemValue
      rw [h other (List.mem_cons_of_mem _ List.mem_cons_self)]
    simp only [comparisonAccepts, hleft, hright]
  | value v => simp only [comparisonAccepts, hleft]
  | list vs => simp only [comparisonAccepts, hleft]
  | parameter index => simp only [comparisonAccepts, hleft]

mutual

/-- **A filter reads only the values of its items.** -/
theorem accepts_congr {r r' : Row} : (f : Filter) →
    (∀ i ∈ f.items, r.evaluate? i = r'.evaluate? i) → accepts r f = accepts r' f
  | .comparison item op operand, h => by
    rw [accepts, accepts]
    exact comparisonAccepts_congr op h
  | .group .and children, h => by
    rw [accepts, accepts]
    exact allAccept_congr children h
  | .group .or children, h => by
    rw [accepts, accepts, anyAccepts_congr children h]

theorem allAccept_congr {r r' : Row} : (filters : List Filter) →
    (∀ i ∈ itemsOf filters, r.evaluate? i = r'.evaluate? i) →
      allAccept r filters = allAccept r' filters
  | [], _ => rfl
  | f :: rest, h => by
    rw [itemsOf, List.forall_mem_append] at h
    rw [allAccept, allAccept, accepts_congr f h.1, allAccept_congr rest h.2]

theorem anyAccepts_congr {r r' : Row} : (filters : List Filter) →
    (∀ i ∈ itemsOf filters, r.evaluate? i = r'.evaluate? i) →
      anyAccepts r filters = anyAccepts r' filters
  | [], _ => rfl
  | f :: rest, h => by
    rw [itemsOf, List.forall_mem_append] at h
    rw [anyAccepts, anyAccepts, accepts_congr f h.1, anyAccepts_congr rest h.2]

end

/-! ## What filters mean -/

/-- What a comparison says of the values of items; a parameter compares with nothing. -/
def comparisonHolds (read : Item → Value) (item : Item) (op : Comparison) : Operand → Bool
  | .value v => op.holds (read item) v
  | .item other => op.holds (read item) (read other)
  | .list values => op.holdsInList (read item) values
  | .parameter _ => false

mutual

/-- What a filter says of the values of items. -/
def holds (read : Item → Value) : Filter → Bool
  | .comparison item op operand => comparisonHolds read item op operand
  | .group .and children => allHold read children
  | .group .or children => children.isEmpty || anyHolds read children

/-- Whether all filters hold of the values of items. -/
def allHold (read : Item → Value) : List Filter → Bool
  | [] => true
  | f :: rest => holds read f && allHold read rest

/-- Whether some filter holds of the values of items. -/
def anyHolds (read : Item → Value) : List Filter → Bool
  | [] => false
  | f :: rest => holds read f || anyHolds read rest

end

theorem comparisonAccepts_eq_holds {r : Row} {read : Item → Value} {item : Item} (op : Comparison)
    {operand : Operand}
    (hread : ∀ i ∈ comparisonItems item operand, r.evaluate? i = some (read i))
    (hbound : parameterCount (.comparison item op operand) = 0) :
    comparisonAccepts r item op operand = .ok (comparisonHolds read item op operand) := by
  have hleft : itemValue r item = .ok (read item) := by
    unfold itemValue
    rw [hread item (by cases operand <;> exact List.mem_cons_self)]
  cases operand with
  | value v =>
    simp only [comparisonAccepts, hleft]
    rfl
  | list values =>
    simp only [comparisonAccepts, hleft]
    rfl
  | item other =>
    have hright : itemValue r other = .ok (read other) := by
      unfold itemValue
      rw [hread other (List.mem_cons_of_mem _ List.mem_cons_self)]
    simp only [comparisonAccepts, hleft, hright]
    rfl
  | parameter index => simp [parameterCount] at hbound

mutual

/-- **A filter without parameters says of a row what it says of the values of its items**, and never
fails, if the row has those values. -/
theorem accepts_eq_holds {r : Row} {read : Item → Value} : (f : Filter) →
    (∀ i ∈ f.items, r.evaluate? i = some (read i)) → f.parameterCount = 0 →
      accepts r f = .ok (holds read f)
  | .comparison item op operand, hread, hbound => by
    rw [accepts, holds]
    exact comparisonAccepts_eq_holds op hread hbound
  | .group .and children, hread, hbound => by
    rw [accepts, holds]
    exact allAccept_eq_allHold children hread hbound
  | .group .or children, hread, hbound => by
    rw [accepts, holds, anyAccepts_eq_anyHolds children hread hbound]
    cases children.isEmpty <;> rfl

theorem allAccept_eq_allHold {r : Row} {read : Item → Value} : (filters : List Filter) →
    (∀ i ∈ itemsOf filters, r.evaluate? i = some (read i)) → parameterCountOf filters = 0 →
      allAccept r filters = .ok (allHold read filters)
  | [], _, _ => rfl
  | f :: rest, hread, hbound => by
    rw [itemsOf, List.forall_mem_append] at hread
    rw [parameterCountOf, Nat.max_eq_zero_iff] at hbound
    rw [allAccept, accepts_eq_holds f hread.1 hbound.1,
      allAccept_eq_allHold rest hread.2 hbound.2, allHold]
    cases holds read f <;> rfl

theorem anyAccepts_eq_anyHolds {r : Row} {read : Item → Value} : (filters : List Filter) →
    (∀ i ∈ itemsOf filters, r.evaluate? i = some (read i)) → parameterCountOf filters = 0 →
      anyAccepts r filters = .ok (anyHolds read filters)
  | [], _, _ => rfl
  | f :: rest, hread, hbound => by
    rw [itemsOf, List.forall_mem_append] at hread
    rw [parameterCountOf, Nat.max_eq_zero_iff] at hbound
    rw [anyAccepts, accepts_eq_holds f hread.1 hbound.1,
      anyAccepts_eq_anyHolds rest hread.2 hbound.2, anyHolds]
    cases holds read f <;> rfl

end

end Filter

end DocQuery
