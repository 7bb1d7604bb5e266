import DocQuery.Builtin.Scalar
import DocQuery.Proofs.Text.Chars

/-!
# DocQuery.Proofs.Builtin.Paths — dotted paths into nested documents

A path is walked within the document, segment by segment, and only what stands at its end becomes a
value.  Looking up one part of the path and then the other makes a value in the middle: a container
stays the document that it is, a scalar becomes a value of its own kind, and what is missing becomes
null.  A scalar has no children, within a document or as a value, so both ways end at the same
places: a path is one look-up for each of its segments (`mapValueOf_nested_eq_foldl`), and it may be
cut at any dot that a segment follows (`scalar_mapValue_joined`).
-/

namespace DocQuery.Builtin

/-! ## Segments -/

theorem segments_joined (p q : List Char) :
    segments (p ++ '.' :: q) = segments p ++ segments q := by
  rw [segments, Text.splitOnChar_append, List.filter_append]
  rfl

/-- A segment is a path of its own. -/
theorem segments_of_mem {segment path : List Char} (h : segment ∈ segments path) :
    segments segment = [segment] := by
  obtain ⟨hmem, hne⟩ := List.mem_filter.mp h
  rw [segments, Text.splitOnChar_eq_singleton (Text.not_mem_of_mem_splitOnChar hmem)]
  exact List.filter_eq_self.mpr (List.forall_mem_singleton.mpr hne)

/-! ## One look-up -/

theorem mapValueOf_nested (document : Json) (path : List Char) :
    mapValueOf (.nested document) path =
      (((segments path).foldlM child? document).map Value.ofJson).getD .null := by
  rw [mapValueOf]
  cases (segments path).foldlM child? document <;> rfl

/-- What is looked up in a document is the value of a document. -/
theorem exists_ofJson_eq_mapValueOf (document : Json) (path : List Char) :
    ∃ found, mapValueOf (.nested document) path = Value.ofJson found := by
  rw [mapValueOf_nested]
  cases (segments path).foldlM child? document with
  | none => exact ⟨.null, rfl⟩
  | some found => exact ⟨found, rfl⟩

/-- **A document that became a value is walked as the document was**: what has children stays nested,
and the other kinds of values have none either. -/
theorem mapValueOf_ofJson (document : Json) {path : List Char} (h : segments path ≠ []) :
    mapValueOf (.ofJson document) path = mapValueOf (.nested document) path := by
  obtain ⟨segment, rest, hpath⟩ := List.exists_cons_of_ne_nil h
  have hscalar (hchild : child? document segment = none) :
      mapValueOf (.nested document) path = .null := by
    rw [mapValueOf_nested, hpath, List.foldlM_cons, hchild]
    rfl
  cases document with
  | null | bool | string => exact (hscalar rfl).symm
  | number n =>
    rw [hscalar rfl, Value.ofJson]
    cases n.toInt64? <;> rfl
  | array | object => rfl

/-! ## One look-up for each segment -/

/-- Nothing is found in null. -/
theorem foldl_mapValueOf_null (path : List (List Char)) : path.foldl mapValueOf .null = .null := by
  induction path with
  | nil => rfl
  | cons segment rest ih => exact ih

/-- **A path is one look-up for each of its segments**, each in the value that the one before gave. -/
theorem mapValueOf_nested_eq_foldl (document : Json) (path : List Char) :
    mapValueOf (.nested document) path = (segments path).foldl mapValueOf (.ofJson document) := by
  rw [mapValueOf_nested]
  have hsegments : ∀ segment ∈ segments path, segments segment = [segment] := fun _ =>
    segments_of_mem
  generalize segments path = steps at hsegments
  induction steps generalizing document with
  | nil => rfl
  | cons segment rest ih =>
    obtain ⟨hsegment, hrest⟩ := List.forall_mem_cons.mp hsegments
    have hstep : mapValueOf (.ofJson document) segment =
        ((child? document segment).map Value.ofJson).getD .null := by
      rw [mapValueOf_ofJson document (by rw [hsegment]; exact List.cons_ne_nil _ _),
        mapValueOf_nested, hsegment, List.foldlM_cons]
      cases child? document segment <;> rfl
    rw [List.foldl_cons, hstep, List.foldlM_cons]
    cases child? document segment with
    | none => exact (foldl_mapValueOf_null rest).symm
    | some child => exact ih child hrest

/-! ## Paths in two parts -/

theorem mapValueOf_joined (value : Value) (p : List Char) {q : List Char} (hq : segments q ≠ []) :
    mapValueOf value (p ++ '.' :: q) = mapValueOf (mapValueOf value p) q := by
  cases value with
  | nested document =>
    obtain ⟨found, hfound⟩ := exists_ofJson_eq_mapValueOf document p
    calc mapValueOf (.nested document) (p ++ '.' :: q)
        = (segments q).foldl mapValueOf ((segments p).foldl mapValueOf (.ofJson document)) := by
          rw [mapValueOf_nested_eq_foldl, segments_joined, List.foldl_append]
      _ = (segments q).foldl mapValueOf (.ofJson found) := by
          rw [← mapValueOf_nested_eq_foldl, hfound]
      _ = mapValueOf (mapValueOf (.nested document) p) q := by
          rw [← mapValueOf_nested_eq_foldl, hfound, mapValueOf_ofJson found hq]
  | null | boolean | number | text | temporal => rfl

theorem scalar_mapValue (value : Value) (path : String) :
    scalar .mapValue [.text path] value = mapValueOf value path.toList := by
  cases value <;> rfl

/-- **A path may be walked in two parts**: in a nested document, or in any other value, what stands at
the first part followed by the second is what stands at the second in the value at the first.  This
takes a segment in the second part; the first may have none, and there may be empty segments in
both. -/
theorem scalar_mapValue_joined (value : Value) (p q : String) (hq : segments q.toList ≠ []) :
    scalar .mapValue [.text (p ++ "." ++ q)] value =
      scalar .mapValue [.text q] (scalar .mapValue [.text p] value) := by
  have hpath : (p ++ "." ++ q).toList = p.toList ++ '.' :: q.toList := by
    simp [String.toList_append]
  rw [scalar_mapValue, scalar_mapValue, scalar_mapValue, hpath, mapValueOf_joined value p.toList hq]

/-- A person with an address and a list of other names. -/
def person : Json :=
  .object [("address", .object [("city", .string "Oslo"), ("zip", .null)]),
    ("names", .array [.string "Annabel", .array [.number (.ofInt64 7)]])]

/-- An item of an array within an array, with empty segments in both parts. -/
theorem scalar_mapValue_joined_person :
    segments ".1.0".toList ≠ [] ∧
      scalar .mapValue [.text (".names" ++ "." ++ ".1.0")] (.nested person) =
        scalar .mapValue [.text ".1.0"] (scalar .mapValue [.text ".names"] (.nested person)) ∧
      scalar .mapValue [.text (".names" ++ "." ++ ".1.0")] (.nested person) = .integer 7 :=
  ⟨by decide, scalar_mapValue_joined (.nested person) ".names" ".1.0" (by decide), rfl⟩

/-! Without a segment in the second part the value in the middle is asked for a document, which a
scalar is not any more. -/

example : scalar .mapValue [.text "address.city."] (.nested person) = .text "Oslo" := rfl

example : scalar .mapValue [.text ""] (scalar .mapValue [.text "address.city"] (.nested person)) =
    .null := rfl

end DocQuery.Builtin
