import DocQuery.Proofs.Documents.Loaded
import DocQuery.Proofs.Json.ReadBack
import DocQuery.Shell.Session

/-!
# DocQuery.Proofs.Output.Documents — results as documents

Shown as JSON, each row is an object with the labels of the columns for keys.  The cells of a row have
places and the members of an object have keys, so where two columns have one label, only the last of
them is found in the object (`Output.ShowsRow`).  Every cell of a row can be read back exactly where
columns with one label have cells that are equal as documents.  The text itself loses nothing on top of
that: it is read as these very objects, unless a cell is nested deeper than the reader goes or holds a
double that it misses (`Answer.shown_as_documents`).
-/

namespace DocQuery

/-! ## Members added one by one -/

namespace Json

theorem member?_insertMember (members : List (String × Json)) (key : String) (value : Json)
    (k : String) :
    member? k (insertMember members key value) = if key = k then some value else member? k members := by
  induction members with
  | nil => rfl
  | cons m rest ih =>
    obtain ⟨first, v⟩ := m
    unfold insertMember
    by_cases hkey : first = key
    · subst hkey
      rw [if_pos rfl]
      by_cases hk : first = k <;> simp [member?, hk]
    · rw [if_neg hkey, member?, ih]
      by_cases hk : first = k
      · subst hk
        simp [member?, Ne.symm hkey]
      · simp [member?, hk]

/-- **Under a key stands what was added last under it.** -/
theorem member?_foldl_insertMember (members : List (String × Json)) (k : String) :
    member? k (members.foldl (fun ms m => insertMember ms m.1 m.2) []) =
      ((members.filter (·.1 == k)).map (·.2)).getLast? := by
  induction members using List.reverseRecOn with
  | nil => rfl
  | append_singleton members m ih =>
    rw [List.foldl_append, List.foldl_cons, List.foldl_nil, member?_insertMember, ih,
      List.filter_append, List.map_append, List.filter_singleton]
    by_cases hkey : m.1 = k
    · simp [hkey]
    · rw [if_neg hkey, beq_false_of_ne hkey]
      exact congrArg List.getLast? (List.append_nil _).symm

theorem insertMember_keys (members : List (String × Json)) (key : String) (value : Json) :
    (insertMember members key value).map (·.1) =
      if key ∈ members.map (·.1) then members.map (·.1) else members.map (·.1) ++ [key] := by
  induction members with
  | nil => rfl
  | cons m rest ih =>
    unfold insertMember
    by_cases hkey : m.1 = key
    · simp [hkey]
    · rw [if_neg hkey, List.map_cons, ih, List.map_cons]
      by_cases hmem : key ∈ rest.map (·.1) <;> simp [hmem, Ne.symm hkey]

/-- **The keys are in the order in which they were first added.** -/
theorem keys_foldl_insertMember (members : List (String × Json)) :
    (members.foldl (fun ms m => insertMember ms m.1 m.2) []).map (·.1) =
      (members.map (·.1)).eraseDups := by
  induction members using List.reverseRecOn with
  | nil => rfl
  | append_singleton members m ih =>
    rw [List.foldl_append, List.foldl_cons, List.foldl_nil, insertMember_keys, ih, List.map_append,
      List.eraseDups_append]
    by_cases hmem : m.1 ∈ members.map (·.1)
    · simp [List.removeAll, hmem]
    · simp [List.removeAll, hmem, List.eraseDups_cons]

end Json

/-! ## Rows -/

namespace Output

open LoadedTable (valuesUnder)

/-- Every cell of a row can be read back under the label of its column. -/
def KeepsCells (labels : List String) (row : Row) (members : List (String × Json)) : Prop :=
  ∀ (place : Nat) (label : String) (v : Value), labels[place]? = some label →
    row.values[place]? = some v → Json.member? label members = some v.toJson

/-- Columns with one label have cells that are equal as documents. -/
def LabelsAgree (labels : List String) (row : Row) : Prop :=
  ∀ (i j : Nat) (label : String) (v w : Value), labels[i]? = some label → labels[j]? = some label →
    row.values[i]? = some v → row.values[j]? = some w → v.toJson = w.toJson

/-- What the object of a row holds: the labels in the order of their first columns, each with the
cell of its last column. -/
structure ShowsRow (labels : List String) (row : Row) (members : List (String × Json)) : Prop where
  keys : members.map (·.1) = ((labels.zip row.values).map (·.1)).eraseDups
  distinct : (members.map (·.1)).Nodup
  last : ∀ label, Json.member? label members =
    ((valuesUnder label (labels.zip row.values)).getLast?).map Value.toJson
  keeps_iff : KeepsCells labels row members ↔ LabelsAgree labels row

variable {labels : List String} {row : Row} {members : List (String × Json)}

theorem mem_valuesUnder_iff {label : String} {v : Value} :
    v ∈ valuesUnder label (labels.zip row.values) ↔
      ∃ place : Nat, labels[place]? = some label ∧ row.values[place]? = some v := by
  have hpair : v ∈ valuesUnder label (labels.zip row.values) ↔
      (label, v) ∈ labels.zip row.values := by
    simp [valuesUnder]
  rw [hpair, List.mem_iff_getElem?]
  simp only [List.getElem?_zip_eq_some]

/-- **Every cell can be read back exactly where equal labels stand over equal cells.** -/
theorem keepsCells_iff_of_last (hlast : ∀ label, Json.member? label members =
    ((valuesUnder label (labels.zip row.values)).getLast?).map Value.toJson) :
    KeepsCells labels row members ↔ LabelsAgree labels row := by
  constructor
  · intro hkeeps i j label v w hi hj hv hw
    have hfound := hkeeps i label v hi hv
    rw [hkeeps j label w hj hw] at hfound
    exact (Option.some.inj hfound).symm
  · intro hagree place label v hlabel hv
    have hmem : v ∈ valuesUnder label (labels.zip row.values) :=
      mem_valuesUnder_iff.mpr ⟨place, hlabel, hv⟩
    obtain ⟨w, hw⟩ : ∃ w, (valuesUnder label (labels.zip row.values)).getLast? = some w :=
      Option.ne_none_iff_exists'.mp fun hnone => by simp_all
    obtain ⟨place', hlabel', hw'⟩ := mem_valuesUnder_iff.mp (List.mem_of_getLast? hw)
    rw [hlast, hw, Option.map_some, hagree place place' label v w hlabel hlabel' hv hw']

/-- The members of the object of a row. -/
def membersOf (labels : List String) (row : Row) : List (String × Json) :=
  ((labels.zip row.values).map fun cell => (cell.1, cell.2.toJson)).foldl
    (fun ms m => Json.insertMember ms m.1 m.2) []

theorem objectOf_eq (labels : List String) (row : Row) :
    objectOf labels row = .object (membersOf labels row) := by
  rw [membersOf, List.foldl_map]
  rfl

/-- **What the object of a row holds.** -/
theorem showsRow_membersOf (labels : List String) (row : Row) :
    ShowsRow labels row (membersOf labels row) := by
  have hlast (label : String) : Json.member? label (membersOf labels row) =
      ((valuesUnder label (labels.zip row.values)).getLast?).map Value.toJson := by
    rw [membersOf, Json.member?_foldl_insertMember, List.filter_map, List.map_map,
      ← List.getLast?_map, valuesUnder, List.map_map]
    rfl
  refine ⟨?_, Json.foldl_insertMember_keys_nodup _, hlast, keepsCells_iff_of_last hlast⟩
  rw [membersOf, Json.keys_foldl_insertMember, List.map_map]
  rfl

/-! ## Texts -/

/-- The document of a result. -/
def documentOf (labels : List String) (rows : List Row) : Json :=
  .array (rows.map fun row => .object (membersOf labels row))

theorem toList_documents (labels : List String) (rows : List Row) :
    (documents labels rows).toList = Json.spread 0 (documentOf labels rows) ++ ['\n'] := by
  have hobjects : rows.map (objectOf labels) = rows.map fun row => .object (membersOf labels row) :=
    List.map_congr_left fun row _ => objectOf_eq labels row
  rw [documents, Json.spreadText, hobjects, String.toList_append, String.toList_ofList]
  rfl

/-- How deep a cell may be nested so that it can be read: two containers are around it. -/
def cellDepthLimit : Nat := Json.Reading.depthLimit - 2

/-- The objects of rows have distinct keys, so they read back if their cells do. -/
theorem readsBack_documentOf_iff (labels : List String) (rows : List Row) :
    (documentOf labels rows).readsBack Json.Reading.depthLimit = true ↔
      ∀ row ∈ rows, ∀ m ∈ membersOf labels row, m.2.readsBack cellDepthLimit = true := by
  rw [documentOf, Json.readsBack_array_iff, List.forall_mem_map]
  refine (and_iff_right (by decide)).trans (forall₂_congr fun row _ => ?_)
  rw [Json.readsBack_object_iff]
  exact (and_iff_right (by decide)).trans
    (and_iff_right (showsRow_membersOf labels row).distinct)

end Output

/-- **A result shown as JSON** is a text with one object for each row, in their order, in which each
label has the cell of the last column that it stands over, and the count of the rows.  So a row keeps
all its cells exactly if columns with one label agree.  The text is read as these very objects exactly
if the cells in them read back. -/
theorem Answer.shown_as_documents (a : Answer) (styled : Bool) :
    ∃ text, Output.write styled .json a.labels a.rows = .ok text ∧
      text.toList = Json.spread 0 (Output.documentOf a.labels a.rows) ++ ['\n'] ∧
      (∀ row ∈ a.rows, Output.ShowsRow a.labels row (Output.membersOf a.labels row)) ∧
      (Json.read? text.toList = some (Output.documentOf a.labels a.rows) ↔
        ∀ row ∈ a.rows, ∀ m ∈ Output.membersOf a.labels row,
          m.2.readsBack Output.cellDepthLimit = true) ∧
      ∀ source options sql, RowSource.ask source options sql = .ok a →
        Shell.runQuery source options .json sql = .ok (text, a.rows.length) := by
  have htext := Output.toList_documents a.labels a.rows
  refine ⟨Output.documents a.labels a.rows, rfl, htext,
    fun row _ => Output.showsRow_membersOf a.labels row, ?_, fun source options sql hask => ?_⟩
  · rw [htext, Json.read?_spread_eq_some_iff, Output.readsBack_documentOf_iff]
  · unfold Shell.runQuery
    rw [hask]
    rfl

namespace Output

/-! ## Two columns under one label -/

/-- One row of two columns that were given one alias. -/
def twoUnderOne : Answer :=
  let header := [(Item.ofColumn 1 ⟨"a", "t", none, false⟩ none).withAlias "x",
    (Item.ofColumn 2 ⟨"b", "t", none, false⟩ none).withAlias "x"]
  ⟨header, [{ header := header, values := [.integer 1, .integer 2] }]⟩

/-- **The first of two columns with one label is not in the object.** -/
theorem not_keepsCells_twoUnderOne :
    documents twoUnderOne.labels twoUnderOne.rows =
        "[\n  \x7b\n    \"x\": 2\n  \x7d\n]\n" ∧
      ¬ ∀ row ∈ twoUnderOne.rows,
        KeepsCells twoUnderOne.labels row (membersOf twoUnderOne.labels row) := by
  refine ⟨by decide +kernel, fun hkeeps => ?_⟩
  have hfirst : some (Value.integer 2).toJson = some (Value.integer 1).toJson :=
    hkeeps _ List.mem_cons_self 0 "x" (.integer 1) rfl rfl
  have hnumber := Json.number.inj (Option.some.inj hfirst)
  exact absurd hnumber (by decide)

end Output

end DocQuery
