import DocQuery.Proofs.Query.Registry
import DocQuery.Proofs.Rows.Headed
import DocQuery.Proofs.Value.Coercion
import Mathlib.Data.Option.Basic

/-!
# DocQuery.Proofs.Rows.Typing — rows whose values are of the expected types

Where some columns of tables hold values of their types alone, every row that a query over tables makes
has values of the types that the items of these columns are expected to have (`RowSet.IsTyped`).  An
item finds its value by identity or by what it denotes, and both lead to a place of its column and its
type as long as the items of all headers are entered in one registry (`Row.IsTyped.fits_evaluate?`).
-/

namespace DocQuery

/-! ## Items of tables -/

namespace Item

/-- The type that is expected of an item that refers to no subquery: that of its function, or that of
its column. -/
theorem expectedType?_of_inner?_eq_none {i : Item} (h : i.inner? = none) :
    i.expectedType? = (functionType? i.function).getD (i.column?.bind Column.type) := by
  obtain ⟨_, source, _, _, _, _, _⟩ := i
  cases source with
  | inner x => cases h
  | column c => rfl
  | expression text => rfl
  | nothing => rfl

/-- Items that read one column, or none, and are expected to have one type. -/
structure ReadsLike (a b : Item) : Prop where
  column : a.column? = b.column?
  type : a.expectedType? = b.expectedType?

theorem readsLike_of_sameAs {strict : Bool} {a b : Item} (h : sameAs strict a b = true)
    (hb : b.inner? = none) : a.ReadsLike b := by
  have ha : a.inner? = none := by
    rcases inner?_of_sameAs h with ⟨ha, -⟩ | ⟨x, y, -, hy, -⟩
    · exact ha
    · rw [hb] at hy
      cases hy
  refine ⟨column?_of_sameAs h, ?_⟩
  rw [expectedType?_of_inner?_eq_none ha, expectedType?_of_inner?_eq_none hb, function_of_sameAs h,
    column?_of_sameAs h]

theorem readsLike_of_withoutAlias {a b : Item} (h : a.withoutAlias = b.withoutAlias)
    (hb : b.inner? = none) : a.ReadsLike b := by
  have hinner : a.withoutAlias.inner? = b.withoutAlias.inner? := congrArg inner? h
  have hfunction : a.withoutAlias.function = b.withoutAlias.function := congrArg function h
  have hcolumn : a.withoutAlias.column? = b.withoutAlias.column? := congrArg column? h
  change a.inner? = b.inner? at hinner
  change a.function = b.function at hfunction
  change a.column? = b.column? at hcolumn
  refine ⟨hcolumn, ?_⟩
  rw [expectedType?_of_inner?_eq_none (hinner.trans hb), expectedType?_of_inner?_eq_none hb,
    hfunction, hcolumn]

theorem inner?_bare {i : Item} (h : i.inner? = none) : i.bare.inner? = none := by
  obtain ⟨_, source, _, _, _, _, _⟩ := i
  cases source with
  | inner x => cases h
  | column c => rfl
  | nothing => rfl
  | expression text =>
    unfold bare withFunction sourceUnder inner?
    dsimp only [plain]
    split
    next hinner =>
      split at hinner <;> cases hinner
    next => rfl

/-- An item without its function is expected to have the type of its column. -/
theorem expectedType?_bare {i : Item} (h : i.inner? = none) :
    i.bare.expectedType? = i.column?.bind Column.type := by
  rw [expectedType?_of_inner?_eq_none (inner?_bare h), column?_bare]
  rfl

/-- A value that an item may have where the columns of a kind hold values of their types alone: it is of
the type that the item is expected to have, unless the item reads another column. -/
def Fits (S : Column → Prop) (i : Item) (v : Value) : Prop :=
  (∀ c, i.column? = some c → S c) → v.isOfType i.expectedType? = true

variable {S : Column → Prop} {i j : Item} {v : Value}

theorem fits_of_isOfType (h : v.isOfType i.expectedType? = true) : i.Fits S v := fun _ => h

theorem fits_null : i.Fits S .null := fun _ => Value.isOfType_null _

theorem ReadsLike.fits (h : i.ReadsLike j) (hv : i.Fits S v) : j.Fits S v := by
  intro hcolumn
  rw [← h.type]
  exact hv (h.column ▸ hcolumn)

end Item

namespace Registry

variable {r r' : Registry} {i j : Item}

/-- An item of a registry that refers to no item of a subquery. -/
structure Flat (r : Registry) (i : Item) : Prop where
  enters : r.Enters i
  inner : i.inner? = none

theorem Flat.mono (h : r.Flat i) (hr : r'.Extends r) : r'.Flat i := ⟨h.enters.mono hr, h.inner⟩

theorem Flat.withoutAlias (h : r.Flat i) : r.Flat i.withoutAlias :=
  ⟨⟨h.enters.positive, h.enters.id_lt, h.enters.entry⟩, h.inner⟩

/-- Items with one identity read one column and are expected to have one type. -/
theorem Flat.readsLike (h : r.Flat i) (h' : r.Flat j) (hid : i.id = j.id) : i.ReadsLike j := by
  refine Item.readsLike_of_withoutAlias ?_ h'.inner
  rw [← h.enters.entry, ← h'.enters.entry, hid]

/-- An item that rows may be asked for: one of the registry, or one made for a look-up alone. -/
structure Asks (r : Registry) (i : Item) : Prop where
  id : i.id = 0 ∨ r.Enters i
  inner : i.inner? = none

theorem Flat.asks (h : r.Flat i) : r.Asks i := ⟨Or.inr h.enters, h.inner⟩

theorem asks_bare (h : i.inner? = none) : r.Asks i.bare := ⟨Or.inl rfl, Item.inner?_bare h⟩

end Registry

variable {S : Column → Prop} {r r' : Registry} {header items : List Item} {row : Row}

/-- **What an item is found at reads its column** and is expected to have its type. -/
theorem Header.exists_of_find? {i : Item} {n : Nat} (hheader : ∀ h ∈ header, r.Flat h)
    (hi : r.Asks i) (hfind : find? header i = some n) :
    ∃ h, header[n]? = some h ∧ h.ReadsLike i := by
  unfold find? at hfind
  rcases (Option.orElse_eq_some _ _ _).mp hfind with hid | ⟨-, hrest⟩
  · obtain ⟨hn, heq, -⟩ := List.findIdx?_eq_some_iff_getElem.mp hid
    have hflat := hheader _ (List.getElem_mem hn)
    refine ⟨_, List.getElem?_eq_getElem hn, ?_⟩
    rcases hi.id with hzero | henters
    · -- No header has an item that was made for a look-up alone.
      have hpositive := hflat.enters.positive
      rw [beq_iff_eq.mp heq, hzero] at hpositive
      exact absurd hpositive (Nat.lt_irrefl 0)
    · exact hflat.readsLike ⟨henters, hi.inner⟩ (beq_iff_eq.mp heq)
  · have hsame {strict : Bool} (h : header.findIdx? (Item.sameAs strict · i) = some n) :
        ∃ h, header[n]? = some h ∧ h.ReadsLike i := by
      obtain ⟨hn, heq, -⟩ := List.findIdx?_eq_some_iff_getElem.mp h
      exact ⟨_, List.getElem?_eq_getElem hn, Item.readsLike_of_sameAs heq hi.inner⟩
    rcases (Option.orElse_eq_some _ _ _).mp hrest with hscoped | ⟨-, hany⟩
    · exact hsame hscoped
    · exact hsame hany

/-! ## Rows -/

/-- Values that the items of a header may have where the columns of a kind hold values of their types
alone. -/
def AreTyped (S : Column → Prop) : List Item → List Value → Prop := List.Forall₂ (Item.Fits S)

theorem areTyped_map {f : Item → Value} (h : ∀ i ∈ items, i.Fits S (f i)) :
    AreTyped S items (items.map f) := by
  unfold AreTyped
  rw [List.forall₂_map_right_iff, List.forall₂_same]
  exact h

theorem areTyped_nulls (items : List Item) :
    AreTyped S items (List.replicate items.length .null) := by
  rw [← List.map_const]
  exact areTyped_map fun _ _ => Item.fits_null

/-- Items laid out alike may have the same values. -/
theorem AreTyped.of_sameLayout {values : List Value} (h : AreTyped S header values)
    (hlayout : Item.sameLayout header items = true) (hitems : ∀ i ∈ items, i.inner? = none) :
    AreTyped S items values := by
  have hsame := Item.sameLayout_iff.mp hlayout
  clear hlayout
  unfold AreTyped at h ⊢
  induction hsame generalizing values with
  | nil => exact h
  | cons hfirst _ ih =>
    rw [List.forall_mem_cons] at hitems
    cases h with
    | cons hv hrest =>
      have hlike := Item.readsLike_of_sameAs (Item.sameAs_of_same hfirst) hitems.1
      exact .cons (hlike.fits hv) (ih hrest hitems.2)

/-- A row of a data set with some header: its own items are entered, and its values are such as both may
have. -/
structure Row.IsTyped (S : Column → Prop) (r : Registry) (header : List Item) (row : Row) : Prop where
  items : ∀ i ∈ row.header, r.Flat i
  own : AreTyped S row.header row.values
  values : AreTyped S header row.values

namespace Row

theorem isTyped_self {values : List Value} {styles : Option (List (Option Style))}
    (hheader : ∀ i ∈ header, r.Flat i) (h : AreTyped S header values) :
    IsTyped S r header ⟨header, values, styles⟩ := ⟨hheader, h, h⟩

theorem IsTyped.mono (h : row.IsTyped S r header) (hr : r'.Extends r) : row.IsTyped S r' header :=
  ⟨fun i hi => (h.items i hi).mono hr, h.own, h.values⟩

theorem fits_applyScalar {i : Item} {f : Builtin} (hi : i.inner? = none)
    (hscalar : i.scalar? = some f) (v : Value) :
    i.Fits S (applyScalar i v) := by
  obtain ⟨hfunction, hf⟩ := Option.filter_eq_some_iff.mp hscalar
  refine Item.fits_of_isOfType ?_
  unfold applyScalar
  rw [hscalar, Item.expectedType?_of_inner?_eq_none hi, hfunction]
  exact Builtin.isOfType_scalar hf _ _ _

/-- **A typed row has a fitting value for every item** that it can be asked for. -/
theorem IsTyped.fits_evaluate? (h : row.IsTyped S r header) {i : Item} (hi : r.Asks i) {v : Value}
    (hv : row.evaluate? i = some v) : i.Fits S v := by
  have hlocate : row.locate? i = (Header.resolve? row.header i).map (·, i) := by
    unfold locate?
    rw [hi.inner]
    cases Header.resolve? row.header i <;> rfl
  unfold evaluate? at hv
  rw [hlocate] at hv
  obtain ⟨⟨found, target⟩, hfound, hv⟩ := Option.map_eq_some_iff.mp hv
  obtain ⟨place, hresolve, heq⟩ := Option.map_eq_some_iff.mp hfound
  obtain ⟨rfl, rfl⟩ := Prod.mk.inj heq
  unfold Header.resolve? at hresolve
  split at hresolve
  next n hfind =>
    cases hresolve
    obtain ⟨c, hc, hlike⟩ := Header.exists_of_find? h.items hi hfind
    obtain ⟨w, hw, hfits⟩ := getElem?_of_forall₂ h.own hc
    rw [← hv]
    show i.Fits S ((row.values[n]?).getD .null)
    rw [hw]
    exact hlike.fits hfits
  next =>
    split at hresolve
    next hscalar =>
      obtain ⟨n, -, rfl⟩ := Option.map_eq_some_iff.mp hresolve
      obtain ⟨f, hf⟩ := Option.isSome_iff_exists.mp hscalar
      rw [← hv]
      exact fits_applyScalar hi.inner hf _
    next => cases hresolve

theorem IsTyped.fits_getD (h : row.IsTyped S r header) {i : Item} (hi : r.Asks i) :
    i.Fits S ((row.evaluate? i).getD .null) := by
  cases hv : row.evaluate? i with
  | none => exact Item.fits_null
  | some v => exact h.fits_evaluate? hi hv

/-- The values that a typed row has for items fit these. -/
theorem IsTyped.areTyped (h : row.IsTyped S r header) (hitems : ∀ i ∈ items, r.Flat i)
    {values : List Value} (hvalues : items.map row.evaluate? = values.map some) :
    AreTyped S items values := by
  rw [← List.forall₂_eq_eq_eq, List.forall₂_map_left_iff, List.forall₂_map_right_iff] at hvalues
  exact ((List.forall₂_and_left _ _).mpr ⟨hitems, hvalues⟩).imp fun i v hv =>
    h.fits_evaluate? hv.1.asks hv.2

/-- A typed row with other items is typed. -/
theorem IsTyped.project (h : row.IsTyped S r header) (hitems : ∀ i ∈ items, r.Flat i) {projected : Row}
    (hprojected : row.project items = .ok projected) : projected.IsTyped S r items := by
  obtain ⟨values, hvalues, rfl⟩ := project_eq_ok_iff.mp hprojected
  exact isTyped_self hitems (h.areTyped hitems hvalues)

end Row

/-! ## Streams -/

namespace Stream

variable {P Q : Row → Prop} {s : Stream}

theorem Every.expand (h : s.Every P) {f : Row → List (Except QueryError Row)}
    (hf : ∀ row row', P row → Except.ok row' ∈ f row → Q row') : (expand f s).Every Q := by
  intro row hrow
  rw [outcomes_expand] at hrow
  obtain ⟨o, hmem, ho⟩ := List.mem_flatMap.mp hrow
  cases o with
  | ok given => exact hf given row (h given hmem) ho
  | error e => simp [spread] at ho

theorem Every.map (h : s.Every P) {f : Row → Except QueryError Row}
    (hf : ∀ row row', P row → f row = .ok row' → Q row') : (map f s).Every Q := by
  intro row hrow
  rw [outcomes_map] at hrow
  obtain ⟨o, hmem, ho⟩ := List.mem_map.mp hrow
  cases o with
  | ok given => exact hf given row (h given hmem) ho
  | error e => cases ho

end Stream

/-! ## Data sets -/

/-- A data set whose items are entered and whose rows have values that fit these. -/
structure RowSet.IsTyped (S : Column → Prop) (r : Registry) (d : RowSet) : Prop where
  header : ∀ i ∈ d.header, r.Flat i
  rows : d.stream.Every (Row.IsTyped S r d.header)

namespace RowSet

open Plan

variable {d d' : RowSet} {l l' : Ledger}

theorem IsTyped.mono (h : d.IsTyped S r) (hr : r'.Extends r) : d.IsTyped S r' :=
  ⟨fun i hi => (h.header i hi).mono hr, h.rows.mono fun _ hrow => hrow.mono hr⟩

theorem isTyped_ofRows {rows : List Row} (hheader : ∀ i ∈ header, r.Flat i)
    (h : ∀ row ∈ rows, row.IsTyped S r header) : (ofRows header rows).IsTyped S r :=
  ⟨hheader, Stream.every_ofRows h⟩

theorem IsTyped.of_mem (h : d.IsTyped S r) {rows : List Row} (hrows : d.Yields rows) :
    ∀ row ∈ rows, row.IsTyped S r d.header := fun row hrow => h.rows row (by
  rw [hrows]
  exact List.mem_map_of_mem hrow)

theorem IsTyped.filtered (h : d.IsTyped S r) (filters : List Filter) : (d.filtered filters).IsTyped S r := by
  refine ⟨?_, ?_⟩ <;> rw [header_filtered]
  · exact h.header
  · exact every_filtered h.rows filters

theorem IsTyped.paged (h : d.IsTyped S r) (firstRow : Nat) (maxRows : Option Nat) :
    (d.paged firstRow maxRows).IsTyped S r := by
  refine ⟨?_, ?_⟩ <;> rw [header_paged]
  · exact h.header
  · exact every_paged h.rows firstRow maxRows

/-! ## Selecting -/

theorem IsTyped.projected (h : d.IsTyped S r) (hitems : ∀ i ∈ items, r.Flat i) :
    (d.projected items).IsTyped S r := by
  refine ⟨hitems, ?_⟩
  unfold RowSet.projected
  dsimp only
  split
  next hlayout =>
    refine h.rows.mono fun row hrow => ⟨hrow.items, hrow.own, ?_⟩
    exact hrow.values.of_sameLayout hlayout fun i hi => (hitems i hi).inner
  next => exact h.rows.map fun row row' hrow hproject => hrow.project hitems hproject

/-- What scalar functions read is found for each of them. -/
theorem forall₂_of_scalarInputs {scalars : List Item} {functions : List (Item × Nat)}
    (h : scalarInputs header scalars = .ok functions) :
    List.Forall₂ (fun i x => x.1 = i ∧ ∃ f, i.scalar? = some f) scalars functions := by
  induction scalars generalizing functions with
  | nil =>
    cases h
    exact .nil
  | cons i rest ih =>
    unfold scalarInputs at h
    split at h
    next => cases h
    next hscalar =>
      split at h
      next found _ =>
        cases hrest : scalarInputs header rest with
        | error e =>
          rw [hrest] at h
          cases h
        | ok others =>
          rw [hrest] at h
          cases h
          refine .cons ⟨rfl, ?_⟩ (ih hrest)
          rw [← Option.isSome_iff_exists, Option.isSome_iff_ne_none]
          simpa using hscalar
      next => cases h

theorem isTyped_of_withScalars (h : d.IsTyped S r) {scalars : List Item}
    (hscalars : ∀ i ∈ scalars, r.Flat i)
    (hrun : (d.withScalars scalars).run l = (.ok d', l')) : d'.IsTyped S r := by
  unfold withScalars at hrun
  split at hrun
  next => exact absurd hrun run_bind_throw_ne_ok
  next functions hfunctions =>
    cases hrun
    have hheader : ∀ i ∈ scalars ++ d.header, r.Flat i :=
      List.forall_mem_append.mpr ⟨hscalars, h.header⟩
    refine ⟨hheader, h.rows.map fun row row' hrow heq => ?_⟩
    cases heq
    refine Row.isTyped_self hheader (List.rel_append ?_ ?_)
    · rw [List.forall₂_map_right_iff]
      have hinputs := forall₂_of_scalarInputs hfunctions
      clear hfunctions hheader
      induction hinputs with
      | nil => exact .nil
      | @cons i x _ _ hx _ ih =>
        rw [List.forall_mem_cons] at hscalars
        obtain ⟨rfl, f, hf⟩ := hx
        exact .cons (Row.fits_applyScalar hscalars.1.inner hf _) (ih hscalars.2)
    · have hlength : d.header.length = row.values.length := hrow.values.length_eq
      have hcells : (List.range row.values.length).map row.value = row.values :=
        Row.range_map_value row.header row.values
      rw [hlength, hcells]
      exact hrow.values

/-- **Selected rows are typed.** -/
theorem isTyped_of_selection (h : d.IsTyped S r) (hitems : ∀ i ∈ items, r.Flat i)
    (hrun : (d.selection items).run l = (.ok d', l')) : d'.IsTyped S r := by
  rw [selection_eq] at hrun
  split at hrun
  · cases hrun
    exact h
  · obtain ⟨staged, k, hstaged, hrun⟩ := run_bind_eq_ok hrun
    rw [projected_of_run hrun]
    refine IsTyped.projected ?_ hitems
    split at hstaged
    · cases hstaged
      exact h
    · refine isTyped_of_withScalars h (fun i hi => ?_) hstaged
      obtain ⟨j, hj, rfl⟩ : ∃ j ∈ items, i = j.withoutAlias := by
        unfold missingScalars at hi
        dsimp only at hi
        rw [← List.foldl_map] at hi
        have hgiven := (Item.mem_of_mem_foldl_pushNew hi).resolve_left List.not_mem_nil
        obtain ⟨j, hj, heq⟩ := List.mem_map.mp hgiven
        exact ⟨j, (List.mem_filter.mp hj).1, heq.symm⟩
      exact (hitems j hj).withoutAlias

/-! ## Joining -/

theorem isTyped_combine {outer : Row} {values : List Value} (hheader : ∀ i ∈ header ++ items, r.Flat i)
    (houter : outer.IsTyped S r header) (hinner : AreTyped S items values) :
    (combine (header ++ items) outer values).IsTyped S r (header ++ items) :=
  Row.isTyped_self hheader (List.rel_append houter.values hinner)

theorem IsTyped.nestedLoop (h : d.IsTyped S r) (hitems : ∀ i ∈ items, r.Flat i) {inner : List Row}
    (hinner : ∀ row ∈ inner, AreTyped S items row.values) (filters : List Filter) (padded : Bool) :
    (d.nestedLoop items inner filters padded).IsTyped S r := by
  have hheader : ∀ i ∈ d.header ++ items, r.Flat i := List.forall_mem_append.mpr ⟨h.header, hitems⟩
  refine ⟨hheader, h.rows.expand fun outer row houter hrow => ?_⟩
  rcases mem_matchesOf hrow with ⟨given, hgiven, heq⟩ | ⟨_, -, _, -, heq⟩ | ⟨padding, hpad, heq⟩
  · cases heq
    exact isTyped_combine hheader houter (hinner given hgiven)
  · cases heq
  · cases heq
    obtain rfl : padding = List.replicate items.length .null := by
      split at hpad
      · exact (Option.some.inj hpad).symm
      · cases hpad
    exact isTyped_combine hheader houter (areTyped_nulls items)

theorem isTyped_of_productWith {all : List Item} {pending : List Filter} {sets : List RowSet}
    (hall : ∀ i ∈ all, r.Flat i) (h : d.IsTyped S r) (hsets : ∀ inner ∈ sets, inner.IsTyped S r)
    (hrun : (productWith all d pending sets).run l = (.ok d', l')) : d'.IsTyped S r := by
  induction sets generalizing d pending l with
  | nil =>
    cases hrun
    exact h.filtered pending
  | cons inner rest ih =>
    rw [List.forall_mem_cons] at hsets
    unfold productWith at hrun
    obtain ⟨rows, k, hread, hrun⟩ := run_bind_eq_ok hrun
    have hrows := hsets.1.of_mem (yields_of_toRows (run_of_orElseClosing hread))
    split at hrun
    · obtain ⟨_, _, -, hrun⟩ := run_bind_eq_ok hrun
      obtain ⟨_, _, -, hrun⟩ := run_bind_eq_ok hrun
      cases hrun
      exact isTyped_ofRows hall (List.forall_mem_nil _)
    · refine ih (h.nestedLoop hsets.1.header (fun row hrow => (hrows row hrow).values) _ false)
        hsets.2 hrun

theorem isTyped_of_cartesianProduct {sets : List RowSet} {filters : List Filter}
    (h : ∀ d ∈ sets, d.IsTyped S r) (hrun : (cartesianProduct sets filters).run l = (.ok d', l')) :
    d'.IsTyped S r := by
  have hall : ∀ i ∈ sets.flatMap (·.header), r.Flat i := by
    intro i hi
    obtain ⟨d, hd, hmem⟩ := List.mem_flatMap.mp hi
    exact (h d hd).header i hmem
  unfold cartesianProduct at hrun
  split at hrun
  · cases hrun
  · rw [List.forall_mem_cons] at h
    exact isTyped_of_productWith hall h.1 h.2 hrun

theorem isTyped_of_leftJoin {right : RowSet} {conditions : List Filter} (h : d.IsTyped S r)
    (hright : right.IsTyped S r) (hrun : (d.leftJoin right conditions).run l = (.ok d', l')) :
    d'.IsTyped S r := by
  obtain ⟨rows, k, hread, hrun⟩ := run_bind_eq_ok hrun
  have hrows := hright.of_mem (yields_of_toRows (run_of_orElseClosing hread))
  cases hrun
  exact h.nestedLoop hright.header (fun row hrow => (hrows row hrow).values) _ true

theorem isTyped_of_rightJoin {right : RowSet} {conditions : List Filter} (h : d.IsTyped S r)
    (hright : right.IsTyped S r) (hrun : (d.rightJoin right conditions).run l = (.ok d', l')) :
    d'.IsTyped S r := by
  obtain ⟨joined, k, hjoined, hselected⟩ := run_bind_eq_ok hrun
  exact isTyped_of_selection (isTyped_of_leftJoin hright h hjoined)
    (List.forall_mem_append.mpr ⟨h.header, hright.header⟩) hselected

/-! ## Aggregating -/

section Aggregates

variable {rows : List Row} (hrows : ∀ row ∈ rows, row.IsTyped S r header)

include hrows

/-- **An aggregate of typed rows fits its item.** -/
theorem fits_aggregateOver {i : Item} (hi : i.inner? = none) : i.Fits S (aggregateOver i rows) := by
  intro hcolumn
  unfold aggregateOver
  cases haggregate : i.aggregate? with
  | none => exact Value.isOfType_null _
  | some f =>
    obtain ⟨hfunction, hf⟩ := Option.filter_eq_some_iff.mp haggregate
    rw [Item.expectedType?_of_inner?_eq_none hi, hfunction]
    cases htype : Item.functionType? (some f) with
    | some type =>
      -- The function has a type of its own, whatever it is computed from.
      have hof := Builtin.isOfType_aggregate hf fun v (_ : v ∈ rows.map (inputOf i)) =>
        Value.isOfType_none v
      rwa [htype] at hof
    | none =>
      have hcount : i.isCountAll = false := by
        by_contra hcount
        rw [Bool.not_eq_false] at hcount
        rw [Item.aggregate?_of_isCountAll hcount] at haggregate
        cases haggregate
        cases htype
      have hinputs : ∀ v ∈ rows.map (inputOf i), v.isOfType (i.column?.bind Column.type) = true := by
        intro v hv
        obtain ⟨row, hrow, rfl⟩ := List.mem_map.mp hv
        unfold inputOf
        rw [hcount, ← Item.expectedType?_bare hi]
        refine (hrows row hrow).fits_getD (Registry.asks_bare hi) fun c hc => hcolumn c ?_
        rwa [Item.column?_bare] at hc
      have hof := Builtin.isOfType_aggregate hf hinputs
      rwa [htype] at hof

theorem areTyped_aggregates (hitems : ∀ i ∈ items, i.inner? = none) :
    AreTyped S items (items.map (aggregateOver · rows)) :=
  areTyped_map fun i hi => fits_aggregateOver hrows (hitems i hi)

theorem isTyped_rowBeside (hitems : ∀ i ∈ items, r.Flat i) {beside : Option Row}
    (hbeside : ∀ row ∈ beside, row.IsTyped S r header) :
    (rowBeside items rows beside).IsTyped S r items := by
  refine Row.isTyped_self hitems (areTyped_map fun i hi => ?_)
  unfold valueBeside
  split
  next n hn =>
    obtain ⟨hlt, hsame, -⟩ := List.findIdx?_eq_some_iff_getElem.mp hn
    rw [List.getElem?_map, List.getElem?_eq_getElem hlt]
    refine (Item.readsLike_of_sameAs hsame (hitems i hi).inner).fits ?_
    refine fits_aggregateOver hrows ?_
    have hmem := List.getElem_mem hlt
    have hgiven := (Item.mem_of_mem_foldl_pushNew hmem).resolve_left List.not_mem_nil
    exact (hitems _ (List.mem_filter.mp hgiven).1).inner
  next =>
    cases beside with
    | none => exact Item.fits_null
    | some row => exact (hbeside row rfl).fits_getD (hitems i hi).asks

end Aggregates

theorem isTyped_of_aggregated (h : d.IsTyped S r) (hitems : ∀ i ∈ items, r.Flat i)
    (hrun : (d.aggregated items).run l = (.ok d', l')) : d'.IsTyped S r := by
  rcases aggregated_eq_ok hrun with ⟨-, rfl⟩ | ⟨rows, kept, hd, hkept, rfl⟩
  · exact h
  · have hrows := h.of_mem hd
    refine isTyped_ofRows hitems fun row hrow => ?_
    split at hrow
    · rw [List.mem_singleton.mp hrow]
      exact isTyped_rowBeside hrows hitems fun row hnone => by cases hnone
    · obtain ⟨beside, hbeside, rfl⟩ := List.mem_map.mp hrow
      refine isTyped_rowBeside hrows hitems fun row hsome => ?_
      cases hsome
      rw [hkept] at hbeside
      split at hbeside
      · cases hbeside
      · exact hrows _ hbeside

/-! ## Grouping -/

/-- A group of rows: its key fits the items to group by, and its contributions come from some of the
rows. -/
structure Group.IsOf (S : Column → Prop) (groupBy aggregates : List Item) (rows : List Row)
    (g : Group) : Prop where
  key : AreTyped S groupBy g.key
  rows : ∃ members, members ⊆ rows ∧ g.rows = members.map fun row => aggregates.map (inputOf · row)

theorem isOf_addToGroups {groupBy aggregates : List Item} {rows : List Row} {groups : List Group}
    {key : List Value} (h : ∀ g ∈ groups, g.IsOf S groupBy aggregates rows)
    (hkey : AreTyped S groupBy key) {row : Row} (hrow : row ∈ rows) :
    ∀ g ∈ addToGroups key (aggregates.map (inputOf · row)) groups, g.IsOf S groupBy aggregates rows := by
  induction groups with
  | nil =>
    refine List.forall_mem_singleton.mpr ⟨hkey, [row], ?_, rfl⟩
    exact List.cons_subset.mpr ⟨hrow, List.nil_subset _⟩
  | cons g rest ih =>
    rw [List.forall_mem_cons] at h
    unfold addToGroups
    split
    · obtain ⟨members, hsub, heq⟩ := h.1.rows
      refine List.forall_mem_cons.mpr ⟨⟨h.1.key, row :: members, ?_, ?_⟩, h.2⟩
      · exact List.cons_subset.mpr ⟨hrow, hsub⟩
      · rw [List.map_cons, ← heq]
    · exact List.forall_mem_cons.mpr ⟨h.1, ih h.2⟩

theorem isOf_of_foldlM_groupRow {groupBy aggregates : List Item} {rows more : List Row}
    {start groups : List Group} (hrows : ∀ row ∈ rows, row.IsTyped S r header)
    (hgroupBy : ∀ i ∈ groupBy, r.Flat i) (hmore : more ⊆ rows)
    (hstart : ∀ g ∈ start, g.IsOf S groupBy aggregates rows)
    (hfold : more.foldlM (groupRow groupBy aggregates) start = .ok groups) :
    ∀ g ∈ groups, g.IsOf S groupBy aggregates rows := by
  induction more generalizing start with
  | nil =>
    cases hfold
    exact hstart
  | cons row rest ih =>
    rw [List.cons_subset] at hmore
    rw [List.foldlM_cons] at hfold
    obtain ⟨next, hnext, hfold⟩ := exists_of_bind_eq_ok hfold
    obtain ⟨key, hkey, hnext⟩ := exists_of_bind_eq_ok hnext
    obtain ⟨contributed, hcontributed, hnext⟩ := exists_of_bind_eq_ok hnext
    cases hnext
    refine ih hmore.2 ?_ hfold
    rw [contributions_eq_ok hcontributed]
    have hkey := (hrows row hmore.1).areTyped hgroupBy (groupKey_eq_ok_iff.mp hkey)
    exact isOf_addToGroups hstart hkey hmore.1

/-- The row of a group is typed. -/
theorem Group.IsOf.isTyped_toRow {groupBy aggregates : List Item} {rows : List Row} {g : Group}
    (h : g.IsOf S groupBy aggregates rows) (hrows : ∀ row ∈ rows, row.IsTyped S r header)
    (hheader : ∀ i ∈ groupBy ++ aggregates, r.Flat i) :
    (g.toRow (groupBy ++ aggregates) aggregates).IsTyped S r (groupBy ++ aggregates) := by
  obtain ⟨members, hsub, heq⟩ := h.rows
  refine Row.isTyped_self hheader (List.rel_append h.key ?_)
  rw [heq, ← List.map_reverse, aggregateAll_inputs]
  refine areTyped_aggregates (fun row hrow => hrows row (hsub (List.mem_reverse.mp hrow)))
    fun i hi => (hheader i (List.mem_append_right _ hi)).inner

theorem isTyped_of_grouped {groupBy : List Item} (h : d.IsTyped S r) (hitems : ∀ i ∈ items, r.Flat i)
    (hgroupBy : ∀ i ∈ groupBy, r.Flat i)
    (hrun : (d.grouped items groupBy).run l = (.ok d', l')) : d'.IsTyped S r := by
  unfold grouped at hrun
  split at hrun
  · exact absurd hrun run_bind_throw_ne_ok
  next aggregates haggregates =>
    dsimp only at hrun
    split at hrun
    · exact absurd hrun run_bind_throw_ne_ok
    · obtain ⟨groups, k, hfold, hselected⟩ := run_bind_eq_ok hrun
      obtain ⟨rows, hd, hgroups⟩ := foldRows_eq_ok hfold
      have hheader : ∀ i ∈ groupBy ++ aggregates, r.Flat i := by
        refine List.forall_mem_append.mpr ⟨hgroupBy, fun i hi => ?_⟩
        rw [aggregatesOf_eq_ok haggregates] at hi
        have hgiven := (Item.mem_of_mem_foldl_pushNew hi).resolve_left List.not_mem_nil
        exact hitems i (List.mem_filter.mp hgiven).1
      have hrows := h.of_mem hd
      have hof := isOf_of_foldlM_groupRow hrows hgroupBy (List.Subset.refl _)
        (List.forall_mem_nil _) hgroups
      refine isTyped_of_selection (isTyped_ofRows hheader fun row hrow => ?_) hitems hselected
      obtain ⟨g, hg, rfl⟩ := List.mem_map.mp hrow
      exact (hof g hg).isTyped_toRow hrows hheader

end RowSet

end DocQuery
