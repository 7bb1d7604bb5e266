import DocQuery.Proofs.Query.Sameness
import DocQuery.Proofs.Rows.Memos
import DocQuery.Proofs.Rows.RightJoin

/-!
# DocQuery.Proofs.Rows.Reshaping — what a selection gives of any rows

A selection takes every cell from a place where its item stands: where a look-up finds it, or where
rows that are laid out like the items already have it (`Header.IsPlace`).  With scalar functions
computed in front, look-ups go through a header that the rows did not have before.  Over distinct
items, each item still has the value there that it has in the row itself, unless two items that count
as the same differ in their parameters (`RowSet.gives_reshaped`); then one takes the place of the
other (`RowSet.selection_conflated`).
-/

namespace DocQuery

/-! ## Places of items -/

namespace Header

variable {header items : List Item} {a b i x : Item} {n : Nat}

/-- An item that a look-up of another one takes before all that denote the same in some scope only. -/
def Names (x i : Item) : Prop := x.id = i.id ∨ Item.sameAs true x i = true

instance (x i : Item) : Decidable (Names x i) :=
  inferInstanceAs (Decidable (x.id = i.id ∨ Item.sameAs true x i = true))

/-- A place where an item may be read: where it is found, or where the same item stands. -/
def IsPlace (header : List Item) (i : Item) (n : Nat) : Prop :=
  find? header i = some n ∨ ∃ x, header[n]? = some x ∧ Item.sameAs true x i = true

/-- A look-up ends at an item that names the other one, or at the first that denotes the same in any
scope if there is none. -/
theorem find?_cases (h : find? header i = some n) :
    (∃ x, header[n]? = some x ∧ Names x i) ∨
      (∀ x ∈ header, ¬ Names x i) ∧ header.findIdx? (Item.sameAs false · i) = some n := by
  simp only [find?, Option.orElse_eq_orElse, Option.orElse_eq_or, Option.or_eq_some_iff] at h
  rcases h with hid | ⟨hid, hsame | ⟨hsame, hloose⟩⟩
  · obtain ⟨hn, heq, -⟩ := List.findIdx?_eq_some_iff_getElem.mp hid
    exact Or.inl ⟨_, List.getElem?_eq_getElem hn, Or.inl (beq_iff_eq.mp heq)⟩
  · obtain ⟨hn, heq, -⟩ := List.findIdx?_eq_some_iff_getElem.mp hsame
    exact Or.inl ⟨_, List.getElem?_eq_getElem hn, Or.inr heq⟩
  · refine Or.inr ⟨fun x hx hnames => ?_, hloose⟩
    rw [List.findIdx?_eq_none_iff] at hid hsame
    rcases hnames with hxid | hxsame
    · exact absurd hxid (by simpa using hid x hx)
    · exact absurd hxsame (by simpa using hsame x hx)

theorem find?_of_not_names (h : ∀ x ∈ header, ¬ Names x i) :
    find? header i = header.findIdx? (Item.sameAs false · i) := by
  have hid : (header.findIdx? fun x => x.id == i.id) = none :=
    List.findIdx?_eq_none_iff.mpr fun x hx => beq_false_of_ne fun heq => h x hx (Or.inl heq)
  have hsame : header.findIdx? (Item.sameAs true · i) = none :=
    List.findIdx?_eq_none_iff.mpr fun x hx => Bool.eq_false_iff.mpr fun heq => h x hx (Or.inr heq)
  unfold find?
  rw [hid, hsame]
  rfl

theorem isSome_find?_iff : (find? header i).isSome = true ↔
    ∃ x ∈ header, Names x i ∨ Item.sameAs false x i = true := by
  constructor
  · intro h
    obtain ⟨n, hn⟩ := Option.isSome_iff_exists.mp h
    rcases find?_cases hn with ⟨x, hx, hnames⟩ | ⟨-, hloose⟩
    · exact ⟨x, List.mem_of_getElem? hx, Or.inl hnames⟩
    · obtain ⟨hlt, hsame, -⟩ := List.findIdx?_eq_some_iff_getElem.mp hloose
      exact ⟨header[n], List.getElem_mem hlt, Or.inr hsame⟩
  · rintro ⟨x, hx, hnames⟩
    by_cases hany : ∃ y ∈ header, Names y i
    · obtain ⟨y, hy, hyi⟩ := hany
      exact Option.isSome_iff_exists.mpr (exists_find?_of_mem hy hyi)
    · have hnone : ∀ y ∈ header, ¬ Names y i := fun y hy hyi => hany ⟨y, hy, hyi⟩
      rw [find?_of_not_names hnone, List.findIdx?_isSome, List.any_eq_true]
      exact ⟨x, hx, hnames.resolve_left (hnone x hx)⟩

/-- An item is found behind others as well. -/
theorem isSome_find?_append (h : (find? header i).isSome = true) (front : List Item) :
    (find? (front ++ header) i).isSome = true := by
  rw [isSome_find?_iff] at h ⊢
  obtain ⟨x, hx, hnames⟩ := h
  exact ⟨x, List.mem_append_right _ hx, hnames⟩

/-- An item that is resolved and not found itself has a scalar function of what is found. -/
theorem exists_find?_bare (h : (resolve? header i).isSome = true) (hnone : find? header i = none) :
    i.scalar?.isSome = true ∧ ∃ n, find? header i.bare = some n := by
  unfold resolve? at h
  rw [hnone] at h
  dsimp only at h
  split at h
  next hscalar =>
    rw [Option.isSome_map] at h
    exact ⟨hscalar, Option.isSome_iff_exists.mp h⟩
  next => cases h

theorem resolve?_bare (header : List Item) (i : Item) :
    resolve? header i.bare = (find? header i.bare).map (⟨·, false⟩) := by
  have hscalar : i.bare.scalar? = none := rfl
  unfold resolve?
  rw [hscalar]
  cases find? header i.bare <;> rfl

/-! ## Items of one meaning -/

/-- Items have an identity in common with others only as copies. -/
def SharesCopies (header items : List Item) : Prop :=
  ∀ a ∈ header ++ items, ∀ b ∈ items, a.id = b.id → a.withoutAlias = b.withoutAlias

/-- Items that denote the same in some scope have equal parameters. -/
def IsExact (header items : List Item) : Prop :=
  ∀ a ∈ header ++ items, ∀ b ∈ items, Item.sameAs false a b = true →
    a.allParameters = b.allParameters

/-- Items of one meaning and one identity are found in the same place. -/
theorem find?_congr (hid : a.id = b.id) (h : Item.meaning true a = Item.meaning true b) :
    find? header a = find? header b := by
  have htrue : (Item.sameAs true · a) = (Item.sameAs true · b) :=
    funext fun x => Item.sameAs_congr rfl h
  have hfalse : (Item.sameAs false · a) = (Item.sameAs false · b) :=
    funext fun x => Item.sameAs_congr rfl (Item.meaning_false_of_meaning h)
  unfold find?
  rw [hid, htrue, hfalse]

/-- What items of one meaning read without their functions is found in the same place. -/
theorem find?_bare_congr (h : Item.meaning true a = Item.meaning true b) :
    find? header a.bare = find? header b.bare :=
  find?_congr rfl (by rw [Item.meaning_bare, Item.meaning_bare, h])

section Exact

variable (hcopies : SharesCopies header items) (hexact : IsExact header items)

include hcopies hexact

theorem meaning_of_names (ha : a ∈ header ++ items) (hb : b ∈ items) (h : Names a b) :
    Item.meaning true a = Item.meaning true b := by
  rcases h with hid | hsame
  · exact Item.meaning_of_copies (hcopies a ha b hb hid)
  · exact Item.meaning_eq_of_sameAs hsame (hexact a ha b hb (Item.sameAs_false_of_sameAs hsame))

theorem meaning_false_of_names (ha : a ∈ header ++ items) (hb : b ∈ items)
    (h : Names a b ∨ Item.sameAs false a b = true) :
    Item.meaning false a = Item.meaning false b := by
  rcases h with hnames | hloose
  · exact Item.meaning_false_of_meaning (meaning_of_names hcopies hexact ha hb hnames)
  · exact Item.meaning_eq_of_sameAs hloose (hexact a ha b hb hloose)

/-- **An item is not found if an item that stands for it is not.** -/
theorem find?_eq_none_of_names (ha : a ∈ items) (hb : b ∈ items) (hnone : find? header a = none)
    (h : Names a b ∨ Item.sameAs false a b = true) : find? header b = none := by
  have hmeaning := meaning_false_of_names hcopies hexact (List.mem_append_right _ ha) hb h
  rw [← Option.not_isSome_iff_eq_none, isSome_find?_iff] at hnone ⊢
  rintro ⟨x, hx, hxb⟩
  refine hnone ⟨x, hx, ?_⟩
  have hxmeaning := meaning_false_of_names hcopies hexact (List.mem_append_left _ hx) hb hxb
  -- Unless all three have one identity, one of the two pairs is the same, and so is the third.
  rcases hxb with (hxid | hxsame) | hxsame
  · rcases h with (hid | hsame) | hsame
    · exact Or.inl (Or.inl (hxid.trans hid.symm))
    · refine Or.inr ?_
      rw [Item.sameAs_congr (hxmeaning.trans hmeaning.symm) hmeaning]
      exact Item.sameAs_false_of_sameAs hsame
    · refine Or.inr ?_
      rw [Item.sameAs_congr (hxmeaning.trans hmeaning.symm) hmeaning]
      exact hsame
  · refine Or.inr ?_
    rw [Item.sameAs_congr rfl hmeaning]
    exact Item.sameAs_false_of_sameAs hxsame
  · refine Or.inr ?_
    rw [Item.sameAs_congr rfl hmeaning]
    exact hxsame

/-- Of distinct items only one names an item. -/
theorem IsDistinct.eq_of_names (hdistinct : IsDistinct header) (ha : a ∈ header) (hb : b ∈ header)
    (hi : i ∈ items) (hai : Names a i) (hbi : Names b i) : a = b := by
  have hmeaning := meaning_of_names hcopies hexact (List.mem_append_left _ ha) hi hai
  have hmeaning' := meaning_of_names hcopies hexact (List.mem_append_left _ hb) hi hbi
  by_contra hne
  have : Std.Symm fun i k : Item => Item.sameAs true i k = false ∧ Item.sameAs true k i = false :=
    ⟨fun _ _ h => h.symm⟩
  have hdifferent := hdistinct.different.forall ha hb hne
  rcases hai with haid | hasame
  · rcases hbi with hbid | hbsame
    · exact hne (List.inj_on_of_nodup_map hdistinct.ids ha hb (haid.trans hbid.symm))
    · rw [← Item.sameAs_congr rfl hmeaning, hdifferent.2] at hbsame
      cases hbsame
  · rw [← Item.sameAs_congr rfl hmeaning', hdifferent.1] at hasame
    cases hasame

end Exact

/-- Where a place may be of an item that has a name there, it is named. -/
theorem IsPlace.names (h : IsPlace header i n) (hnamed : ∃ x ∈ header, Names x i) :
    ∃ x, header[n]? = some x ∧ Names x i := by
  rcases h with hfind | ⟨x, hx, hsame⟩
  · obtain ⟨y, hy, hyi⟩ := hnamed
    exact (find?_cases hfind).resolve_right fun hnone => hnone.1 y hy hyi
  · exact ⟨x, hx, Or.inr hsame⟩

end Header

namespace Row

/-- A scalar function that is not found is computed of what it reads. -/
theorem evaluate?_of_scalar {r : Row} {i : Item} {n : Nat} (hnone : Header.find? r.header i = none)
    (hscalar : i.scalar?.isSome = true) (hbare : Header.find? r.header i.bare = some n) :
    r.evaluate? i = some (applyScalar i (r.value n)) := by
  have hresolve : Header.resolve? r.header i = some ⟨n, true⟩ := by
    unfold Header.resolve?
    rw [hnone, hbare]
    exact if_pos hscalar
  unfold evaluate?
  rw [locate?_of_resolve? hresolve]
  rfl

theorem map_value_range {r : Row} {width : Nat} (h : r.values.length = width) :
    (List.range width).map r.value = r.values := by
  rw [← h]
  exact range_map_value r.header r.values

end Row

namespace RowSet

open Plan

/-! ## Rows one by one -/

/-- The rows of two data sets stand in a relation one by one, and their failures are the same. -/
def Corresponds (R : Row → Row → Prop) (d d' : RowSet) : Prop :=
  List.Forall₂ (Agreeing R) d.stream.outcomes d'.stream.outcomes

variable {R S T : Row → Row → Prop} {d d' e : RowSet} {header items : List Item} {l : Ledger}

theorem corresponds_self (h : d.stream.Every fun row => R row row) : Corresponds R d d := by
  refine List.forall₂_same.mpr fun o ho => ?_
  cases o with
  | ok row => exact .ok (h row ho)
  | error e => exact .error e

theorem corresponds_of_map {f : Row → Except QueryError Row}
    (hmap : d'.stream.outcomes = d.stream.outcomes.map (·.bind f))
    (h : d.stream.Every fun row => ∃ row', f row = .ok row' ∧ R row row') : Corresponds R d d' := by
  unfold Corresponds
  rw [hmap, List.forall₂_map_right_iff]
  refine List.forall₂_same.mpr fun o ho => ?_
  cases o with
  | ok row =>
    obtain ⟨row', hrow', hR⟩ := h row ho
    show Agreeing R (.ok row) (f row)
    rw [hrow']
    exact .ok hR
  | error e => exact .error e

theorem Corresponds.trans (h : Corresponds R d d') (h' : Corresponds S d' e)
    (hRS : ∀ a b c, R a b → S b c → T a c) : Corresponds T d e := by
  unfold Corresponds at h h' ⊢
  generalize d.stream.outcomes = as, d'.stream.outcomes = bs, e.stream.outcomes = cs at h h' ⊢
  induction h generalizing cs with
  | nil =>
    cases h'
    exact .nil
  | cons hab _ ih =>
    cases h' with
    | cons hbc hrest =>
      refine .cons ?_ (ih _ hrest)
      cases hab with
      | ok hab =>
        cases hbc with
        | ok hbc => exact .ok (hRS _ _ _ hab hbc)
      | error e =>
        cases hbc
        exact .error e

theorem Corresponds.every (h : Corresponds R d d') {P : Row → Prop}
    (hP : ∀ row row', R row row' → P row') : d'.stream.Every P := by
  intro row' hrow'
  obtain ⟨o, -, ho⟩ := exists_of_mem_forall₂ h.flip hrow'
  cases ho with
  | ok hR => exact hP _ _ hR

theorem Corresponds.yields (h : Corresponds R d d') {rows : List Row} (hd : d.Yields rows) :
    ∃ rows', d'.Yields rows' ∧ List.Forall₂ R rows rows' := by
  unfold Corresponds at h
  rw [hd] at h
  exact Agreeing.exists_of_forall₂_ok h

/-- Rows under the header of their data set, with a value for each item. -/
def IsFilled (d : RowSet) : Prop :=
  d.stream.Every fun row => row.header = d.header ∧ row.values.length = d.header.length

/-! ## Cells from places -/

/-- A row with a cell of another one for each item, from a place of the item. -/
structure TakenFrom (header items : List Item) (row row' : Row) : Prop where
  length : row'.values.length = items.length
  cells : ∀ (k : Nat) (i : Item), items[k]? = some i →
    ∃ n, Header.IsPlace header i n ∧ row'.values[k]? = some (row.value n)

/-- A data set that was shaped into items: under them, or as it was if it was laid out like them. -/
structure ShapedFrom (d : RowSet) (items : List Item) (d' : RowSet) : Prop where
  header : d'.header = items ∨ Item.sameLayout d.header items = true ∧ d'.header = d.header
  rows : Corresponds (TakenFrom d.header items) d d'

/-- A row that is laid out like the items has their cells in their places. -/
theorem takenFrom_self {row : Row} (hlayout : Item.sameLayout header items = true)
    (hwidth : row.values.length = header.length) : TakenFrom header items row row := by
  have hpairs := Item.sameLayout_iff.mp hlayout
  refine ⟨hwidth.trans hpairs.length_eq, fun k i hi => ?_⟩
  obtain ⟨hk, rfl⟩ := List.getElem?_eq_some_iff.mp hi
  have hk' : k < header.length := hpairs.length_eq ▸ hk
  refine ⟨k, Or.inr ⟨header[k], List.getElem?_eq_getElem hk', ?_⟩, ?_⟩
  · exact Item.sameAs_of_same (hpairs.get hk' hk)
  · rw [Row.value, List.getElem?_eq_getElem (hwidth ▸ hk')]
    rfl

/-- A projection takes the cells of its items from their places. -/
theorem corresponds_projected (hfound : ∀ i ∈ items, ∃ n, Header.find? d.header i = some n)
    (hfilled : d.IsFilled) : Corresponds (TakenFrom d.header items) d (d.projected items) := by
  cases hlayout : Item.sameLayout d.header items with
  | true =>
    have hstream : (d.projected items).stream = d.stream := if_pos hlayout
    unfold Corresponds
    rw [hstream]
    exact corresponds_self (d := d) (hfilled.mono fun row hrow => takenFrom_self hlayout hrow.2)
  | false =>
    have hstream : (d.projected items).stream = d.stream.map (·.project items) :=
      if_neg (Bool.eq_false_iff.mp hlayout)
    refine corresponds_of_map (f := (·.project items)) ?_ (hfilled.mono fun row hrow => ?_)
    · rw [hstream, Stream.outcomes_map]
    · have hvalue (i : Item) (hi : i ∈ items) : ∃ n, Header.find? d.header i = some n ∧
          row.evaluate? i = some (row.value n) := by
        obtain ⟨n, hn⟩ := hfound i hi
        exact ⟨n, hn, Row.evaluate?_of_find? (hrow.1 ▸ hn)⟩
      refine ⟨_, Row.project_eq_showing fun i hi => ?_, List.length_map _, fun k i hi => ?_⟩
      · obtain ⟨n, -, hn⟩ := hvalue i hi
        exact ⟨_, hn⟩
      · obtain ⟨n, hn, heval⟩ := hvalue i (List.mem_of_getElem? hi)
        refine ⟨n, Or.inl hn, ?_⟩
        show (items.map _)[k]? = _
        rw [List.getElem?_map, hi, Option.map_some, heval]
        rfl

/-- **A selection of items that are found takes their cells from their places.** -/
theorem gives_taken (d : RowSet) (items : List Item) (l : Ledger)
    (hfound : ∀ i ∈ items, ∃ n, Header.find? d.header i = some n) (hfilled : d.IsFilled) :
    (d.selection items).Gives l fun d' l' => l' = l ∧ ShapedFrom d items d' := by
  cases hlayout : Item.sameLayout d.header items with
  | true =>
    unfold selection
    rw [if_pos hlayout]
    refine gives_pure ⟨rfl, Or.inr ⟨hlayout, rfl⟩, corresponds_self ?_⟩
    exact hfilled.mono fun row hrow => takenFrom_self hlayout hrow.2
  | false =>
    rw [selection_of_find? (Bool.eq_false_iff.mp hlayout) hfound]
    exact gives_pure ⟨rfl, Or.inl rfl, corresponds_projected hfound hfilled⟩

/-! ## Scalar functions in front -/

theorem exists_of_mem_missingScalars {s : Item} (hs : s ∈ missingScalars header items) :
    ∃ i ∈ items, s = i.withoutAlias ∧ i.scalar?.isSome = true ∧ Header.find? header i = none ∧
      ∃ n, Header.find? header i.bare = some n := by
  unfold missingScalars at hs
  dsimp only at hs
  rw [← List.foldl_map] at hs
  rcases Item.mem_of_mem_foldl_pushNew hs with hnil | hmap
  · cases hnil
  · obtain ⟨i, hi, rfl⟩ := List.mem_map.mp hmap
    obtain ⟨hmem, hmissing⟩ := List.mem_filter.mp hi
    simp only [Bool.and_eq_true, Bool.not_eq_true'] at hmissing
    obtain ⟨⟨hscalar, hnot⟩, hbare⟩ := hmissing
    rw [Header.resolve?_bare, Option.isSome_map] at hbare
    refine ⟨i, hmem, rfl, hscalar, ?_, Option.isSome_iff_exists.mp hbare⟩
    cases hfind : Header.find? header i with
    | none => rfl
    | some n =>
      unfold Header.resolve? at hnot
      rw [hfind] at hnot
      cases hnot

/-- An item that is resolved and not found has a function in front that names it. -/
theorem exists_mem_missingScalars {i : Item} (hi : i ∈ items)
    (hresolved : (Header.resolve? header i).isSome = true) (hnone : Header.find? header i = none) :
    ∃ s ∈ missingScalars header items, Header.Names s i := by
  obtain ⟨hscalar, n, hbare⟩ := Header.exists_find?_bare hresolved hnone
  have hmissing : (Header.resolve? header i).any (fun found => !found.viaFunction) = false := by
    unfold Header.resolve?
    rw [hnone]
    dsimp only
    rw [if_pos hscalar, hbare]
    rfl
  have hmem : i.withoutAlias ∈ ((items.filter fun i => i.scalar?.isSome &&
      !((Header.resolve? header i).any fun found => !found.viaFunction) &&
        (Header.resolve? header i.bare).isSome).map Item.withoutAlias) := by
    refine List.mem_map_of_mem (List.mem_filter.mpr ⟨hi, ?_⟩)
    rw [hscalar, hmissing, Header.resolve?_bare, hbare]
    rfl
  unfold missingScalars
  dsimp only
  rw [← List.foldl_map]
  obtain ⟨s, hs, rfl | hsame⟩ := Item.exists_mem_foldl_pushNew hmem
  · exact ⟨_, hs, Or.inl rfl⟩
  · rw [Item.sameAs_withoutAlias] at hsame
    exact ⟨s, hs, Or.inr hsame⟩

/-- A row behind the scalar functions that it does not have yet. -/
structure IsStaged (header items : List Item) (row row' : Row) : Prop where
  given : row.header = header
  width : row.values.length = header.length
  staged : row'.header = missingScalars header items ++ header
  values : row'.values =
    (missingScalars header items).map (fun s => (row.evaluate? s).getD .null) ++ row.values

theorem IsStaged.length {row row' : Row} (h : IsStaged header items row row') :
    row'.values.length = (missingScalars header items ++ header).length := by
  rw [h.values, List.length_append, List.length_append, List.length_map, h.width]

/-- The functions in front can be computed, and give their own values. -/
theorem exists_scalarInputs {stage : List Item}
    (h : ∀ s ∈ stage, s.scalar?.isSome = true ∧ Header.find? header s = none ∧
      ∃ n, Header.find? header s.bare = some n) :
    ∃ functions, scalarInputs header stage = .ok functions ∧ ∀ row : Row, row.header = header →
      functions.map (fun x => Row.applyScalar x.1 (row.value x.2)) =
        stage.map fun s => (row.evaluate? s).getD .null := by
  induction stage with
  | nil => exact ⟨[], rfl, fun _ _ => rfl⟩
  | cons s rest ih =>
    rw [List.forall_mem_cons] at h
    obtain ⟨⟨hscalar, hnone, n, hbare⟩, hrest⟩ := h
    obtain ⟨functions, hfunctions, hvalues⟩ := ih hrest
    refine ⟨(s, n) :: functions, ?_, fun row hrow => ?_⟩
    · unfold scalarInputs
      rw [hfunctions, Header.resolve?_bare, hbare,
        if_neg (Option.isSome_iff_ne_none.mp hscalar ∘ Option.isNone_iff_eq_none.mp)]
      rfl
    · subst hrow
      rw [List.map_cons, List.map_cons, hvalues row rfl, Row.evaluate?_of_scalar hnone hscalar hbare]
      rfl

/-- Rows get the functions that they do not have in front. -/
theorem gives_staged (hfilled : d.IsFilled) (items : List Item) (l : Ledger) :
    (d.withScalars (missingScalars d.header items)).Gives l fun staged l' => l' = l ∧
      staged.header = missingScalars d.header items ++ d.header ∧
      Corresponds (IsStaged d.header items) d staged := by
  have hstage : ∀ s ∈ missingScalars d.header items, s.scalar?.isSome = true ∧
      Header.find? d.header s = none ∧ ∃ n, Header.find? d.header s.bare = some n := by
    intro s hs
    obtain ⟨i, -, rfl, hscalar, hnone, hbare⟩ := exists_of_mem_missingScalars hs
    exact ⟨hscalar, (Header.find?_withoutAlias d.header i).trans hnone, hbare⟩
  obtain ⟨functions, hfunctions, hvalues⟩ := exists_scalarInputs hstage
  unfold withScalars
  rw [hfunctions]
  refine gives_pure ⟨rfl, rfl, corresponds_of_map (Stream.outcomes_map _ _) ?_⟩
  refine hfilled.mono fun row hrow => ⟨_, rfl, hrow.1, hrow.2, rfl, ?_⟩
  show functions.map _ ++ (List.range d.header.length).map row.value = _
  rw [Row.map_value_range hrow.2, hvalues row hrow.1]

/-! ## Values of items -/

section Values

variable (hcopies : Header.SharesCopies header items) (hexact : Header.IsExact header items)
  (hdistinct : Header.IsDistinct header)
  (hresolved : ∀ i ∈ items, (Header.resolve? header i).isSome = true)

include hcopies hexact hdistinct hresolved

/-- Where an item stands behind functions in front, or among them, there is its value. -/
theorem IsStaged.evaluate?_of_names {row row' : Row} (h : IsStaged header items row row') {i x : Item}
    (hi : i ∈ items) {n : Nat} (hx : row'.header[n]? = some x) (hnames : Header.Names x i) :
    row.evaluate? i = some (row'.value n) := by
  rw [h.staged] at hx
  unfold Row.value
  rw [h.values]
  rcases Nat.lt_or_ge n (missingScalars header items).length with hlt | hge
  · -- A function in front: it names nothing that is found, and is computed as the item would be.
    rw [List.getElem?_append_left hlt] at hx
    obtain ⟨j, hj, rfl, hscalar, hnone, p, hbare⟩ :=
      exists_of_mem_missingScalars (List.mem_of_getElem? hx)
    have hji : Header.Names j i := by
      rcases hnames with hid | hsame
      · exact Or.inl hid
      · exact Or.inr ((Item.withoutAlias_sameAs true j i).symm.trans hsame)
    have hmeaning :=
      Header.meaning_of_names hcopies hexact (List.mem_append_right _ hj) hi hji
    have hinone := Header.find?_eq_none_of_names hcopies hexact hj hi hnone (Or.inl hji)
    obtain ⟨hiscalar, -⟩ := Header.exists_find?_bare (hresolved i hi) hinone
    have hvalue : row.evaluate? j.withoutAlias = some (Row.applyScalar j (row.value p)) := by
      have hfind := Header.find?_withoutAlias header j
      rw [← h.given] at hfind hnone hbare
      exact Row.evaluate?_of_scalar (hfind.trans hnone) hscalar hbare
    rw [List.getElem?_append_left (by rwa [List.length_map]), List.getElem?_map, hx, Option.map_some,
      hvalue, Row.evaluate?_of_scalar (h.given ▸ hinone) hiscalar
        (h.given ▸ (Header.find?_bare_congr hmeaning).symm.trans hbare),
      Row.applyScalar_congr hmeaning]
    rfl
  · -- An item of the header: it is the one that the item is found at.
    rw [List.getElem?_append_right hge] at hx
    have hmem := List.mem_of_getElem? hx
    obtain ⟨m, hm⟩ := Header.exists_find?_of_mem hmem hnames
    obtain ⟨y, hy, hyi⟩ := (Header.IsPlace.names (Or.inl hm) ⟨x, hmem, hnames⟩)
    have hyx := hdistinct.eq_of_names hcopies hexact (List.mem_of_getElem? hy) hmem hi hyi hnames
    subst hyx
    have hplace : m = n - (missingScalars header items).length := by
      have hmlt := (List.getElem?_eq_some_iff.mp hy).1
      refine (List.getElem?_inj (by simpa using hmlt) hdistinct.ids).mp ?_
      rw [List.getElem?_map, List.getElem?_map, hy, hx]
    rw [List.getElem?_append_right (by rwa [List.length_map]), List.length_map, ← hplace]
    exact Row.evaluate?_of_find? (h.given ▸ hm)

/-- **Wherever an item may be read behind functions in front, there is its value.** -/
theorem IsStaged.evaluate?_of_isPlace {row row' : Row} (h : IsStaged header items row row') {i : Item}
    (hi : i ∈ items) {n : Nat} (hplace : Header.IsPlace row'.header i n) :
    row.evaluate? i = some (row'.value n) := by
  rcases hplace with hfind | ⟨x, hx, hsame⟩
  · rcases Header.find?_cases hfind with ⟨x, hx, hnames⟩ | ⟨hnone, hloose⟩
    · exact h.evaluate?_of_names hcopies hexact hdistinct hresolved hi hx hnames
    · -- Only an item of the header denotes the same then, so it is found there in the row as well.
      rw [h.staged] at hnone hloose
      rw [List.forall_mem_append] at hnone
      have hisome : Header.find? header i ≠ none := by
        intro hinone
        obtain ⟨s, hs, hnames⟩ := exists_mem_missingScalars hi (hresolved i hi) hinone
        exact hnone.1 s hs hnames
      have hfront : (missingScalars header items).findIdx? (Item.sameAs false · i) = none := by
        refine List.findIdx?_eq_none_iff.mpr fun s hs => Bool.eq_false_iff.mpr fun hsame => ?_
        obtain ⟨j, hj, rfl, -, hjnone, -⟩ := exists_of_mem_missingScalars hs
        rw [Item.withoutAlias_sameAs] at hsame
        exact hisome
          (Header.find?_eq_none_of_names hcopies hexact hj hi hjnone (Or.inr hsame))
      rw [List.findIdx?_append, hfront, Option.none_or] at hloose
      obtain ⟨m, hm, rfl⟩ := Option.map_eq_some_iff.mp hloose
      have hfound : Header.find? row.header i = some m := by
        rw [h.given, Header.find?_of_not_names hnone.2, hm]
      rw [Row.evaluate?_of_find? hfound]
      unfold Row.value
      rw [h.values, List.getElem?_append_right (by rw [List.length_map]; omega), List.length_map,
        Nat.add_sub_cancel]
  · exact h.evaluate?_of_names hcopies hexact hdistinct hresolved hi hx (Or.inr hsame)

/-- Rows taken from behind functions in front have the values of the items. -/
theorem IsStaged.map_evaluate? {row staged row' : Row} (h : IsStaged header items row staged)
    (htaken : TakenFrom staged.header items staged row') :
    items.map row.evaluate? = row'.values.map some := by
  refine List.ext_getElem? fun k => ?_
  rw [List.getElem?_map, List.getElem?_map]
  cases hi : items[k]? with
  | none =>
    have hnone : row'.values[k]? = none := by
      rw [List.getElem?_eq_none_iff] at hi ⊢
      exact htaken.length ▸ hi
    rw [hnone]
    rfl
  | some i =>
    obtain ⟨n, hplace, hcell⟩ := htaken.cells k i hi
    rw [hcell]
    exact congrArg some (h.evaluate?_of_isPlace hcopies hexact hdistinct hresolved
      (List.mem_of_getElem? hi) hplace)

end Values

section Reshaped

variable (hfilled : d.IsFilled)
  (hresolved : ∀ i ∈ items, (Header.resolve? d.header i).isSome = true)

include hfilled

/-- If nothing is missing, rows are staged as they are. -/
theorem corresponds_isStaged (hnil : missingScalars d.header items = []) :
    Corresponds (IsStaged d.header items) d d := by
  refine corresponds_self (hfilled.mono fun row hrow => ⟨hrow.1, hrow.2, ?_, ?_⟩)
  · rw [hnil]
    exact hrow.1
  · rw [hnil]
    rfl

omit hfilled in
include hresolved in
/-- Every item is found behind the functions in front. -/
theorem exists_find?_staged {i : Item} (hi : i ∈ items) :
    ∃ n, Header.find? (missingScalars d.header items ++ d.header) i = some n := by
  cases hfind : Header.find? d.header i with
  | none =>
    obtain ⟨s, hs, hnames⟩ := exists_mem_missingScalars hi (hresolved i hi) hfind
    exact Header.exists_find?_of_mem (List.mem_append_left _ hs) hnames
  | some n =>
    exact Option.isSome_iff_exists.mp
      (Header.isSome_find?_append (hfind ▸ rfl) (missingScalars d.header items))

include hresolved

/-- **A selection shapes rows that got the missing functions in front.** -/
theorem gives_shaped (l : Ledger) : (d.selection items).Gives l fun d' l' => l' = l ∧
    (d'.header = items ∨ Item.sameLayout d.header items = true ∧ d'.header = d.header) ∧
    ∃ staged : RowSet, Corresponds (IsStaged d.header items) d staged ∧
      staged.header = missingScalars d.header items ++ d.header ∧
      Corresponds (TakenFrom staged.header items) staged d' := by
  rw [selection_eq]
  cases hlayout : Item.sameLayout d.header items with
  | true =>
    have hnil : missingScalars d.header items = [] := missingScalars_eq_nil fun i hi =>
      Or.inr (Header.Matches.exists_find? (Or.inr hlayout) hi)
    rw [if_pos rfl]
    refine gives_pure ⟨rfl, Or.inr ⟨rfl, rfl⟩, d, corresponds_isStaged hfilled hnil, ?_, ?_⟩
    · rw [hnil]
      rfl
    · exact corresponds_self (hfilled.mono fun row hrow => takenFrom_self hlayout hrow.2)
  | false =>
    rw [if_neg Bool.false_ne_true]
    have hstage : (if (missingScalars d.header items).isEmpty then pure d
        else d.withScalars (missingScalars d.header items) : Plan RowSet).Gives l
          fun staged l' => l' = l ∧ staged.header = missingScalars d.header items ++ d.header ∧
            Corresponds (IsStaged d.header items) d staged := by
      split
      next hempty =>
        have hnil := List.isEmpty_iff.mp hempty
        exact gives_pure ⟨rfl, by rw [hnil]; rfl, corresponds_isStaged hfilled hnil⟩
      next => exact gives_staged hfilled items l
    refine gives_bind (hstage.mono ?_)
    rintro staged _ ⟨rfl, hheader, hstaged⟩
    have hfound : ∀ i ∈ items, ∃ n, Header.find? staged.header i = some n := by
      intro i hi
      rw [hheader]
      exact exists_find?_staged hresolved hi
    have hreadable : (items.find? fun i => !Header.isReadable staged.header i) = none := by
      refine List.find?_eq_none.mpr fun i hi => ?_
      obtain ⟨n, hn⟩ := hfound i hi
      simp [Header.isReadable, Header.resolve?, hn]
    have hfilled' : staged.IsFilled := hstaged.every fun row row' h => by
      rw [hheader]
      exact ⟨h.staged, h.length⟩
    unfold projectedOrRefused
    rw [hreadable]
    exact gives_pure ⟨rfl, Or.inl rfl, staged, hstaged, hheader,
      corresponds_projected hfound hfilled'⟩

end Reshaped

/-- Items that are equal but for their parameters have one label, if these are equal too. -/
theorem label_of_same (hexact : Header.IsExact header items) {a b : Item} (ha : a ∈ header)
    (hb : b ∈ items) (hsame : Item.same a b = true) (haliases : a.innerAliases = b.innerAliases) :
    a.label = b.label := by
  rw [Item.same, Bool.and_eq_true, beq_iff_eq] at hsame
  have hparameters := hexact a (List.mem_append_left _ ha) b hb
    (Item.sameAs_false_of_sameAs hsame.2)
  unfold Item.label
  rw [hsame.1, Item.sqlWithoutAlias_congr (Item.meaning_eq_of_sameAs hsame.2 hparameters) haliases]

/-- **A selection gives every item its value in the row**, whether it is read or computed, under the
items or under a header that is laid out like them.  Where items that count as the same have equal
parameters, nothing else is needed; and the labels are those of the items as well, if items that are
laid out alike refer to items of the same aliases. -/
theorem gives_reshaped (d : RowSet) (items : List Item) (l : Ledger) (hfilled : d.IsFilled)
    (hdistinct : Header.IsDistinct d.header) (hcopies : Header.SharesCopies d.header items)
    (hresolved : ∀ i ∈ items, (Header.resolve? d.header i).isSome = true) :
    (d.selection items).Gives l fun d' l' => l' = l ∧ Header.Matches d'.header items ∧
      (Header.IsExact d.header items →
        Corresponds (fun row row' => items.map row.evaluate? = row'.values.map some) d d' ∧
        ((∀ a ∈ d.header, ∀ b ∈ items, Item.same a b = true → a.innerAliases = b.innerAliases) →
          d'.header.map Item.label = items.map Item.label)) := by
  refine (gives_shaped hfilled hresolved l).mono ?_
  rintro d' l' ⟨rfl, hheader, staged, hstaged, hstagedHeader, htaken⟩
  refine ⟨rfl, ?_, fun hexact => ⟨?_, fun haliases => ?_⟩⟩
  · rcases hheader with heq | ⟨hlayout, heq⟩
    · exact Or.inl heq
    · exact Or.inr (heq ▸ hlayout)
  · refine hstaged.trans htaken fun row middle row' hrow hrow' => ?_
    refine hrow.map_evaluate? hcopies hexact hdistinct hresolved ?_
    rw [hrow.staged, ← hstagedHeader]
    exact hrow'
  · rcases hheader with heq | ⟨hlayout, heq⟩
    · rw [heq]
    · rw [heq]
      have hpairs := Item.sameLayout_iff.mp hlayout
      refine List.ext_getElem (by rw [List.length_map, List.length_map, hpairs.length_eq]) ?_
      intro k hk hk'
      rw [List.length_map] at hk hk'
      rw [List.getElem_map, List.getElem_map]
      exact label_of_same hexact (List.getElem_mem hk) (List.getElem_mem hk') (hpairs.get hk hk')
        (haliases _ (List.getElem_mem hk) _ (List.getElem_mem hk') (hpairs.get hk hk'))

/-! ## Documents -/

/-- The header of documents and their numbers. -/
def documentHeader : List Item :=
  [Item.ofColumn 1 ⟨"d", "t", none, false⟩ none, Item.ofColumn 2 ⟨"n", "t", none, false⟩ none]

/-- A document with an entry for each zero, under a number. -/
def zerosRow : Row :=
  ⟨documentHeader, [.nested (.object [("0", .string "plus"), ("-0", .string "minus")]), .integer 5],
    none⟩

/-- The document as a data set. -/
def zerosSet : RowSet := ofRows documentHeader [zerosRow]

theorem isFilled_zerosSet : zerosSet.IsFilled := by
  refine Stream.every_ofRows fun row hrow => ?_
  rw [List.mem_singleton.mp hrow]
  exact ⟨rfl, rfl⟩

theorem isDistinct_documentHeader : Header.IsDistinct documentHeader := ⟨by decide, by decide⟩

/-- A column under an alias, entries of a document, one of them twice, and the document itself under
another identity: each has its value. -/
theorem gives_reshaped_entries :
    let items := [documentHeader[1].withAlias "m", entry 3 (.text "-0"), entry 4 (.integer 0),
      entry 5 (.text "-0"), Item.ofColumn 6 ⟨"d", "t", none, false⟩ none]
    (zerosSet.IsFilled ∧ Header.IsDistinct zerosSet.header ∧
      Header.SharesCopies zerosSet.header items ∧
      (∀ i ∈ items, (Header.resolve? zerosSet.header i).isSome = true) ∧
      Header.IsExact zerosSet.header items ∧
      ∀ a ∈ zerosSet.header, ∀ b ∈ items, Item.same a b = true → a.innerAliases = b.innerAliases) ∧
    (zerosSet.selection items).Gives {} fun d' _ =>
      Corresponds (fun row row' => items.map row.evaluate? = row'.values.map some) zerosSet d' ∧
        d'.header.map Item.label = items.map Item.label := by
  intro items
  have hcopies : Header.SharesCopies zerosSet.header items := by
    intro a ha b hb hid
    simp only [zerosSet, ofRows, documentHeader, items, List.cons_append, List.nil_append,
      List.mem_cons, List.not_mem_nil, or_false] at ha hb
    rcases ha with rfl | rfl | rfl | rfl | rfl | rfl | rfl <;>
      rcases hb with rfl | rfl | rfl | rfl | rfl <;> first | rfl | cases hid
  have hexact : Header.IsExact zerosSet.header items := by
    intro a ha b hb hsame
    simp only [zerosSet, ofRows, documentHeader, items, List.cons_append, List.nil_append,
      List.mem_cons, List.not_mem_nil, or_false] at ha hb
    rcases ha with rfl | rfl | rfl | rfl | rfl | rfl | rfl <;>
      rcases hb with rfl | rfl | rfl | rfl | rfl <;> first | rfl | exact absurd hsame (by decide)
  have hresolved : ∀ i ∈ items, (Header.resolve? zerosSet.header i).isSome = true := by decide
  have haliases : ∀ a ∈ zerosSet.header, ∀ b ∈ items, Item.same a b = true →
      a.innerAliases = b.innerAliases := by decide
  refine ⟨⟨isFilled_zerosSet, isDistinct_documentHeader, hcopies, hresolved, hexact, haliases⟩, ?_⟩
  refine (gives_reshaped zerosSet items {} isFilled_zerosSet isDistinct_documentHeader hcopies
    hresolved).mono fun d' l' h => ?_
  exact ⟨(h.2.2 hexact).1, (h.2.2 hexact).2 haliases⟩

/-- The entries under the two zeros count as the same, and the second one is left out in front. -/
theorem selection_conflated :
    let items := [entry 3 (.integer 0), entry 4 (.float (.zero true))]
    zerosSet.IsFilled ∧ Header.IsDistinct zerosSet.header ∧
      Header.SharesCopies zerosSet.header items ∧
      (∀ i ∈ items, (Header.resolve? zerosSet.header i).isSome = true) ∧
      items.map (fun i => (zerosRow.evaluate? i).map Value.display) = [some "plus", some "minus"] ∧
      ((zerosSet.selection items >>= toRows).answer {}).toOption.map
          (List.map fun row => row.values.map Value.display) = some [["plus", "plus"]] := by
  intro items
  refine ⟨isFilled_zerosSet, isDistinct_documentHeader, ?_, by decide, by decide +kernel, ?_⟩
  · intro a ha b hb hid
    simp only [zerosSet, ofRows, documentHeader, items, List.cons_append, List.nil_append,
      List.mem_cons, List.not_mem_nil, or_false] at ha hb
    rcases ha with rfl | rfl | rfl | rfl <;> rcases hb with rfl | rfl <;> first | rfl | cases hid
  · decide +kernel

end RowSet

end DocQuery
