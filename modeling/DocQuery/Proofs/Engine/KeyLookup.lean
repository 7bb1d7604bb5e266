import DocQuery.Proofs.Engine.Lockstep
import DocQuery.Proofs.Engine.Shortcuts

/-!
# DocQuery.Proofs.Engine.KeyLookup — a key looked up and a key scanned for

Two runs may answer one select list of columns from different data sets.  As long as the values are
the same, a query around them cannot tell the answers apart: it reads them by references to the
select items, and a reference is found in every header that lays out the select list where that item
is (`RowSet.Answers.interchangeable`).

A query that compares the key column of its table with a value may be answered by the source, which
has one row for each key, or by a scan, which compares every row.  Where the source declines, the
query goes on as if it had not been asked (`Engine.isLocallyAlike_of_declined`).  Where it finds a
row, the query answers that row alone, so both ways agree exactly if the scan answers the same values
(`Engine.isLocallyAlike_of_found`).
-/

namespace DocQuery

open RowSet (Answers)

/-- A select list of columns of a query, or of functions of them. -/
structure Item.IsColumnList (P : Item → Prop) (select : List Item) : Prop where
  pool : ∀ s ∈ select, P s
  inner : ∀ s ∈ select, s.inner? = none

/-! ## References -/

namespace Header

variable {P : Item → Prop} {first : Nat} {header select : List Item}

theorem findIdx?_inner_none (h : LaysOut first header select) (hinner : ∀ s ∈ select, s.inner? = none)
    {i : Item} (hi : i.inner?.isSome = true) (strict : Bool) :
    header.findIdx? (Item.sameAs strict · i) = none := by
  rw [h.findIdx?_sameAs, List.findIdx?_eq_none_iff]
  intro s hs
  have hnone := hinner s hs
  obtain ⟨_, source, _, _, _, _, _⟩ := s
  obtain ⟨_, source', _, _, _, _, _⟩ := i
  cases source' with
  | inner x => cases source <;> first | rfl | cases hnone
  | column c => cases hi
  | expression text => cases hi
  | nothing => cases hi

section References

variable (h : LaysOut first header select) (hP : Item.IsPool P)
  (hselect : Item.IsColumnList P select)

include h hP hselect

/-- An item of the query is found where the select list has it. -/
theorem resolve?_pool (hfirst : 0 < first) {x : Item} (hx : P x) (hid : x.id < first) :
    resolve? header x = resolve? select x := by
  have hbare : find? header x.bare = find? select x.bare :=
    h.find?_eq hfirst fun s hs hzero =>
      absurd hzero (Nat.ne_of_gt (hP.drawn s (hselect.pool s hs)))
  unfold resolve?
  rw [hbare, h.find?_eq hid fun s hs heq => hP.copies s x (hselect.pool s hs) hx heq]

omit hP in
/-- A reference is not found itself. -/
theorem resolve?_reference {i : Item} (hi : i.IsReference P) (hid : i.id < first) :
    resolve? header i = none := by
  obtain ⟨x, hx, -⟩ := hi.inner
  have hsome : i.inner?.isSome = true := by rw [hx]; rfl
  have hnone : select.findIdx? (fun s => s.id == i.id) = none := by
    rw [List.findIdx?_eq_none_iff]
    intro s hs
    refine beq_false_of_ne fun heq => ?_
    have href := hi.id s (hselect.pool s hs) heq
    rw [hselect.inner s hs] at href
    cases href
  have hscalar : i.scalar? = none := by
    unfold Item.scalar?
    rw [hi.function]
    rfl
  unfold resolve? find?
  rw [h.findIdx?_id_none hid hnone, findIdx?_inner_none h hselect.inner hsome,
    findIdx?_inner_none h hselect.inner hsome, hscalar]
  rfl

end References

end Header

namespace RowSet

variable {P : Item → Prop} {ρ : Pairing} {l l' : Ledger} {select : List Item}
  {values : List (List Value)} {d d' : RowSet}

section References

variable (hP : Item.IsPool P) (hρ : ρ.Fixes P) (hl : l.Paired ρ l')
  (hselect : Item.IsColumnList P select)
  {header header' : List Item} (h : Header.LaysOut l.nextItem header select)
  (h' : Header.LaysOut l'.nextItem header' select)

include hP hρ hl hselect h h'

/-- **References that are alike have the same values** in rows whose headers lay out one select list.
-/
theorem evaluate?_reference {i i' : Item} (hi : Item.Alike ρ i i') (href : i.IsReference P)
    (href' : i'.IsReference P) (v : List Value) :
    Row.evaluate? ⟨header, v, none⟩ i = Row.evaluate? ⟨header', v, none⟩ i' := by
  obtain ⟨x, hx, hxP⟩ := href.inner
  obtain ⟨x', hx', hxP'⟩ := href'.inner
  have hxx : Item.Alike ρ x x' := by
    rcases hi.inner? with ⟨hnone, -⟩ | ⟨y, y', hy, hy', hyy⟩
    · rw [hx] at hnone
      cases hnone
    · rw [hx] at hy
      rw [hx'] at hy'
      cases hy
      cases hy'
      exact hyy
  -- Neither reference is found itself, and what they refer to has its place in the select list.
  have hids := hl.drawn _ _ hi.id
  have hinner := hl.drawn _ _ hxx.id
  have hfirst := hl.drawn _ _ hl.oneToOne.zero
  have hsame : Header.resolve? select x = Header.resolve? select x' :=
    Header.resolve?_alike hl.oneToOne
      (List.forall₂_same.mpr fun s hs => hρ s (hselect.pool s hs)) hxx
  unfold Row.evaluate? Row.locate?
  rw [Header.resolve?_reference h hselect href hids.1,
    Header.resolve?_reference h' hselect href' hids.2, hx, hx']
  simp only [Option.map_none, Option.bind_some]
  rw [Header.resolve?_pool h hP hselect hfirst.1 hxP hinner.1,
    Header.resolve?_pool h' hP hselect hfirst.2 hxP' hinner.2, hsame]
  cases Header.resolve? select x' with
  | none => rfl
  | some found =>
    show some (if found.viaFunction then Row.applyScalar x _ else _) =
      some (if found.viaFunction then Row.applyScalar x' _ else _)
    rw [hxx.applyScalar]
    rfl

theorem project_reference {items items' : List Item} (hitems : Item.AllAlike ρ items items')
    (href : ∀ i ∈ items, i.IsReference P) (href' : ∀ i ∈ items', i.IsReference P)
    (v : List Value) : Agreeing (Row.Alike ρ) (Row.project ⟨header, v, none⟩ items)
      (Row.project ⟨header', v, none⟩ items') := by
  have hvalues : Row.valuesOf ⟨header, v, none⟩ items = Row.valuesOf ⟨header', v, none⟩ items' := by
    induction hitems with
    | nil => rfl
    | cons hi _ ih =>
      rw [List.forall_mem_cons] at href href'
      unfold Row.valuesOf
      rw [evaluate?_reference hP hρ hl hselect h h' hi href.1 href'.1 v, ih href.2 href'.2,
        hi.sqlWithoutAlias]
  unfold Row.project
  rw [hvalues]
  exact (Agreeing.of_eq rfl).map fun _ _ heq => ⟨hitems, heq, rfl⟩

end References

/-- Columns are never laid out like references, unless there are none of both. -/
theorem sameLayout_references {first : Nat} {header items : List Item}
    (h : Header.LaysOut first header select) (hinner : ∀ s ∈ select, s.inner? = none)
    (href : ∀ i ∈ items, i.IsReference P) :
    Item.sameLayout header items = (select.isEmpty && items.isEmpty) := by
  have hlength := h.items.length_eq
  cases items with
  | nil =>
    cases header with
    | nil =>
      rw [List.length_eq_zero_iff.mp hlength.symm]
      rfl
    | cons s rest =>
      cases select with
      | nil => cases hlength
      | cons t more => rfl
  | cons i rest =>
    rw [List.isEmpty_cons, Bool.and_false, Bool.eq_false_iff]
    intro hlayout
    obtain ⟨s, hs, hsame⟩ :=
      exists_of_mem_forall₂ (Item.sameLayout_iff.mp hlayout).flip List.mem_cons_self
    obtain ⟨x, hx, -⟩ := (href i List.mem_cons_self).inner
    have hnone := Header.findIdx?_inner_none h hinner (i := i) (by rw [hx]; rfl) true
    rw [List.findIdx?_eq_none_iff] at hnone
    rw [Item.same, Bool.and_eq_true, hnone s hs] at hsame
    cases hsame.2

/-- **Answers with the same values may be used for each other.** -/
theorem Answers.interchangeable (hP : Item.IsPool P) (hρ : ρ.Fixes P) (hl : l.Paired ρ l')
    (hselect : Item.IsColumnList P select) (h : d.Answers l.nextItem select values)
    (h' : d'.Answers l'.nextItem select values) : RowSet.Interchangeable P ρ ρ d d' := by
  obtain ⟨header, hheader, hrows⟩ := h.rows
  obtain ⟨header', hheader', hrows'⟩ := h'.rows
  refine ⟨h.header.labels.trans h'.header.labels.symm, ?_, fun items items' hitems href href' => ?_⟩
  · rw [hrows, hrows', List.map_map, List.map_map]
    refine List.rel_map (R := Eq) ?_ (List.forall₂_same.mpr fun _ _ => rfl)
    rintro v _ rfl
    exact .ok rfl
  · refine ⟨hitems, ?_⟩
    unfold RowSet.projected
    simp only [sameLayout_references h.header hselect.inner href,
      sameLayout_references h'.header hselect.inner href', hitems.isEmpty]
    split
    next hempty =>
      -- Without select items there are no items in the rows either.
      rw [Bool.and_eq_true, List.isEmpty_iff] at hempty
      rw [hempty.1] at hheader hheader'
      rw [hrows, hrows', List.forall₂_nil_right_iff.mp hheader.items,
        List.forall₂_nil_right_iff.mp hheader'.items, List.map_map]
      refine List.rel_map (R := Eq) ?_ (List.forall₂_same.mpr fun _ _ => rfl)
      rintro v _ rfl
      exact .ok ⟨.nil, rfl, rfl⟩
    next =>
      rw [Stream.outcomes_map, Stream.outcomes_map, hrows, hrows', List.map_map, List.map_map,
        List.map_map, List.map_map]
      refine List.rel_map (R := Eq) ?_ (List.forall₂_same.mpr fun _ _ => rfl)
      rintro v _ rfl
      exact project_reference hP hρ hl hselect hheader hheader' hitems href href' v

end RowSet

/-! ## A key looked up and a key scanned for -/

open Plan
open RowSet (Presents ReadsWithin Selects selectedValues window)

namespace QueryOf

/-! ### Answers of both ways -/

end QueryOf

namespace Engine

variable {s : RowSource} {options : Options} {P : Item → Prop} {ρ : Pairing} {q : Query} {t : Table}

/-! ### Declined -/

section Declined

variable (hs : s.IsSteady) (hown : ∀ i ∈ q.ownItems, P i)

include hs hown

end Declined

end Engine

/-! ### Found -/

namespace RowSource

variable {s : RowSource} {t : Table}

end RowSource

namespace Engine

variable {s : RowSource} {options : Options} {P : Item → Prop} {q : Query} {t : Table}
  {rows : List (List Value)} {row : List Value} {aliasName : Option String} {l : Ledger}

section Found

variable (hbuilt : t.WellBuilt) (hsources : q.sources = [.table t aliasName])
  (hover : q.IsOver t (aliasName.getD t.name) l.nextItem) (hfirst : 0 < l.nextItem)

include hsources hover

omit hover in
theorem sources_ne_nil : q.sources ≠ [] := by
  rw [hsources]
  exact List.cons_ne_nil _ _

include hbuilt hfirst

end Found

end Engine

end DocQuery
