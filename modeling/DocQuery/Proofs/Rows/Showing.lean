import DocQuery.Proofs.Rows.Reshaping
import DocQuery.Proofs.Rows.Views

/-!
# DocQuery.Proofs.Rows.Showing — selections seen through what their items denote

A selection computes the scalar functions that are not there yet and then reads every item.  Seen
through senses, the functions that are lacking are a matter of the senses on both sides alone
(`Header.lacking`), a selection succeeds if its items are shown behind them, and the value of each item
is the one that it has there (`RowSet.gives_selection_shown`).
-/

namespace DocQuery

open Item (sense IsHeld IsAsked IsVocabulary)

/-! ## What rows show -/

namespace Row

/-- The value of an item of a sense in a row; null where there is none. -/
noncomputable def cellFor (leaves : List FromItem) (senses : List Item) (env : Item → Value)
    (m : Item) : Value := (valueFor leaves senses env m).getD .null

/-- Rows with such senses have a value for an item of a sense. -/
def IsShown (leaves : List FromItem) (senses : List Item) (m : Item) : Prop :=
  ∀ env, (valueFor leaves senses env m).isSome = true

variable {leaves : List FromItem} {senses senses' : List Item} {env : Item → Value} {m : Item}

theorem cellFor_of_mem (h : m ∈ senses) : cellFor leaves senses env m = env m := by
  unfold cellFor
  rw [valueFor_of_mem h]
  rfl

theorem cellFor_congr (h : SearchAlike senses senses') :
    cellFor leaves senses = cellFor leaves senses' := by
  unfold cellFor
  rw [valueFor_congr h]

theorem isShown_of_mem (h : m ∈ senses) : IsShown leaves senses m := fun env => by
  rw [valueFor_of_mem h]
  rfl

theorem isShown_congr (h : SearchAlike senses senses') :
    IsShown leaves senses m ↔ IsShown leaves senses' m := by
  unfold IsShown
  rw [valueFor_congr h]

theorem isShown_iff (env : Item → Value) :
    IsShown leaves senses m ↔ (valueFor leaves senses env m).isSome = true :=
  ⟨fun h => h env, fun h env' => (isSome_valueFor env' env).trans h⟩

theorem valueFor_of_isShown (h : IsShown leaves senses m) (env : Item → Value) :
    valueFor leaves senses env m = some (cellFor leaves senses env m) := by
  obtain ⟨v, hv⟩ := Option.isSome_iff_exists.mp (h env)
  unfold cellFor
  rw [hv]
  rfl

/-- A row with other items has a value for each of them. -/
theorem exists_of_project {r p : Row} {items : List Item} (h : r.project items = .ok p) :
    ∀ i ∈ items, ∃ v, r.evaluate? i = some v := by
  intro i hi
  obtain ⟨values, hvalues, -⟩ := project_eq_ok_iff.mp h
  have hmem : r.evaluate? i ∈ values.map some := hvalues ▸ List.mem_map_of_mem hi
  obtain ⟨v, -, hv⟩ := List.mem_map.mp hmem
  exact ⟨v, hv.symm⟩

/-- A row cannot be shaped into items that it does not show. -/
theorem Shows.project_eq_error {known : Item → Prop} {g : Registry} {r : Row} {items : List Item}
    {i : Item} (h : r.Shows leaves known g senses env) (hknown : IsVocabulary known) (hi : i ∈ items)
    (hasked : i.IsAsked known g) (hnot : ¬ IsShown leaves senses (sense leaves i)) :
    ∃ e, r.project items = .error e := by
  cases hproject : r.project items with
  | error e => exact ⟨e, rfl⟩
  | ok p =>
    obtain ⟨v, hv⟩ := exists_of_project hproject i hi
    rw [h.evaluate? hknown hasked] at hv
    exact absurd ((isShown_iff env).mpr (hv ▸ rfl)) hnot

end Row

namespace Header

variable {leaves : List FromItem} {known : Item → Prop} {g : Registry} {header items : List Item}
  {i : Item}

/-- An item is readable if its sense is shown. -/
theorem isReadable_iff_isShown (hknown : IsVocabulary known)
    (hheader : ∀ x ∈ header, x.IsHeld leaves known g) (hi : i.IsAsked known g) :
    isReadable header i = true ↔ Row.IsShown leaves (header.map (sense leaves)) (sense leaves i) := by
  rw [isReadable_eq hknown hheader hi fun _ => .null, Row.isShown_iff fun _ => .null]

theorem isSome_find?_eq_sought (hknown : IsVocabulary known)
    (hheader : ∀ x ∈ header, x.IsHeld leaves known g) (hi : i.IsAsked known g) :
    (find? header i).isSome = (sought (header.map (sense leaves)) (sense leaves i)).isSome := by
  rcases find?_cases_sought hknown hheader hi with ⟨hnone, hsought⟩ | ⟨n, x, hn, -, hsought⟩
  · rw [hnone, hsought]
    rfl
  · rw [hn, hsought]
    rfl

/-! ## Functions that are lacking -/

/-- The scalar functions among the senses that are wanted which are not there, but can be computed. -/
noncomputable def lacking (senses wanted : List Item) : List Item :=
  wanted.filter fun m =>
    m.scalar?.isSome && !(sought senses m).isSome && (sought senses m.bare).isSome

theorem lacking_congr {senses senses' wanted wanted' : List Item} (h : SearchAlike senses senses')
    (hwanted : SearchAlike wanted wanted') :
    SearchAlike (lacking senses wanted) (lacking senses' wanted') := by
  unfold lacking
  rw [sought_congr h]
  exact hwanted.filter _

/-- The answer of a look-up needs no function if and only if the item is found itself. -/
theorem any_resolve?_eq (header : List Item) (i : Item) :
    (resolve? header i).any (fun found => !found.viaFunction) = (find? header i).isSome := by
  unfold resolve?
  cases find? header i with
  | some n => rfl
  | none =>
    dsimp only
    split
    · cases find? header i.bare <;> rfl
    · rfl

/-- **The functions that a selection computes first are those that are lacking among the senses.** -/
theorem searchAlike_missingScalars (hknown : IsVocabulary known)
    (hheader : ∀ x ∈ header, x.IsHeld leaves known g) (hitems : ∀ i ∈ items, i.IsHeld leaves known g) :
    SearchAlike ((RowSet.missingScalars header items).map (sense leaves))
      (lacking (header.map (sense leaves)) (items.map (sense leaves))) := by
  have hlacks : ∀ i ∈ items, (i.scalar?.isSome &&
      !((resolve? header i).any fun found => !found.viaFunction) &&
        (resolve? header i.bare).isSome) =
      ((sense leaves i).scalar?.isSome &&
        !(sought (header.map (sense leaves)) (sense leaves i)).isSome &&
          (sought (header.map (sense leaves)) (sense leaves i).bare).isSome) := by
    intro i hi
    have hasked := (hitems i hi).asked
    rw [any_resolve?_eq, resolve?_bare, Option.isSome_map, isSome_find?_eq_sought hknown hheader hasked,
      isSome_find?_eq_sought hknown hheader (hasked.bare hknown), Item.sense_bare, Item.scalar?_sense]
  unfold RowSet.missingScalars lacking
  dsimp only
  rw [List.filter_congr hlacks, ← List.foldl_map, List.filter_map]
  refine (SearchAlike.foldl_addNew [] _ fun a ha b hb heq => ?_).trans ?_
  · have hheld {c : Item} (hc : c ∈ (items.filter ((fun m => m.scalar?.isSome &&
        !(sought (header.map (sense leaves)) m).isSome &&
          (sought (header.map (sense leaves)) m.bare).isSome) ∘ sense leaves)).map
            Item.withoutAlias) : c.IsKnown known := by
      obtain ⟨i, hi, rfl⟩ := List.mem_map.mp hc
      have hiknown := (hitems i (List.mem_filter.mp hi).1).known
      unfold Item.IsKnown at hiknown ⊢
      rwa [Item.meaning_withoutAlias]
    exact Item.sense_congr ((Item.sameAs_iff_meaning hknown (hheld ha) (hheld hb) true).mp heq)
  · rw [List.nil_append, List.map_map]
    have hsense : sense leaves ∘ Item.withoutAlias = sense leaves :=
      funext fun i => Item.sense_withoutAlias leaves i
    rw [hsense]
    exact .refl _

end Header

namespace RowSet

open Plan

/-- Rows that show one thing in one data set show another one in the other data set, which may be
looked at over other from items. -/
structure Reshapes (known : Item → Prop) (g : Registry) (leaves leaves' : List FromItem)
    (f : (Item → Value) → Item → Value) (d d' : RowSet) : Prop where
  header : ∀ x ∈ d'.header, x.IsHeld leaves' known g
  rows : ∃ change : Row → Except QueryError Row,
    d'.stream.outcomes = d.stream.outcomes.map (·.bind change) ∧
      ∀ r env, r.Shows leaves known g (d.header.map (sense leaves)) env →
        ∃ r', change r = .ok r' ∧ r'.Shows leaves' known g (d'.header.map (sense leaves')) (f env)

variable {known : Item → Prop} {g : Registry} {leaves leaves' leaves'' : List FromItem}
  {f f' : (Item → Value) → Item → Value} {d d' d'' : RowSet} {items : List Item} {l k : Ledger}

theorem map_bind_ok (outcomes : List (Except QueryError Row)) :
    outcomes.map (·.bind .ok) = outcomes := by
  refine (List.map_congr_left fun o _ => ?_).trans (List.map_id _)
  cases o <;> rfl

/-- A data set may stay as it is, if the values of its senses do. -/
theorem reshapes_self (hd : ∀ x ∈ d.header, x.IsHeld leaves known g)
    (hf : ∀ env, ∀ m ∈ d.header.map (sense leaves), f env m = env m) :
    Reshapes known g leaves leaves f d d := by
  refine ⟨hd, .ok, (map_bind_ok _).symm, fun r env hr => ⟨r, rfl, hr.held, hr.header, ?_⟩⟩
  rw [hr.values]
  exact List.map_congr_left fun m hm => (hf env m hm).symm

theorem Reshapes.trans (h : Reshapes known g leaves leaves' f d d')
    (h' : Reshapes known g leaves' leaves'' f' d' d'') :
    Reshapes known g leaves leaves'' (f' ∘ f) d d'' := by
  obtain ⟨change, hchange, hrows⟩ := h.rows
  obtain ⟨change', hchange', hrows'⟩ := h'.rows
  refine ⟨h'.header, fun r => (change r).bind change', ?_, fun r env hr => ?_⟩
  · rw [hchange', hchange, List.map_map]
    refine List.map_congr_left fun o _ => ?_
    cases o <;> rfl
  · obtain ⟨r', hr', hshows⟩ := hrows r env hr
    obtain ⟨r'', hr'', hshows'⟩ := hrows' r' (f env) hshows
    refine ⟨r'', ?_, hshows'⟩
    show (change r).bind change' = .ok r''
    rw [hr']
    exact hr''

/-! ## Projections -/

/-- Items laid out alike have one sense place by place. -/
theorem map_sense_of_sameLayout (hknown : IsVocabulary known) {header : List Item}
    (hheader : ∀ x ∈ header, x.IsKnown known) (hitems : ∀ i ∈ items, i.IsKnown known)
    (hlayout : Item.sameLayout header items = true) :
    header.map (sense leaves) = items.map (sense leaves) := by
  have hsame := Item.sameLayout_iff.mp hlayout
  clear hlayout
  induction hsame with
  | nil => rfl
  | cons hfirst _ ih =>
    rw [List.forall_mem_cons] at hheader hitems
    rw [List.map_cons, List.map_cons, ih hheader.2 hitems.2,
      Item.sense_congr ((Item.sameAs_iff_meaning hknown hheader.1 hitems.1 true).mp
        (Item.sameAs_of_same hfirst))]

section Projections

variable (hknown : IsVocabulary known) (hd : ∀ x ∈ d.header, x.IsHeld leaves known g)
  (hitems : ∀ i ∈ items, i.IsHeld leaves' known g)

include hknown hd hitems

/-- Items that are those of the data set already are shown by it. -/
theorem isShown_of_sameLayout (hlayout : Item.sameLayout d.header items = true) :
    ∀ i ∈ items, Row.IsShown leaves (d.header.map (sense leaves)) (sense leaves i) := by
  intro i hi
  refine Row.isShown_of_mem ?_
  rw [map_sense_of_sameLayout hknown (fun x hx => (hd x hx).known) (fun i hi => (hitems i hi).known)
    hlayout]
  exact List.mem_map_of_mem hi

omit hknown hd hitems in
/-- What is no column has one sense over all from items. -/
theorem sense_eq_of_lens (hlens : leaves' = leaves ∨ ∀ i ∈ items, i.column? = none) {i : Item}
    (hi : i ∈ items) : sense leaves' i = sense leaves i := by
  rcases hlens with rfl | hcolumns
  · rfl
  · rw [Item.sense_of_column?_eq_none (hcolumns i hi), Item.sense_of_column?_eq_none (hcolumns i hi)]

omit hknown hd hitems in
/-- So has everything of one sense with it, and rows over all from items may hold it. -/
theorem isHeld_of_lens (hlens : leaves' = leaves ∨ ∀ i ∈ items, i.column? = none) {x i : Item}
    (hi : i ∈ items) (hsense : sense leaves x = sense leaves i) (h : x.IsHeld leaves known g) :
    x.IsHeld leaves' known g ∧ sense leaves' x = sense leaves x := by
  rcases hlens with rfl | hcolumns
  · exact ⟨h, rfl⟩
  · have hx : x.column? = none := by
      rw [← Item.column?_sense leaves, hsense, Item.column?_sense]
      exact hcolumns i hi
    refine ⟨⟨h.lists, h.known, fun c hc => ?_⟩, ?_⟩
    · rw [hx] at hc
      cases hc
    · rw [Item.sense_of_column?_eq_none hx, Item.sense_of_column?_eq_none hx]

/-- **A projection shows the value of each item**, which may be looked at over other from items if no
item is a column. -/
theorem reshapes_projected (hlens : leaves' = leaves ∨ ∀ i ∈ items, i.column? = none)
    (hshown : ∀ i ∈ items, Row.IsShown leaves (d.header.map (sense leaves)) (sense leaves i)) :
    Reshapes known g leaves leaves' (Row.cellFor leaves (d.header.map (sense leaves))) d
      (d.projected items) := by
  have hitemsSense : ∀ i ∈ items, sense leaves' i = sense leaves i := fun i hi =>
    sense_eq_of_lens hlens hi
  refine ⟨hitems, ?_⟩
  unfold projected
  dsimp only
  split
  next hlayout =>
    have hlaid : d.header.map (sense leaves) = items.map (sense leaves) :=
      map_sense_of_sameLayout hknown (fun x hx => (hd x hx).known) (fun i hi => (hitems i hi).known)
        hlayout
    refine ⟨.ok, (map_bind_ok _).symm, fun r env hr => ?_⟩
    -- The items of the row are those of the projection in other words.
    have hheld : ∀ x ∈ r.header, x.IsHeld leaves' known g ∧ sense leaves' x = sense leaves x := by
      intro x hx
      obtain ⟨i, hi, hsense⟩ :=
        List.mem_map.mp (hlaid ▸ hr.header ▸ List.mem_map_of_mem (f := sense leaves) hx)
      exact isHeld_of_lens hlens hi hsense.symm (hr.held x hx)
    refine ⟨r, rfl, fun x hx => (hheld x hx).1, ?_, ?_⟩
    · rw [List.map_congr_left fun x hx => (hheld x hx).2, List.map_congr_left hitemsSense, ← hlaid,
        hr.header]
    · rw [hr.values, List.map_congr_left hitemsSense, ← hlaid]
      exact List.map_congr_left fun m hm => (Row.cellFor_of_mem hm).symm
  next =>
    refine ⟨(·.project items), Stream.outcomes_map _ _, fun r env hr => ?_⟩
    have hvalue : ∀ i ∈ items, r.evaluate? i =
        some (Row.cellFor leaves (d.header.map (sense leaves)) env (sense leaves i)) := by
      intro i hi
      have hasked := (hitems i hi).asked
      rw [hr.evaluate? hknown hasked, Row.valueFor_of_isShown (hshown i hi)]
    refine ⟨r.showing items, Row.project_eq_showing fun i hi => ⟨_, hvalue i hi⟩, hitems, rfl, ?_⟩
    show items.map _ = _
    rw [List.map_map]
    refine List.map_congr_left fun i hi => ?_
    rw [hvalue i hi, Function.comp, hitemsSense i hi]
    rfl

end Projections

/-! ## Selections -/

/-- What scalar functions read is found, each at its place. -/
theorem scalarInputs_of_found {header stage : List Item}
    (h : ∀ s ∈ stage, s.scalar?.isSome = true ∧ ∃ n, Header.find? header s.bare = some n) :
    ∃ functions, scalarInputs header stage = .ok functions ∧
      List.Forall₂ (fun s x => x.1 = s ∧ Header.find? header s.bare = some x.2) stage functions := by
  induction stage with
  | nil => exact ⟨[], rfl, .nil⟩
  | cons s rest ih =>
    rw [List.forall_mem_cons] at h
    obtain ⟨⟨hscalar, n, hbare⟩, hrest⟩ := h
    obtain ⟨functions, hfunctions, hplaces⟩ := ih hrest
    refine ⟨(s, n) :: functions, ?_, .cons ⟨rfl, hbare⟩ hplaces⟩
    unfold scalarInputs
    rw [hfunctions, Header.resolve?_bare, hbare,
      if_neg (Option.isSome_iff_ne_none.mp hscalar ∘ Option.isNone_iff_eq_none.mp)]
    rfl

/-- The value of an item of a sense behind the functions that are lacking. -/
noncomputable def selectedFor (leaves : List FromItem) (senses wanted : List Item)
    (env : Item → Value) : Item → Value :=
  Row.cellFor leaves (Header.lacking senses wanted ++ senses) (Row.cellFor leaves senses env)

theorem selectedFor_congr {senses senses' wanted wanted' : List Item} (h : SearchAlike senses senses')
    (hwanted : SearchAlike wanted wanted') :
    selectedFor leaves senses wanted = selectedFor leaves senses' wanted' := by
  unfold selectedFor
  rw [Row.cellFor_congr h, Row.cellFor_congr ((Header.lacking_congr h hwanted).append h)]

section Selections

variable (hknown : IsVocabulary known) (hd : ∀ x ∈ d.header, x.IsHeld leaves known g)
  (hitems : ∀ i ∈ items, i.IsHeld leaves known g)

include hknown hd hitems

omit hknown hd in
theorem isHeld_missingScalars : ∀ s ∈ missingScalars d.header items, s.IsHeld leaves known g := by
  intro s hs
  obtain ⟨i, hi, rfl, -⟩ := exists_of_mem_missingScalars hs
  have hheld := hitems i hi
  refine ⟨hheld.lists.withoutAlias, ?_, hheld.placed⟩
  unfold Item.IsKnown
  rw [Item.meaning_withoutAlias]
  exact hheld.known

/-- A function that is lacking is computed of what is found at its place. -/
theorem cellFor_missingScalar {r : Row} {env : Item → Value} {s : Item} {n : Nat}
    (hs : s ∈ missingScalars d.header items) (hplace : Header.find? d.header s.bare = some n)
    (hr : r.Shows leaves known g (d.header.map (sense leaves)) env) :
    Row.cellFor leaves (d.header.map (sense leaves)) env (sense leaves s) =
      Row.applyScalar s (r.value n) := by
  obtain ⟨i, -, rfl, hscalar, hmissing, -⟩ := exists_of_mem_missingScalars hs
  have hscalar : i.withoutAlias.scalar?.isSome = true := hscalar
  have hasked := (isHeld_missingScalars (d := d) hitems _ hs).asked
  -- The function itself is not there, so that its sense is read through what it computes from.
  have hnone : Header.sought (d.header.map (sense leaves)) (sense leaves i.withoutAlias) = none := by
    have hisNone := Header.isSome_find?_eq_sought hknown hd hasked
    rw [Header.find?_withoutAlias, hmissing] at hisNone
    exact Option.isSome_eq_false_iff.mp hisNone.symm |> Option.isNone_iff_eq_none.mp
  have hbare := Header.find?_bind_eq hknown hd (hasked.bare hknown)
  rw [hplace, Option.bind_some, Item.sense_bare] at hbare
  have hlt : n < (d.header.map (sense leaves)).length := by
    rw [List.length_map]
    exact Header.find?_lt hplace
  have hcell := List.getElem?_eq_getElem hlt
  unfold Row.cellFor Row.valueFor Row.valueAmong Header.soughtFor
  rw [hnone, Item.scalar?_sense, if_pos hscalar, ← hbare, hcell, hr.value hcell]
  exact Row.applyScalar_sense leaves _ _

/-- **The functions that are lacking are put in front**, with the values that the rows show for them. -/
theorem exists_staged : ∃ staged, d.withScalars (missingScalars d.header items) = pure staged ∧
    staged.header = missingScalars d.header items ++ d.header ∧
    Reshapes known g leaves leaves (Row.cellFor leaves (d.header.map (sense leaves))) d staged := by
  have hstage : ∀ s ∈ missingScalars d.header items, s.scalar?.isSome = true ∧
      ∃ n, Header.find? d.header s.bare = some n := by
    intro s hs
    obtain ⟨i, -, rfl, hscalar, -, hbare⟩ := exists_of_mem_missingScalars hs
    exact ⟨hscalar, hbare⟩
  have hheld := isHeld_missingScalars (d := d) hitems
  obtain ⟨functions, hfunctions, hplaces⟩ := scalarInputs_of_found hstage
  unfold withScalars
  rw [hfunctions]
  refine ⟨_, rfl, rfl, List.forall_mem_append.mpr ⟨hheld, hd⟩,
    fun row => .ok (row.withScalars (missingScalars d.header items ++ d.header) functions
      d.header.length), Stream.outcomes_map _ _, fun r env hr => ⟨_, rfl, ?_, rfl, ?_⟩⟩
  · exact List.forall_mem_append.mpr ⟨hheld, hd⟩
  · have hwidth : r.values.length = d.header.length := by
      rw [hr.values, List.length_map, List.length_map]
    have hcells : (List.range d.header.length).map r.value =
        (d.header.map (sense leaves)).map (Row.cellFor leaves (d.header.map (sense leaves)) env) := by
      rw [Row.map_value_range hwidth, hr.values]
      exact List.map_congr_left fun m hm => (Row.cellFor_of_mem hm).symm
    have hfront : functions.map (fun x => Row.applyScalar x.1 (r.value x.2)) =
        ((missingScalars d.header items).map (sense leaves)).map
          (Row.cellFor leaves (d.header.map (sense leaves)) env) := by
      rw [List.map_map]
      refine (map_eq_map_of_forall₂ hplaces fun s hs x hx => ?_).symm
      obtain ⟨rfl, hplace⟩ := hx
      exact cellFor_missingScalar hknown hd hitems hs hplace hr
    show functions.map _ ++ _ = _
    rw [hfront, hcells, List.map_append, List.map_append]

/-- A selection from rows with functions in front, whether or not there are any. -/
theorem selection_eq_staged (hlayout : Item.sameLayout d.header items = false) :
    ∃ staged : RowSet, d.selection items = staged.projectedOrRefused items ∧
      staged.header = missingScalars d.header items ++ d.header ∧
      Reshapes known g leaves leaves (Row.cellFor leaves (d.header.map (sense leaves))) d staged := by
  rw [selection_eq, if_neg (Bool.eq_false_iff.mp hlayout)]
  split
  next hempty =>
    rw [List.isEmpty_iff.mp hempty]
    exact ⟨d, pure_bind _ _, rfl, reshapes_self hd fun env m hm => Row.cellFor_of_mem hm⟩
  next =>
    obtain ⟨staged, hstaged, hheader, hreshapes⟩ := exists_staged hknown hd hitems
    rw [hstaged]
    exact ⟨staged, pure_bind _ _, hheader, hreshapes⟩

/-- What has a value behind the functions that are lacking. -/
theorem isReadable_staged {staged : RowSet}
    (hheader : staged.header = missingScalars d.header items ++ d.header) {i : Item} (hi : i ∈ items) :
    Header.isReadable staged.header i = true ↔
      Row.IsShown leaves (Header.lacking (d.header.map (sense leaves)) (items.map (sense leaves)) ++
        d.header.map (sense leaves)) (sense leaves i) := by
  have hheld : ∀ x ∈ staged.header, x.IsHeld leaves known g := by
    rw [hheader]
    exact List.forall_mem_append.mpr ⟨isHeld_missingScalars hitems, hd⟩
  rw [Header.isReadable_iff_isShown hknown hheld (hitems i hi).asked, hheader, List.map_append]
  exact Row.isShown_congr ((Header.searchAlike_missingScalars hknown hd hitems).append (.refl _))

/-- **A selection that succeeds shows its items** behind the functions that are lacking. -/
theorem isShown_of_selection (hrun : (d.selection items).run l = (.ok d', k)) :
    ∀ i ∈ items, Row.IsShown leaves
      (Header.lacking (d.header.map (sense leaves)) (items.map (sense leaves)) ++
        d.header.map (sense leaves)) (sense leaves i) := by
  intro i hi
  cases hlayout : Item.sameLayout d.header items with
  | true =>
    refine Row.isShown_of_mem (List.mem_append_right _ ?_)
    rw [map_sense_of_sameLayout hknown (fun x hx => (hd x hx).known)
      (fun i hi => (hitems i hi).known) hlayout]
    exact List.mem_map_of_mem hi
  | false =>
    obtain ⟨staged, heq, hheader, -⟩ := selection_eq_staged hknown hd hitems hlayout
    rw [heq] at hrun
    unfold projectedOrRefused at hrun
    split at hrun
    next => exact absurd hrun run_bind_throw_ne_ok
    next hreadable =>
      have hi' := List.find?_eq_none.mp hreadable i hi
      rw [← isReadable_staged hknown hd hitems hheader hi]
      simpa using hi'

/-- **A selection whose items are shown gives the value of each.** -/
theorem gives_selection_shown
    (hshown : ∀ i ∈ items, Row.IsShown leaves
      (Header.lacking (d.header.map (sense leaves)) (items.map (sense leaves)) ++
        d.header.map (sense leaves)) (sense leaves i)) (l : Ledger) :
    (d.selection items).Gives l fun d' l' => l' = l ∧
      d'.header.map (sense leaves) = items.map (sense leaves) ∧
      Reshapes known g leaves leaves
        (selectedFor leaves (d.header.map (sense leaves)) (items.map (sense leaves))) d d' := by
  cases hlayout : Item.sameLayout d.header items with
  | true =>
    unfold selection
    rw [if_pos hlayout]
    refine gives_pure ⟨rfl, map_sense_of_sameLayout hknown (fun x hx => (hd x hx).known)
      (fun i hi => (hitems i hi).known) hlayout, reshapes_self hd fun env m hm => ?_⟩
    unfold selectedFor
    rw [Row.cellFor_of_mem (List.mem_append_right _ hm), Row.cellFor_of_mem hm]
  | false =>
    obtain ⟨staged, heq, hheader, hreshapes⟩ := selection_eq_staged hknown hd hitems hlayout
    have hreadable : (items.find? fun i => !Header.isReadable staged.header i) = none := by
      rw [List.find?_eq_none]
      intro i hi
      simp [(isReadable_staged hknown hd hitems hheader hi).mpr (hshown i hi)]
    rw [heq]
    unfold projectedOrRefused
    rw [hreadable]
    refine gives_pure ⟨rfl, rfl, ?_⟩
    have halike : SearchAlike (staged.header.map (sense leaves))
        (Header.lacking (d.header.map (sense leaves)) (items.map (sense leaves)) ++
          d.header.map (sense leaves)) := by
      rw [hheader, List.map_append]
      exact (Header.searchAlike_missingScalars hknown hd hitems).append (.refl _)
    have hprojected := reshapes_projected hknown hreshapes.header hitems (Or.inl rfl) fun i hi =>
      (Row.isShown_congr halike).mpr (hshown i hi)
    rw [Row.cellFor_congr halike] at hprojected
    exact hreshapes.trans hprojected

end Selections

end RowSet

end DocQuery
