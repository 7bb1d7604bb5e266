import DocQuery.Proofs.Query.Sameness
import DocQuery.Proofs.Rows.Distinct
import DocQuery.Proofs.Rows.Headed
import DocQuery.Proofs.Rows.LeftJoin
import Mathlib.Data.List.Pairwise

/-!
# DocQuery.Proofs.Rows.RightJoin — what a right join gives

A right join is a left join with the sides swapped, and then a selection that puts the left items in
front again.  The conditions are asked before that, of rows with the right items in front, so a
look-up meets the items of the header in another order than they are given in.  It ends at the same
item in any order if one has its identity, or if no two items denote what it denotes
(`Header.Designates`), and then the join gives what is meant (`gives_rightJoin`).  But two items that
differ from each other may both denote what a third one does, where their parameters are numbers that
round alike: then a condition is asked about the wrong side (`rightJoin_conflated`).
-/

namespace DocQuery

/-! ## Look-ups in any order -/

namespace Header

variable {items : List Item} {i h : Item}

/-- Items of different identities, no two of which denote the same within their scopes. -/
structure IsDistinct (items : List Item) : Prop where
  ids : (items.map Item.id).Nodup
  different : items.Pairwise fun i k => Item.sameAs true i k = false ∧ Item.sameAs true k i = false

/-- An item of a header that a look-up ends at whatever the order of the header is: the one of its
identity, or else the only one that denotes the same. -/
def Designates (items : List Item) (i h : Item) : Prop :=
  h ∈ items ∧ (h.id = i.id ∨ Item.sameAs true h i = true ∧
    ∀ k ∈ items, k.id ≠ i.id ∧ (Item.sameAs true k i = true → k.id = h.id))

theorem Designates.of_mem_iff {items' : List Item} (hd : Designates items i h)
    (hitems : ∀ k, k ∈ items' ↔ k ∈ items) : Designates items' i h :=
  ⟨(hitems h).mpr hd.1, hd.2.imp_right fun hsame =>
    ⟨hsame.1, fun k hk => hsame.2 k ((hitems k).mp hk)⟩⟩

/-- A look-up of an item of the header, if no more than one denotes the same, designates one. -/
theorem exists_designates (hnamed : ∃ h ∈ items, Item.sameAs true h i = true)
    (honly : ∀ h ∈ items, ∀ k ∈ items, Item.sameAs true h i = true → Item.sameAs true k i = true →
      h.id = k.id) : ∃ h, Designates items i h := by
  by_cases hid : ∃ h ∈ items, h.id = i.id
  · obtain ⟨h, hh, hid⟩ := hid
    exact ⟨h, hh, Or.inl hid⟩
  · obtain ⟨h, hh, hsame⟩ := hnamed
    refine ⟨h, hh, Or.inr ⟨hsame, fun k hk => ⟨fun hkid => hid ⟨k, hk, hkid⟩, fun hksame => ?_⟩⟩⟩
    exact honly k hk h hh hksame hsame

/-- Of distinct items only one denotes what an item does, if no parameters are conflated. -/
theorem IsDistinct.only {k : Item} (hdistinct : IsDistinct items)
    (hh : h ∈ items) (hk : k ∈ items) (hsame : Item.sameAs true h i = true)
    (hsame' : Item.sameAs true k i = true)
    (hjoins : Item.Joins h.allParameters i.allParameters k.allParameters) : h.id = k.id := by
  have hboth := Item.sameAs_of_common hsame hsame' hjoins
  by_contra hne
  have : Std.Symm fun i k : Item => Item.sameAs true i k = false ∧ Item.sameAs true k i = false :=
    ⟨fun _ _ hdifferent => hdifferent.symm⟩
  have hdifferent := hdistinct.different.forall hh hk fun heq => hne (congrArg Item.id heq)
  rw [hboth] at hdifferent
  cases hdifferent.1

/-- A look-up ends where the item stands that it designates. -/
theorem find?_of_designates (hids : (items.map Item.id).Nodup) (hd : Designates items i h) :
    ∃ n, find? items i = some n ∧ find? items h = some n := by
  obtain ⟨hmem, hd⟩ := hd
  obtain ⟨n, hn⟩ := Option.isSome_iff_exists.mp
    (List.findIdx?_isSome.trans (List.any_eq_true.mpr ⟨h, hmem, beq_self_eq_true h.id⟩) :
      (items.findIdx? fun c => c.id == h.id).isSome = true)
  refine ⟨n, ?_, ?_⟩
  · rcases hd with hid | ⟨hsame, honly⟩
    · unfold find?
      rw [← hid, hn]
      rfl
    · have hnone : (items.findIdx? fun c => c.id == i.id) = none :=
        List.findIdx?_eq_none_iff.mpr fun k hk => beq_false_of_ne (honly k hk).1
      -- Only the item itself has its identity, and only it denotes what is looked up.
      have hsameId : ∀ k ∈ items, Item.sameAs true k i = (k.id == h.id) := by
        intro k hk
        rw [Bool.eq_iff_iff, beq_iff_eq]
        refine ⟨(honly k hk).2, fun hid => ?_⟩
        rw [List.inj_on_of_nodup_map hids hk hmem hid]
        exact hsame
      have hplace : items.findIdx? (Item.sameAs true · i) = items.findIdx? fun c => c.id == h.id :=
        findIdx?_of_forall₂ (R := fun k k' => k = k' ∧ k ∈ items)
          (List.forall₂_same.mpr fun k hk => ⟨rfl, hk⟩) fun k k' hk => hk.1 ▸ hsameId k hk.2
      unfold find?
      rw [hnone, hplace, hn]
      rfl
  · unfold find?
    rw [hn]
    rfl

end Header

/-! ## Rows with the sides swapped -/

namespace Row

variable {left right : List Item} {a b : List Value} {i h : Item}

theorem evaluate?_of_designates {items : List Item} {values : List Value}
    (hids : (items.map Item.id).Nodup) (hd : Header.Designates items i h) :
    evaluate? ⟨items, values, none⟩ i = evaluate? ⟨items, values, none⟩ h := by
  obtain ⟨n, hi, hh⟩ := Header.find?_of_designates hids hd
  rw [evaluate?_of_find? hi, evaluate?_of_find? hh]

/-- Every item of the header has its own cell as its value, on whichever side the items stand. -/
theorem map_evaluate?_swapped (hids : ((left ++ right).map Item.id).Nodup)
    (ha : a.length = left.length) (hb : b.length = right.length) :
    (left ++ right).map (evaluate? ⟨right ++ left, b ++ a, none⟩) = (a ++ b).map some := by
  have hswapped : ((right ++ left).map Item.id).Nodup := by
    rw [List.map_append] at hids ⊢
    exact List.nodup_append_comm.mp hids
  have hcells := map_evaluate?_self
    (Header.fits_of_nodup hswapped (by rw [List.length_append, List.length_append, ha, hb] :
      (b ++ a).length = (right ++ left).length)) none
  rw [List.map_append, List.map_append] at hcells ⊢
  obtain ⟨hright, hleft⟩ := List.append_inj hcells (by rw [List.length_map, List.length_map, hb])
  rw [hleft, hright]

/-- A row is put into the other order by showing it under the items in that order. -/
theorem showing_swapped (hids : ((left ++ right).map Item.id).Nodup)
    (ha : a.length = left.length) (hb : b.length = right.length) :
    showing ⟨right ++ left, b ++ a, none⟩ (left ++ right) = ⟨left ++ right, a ++ b, none⟩ := by
  have hvalues : (left ++ right).map (fun i =>
      (evaluate? ⟨right ++ left, b ++ a, none⟩ i).getD .null) = a ++ b := by
    have hmap := congrArg (List.map (·.getD Value.null)) (map_evaluate?_swapped hids ha hb)
    rw [List.map_map, List.map_map] at hmap
    exact hmap.trans (List.map_id (a ++ b))
  unfold showing
  rw [hvalues]
  rfl

/-- **An item that is not in doubt has one value in either order.** -/
theorem evaluate?_swapped (hids : ((left ++ right).map Item.id).Nodup)
    (ha : a.length = left.length) (hb : b.length = right.length)
    (hi : ∃ h, Header.Designates (left ++ right) i h) :
    evaluate? ⟨right ++ left, b ++ a, none⟩ i = evaluate? ⟨left ++ right, a ++ b, none⟩ i := by
  obtain ⟨h, hd⟩ := hi
  have hswapped : ((right ++ left).map Item.id).Nodup := by
    rw [List.map_append] at hids ⊢
    exact List.nodup_append_comm.mp hids
  have hd' : Header.Designates (right ++ left) i h :=
    hd.of_mem_iff fun k => by rw [List.mem_append, List.mem_append, or_comm]
  have hlength : (a ++ b).length = (left ++ right).length := by
    rw [List.length_append, List.length_append, ha, hb]
  have hown := map_evaluate?_self (Header.fits_of_nodup hids hlength) none
  rw [evaluate?_of_designates hswapped hd', evaluate?_of_designates hids hd]
  exact List.map_inj_left.mp ((map_evaluate?_swapped hids ha hb).trans hown.symm) h hd.1

end Row

namespace RowSet

open Plan DocQuery.Stream

/-! ## The rows of a right join -/

/-- A right row behind every left row that all filters accept together with it, or behind the padding
if there is none. -/
def behindMatches (header : List Item) (filters : List Filter) (padding : List Value)
    (rows : List Row) (row' : Row) : List Row :=
  match rows.filter fun row => satisfies filters (combine header row row'.values) with
  | [] => [{ header := header, values := padding ++ row'.values }]
  | found => found.map fun row => combine header row row'.values

/-- The rows of a right join of rows with these items. -/
def rightJoinRows (left right : List Item) (filters : List Filter) (rows rows' : List Row) :
    List Row :=
  rows'.flatMap
    (behindMatches (left ++ right) filters (List.replicate left.length .null) rows)

section Swapped

variable {left right : List Item} {filters : List Filter} {rows rows' : List Row}

/-- Filters whose items are not in doubt say the same of a row in either order. -/
theorem accepts_swapped {f : Filter} {row row' : Row} (hids : ((left ++ right).map Item.id).Nodup)
    (hrow : row.values.length = left.length) (hrow' : row'.values.length = right.length)
    (hitems : ∀ i ∈ f.items, ∃ h, Header.Designates (left ++ right) i h) :
    Filter.accepts (combine (right ++ left) row' row.values) f =
      Filter.accepts (combine (left ++ right) row row'.values) f :=
  Filter.accepts_congr f fun i hi => Row.evaluate?_swapped hids hrow hrow' (hitems i hi)

/-- **The rows of the left join of the swapped sides, put into order, are those of the right join.** -/
theorem map_showing_leftJoinRows (hids : ((left ++ right).map Item.id).Nodup)
    (hrows : ∀ row ∈ rows, row.values.length = left.length)
    (hrows' : ∀ row' ∈ rows', row'.values.length = right.length)
    (hitems : ∀ f ∈ filters, ∀ i ∈ f.items, ∃ h, Header.Designates (left ++ right) i h) :
    (leftJoinRows right left filters rows' rows).map (·.showing (left ++ right)) =
      rightJoinRows left right filters rows rows' := by
  unfold leftJoinRows rightJoinRows
  rw [List.map_flatMap]
  refine List.flatMap_congr fun row' hrow' => ?_
  have haccepted : accepted (right ++ left) filters rows row' =
      rows.filter fun row => satisfies filters (combine (left ++ right) row row'.values) :=
    List.filter_congr fun row hrow => satisfies_congr fun f hf =>
      accepts_swapped hids (hrows row hrow) (hrows' row' hrow') (hitems f hf)
  unfold withMatches behindMatches
  rw [haccepted]
  cases hfound : rows.filter fun row =>
      satisfies filters (combine (left ++ right) row row'.values) with
  | nil =>
    exact congrArg (fun row => [row])
      (Row.showing_swapped hids List.length_replicate (hrows' row' hrow'))
  | cons first later =>
    dsimp only
    rw [List.map_map]
    refine List.map_congr_left fun row hrow => ?_
    have hmem : row ∈ rows := List.mem_of_mem_filter (hfound ▸ hrow)
    exact Row.showing_swapped hids (hrows row hmem) (hrows' row' hrow')

/-- Distinct items are laid out alike in either order only if there are none on one side. -/
theorem eq_nil_of_sameLayout_swapped (hdistinct : Header.IsDistinct (left ++ right))
    (hlayout : Item.sameLayout (right ++ left) (left ++ right) = true) : left = [] ∨ right = [] := by
  cases left with
  | nil => exact Or.inl rfl
  | cons i left =>
    cases right with
    | nil => exact Or.inr rfl
    | cons k right =>
      have hsame : Item.same k i = true := by
        have hpairs := Item.sameLayout_iff.mp hlayout
        rw [List.cons_append, List.cons_append, List.forall₂_cons] at hpairs
        exact hpairs.1
      have hdifferent := (List.pairwise_append.mp hdistinct.different).2.2 i List.mem_cons_self k
        List.mem_cons_self
      rw [Item.sameAs_of_same hsame] at hdifferent
      cases hdifferent.2

/-- The rows of a join of swapped sides hold the values of a right row and then as many as there are
left items. -/
theorem exists_values_of_mem_leftJoinRows {row : Row}
    (hrows : ∀ row ∈ rows, row.values.length = left.length)
    (hrows' : ∀ row' ∈ rows', row'.values.length = right.length)
    (hrow : row ∈ leftJoinRows right left filters rows' rows) :
    ∃ a b, a.length = left.length ∧ b.length = right.length ∧
      row = ⟨right ++ left, b ++ a, none⟩ := by
  obtain ⟨row', hrow', hrow⟩ := List.mem_flatMap.mp hrow
  unfold withMatches at hrow
  cases hfound : accepted (right ++ left) filters rows row' with
  | nil =>
    rw [hfound] at hrow
    exact ⟨_, _, List.length_replicate, hrows' row' hrow', List.mem_singleton.mp hrow⟩
  | cons first later =>
    rw [hfound] at hrow
    obtain ⟨row, hmem, rfl⟩ := List.mem_map.mp hrow
    have hmem : row ∈ rows := List.mem_of_mem_filter (hfound ▸ hmem)
    exact ⟨_, _, hrows row hmem, hrows' row' hrow', rfl⟩

/-- Putting the left items in front changes the rows so, also where there is nothing to change. -/
theorem gives_selection_swapped {d : RowSet} {l : Ledger} (hheader : d.header = right ++ left)
    (hd : d.Yields (leftJoinRows right left filters rows' rows))
    (hdistinct : Header.IsDistinct (left ++ right))
    (hrows : ∀ row ∈ rows, row.values.length = left.length)
    (hrows' : ∀ row' ∈ rows', row'.values.length = right.length) :
    (d.selection (left ++ right)).Gives l fun d' _ => d'.header = left ++ right ∧
      d'.Yields ((leftJoinRows right left filters rows' rows).map (·.showing (left ++ right))) := by
  by_cases hlayout : Item.sameLayout d.header (left ++ right) = true
  · have hempty : left = [] ∨ right = [] :=
      eq_nil_of_sameLayout_swapped hdistinct (hheader ▸ hlayout)
    have hsame : right ++ left = left ++ right := by
      rcases hempty with rfl | rfl <;> simp
    have hself : (leftJoinRows right left filters rows' rows).map (·.showing (left ++ right)) =
        leftJoinRows right left filters rows' rows := by
      refine (List.map_congr_left fun row hrow => ?_).trans (List.map_id _)
      obtain ⟨a, b, ha, hb, rfl⟩ := exists_values_of_mem_leftJoinRows hrows hrows' hrow
      have hvalues : b ++ a = a ++ b := by
        rcases hempty with rfl | rfl
        · simp [List.length_eq_zero_iff.mp ha]
        · simp [List.length_eq_zero_iff.mp hb]
      rw [Row.showing_swapped hdistinct.ids ha hb, hsame, hvalues]
      rfl
    unfold selection
    rw [if_pos hlayout, hself]
    exact gives_pure ⟨hheader.trans hsame, hd⟩
  · have hfound : ∀ i ∈ left ++ right, ∃ n, Header.find? d.header i = some n := by
      intro i hi
      refine Header.exists_find?_of_mem (s := i) ?_ (Or.inl rfl)
      rw [hheader, List.mem_append, or_comm]
      exact List.mem_append.mp hi
    rw [selection_of_find? hlayout hfound]
    refine gives_pure ⟨rfl, yields_projected hd (Bool.eq_false_iff.mpr hlayout) ?_⟩
    intro row hrow i hi
    obtain ⟨a, b, -, -, rfl⟩ := exists_values_of_mem_leftJoinRows hrows hrows' hrow
    obtain ⟨n, hn⟩ := hfound i hi
    exact ⟨_, Row.evaluate?_of_find? (hheader ▸ hn)⟩

end Swapped

/-- **A right join gives every right row in order, behind its matches in the order of the left rows
or behind nulls.**  The items of the sides are distinct, the conditions name items among them, and no
item that they name is the same as two of them. -/
theorem gives_rightJoin (left right : RowSet) (filters : List Filter) (rows rows' : List Row)
    (l : Ledger) (hleft : left.Yields rows) (hright : right.Yields rows')
    (hrows : ∀ row ∈ rows, row.values.length = left.header.length)
    (hrows' : ∀ row' ∈ rows', row'.values.length = right.header.length)
    (hdistinct : Header.IsDistinct (left.header ++ right.header))
    (hnamed : ∀ f ∈ filters, ∀ i ∈ f.items,
      ∃ h ∈ left.header ++ right.header, Item.sameAs true h i = true)
    (honly : ∀ f ∈ filters, ∀ i ∈ f.items, ∀ h ∈ left.header ++ right.header,
      ∀ k ∈ left.header ++ right.header,
        Item.sameAs true h i = true → Item.sameAs true k i = true → h.id = k.id)
    (hevaluates : ∀ row ∈ rows, ∀ row' ∈ rows', ∀ f ∈ filters,
      ∃ b, Filter.accepts (combine (left.header ++ right.header) row row'.values) f = .ok b) :
    (rightJoin left right filters).Gives l fun joined l' =>
      joined.header = left.header ++ right.header ∧
      joined.toRows.answer l' =
        .ok (rightJoinRows left.header right.header filters rows rows') := by
  have hitems : ∀ f ∈ filters, ∀ i ∈ f.items,
      ∃ h, Header.Designates (left.header ++ right.header) i h :=
    fun f hf i hi => Header.exists_designates (hnamed f hf i hi) (honly f hf i hi)
  have hswapped : ∀ row' ∈ rows', Evaluates (right.header ++ left.header) filters rows row' := by
    intro row' hrow' row hrow f hf
    rw [accepts_swapped hdistinct.ids (hrows row hrow) (hrows' row' hrow') (hitems f hf)]
    exact hevaluates row hrow row' hrow' f hf
  refine gives_bind (gives_bind (gives_orElseClosing (gives_toRows hleft fun _ _ => ?_)))
  refine gives_pure ((gives_selection_swapped rfl (yields_nestedLoop_padded hright hswapped)
    hdistinct hrows hrows').mono fun joined l' hjoined => ⟨hjoined.1, ?_⟩)
  rw [toRows_answer, hjoined.2, collect_rows,
    map_showing_leftJoinRows hdistinct.ids hrows hrows' hitems]

/-- Two tables under labels, with conditions on items that have identities of their own: the first
right row has a match, and the second is padded. -/
theorem gives_rightJoin_matched_and_padded :
    let conditions := [sameId 3 "a" 4 "b",
      .comparison (Item.ofColumn 5 ⟨"id", "t", some .number, false⟩ (some "a")) .equal
        (.value (.integer 1))]
    let header := labelledHeader 1 "a" ++ labelledHeader 2 "b"
    Header.IsDistinct header ∧
      (∀ f ∈ conditions, ∀ i ∈ f.items, ∃ h ∈ header, Item.sameAs true h i = true) ∧
      (∀ f ∈ conditions, ∀ i ∈ f.items, ∀ h ∈ header, ∀ k ∈ header,
        Item.sameAs true h i = true → Item.sameAs true k i = true → h.id = k.id) ∧
      (∀ row ∈ labelledRows 1 "a", ∀ row' ∈ labelledRows 2 "b", ∀ f ∈ conditions,
        ∃ b, Filter.accepts (combine header row row'.values) f = .ok b) ∧
      (rightJoin (labelled 1 "a") (labelled 2 "b") conditions).Gives {} fun joined l' =>
        joined.header = header ∧ joined.toRows.answer l' = .ok
          [⟨header, [.integer 1, .integer 1], none⟩, ⟨header, [.null, .integer 2], none⟩] := by
  intro conditions header
  have hdistinct : Header.IsDistinct header := ⟨by decide, by decide⟩
  have hnamed : ∀ f ∈ conditions, ∀ i ∈ f.items, ∃ h ∈ header, Item.sameAs true h i = true := by
    decide
  have honly : ∀ f ∈ conditions, ∀ i ∈ f.items, ∀ h ∈ header, ∀ k ∈ header,
      Item.sameAs true h i = true → Item.sameAs true k i = true → h.id = k.id := by
    decide
  have hevaluates : ∀ row ∈ labelledRows 1 "a", ∀ row' ∈ labelledRows 2 "b", ∀ f ∈ conditions,
      ∃ b, Filter.accepts (combine header row row'.values) f = .ok b := by
    decide +kernel
  refine ⟨hdistinct, hnamed, honly, hevaluates, ?_⟩
  exact gives_rightJoin (labelled 1 "a") (labelled 2 "b") conditions (labelledRows 1 "a")
    (labelledRows 2 "b") {} (yields_ofRows _ _) (yields_ofRows _ _) (by decide) (by decide)
    hdistinct hnamed honly hevaluates

/-! ## Parameters that round alike -/

/-- An entry of a document column, under a number as its key. -/
def entry (id : Nat) (key : Value) : Item :=
  { Item.ofFunction id .mapValue ⟨"d", "t", none, false⟩ none with parameters := [key] }

/-- A data set of one entry, its values in two rows. -/
def entries (id : Nat) (key first second : Value) : RowSet :=
  ofRows [entry id key] [⟨[entry id key], [first], none⟩, ⟨[entry id key], [second], none⟩]

/-- The entries under `2 ^ 53 + 1` and under `2 ^ 53` differ, and the entry under the double `2 ^ 53`
is the same as either.  A condition on it is meant to be asked of the left entry, which comes first,
and the join asks it of the right one. -/
theorem rightJoin_conflated :
    let left := entries 1 (.integer 9007199254740993) (.integer 1) (.integer 2)
    let right := entries 2 (.integer 9007199254740992) (.integer 1) (.integer 3)
    let condition := Filter.comparison (entry 3 (.float (.ofInt 9007199254740992))) .equal
      (.value (.integer 1))
    let rows := [⟨left.header, [.integer 1], none⟩, ⟨left.header, [.integer 2], none⟩]
    let rows' := [⟨right.header, [.integer 1], none⟩, ⟨right.header, [.integer 3], none⟩]
    Header.IsDistinct (left.header ++ right.header) ∧
      (∀ i ∈ condition.items, ∃ h ∈ left.header ++ right.header, Item.sameAs true h i = true) ∧
      (∀ row ∈ rows, ∀ row' ∈ rows', ∃ b,
        Filter.accepts (combine (left.header ++ right.header) row row'.values) condition = .ok b) ∧
      ((rightJoin left right [condition] >>= toRows).answer {}).toOption.map
          (List.map fun row => row.values.map Value.display) =
        some [["1", "1"], ["2", "1"], ["null", "3"]] ∧
      (rightJoinRows left.header right.header [condition] rows rows').map
          (fun row => row.values.map Value.display) = [["1", "1"], ["1", "3"]] := by
  intro left right condition rows rows'
  refine ⟨⟨by decide, by decide +kernel⟩, by decide +kernel, by decide +kernel, ?_, ?_⟩
  · decide +kernel
  · decide +kernel

end RowSet

end DocQuery
