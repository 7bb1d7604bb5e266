import DocQuery.Proofs.Rows.Identities
import DocQuery.Proofs.Rows.Selection
import DocQuery.Proofs.Value.Sameness
import Mathlib.Data.List.Nodup

/-!
# DocQuery.Proofs.Rows.Distinct — unique rows

Unique rows are groups by all items.  Grouping keeps the keys that match no earlier one, in their
order (`RowSet.foldlM_groupRow`), and the items of a header find their own cells among the keys, so
unique rows are the first occurrences of rows.  But grouping by a header also computes the aggregates
that the header holds, over rows that only have their results: it fails unless what they read is at
hand as well (`RowSet.distinct_first_occurrences_iff`).
-/

namespace DocQuery

/-! ## First occurrences -/

namespace Value

/-- Lists of values with one more, unless one among them matches it. -/
abbrev addKey (kept : List (List Value)) (key : List Value) : List (List Value) :=
  if kept.any (allMatch · key) then kept else kept ++ [key]

/-- The lists of values that match no earlier one. -/
def firstOccurrences (keys : List (List Value)) : List (List Value) := keys.foldl addKey []

/-- A value of a kind that has one spelling for each value: nothing, a boolean, an integer, a text or
a moment. -/
def IsDiscrete : Value → Prop
  | .number (.float _) | .nested _ => False
  | _ => True

theorem same_iff_of_isDiscrete {a b : Value} (ha : a.IsDiscrete) (hb : b.IsDiscrete) :
    a.same b = true ↔ a = b := by
  cases a <;> cases b <;> simp only [same, reduceCtorEq, Bool.false_eq_true]
  case number.number m n =>
    cases m <;> cases n <;> first | exact ha.elim | exact hb.elim | simp [Number.same]
  case nested.nested j k => exact ha.elim
  all_goals simp

/-- Values with one spelling match only themselves. -/
theorem matches?_iff_of_isDiscrete {a b : Value} (ha : a.IsDiscrete) (hb : b.IsDiscrete) :
    a.matches? b = true ↔ a = b := by
  rw [matches?, Bool.and_eq_true, same_iff_of_isDiscrete ha hb, beq_iff_eq]
  exact ⟨And.right, fun h => ⟨congrArg digest h, h⟩⟩

theorem allMatch_iff_of_isDiscrete {as bs : List Value} (has : ∀ a ∈ as, a.IsDiscrete)
    (hbs : ∀ b ∈ bs, b.IsDiscrete) : allMatch as bs = true ↔ as = bs := by
  induction as generalizing bs with
  | nil => cases bs <;> simp [allMatch]
  | cons a as ih =>
    cases bs with
    | nil => simp [allMatch]
    | cons b bs =>
      rw [List.forall_mem_cons] at has hbs
      rw [allMatch, Bool.and_eq_true, matches?_iff_of_isDiscrete has.1 hbs.1, ih has.2 hbs.2,
        List.cons.injEq]

theorem beq_iff_of_isDiscrete {as bs : List Value} (has : ∀ a ∈ as, a.IsDiscrete)
    (hbs : ∀ b ∈ bs, b.IsDiscrete) : (as == bs) = true ↔ as = bs := by
  induction as generalizing bs with
  | nil => cases bs <;> simp
  | cons a as ih =>
    cases bs with
    | nil => simp
    | cons b bs =>
      rw [List.forall_mem_cons] at has hbs
      have hfirst : (a == b) = true ↔ a = b := same_iff_of_isDiscrete has.1 hbs.1
      rw [List.cons_beq_cons, Bool.and_eq_true, hfirst, ih has.2 hbs.2, List.cons.injEq]

/-- **First occurrences are their own first occurrences.** -/
theorem firstOccurrences_firstOccurrences (keys : List (List Value)) :
    firstOccurrences (firstOccurrences keys) = firstOccurrences keys :=
  foldl_addNew_foldl_addNew allMatch keys

theorem mem_of_mem_firstOccurrences {keys : List (List Value)} {key : List Value}
    (h : key ∈ firstOccurrences keys) : key ∈ keys :=
  (mem_of_mem_foldl_addNew h).resolve_left List.not_mem_nil

/-- Of one list of values again and again, one is left if it matches itself. -/
theorem firstOccurrences_replicate (n : Nat) (key : List Value) :
    firstOccurrences (List.replicate n key) =
      List.replicate (if allMatch key key then min 1 n else n) key := by
  by_cases hself : allMatch key key = true
  · have hkept (m : Nat) : (List.replicate m key).foldl addKey [key] = [key] := by
      induction m with
      | zero => rfl
      | succ m ih =>
        rw [List.replicate_succ, List.foldl_cons, addKey, if_pos (by simp [hself]), ih]
    rw [if_pos hself]
    cases n with
    | zero => rfl
    | succ n =>
      rw [Nat.min_eq_left (by omega), firstOccurrences, List.replicate_succ, List.foldl_cons]
      exact hkept n
  · rw [if_neg hself]
    refine foldl_addNew_of_pairwise (List.pairwise_replicate.mpr (Or.inr ?_))
    exact Bool.eq_false_iff.mpr hself

/-- **First occurrences of lists of such values** are what is left without repetitions. -/
theorem firstOccurrences_eq_eraseDups {keys : List (List Value)}
    (h : ∀ key ∈ keys, ∀ v ∈ key, v.IsDiscrete) : firstOccurrences keys = keys.eraseDups := by
  have hfold (kept : List (List Value)) (hkept : ∀ key ∈ kept, ∀ v ∈ key, v.IsDiscrete) :
      keys.foldl addKey kept =
        kept ++ (keys.filter fun key => !kept.any (allMatch · key)).eraseDups := by
    induction keys generalizing kept with
    | nil => simp
    | cons key rest ih =>
      rw [List.forall_mem_cons] at h
      rw [List.foldl_cons]
      by_cases hany : kept.any (allMatch · key) = true
      · rw [addKey, if_pos hany, ih h.2 kept hkept, List.filter_cons_of_neg (by simp [hany])]
      · have hmore : ∀ k ∈ kept ++ [key], ∀ v ∈ k, v.IsDiscrete := by
          intro k hk
          rcases List.mem_append.mp hk with hk | hk
          · exact hkept k hk
          · exact List.mem_singleton.mp hk ▸ h.1
        rw [addKey, if_neg hany, ih h.2 _ hmore, List.filter_cons_of_pos (by simp [hany]),
          List.eraseDups_cons, List.append_assoc, List.singleton_append, List.filter_filter]
        -- A later key is left out if it matches an earlier one, or the new one.
        refine congrArg (fun l => kept ++ key :: List.eraseDups l)
          (List.filter_congr fun k hk => ?_)
        have hmatch : allMatch key k = (k == key) := by
          rw [Bool.eq_iff_iff, allMatch_iff_of_isDiscrete h.1 (h.2 k hk),
            beq_iff_of_isDiscrete (h.2 k hk) h.1, eq_comm]
        rw [List.any_append, List.any_cons, List.any_nil, Bool.or_false, hmatch, Bool.not_or,
          Bool.and_comm]
  have hall := hfold [] (List.forall_mem_nil _)
  exact hall.trans (congrArg List.eraseDups (List.filter_eq_self.mpr fun _ _ => rfl))

end Value

/-! ## Own items -/

namespace Header

/-- Values for items, the same ones for items with one identity. -/
structure Fits (items : List Item) (values : List Value) : Prop where
  length : values.length = items.length
  copies : ∀ (m n : Nat) (i j : Item), items[m]? = some i → items[n]? = some j → i.id = j.id →
    values[m]? = values[n]?

/-- Any values fit items with different identities. -/
theorem fits_of_nodup {items : List Item} (h : (items.map Item.id).Nodup) {values : List Value}
    (hlength : values.length = items.length) : Fits items values := by
  refine ⟨hlength, fun m n i j hi hj hid => ?_⟩
  obtain ⟨hm, rfl⟩ := List.getElem?_eq_some_iff.mp hi
  have hsame : (items.map Item.id)[m]? = (items.map Item.id)[n]? := by
    rw [List.getElem?_map, List.getElem?_map, hi, hj, Option.map_some, Option.map_some, hid]
  rw [(List.getElem?_inj (by simpa using hm) h).mp hsame]

theorem fits_map {items : List Item} {f : Item → Value}
    (h : ∀ i ∈ items, ∀ j ∈ items, i.id = j.id → f i = f j) : Fits items (items.map f) := by
  refine ⟨List.length_map f, fun m n i j hi hj hid => ?_⟩
  rw [List.getElem?_map, List.getElem?_map, hi, hj, Option.map_some, Option.map_some,
    h i (List.mem_of_getElem? hi) j (List.mem_of_getElem? hj) hid]

/-- An item of a header is found at the first place of its identity. -/
theorem exists_find? {items : List Item} {i : Item} (hi : i ∈ items) (more : List Item) :
    ∃ n j, find? (items ++ more) i = some n ∧ items[n]? = some j ∧ j.id = i.id := by
  obtain ⟨n, hn⟩ := Option.isSome_iff_exists.mp
    (List.findIdx?_isSome.trans (List.any_eq_true.mpr ⟨i, hi, beq_self_eq_true i.id⟩) :
      (items.findIdx? fun c => c.id == i.id).isSome = true)
  obtain ⟨hlt, hid, -⟩ := List.findIdx?_eq_some_iff_getElem.mp hn
  refine ⟨n, items[n], ?_, List.getElem?_eq_getElem hlt, beq_iff_eq.mp hid⟩
  unfold find?
  rw [List.findIdx?_append, hn]
  rfl

end Header

namespace Row

/-- A row behind whose cells there may be more has the value of each of its items. -/
theorem evaluate?_of_fits {items : List Item} {values : List Value} (h : Header.Fits items values)
    (more : List Item) (extra : List Value) {n : Nat} {i : Item} (hi : items[n]? = some i)
    (styles : Option (List (Option Style))) :
    evaluate? ⟨items ++ more, values ++ extra, styles⟩ i = values[n]? := by
  obtain ⟨m, j, hfind, hj, hid⟩ := Header.exists_find? (List.mem_of_getElem? hi) more
  obtain ⟨hm, -⟩ := List.getElem?_eq_some_iff.mp hj
  have hlt : m < values.length := h.length ▸ hm
  rw [evaluate?_of_find? hfind, ← h.copies m n j i hj hi hid]
  show some (((values ++ extra)[m]?).getD .null) = values[m]?
  rw [List.getElem?_append_left hlt, List.getElem?_eq_getElem hlt]
  rfl

/-- The values of the items of a row are its cells. -/
theorem map_evaluate?_of_fits {items : List Item} {values : List Value}
    (h : Header.Fits items values) (more : List Item) (extra : List Value)
    (styles : Option (List (Option Style))) :
    items.map (evaluate? ⟨items ++ more, values ++ extra, styles⟩) = values.map some := by
  refine List.ext_getElem? fun n => ?_
  rw [List.getElem?_map, List.getElem?_map]
  cases hi : items[n]? with
  | none =>
    have hnone : values[n]? = none := by
      rw [List.getElem?_eq_none_iff] at hi ⊢
      exact h.length ▸ hi
    rw [hnone]
    rfl
  | some i =>
    have hvalue := evaluate?_of_fits h more extra hi styles
    obtain ⟨hn, -⟩ := List.getElem?_eq_some_iff.mp hi
    rw [Option.map_some, hvalue, List.getElem?_eq_getElem (h.length ▸ hn)]
    rfl

theorem map_evaluate?_self {items : List Item} {values : List Value}
    (h : Header.Fits items values) (styles : Option (List (Option Style))) :
    items.map (evaluate? ⟨items, values, styles⟩) = values.map some := by
  have hown := map_evaluate?_of_fits h [] [] styles
  rwa [List.append_nil, List.append_nil] at hown

end Row

namespace RowSet

open Plan

/-! ## Folding rows -/

section Folding

variable {σ : Type} {d : RowSet} {rows : List Row} {f : σ → Row → Except QueryError σ}
  {start result : σ} {l : Ledger}

theorem fold_eq_of_yields (hd : d.Yields rows) (start : σ) :
    (d.stream.fold f start).2 = rows.foldlM f start := by
  rw [Stream.fold_eq_foldlM, hd, List.foldlM_map]
  rfl

theorem gives_foldRows (hd : d.Yields rows) (hf : rows.foldlM f start = .ok result)
    {post : σ → Ledger → Prop} (h : ∀ l' : Ledger, l'.nextItem = l.nextItem → post result l') :
    (d.foldRows f start).Gives l post := by
  refine gives_bind (gives_recordPulls fun l' hl' => gives_bind (gives_close fun l'' hl'' => ?_))
  exact gives_lift ((fold_eq_of_yields hd start).trans hf) (h l'' (hl''.trans hl'))

end Folding

/-! ## Groups -/

theorem keys_addToGroups (key contributed : List Value) (groups : List Group) :
    (addToGroups key contributed groups).map Group.key =
      Value.addKey (groups.map Group.key) key := by
  induction groups with
  | nil => rfl
  | cons g rest ih =>
    unfold addToGroups Value.addKey
    by_cases hmatch : Value.allMatch g.key key = true
    · simp [hmatch]
    · rw [if_neg hmatch, List.map_cons, ih, List.map_cons, List.any_cons, Bool.eq_false_iff.mpr hmatch,
        Bool.false_or]
      unfold Value.addKey
      split <;> rfl

/-- **Grouping keeps the keys that match no earlier one**, as long as every row has a key and
contributes to the aggregates. -/
theorem foldlM_groupRow {groupBy aggregates : List Item} {rows : List Row}
    {key : Row → List Value} (hkey : ∀ row ∈ rows, groupKey groupBy row = .ok (key row))
    (hcontributed : ∀ row ∈ rows, ∃ values, contributions aggregates row = .ok values)
    (start : List Group) : ∃ groups, rows.foldlM (groupRow groupBy aggregates) start = .ok groups ∧
      groups.map Group.key = (rows.map key).foldl Value.addKey (start.map Group.key) := by
  induction rows generalizing start with
  | nil => exact ⟨start, rfl, rfl⟩
  | cons row rest ih =>
    rw [List.forall_mem_cons] at hkey hcontributed
    obtain ⟨contributed, hfirst⟩ := hcontributed.1
    obtain ⟨groups, hgroups, hkeys⟩ :=
      ih hkey.2 hcontributed.2 (addToGroups (key row) contributed start)
    refine ⟨groups, ?_, ?_⟩
    · rw [List.foldlM_cons, groupRow, hkey.1, hfirst]
      exact hgroups
    · rw [hkeys, keys_addToGroups, List.map_cons, List.foldl_cons]

/-- The key of a row is the values that it has for the items to group by. -/
theorem groupKey_eq_ok_iff {groupBy : List Item} {row : Row} {key : List Value} :
    groupKey groupBy row = .ok key ↔ groupBy.map row.evaluate? = key.map some := by
  unfold groupKey
  constructor
  · intro h
    induction groupBy generalizing key with
    | nil =>
      cases h
      rfl
    | cons i rest ih =>
      rw [List.mapM_cons] at h
      obtain ⟨v, hv, h⟩ := exists_of_bind_eq_ok h
      obtain ⟨more, hmore, h⟩ := exists_of_bind_eq_ok h
      cases h
      split at hv
      next w hw =>
        cases hv
        rw [List.map_cons, List.map_cons, hw, ih hmore]
      next => cases hv
  · intro h
    induction groupBy generalizing key with
    | nil =>
      cases key with
      | nil => rfl
      | cons v key => cases h
    | cons i rest ih =>
      cases key with
      | nil => cases h
      | cons v key =>
        rw [List.map_cons, List.map_cons, List.cons.injEq] at h
        rw [List.mapM_cons, h.1, ih h.2]
        rfl

theorem contributions_of_foldlM_groupRow {groupBy aggregates : List Item} {rows : List Row}
    {start groups : List Group} (h : rows.foldlM (groupRow groupBy aggregates) start = .ok groups) :
    ∀ row ∈ rows, ∃ values, contributions aggregates row = .ok values := by
  induction rows generalizing start with
  | nil => exact List.forall_mem_nil _
  | cons row rest ih =>
    rw [List.foldlM_cons] at h
    obtain ⟨next, hrow, hrest⟩ := exists_of_bind_eq_ok h
    obtain ⟨key, -, hrow⟩ := exists_of_bind_eq_ok hrow
    obtain ⟨contributed, hcontributed, -⟩ := exists_of_bind_eq_ok hrow
    exact List.forall_mem_cons.mpr ⟨⟨contributed, hcontributed⟩, ih hrest⟩

/-- A row contributes to aggregates if it has what they read; the count of all rows reads nothing. -/
theorem exists_contributions_iff {aggregates : List Item} {row : Row} :
    (∃ values, contributions aggregates row = .ok values) ↔
      ∀ a ∈ aggregates, a.isCountAll = true ∨ Header.isReadable row.header a.bare = true := by
  have hone (a : Item) : (∃ v, contribution a row = .ok v) ↔
      a.isCountAll = true ∨ Header.isReadable row.header a.bare = true := by
    unfold contribution
    rw [← Row.isSome_evaluate?_iff]
    cases a.isCountAll <;> cases row.evaluate? a.bare <;> simp
  unfold contributions
  induction aggregates with
  | nil => exact ⟨fun _ => List.forall_mem_nil _, fun _ => ⟨[], rfl⟩⟩
  | cons a rest ih =>
    rw [List.forall_mem_cons, List.mapM_cons]
    refine Iff.trans ?_ (and_congr (hone a) ih)
    constructor
    · rintro ⟨values, h⟩
      obtain ⟨v, hv, h⟩ := exists_of_bind_eq_ok h
      obtain ⟨more, hmore, -⟩ := exists_of_bind_eq_ok h
      exact ⟨⟨v, hv⟩, more, hmore⟩
    · rintro ⟨⟨v, hv⟩, more, hmore⟩
      rw [hv, hmore]
      exact ⟨v :: more, rfl⟩

/-! ## Unique rows -/

/-- **Items at the front of rows are selected by cutting off the rest.** -/
theorem gives_selection_front {d : RowSet} {items more : List Item} {rows : List Row}
    (hheader : d.header = items ++ more) (hd : d.Yields rows)
    (hrows : ∀ row ∈ rows, ∃ values extra, Header.Fits items values ∧
      extra.length = more.length ∧ row = ⟨items ++ more, values ++ extra, none⟩) (l : Ledger) :
    (d.selection items).Gives l fun d' l' => l' = l ∧ d'.header = items ∧
      d'.Yields (rows.map fun row => ⟨items, row.values.take items.length, none⟩) := by
  have hfound : ∀ i ∈ items, ∃ n, Header.find? d.header i = some n := by
    intro i hi
    obtain ⟨n, j, hn, -⟩ := Header.exists_find? hi more
    rw [hheader]
    exact ⟨n, hn⟩
  by_cases hlayout : Item.sameLayout d.header items = true
  · -- Then nothing is behind the items.
    have hlength := (Item.sameLayout_iff.mp hlayout).length_eq
    obtain rfl : more = [] := by
      rw [← List.length_eq_zero_iff]
      rw [hheader, List.length_append] at hlength
      omega
    rw [List.append_nil] at hheader
    unfold selection
    rw [if_pos hlayout]
    refine gives_pure ⟨rfl, hheader, ?_⟩
    have hsame : (rows.map fun row => (⟨items, row.values.take items.length, none⟩ : Row)) = rows := by
      refine (List.map_congr_left fun row hrow => ?_).trans (List.map_id rows)
      obtain ⟨values, extra, hfits, hextra, rfl⟩ := hrows row hrow
      obtain rfl : extra = [] := List.length_eq_zero_iff.mp hextra
      simp [← hfits.length]
    rwa [hsame]
  · rw [selection_of_find? hlayout hfound]
    refine gives_pure ⟨rfl, rfl, ?_⟩
    unfold projected Yields
    rw [if_neg hlayout, Stream.outcomes_map, hd, List.map_map, List.map_map]
    refine List.map_congr_left fun row hrow => ?_
    obtain ⟨values, extra, hfits, -, rfl⟩ := hrows row hrow
    have hvalues := Row.valuesOf_eq_ok_iff.mpr (Row.map_evaluate?_of_fits hfits more extra none)
    show Row.project _ items = .ok ⟨items, (values ++ extra).take items.length, none⟩
    unfold Row.project
    rw [hvalues, ← hfits.length, List.take_left]
    rfl

/-- A data set with the header of another one, and the values of its rows without repetitions. -/
structure IsUniqueOf (d' d : RowSet) (rows : List Row) : Prop where
  header : d'.header = d.header
  rows : d'.Yields ((rows.map Row.values).eraseDups.map fun values => ⟨d.header, values, none⟩)

/-- The aggregates in a header can be computed over the rows under it as if they were selected anew:
each is the count of all rows, or what it reads is at hand. -/
def CanRegroup (d : RowSet) (rows : List Row) : Prop :=
  ∃ aggregates, aggregatesOf d.header = .ok aggregates ∧ ∀ a ∈ aggregates, a.isCountAll = true ∨
    ∀ row ∈ rows, Header.isReadable row.header a.bare = true ∧
      Header.isReadable d.header a.bare = true

theorem values_map_rows (header : List Item) (values : List (List Value)) :
    (values.map fun v => (⟨header, v, none⟩ : Row)).map Row.values = values := by
  rw [List.map_map]
  exact List.map_id values

section Unique

variable {d : RowSet} {rows : List Row} (hd : d.Yields rows)

include hd

/-- **Unique rows are the first occurrences of the keys that rows have for the header**, if the
aggregates of the header can be computed once more. -/
theorem gives_distinct {key : Row → List Value}
    (hkey : ∀ row ∈ rows, d.header.map row.evaluate? = (key row).map some)
    (hfits : ∀ row ∈ rows, Header.Fits d.header (key row)) {aggregates : List Item}
    (haggregates : aggregatesOf d.header = .ok aggregates)
    (hcontributed : ∀ row ∈ rows, ∃ values, contributions aggregates row = .ok values)
    (l : Ledger) : d.distinct.Gives l fun d' l' => l'.nextItem = l.nextItem ∧
      d'.header = d.header ∧ d'.Yields
        ((Value.firstOccurrences (rows.map key)).map fun k => ⟨d.header, k, none⟩) := by
  obtain ⟨groups, hgroups, hkeys⟩ :=
    foldlM_groupRow (fun row hrow => groupKey_eq_ok_iff.mpr (hkey row hrow)) hcontributed []
  have hgroup : ∀ g ∈ groups, Header.Fits d.header g.key := by
    intro g hg
    have hmem : g.key ∈ Value.firstOccurrences (rows.map key) := by
      rw [Value.firstOccurrences, ← List.map_nil, ← hkeys]
      exact List.mem_map_of_mem hg
    obtain ⟨row, hrow, heq⟩ := List.mem_map.mp (Value.mem_of_mem_firstOccurrences hmem)
    exact heq ▸ hfits row hrow
  have hreadable : (d.header.find? fun i => !Header.isReadable (d.header ++ aggregates) i) = none := by
    rw [List.find?_eq_none]
    intro i hi
    obtain ⟨n, j, hn, -⟩ := Header.exists_find? hi aggregates
    simp [Header.isReadable, Header.resolve?, hn]
  -- Groups have the header and the aggregates behind it, which the selection cuts off again.
  unfold distinct grouped
  rw [haggregates]
  dsimp only
  rw [hreadable]
  refine gives_bind (gives_foldRows hd hgroups fun l' hl' => ?_)
  refine (gives_selection_front (d := ofRows (d.header ++ aggregates) _) rfl
    (yields_ofRows _ _) ?_ l').mono ?_
  · intro row hrow
    obtain ⟨g, hg, rfl⟩ := List.mem_map.mp hrow
    exact ⟨g.key, _, hgroup g hg, by simp [aggregateAll], rfl⟩
  rintro d' _ ⟨rfl, hheader, hrows⟩
  refine ⟨hl', hheader, ?_⟩
  rw [Value.firstOccurrences, ← List.map_nil, ← hkeys, List.map_map]
  rw [List.map_map] at hrows
  have hcut : (groups.map ((fun row : Row => (⟨d.header, row.values.take d.header.length, none⟩ : Row)) ∘
      (·.toRow (d.header ++ aggregates) aggregates))) =
        groups.map ((fun k => (⟨d.header, k, none⟩ : Row)) ∘ Group.key) := by
    refine List.map_congr_left fun g hg => ?_
    show (⟨d.header, (g.key ++ _).take d.header.length, none⟩ : Row) = ⟨d.header, g.key, none⟩
    rw [← (hgroup g hg).length, List.take_left]
  rwa [hcut] at hrows

/-- Unique rows are not found at all unless the aggregates of the header can be computed once more. -/
theorem contributions_of_gives_distinct {l : Ledger} {post : RowSet → Ledger → Prop}
    (h : d.distinct.Gives l post) : ∃ aggregates, aggregatesOf d.header = .ok aggregates ∧
      ∀ row ∈ rows, ∃ values, contributions aggregates row = .ok values := by
  unfold distinct grouped at h
  cases haggregates : aggregatesOf d.header with
  | error e =>
    rw [haggregates] at h
    obtain ⟨_, _, -, hfailed⟩ := gives_of_gives_bind h
    exact absurd hfailed (not_gives_throw e)
  | ok aggregates =>
    rw [haggregates] at h
    dsimp only at h
    refine ⟨aggregates, rfl, ?_⟩
    split at h
    next loose _ =>
      obtain ⟨_, _, -, hfailed⟩ := gives_of_gives_bind h
      exact absurd hfailed (not_gives_throw _)
    next =>
      obtain ⟨groups, hgroups, -⟩ := (gives_of_gives_bind h).answer
      rw [foldRows_answer, fold_eq_of_yields hd] at hgroups
      exact contributions_of_foldlM_groupRow hgroups

/-- Rows that show their own cells under the header are left without repetitions. -/
theorem gives_distinct_unique (hids : (d.header.map Item.id).Nodup)
    (hrows : ∀ row ∈ rows, d.header.map row.evaluate? = row.values.map some)
    (hcells : ∀ row ∈ rows, ∀ v ∈ row.values, v.IsDiscrete) {aggregates : List Item}
    (haggregates : aggregatesOf d.header = .ok aggregates)
    (hcontributed : ∀ row ∈ rows, ∃ values, contributions aggregates row = .ok values)
    (l : Ledger) : d.distinct.Gives l fun d' _ => d'.IsUniqueOf d rows := by
  have hfits : ∀ row ∈ rows, Header.Fits d.header row.values := by
    intro row hrow
    have hlength : row.values.length = d.header.length := by
      simpa using (congrArg List.length (hrows row hrow)).symm
    exact Header.fits_of_nodup hids hlength
  refine (gives_distinct hd hrows hfits haggregates hcontributed l).mono ?_
  rintro d' l' ⟨-, hheader, hyields⟩
  rw [Value.firstOccurrences_eq_eraseDups (List.forall_mem_map.mpr hcells)] at hyields
  exact ⟨hheader, hyields⟩

/-- **Unique rows are the first occurrences of rows, and nothing changes when they are taken again,
exactly if the aggregates in the header can be computed anew.**  Every row has under the header its
own cells, of kinds in which each value has one spelling. -/
theorem distinct_first_occurrences_iff (hids : (d.header.map Item.id).Nodup)
    (hrows : ∀ row ∈ rows, d.header.map row.evaluate? = row.values.map some)
    (hcells : ∀ row ∈ rows, ∀ v ∈ row.values, v.IsDiscrete) (l : Ledger) :
    (d.distinct.Gives l fun d' l' => d'.IsUniqueOf d rows ∧
      d'.distinct.Gives l' fun d'' _ => d''.IsUniqueOf d rows) ↔ d.CanRegroup rows := by
  have hkeys : ∀ key ∈ rows.map Row.values, ∀ v ∈ key, v.IsDiscrete :=
    List.forall_mem_map.mpr hcells
  -- The rows that are left have the header and the values of one of the rows.
  have hkept : ∀ row ∈ (rows.map Row.values).eraseDups.map
      fun k => (⟨d.header, k, none⟩ : Row), ∃ first ∈ rows, row = ⟨d.header, first.values, none⟩ := by
    intro row hrow
    obtain ⟨key, hkey, rfl⟩ := List.mem_map.mp hrow
    rw [← Value.firstOccurrences_eq_eraseDups hkeys] at hkey
    obtain ⟨first, hfirst, rfl⟩ := List.mem_map.mp (Value.mem_of_mem_firstOccurrences hkey)
    exact ⟨first, hfirst, rfl⟩
  constructor
  · intro h
    obtain ⟨aggregates, haggregates, hcontributed⟩ := contributions_of_gives_distinct hd h
    obtain ⟨d', l', -, hfirst, hagain⟩ := h
    obtain ⟨again, hsame, hcontributedAgain⟩ := contributions_of_gives_distinct hfirst.rows hagain
    rw [hfirst.header, haggregates] at hsame
    cases hsame
    refine ⟨aggregates, haggregates, fun a ha => or_iff_not_imp_left.mpr fun hnot row hrow => ?_⟩
    -- Some row is left where there is one, and that row has the header.
    obtain ⟨values, hvalues⟩ : ∃ values, values ∈ (rows.map Row.values).eraseDups := by
      cases hkeep : rows.map Row.values with
      | nil => exact absurd (hkeep ▸ List.mem_map_of_mem hrow) List.not_mem_nil
      | cons first rest => exact ⟨first, by rw [List.eraseDups_cons]; exact List.mem_cons_self⟩
    have hread := exists_contributions_iff.mp (hcontributed row hrow) a ha
    have hreadAgain := exists_contributions_iff.mp
      (hcontributedAgain _ (List.mem_map_of_mem hvalues)) a ha
    exact ⟨hread.resolve_left hnot, hreadAgain.resolve_left hnot⟩
  · rintro ⟨aggregates, haggregates, hread⟩
    have hcontributed : ∀ row ∈ rows, ∃ values, contributions aggregates row = .ok values :=
      fun row hrow => exists_contributions_iff.mpr fun a ha =>
        (hread a ha).imp_right fun h => (h row hrow).1
    refine (gives_distinct_unique hd hids hrows hcells haggregates hcontributed l).mono ?_
    intro d' l' hfirst
    refine ⟨hfirst, ?_⟩
    have hshown : ∀ row ∈ (rows.map Row.values).eraseDups.map fun k => (⟨d.header, k, none⟩ : Row),
        d'.header.map row.evaluate? = row.values.map some := by
      intro row hrow
      obtain ⟨first, hmem, rfl⟩ := hkept row hrow
      have hlength : first.values.length = d.header.length := by
        simpa using (congrArg List.length (hrows first hmem)).symm
      rw [hfirst.header]
      exact Row.map_evaluate?_self (Header.fits_of_nodup hids hlength) none
    have hcellsAgain : ∀ row ∈ (rows.map Row.values).eraseDups.map
        fun k => (⟨d.header, k, none⟩ : Row), ∀ v ∈ row.values, v.IsDiscrete := by
      intro row hrow
      obtain ⟨first, hmem, rfl⟩ := hkept row hrow
      exact hcells first hmem
    have hcontributedAgain : ∀ row ∈ (rows.map Row.values).eraseDups.map
        fun k => (⟨d.header, k, none⟩ : Row), ∃ v, contributions aggregates row = .ok v := by
      intro row hrow
      obtain ⟨first, hmem, rfl⟩ := hkept row hrow
      exact exists_contributions_iff.mpr fun a ha =>
        (hread a ha).imp_right fun h => (h first hmem).2
    refine (gives_distinct_unique hfirst.rows (hfirst.header ▸ hids) hshown hcellsAgain
      (hfirst.header ▸ haggregates) hcontributedAgain l').mono fun d'' _ hagain => ?_
    have honce : (rows.map Row.values).eraseDups.eraseDups = (rows.map Row.values).eraseDups := by
      have hkeysAgain : ∀ key ∈ (rows.map Row.values).eraseDups, ∀ v ∈ key, v.IsDiscrete := by
        intro key hkey
        exact hcellsAgain ⟨d.header, key, none⟩ (List.mem_map_of_mem hkey)
      rw [← Value.firstOccurrences_eq_eraseDups hkeysAgain,
        ← Value.firstOccurrences_eq_eraseDups hkeys, Value.firstOccurrences_firstOccurrences]
    have hsame := hagain.rows
    rw [values_map_rows, honce, hfirst.header] at hsame
    exact ⟨hagain.header.trans hfirst.header, hsame⟩

end Unique

/-- A column and the count of all rows, over one row twice and the same number as a text. -/
def countedHeader : List Item := [Item.ofColumn 1 ⟨"x", "t", none, false⟩ none, Item.countAll 2]

/-- The rows under it. -/
def countedRows : List Row :=
  [⟨countedHeader, [.integer 7, .integer 3], none⟩, ⟨countedHeader, [.integer 7, .integer 3], none⟩,
    ⟨countedHeader, [.text "7", .integer 3], none⟩]

/-- The count of all rows is computed anew, and the text is another value. -/
theorem distinct_countedRows :
    (ofRows countedHeader countedRows).distinct.Gives {} fun d' _ => d'.Yields
      [⟨countedHeader, [.integer 7, .integer 3], none⟩,
        ⟨countedHeader, [.text "7", .integer 3], none⟩] := by
  have hshown : ∀ row ∈ countedRows, countedHeader.map row.evaluate? = row.values.map some := by
    simp only [countedRows, List.forall_mem_cons]
    exact ⟨rfl, rfl, rfl, List.forall_mem_nil _⟩
  have hdiscrete : ∀ row ∈ countedRows, ∀ v ∈ row.values, v.IsDiscrete := by
    simp [countedRows, Value.IsDiscrete, Value.integer]
  have hregroup : (ofRows countedHeader countedRows).CanRegroup countedRows :=
    ⟨[Item.countAll 2], rfl, by simp [Item.countAll, Item.isCountAll, Item.plain]⟩
  refine ((distinct_first_occurrences_iff (yields_ofRows countedHeader countedRows) (by decide)
    hshown hdiscrete {}).mpr hregroup).mono fun d' _ h => ?_
  exact h.1.rows

/-- A sum, as a grouping leaves it: the column that it was computed from is gone. -/
def summedHeader : List Item := [Item.ofFunction 1 .sum ⟨"x", "t", none, false⟩ none]

/-- The one row under a sum is not found to be unique. -/
theorem not_distinct_summedRow :
    (summedHeader.map Item.id).Nodup ∧
      summedHeader.map (Row.evaluate? ⟨summedHeader, [.integer 12], none⟩) = [some (.integer 12)] ∧
      (Value.integer 12).IsDiscrete ∧
      (ofRows summedHeader [⟨summedHeader, [.integer 12], none⟩]).distinct.answer {} =
        .error (.aggregateInputMissing "SUM(x)") :=
  ⟨by decide, rfl, trivial, rfl⟩

end RowSet

end DocQuery
