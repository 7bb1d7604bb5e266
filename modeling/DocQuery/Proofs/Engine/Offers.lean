import DocQuery.Engine.Execution
import DocQuery.Proofs.Grammar.Reference
import DocQuery.Proofs.Query.Identities
import DocQuery.Proofs.Query.Items

/-!
# DocQuery.Proofs.Engine.Offers — which items a from item is asked for

`SELECT *` over several from items gathers all that they offer, and each from item is asked for what
it claims of that (`FromItem.claims`): a table for the columns under its label, a subquery for the
references under its label, or for those under none if it has none.  As long as labels tell the from
items apart, each claims what it offers itself and nothing else (`FromItem.filter_claims_offered`).
-/

namespace DocQuery

open Engine (ownedColumn? refersInto)

namespace FromItem

variable {f g : FromItem} {sources : List FromItem} {first : Nat} {i : Item}

/-! ## Items on offer -/

/-- What the first from item offers comes first, and the identities go on behind it. -/
theorem offeredItems_cons (first : Nat) (f : FromItem) (rest : List FromItem) :
    offeredItems first (f :: rest) = offeredItems first [f] ++
      offeredItems (first + (offeredItems first [f]).length) rest := by
  unfold offeredItems
  simp only [List.flatMap_cons, List.flatMap_nil, List.append_nil, List.flatMap_append,
    List.zipIdx_append, List.map_append, List.length_map, List.length_zipIdx]

theorem id_of_mem_offers {make : Nat → Item} (h : make ∈ f.offers) (id : Nat) :
    (make id).id = id ∧ (make id).function = none := by
  cases f with
  | table t aliasName =>
    obtain ⟨c, -, rfl⟩ := List.mem_map.mp h
    exact ⟨rfl, rfl⟩
  | subquery q aliasName =>
    obtain ⟨x, -, rfl⟩ := List.mem_map.mp h
    exact ⟨rfl, rfl⟩
  | expression text aliasName => cases h
  | join kind left right conditions aliasName => cases h

/-- The items on offer have the identities from one on, in their order. -/
theorem map_id_offeredItems (first : Nat) (sources : List FromItem) :
    (offeredItems first sources).map Item.id =
      List.range' first (offeredItems first sources).length := by
  have hids : ∀ p ∈ ((sources.flatMap leaves).flatMap offers).zipIdx first,
      (p.1 p.2).id = p.2 := by
    intro p hp
    obtain ⟨leaf, -, hmake⟩ := List.mem_flatMap.mp (List.fst_mem_of_mem_zipIdx hp)
    exact (id_of_mem_offers hmake p.2).1
  unfold offeredItems
  rw [List.map_map, List.length_map, List.length_zipIdx, ← List.zipIdx_map_snd]
  exact List.map_congr_left hids

theorem nodup_offeredItems (first : Nat) (sources : List FromItem) :
    ((offeredItems first sources).map Item.id).Nodup := by
  rw [map_id_offeredItems]
  exact List.nodup_range'

theorem id_of_mem_offeredItems (h : i ∈ offeredItems first sources) :
    first ≤ i.id ∧ i.id < first + (offeredItems first sources).length := by
  have hid := List.mem_map_of_mem (f := Item.id) h
  rw [map_id_offeredItems, List.mem_range'_1] at hid
  exact hid

/-- Nothing on offer has a function. -/
theorem function_of_mem_offeredItems (h : i ∈ offeredItems first sources) : i.function = none := by
  unfold offeredItems at h
  obtain ⟨⟨make, id⟩, hmem, rfl⟩ := List.mem_map.mp h
  obtain ⟨leaf, -, hmake⟩ := List.mem_flatMap.mp (List.fst_mem_of_mem_zipIdx hmem)
  exact (id_of_mem_offers hmake id).2

/-! ## Tables and subqueries -/

/-- Whether a from item is a table or a subquery. -/
def isTableOrSubquery : FromItem → Bool
  | .table _ _ | .subquery _ _ => true
  | _ => false

theorem offeredItems_table (t : Table) (aliasName : Option String) (first : Nat) :
    offeredItems first [.table t aliasName] = (t.columns.zipIdx first).map fun (c, id) =>
      Item.ofColumn id c (some (aliasName.getD t.name)) := by
  have hoffers : ([FromItem.table t aliasName].flatMap leaves).flatMap offers =
      t.columns.map fun c id => Item.ofColumn id c (FromItem.table t aliasName).label? :=
    List.append_nil _
  unfold offeredItems
  rw [hoffers, List.zipIdx_map, List.map_map, Grammar.label?_table]
  rfl

theorem offeredItems_subquery (q : Query) (aliasName : Option String) (first : Nat) :
    offeredItems first [.subquery q aliasName] = (q.select.zipIdx first).map fun (x, id) =>
      Item.ofInner id x aliasName := by
  have hoffers : ([FromItem.subquery q aliasName].flatMap leaves).flatMap offers =
      q.select.map fun x id => Item.ofInner id x aliasName := by
    cases aliasName <;> exact List.append_nil _
  unfold offeredItems
  rw [hoffers, List.zipIdx_map, List.map_map]
  rfl

theorem length_offeredItems_table (t : Table) (aliasName : Option String) (first : Nat) :
    (offeredItems first [.table t aliasName]).length = t.columns.length := by
  rw [offeredItems_table, List.length_map, List.length_zipIdx]

theorem length_offeredItems_subquery (q : Query) (aliasName : Option String) (first : Nat) :
    (offeredItems first [.subquery q aliasName]).length = q.select.length := by
  rw [offeredItems_subquery, List.length_map, List.length_zipIdx]

/-- What is offered is a column under the label of a table, or a reference under that of a subquery.
-/
theorem exists_of_mem_offered_table {t : Table} {aliasName : Option String}
    (h : i ∈ offeredItems first [.table t aliasName]) :
    ∃ c ∈ t.columns, i = Item.ofColumn i.id c (some (aliasName.getD t.name)) := by
  rw [offeredItems_table] at h
  obtain ⟨⟨c, id⟩, hmem, rfl⟩ := List.mem_map.mp h
  exact ⟨c, List.fst_mem_of_mem_zipIdx hmem, rfl⟩

theorem exists_of_mem_offered_subquery {q : Query} {aliasName : Option String}
    (h : i ∈ offeredItems first [.subquery q aliasName]) :
    ∃ x ∈ q.select, i = Item.ofInner i.id x aliasName := by
  rw [offeredItems_subquery] at h
  obtain ⟨⟨x, id⟩, hmem, rfl⟩ := List.mem_map.mp h
  exact ⟨x, List.fst_mem_of_mem_zipIdx hmem, rfl⟩

/-- So is what is left of them without repetitions. -/
theorem exists_of_mem_gathered {q : Query} {aliasName : Option String}
    (h : i ∈ (offeredItems first [.subquery q aliasName]).foldl Item.pushNew []) :
    ∃ x ∈ q.select, i = Item.ofInner i.id x aliasName :=
  exists_of_mem_offered_subquery ((Item.mem_of_mem_foldl_pushNew h).resolve_left List.not_mem_nil)

theorem scope_of_mem_offered (h : i ∈ offeredItems first [f]) (hf : f.isTableOrSubquery = true) :
    i.scope = f.label? := by
  cases f with
  | table t aliasName =>
    obtain ⟨c, -, heq⟩ := exists_of_mem_offered_table h
    rw [heq, Grammar.label?_table]
    rfl
  | subquery q aliasName =>
    obtain ⟨x, -, heq⟩ := exists_of_mem_offered_subquery h
    rw [heq]
    cases aliasName <;> rfl
  | expression text aliasName => cases hf
  | join kind left right conditions aliasName => cases hf

/-! ## Claims -/

/-- Whether a from item is asked for an item: a column that it owns, or a reference into it. -/
def claims (f : FromItem) (i : Item) : Bool :=
  match f with
  | .table t aliasName => (ownedColumn? t (aliasName.getD t.name) i).isSome
  | .subquery _ aliasName => refersInto aliasName i
  | _ => false

/-- What denotes the same within a scope is claimed alike. -/
theorem claims_of_sameAs {j : Item} (h : Item.sameAs true i j = true) : f.claims i = f.claims j := by
  have hscope := Item.scope_of_sameAs h
  have hinner : i.inner?.isSome = j.inner?.isSome := by
    rcases Item.inner?_of_sameAs h with ⟨hi, hj⟩ | ⟨x, y, hx, hy, -⟩
    · rw [hi, hj]
    · rw [hx, hy]
      rfl
  cases f with
  | table t aliasName =>
    unfold claims ownedColumn?
    rw [Item.column?_of_sameAs h, hscope]
  | subquery q aliasName =>
    unfold claims refersInto
    rw [hinner, hscope]
  | expression text aliasName => rfl
  | join kind left right conditions aliasName => rfl

/-- What is gathered of the claimed items is what is claimed of the gathered ones. -/
theorem filter_claims_gathered (f : FromItem) (items : List Item) :
    (items.foldl Item.pushNew []).filter f.claims =
      (items.filter f.claims).foldl Item.pushNew [] :=
  filter_foldl_addNew (r := Item.sameAs true) fun _ _ h => claims_of_sameAs h

/-- From items are told apart by their labels: these differ in more than case, and one of the from
items has a label at least. -/
structure ToldApart (f g : FromItem) : Prop where
  labels : ∀ a ∈ f.label?, ∀ b ∈ g.label?, Text.sameName a b = false
  labelled : f.label?.isSome ∨ g.label?.isSome

instance (f g : FromItem) : Decidable (f.ToldApart g) :=
  decidable_of_iff ((∀ a ∈ f.label?, ∀ b ∈ g.label?, Text.sameName a b = false) ∧
    (f.label?.isSome ∨ g.label?.isSome)) ⟨fun h => ⟨h.1, h.2⟩, fun h => ⟨h.1, h.2⟩⟩

theorem ToldApart.symm (h : f.ToldApart g) : g.ToldApart f := by
  refine ⟨fun b hb a ha => ?_, h.labelled.symm⟩
  rw [Text.sameName_comm]
  exact h.labels a ha b hb

theorem ToldApart.label_ne (h : f.ToldApart g) : f.label? ≠ g.label? := by
  intro heq
  obtain ⟨a, ha⟩ := Option.isSome_iff_exists.mp (h.labelled.elim id fun hg => heq ▸ hg)
  have hself := h.labels a ha a (heq ▸ ha)
  rw [Text.sameName_self] at hself
  cases hself

/-- A from item claims what it offers. -/
theorem claims_of_mem_offered (h : i ∈ offeredItems first [f]) (hf : f.isTableOrSubquery = true) :
    f.claims i = true := by
  cases f with
  | table t aliasName =>
    obtain ⟨c, -, heq⟩ := exists_of_mem_offered_table h
    rw [heq]
    simp [claims, ownedColumn?, Item.ofColumn, Item.plain, Item.column?, Text.sameName_self]
  | subquery q aliasName =>
    obtain ⟨x, -, heq⟩ := exists_of_mem_offered_subquery h
    rw [heq]
    cases aliasName with
    | none => rfl
    | some label => exact Text.sameName_self label
  | expression text aliasName => cases hf
  | join kind left right conditions aliasName => cases hf

/-- **A from item claims nothing that one offers which it is told apart from.** -/
theorem not_claims_of_mem_offered (hapart : f.ToldApart g) (h : i ∈ offeredItems first [g])
    (hg : g.isTableOrSubquery = true) : f.claims i = false := by
  have hlabels := hapart.symm.labels
  cases g with
  | table t aliasName =>
    obtain ⟨c, -, heq⟩ := exists_of_mem_offered_table h
    rw [heq]
    cases f with
    | table t' aliasName' =>
      rw [Grammar.label?_table, Grammar.label?_table] at hlabels
      have hdiffers : Text.sameName (aliasName.getD t.name) (aliasName'.getD t'.name) = false :=
        hlabels _ rfl _ rfl
      simp [claims, ownedColumn?, Item.ofColumn, Item.plain, Item.column?, hdiffers]
    | subquery q' aliasName' => rfl
    | expression text aliasName' => rfl
    | join kind left right conditions aliasName' => rfl
  | subquery q aliasName =>
    obtain ⟨x, -, heq⟩ := exists_of_mem_offered_subquery h
    rw [heq]
    cases f with
    | table t' aliasName' => rfl
    | subquery q' aliasName' =>
      cases aliasName with
      | none =>
        cases aliasName' with
        | none => exact absurd rfl hapart.label_ne
        | some label' => rfl
      | some label =>
        cases aliasName' with
        | none => rfl
        | some label' => exact hlabels label rfl label' rfl
    | expression text aliasName' => rfl
    | join kind left right conditions aliasName' => rfl
  | expression text aliasName => cases hg
  | join kind left right conditions aliasName => cases hg

/-- Items are offered by one of the from items. -/
theorem exists_of_mem_offeredItems (h : i ∈ offeredItems first sources) :
    ∃ f ∈ sources, ∃ k, i ∈ offeredItems k [f] := by
  induction sources generalizing first with
  | nil => cases h
  | cons f rest ih =>
    rw [offeredItems_cons] at h
    rcases List.mem_append.mp h with hfirst | hrest
    · exact ⟨f, List.mem_cons_self, first, hfirst⟩
    · obtain ⟨g, hg, k, hk⟩ := ih hrest
      exact ⟨g, List.mem_cons_of_mem f hg, k, hk⟩

/-- What others offer is not claimed. -/
theorem filter_claims_eq_nil (hapart : ∀ g ∈ sources, f.ToldApart g)
    (hkinds : ∀ g ∈ sources, g.isTableOrSubquery = true) :
    (offeredItems first sources).filter f.claims = [] := by
  rw [List.filter_eq_nil_iff]
  intro i hi
  obtain ⟨g, hg, k, hk⟩ := exists_of_mem_offeredItems hi
  simp [not_claims_of_mem_offered (hapart g hg) hk (hkinds g hg)]

theorem filter_claims_other (hapart : f.ToldApart g) (hg : g.isTableOrSubquery = true) :
    (offeredItems first [g]).filter f.claims = [] :=
  filter_claims_eq_nil (List.forall_mem_singleton.mpr hapart) (List.forall_mem_singleton.mpr hg)

theorem filter_claims_own (hf : f.isTableOrSubquery = true) :
    (offeredItems first [f]).filter f.claims = offeredItems first [f] :=
  List.filter_eq_self.mpr fun _ hi => claims_of_mem_offered hi hf

section Apart

variable (hkinds : ∀ f ∈ sources, f.isTableOrSubquery = true)
  (hapart : sources.Pairwise ToldApart)

include hkinds hapart

/-- **Each from item claims what it offers itself**, under identities in their place among all. -/
theorem filter_claims_offered (first : Nat) (hf : f ∈ sources) :
    ∃ k, (offeredItems first sources).filter f.claims = offeredItems k [f] ∧ first ≤ k ∧
      k + (offeredItems k [f]).length ≤ first + (offeredItems first sources).length := by
  induction sources generalizing first with
  | nil => cases hf
  | cons g rest ih =>
    rw [List.forall_mem_cons] at hkinds
    rw [List.pairwise_cons] at hapart
    rw [offeredItems_cons, List.filter_append, List.length_append]
    rcases List.mem_cons.mp hf with rfl | hrest
    · refine ⟨first, ?_, Nat.le_refl first, by omega⟩
      rw [filter_claims_own hkinds.1, filter_claims_eq_nil hapart.1 hkinds.2, List.append_nil]
    · obtain ⟨k, heq, hle, hlength⟩ :=
        ih hkinds.2 hapart.2 (first + (offeredItems first [g]).length) hrest
      refine ⟨k, ?_, by omega, by omega⟩
      rw [filter_claims_other (hapart.1 f hrest).symm hkinds.1, List.nil_append, heq]

/-- What the from items claim, one after the other, is all that they offer. -/
theorem flatMap_filter_claims :
    (sources.flatMap fun f => (offeredItems first sources).filter f.claims) =
      offeredItems first sources := by
  induction sources generalizing first with
  | nil => rfl
  | cons g rest ih =>
    rw [List.forall_mem_cons] at hkinds
    rw [List.pairwise_cons] at hapart
    have hfirst : (offeredItems first (g :: rest)).filter g.claims = offeredItems first [g] := by
      rw [offeredItems_cons, List.filter_append, filter_claims_own hkinds.1,
        filter_claims_eq_nil hapart.1 hkinds.2, List.append_nil]
    have hlater : ∀ f ∈ rest, (offeredItems first (g :: rest)).filter f.claims =
        (offeredItems (first + (offeredItems first [g]).length) rest).filter f.claims := by
      intro f hf
      rw [offeredItems_cons, List.filter_append, filter_claims_other (hapart.1 f hf).symm hkinds.1,
        List.nil_append]
    rw [List.flatMap_cons, hfirst, List.flatMap_congr hlater, ih hkinds.2 hapart.2,
      ← offeredItems_cons]

end Apart

end FromItem

end DocQuery
