import DocQuery.Proofs.Engine.Asking
import DocQuery.Proofs.Engine.Shortcuts
import DocQuery.Proofs.Query.Resolution
import DocQuery.Proofs.Rows.Typing

/-!
# DocQuery.Proofs.Engine.Typing — the types of what a query over tables reads

Where a source reads values of their types for some columns, the data sets of all from items that are
tables or joins of them are typed (`Engine.grows_materializeAll`), and so is what the clauses of a
query make of them.  Planning enters the items that it makes into a registry that only grows
(`Plan.Grows`).
-/

namespace DocQuery

open Plan

/-! ## Plans that enter items -/

namespace Registry

variable {r : Registry} {i : Item}

theorem Flat.lists (h : r.Flat i) : r.Lists i := .intro i h.enters fun x hx => by
  rw [h.inner] at hx
  cases hx

theorem Flat.alike (h : r.Flat i) : Item.Alike (.before r.next) i i := r.fixes i h.lists

theorem isOneToOne_before (r : Registry) : (Pairing.before r.next).IsOneToOne :=
  (Ledger.paired_before r.positive).oneToOne

end Registry

namespace Plan

variable {α β : Type} {r : Registry} {p : Plan α} {post : Registry → α → Prop}

/-- Where the plan begins after the identities of a registry and succeeds, its result has the property
in some later registry, whose identities have been drawn by then. -/
def Grows (r : Registry) (p : Plan α) (post : Registry → α → Prop) : Prop :=
  ∀ l a l', r.next ≤ l.nextItem → p.run l = (.ok a, l') →
    ∃ r' : Registry, r'.Extends r ∧ r'.next ≤ l'.nextItem ∧ post r' a

theorem grows_pure {a : α} (h : post r a) : Grows r (pure a) post := by
  intro l b l' hl hrun
  cases hrun
  exact ⟨r, .refl r, hl, h⟩

theorem Grows.bind {f : α → Plan β} {next : Registry → β → Prop} (h : Grows r p post)
    (hf : ∀ r' a, r'.Extends r → post r' a → Grows r' (f a) next) : Grows r (p >>= f) next := by
  intro l b l' hl hrun
  obtain ⟨a, k, hp, hrest⟩ := run_bind_eq_ok hrun
  obtain ⟨r', hr, hnext, ha⟩ := h l a k hl hp
  obtain ⟨r'', hr', hnext', hb⟩ := hf r' a hr ha k b l' hnext hrest
  exact ⟨r'', hr'.trans hr, hnext', hb⟩

theorem Grows.orElseClosing {cleanup : Plan Unit} (h : Grows r p post) :
    Grows r (p.orElseClosing cleanup) post := fun l a l' hl hrun =>
  h l a l' hl (run_of_orElseClosing hrun)

theorem grows_note (request : Request) : Grows r (note request) fun r' _ => r' = r := by
  intro l past l' hl hrun
  cases hrun
  exact ⟨r, .refl r, hl, rfl⟩

theorem grows_lift {x : Except QueryError α} :
    Grows r (liftM x) fun r' a => r' = r ∧ x = .ok a := by
  intro l a l' hl hrun
  cases x with
  | error e => cases hrun
  | ok b =>
    cases hrun
    exact ⟨r, .refl r, hl, rfl, rfl⟩

/-- A plan that takes back no identity: its result is judged in the registry that it begins with. -/
theorem grows_of_alike {R : Pairing → α → α → Prop} (h : Plan.Alike (.before r.next) R p p)
    (hpost : ∀ l a l', p.run l = (.ok a, l') → post r a) : Grows r p post := by
  intro l a l' hl hrun
  obtain ⟨-, -, -, ⟨hle, -⟩, -⟩ := h l l ((Ledger.paired_before r.positive).mono hl hl)
  rw [hrun] at hle
  exact ⟨r, .refl r, Nat.le_trans hl hle, hpost l a l' hrun⟩

/-- **Columns that become items are entered.** -/
theorem grows_makeItems (r : Registry) (columns : List Column) (scope : Option String) :
    Grows r (makeItems (columns.map fun c id => Item.ofColumn id c scope)) fun r' items =>
      List.Forall₂ (fun c i => r'.Flat i ∧ i = Item.ofColumn i.id c scope) columns items := by
  induction columns generalizing r with
  | nil => exact grows_pure .nil
  | cons c rest ih =>
    unfold makeItems at ih ⊢
    rw [List.map_cons, List.mapM_cons]
    have hfirst : Grows r (do return Item.ofColumn (← drawItem) c scope : Plan Item) fun r' i =>
        r'.Flat i ∧ i = Item.ofColumn i.id c scope := by
      intro l i l' hl hrun
      cases hrun
      -- Identities that were drawn in between belong to items that are not entered.
      let drawn := r.drawnUpTo l.nextItem hl
      let i := Item.ofColumn l.nextItem c scope
      have hlists : (drawn.enter i).Lists i := Registry.lists_enter rfl fun x hx => by cases hx
      refine ⟨drawn.enter i, (drawn.enter_extends i).trans (r.drawnUpTo_extends hl), Nat.le_refl _, ?_⟩
      exact ⟨⟨hlists.enters, rfl⟩, rfl⟩
    refine hfirst.bind fun r' i _ hi => (ih r').bind fun r'' items hr hitems => grows_pure ?_
    exact .cons ⟨hi.1.mono hr, hi.2⟩ hitems

/-- What is alike in two runs has in the first one what every run gives it. -/
theorem Alike.and_of_run {ρ : Pairing} {R : Pairing → α → β → Prop} {p' : Plan β} {T : α → Prop}
    (h : Plan.Alike ρ R p p')
    (hT : ∀ l l' a k, l.Paired ρ l' → p.run l = (.ok a, k) → T a) :
    Plan.Alike ρ (fun σ a b => R σ a b ∧ T a) p p' := by
  intro l l' hl
  obtain ⟨σ, hσ, hend, hle, hresult⟩ := h l l' hl
  refine ⟨σ, hσ, hend, hle, ?_⟩
  rcases hrun : p.run l with ⟨result, k⟩
  rcases hrun' : p'.run l' with ⟨result', k'⟩
  rw [hrun, hrun'] at hresult
  cases hresult with
  | error e => exact .error e
  | ok hab => exact .ok ⟨hab, hT l l' _ k hl hrun⟩

/-- What is alike in two runs has in the first one what it grows to. -/
theorem Alike.and_grows {ρ : Pairing} {R : Pairing → α → β → Prop} {p' : Plan β}
    (h : Plan.Alike ρ R p p') (hρ : ρ.Extends (.before r.next)) (hp : Grows r p post) :
    Plan.Alike ρ (fun σ a b => R σ a b ∧ ∃ r' : Registry, r'.Extends r ∧ post r' a) p p' := by
  refine h.and_of_run fun l l' a k hl hrun => ?_
  have hlast : Pairing.before r.next (r.next - 1) (r.next - 1) :=
    ⟨rfl, Nat.sub_lt r.positive Nat.one_pos⟩
  have hbegun : r.next ≤ l.nextItem := by
    have hdrawn := (hl.drawn _ _ (hρ _ _ hlast)).1
    have hpositive := r.positive
    omega
  obtain ⟨r', hr, -, ha⟩ := hp l a k hbegun hrun
  exact ⟨r', hr, ha⟩

end Plan

namespace RowSet

variable {S : Column → Prop} {r : Registry} {d : RowSet} {items : List Item}

/-- A typed data set is alike in two runs that begin after its items. -/
theorem IsTyped.alike (h : d.IsTyped S r) : d.Alike (.before r.next) d := by
  have hitems {items : List Item} (hflat : ∀ i ∈ items, r.Flat i) :
      Item.AllAlike (.before r.next) items items :=
    List.forall₂_same.mpr fun i hi => (hflat i hi).alike
  refine ⟨hitems h.header, List.forall₂_same.mpr fun o ho => ?_⟩
  cases o with
  | error e => exact .error e
  | ok row => exact .ok ⟨hitems (h.rows row ho).items, rfl, rfl⟩

theorem IsTyped.grows_selection (h : d.IsTyped S r) (hitems : ∀ i ∈ items, r.Flat i) :
    Grows r (d.selection items) fun r' d' => d'.IsTyped S r' :=
  grows_of_alike (alike_selection r.isOneToOne_before
      (List.forall₂_same.mpr fun i hi => (hitems i hi).alike) h.alike)
    fun _ _ _ hrun => isTyped_of_selection h hitems hrun

theorem grows_handedOut {header : List Item} {outcomes : List (Except QueryError Row)}
    (hheader : ∀ i ∈ header, r.Flat i)
    (h : ∀ row, Except.ok row ∈ outcomes → row.IsTyped S r header) :
    Grows r (handedOut header outcomes) fun r' d => d.IsTyped S r' := by
  intro l d l' hl hrun
  cases hrun
  refine ⟨r, .refl r, hl, hheader, fun row hrow => h row ?_⟩
  rwa [Stream.outcomes_ofOutcomes] at hrow

end RowSet

/-! ## Tables -/

namespace RowSource

variable {S : Column → Prop} {s : RowSource} {t : Table} {columns : List Column}

/-- What a source reads for columns of a table: a value for each, of its type if the column is of a
kind. -/
def ReadsTyped (S : Column → Prop) (s : RowSource) (t : Table) (columns : List Column) : Prop :=
  ∀ past limit outcomes, s.read past t columns limit = .ok outcomes →
    ∀ values, Except.ok values ∈ outcomes →
      List.Forall₂ (fun c v => S c → Value.isOfType c.type v = true) columns values

/-- Items of columns may have the values that are read for these. -/
theorem areTyped_ofColumns {scope : Option String} {header : List Item} {values : List Value}
    (hheader : List.Forall₂ (fun c i => i = Item.ofColumn i.id c scope) columns header)
    (hvalues : List.Forall₂ (fun c v => S c → Value.isOfType c.type v = true) columns values) :
    AreTyped S header values := by
  induction hheader generalizing values with
  | nil =>
    cases hvalues
    exact .nil
  | @cons c i _ _ hi _ ih =>
    cases hvalues with
    | cons hv hrest =>
      refine .cons ?_ (ih hrest)
      rw [hi]
      exact fun hcolumn => hv (hcolumn c rfl)

theorem grows_materializeColumns (h : s.ReadsTyped S t columns) (limit : Option Nat) (r : Registry) :
    Grows r (s.materializeColumns t columns limit) fun r' d => d.IsTyped S r' := by
  unfold materializeColumns
  refine (grows_note _).bind fun _ past _ _ => grows_lift.bind fun _ outcomes _ hread => ?_
  refine (grows_makeItems _ columns none).bind fun r' header _ hheader => ?_
  have hflat : ∀ i ∈ header, r'.Flat i := fun i hi => by
    obtain ⟨c, -, hi, -⟩ := exists_of_mem_forall₂ hheader.flip hi
    exact hi
  refine RowSet.grows_handedOut hflat fun row hrow => ?_
  obtain ⟨o, ho, heq⟩ := List.mem_map.mp hrow
  cases o with
  | error e => cases heq
  | ok values =>
    cases heq
    have hvalues := h past limit outcomes hread.2 values ho
    exact Row.isTyped_self hflat (areTyped_ofColumns (hheader.imp fun _ _ hi => hi.2) hvalues)

/-- The rows of a table are typed under items that are entered. -/
theorem grows_materializeTable {r : Registry} {items : List Item} {filters : List Filter}
    (h : s.ReadsTyped S t (columnsOf (items ++ Filter.itemsOf filters)))
    (hitems : ∀ i ∈ items, r.Flat i) (firstRow : Nat) (maxRows : Option Nat) :
    Grows r (s.materializeTable t items filters firstRow maxRows) fun r' d => d.IsTyped S r' := by
  unfold materializeTable
  refine (grows_materializeColumns h _ r).bind fun r' d hr hd => ?_
  exact ((hd.filtered filters).paged firstRow maxRows).grows_selection
    fun i hi => (hitems i hi).mono hr

end RowSource

/-! ## From items -/

namespace Engine

variable {S : Column → Prop} {s : RowSource} {options : Options} {P : Item → Prop} {q : Query}

/-- Whatever items of a kind ask of a table under its label is read of its types. -/
def AsksTyped (S : Column → Prop) (s : RowSource) (P : Item → Prop) (f : FromItem) : Prop :=
  ∀ t aliasName, .table t aliasName ∈ f.leaves → ∀ columns : List Column,
    (∀ c ∈ columns, ∃ i, P i ∧ ownedColumn? t (aliasName.getD t.name) i = some c) →
      s.ReadsTyped S t columns

theorem grows_materialize_table {t : Table} {aliasName : Option String}
    (h : AsksTyped S s P (.table t aliasName)) {needed : List Item} (hneeded : ∀ i ∈ needed, P i)
    (r : Registry) :
    Grows r (materialize s options needed (.table t aliasName)) fun r' d => d.IsTyped S r' := by
  unfold materialize tableItems
  refine (grows_makeItems r (ownedColumns t (aliasName.getD t.name) needed) _).bind ?_
  intro r' items _ hitems
  refine RowSource.grows_materializeTable (h t aliasName (List.mem_singleton_self _) _ ?_) ?_ 1 none
  · intro c hc
    obtain ⟨i, hi, hcolumn⟩ := RowSource.mem_columnsOf.mp hc
    rw [Filter.itemsOf, List.append_nil] at hi
    obtain ⟨d, hd, -, hofColumn⟩ := exists_of_mem_forall₂ hitems.flip hi
    rw [hofColumn] at hcolumn
    cases hcolumn
    obtain ⟨x, hx, howned⟩ := mem_ownedColumns.mp hd
    exact ⟨x, hneeded x hx, howned⟩
  · intro i hi
    obtain ⟨c, -, hflat, -⟩ := exists_of_mem_forall₂ hitems.flip hi
    exact hflat

theorem grows_join {r : Registry} (kind : JoinKind) {left right : RowSet}
    {conditions : List (Item × Item)} (hleft : left.IsTyped S r) (hright : right.IsTyped S r)
    (hconditions : ∀ c ∈ conditions, r.Lists c.1 ∧ r.Lists c.2) :
    Grows r (join kind left right (FromItem.onFilters conditions)) fun r' d => d.IsTyped S r' := by
  refine grows_of_alike (alike_join hconditions r.fixes kind hleft.alike hright.alike) ?_
  intro l d l' hrun
  cases kind with
  | inner =>
    have hboth : ∀ d ∈ [left, right], d.IsTyped S r := by simp [hleft, hright]
    exact RowSet.isTyped_of_cartesianProduct hboth hrun
  | left => exact RowSet.isTyped_of_leftJoin hleft hright hrun
  | right => exact RowSet.isTyped_of_rightJoin hleft hright hrun

/-- **A from item without subqueries gives typed rows.** -/
theorem grows_materialize : (f : FromItem) → (∀ leaf ∈ f.leaves, leaf.IsTable) → AsksTyped S s P f →
    (needed : List Item) → (∀ i ∈ needed, P i) → (∀ i ∈ f.conditionItems, P i) →
    (r : Registry) → (∀ i, P i → r.Lists i) →
      Grows r (materialize s options needed f) fun r' d => d.IsTyped S r'
  | .table t aliasName, _, h, needed, hneeded, _, r, _ => grows_materialize_table h hneeded r
  | .subquery q aliasName, htables, _, _, _, _, _, _ => by
    obtain ⟨t, a, heq⟩ := htables _ (List.mem_singleton_self _)
    cases heq
  | .expression text aliasName, htables, _, _, _, _, _, _ => by
    obtain ⟨t, a, heq⟩ := htables _ (List.mem_singleton_self _)
    cases heq
  | .join kind l r conditions aliasName, htables, h, needed, hneeded, hitems, reg, hlists => by
    have hleft : ∀ leaf ∈ l.leaves, leaf ∈ (FromItem.join kind l r conditions aliasName).leaves :=
      fun leaf hleaf => List.mem_append_left _ hleaf
    have hright : ∀ leaf ∈ r.leaves, leaf ∈ (FromItem.join kind l r conditions aliasName).leaves :=
      fun leaf hleaf => List.mem_append_right _ hleaf
    unfold FromItem.conditionItems at hitems
    simp only [List.forall_mem_append, List.forall_mem_flatMap, List.forall_mem_cons] at hitems
    obtain ⟨⟨hitemsLeft, hitemsRight⟩, hon⟩ := hitems
    have hconditions : ∀ c ∈ conditions, P c.1 ∧ P c.2 := fun c hc => ⟨(hon c hc).1, (hon c hc).2.1⟩
    have hmore := mem_pool_joinItems hconditions hneeded
    unfold materialize
    refine (grows_materialize l (fun leaf hleaf => htables leaf (hleft leaf hleaf))
      (fun t a hleaf => h t a (hleft _ hleaf)) _ hmore hitemsLeft reg hlists).bind ?_
    intro r' leftSet hr hleftSet
    refine (grows_materialize r (fun leaf hleaf => htables leaf (hright leaf hleaf))
      (fun t a hleaf => h t a (hright _ hleaf)) _ hmore hitemsRight r'
      fun i hi => (hlists i hi).mono hr).orElseClosing.bind ?_
    intro r'' rightSet hr' hrightSet
    refine grows_join kind (hleftSet.mono hr') hrightSet fun c hc => ?_
    exact ⟨(hlists _ (hconditions c hc).1).mono (hr'.trans hr),
      (hlists _ (hconditions c hc).2).mono (hr'.trans hr)⟩

/-- From items without subqueries give typed rows one after the other. -/
theorem grows_materializeAll {sources : List FromItem} {r : Registry} {needed : List Item}
    (htables : ∀ f ∈ sources, ∀ leaf ∈ f.leaves, leaf.IsTable)
    (h : ∀ f ∈ sources, AsksTyped S s P f) (hneeded : ∀ i ∈ needed, P i)
    (hconditions : ∀ f ∈ sources, ∀ i ∈ f.conditionItems, P i) (hlists : ∀ i, P i → r.Lists i)
    {done : List RowSet} (hdone : ∀ d ∈ done, d.IsTyped S r) :
    Grows r (materializeAll s options needed done sources) fun r' sets =>
      ∀ d ∈ sets, d.IsTyped S r' := by
  induction sources generalizing done r with
  | nil =>
    unfold materializeAll
    exact grows_pure hdone
  | cons f rest ih =>
    rw [List.forall_mem_cons] at htables h hconditions
    unfold materializeAll
    refine (grows_materialize f htables.1 h.1 needed hneeded hconditions.1 r
      hlists).orElseClosing.bind fun r' d hr hd => ?_
    refine ih htables.2 h.2 hconditions.2 (fun i hi => (hlists i hi).mono hr) ?_
    exact List.forall_mem_append.mpr
      ⟨fun e he => (hdone e he).mono hr, List.forall_mem_singleton.mpr hd⟩

end Engine

end DocQuery
