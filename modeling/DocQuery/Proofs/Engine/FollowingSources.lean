import DocQuery.Proofs.Engine.Lockstep
import DocQuery.Proofs.Engine.Offers
import DocQuery.Proofs.Rows.Following
import DocQuery.Proofs.Rows.FollowingGroups

/-!
# DocQuery.Proofs.Engine.FollowingSources — from items that are read in two runs

A source must answer for what items denote alone (`RowSource.IsUniform`); then the columns of a table, a
count and a key that is looked up give counterparts in both runs.

Which column an item reads of a table is a matter of senses, as long as labels tell the from items apart
(`Engine.ownedColumn?_sense`), so a table is asked for the same columns in both runs.  A subquery is
asked for references of the same senses (`Engine.follows_subqueryItems`).  Whatever a from item gives
stands under the label of one of its leaves (`Item.isUnder`), and nothing stands under the labels of two
that are told apart.
-/

namespace DocQuery

open Item (sense meaning IsVocabulary ShareSenses AllCounterparts)
open FromItem (owns)
open Plan

/-- Lists of columns in which searches end alike are the same without repetitions. -/
theorem distinctColumns_congr {columns columns' : List Column} (h : SearchAlike columns columns') :
    distinctColumns columns = distinctColumns columns' := by
  have hsame (l : List Column) : SearchAlike (distinctColumns l) l := by
    have hfold := SearchAlike.foldl_addNew (r := fun c d : Column => c == d) (f := id) [] l
      fun a _ b _ heq => beq_iff_eq.mp heq
    rw [List.map_id, List.map_id] at hfold
    unfold distinctColumns
    rw [addColumn_eq_addNew]
    exact hfold
  exact SearchAlike.eq_of_nodup (((hsame columns).trans h).trans (hsame columns').symm)
    (nodup_distinctColumns columns) (nodup_distinctColumns columns')

namespace Engine

variable {ρ : Runs} {leaves : List FromItem} {columns : List Column} {scope : Option String}

/-! ## Columns that are made into items -/

theorem isHeld_ofColumn {known : Item → Prop} {g : Registry} (hknown : IsVocabulary known) {i : Item}
    {c : Column} (hi : g.Lists i ∧ i = Item.ofColumn i.id c scope)
    (hplaced : (Item.ofColumn 0 c scope).IsPlaced leaves) : i.IsHeld leaves known g := by
  refine ⟨hi.1, ?_, ?_⟩ <;> rw [hi.2]
  · exact hknown.column c
  · exact hplaced

/-- Columns become items that are counterparts, each in its run. -/
theorem follows_makeItems (hρ : IsVocabulary ρ.known)
    (hplaced : ∀ c ∈ columns, (Item.ofColumn 0 c scope).IsPlaced leaves) :
    Follows ρ (fun σ items items' => AllCounterparts σ leaves items items' ∧
        List.Forall₂ (fun c i => i = Item.ofColumn i.id c scope) columns items)
      (makeItems (columns.map fun c id => Item.ofColumn id c scope))
      (makeItems (columns.map fun c id => Item.ofColumn id c scope)) := by
  refine follows_of_makes (makes_makeItems ρ.left columns scope) (makes_makeItems ρ.right columns scope)
    fun σ hσ items items' h h' => ⟨?_, h.imp fun _ _ hi => hi.2⟩
  have hvocabulary := hσ.vocabulary hρ
  clear hσ
  induction h generalizing items' with
  | nil =>
    cases h'
    exact .nil
  | cons hi _ ih =>
    rw [List.forall_mem_cons] at hplaced
    cases h' with
    | cons hi' hrest' =>
      refine .cons ⟨isHeld_ofColumn hvocabulary hi hplaced.1, isHeld_ofColumn hvocabulary hi' hplaced.1, ?_⟩
        (ih hplaced.2 _ hrest')
      rw [hi.2, hi'.2]
      exact Item.sense_congr rfl

/-- Items of different columns have different senses. -/
theorem nodup_senses_ofColumns (hnodup : columns.Nodup) {items : List Item}
    (h : List.Forall₂ (fun c i => i = Item.ofColumn i.id c scope) columns items) :
    (items.map (sense leaves)).Nodup := by
  have hcolumns : (items.map (sense leaves)).map Item.column? = columns.map some := by
    rw [List.map_map]
    refine (map_eq_map_of_forall₂ h fun c _ i hi => ?_).symm
    rw [Function.comp, Item.column?_sense, hi]
    rfl
  refine List.Nodup.of_map Item.column? ?_
  rw [hcolumns]
  exact hnodup.map fun _ _ => Option.some.inj

end Engine

/-! ## Sources -/

/-- Items that denote the same in any scope. -/
abbrev Item.DenotesSame (i i' : Item) : Prop := meaning false i = meaning false i'

/-- A source that answers for what items denote in any scope, whatever it was asked before.  Rows have a
value for each column that is read, and what is found by a key in a table of the source has a value for
each of different columns of the table. -/
structure RowSource.IsUniform (s : RowSource) : Prop extends s.IsSteady where
  width : ∀ past t columns limit outcomes, s.read past t columns limit = .ok outcomes →
    ∀ values, .ok values ∈ outcomes → values.length = columns.length
  countSame : ∀ past t filters filters' approximate n,
    Filter.AllPaired Item.DenotesSame filters filters' →
      s.count past t filters approximate = .ok n → s.count past t filters' approximate = .ok n
  lookupSame : ∀ past t items items' column key found, List.Forall₂ Item.DenotesSame items items' →
    s.lookup past t items column key = .ok found → s.lookup past t items' column key = .ok found
  found : ∀ past name t items column key columns values, s.table? name = some t →
    s.lookup past t items column key = .ok (some (columns, values)) →
      columns.Nodup ∧ columns ⊆ t.columns ∧ values.length = columns.length

namespace RowSource

variable {s : RowSource} {ρ : Runs} {leaves : List FromItem} {items items' : List Item}
  {filters filters' : List Filter}

theorem follows_handedOut {header header' : List Item} {outcomes outcomes' : List (Except QueryError Row)}
    (hheader : ShareSenses ρ leaves header header')
    (h : List.Forall₂ (Alongside (Row.Counterparts ρ leaves header header')) outcomes outcomes') :
    Follows ρ (fun σ d d' => d.Counterparts σ leaves d') (RowSet.handedOut header outcomes)
      (RowSet.handedOut header' outcomes') := by
  intro l l' d k hl hl' hrun
  cases hrun
  refine gives_modifyGet ⟨ρ, .refl ρ, ⟨hl, hl'⟩, hheader, ?_⟩
  rw [Stream.outcomes_ofOutcomes, Stream.outcomes_ofOutcomes]
  exact h

/-- **Columns of a table** are read alike. -/
theorem follows_materializeColumns (hs : s.IsUniform) (hρ : IsVocabulary ρ.known) (t : Table)
    {columns : List Column} (hnodup : columns.Nodup)
    (hplaced : ∀ c ∈ columns, (Item.ofColumn 0 c none).IsPlaced leaves) (limit : Option Nat) :
    Follows ρ (fun σ d d' => d.Counterparts σ leaves d') (s.materializeColumns t columns limit)
      (s.materializeColumns t columns limit) := by
  unfold materializeColumns
  refine (follows_note _ _).bind fun σ hσ past past' _ => ?_
  rw [hs.read past' past]
  refine (follows_lift (R := fun _ o o' => o = o' ∧ s.read past t columns limit = .ok o)
    fun outcomes h => ⟨outcomes, h, rfl, h⟩).bind fun τ hτ outcomes _ ho => ?_
  obtain ⟨rfl, hread⟩ := ho
  refine (Engine.follows_makeItems ((hτ.trans hσ).vocabulary hρ) hplaced).bind
    fun υ _ header header' ⟨hheader, hcolumns⟩ => ?_
  refine follows_handedOut hheader.shareSenses ?_
  rw [List.forall₂_map_left_iff, List.forall₂_map_right_iff, List.forall₂_same]
  intro o ho
  cases o with
  | error e => exact .error e e
  | ok values =>
    refine .ok (Row.counterparts_of_cells hheader.shareSenses ?_ none none)
    refine Row.cellsAlike_of_nodup hheader (Engine.nodup_senses_ofColumns hnodup hcolumns) ?_
    rw [hs.width past t columns limit outcomes hread values ho, hcolumns.length_eq]

theorem columnsOf_counterparts (h : ShareSenses ρ leaves items items') :
    columnsOf items = columnsOf items' := by
  have hcolumns (k : List Item) :
      k.filterMap Item.column? = (k.map (sense leaves)).filterMap Item.column? := by
    rw [List.filterMap_map]
    exact List.filterMap_congr fun x _ => (Item.column?_sense leaves x).symm
  refine distinctColumns_congr ?_
  rw [hcolumns, hcolumns items']
  exact h.senses.filterMap _

/-- The columns that items read belong to the from items. -/
theorem isPlaced_of_mem_columnsOf (h : ∀ i ∈ items, i.IsPlaced leaves) :
    ∀ c ∈ columnsOf items, (Item.ofColumn 0 c none).IsPlaced leaves := by
  intro c hc
  obtain ⟨i, hi, hcolumn⟩ := List.mem_filterMap.mp (mem_distinctColumns.mp hc)
  obtain ⟨leaf, hleaf, howns, -⟩ := h i hi c hcolumn
  rintro _ ⟨⟩
  exact ⟨leaf, hleaf, howns, nofun⟩

/-- **Rows of a table**, filtered, windowed and selected. -/
theorem follows_materializeTable (hs : s.IsUniform) (hρ : IsVocabulary ρ.known) (t : Table)
    (hitems : ShareSenses ρ leaves items items')
    (hfilters : Filter.AllPaired (Item.Counterparts ρ leaves) filters filters') (firstRow : Nat)
    (maxRows : Option Nat) :
    Follows ρ (fun σ e e' => e.Counterparts σ leaves e' ∧
        e.header.map (sense leaves) = items.map (sense leaves) ∧
        e'.header.map (sense leaves) = items'.map (sense leaves))
      (s.materializeTable t items filters firstRow maxRows)
      (s.materializeTable t items' filters' firstRow maxRows) := by
  have hread := hitems.append (AllCounterparts.shareSenses (Filter.AllPaired.itemsOf _ _ hfilters))
  have hempty : filters.isEmpty = filters'.isEmpty := by
    cases filters <;> cases filters' <;> first | rfl | exact hfilters.elim
  unfold materializeTable
  simp only [← columnsOf_counterparts hread, ← hempty]
  refine (follows_materializeColumns hs hρ t (nodup_distinctColumns _)
    (isPlaced_of_mem_columnsOf fun i hi => (hread.left i hi).placed) _).bind fun σ hσ d d' hd => ?_
  have hvocabulary := hσ.vocabulary hρ
  exact RowSet.follows_selection hvocabulary ((hd.filtered hvocabulary
    (Filter.AllPaired.mono (fun _ _ hi => hi.mono hσ) _ _ hfilters)).paged firstRow maxRows)
      (hitems.mono hσ)

/-- **A count by the source itself.** -/
theorem follows_askCount (hs : s.IsUniform) (t : Table)
    (hfilters : Filter.AllPaired (Item.Counterparts ρ leaves) filters filters') (approximate : Bool) :
    Follows ρ (fun _ => Eq) (s.askCount t filters approximate) (s.askCount t filters' approximate) := by
  unfold askCount
  refine (follows_note _ _).bind fun σ hσ past past' _ => ?_
  rw [hs.count past' past]
  exact follows_lift fun a ha => ⟨a, hs.countSame past t filters filters' approximate a
    (Filter.AllPaired.mono (fun _ _ hi => Item.meaning_false_of_sense hi.sense) _ _ hfilters) ha, rfl⟩

/-- **A row that the source finds by its key.** -/
theorem follows_askLookup (hs : s.IsUniform) (hρ : IsVocabulary ρ.known) {t : Table} {name : String}
    (ht : s.table? name = some t)
    (hplaced : ∀ c ∈ t.columns, (Item.ofColumn 0 c none).IsPlaced leaves)
    (hitems : AllCounterparts ρ leaves items items') (column : Column) (key : Value) :
    Follows ρ (fun σ => Option.Rel fun d d' : RowSet => d.Counterparts σ leaves d')
      (s.askLookup t items column key) (s.askLookup t items' column key) := by
  unfold askLookup
  refine (follows_note _ _).bind fun σ hσ past past' _ => ?_
  rw [hs.lookup past' past]
  refine (follows_lift (R := fun _ o o' => o = o' ∧ s.lookup past t items column key = .ok o)
    fun found h => ⟨found, hs.lookupSame past t items items' column key found
      (hitems.imp fun _ _ hi => Item.meaning_false_of_sense hi.sense) h, rfl, h⟩).bind
        fun τ hτ found _ ho => ?_
  obtain ⟨rfl, hfound⟩ := ho
  cases found with
  | none => exact follows_pure .none
  | some found =>
    obtain ⟨columns, values⟩ := found
    obtain ⟨hnodup, hmem, hlength⟩ := hs.found past name t items column key columns values ht hfound
    refine (Engine.follows_makeItems ((hτ.trans hσ).vocabulary hρ) fun c hc =>
      hplaced c (hmem hc)).bind fun υ _ header header' ⟨hheader, hcolumns⟩ => follows_pure (.some ?_)
    refine RowSet.counterparts_ofRows hheader.shareSenses (.cons ?_ .nil)
    refine Row.counterparts_of_cells hheader.shareSenses ?_ none none
    refine Row.cellsAlike_of_nodup hheader (Engine.nodup_senses_ofColumns hnodup hcolumns) ?_
    rw [hlength, hcolumns.length_eq]

end RowSource

/-! ## What from items are asked for in two runs -/

open Item (sense meaning IsVocabulary ShareSenses AllCounterparts)
open FromItem (owns ownerLabel? ToldApart)
open Plan

/-- Whether an item stands under a label, or under none where there is none. -/
def Item.isUnder (label : Option String) (i : Item) : Bool :=
  match i.scope, label with
  | some scope, some label => Text.sameName scope label
  | none, none => true
  | _, _ => false

namespace FromItem

/-- From items that labels tell apart, with one table for each name. -/
structure AreClear (leaves : List FromItem) : Prop where
  apart : leaves.Pairwise ToldApart
  tables : ∀ f ∈ leaves, ∀ g ∈ leaves, ∀ t u, f.table? = some t → g.table? = some u →
    t.name = u.name → t = u

variable {leaves : List FromItem} {f g : FromItem} {t : Table} {aliasName : Option String} {c : Column}
  {i : Item} {label : String}

/-- Nothing stands under the labels of two from items that are told apart. -/
theorem ToldApart.not_under (h : f.ToldApart g) (hf : i.isUnder f.label? = true)
    (hg : i.isUnder g.label? = true) : False := by
  unfold Item.isUnder at hf hg
  cases hscope : i.scope with
  | none =>
    rw [hscope] at hf hg
    cases hfl : f.label? <;> cases hgl : g.label? <;> simp only [hfl, hgl, Bool.false_eq_true] at hf hg
    exact h.label_ne (hfl.trans hgl.symm)
  | some scope =>
    rw [hscope] at hf hg
    cases hfl : f.label? <;> cases hgl : g.label? <;> simp only [hfl, hgl, Bool.false_eq_true] at hf hg
    next a b =>
      have hsame := Text.sameName_trans (Text.sameName_comm scope a ▸ hf) hg
      rw [h.labels a hfl b hgl] at hsame
      cases hsame

/-- From items of one label are one. -/
theorem AreClear.eq_of_sameName (h : AreClear leaves) (hf : f ∈ leaves) (hg : g ∈ leaves) {a b : String}
    (ha : f.label? = some a) (hb : g.label? = some b) (hsame : Text.sameName a b = true) : f = g := by
  by_contra hne
  have : Std.Symm ToldApart := ⟨fun _ _ h => h.symm⟩
  have happart : f.ToldApart g := h.apart.forall hf hg hne
  rw [happart.labels a ha b hb] at hsame
  cases hsame

theorem exists_of_owns (h : owns c f = true) : ∃ t, f.table? = some t ∧ t.name = c.table ∧
    (t.columnNamed? c.name).isSome = true := by
  obtain ⟨t, ht, howns⟩ := (Option.any_eq_true _ _).mp h
  rw [Bool.and_eq_true, beq_iff_eq] at howns
  exact ⟨t, ht, howns⟩

/-- The only from item that owns a column. -/
theorem exists_of_ownerLabel? (h : ownerLabel? leaves c = some label) :
    ∃ owner ∈ leaves, owns c owner = true ∧ owner.label? = some label := by
  unfold ownerLabel? at h
  split at h
  next owner howner =>
    have hmem : owner ∈ leaves.filter (owns c) := howner ▸ List.mem_singleton_self owner
    exact ⟨owner, (List.mem_filter.mp hmem).1, (List.mem_filter.mp hmem).2, h⟩
  next => cases h

/-- A table owns a column of its name that belongs to one of the from items. -/
theorem AreClear.owns_of_table (h : AreClear leaves) (ht : .table t aliasName ∈ leaves)
    (hf : f ∈ leaves) (howns : owns c f = true) (hname : c.table = t.name) :
    owns c (.table t aliasName) = true := by
  obtain ⟨u, hu, huname, hcolumn⟩ := exists_of_owns howns
  obtain rfl := h.tables _ hf _ ht u t hu rfl (huname.trans hname)
  show (u.name == c.table && (u.columnNamed? c.name).isSome) = true
  rw [huname, hcolumn, beq_self_eq_true]
  rfl

end FromItem

namespace Engine

variable {ρ : Runs} {leaves : List FromItem} {t : Table} {aliasName : Option String}
  {needed needed' : List Item} {i : Item} {c : Column}

/-! ### Tables -/

section Tables

variable (hclear : FromItem.AreClear leaves) (ht : .table t aliasName ∈ leaves)

include hclear ht

/-- What a table is read for is a column that it owns. -/
theorem owns_of_ownedColumn? (hi : i.IsPlaced leaves)
    (h : ownedColumn? t (aliasName.getD t.name) i = some c) :
    owns c (.table t aliasName) = true := by
  obtain ⟨hcolumn, hclaims⟩ := Option.filter_eq_some_iff.mp h
  obtain ⟨leaf, hleaf, howns, hscoped⟩ := hi c hcolumn
  cases hscope : i.scope with
  | none =>
    rw [hscope] at hclaims
    exact hclear.owns_of_table ht hleaf howns (beq_iff_eq.mp hclaims)
  | some scope =>
    rw [hscope] at hclaims
    rw [← hclear.eq_of_sameName hleaf ht (hscoped scope hscope) Grammar.label?_table
      hclaims]
    exact howns

/-- **Which column an item reads of a table is a matter of its sense.** -/
theorem ownedColumn?_sense (hi : i.IsPlaced leaves) :
    ownedColumn? t (aliasName.getD t.name) (sense leaves i) =
      ownedColumn? t (aliasName.getD t.name) i := by
  have hlabel : (FromItem.table t aliasName).label? = some (aliasName.getD t.name) :=
    Grammar.label?_table
  cases hcolumn : i.column? with
  | none =>
    unfold ownedColumn?
    rw [Item.column?_sense, hcolumn]
    rfl
  | some c =>
    have hscopeIn : (sense leaves i).scope = (i.scope <|> ownerLabel? leaves c) := by
      show i.scopeIn leaves = _
      unfold Item.scopeIn
      rw [hcolumn]
      rfl
    unfold ownedColumn?
    rw [Item.column?_sense, hcolumn, hscopeIn]
    cases hscope : i.scope with
    | some scope => rfl
    | none =>
      cases howner : ownerLabel? leaves c with
      | none => rfl
      | some label =>
        -- The only owner is this table if and only if the column has its name.
        have hiff : Text.sameName label (aliasName.getD t.name) = (c.table == t.name) := by
          rw [Bool.eq_iff_iff, beq_iff_eq]
          constructor
          · intro hsame
            obtain ⟨owner, hmem, howns, hownerLabel⟩ := FromItem.exists_of_ownerLabel? howner
            obtain rfl := hclear.eq_of_sameName hmem ht hownerLabel hlabel hsame
            obtain ⟨_, ⟨⟩, hname, -⟩ := FromItem.exists_of_owns howns
            exact hname.symm
          · intro hname
            obtain ⟨leaf, hleaf, howns, -⟩ := hi c hcolumn
            have hown := FromItem.ownerLabel?_eq_some howner ht
              (hclear.owns_of_table ht hleaf howns hname)
            rw [Option.some.inj (hown.symm.trans hlabel)]
            exact Text.sameName_self _
        show (if Text.sameName label (aliasName.getD t.name) = true then some c else none) =
          if (c.table == t.name) = true then some c else none
        rw [hiff]

/-- **A table is asked for the same columns in both runs.** -/
theorem follows_tableItems (hρ : IsVocabulary ρ.known) (hneeded : ShareSenses ρ leaves needed needed') :
    Follows ρ (fun σ items items' => AllCounterparts σ leaves items items' ∧
        ∀ i ∈ items, (sense leaves i).isUnder (FromItem.table t aliasName).label? = true)
      (tableItems t (aliasName.getD t.name) needed)
      (tableItems t (aliasName.getD t.name) needed') := by
  have hsenses {g : Registry} {k : List Item} (hk : ∀ x ∈ k, x.IsHeld leaves ρ.known g) :
      k.filterMap (ownedColumn? t (aliasName.getD t.name)) =
        (k.map (sense leaves)).filterMap (ownedColumn? t (aliasName.getD t.name)) := by
    rw [List.filterMap_map]
    exact List.filterMap_congr fun x hx => (ownedColumn?_sense hclear ht (hk x hx).placed).symm
  have hcolumns : distinctColumns (needed.filterMap (ownedColumn? t (aliasName.getD t.name))) =
      distinctColumns (needed'.filterMap (ownedColumn? t (aliasName.getD t.name))) := by
    refine distinctColumns_congr ?_
    rw [hsenses hneeded.left, hsenses hneeded.right]
    exact hneeded.senses.filterMap _
  unfold distinctColumns at hcolumns
  unfold tableItems
  simp only [← hcolumns]
  refine (follows_makeItems hρ fun c hc => ?_).mono fun σ _ items items' ⟨hitems, hcolumn⟩ =>
    ⟨hitems, fun i hi => ?_⟩
  · obtain ⟨i, hi, howned⟩ := List.mem_filterMap.mp (mem_distinctColumns.mp hc)
    rintro _ ⟨⟩
    refine ⟨_, ht, owns_of_ownedColumn? hclear ht (hneeded.left i hi).placed howned, ?_⟩
    rintro label ⟨⟩
    exact Grammar.label?_table
  · obtain ⟨c, -, heq⟩ := exists_of_mem_forall₂ hcolumn.flip hi
    rw [heq, Grammar.label?_table]
    exact Text.sameName_self _

end Tables

/-! ### Subqueries -/

/-- A reference without its function. -/
def referenceOf (i : Item) : Item := if i.function.isSome then i.bare else i

variable {label : Option String}

theorem sense_referenceOf (leaves : List FromItem) (i : Item) :
    sense leaves (referenceOf i) = referenceOf (sense leaves i) := by
  unfold referenceOf
  rw [Item.function_sense]
  split
  · exact Item.sense_bare leaves i
  · rfl

theorem isReference_of_refersInto (h : refersInto label i = true) :
    i.inner?.isSome = true ∧ i.column? = none ∧ i.isUnder label = true := by
  obtain ⟨hinner, hunder⟩ := (Bool.and_eq_true _ _).mp h
  obtain ⟨x, hx⟩ := Option.isSome_iff_exists.mp hinner
  exact ⟨hinner, Item.column?_of_inner? hx, hunder⟩

theorem isUnder_sense (h : i.column? = none) : (sense leaves i).isUnder label = i.isUnder label := by
  unfold Item.isUnder
  rw [Item.sense_of_column?_eq_none h, Item.scope_meaning]

theorem refersInto_sense (leaves : List FromItem) (label : Option String) (i : Item) :
    refersInto label (sense leaves i) = refersInto label i := by
  have hinner : (sense leaves i).inner?.isSome = i.inner?.isSome := by
    rw [Item.inner?_sense, Option.isSome_map]
  show ((sense leaves i).inner?.isSome && (sense leaves i).isUnder label) =
    (i.inner?.isSome && i.isUnder label)
  rw [hinner]
  cases hx : i.inner? with
  | none => rfl
  | some x => rw [isUnder_sense (Item.column?_of_inner? hx)]

/-- An item that a subquery is asked for, for one that refers into it. -/
structure IsBase (leaves : List FromItem) (known : Item → Prop) (label : Option String) (g : Registry)
    (i b : Item) : Prop where
  held : b.IsHeld leaves known g
  column : b.column? = none
  under : b.isUnder label = true
  sense : sense leaves b = referenceOf (sense leaves i)

theorem IsBase.mono {known : Item → Prop} {g g' : Registry} {b : Item}
    (h : IsBase leaves known label g i b) (hg : g'.Extends g) : IsBase leaves known label g' i b :=
  ⟨h.held.mono hg, h.column, h.under, h.sense⟩

/-- Each reference into a subquery gives an item that it is asked for. -/
theorem makes_base {known : Item → Prop} (hknown : IsVocabulary known) {g : Registry}
    (hi : i.IsHeld leaves known g) (hrefers : refersInto label i = true) :
    Makes g (if i.function.isSome then do return i.withFunction (← Plan.drawItem) none
      else return i.withoutAlias : Plan Item) fun g' b => IsBase leaves known label g' i b := by
  obtain ⟨hinner, hcolumn, hunder⟩ := isReference_of_refersInto hrefers
  obtain ⟨x, hx⟩ := Option.isSome_iff_exists.mp hinner
  have hplaced {b : Item} (hb : b.column? = none) : b.IsPlaced leaves := fun c hc => by
    rw [hb] at hc
    cases hc
  split
  next hfunction =>
    refine (makes_item (fun _ => rfl) fun n y hy => ?_).mono ?_
    · exact hi.lists.inner (Workshop.inner?_of_withFunction hy)
    · rintro g' _ hg ⟨hlists, n, rfl⟩
      have hcolumn' : (i.withFunction n none).column? = none :=
        Item.column?_of_inner? (Item.inner?_withFunction hx n none)
      refine ⟨⟨hlists, ?_, hplaced hcolumn'⟩, hcolumn', hunder, ?_⟩
      · unfold Item.IsKnown
        rw [Item.meaning_withFunction]
        exact hi.known.bare hknown
      · rw [Item.sense_congr (Item.meaning_withFunction true i n), ← sense_referenceOf]
        unfold referenceOf
        rw [if_pos hfunction]
  next hfunction =>
    refine makes_pure ⟨⟨hi.lists.withoutAlias, ?_, hplaced hcolumn⟩, hcolumn, hunder, ?_⟩
    · unfold Item.IsKnown
      rw [Item.meaning_withoutAlias]
      exact hi.known
    · rw [Item.sense_withoutAlias, ← sense_referenceOf]
      unfold referenceOf
      rw [if_neg hfunction]

/-- **A subquery is asked for references of the same senses in both runs.** -/
theorem follows_subqueryItems (hρ : IsVocabulary ρ.known)
    (hneeded : ShareSenses ρ leaves needed needed') (label : Option String) :
    Follows ρ (fun σ items items' => ShareSenses σ leaves items items' ∧
        (∀ i ∈ items, i.column? = none ∧ i.isUnder label = true) ∧ ∀ i ∈ items', i.column? = none)
      (subqueryItems label needed) (subqueryItems label needed') := by
  have hrefers := hneeded.filter (refersInto_sense leaves label)
  have hbases {g : Registry} {k : List Item} (hk : ∀ i ∈ k, i.IsHeld leaves ρ.known g) :
      Makes g ((k.filter (refersInto label)).mapM fun i =>
        if i.function.isSome then do return i.withFunction (← Plan.drawItem) none
        else return i.withoutAlias) fun g' bases =>
          List.Forall₂ (IsBase leaves ρ.known label g') (k.filter (refersInto label)) bases := by
    refine makes_mapM (T := fun i => i.IsHeld leaves ρ.known g ∧ refersInto label i = true)
      (fun i hi => ⟨hk i (List.mem_filter.mp hi).1, (List.mem_filter.mp hi).2⟩)
      (fun _ _ _ _ hg h => h.mono hg) fun g' i hg hi => ?_
    exact makes_base hρ (hi.1.mono hg) hi.2
  have hsenses {g : Registry} {k bases : List Item}
      (h : List.Forall₂ (IsBase leaves ρ.known label g) k bases) :
      bases.map (sense leaves) = (k.map (sense leaves)).map referenceOf := by
    rw [List.map_map]
    exact (map_eq_map_of_forall₂ h fun i _ b hb => hb.sense.symm).symm
  have hbase {g : Registry} {k bases : List Item}
      (h : List.Forall₂ (IsBase leaves ρ.known label g) k bases) :
      ∀ b ∈ bases, b.IsHeld leaves ρ.known g ∧ b.column? = none ∧ b.isUnder label = true := by
    intro b hb
    obtain ⟨i, -, hbase⟩ := exists_of_mem_forall₂ h.flip hb
    exact ⟨hbase.held, hbase.column, hbase.under⟩
  have hpushed {k : List Item} {i : Item} (hi : i ∈ k.foldl Item.pushNew []) : i ∈ k :=
    (Item.mem_of_mem_foldl_pushNew hi).resolve_left List.not_mem_nil
  unfold subqueryItems
  refine Follows.bind (R := fun σ bases bases' => ShareSenses σ leaves bases bases' ∧
    (∀ i ∈ bases, i.column? = none ∧ i.isUnder label = true) ∧ ∀ i ∈ bases', i.column? = none)
    (follows_of_makes (hbases hneeded.left) (hbases hneeded.right) fun σ hσ bases bases' h h' => ?_)
    fun σ hσ bases bases' h => follows_pure ?_
  · refine ⟨⟨fun b hb => ?_, fun b hb => ?_, ?_⟩, fun b hb => (hbase h b hb).2,
      fun b hb => (hbase h' b hb).2.1⟩
    · exact (hbase h b hb).1.extends (.refl _) hσ.known
    · exact (hbase h' b hb).1.extends (.refl _) hσ.known
    · rw [hsenses h, hsenses h']
      exact hrefers.senses.map referenceOf
  · exact ⟨ShareSenses.nil.foldl_pushNew (hσ.vocabulary hρ) h.1, fun i hi => h.2.1 i (hpushed hi),
      fun i hi => h.2.2 i (hpushed hi)⟩

/-! ### Joins -/

/-- Conditions of joins with counterparts on each side. -/
abbrev ConditionsAlike (ρ : Runs) (leaves : List FromItem) :
    List (Item × Item) → List (Item × Item) → Prop :=
  List.Forall₂ fun c c' => Item.Counterparts ρ leaves c.1 c'.1 ∧ Item.Counterparts ρ leaves c.2 c'.2

section Joins

variable {conditions conditions' : List (Item × Item)}
  (hconditions : ConditionsAlike ρ leaves conditions conditions')

include hconditions

theorem shareSenses_joinItems (hρ : IsVocabulary ρ.known)
    (hneeded : ShareSenses ρ leaves needed needed') :
    ShareSenses ρ leaves (joinItems conditions needed) (joinItems conditions' needed') := by
  refine hneeded.foldl_pushNew hρ ((AllCounterparts.shareSenses ?_).append
    (AllCounterparts.shareSenses ?_))
  · exact List.rel_map (fun _ _ h => h.1) hconditions
  · exact List.rel_map (fun _ _ h => h.2) hconditions

theorem allPaired_onFilters :
    Filter.AllPaired (Item.Counterparts ρ leaves) (FromItem.onFilters conditions)
      (FromItem.onFilters conditions') := by
  rw [Filter.allPaired_iff]
  exact List.rel_map (fun _ _ h => ⟨h.1, rfl, .item h.2⟩) hconditions

/-- **Joins of counterparts** on conditions that are counterparts. -/
theorem follows_join (hρ : IsVocabulary ρ.known) (kind : JoinKind) {d d' e e' : RowSet}
    (hd : d.Counterparts ρ leaves d') (he : e.Counterparts ρ leaves e')
    (hapart : Item.Apart leaves d.header e.header) :
    Follows ρ (fun σ b b' => b.Counterparts σ leaves b' ∧
        b.header.map (sense leaves) = (d.header ++ e.header).map (sense leaves))
      (join kind d e (FromItem.onFilters conditions))
      (join kind d' e' (FromItem.onFilters conditions')) := by
  have hfilters := allPaired_onFilters hconditions
  cases kind with
  | inner =>
    refine (RowSet.follows_cartesianProduct hρ (.cons hd (.cons he .nil))
      (by simpa [RowSet.AllApart] using hapart) hfilters).mono fun σ _ b b' h => ⟨h.1, ?_⟩
    rw [h.2]
    simp
  | left =>
    refine (RowSet.follows_leftJoin hρ hd he hapart hfilters).mono fun σ _ b b' h => ⟨h.1, ?_⟩
    rw [h.2]
  | right => exact RowSet.follows_rightJoin hρ hd he hapart hfilters

end Joins

end Engine

end DocQuery
