import DocQuery.Proofs.Engine.FollowingSources
import DocQuery.Proofs.Engine.Shortcuts

/-!
# DocQuery.Proofs.Engine.Following — a query that follows another one

Two queries are mirrored (`FromItem.QueriesMirrored`) if they have the same form over the same tables, with
counterparts at each place, over the from items of the first one.  Then the second query succeeds
wherever the first one does, with a data set that is its counterpart (`Engine.follows_execute`): each
from item is asked for the same, each short way is open to both or to neither, and every clause keeps
counterparts.
-/

namespace DocQuery

open Item (sense meaning IsVocabulary ShareSenses AllCounterparts)
open FromItem (owns)
open Plan

/-! ## Mirrored queries -/

/-- Queries whose clauses, but for FROM, have counterparts at each place. -/
structure QueryOf.ClausesMirrored (ρ : Runs) (leaves : List FromItem) (q q' : Query) : Prop where
  select : AllCounterparts ρ leaves q.select q'.select
  distinct : q.distinct = q'.distinct
  filters : Filter.AllPaired (Item.Counterparts ρ leaves) q.filters q'.filters
  groupBy : AllCounterparts ρ leaves q.groupBy q'.groupBy
  having : Filter.AllPaired (Item.Counterparts ρ leaves) q.having q'.having
  orderBy : List.Forall₂ (RowSet.OrderedAlike ρ leaves) q.orderBy q'.orderBy
  firstRow : q.firstRow = q'.firstRow
  maxRows : q.maxRows = q'.maxRows

theorem QueryOf.ClausesMirrored.mono {ρ σ : Runs} {leaves : List FromItem} {q q' : Query}
    (h : QueryOf.ClausesMirrored ρ leaves q q') (hσ : σ.Extends ρ) :
    QueryOf.ClausesMirrored σ leaves q q' where
  select := h.select.mono hσ
  distinct := h.distinct
  filters := Filter.AllPaired.mono (fun _ _ hi => hi.mono hσ) _ _ h.filters
  groupBy := h.groupBy.mono hσ
  having := Filter.AllPaired.mono (fun _ _ hi => hi.mono hσ) _ _ h.having
  orderBy := h.orderBy.imp fun _ _ ho => ⟨ho.item.mono hσ, ho.direction⟩
  firstRow := h.firstRow
  maxRows := h.maxRows

namespace FromItem

mutual

/-- From items of one form over the same tables, whose subqueries and conditions are mirrored. -/
def Mirrored (ρ : Runs) (leaves : List FromItem) : FromItem → FromItem → Prop
  | .table t aliasName, f' => f' = .table t aliasName
  | .subquery q aliasName, f' => ∃ q', f' = .subquery q' aliasName ∧ QueriesMirrored ρ q q'
  | .expression text aliasName, f' => f' = .expression text aliasName
  | .join kind l r conditions aliasName, f' => ∃ l' r' conditions',
      f' = .join kind l' r' conditions' aliasName ∧ Mirrored ρ leaves l l' ∧ Mirrored ρ leaves r r' ∧
        Engine.ConditionsAlike ρ leaves conditions conditions'
termination_by structural f => f

/-- From items that are mirrored one by one. -/
def AllMirrored (ρ : Runs) (leaves : List FromItem) : List FromItem → List FromItem → Prop
  | [], sources' => sources' = []
  | f :: rest, sources' => ∃ f' rest', sources' = f' :: rest' ∧ Mirrored ρ leaves f f' ∧
      AllMirrored ρ leaves rest rest'
termination_by structural sources => sources

/-- Mirrored queries, over the from items of the first one. -/
def QueriesMirrored (ρ : Runs) : QueryOf FromItem → QueryOf FromItem → Prop
  | ⟨select, distinct, sources, filters, groupBy, having, orderBy, firstRow, maxRows⟩, q' =>
    QueryOf.ClausesMirrored ρ (sources.flatMap leaves)
        ⟨select, distinct, sources, filters, groupBy, having, orderBy, firstRow, maxRows⟩ q' ∧
      AllMirrored ρ (sources.flatMap leaves) sources q'.sources
termination_by structural q => q

end

variable {ρ σ : Runs} {leaves : List FromItem}

mutual

theorem Mirrored.mono (hσ : σ.Extends ρ) (leaves : List FromItem) :
    (f f' : FromItem) → Mirrored ρ leaves f f' → Mirrored σ leaves f f'
  | .table _ _, _, h => h
  | .subquery q _, _, ⟨q', hf, hq⟩ => ⟨q', hf, QueriesMirrored.mono hσ q q' hq⟩
  | .expression _ _, _, h => h
  | .join _ l r _ _, _, ⟨l', r', conditions', hf, hl, hr, hconditions⟩ =>
    ⟨l', r', conditions', hf, Mirrored.mono hσ leaves l l' hl, Mirrored.mono hσ leaves r r' hr,
      hconditions.imp fun _ _ hc => ⟨hc.1.mono hσ, hc.2.mono hσ⟩⟩

theorem AllMirrored.mono (hσ : σ.Extends ρ) (leaves : List FromItem) :
    (sources sources' : List FromItem) → AllMirrored ρ leaves sources sources' →
      AllMirrored σ leaves sources sources'
  | [], _, h => h
  | f :: rest, _, ⟨f', rest', hsources, hf, hrest⟩ =>
    ⟨f', rest', hsources, Mirrored.mono hσ leaves f f' hf, AllMirrored.mono hσ leaves rest rest' hrest⟩

theorem QueriesMirrored.mono (hσ : σ.Extends ρ) :
    (q q' : QueryOf FromItem) → QueriesMirrored ρ q q' → QueriesMirrored σ q q'
  | ⟨_, _, sources, _, _, _, _, _, _⟩, q', ⟨hclauses, hsources⟩ =>
    ⟨hclauses.mono hσ, AllMirrored.mono hσ _ sources q'.sources hsources⟩

end

/-- The clauses of queries that are mirrored, but for FROM. -/
theorem QueriesMirrored.clauses {q q' : Query} (h : QueriesMirrored ρ q q') :
    q.ClausesMirrored ρ (q.sources.flatMap FromItem.leaves) q' := by
  cases q
  exact h.1

end FromItem

/-- A query over tables of a source whose from items are clear and own the columns of their tables, and
which does not group by an aggregate. -/
structure QueryOf.IsClear (s : RowSource) (q : Query) : Prop where
  leaves : FromItem.AreClear (q.sources.flatMap FromItem.leaves)
  tables : ∀ leaf ∈ q.sources.flatMap FromItem.leaves, ∀ t, leaf.table? = some t →
    ∃ name, s.table? name = some t
  columns : ∀ leaf ∈ q.sources.flatMap FromItem.leaves, ∀ t, leaf.table? = some t →
    ∀ c ∈ t.columns, owns c leaf = true
  groupBy : ∀ g ∈ q.groupBy, g.aggregate? = none

namespace Engine

variable {ρ σ : Runs} {leaves : List FromItem} {s : RowSource} {options : Options} {q q' : Query}
  {needed needed' : List Item}

/-! ## Items that mirrored queries need -/

section Clauses

variable (hq : q.ClausesMirrored ρ leaves q')

include hq

theorem shareSenses_laterItems :
    ShareSenses ρ leaves (q.groupBy ++ Filter.itemsOf q.having ++ q.orderBy.map (·.item))
      (q'.groupBy ++ Filter.itemsOf q'.having ++ q'.orderBy.map (·.item)) :=
  AllCounterparts.shareSenses (List.rel_append
    (List.rel_append hq.groupBy (Filter.AllPaired.itemsOf _ _ hq.having))
    (List.rel_map (fun _ _ ho => ho.item) hq.orderBy))

theorem shareSenses_withLaterItems (hρ : IsVocabulary ρ.known)
    (h : ShareSenses ρ leaves needed needed') :
    ShareSenses ρ leaves (withLaterItems q needed) (withLaterItems q' needed') :=
  h.foldl_pushNew hρ (shareSenses_laterItems hq)

theorem shareSenses_neededItems (hρ : IsVocabulary ρ.known) :
    ShareSenses ρ leaves (neededItems q) (neededItems q') :=
  shareSenses_withLaterItems hq hρ (ShareSenses.nil.foldl_pushNew hρ (AllCounterparts.shareSenses
    (List.rel_append hq.select (Filter.AllPaired.itemsOf _ _ hq.filters))))

end Clauses

/-! ## The clauses -/

/-- Data sets with the select lists of two queries as their headers. -/
structure SelectedAlike (ρ : Runs) (leaves : List FromItem) (q q' : Query) (d d' : RowSet) : Prop where
  counterparts : d.Counterparts ρ leaves d'
  left : d.header.map (sense leaves) = q.select.map (sense leaves)
  right : d'.header.map (sense leaves) = q'.select.map (sense leaves)

/-- A window of counterparts with the select lists as headers. -/
theorem SelectedAlike.paged {d d' : RowSet} (h : SelectedAlike ρ leaves q q' d d') (firstRow : Nat)
    (maxRows : Option Nat) :
    SelectedAlike ρ leaves q q' (d.paged firstRow maxRows) (d'.paged firstRow maxRows) := by
  refine ⟨h.counterparts.paged firstRow maxRows, ?_, ?_⟩ <;> rw [RowSet.header_paged]
  · exact h.left
  · exact h.right

section Finish

variable (hρ : IsVocabulary ρ.known) (hq : q.ClausesMirrored ρ leaves q')

include hρ hq

theorem follows_combined {sets sets' : List RowSet}
    (h : List.Forall₂ (RowSet.Counterparts ρ leaves) sets sets')
    (hapart : RowSet.AllApart leaves sets) :
    Follows ρ (fun σ d d' => d.Counterparts σ leaves d') (combined q sets) (combined q' sets') := by
  have hproduct : Follows ρ (fun σ d d' => d.Counterparts σ leaves d')
      (RowSet.cartesianProduct sets q.filters) (RowSet.cartesianProduct sets' q'.filters) :=
    (RowSet.follows_cartesianProduct hρ h hapart hq.filters).mono fun _ _ _ _ he => he.1
  cases h with
  | nil => exact hproduct
  | cons hd hrest =>
    cases hrest with
    | nil => exact follows_pure (hd.filtered hρ hq.filters)
    | cons _ _ => exact hproduct

theorem follows_reduced (hplain : ∀ g ∈ q.groupBy, g.aggregate? = none) {d d' : RowSet}
    (h : d.Counterparts ρ leaves d') :
    Follows ρ (fun σ e e' => e.Counterparts σ leaves e') (reduced q d) (reduced q' d') := by
  have hitems := shareSenses_withLaterItems hq hρ hq.select.shareSenses
  unfold reduced
  rw [← hq.groupBy.shareSenses.isEmpty_eq]
  split
  · exact RowSet.follows_aggregated hρ h hitems
  · exact (RowSet.follows_grouped hρ h hq.groupBy hitems hplain).mono fun _ _ _ _ he => he.1

theorem follows_arranged {d d' : RowSet} (h : d.Counterparts ρ leaves d') :
    Follows ρ (fun σ => SelectedAlike σ leaves q q') (arranged q d) (arranged q' d') := by
  have horder {σ : Runs} (hσ : σ.Extends ρ) :
      List.Forall₂ (RowSet.OrderedAlike σ leaves) q.orderBy q'.orderBy :=
    (hq.mono hσ).orderBy
  unfold arranged
  rw [← hq.distinct]
  split
  · refine (RowSet.follows_selection hρ h hq.select.shareSenses).bind
      fun σ hσ d d' ⟨hd, hleft, hright⟩ => ?_
    have hheader := hleft.trans (hq.select.senses.trans hright.symm)
    refine (RowSet.follows_distinct (hσ.vocabulary hρ) hd hheader).bind
      fun τ hτ e e' ⟨he, heq, heq'⟩ => ?_
    have hτρ := hτ.trans hσ
    refine (RowSet.follows_ordered (hτρ.vocabulary hρ) he (horder hτρ)).mono
      fun υ _ b b' ⟨hb, hbeq, hbeq'⟩ => ⟨hb, ?_, ?_⟩
    · rw [hbeq, heq, hleft]
    · rw [hbeq', heq', hright]
  · refine (RowSet.follows_ordered hρ h (horder (.refl ρ))).bind fun σ hσ d d' ⟨hd, _, _⟩ => ?_
    exact (RowSet.follows_selection (hσ.vocabulary hρ) hd (hq.select.mono hσ).shareSenses).mono
      fun _ _ _ _ ⟨he, hleft, hright⟩ => ⟨he, hleft, hright⟩

/-- **The clauses of mirrored queries** shape counterparts into counterparts. -/
theorem follows_finish (hplain : ∀ g ∈ q.groupBy, g.aggregate? = none) {sets sets' : List RowSet}
    (h : List.Forall₂ (RowSet.Counterparts ρ leaves) sets sets')
    (hapart : RowSet.AllApart leaves sets) :
    Follows ρ (fun σ => SelectedAlike σ leaves q q') (finish q sets) (finish q' sets') := by
  rw [finish_eq, finish_eq, ← hq.firstRow, ← hq.maxRows]
  refine (follows_combined hρ hq h hapart).bind fun σ hσ d d' hd => ?_
  refine (follows_reduced (hσ.vocabulary hρ) (hq.mono hσ) hplain hd).bind fun τ hτ e e' he => ?_
  have hτρ := hτ.trans hσ
  have hvocabulary := hτρ.vocabulary hρ
  refine (follows_arranged hvocabulary (hq.mono hτρ)
    (he.filtered hvocabulary (hq.mono hτρ).having)).bind fun υ _ b b' hb => ?_
  exact follows_pure (hb.paged q.firstRow q.maxRows)

end Finish

/-! ## Short ways -/

/-- Whether at most one equality filters. -/
def isCountable : List Filter → Bool
  | [] => true
  | [.comparison _ .equal _] => true
  | _ => false

theorem countItem?_eq (items : List Item) (filters : List Filter) : countItem? items filters =
    match items with
    | [i] => if isCountable filters && i.isCountAll then some i else none
    | _ => none := by
  rcases items with _ | ⟨i, _ | ⟨j, more⟩⟩
  · rfl
  · rcases filters with _ | ⟨⟨item, op, x⟩ | _, _ | ⟨g, rest⟩⟩
    · rfl
    · cases op <;> rfl
    · cases op <;> rfl
    · rfl
    · rfl
  · rfl

theorem isCountable_mirrored {R : Item → Item → Prop} {filters filters' : List Filter}
    (h : Filter.AllPaired R filters filters') : isCountable filters = isCountable filters' := by
  rcases filters with _ | ⟨⟨i, op, x⟩ | _, _ | ⟨g, rest⟩⟩ <;>
    rcases filters' with _ | ⟨⟨i', op', x'⟩ | _, _ | ⟨g', rest'⟩⟩ <;>
      simp only [Filter.AllPaired, Filter.Paired, and_false, false_and] at h <;> try rfl
  · obtain ⟨⟨-, rfl, -⟩, -⟩ := h
    cases op <;> rfl
  · obtain ⟨⟨-, rfl, -⟩, -⟩ := h
    cases op <;> rfl

theorem keyCondition?_several (t : Table) (f g : Filter) (rest : List Filter) :
    keyCondition? t (f :: g :: rest) = none := by
  unfold keyCondition?
  split
  next heq => cases heq
  next => rfl

section Short

variable (hρ : IsVocabulary ρ.known) (hq : q.ClausesMirrored ρ leaves q')

include hq

theorem isSimple_mirrored : isSimple q.select = isSimple q'.select :=
  hq.select.shareSenses.all_eq fun i i' h => by
    rw [← Item.aggregate?_sense leaves i, ← Item.expression?_sense leaves i, h.sense,
      Item.aggregate?_sense, Item.expression?_sense]

/-- Both queries count all rows, or neither does. -/
theorem countItem?_mirrored :
    Option.Rel (fun i i' => q.select = [i] ∧ i.approximate = i'.approximate)
      (countItem? q.select q.filters) (countItem? q'.select q'.filters) := by
  have hselect := hq.select
  rw [countItem?_eq, countItem?_eq, ← isCountable_mirrored hq.filters]
  generalize q.select = select, q'.select = select' at hselect ⊢
  cases hselect with
  | nil => exact .none
  | @cons i i' _ _ hi hrest =>
    cases hrest with
    | cons _ _ => exact .none
    | nil =>
      have hcount : i.isCountAll = i'.isCountAll := by
        rw [← Item.isCountAll_sense leaves i, hi.sense, Item.isCountAll_sense]
      have happroximate : i.approximate = i'.approximate := by
        rw [← Item.approximate_sense leaves i, hi.sense, Item.approximate_sense]
      dsimp only
      rw [← hcount]
      split
      · exact .some ⟨rfl, happroximate⟩
      · exact .none

/-- Both queries ask for one key, or neither asks for any. -/
theorem keyCondition?_mirrored (t : Table) :
    keyCondition? t q.filters = keyCondition? t q'.filters := by
  have hfilters := Filter.allPaired_iff.mp hq.filters
  generalize q.filters = filters, q'.filters = filters' at hfilters ⊢
  cases hfilters with
  | nil => rfl
  | @cons f f' _ _ hf hfs =>
    cases hfs with
    | cons _ _ => rw [keyCondition?_several, keyCondition?_several]
    | nil =>
      cases f with
      | group => cases f' with
        | group => rfl
        | comparison => exact hf.elim
      | comparison i op x => cases f' with
        | group => exact hf.elim
        | comparison i' op' x' =>
          obtain ⟨hi, rfl, hx⟩ := hf
          have hfunction : i.function = i'.function := by
            rw [← Item.function_sense leaves i, hi.sense, Item.function_sense]
          have hcolumn : i.column? = i'.column? := by
            rw [← Item.column?_sense leaves i, hi.sense, Item.column?_sense]
          cases hx with
          | value key =>
            unfold keyCondition?
            cases op <;> simp only [hfunction, hcolumn]
          | _ => cases op <;> rfl

end Short

section Shortcuts

variable (hs : s.IsUniform) (hρ : IsVocabulary ρ.known) (hq : q.ClausesMirrored ρ leaves q')

include hs hq

theorem follows_countShortcut (t : Table) :
    Follows ρ (fun σ => Option.Rel (SelectedAlike σ leaves q q')) (countShortcut s options q t)
      (countShortcut s options q' t) := by
  have hitem : Option.Rel (fun i i' => q.select = [i] ∧ i.approximate = i'.approximate)
      (if options.countPushdown then countItem? q.select q.filters else none)
      (if options.countPushdown then countItem? q'.select q'.filters else none) := by
    split
    · exact countItem?_mirrored hq
    · exact .none
  unfold countShortcut
  rw [← hq.firstRow, ← hq.maxRows]
  generalize (if options.countPushdown then countItem? q.select q.filters else none) = counted,
    (if options.countPushdown then countItem? q'.select q'.filters else none) = counted' at hitem ⊢
  cases hitem with
  | none => exact follows_pure .none
  | some hi =>
    obtain ⟨hselect, happroximate⟩ := hi
    dsimp only
    rw [← happroximate]
    refine (RowSource.follows_askCount hs t hq.filters _).bind fun σ hσ count _ heq => ?_
    subst heq
    cases count with
    | none => exact follows_pure .none
    | some n =>
      have hitems := hq.select.mono hσ
      refine follows_pure (.some (SelectedAlike.paged ⟨?_, rfl, rfl⟩ _ _))
      refine RowSet.counterparts_ofRows hitems.shareSenses (.cons ?_ .nil)
      refine Row.counterparts_of_cells hitems.shareSenses ?_ none none
      refine Row.cellsAlike_of_nodup hitems ?_ ?_ <;> rw [hselect]
      · exact List.nodup_singleton _
      · rfl

include hρ

theorem follows_keyShortcut {t : Table} {name : String} (ht : s.table? name = some t)
    (hplaced : ∀ c ∈ t.columns, (Item.ofColumn 0 c none).IsPlaced leaves) :
    Follows ρ (fun σ => Option.Rel (SelectedAlike σ leaves q q')) (keyShortcut s options q t)
      (keyShortcut s options q' t) := by
  unfold keyShortcut
  rw [← isSimple_mirrored hq, ← keyCondition?_mirrored hq, ← hq.firstRow, ← hq.maxRows]
  generalize (if options.keyLookup && isSimple q.select then keyCondition? t q.filters else none) =
    condition
  rcases condition with _ | ⟨column, key⟩
  · exact follows_pure .none
  · refine (RowSource.follows_askLookup hs hρ ht hplaced hq.select column key).bind
      fun σ hσ found found' hfound => ?_
    cases hfound with
    | none => exact follows_pure .none
    | some hd =>
      refine (RowSet.follows_selection (hσ.vocabulary hρ) hd (hq.select.mono hσ).shareSenses).bind
        fun τ _ d d' ⟨hd, hleft, hright⟩ => follows_pure (.some ?_)
      exact SelectedAlike.paged ⟨hd, hleft, hright⟩ _ _

/-- **A short way that is taken** is taken by both queries. -/
theorem follows_shortcut {t : Table} {name : String} (ht : s.table? name = some t)
    (hplaced : ∀ c ∈ t.columns, (Item.ofColumn 0 c none).IsPlaced leaves) :
    Follows ρ (fun σ => Option.Rel (SelectedAlike σ leaves q q')) (shortcut s options q t)
      (shortcut s options q' t) := by
  have hordered : q.orderBy.isEmpty = q'.orderBy.isEmpty := by
    have horder := hq.orderBy
    generalize q.orderBy = orderBy, q'.orderBy = orderBy' at horder ⊢
    cases horder <;> rfl
  unfold shortcut
  refine (follows_countShortcut hs hq t).bind fun σ hσ counted counted' hcounted => ?_
  cases hcounted with
  | some hd => exact follows_pure (.some hd)
  | none =>
    have hmore := hq.mono hσ
    refine (follows_keyShortcut hs (hσ.vocabulary hρ) hmore ht hplaced).bind
      fun τ hτ found found' hfound => ?_
    cases hfound with
    | some hd => exact follows_pure (.some hd)
    | none =>
      have hτρ := hτ.trans hσ
      have hlast := hq.mono hτρ
      dsimp only
      rw [← isSimple_mirrored hq, ← hq.distinct, ← hordered, ← hq.firstRow, ← hq.maxRows]
      split
      · refine (RowSource.follows_materializeTable hs (hτρ.vocabulary hρ) t hlast.select.shareSenses
          hlast.filters q.firstRow q.maxRows).bind fun υ _ d d' ⟨hd, hleft, hright⟩ => ?_
        exact follows_pure (.some ⟨hd, hleft, hright⟩)
      · exact follows_pure .none

end Shortcuts

/-! ## The long way -/

theorem table?_mirrored {f f' : FromItem} (h : FromItem.Mirrored ρ leaves f f') :
    f.table? = f'.table? := by
  cases f with
  | table t aliasName =>
    obtain rfl := h
    rfl
  | subquery q aliasName =>
    obtain ⟨q', rfl, -⟩ := h
    rfl
  | expression text aliasName =>
    obtain rfl := h
    rfl
  | join kind l r conditions aliasName =>
    obtain ⟨l', r', conditions', rfl, -⟩ := h
    rfl

theorem shortcutTable?_mirrored (hq : q.ClausesMirrored ρ leaves q')
    (hsources : FromItem.AllMirrored ρ leaves q.sources q'.sources) :
    shortcutTable? q = shortcutTable? q' := by
  have hhaving : q.having.isEmpty = q'.having.isEmpty := by
    have h := Filter.allPaired_iff.mp hq.having
    generalize q.having = having, q'.having = having' at h ⊢
    cases h <;> rfl
  unfold shortcutTable?
  rw [← hq.groupBy.shareSenses.isEmpty_eq, ← hhaving]
  generalize q.sources = sources, q'.sources = sources' at hsources ⊢
  rcases sources with _ | ⟨f, _ | ⟨g, rest⟩⟩
  · obtain rfl := hsources
    rfl
  · obtain ⟨f', _, rfl, hf, rfl⟩ := hsources
    dsimp only
    rw [table?_mirrored hf]
  · obtain ⟨f', _, rfl, -, g', rest', rfl, -⟩ := hsources
    rfl

/-- A query follows another one if its long way does. -/
theorem follows_execute_of_longWay (hs : s.IsUniform) (hρ : IsVocabulary ρ.known)
    (hclear : q.IsClear s) (hq : q.ClausesMirrored ρ (q.sources.flatMap FromItem.leaves) q')
    (hsources : FromItem.AllMirrored ρ (q.sources.flatMap FromItem.leaves) q.sources q'.sources)
    (hlong : ∀ σ : Runs, σ.Extends ρ → Follows σ
      (fun τ => SelectedAlike τ (q.sources.flatMap FromItem.leaves) q q') (longWay s options q)
        (longWay s options q')) :
    Follows ρ (fun σ => SelectedAlike σ (q.sources.flatMap FromItem.leaves) q q')
      (execute s options q) (execute s options q') := by
  by_cases hempty : q.sources = []
  · rw [execute_of_no_sources s options hempty]
    exact follows_of_failure fun _ _ _ => nofun
  have hempty' : q'.sources ≠ [] := by
    intro heq
    rw [heq] at hsources
    cases hlist : q.sources with
    | nil => exact hempty hlist
    | cons f rest =>
      rw [hlist] at hsources
      obtain ⟨_, _, heq, -⟩ := hsources
      cases heq
  by_cases hzero : q.maxRows = some 0
  · rw [execute_of_no_rows s options hempty hzero,
      execute_of_no_rows s options hempty' (hq.maxRows ▸ hzero)]
    exact follows_pure ⟨RowSet.counterparts_empty hq.select.shareSenses, rfl, rfl⟩
  rw [execute_of_sources s options hempty hzero,
    execute_of_sources s options hempty' (hq.maxRows ▸ hzero), ← shortcutTable?_mirrored hq hsources]
  cases htable : shortcutTable? q with
  | none =>
    simp only [pure_bind]
    exact hlong ρ (.refl ρ)
  | some t =>
    obtain ⟨aliasName, hsingle, -⟩ := exists_of_shortcutTable? htable
    have hleaf : FromItem.table t aliasName ∈ q.sources.flatMap FromItem.leaves := by
      rw [hsingle]
      exact List.mem_singleton_self _
    obtain ⟨name, hname⟩ := hclear.tables _ hleaf t rfl
    refine (follows_shortcut hs hρ hq hname fun c hc => ?_).bind fun σ hσ short short' hshort => ?_
    · rintro _ ⟨⟩
      exact ⟨_, hleaf, hclear.columns _ hleaf t rfl c hc, nofun⟩
    · cases hshort with
      | some hd => exact follows_pure hd
      | none => exact hlong σ hσ

/-! ## From items -/

/-- Data sets of a from item in two runs, under the labels of some leaves. -/
structure GivenAlike (ρ : Runs) (leaves own : List FromItem) (d d' : RowSet) : Prop where
  counterparts : d.Counterparts ρ leaves d'
  under : ∀ x ∈ d.header, ∃ leaf ∈ own, (sense leaves x).isUnder leaf.label? = true

theorem GivenAlike.mono {own more : List FromItem} {d d' : RowSet} (h : GivenAlike ρ leaves own d d')
    (hσ : σ.Extends ρ) (hown : own ⊆ more) : GivenAlike σ leaves more d d' := by
  refine ⟨h.counterparts.mono hσ, fun x hx => ?_⟩
  obtain ⟨leaf, hleaf, hunder⟩ := h.under x hx
  exact ⟨leaf, hown hleaf, hunder⟩

/-- What stands under the labels of from items that are told apart has no sense in common. -/
theorem apart_of_under {own more : List FromItem} {header items : List Item}
    (h : ∀ f ∈ own, ∀ g ∈ more, f.ToldApart g)
    (hheader : ∀ x ∈ header, ∃ leaf ∈ own, (sense leaves x).isUnder leaf.label? = true)
    (hitems : ∀ x ∈ items, ∃ leaf ∈ more, (sense leaves x).isUnder leaf.label? = true) :
    Item.Apart leaves header items := by
  intro x hx y hy heq
  obtain ⟨f, hf, hunder⟩ := hheader x hx
  obtain ⟨g, hg, hunder'⟩ := hitems y hy
  rw [heq] at hunder
  exact (h f hf g hg).not_under hunder hunder'

/-- Headers of the same senses stand under the same labels. -/
theorem under_of_senses {own : List FromItem} {header items : List Item}
    (h : header.map (sense leaves) = items.map (sense leaves))
    (hitems : ∀ x ∈ items, ∃ leaf ∈ own, (sense leaves x).isUnder leaf.label? = true) :
    ∀ x ∈ header, ∃ leaf ∈ own, (sense leaves x).isUnder leaf.label? = true := by
  intro x hx
  obtain ⟨y, hy, heq⟩ := List.mem_map.mp (h ▸ List.mem_map_of_mem (f := sense leaves) hx)
  rw [← heq]
  exact hitems y hy

section FromItems

set_option linter.unusedSectionVars false

variable (hs : s.IsUniform)

include hs

/-- **A table** is read alike. -/
theorem follows_materialize_table (hρ : IsVocabulary ρ.known) (hclear : FromItem.AreClear leaves)
    {t : Table} {aliasName : Option String} (ht : .table t aliasName ∈ leaves)
    (hneeded : ShareSenses ρ leaves needed needed') :
    Follows ρ (fun σ => GivenAlike σ leaves (FromItem.table t aliasName).leaves)
      (materialize s options needed (.table t aliasName))
      (materialize s options needed' (.table t aliasName)) := by
  unfold materialize
  refine (follows_tableItems hclear ht hρ hneeded).bind fun σ hσ items items' ⟨hitems, hunder⟩ => ?_
  refine (RowSource.follows_materializeTable hs (hσ.vocabulary hρ) t hitems.shareSenses
    (show Filter.AllPaired _ [] [] from trivial) 1 none).mono fun τ _ d d' ⟨hd, hheader, _⟩ => ⟨hd, ?_⟩
  exact under_of_senses hheader fun x hx => ⟨_, List.mem_singleton_self _, hunder x hx⟩

mutual

/-- From items that are mirrored are read alike. -/
theorem follows_materialize : (f : FromItem) → (ρ : Runs) → IsVocabulary ρ.known →
    (leaves : List FromItem) → FromItem.AreClear leaves → f.leaves.Sublist leaves → (f' : FromItem) →
    FromItem.Mirrored ρ leaves f f' → (needed needed' : List Item) →
    ShareSenses ρ leaves needed needed' → (∀ q ∈ f.queries, QueryOf.IsClear s q) →
      Follows ρ (fun σ => GivenAlike σ leaves f.leaves) (materialize s options needed f)
        (materialize s options needed' f')
  | .table t aliasName, ρ, hρ, leaves, hclear, hleaves, _, rfl, needed, needed', hneeded, _ =>
    follows_materialize_table hs hρ hclear (hleaves.subset (List.mem_singleton_self _)) hneeded
  | .subquery q aliasName, ρ, hρ, leaves, _, _, _, ⟨q', rfl, hq⟩, needed, needed', hneeded, hwithin => by
    unfold materialize
    refine (follows_subqueryItems hρ hneeded aliasName).bind
      fun σ hσ items items' ⟨hitems, hunder, hcolumns⟩ => ?_
    refine (follows_execute q σ (hσ.vocabulary hρ) q' (FromItem.QueriesMirrored.mono hσ q q' hq)
      hwithin).bind fun τ hτ d d' hd => follows_pure ⟨?_, fun x hx => ?_⟩
    · exact hd.counterparts.projected ((hτ.trans hσ).vocabulary hρ) (hitems.mono hτ)
        (Or.inr ⟨fun i hi => (hunder i hi).1, hcolumns⟩)
    · refine ⟨_, List.mem_singleton_self _, ?_⟩
      obtain ⟨hcolumn, hlabel⟩ := hunder x hx
      rw [isUnder_sense hcolumn]
      cases aliasName <;> exact hlabel
  | .expression text aliasName, ρ, _, _, _, _, _, _, _, _, _, _ => by
    unfold materialize
    exact follows_of_failure fun _ _ _ => nofun
  | .join kind l r conditions aliasName, ρ, hρ, leaves, hclear, hleaves, _,
      ⟨l', r', conditions', rfl, hl, hr, hconditions⟩, needed, needed', hneeded, hwithin => by
    have hboth : (l.leaves ++ r.leaves).Sublist leaves := hleaves
    have hapart := List.pairwise_append.mp (hclear.apart.sublist hboth)
    have hmore := shareSenses_joinItems hconditions hρ hneeded
    unfold materialize
    refine (follows_materialize l ρ hρ leaves hclear ((List.sublist_append_left _ _).trans hboth) l' hl _ _
      hmore fun q hq => hwithin q (List.mem_append_left _ hq)).bind fun σ hσ d d' hd => ?_
    refine ((follows_materialize r σ (hσ.vocabulary hρ) leaves hclear
      ((List.sublist_append_right _ _).trans hboth) r' (FromItem.Mirrored.mono hσ leaves r r' hr) _ _
        (hmore.mono hσ) fun q hq => hwithin q (List.mem_append_right _ hq)).orElseClosing).bind
          fun τ hτ e e' he => ?_
    have hτρ := hτ.trans hσ
    have hjoined := follows_join (hconditions.imp fun _ _ hc => ⟨hc.1.mono hτρ, hc.2.mono hτρ⟩)
      (hτρ.vocabulary hρ) kind (hd.counterparts.mono hτ) he.counterparts
      (apart_of_under hapart.2.2 hd.under he.under)
    refine hjoined.mono fun υ _ b b' ⟨hb, hheader⟩ => ⟨hb, under_of_senses hheader fun x hx => ?_⟩
    rcases List.mem_append.mp hx with hx | hx
    · exact (hd.mono (.refl σ) (List.subset_append_left _ r.leaves)).under x hx
    · exact (he.mono (.refl τ) (List.subset_append_right l.leaves _)).under x hx

/-- From items are read alike one after the other, behind those that were read before. -/
theorem follows_materializeAll : (sources : List FromItem) → (ρ : Runs) → IsVocabulary ρ.known →
    (leaves : List FromItem) → FromItem.AreClear leaves → (own : List FromItem) →
    (own ++ sources.flatMap FromItem.leaves).Sublist leaves → (sources' : List FromItem) →
    FromItem.AllMirrored ρ leaves sources sources' → (needed needed' : List Item) →
    ShareSenses ρ leaves needed needed' → (∀ q ∈ FromItem.queriesIn sources, QueryOf.IsClear s q) →
    (done done' : List RowSet) → List.Forall₂ (GivenAlike ρ leaves own) done done' →
    RowSet.AllApart leaves done →
      Follows ρ (fun σ sets sets' => List.Forall₂ (RowSet.Counterparts σ leaves) sets sets' ∧
          RowSet.AllApart leaves sets)
        (materializeAll s options needed done sources)
        (materializeAll s options needed' done' sources')
  | [], ρ, _, leaves, _, _, _, _, rfl, _, _, _, _, done, done', hdone, hapart => by
    unfold materializeAll
    exact follows_pure ⟨hdone.imp fun _ _ h => h.counterparts, hapart⟩
  | f :: rest, ρ, hρ, leaves, hclear, own, hleaves, _, ⟨f', rest', rfl, hf, hrest⟩, needed, needed',
      hneeded, hwithin, done, done', hdone, hapart => by
    rw [List.flatMap_cons, ← List.append_assoc] at hleaves
    have hown : (own ++ f.leaves).Sublist leaves := (List.sublist_append_left _ _).trans hleaves
    have htold := List.pairwise_append.mp (hclear.apart.sublist hown)
    unfold materializeAll
    refine ((follows_materialize f ρ hρ leaves hclear ((List.sublist_append_right _ _).trans hown) f' hf _ _
      hneeded fun q hq => hwithin q (List.mem_append_left _ hq)).orElseClosing).bind
        fun σ hσ d d' hd => ?_
    refine follows_materializeAll rest σ (hσ.vocabulary hρ) leaves hclear (own ++ f.leaves) hleaves rest'
      (FromItem.AllMirrored.mono hσ leaves rest rest' hrest) _ _ (hneeded.mono hσ)
      (fun q hq => hwithin q (List.mem_append_right _ hq)) _ _ ?_ ?_
    · exact List.rel_append (hdone.imp fun _ _ he => he.mono hσ (List.subset_append_left _ _))
        (.cons (hd.mono (.refl σ) (List.subset_append_right _ _)) .nil)
    · refine List.pairwise_append.mpr ⟨hapart, List.pairwise_singleton _ _, fun e he g hg => ?_⟩
      obtain rfl := List.mem_singleton.mp hg
      obtain ⟨_, _, hgiven⟩ := exists_of_mem_forall₂ hdone he
      exact apart_of_under htold.2.2 hgiven.under hd.under

/-- **A query that mirrors another one succeeds wherever that one does**, with its counterpart. -/
theorem follows_execute : (q : QueryOf FromItem) → (ρ : Runs) → IsVocabulary ρ.known →
    (q' : QueryOf FromItem) → FromItem.QueriesMirrored ρ q q' →
    (∀ p ∈ FromItem.queriesOf q, QueryOf.IsClear s p) →
      Follows ρ (fun σ => SelectedAlike σ (q.sources.flatMap FromItem.leaves) q q')
        (execute s options q) (execute s options q')
  | ⟨select, distinct, sources, filters, groupBy, having, orderBy, firstRow, maxRows⟩, ρ, hρ, q',
      ⟨hq, hsources⟩, hclear => by
    let q : Query := ⟨select, distinct, sources, filters, groupBy, having, orderBy, firstRow, maxRows⟩
    -- The query itself is the first of the queries in it; those of its from items are the others.
    have hself : q.IsClear s := hclear q List.mem_cons_self
    refine follows_execute_of_longWay hs hρ hself hq hsources fun σ hσ => ?_
    have hvocabulary := hσ.vocabulary hρ
    have hmore := hq.mono hσ
    unfold longWay
    refine (follows_materializeAll sources σ hvocabulary _ hself.leaves [] (List.Sublist.refl _) q'.sources
      (FromItem.AllMirrored.mono hσ _ sources q'.sources hsources) _ _
      (shareSenses_neededItems hmore hvocabulary)
      (fun p hp => hclear p (List.mem_cons_of_mem _ hp)) [] [] .nil List.Pairwise.nil).bind ?_
    exact fun τ hτ sets sets' ⟨hsets, hapart⟩ =>
      follows_finish (hτ.vocabulary hvocabulary) (hmore.mono hτ) hself.groupBy hsets hapart

end

end FromItems

end Engine

end DocQuery
