import DocQuery.Proofs.Engine.Shortcuts
import DocQuery.Proofs.Rows.Distinct
import Mathlib.Algebra.Group.Nat.Defs

/-!
# DocQuery.Proofs.Engine.CountPushdown — rows counted by the source and rows that are read

A query that selects nothing but the count of all rows may be answered by the source, which counts on
its own, or by reading the table and aggregating.  Reading gives one row with the number of rows that
the filters accept, whatever becomes of it by unique rows (`Engine.agreeing_longWay_count`).  So a
source that either declines or counts what reading accepts answers the query alike in both ways
(`Engine.isLocallyAlike_of_counts`).
-/

namespace DocQuery

open Plan
open RowSet (Presents window)

namespace Plan

variable {α β γ : Type} {R : γ → α → Prop} {S : γ → β → Prop} {p : Plan α} {f : α → Plan β}
  {x : Except QueryError γ} {l : Ledger}

/-! ## Results that agree with the answer of a plan -/

theorem agreeing_answer_of_gives (h : p.Gives l fun a l' => Agreeing S x ((f a).answer l')) :
    Agreeing S x ((p >>= f).answer l) := by
  obtain ⟨a, l', hrun, hnext⟩ := h
  rw [Plan.answer, run_bind_of_run hrun]
  exact hnext

theorem agreeing_answer_bind (h : Agreeing R x (p.answer l))
    (hf : ∀ c a l', R c a → (f a).Gives l' fun b _ => S c b) :
    Agreeing S x ((p >>= f).answer l) := by
  unfold Plan.answer at h ⊢
  rcases hrun : p.run l with ⟨result, l'⟩
  rw [hrun] at h
  cases h with
  | error e =>
    rw [run_bind_of_failure hrun]
    exact .error e
  | @ok c a hca =>
    rw [run_bind_of_run hrun]
    obtain ⟨b, _, hb, hcb⟩ := hf c a l' hca
    rw [hb]
    exact .ok hcb

end Plan

namespace RowSet

/-- Data sets with one header and the same rows under it are alike. -/
theorem alike_of_yields {ρ : Pairing} {d d' : RowSet} {header : List Item} {values : List (List Value)}
    (hheader : Item.AllAlike ρ header header) (hd : d.header = header) (hd' : d'.header = header)
    (hrows : d.Yields (values.map fun v => ⟨header, v, none⟩))
    (hrows' : d'.Yields (values.map fun v => ⟨header, v, none⟩)) : d.Alike ρ d' := by
  refine ⟨by rwa [hd, hd'], ?_⟩
  rw [hrows, hrows', List.map_map]
  exact List.rel_map (fun _ _ h => .ok ⟨hheader, congrArg _ h, rfl⟩) (List.forall₂_refl values)

/-- The row of a count. -/
def countRow (i : Item) (n : Nat) : Row := ⟨[i], [.integer (Int64.ofNat n)], none⟩

variable {i : Item} {d : RowSet} {n : Nat}

section Counting

variable (hcount : i.isCountAll = true) (hparameters : i.parameters = [])

include hcount

theorem contributions_count (row : Row) : contributions [i] row = .ok [.boolean true] := by
  unfold contributions contribution
  rw [List.mapM_cons, hcount]
  rfl

theorem aggregatesOf_count : aggregatesOf [i] = .ok [i] := by
  unfold aggregatesOf
  simp [Item.aggregate?_of_isCountAll hcount, Item.expression?_of_isCountAll hcount, Item.pushNew]

/-- Every row contributes a placeholder. -/
theorem foldlM_collectRow_count (outcomes : List (Except QueryError Row)) (c : Collected) :
    outcomes.foldlM (fun c o => o.bind (collectRow [i] c)) c =
      (Stream.collect outcomes).map fun rows =>
        ⟨(rows.map fun _ => [.boolean true]).reverse ++ c.contributed, rows.reverse ++ c.rows⟩ := by
  induction outcomes generalizing c with
  | nil => rfl
  | cons o rest ih =>
    rw [List.foldlM_cons]
    cases o with
    | error e => rfl
    | ok row =>
      have hrow : (Except.ok row : Except QueryError Row).bind (collectRow [i] c) =
          .ok ⟨[.boolean true] :: c.contributed, row :: c.rows⟩ := by
        show collectRow [i] c row = _
        unfold collectRow
        rw [contributions_count hcount row]
        rfl
      rw [hrow]
      show rest.foldlM _ _ = _
      rw [ih]
      have hcollect : Stream.collect (.ok row :: rest) = (Stream.collect rest).map (row :: ·) := rfl
      rw [hcollect]
      cases Stream.collect rest <;> simp [Except.map]

theorem aggregateAll_count (rows : List Row) :
    aggregateAll [i] (rows.map fun _ => [.boolean true]) = [.integer (Int64.ofNat rows.length)] := by
  simp [aggregateAll, aggregateAt, Item.aggregate?_of_isCountAll hcount, Builtin.aggregate,
    Value.isNull]

include hparameters

/-- **Aggregating nothing but the count of all rows** counts them, or fails as reading them does. -/
theorem answer_aggregated_count (d : RowSet) (l : Ledger) : (d.aggregated [i]).answer l =
    (Stream.collect d.stream.outcomes).map fun rows => ofRows [i] [countRow i rows.length] := by
  have hothers : [i].filter (·.aggregate?.isNone) = [] := by
    simp [Item.aggregate?_of_isCountAll hcount]
  have hbeside (results : List Value) : [i].map (valueBeside [i] results none) =
      [(results[0]?).getD .null] := by
    simp [valueBeside, Item.sameAs_self_of_isCountAll hcount hparameters]
  unfold aggregated
  rw [aggregatesOf_count hcount]
  dsimp only
  rw [hothers, List.find?_nil]
  dsimp only
  rw [answer_bind_pure, foldRows_answer, Stream.fold_eq_foldlM, foldlM_collectRow_count hcount]
  cases Stream.collect d.stream.outcomes with
  | error e => rfl
  | ok rows =>
    simp only [Except.map, List.append_nil, List.reverse_reverse, List.isEmpty_nil, if_true, hbeside,
      aggregateAll_count hcount]
    rfl

omit hparameters in
/-- One row stays when only unique rows are kept. -/
theorem gives_distinct_count (hheader : d.header = [i]) (hd : d.Yields [countRow i n]) (l : Ledger) :
    d.distinct.Gives l fun d' _ => d'.header = [i] ∧ d'.Yields [countRow i n] := by
  have hfits : Header.Fits [i] (countRow i n).values :=
    Header.fits_of_nodup (by simp) rfl
  have hshown : ∀ row ∈ [countRow i n], d.header.map row.evaluate? = row.values.map some := by
    intro row hrow
    obtain rfl := List.mem_singleton.mp hrow
    rw [hheader]
    exact Row.map_evaluate?_self hfits none
  refine (gives_distinct hd hshown (by simpa [hheader] using hfits)
    (by rw [hheader]; exact aggregatesOf_count hcount)
    (fun row _ => ⟨_, contributions_count hcount row⟩) l).mono ?_
  rintro d' l' ⟨-, hheader', hrows⟩
  rw [hheader] at hheader' hrows
  exact ⟨hheader', hrows⟩

end Counting

end RowSet

namespace Engine

open RowSet (countRow)

variable {s : RowSource} {options : Options} {P : Item → Prop} {ρ : Pairing} {q : Query} {t : Table}
  {rows : List (List Value)} {aliasName : Option String} {i : Item} {l : Ledger}

/-! ## Which queries are counted -/

theorem of_countItem? {items : List Item} {filters : List Filter}
    (h : countItem? items filters = some i) :
    items = [i] ∧ i.isCountAll = true ∧ (filters = [] ∨ ∃ f, filters = [f]) := by
  unfold countItem? at h
  split at h
  next j =>
    obtain ⟨hcount, heq⟩ := Option.ite_none_right_eq_some.mp h
    cases heq
    exact ⟨rfl, hcount, Or.inl rfl⟩
  next j x operand =>
    obtain ⟨hcount, heq⟩ := Option.ite_none_right_eq_some.mp h
    cases heq
    exact ⟨rfl, hcount, Or.inr ⟨_, rfl⟩⟩
  next => cases h

/-! ## Reading -/

/-- A query that selects nothing but the count of all rows, of one table and in no order. -/
structure Counts (q : Query) (t : Table) (aliasName : Option String) (i : Item) : Prop where
  select : q.select = [i]
  counted : i.isCountAll = true
  parameters : i.parameters = []
  sources : q.sources = [.table t aliasName]
  groupBy : q.groupBy = []
  having : q.having = []
  orderBy : q.orderBy = []

namespace Counts

variable (h : Counts q t aliasName i)

include h

theorem withLaterItems (items : List Item) : withLaterItems q items = items := by
  unfold Engine.withLaterItems
  rw [h.groupBy, h.having, h.orderBy]
  rfl

theorem isSimple_select : isSimple q.select = false := by
  unfold isSimple
  rw [h.select]
  simp [Item.aggregate?_of_isCountAll h.counted]

theorem gives_arranged {d : RowSet} {n : Nat} (hheader : d.header = [i])
    (hd : d.Yields [countRow i n]) (l : Ledger) :
    (arranged q d).Gives l fun d' _ => d'.header = [i] ∧ d'.Yields [countRow i n] := by
  have hselection : d.selection q.select = pure d := by
    have hsame : Item.same i i = true := by
      unfold Item.same
      rw [Item.sameAs_self_of_isCountAll h.counted h.parameters]
      simp
    unfold RowSet.selection
    rw [hheader, h.select, Item.sameLayout, hsame]
    rfl
  have hordered (e : RowSet) : e.ordered q.orderBy = pure e := by
    rw [h.orderBy]
    rfl
  unfold arranged
  simp only [hselection, hordered, pure_bind]
  split
  · simp only [bind_pure]
    exact RowSet.gives_distinct_count h.counted hheader hd l
  · exact gives_pure ⟨hheader, hd⟩

end Counts

/-- How many of the rows that a table presents are accepted, or why one of them could not be tested. -/
def acceptedCount (d : RowSet) (filters : List Filter) : Except QueryError Nat :=
  (Stream.collect (d.filtered filters).stream.outcomes).map List.length

/-- The data set of a count as a query answers it. -/
def ShowsCount (q : Query) (i : Item) (n : Nat) (d : RowSet) : Prop :=
  d.header = [i] ∧ d.Yields
    ((window q.firstRow q.maxRows [[.integer (Int64.ofNat n)]]).map fun values => ⟨[i], values, none⟩)

/-- The window of a query on a data set of one row. -/
theorem showsCount_paged {d : RowSet} {n : Nat} (hheader : d.header = [i])
    (hd : d.Yields [countRow i n]) : ShowsCount q i n (d.paged q.firstRow q.maxRows) := by
  refine ⟨(RowSet.header_paged _ _ _).trans hheader, ?_⟩
  rw [← RowSet.window_map]
  exact hd.paged _ _

/-- **Reading a table to count its rows** answers the number of rows that the filters accept. -/
theorem agreeing_finish_count (h : Counts q t aliasName i) (d : RowSet) (l : Ledger) :
    Agreeing (ShowsCount q i) (acceptedCount d q.filters) ((finish q [d]).answer l) := by
  have hreduced (l : Ledger) : Agreeing (fun n d' => d'.header = [i] ∧ d'.Yields [countRow i n])
      (acceptedCount d q.filters) ((reduced q (d.filtered q.filters)).answer l) := by
    unfold reduced acceptedCount
    rw [h.groupBy, h.withLaterItems, h.select]
    show Agreeing _ _ (((d.filtered q.filters).aggregated [i]).answer l)
    rw [RowSet.answer_aggregated_count h.counted h.parameters]
    refine (Agreeing.of_eq rfl).map ?_
    rintro rows _ rfl
    exact ⟨rfl, RowSet.yields_ofRows _ _⟩
  rw [finish_eq]
  refine agreeing_answer_of_gives (gives_pure (agreeing_answer_bind (hreduced l) ?_))
  rintro n d' l' ⟨hheader, hd'⟩
  rw [h.having]
  refine gives_bind ((h.gives_arranged hheader hd' l').mono ?_)
  rintro e _ ⟨hheader', he⟩
  exact gives_pure (showsCount_paged hheader' he)

/-- No more rows are accepted than there are. -/
theorem acceptedCount_le {d : RowSet} {filters : List Filter} {rows : List Row} (hd : d.Yields rows)
    {n : Nat} (h : acceptedCount d filters = .ok n) : n ≤ rows.length := by
  unfold acceptedCount at h
  cases hkept : Stream.collect (d.filtered filters).stream.outcomes with
  | error e =>
    rw [hkept] at h
    cases h
  | ok kept =>
    rw [hkept] at h
    obtain rfl : kept.length = n := by simpa [Except.map] using h
    rw [Stream.collect_eq_ok_iff] at hkept
    have hlength := congrArg List.length hkept
    rw [List.length_map] at hlength
    rw [← hlength]
    unfold RowSet.filtered
    split
    · exact Nat.le_of_eq (by rw [hd, List.length_map])
    · show (Stream.filter _ d.stream).outcomes.length ≤ _
      rw [Stream.outcomes_filter, hd, List.flatMap_map]
      -- A row that is tested leaves itself, a failure or nothing.
      have hone (row : Row) : (Stream.spread (Stream.tested fun row => Filter.allAccept row filters)
          (.ok row)).length ≤ 1 := by
        simp only [Stream.spread, Stream.tested]
        split <;> simp
      clear hd hkept hlength h
      induction rows with
      | nil => simp
      | cons row rest ih =>
        have hfirst := hone row
        rw [List.flatMap_cons, List.length_append, List.length_cons]
        omega

theorem agreeing_longWay_count (h : Counts q t aliasName i) (hbuilt : t.WellBuilt)
    (hholds : s.Holds t rows) (options : Options)
    (hneeded : ownedColumns t (aliasName.getD t.name) (neededItems q) ⊆ t.columns) (l : Ledger) :
    ∃ d : RowSet, d.Presents (some (aliasName.getD t.name)) l.nextItem
        (ownedColumns t (aliasName.getD t.name) (neededItems q)) (rows.map t.cell) ∧
      Agreeing (ShowsCount q i) (acceptedCount d q.filters) ((longWay s options q).answer l) := by
  rw [longWay_eq_of_holds options options h.sources hholds (RowSource.holds_source t rows)]
  obtain ⟨d, l', hrun, -, hd⟩ :=
    gives_materialize_table (RowSource.find?_single t rows) hbuilt options hneeded l
  refine ⟨d, hd, ?_⟩
  unfold longWay
  rw [h.sources]
  unfold materializeAll materializeAll
  refine agreeing_answer_of_gives (gives_bind (gives_orElseClosing ⟨d, l', hrun, ?_⟩))
  exact gives_pure (agreeing_finish_count h d l')

/-! ## Declining -/

section Declined

variable (hs : s.IsSteady) (hown : ∀ i ∈ q.ownItems, P i)

include hs hown

theorem alike_shortcut_of_uncounted (hρ : ρ.Fixes P)
    (hcount : ∀ past i, countItem? q.select q.filters = some i →
      s.count past t q.filters i.approximate = .ok none) :
    Plan.Alike ρ (fun σ => Option.Rel (RowSet.Alike σ))
      (shortcut s { options with countPushdown := true } q t)
      (shortcut s { options with countPushdown := false } q t) := by
  have hnone : Plan.Alike ρ (fun _ counted counted' => counted = none ∧ counted' = none)
      (countShortcut s { options with countPushdown := true } q t)
      (countShortcut s { options with countPushdown := false } q t) := by
    have hnotAsked : countShortcut s { options with countPushdown := false } q t = pure none := rfl
    rw [hnotAsked]
    unfold countShortcut
    split
    next => exact alike_pure ⟨rfl, rfl⟩
    next i hitem =>
      rw [if_pos rfl] at hitem
      unfold RowSource.askCount
      simp only [hcount _ i hitem, bind_assoc]
      exact (alike_pure ⟨rfl, rfl⟩).note_left _
  unfold shortcut
  refine hnone.bind fun σ hσ _ counted counted' h => ?_
  obtain ⟨rfl, rfl⟩ := h
  refine (alike_keyShortcut hs hown (hρ.mono hσ) rfl t).bind fun τ hτ _ found found' h => ?_
  cases h with
  | some hd => exact alike_pure (.some hd)
  | none => exact alike_straightRead hs hown (hρ.mono (hτ.trans hσ)) t

/-- **A source that declines to count is as good as one that is not asked.** -/
theorem isLocallyAlike_of_uncounted
    (hcount : ∀ t past i, shortcutTable? q = some t → countItem? q.select q.filters = some i →
      s.count past t q.filters i.approximate = .ok none) :
    IsLocallyAlike s { options with countPushdown := true }
      { options with countPushdown := false } P q :=
  isLocallyAlike_of_shortcut hown fun _ t hρ htable =>
    alike_shortcut_of_uncounted hs hown hρ fun past i => hcount t past i htable

end Declined

/-! ## Counting -/

/-- A source that counts the rows of a table as they are read. -/
def CountsAsRead (s : RowSource) (t : Table) (label : String) (rows : List (List Value)) (q : Query)
    (i : Item) : Prop :=
  ∀ past (d : RowSet) first, (∀ x ∈ Filter.itemsOf q.filters, x.id < first) →
    d.Presents (some label) first (ownedColumns t label (neededItems q)) (rows.map t.cell) →
      s.count past t q.filters i.approximate = (acceptedCount d q.filters).map some

/-- A count that fits 64 bits is an integer. -/
theorem countValue_eq {n : Nat} (h : n < 2 ^ 63) : countValue n = .integer (Int64.ofNat n) := by
  have hfits : Word.ofInt? n = some (Int64.ofInt n) := by
    unfold Word.ofInt?
    rw [if_pos]
    unfold Word.least Word.greatest
    omega
  unfold countValue
  rw [hfits]
  rfl

theorem Counts.shortcutTable?_eq (h : Counts q t aliasName i) : shortcutTable? q = some t := by
  unfold shortcutTable?
  rw [h.sources, h.groupBy, h.having]
  rfl

theorem Counts.sources_ne_nil (h : Counts q t aliasName i) : q.sources ≠ [] := by
  rw [h.sources]
  exact List.cons_ne_nil _ _

theorem run_execute_counted (options : Options) (h : Counts q t aliasName i) (hrows : q.maxRows ≠ some 0)
    (hitem : countItem? q.select q.filters = some i) {x : Except QueryError Nat}
    (hcount : s.count l.requests t q.filters i.approximate = x.map some) :
    ∃ l' : Ledger, l'.nextItem = l.nextItem ∧
      (execute s { options with countPushdown := true } q).run l = (x.map fun n =>
        (RowSet.ofRows [i] [⟨[i], [countValue n], none⟩]).paged q.firstRow q.maxRows, l') := by
  -- The only trace that counting leaves is the note of the request.
  let l' : Ledger :=
    { l with requests := l.requests ++ [.count t.name q.filters i.approximate] }
  have hask : (s.askCount t q.filters i.approximate).run l = (x.map some, l') := by
    have hnote : (note (.count t.name q.filters i.approximate)).run l = (.ok l.requests, l') := rfl
    unfold RowSource.askCount
    rw [run_bind_of_run hnote, hcount]
    cases x <;> rfl
  have hcounted : (countShortcut s { options with countPushdown := true } q t).run l = (x.map fun n =>
      some ((RowSet.ofRows [i] [⟨[i], [countValue n], none⟩]).paged q.firstRow q.maxRows), l') := by
    unfold countShortcut
    simp only [if_pos, hitem]
    rw [h.select]
    cases x with
    | error e => exact run_bind_of_failure hask
    | ok n =>
      rw [run_bind_of_run hask]
      rfl
  have hshort : (shortcut s { options with countPushdown := true } q t).run l = (x.map fun n =>
      some ((RowSet.ofRows [i] [⟨[i], [countValue n], none⟩]).paged q.firstRow q.maxRows), l') := by
    unfold shortcut
    cases x with
    | error e => exact run_bind_of_failure hcounted
    | ok n =>
      rw [run_bind_of_run hcounted]
      rfl
  refine ⟨l', rfl, ?_⟩
  rw [execute_of_table s _ h.sources_ne_nil hrows h.shortcutTable?_eq]
  cases x with
  | error e => exact run_bind_of_failure hshort
  | ok n =>
    rw [run_bind_of_run hshort]
    rfl

/-- **A source that counts rows as they are read** answers a query alike whether it is asked to count
or not. -/
theorem isLocallyAlike_of_counts (hown : ∀ i ∈ q.ownItems, P i) (h : Counts q t aliasName i)
    (hbuilt : t.WellBuilt) (hitem : countItem? q.select q.filters = some i)
    (hneeded : ownedColumns t (aliasName.getD t.name) (neededItems q) ⊆ t.columns)
    (hholds : s.Holds t rows) (hfits : rows.length < 2 ^ 63)
    (hcounts : CountsAsRead s t (aliasName.getD t.name) rows q i) :
    IsLocallyAlike s { options with countPushdown := true }
      { options with countPushdown := false } P q := by
  intro ρ hρ hlong
  by_cases hzero : q.maxRows = some 0
  · rw [execute_of_no_rows s _ h.sources_ne_nil hzero,
      execute_of_no_rows s _ h.sources_ne_nil hzero]
    exact alike_of_oneToOne fun hone =>
      alike_pure ((RowSet.alike_empty (alike_select hown hρ)).interchangeable (.refl ρ) hone)
  intro l l' hl
  have hone := hl.oneToOne
  have hdrawn : ∀ x ∈ Filter.itemsOf q.filters, x.id < l'.nextItem := fun x hx =>
    (hl.drawn _ _ (hρ x (QueryOf.own_filters hown x hx)).id).2
  obtain ⟨d, hd, hread⟩ := agreeing_longWay_count h hbuilt hholds
    { options with countPushdown := false } hneeded l'
  obtain ⟨k, hk, hrun⟩ := run_execute_counted options h hzero hitem (hcounts _ d _ hdrawn hd)
  have hnotAsked : execute s { options with countPushdown := false } q =
      longWay s { options with countPushdown := false } q := by
    have hnone : shortcut s { options with countPushdown := false } q t = pure none := by
      unfold shortcut countShortcut keyShortcut
      simp [h.isSimple_select]
    rw [execute_of_table s _ h.sources_ne_nil hzero h.shortcutTable?_eq, hnone]
    rfl
  obtain ⟨-, -, -, ⟨-, hle⟩, -⟩ := hlong ρ hρ l l' hl
  rw [hrun, hnotAsked]
  refine ⟨ρ, .refl ρ, hl.mono (Nat.le_of_eq hk.symm) hle, ⟨Nat.le_of_eq hk.symm, hle⟩, ?_⟩
  -- Both ways end in the row of the same count, or in the failure of one test.
  show Agreeing _ _ ((longWay s { options with countPushdown := false } q).answer l')
  have hselect : Item.AllAlike ρ [i] [i] := h.select ▸ alike_select hown hρ
  have hfew {n : Nat} (hn : acceptedCount d q.filters = .ok n) : n < 2 ^ 63 := by
    have hle := acceptedCount_le hd.rows hn
    rw [List.length_map, List.length_map] at hle
    omega
  generalize acceptedCount d q.filters = x at hread hfew
  generalize (longWay s { options with countPushdown := false } q).answer l' = y at hread
  cases hread with
  | error e => exact .error e
  | @ok n d' hshows =>
    have hcounted : ShowsCount q i n
        ((RowSet.ofRows [i] [⟨[i], [countValue n], none⟩]).paged q.firstRow q.maxRows) := by
      rw [countValue_eq (hfew rfl)]
      exact showsCount_paged rfl (RowSet.yields_ofRows _ _)
    have hsame := RowSet.alike_of_yields hselect hcounted.1 hshows.1 hcounted.2 hshows.2
    exact .ok (hsame.interchangeable (.refl ρ) hone)

end Engine

end DocQuery
