import DocQuery.Proofs.Query.Identities
import DocQuery.Proofs.Results
import DocQuery.Proofs.Rows.Columns
import DocQuery.Proofs.Rows.Outcomes
import DocQuery.Rows.Group
import DocQuery.Rows.Join

/-!
# DocQuery.Proofs.Rows.Identities — rows up to the identities of their items

A row finds an item by its identity or by what the item denotes.  Both are kept when the identities
of the row and of the item are exchanged for the ones that they are paired with, so rows that are
alike have the same values of items that are alike (`Row.Alike.evaluate?`).  What filtering, paging,
shaping and joining make of data sets that are alike is alike again.
-/

namespace DocQuery

namespace Header

variable {ρ : Pairing} {items items' : List Item} {i i' : Item}

/-! ## Finding items -/

theorem find?_alike (hρ : ρ.IsOneToOne) (h : Item.AllAlike ρ items items') (hi : Item.Alike ρ i i') :
    find? items i = find? items' i' := by
  unfold find?
  rw [findIdx?_of_forall₂ h fun a b hab => hρ.beq_eq hab.id hi.id,
    findIdx?_of_forall₂ h fun a b hab => hab.sameAs hi true,
    findIdx?_of_forall₂ h fun a b hab => hab.sameAs hi false]

theorem resolve?_alike (hρ : ρ.IsOneToOne) (h : Item.AllAlike ρ items items')
    (hi : Item.Alike ρ i i') : resolve? items i = resolve? items' i' := by
  unfold resolve?
  rw [find?_alike hρ h hi, find?_alike hρ h (hi.bare hρ), hi.scalar?]

theorem isReadable_alike (hρ : ρ.IsOneToOne) (h : Item.AllAlike ρ items items')
    (hi : Item.Alike ρ i i') : isReadable items i = isReadable items' i' := by
  unfold isReadable
  rw [resolve?_alike hρ h hi]
  rcases hi.inner? with ⟨hnone, hnone'⟩ | ⟨x, y, hx, hy, hxy⟩
  · rw [hnone, hnone']
    rfl
  · rw [hx, hy]
    show (_ || (resolve? items x).isSome) = (_ || (resolve? items' y).isSome)
    rw [resolve?_alike hρ h hxy]

end Header

/-! ## Rows -/

/-- Rows with items that are alike, the same values and the same styles. -/
structure Row.Alike (ρ : Pairing) (r r' : Row) : Prop where
  header : Item.AllAlike ρ r.header r'.header
  values : r.values = r'.values
  styles : r.styles = r'.styles

namespace Row.Alike

variable {ρ σ : Pairing} {r r' : Row} {i i' : Item}

theorem mono (h : r.Alike ρ r') (hσ : σ.Extends ρ) : r.Alike σ r' :=
  ⟨h.header.mono hσ, h.values, h.styles⟩

theorem value (h : r.Alike ρ r') (n : Nat) : r.value n = r'.value n := by
  unfold Row.value
  rw [h.values]

theorem style? (h : r.Alike ρ r') (n : Nat) : r.style? n = r'.style? n := by
  unfold Row.style?
  rw [h.styles]

section Reading

variable (hρ : ρ.IsOneToOne) (h : r.Alike ρ r')

include hρ h

/-- Items that are alike are located at one place. -/
theorem locate? (hi : Item.Alike ρ i i') : (r.locate? i = none ∧ r'.locate? i' = none) ∨
    ∃ found x y, r.locate? i = some (found, x) ∧ r'.locate? i' = some (found, y) ∧
      Item.Alike ρ x y := by
  unfold Row.locate?
  rw [Header.resolve?_alike hρ h.header hi]
  cases hresolve : Header.resolve? r'.header i' with
  | some found => exact Or.inr ⟨found, i, i', rfl, rfl, hi⟩
  | none =>
    rcases hi.inner? with ⟨hnone, hnone'⟩ | ⟨x, y, hx, hy, hxy⟩
    · rw [hnone, hnone']
      exact Or.inl ⟨rfl, rfl⟩
    · rw [hx, hy]
      simp only [Option.map_none, Option.bind_some, Header.resolve?_alike hρ h.header hxy]
      cases Header.resolve? r'.header y with
      | none => exact Or.inl ⟨rfl, rfl⟩
      | some found => exact Or.inr ⟨found, x, y, rfl, rfl, hxy⟩

/-- **Rows that are alike have the same values of items that are alike.** -/
theorem evaluate? (hi : Item.Alike ρ i i') : r.evaluate? i = r'.evaluate? i' := by
  unfold Row.evaluate?
  rcases locate? hρ h hi with ⟨hnone, hnone'⟩ | ⟨found, x, y, hx, hy, hxy⟩
  · rw [hnone, hnone']
    rfl
  · rw [hx, hy]
    simp only [Option.map_some, h.value, hxy.applyScalar]

theorem styleOf (hi : Item.Alike ρ i i') : r.styleOf i = r'.styleOf i' := by
  unfold Row.styleOf
  rcases locate? hρ h hi with ⟨hnone, hnone'⟩ | ⟨found, x, y, hx, hy, -⟩
  · rw [hnone, hnone']
    rfl
  · rw [hx, hy]
    simp only [Option.bind_some, h.style?]

theorem valuesOf {items items' : List Item} (hitems : Item.AllAlike ρ items items') :
    r.valuesOf items = r'.valuesOf items' := by
  induction hitems with
  | nil => rfl
  | cons hi _ ih =>
    unfold Row.valuesOf
    rw [evaluate? hρ h hi, ih, hi.sqlWithoutAlias]

theorem project {items items' : List Item} (hitems : Item.AllAlike ρ items items') :
    Agreeing (Row.Alike ρ) (r.project items) (r'.project items') := by
  unfold Row.project
  rw [valuesOf hρ h hitems]
  refine (Agreeing.of_eq rfl).map fun values _ heq => ⟨hitems, heq, ?_⟩
  have hstyles : (items.map fun i => some (r.styleOf i)) =
      items'.map fun i => some (r'.styleOf i) :=
    map_eq_map_of_forall₂ hitems fun i _ j hij => by rw [styleOf hρ h hij]
  simp only [h.styles, hstyles]

/-- A filter accepts rows that are alike together, if it reads items that stand for themselves. -/
theorem allAccept {filters : List Filter}
    (hfilters : ∀ i ∈ Filter.itemsOf filters, Item.Alike ρ i i) :
    Filter.allAccept r filters = Filter.allAccept r' filters :=
  Filter.allAccept_congr filters fun i hi => evaluate? hρ h (hfilters i hi)

end Reading

end Row.Alike

/-! ## Outcomes -/

namespace Stream

/-- What is left of some outcomes when so many are passed over: failures are passed on. -/
def afterFirst : (n : Nat) → List (Except QueryError Row) → List (Except QueryError Row)
  | 0, l => l
  | _, [] => []
  | n + 1, .ok _ :: rest => afterFirst n rest
  | n + 1, .error e :: rest => .error e :: afterFirst n rest

/-- Some outcomes up to so many rows; failures do not count. -/
def upToRows : (n : Nat) → List (Except QueryError Row) → List (Except QueryError Row)
  | 0, _ => []
  | _, [] => []
  | n + 1, .ok row :: rest => .ok row :: upToRows n rest
  | n + 1, .error e :: rest => .error e :: upToRows (n + 1) rest

theorem afterFirst_nil (n : Nat) : afterFirst n [] = [] := by cases n <;> rfl

theorem upToRows_nil (n : Nat) : upToRows n [] = [] := by cases n <;> rfl

theorem outcomes_skip_eq (n : Nat) (s : Stream) :
    (skip n s).outcomes = afterFirst n s.outcomes := by
  induction s generalizing n with
  | closed r =>
    unfold skip
    exact (afterFirst_nil n).symm
  | step r pulls outcome rest ih =>
    cases n with
    | zero => rfl
    | succ n =>
      unfold skip
      rw [if_neg (Nat.succ_ne_zero n)]
      cases outcome with
      | error e =>
        show .error e :: (skip n rest).outcomes = .error e :: afterFirst n rest.outcomes
        rw [ih]
      | ok row? =>
        cases row? with
        | none => rfl
        | some row =>
          show (charge r pulls (skip n rest)).outcomes = afterFirst n rest.outcomes
          rw [outcomes_charge, ih]

theorem outcomes_take_eq (n : Nat) (s : Stream) :
    (take n s).outcomes = upToRows n s.outcomes := by
  induction s generalizing n with
  | closed r =>
    unfold take
    exact (upToRows_nil n).symm
  | step r pulls outcome rest ih =>
    cases n with
    | zero => simp [take, upToRows]
    | succ n =>
      unfold take
      rw [if_neg (Nat.succ_ne_zero n)]
      cases outcome with
      | error e =>
        show .error e :: (take (n + 1) rest).outcomes = .error e :: upToRows (n + 1) rest.outcomes
        rw [ih]
      | ok row? =>
        cases row? with
        | none => rfl
        | some row =>
          show .ok row :: (take n rest).outcomes = .ok row :: upToRows n rest.outcomes
          rw [ih]

/-- A computation over the rows of a stream is one over its outcomes. -/
theorem fold_eq_foldlM {β : Type} (f : β → Row → Except QueryError β) (c : β) (s : Stream) :
    (s.fold f c).2 = s.outcomes.foldlM (fun c o => o.bind (f c)) c := by
  induction s generalizing c with
  | closed r => rfl
  | step r pulls outcome rest ih =>
    cases outcome with
    | error e => rfl
    | ok row? =>
      cases row? with
      | none => rfl
      | some row =>
        rw [outcomes_row, List.foldlM_cons]
        unfold fold
        cases hf : f c row with
        | error e => simp only [Except.bind, hf]; rfl
        | ok next =>
          simp only [Except.bind, hf]
          exact ih next

/-! ### Related outcomes -/

section Related

variable {S T : Except QueryError Row → Except QueryError Row → Prop}
  {l l' : List (Except QueryError Row)} {f g : Row → List (Except QueryError Row)}

/-- Related outcomes are rows in both lists or failures in both. -/
def TellsRows (S : Except QueryError Row → Except QueryError Row → Prop) : Prop :=
  ∀ o o', S o o' → o.toBool = o'.toBool

theorem forall₂_afterFirst (hS : TellsRows S) (h : List.Forall₂ S l l') (n : Nat) :
    List.Forall₂ S (afterFirst n l) (afterFirst n l') := by
  induction h generalizing n with
  | nil =>
    rw [afterFirst_nil]
    exact .nil
  | @cons o o' _ _ ho hrest ih =>
    cases n with
    | zero => exact .cons ho hrest
    | succ n =>
      have hrows := hS _ _ ho
      cases o <;> cases o' <;> cases hrows
      · exact .cons ho (ih n)
      · exact ih n

theorem forall₂_upToRows (hS : TellsRows S) (h : List.Forall₂ S l l') (n : Nat) :
    List.Forall₂ S (upToRows n l) (upToRows n l') := by
  induction h generalizing n with
  | nil =>
    rw [upToRows_nil]
    exact .nil
  | @cons o o' _ _ ho _ ih =>
    cases n with
    | zero => exact .nil
    | succ n =>
      have hrows := hS _ _ ho
      cases o <;> cases o' <;> cases hrows
      · exact .cons ho (ih (n + 1))
      · exact .cons ho (ih n)

/-- Rows replaced by related outcomes. -/
theorem forall₂_flatMap_spread (hS : TellsRows S) (h : List.Forall₂ S l l')
    (hrow : ∀ r r', S (.ok r) (.ok r') → List.Forall₂ T (f r) (g r'))
    (hfailure : ∀ e e', S (.error e) (.error e') → T (.error e) (.error e')) :
    List.Forall₂ T (l.flatMap (spread f)) (l'.flatMap (spread g)) := by
  induction h with
  | nil => exact .nil
  | @cons o o' _ _ ho _ ih =>
    rw [List.flatMap_cons, List.flatMap_cons]
    refine List.rel_append ?_ ih
    have hrows := hS _ _ ho
    cases o <;> cases o' <;> cases hrows
    · exact .cons (hfailure _ _ ho) .nil
    · exact hrow _ _ ho

end Related

/-- Outcomes that are alike place by place. -/
abbrev AllAlike (ρ : Pairing) :
    List (Except QueryError Row) → List (Except QueryError Row) → Prop :=
  List.Forall₂ (Agreeing (Row.Alike ρ))

theorem tellsRows_agreeing (R : Row → Row → Prop) : TellsRows (Agreeing R) := by
  rintro _ _ (_ | _) <;> rfl

namespace AllAlike

variable {ρ σ : Pairing} {l l' : List (Except QueryError Row)}

theorem mono (h : AllAlike ρ l l') (hσ : σ.Extends ρ) : AllAlike σ l l' :=
  h.imp fun _ _ ho => ho.mono fun _ _ hr => hr.mono hσ

theorem afterFirst (h : AllAlike ρ l l') (n : Nat) :
    AllAlike ρ (Stream.afterFirst n l) (Stream.afterFirst n l') :=
  forall₂_afterFirst (tellsRows_agreeing _) h n

theorem upToRows (h : AllAlike ρ l l') (n : Nat) :
    AllAlike ρ (Stream.upToRows n l) (Stream.upToRows n l') :=
  forall₂_upToRows (tellsRows_agreeing _) h n

/-- Rows replaced by outcomes that are alike. -/
theorem flatMap_spread (h : AllAlike ρ l l') {f g : Row → List (Except QueryError Row)}
    (hfg : ∀ r r', r.Alike ρ r' → AllAlike ρ (f r) (g r')) :
    AllAlike ρ (l.flatMap (spread f)) (l'.flatMap (spread g)) := by
  refine forall₂_flatMap_spread (tellsRows_agreeing _) h (fun r r' hr => ?_) fun e e' he => ?_
  · cases hr with
    | ok hr => exact hfg r r' hr
  · cases he with
    | error e => exact .error e

/-- Rows changed into results that agree. -/
theorem map_bind (h : AllAlike ρ l l') {f g : Row → Except QueryError Row}
    (hfg : ∀ r r', r.Alike ρ r' → Agreeing (Row.Alike ρ) (f r) (g r')) :
    AllAlike ρ (l.map (·.bind f)) (l'.map (·.bind g)) := by
  induction h with
  | nil => exact .nil
  | cons ho _ ih => exact .cons (ho.bind fun _ _ hr => hfg _ _ hr) ih

end AllAlike

end Stream

/-! ## Data sets -/

/-- Data sets with items that are alike and outcomes that are alike. -/
structure RowSet.Alike (ρ : Pairing) (d d' : RowSet) : Prop where
  header : Item.AllAlike ρ d.header d'.header
  outcomes : Stream.AllAlike ρ d.stream.outcomes d'.stream.outcomes

namespace RowSet

variable {ρ σ : Pairing} {d d' : RowSet}

theorem Alike.mono (h : d.Alike ρ d') (hσ : σ.Extends ρ) : d.Alike σ d' :=
  ⟨h.header.mono hσ, h.outcomes.mono hσ⟩

theorem alike_ofRows {header header' : List Item} {rows rows' : List Row}
    (hheader : Item.AllAlike ρ header header') (hrows : List.Forall₂ (Row.Alike ρ) rows rows') :
    (ofRows header rows).Alike ρ (ofRows header' rows') := by
  refine ⟨hheader, ?_⟩
  show Stream.AllAlike ρ (Stream.ofOutcomes _).outcomes (Stream.ofOutcomes _).outcomes
  rw [Stream.outcomes_ofOutcomes, Stream.outcomes_ofOutcomes]
  exact List.rel_map (fun _ _ hr => Agreeing.ok hr) hrows

theorem alike_empty {header header' : List Item} (hheader : Item.AllAlike ρ header header') :
    (empty header).Alike ρ (empty header') := alike_ofRows hheader .nil

theorem Alike.fromRow (h : d.Alike ρ d') (firstRow : Nat) :
    (d.fromRow firstRow).Alike ρ (d'.fromRow firstRow) := by
  refine ⟨h.header, ?_⟩
  show Stream.AllAlike ρ (Stream.skip _ d.stream).outcomes (Stream.skip _ d'.stream).outcomes
  rw [Stream.outcomes_skip_eq, Stream.outcomes_skip_eq]
  exact h.outcomes.afterFirst _

theorem Alike.atMost (h : d.Alike ρ d') (maxRows : Nat) :
    (d.atMost maxRows).Alike ρ (d'.atMost maxRows) := by
  refine ⟨h.header, ?_⟩
  show Stream.AllAlike ρ (Stream.take _ d.stream).outcomes (Stream.take _ d'.stream).outcomes
  rw [Stream.outcomes_take_eq, Stream.outcomes_take_eq]
  exact h.outcomes.upToRows _

theorem Alike.paged (h : d.Alike ρ d') (firstRow : Nat) (maxRows : Option Nat) :
    (d.paged firstRow maxRows).Alike ρ (d'.paged firstRow maxRows) := by
  have hskip : RowSet.Alike ρ (if 1 < firstRow then d.fromRow firstRow else d)
      (if 1 < firstRow then d'.fromRow firstRow else d') := by
    split
    · exact h.fromRow firstRow
    · exact h
  cases maxRows with
  | none => exact hskip
  | some n => exact hskip.atMost n

section Reading

variable (hρ : ρ.IsOneToOne) (h : d.Alike ρ d')

include hρ h

theorem Alike.filtered {filters : List Filter}
    (hfilters : ∀ i ∈ Filter.itemsOf filters, Item.Alike ρ i i) :
    (d.filtered filters).Alike ρ (d'.filtered filters) := by
  unfold RowSet.filtered
  split
  next => exact h
  next =>
    refine ⟨h.header, ?_⟩
    show Stream.AllAlike ρ (Stream.filter _ d.stream).outcomes (Stream.filter _ d'.stream).outcomes
    rw [Stream.outcomes_filter, Stream.outcomes_filter]
    refine h.outcomes.flatMap_spread fun r r' hr => ?_
    unfold Stream.tested
    simp only [hr.allAccept hρ hfilters]
    split
    next => exact .cons (.ok hr) .nil
    next => exact .nil
    next e _ => exact .cons (.error e) .nil

theorem Alike.projected {items items' : List Item} (hitems : Item.AllAlike ρ items items') :
    (d.projected items).Alike ρ (d'.projected items') := by
  refine ⟨hitems, ?_⟩
  unfold RowSet.projected
  simp only [h.header.sameLayout hitems]
  split
  next => exact h.outcomes
  next =>
    rw [Stream.outcomes_map, Stream.outcomes_map]
    exact h.outcomes.map_bind fun r r' hr => hr.project hρ hitems

end Reading

/-! ## Joins -/

section Joining

variable {header header' : List Item} (hheader : Item.AllAlike ρ header header')

include hheader

theorem combine_alike {outer outer' : Row} (houter : outer.Alike ρ outer') (inner : List Value) :
    (combine header outer inner).Alike ρ (combine header' outer' inner) := by
  refine ⟨hheader, ?_, rfl⟩
  show outer.values ++ inner = outer'.values ++ inner
  rw [houter.values]

variable (hρ : ρ.IsOneToOne) {filters : List Filter}
  (hfilters : ∀ i ∈ Filter.itemsOf filters, Item.Alike ρ i i)

include hρ hfilters

/-- The pairs of an outer row with inner rows that filters accept. -/
theorem pairOutcomes_alike {outer outer' : Row} (houter : outer.Alike ρ outer')
    {inner inner' : List Row} (hinner : List.Forall₂ (Row.Alike ρ) inner inner') :
    Stream.AllAlike ρ
      (inner.filterMap fun row => pairOutcome filters (combine header outer row.values))
      (inner'.filterMap fun row => pairOutcome filters (combine header' outer' row.values)) := by
  induction hinner with
  | nil => exact .nil
  | @cons row row' _ _ hrow _ ih =>
    have hpair := combine_alike hheader houter row'.values
    rw [List.filterMap_cons, List.filterMap_cons]
    unfold pairOutcome at ih ⊢
    rw [hrow.values, hpair.allAccept hρ hfilters]
    rcases Filter.allAccept (combine header' outer' row'.values) filters with e | _ | _
    · exact .cons (.error e) ih
    · exact ih
    · exact .cons (.ok hpair) ih

omit hheader hρ hfilters in
theorem any_isRow_alike {l l' : List (Except QueryError Row)} (h : Stream.AllAlike ρ l l') :
    l.any isRow = l'.any isRow := by
  induction h with
  | nil => rfl
  | cons ho _ ih =>
    rw [List.any_cons, List.any_cons, ih]
    cases ho <;> rfl

theorem matchesOf_alike {outer outer' : Row} (houter : outer.Alike ρ outer')
    {inner inner' : List Row} (hinner : List.Forall₂ (Row.Alike ρ) inner inner')
    (pad : Option (List Value)) :
    Stream.AllAlike ρ (matchesOf header inner filters pad outer)
      (matchesOf header' inner' filters pad outer') := by
  have hfound := pairOutcomes_alike hheader hρ hfilters houter hinner
  unfold matchesOf
  cases pad with
  | none => exact hfound
  | some padding =>
    simp only [any_isRow_alike hfound]
    split
    · exact hfound
    · exact List.rel_append hfound (.cons (.ok (combine_alike hheader houter padding)) .nil)

end Joining

/-- **The nested loop over data sets that are alike.** -/
theorem Alike.nestedLoop (hρ : ρ.IsOneToOne) (h : d.Alike ρ d') {items items' : List Item}
    (hitems : Item.AllAlike ρ items items') {inner inner' : List Row}
    (hinner : List.Forall₂ (Row.Alike ρ) inner inner') {filters : List Filter}
    (hfilters : ∀ i ∈ Filter.itemsOf filters, Item.Alike ρ i i) (padded : Bool) :
    (d.nestedLoop items inner filters padded).Alike ρ
      (d'.nestedLoop items' inner' filters padded) := by
  have hheader := h.header.append hitems
  refine ⟨hheader, ?_⟩
  unfold RowSet.nestedLoop
  simp only [hitems.length_eq, Stream.outcomes_expand]
  exact h.outcomes.flatMap_spread fun r r' hr =>
    matchesOf_alike hheader hρ hfilters hr hinner _

end RowSet

end DocQuery
