import DocQuery.Proofs.Rows.Join

/-!
# DocQuery.Proofs.Rows.LeftJoin — what a left join gives

A left join keeps every left row: with each right row that the filters accept together with it, or
once with nulls (`withMatches`).  The join is given a row at a time.  Between two advances it keeps
the left row it is at, how far it got in the right rows, and whether one of them was accepted
(`LoopCursor`); wherever an advance stops, the later ones give what the join still owes
(`Loop.owed`), so draining gives the rows of the nested loop and nothing else.
-/

namespace DocQuery.RowSet

open Plan DocQuery.Stream

variable {header : List Item} {filters : List Filter} {padding : List Value} {inner : List Row}
  {outer : Row}

/-! ## The rows of a left join -/

/-- The inner rows that all filters accept together with an outer row. -/
def accepted (header : List Item) (filters : List Filter) (inner : List Row) (outer : Row) :
    List Row :=
  inner.filter fun row => satisfies filters (combine header outer row.values)

/-- An outer row with every inner row that is accepted together with it, or with the padding if none
is. -/
def withMatches (header : List Item) (filters : List Filter) (padding : List Value)
    (inner : List Row) (outer : Row) : List Row :=
  match accepted header filters inner outer with
  | [] => [combine header outer padding]
  | found => found.map fun row => combine header outer row.values

/-- The rows of a left join of rows with these items. -/
def leftJoinRows (left right : List Item) (filters : List Filter) (rows rows' : List Row) :
    List Row :=
  rows.flatMap
    (withMatches (left ++ right) filters (List.replicate right.length .null) rows')

/-- Whether the filters can be evaluated on every combination of an outer row with an inner one. -/
def Evaluates (header : List Item) (filters : List Filter) (inner : List Row) (outer : Row) : Prop :=
  ∀ row ∈ inner, ∀ f ∈ filters, ∃ b, Filter.accepts (combine header outer row.values) f = .ok b

/-! ## One outer row -/

theorem pairOutcome_of_accepts {row : Row}
    (h : ∀ f ∈ filters, ∃ b, Filter.accepts row f = .ok b) :
    pairOutcome filters row = if satisfies filters row then some (.ok row) else none := by
  unfold pairOutcome
  rw [allAccept_eq_satisfies h]
  cases satisfies filters row <;> rfl

/-- Without failures an outer row gives rise to the combinations that are accepted. -/
theorem filterMap_pairOutcome (h : Evaluates header filters inner outer) :
    (inner.filterMap fun row => pairOutcome filters (combine header outer row.values)) =
      ((accepted header filters inner outer).map fun row =>
        combine header outer row.values).map .ok := by
  induction inner with
  | nil => rfl
  | cons row rest ih =>
    obtain ⟨hrow, hrest⟩ := List.forall_mem_cons.mp h
    unfold accepted at ih ⊢
    rw [List.filterMap_cons, pairOutcome_of_accepts hrow, List.filter_cons, ih hrest]
    cases satisfies filters (combine header outer row.values) <;> rfl

/-- **One outer row of a left join** gives its matches, or the padded row and nothing else. -/
theorem matchesOf_padded (h : Evaluates header filters inner outer) :
    matchesOf header inner filters (some padding) outer =
      (withMatches header filters padding inner outer).map .ok := by
  unfold matchesOf withMatches
  simp only [filterMap_pairOutcome h]
  cases accepted header filters inner outer with
  | nil => rfl
  | cons row rest => simp [isRow]

/-! ## All outer rows -/

theorem yields_nestedLoop_padded {left : RowSet} {items : List Item} {rows : List Row}
    (hleft : left.Yields rows)
    (hevaluates : ∀ row ∈ rows, Evaluates (left.header ++ items) filters inner row) :
    (left.nestedLoop items inner filters true).Yields
      (leftJoinRows left.header items filters rows inner) := by
  unfold nestedLoop Yields leftJoinRows
  simp only [if_true]
  rw [outcomes_expand, hleft, List.flatMap_map, List.map_flatMap]
  exact List.flatMap_congr fun row hrow => matchesOf_padded (hevaluates row hrow)

/-- **A left join gives every left row in order, with its matches in the order of the right rows or
padded once.**  Planning it reads the right side; reading it to the end then fails nowhere. -/
theorem gives_leftJoin (left right : RowSet) (filters : List Filter) (rows rows' : List Row)
    (l : Ledger) (hleft : left.Yields rows) (hright : right.Yields rows')
    (hevaluates : ∀ row ∈ rows, ∀ row' ∈ rows', ∀ f ∈ filters,
      ∃ b, Filter.accepts (combine (left.header ++ right.header) row row'.values) f = .ok b) :
    (leftJoin left right filters).Gives l fun joined l' =>
      joined.header = left.header ++ right.header ∧
      joined.toRows.answer l' =
        .ok (leftJoinRows left.header right.header filters rows rows') := by
  refine gives_bind (gives_orElseClosing (gives_toRows hright fun l' _ => ?_))
  refine gives_pure ⟨rfl, ?_⟩
  rw [toRows_answer, yields_nestedLoop_padded hleft hevaluates, collect_rows]

/-- Of the two rows of a table the first has a match, and the second is padded, because the row that
it agrees with is refused by the other condition. -/
theorem gives_leftJoin_matched_and_padded :
    let conditions := [sameId 1 "a" 2 "b",
      .comparison (Item.ofColumn 2 ⟨"id", "t", some .number, false⟩ (some "b")) .equal
        (.value (.integer 1))]
    (labelled 1 "a").Yields (labelledRows 1 "a") ∧ (labelled 2 "b").Yields (labelledRows 2 "b") ∧
      (∀ row ∈ labelledRows 1 "a", ∀ row' ∈ labelledRows 2 "b", ∀ f ∈ conditions, ∃ b,
        Filter.accepts (combine ((labelled 1 "a").header ++ (labelled 2 "b").header) row
          row'.values) f = .ok b) ∧
      (leftJoin (labelled 1 "a") (labelled 2 "b") conditions).Gives {} fun joined l' =>
        joined.header = labelledHeader 1 "a" ++ labelledHeader 2 "b" ∧
        joined.toRows.answer l' = .ok
          [⟨labelledHeader 1 "a" ++ labelledHeader 2 "b", [.integer 1, .integer 1], none⟩,
            ⟨labelledHeader 1 "a" ++ labelledHeader 2 "b", [.integer 2, .null], none⟩] := by
  intro conditions
  have hevaluates : ∀ row ∈ labelledRows 1 "a", ∀ row' ∈ labelledRows 2 "b", ∀ f ∈ conditions, ∃ b,
      Filter.accepts (combine ((labelled 1 "a").header ++ (labelled 2 "b").header) row
        row'.values) f = .ok b := by
    decide +kernel
  refine ⟨yields_ofRows _ _, yields_ofRows _ _, hevaluates, ?_⟩
  exact gives_leftJoin (labelled 1 "a") (labelled 2 "b") conditions (labelledRows 1 "a")
    (labelledRows 2 "b") {} (yields_ofRows _ _) (yields_ofRows _ _) hevaluates

/-! ## One advance at a time

A nested loop keeps its place between two advances, so it can stop in the middle of the inner rows.
A failure of a filter passes the inner row over and accepts nothing.
-/

/-- What a nested loop combines outer rows with: its header, its filters, the padding if it keeps
outer rows that nothing is accepted with, and the inner rows. -/
structure Loop where
  header : List Item
  filters : List Filter
  pad : Option (List Value)
  inner : List Row

/-- Where a nested loop stopped: what the outer side still gives, the outer row that it is at, how
many inner rows were combined with that one, and whether one of them was accepted. -/
structure LoopCursor where
  outer : List (Except QueryError Row)
  current : Option Row := none
  position : Nat := 0
  matched : Bool := false

namespace Loop

variable {j : Loop}

/-- The outcomes of an outer row with some inner rows. -/
def outcomesWith (j : Loop) (outer : Row) (rows : List Row) : List (Except QueryError Row) :=
  rows.filterMap fun row => pairOutcome j.filters (combine j.header outer row.values)

/-- The padded row at the end of an outer row, unless an inner row was accepted. -/
def padded? (j : Loop) (outer : Row) (matched : Bool) : Option Row :=
  if matched then none else j.pad.map (combine j.header outer)

/-- The first of some inner rows that gives rise to an outcome, and how many rows are done then. -/
def scan (j : Loop) (outer : Row) : Nat → List Row → Option (Except QueryError Row × Nat)
  | _, [] => none
  | position, row :: rest =>
    match pairOutcome j.filters (combine j.header outer row.values) with
    | some o => some (o, position + 1)
    | none => scan j outer (position + 1) rest

/-- What an advance at an outer row gives, and where the loop stands then; `next` is what it gives
if that row is done. -/
def atRow (j : Loop) (row : Row) (position : Nat) (matched : Bool)
    (later : List (Except QueryError Row)) (next : Option (Except QueryError Row) × LoopCursor) :
    Option (Except QueryError Row) × LoopCursor :=
  match j.scan row position (j.inner.drop position) with
  | some (o, position) => (some o, ⟨later, some row, position, matched || isRow o⟩)
  | none => match j.padded? row matched with
    | some row => (some (.ok row), { outer := later })
    | none => next

/-- What an advance between two outer rows gives. -/
def atNextRow (j : Loop) :
    List (Except QueryError Row) → Option (Except QueryError Row) × LoopCursor
  | [] => (none, { outer := [] })
  | .error e :: later => (some (.error e), { outer := later })
  | .ok row :: later => j.atRow row 0 false later (atNextRow j later)

/-- One advance: a row, a failure or the end, and where the loop stands then. -/
def advance (j : Loop) (c : LoopCursor) : Option (Except QueryError Row) × LoopCursor :=
  match c.current with
  | some row => j.atRow row c.position c.matched c.outer (j.atNextRow c.outer)
  | none => j.atNextRow c.outer

/-- What the advances give, at most so many of them. -/
def drain (j : Loop) : Nat → LoopCursor → List (Except QueryError Row)
  | 0, _ => []
  | n + 1, c => match j.advance c with
    | (some o, c) => o :: drain j n c
    | (none, _) => []

/-! ### What a loop owes -/

/-- What an outer row still owes after some inner rows. -/
def owedAt (j : Loop) (row : Row) (position : Nat) (matched : Bool) :
    List (Except QueryError Row) :=
  let found := j.outcomesWith row (j.inner.drop position)
  found ++ ((j.padded? row (matched || found.any isRow)).map .ok).toList

/-- What outer rows owe that were not begun. -/
def owedLater (j : Loop) (later : List (Except QueryError Row)) : List (Except QueryError Row) :=
  later.flatMap (spread fun row => j.owedAt row 0 false)

/-- What a loop still owes: the rest of the outer row that it is at, and all of the later ones. -/
def owed (j : Loop) (c : LoopCursor) : List (Except QueryError Row) :=
  match c.current with
  | some row => j.owedAt row c.position c.matched ++ j.owedLater c.outer
  | none => j.owedLater c.outer

/-- An outer row that was not begun owes all that it gives rise to. -/
theorem owedAt_start (j : Loop) (row : Row) :
    j.owedAt row 0 false = matchesOf j.header j.inner j.filters j.pad row := by
  unfold owedAt matchesOf padded? outcomesWith
  cases j.pad with
  | none => simp
  | some padding =>
    dsimp only
    rw [List.drop_zero, Bool.false_or]
    split <;> simp

/-- A scan that ends without an outcome has met none, and one that stops leaves the later ones. -/
theorem scan_spec (j : Loop) (row : Row) (position : Nat) (rest : List Row) :
    match j.scan row position rest with
    | some (o, stopped) => ∃ n, stopped = position + n ∧
        j.outcomesWith row rest = o :: j.outcomesWith row (rest.drop n)
    | none => j.outcomesWith row rest = [] := by
  unfold outcomesWith
  induction rest generalizing position with
  | nil => rfl
  | cons first rest ih =>
    unfold scan
    cases hfirst : pairOutcome j.filters (combine j.header row first.values) with
    | some o => exact ⟨1, rfl, by simp [hfirst]⟩
    | none =>
      have hrest := ih (position + 1)
      dsimp only
      cases hscan : j.scan row (position + 1) rest with
      | none =>
        rw [hscan] at hrest
        simpa [hfirst] using hrest
      | some found =>
        rw [hscan] at hrest
        obtain ⟨n, hstopped, hfound⟩ := hrest
        exact ⟨n + 1, by omega, by simpa [hfirst] using hfound⟩

/-- What an advance must give where some outcomes are due: the first of them, so that the others are
owed then, or the end if there are none. -/
def Pays (j : Loop) (due : List (Except QueryError Row)) :
    Option (Except QueryError Row) × LoopCursor → Prop
  | (some o, c) => due = o :: j.owed c
  | (none, c) => due = [] ∧ j.owed c = []

theorem pays_atRow {row : Row} {position : Nat} {matched : Bool}
    {later : List (Except QueryError Row)}
    {next : Option (Except QueryError Row) × LoopCursor} (hnext : j.Pays (j.owedLater later) next) :
    j.Pays (j.owedAt row position matched ++ j.owedLater later)
      (j.atRow row position matched later next) := by
  have hscan := j.scan_spec row position (j.inner.drop position)
  unfold atRow
  cases hfound : j.scan row position (j.inner.drop position) with
  | some found =>
    rw [hfound] at hscan
    obtain ⟨n, hstopped, hdue⟩ := hscan
    -- The outcome is taken off; whether it is a row is remembered for the padding.
    show _ = _ :: j.owed ⟨later, some row, found.2, matched || isRow found.1⟩
    simp only [owed, owedAt, hdue, List.cons_append, hstopped, List.drop_drop, List.any_cons,
      Bool.or_assoc]
  | none =>
    rw [hfound] at hscan
    dsimp only at hscan ⊢
    have hrest : j.owedAt row position matched = ((j.padded? row matched).map .ok).toList := by
      unfold owedAt
      simp only [hscan, List.nil_append, List.any_nil, Bool.or_false]
    rw [hrest]
    cases j.padded? row matched with
    | some padded => rfl
    | none => exact hnext

theorem pays_atNextRow (later : List (Except QueryError Row)) :
    j.Pays (j.owedLater later) (j.atNextRow later) := by
  induction later with
  | nil => exact ⟨rfl, rfl⟩
  | cons o rest ih =>
    cases o with
    | error e => rfl
    | ok row => exact pays_atRow ih

/-- **Every advance gives the first outcome that is owed and leaves the others**, wherever the loop
stopped before. -/
theorem pays_advance (j : Loop) (c : LoopCursor) : j.Pays (j.owed c) (j.advance c) := by
  unfold advance owed
  cases c.current with
  | none => exact pays_atNextRow c.outer
  | some row => exact pays_atRow (pays_atNextRow c.outer)

/-- **Draining gives what is owed, in order**, as far as the advances go. -/
theorem drain_eq_take (j : Loop) (n : Nat) (c : LoopCursor) : j.drain n c = (j.owed c).take n := by
  induction n generalizing c with
  | zero => rfl
  | succ n ih =>
    have hstep := j.pays_advance c
    unfold drain
    rcases hadvance : j.advance c with ⟨_ | o, next⟩
    · rw [hadvance] at hstep
      rw [hstep.1]
      rfl
    · rw [hadvance] at hstep
      have howed : j.owed c = o :: j.owed next := hstep
      rw [howed, List.take_succ_cons, ← ih]

end Loop

/-- **The loop that is resumed at every advance gives the nested loop**, for joins of both kinds:
padding after the last inner row depends on nothing that an earlier outer row left behind. -/
theorem drain_eq_outcomes (outer : RowSet) (items : List Item) (inner : List Row)
    (filters : List Filter) (padded : Bool) (n : Nat) :
    Loop.drain
        { header := outer.header ++ items, filters := filters, inner := inner
          pad := if padded then some (List.replicate items.length .null) else none }
        n { outer := outer.stream.outcomes } =
      (outer.nestedLoop items inner filters padded).stream.outcomes.take n := by
  rw [Loop.drain_eq_take]
  unfold Loop.owed Loop.owedLater nestedLoop
  simp only [outcomes_expand, Loop.owedAt_start]

end DocQuery.RowSet
