import DocQuery.Rows.Row

/-!
# DocQuery.Rows.Stream — the future of a data set

A data set gives its rows one at a time.  What it will give is a stream: one step for each time it
is advanced, with the row, the end or the failure that comes of it, and with the number of times
that the data set at the bottom is advanced meanwhile.  Operators on data sets that keep no rows are
functions on streams, by recursion on the steps.

A stream may be closed at any step.  Then it gives no more rows, but advancing it may still get
through to the bottom, which each step records.
-/

namespace DocQuery

/-- What advancing gives: a row, the end, or a failure. -/
abbrev Outcome := Except QueryError (Option Row)

/-- What advancing gives, time after time.  `reaches` tells whether an advance gets through to the
bottom when the stream has been closed here, `pulls` how often the bottom is advanced in a step.  -/
inductive Stream where
  | closed (reaches : Bool)
  | step (reaches : Bool) (pulls : Nat) (outcome : Outcome) (rest : Stream)

namespace Stream

/-- Whether an advance gets through to the bottom when the stream has been closed here. -/
def reaches : Stream → Bool
  | .closed r | .step r _ _ _ => r

/-- The stream closed here. -/
def close (s : Stream) : Stream := .closed s.reaches

/-- How often the bottom is advanced by one advance of a closed stream. -/
def closedPulls (reaches : Bool) : Nat := if reaches then 1 else 0

/-- One advance: how often the bottom is advanced, what comes of it, and the rest. -/
def advance : Stream → Nat × Outcome × Stream
  | .closed r => (closedPulls r, .ok none, .closed r)
  | .step _ pulls outcome rest => (pulls, outcome, rest)

/-- The stream of a data set at the bottom: each row or failure takes one advance, and so does every
further attempt. -/
def ofOutcomes : List (Except QueryError Row) → Stream
  | [] => .step true 1 (.ok none) (.closed true)
  | o :: rest => .step true 1 (o.map some) (ofOutcomes rest)

/-- A computation over the rows, from the first to the last or to the first failure of either; with
the number of advances of the bottom. -/
def fold {σ : Type} (f : σ → Row → Except QueryError σ) : σ → Stream → Nat × Except QueryError σ
  | acc, .closed r => (closedPulls r, .ok acc)
  | acc, .step _ pulls outcome rest =>
    match outcome with
    | .ok none => (pulls, .ok acc)
    | .error e => (pulls, .error e)
    | .ok (some row) => match f acc row with
      | .error e => (pulls, .error e)
      | .ok acc =>
        let (more, result) := fold f acc rest
        (pulls + more, result)

/-! ## Operators -/

/-- The stream with some advances of the bottom before its first step, which now begins at a place
that reaches the bottom or not. -/
def charge (reaches : Bool) (pulls : Nat) : Stream → Stream
  | .closed r => .step reaches (pulls + closedPulls r) (.ok none) (.closed r)
  | .step _ more outcome rest => .step reaches (pulls + more) outcome rest

/-- The rows that a test accepts. -/
def filter (test : Row → Except QueryError Bool) : Stream → Stream
  | .closed r => .closed r
  | .step r pulls outcome rest =>
    match outcome with
    | .ok (some row) => match test row with
      | .ok true => .step r pulls outcome (filter test rest)
      | .ok false => charge r pulls (filter test rest)
      | .error e => .step r pulls (.error e) (filter test rest)
    | _ => .step r pulls outcome (filter test rest)

/-- Every row changed. -/
def map (f : Row → Except QueryError Row) : Stream → Stream
  | .closed r => .closed r
  | .step r pulls outcome rest =>
    match outcome with
    | .ok (some row) => .step r pulls ((f row).map some) (map f rest)
    | _ => .step r pulls outcome (map f rest)

/-- The rows after the first `n`.  They are passed over by the first advance. -/
def skip : (n : Nat) → Stream → Stream
  | _, .closed r => .closed r
  | n, .step r pulls outcome rest =>
    if n = 0 then .step r pulls outcome rest
    else match outcome with
      | .ok (some _) => charge r pulls (skip (n - 1) rest)
      | .ok none => .step r pulls outcome rest
      | .error _ => .step r pulls outcome (skip (n - 1) rest)

/-- The first `n` rows.  After the last of them the stream does not reach the bottom any more. -/
def take : (n : Nat) → Stream → Stream
  | n, .closed r => .closed (n != 0 && r)
  | n, .step r pulls outcome rest =>
    if n = 0 then .closed false
    else match outcome with
      | .ok (some _) => .step r pulls outcome (take (n - 1) rest)
      | _ => .step r pulls outcome (take n rest)

/-- Outcomes that take no advance of the bottom, before a stream. -/
def prepend : List (Except QueryError Row) → Stream → Stream
  | [], s => s
  | o :: rest, s => .step s.reaches 0 (o.map some) (prepend rest s)

/-- Every row replaced by the outcomes that it gives rise to. -/
def expand (f : Row → List (Except QueryError Row)) : Stream → Stream
  | .closed r => .closed r
  | .step r pulls outcome rest =>
    match outcome with
    | .ok (some row) => match f row with
      | [] => charge r pulls (expand f rest)
      | o :: more => .step r pulls (o.map some) (prepend more (expand f rest))
    | _ => .step r pulls outcome (expand f rest)

end Stream

end DocQuery
