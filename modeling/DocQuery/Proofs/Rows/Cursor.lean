import DocQuery.Proofs.Rows.Planning
import DocQuery.Rows.Cursor

/-!
# DocQuery.Proofs.Rows.Cursor — the life of a cursor

A cursor is moved, looked at and closed in any order, until it is dropped or what is left of its data
set is read (`Cursor.live`).  Closing happens by an operation that asks for it or by an advance that
fails.  From then on every operation leaves the data set and its meter alone, and over the whole life
the data set is closed once, in all lives but those that read what is left after closing
(`Cursor.keeps_closed_iff`).
-/

namespace DocQuery

open Plan

/-- How often a data set of a row source has been closed. -/
def Ledger.closesOf (l : Ledger) (source : Nat) : Nat := (l.meters[source]?.map Meter.closes).getD 0

namespace Cursor

/-! ## Lives of cursors -/

/-- What may be done with a cursor any number of times. -/
inductive Operation where
  | next | row | header | close

/-- How the life of a cursor ends: it is dropped, or what is left is read. -/
inductive Ending where
  | drop | rest
deriving DecidableEq

/-- What an operation shows. -/
inductive Sight where
  | moved (result : Except QueryError Bool)
  | row (row : Option Row)
  | header (items : List Item)
  | closed

/-- Whether the operation that shows this closes the cursor: by itself, or by an advance that fails.
-/
def Sight.isClosing : Sight → Bool
  | .moved (.error _) | .closed => true
  | _ => false

/-- One operation: what it shows, and the cursor afterwards. -/
def perform (c : Cursor) : Operation → Plan (Sight × Cursor)
  | .next => do
    let (result, c) ← c.next
    return (.moved result, c)
  | .row => return (.row c.current, c)
  | .header => return (.header c.rows.header, c)
  | .close => do
    let c ← c.close
    return (.closed, c)

/-- Operations one after the other. -/
def performAll (c : Cursor) : List Operation → Plan (List Sight × Cursor)
  | [] => return ([], c)
  | o :: rest => do
    let (sight, c) ← c.perform o
    let (sights, c) ← c.performAll rest
    return (sight :: sights, c)

/-- The rows that the end of a cursor still gives. -/
def finish (c : Cursor) : Ending → Plan (List Row)
  | .drop => do
    c.drop
    return []
  | .rest => c.toRows

/-- The whole life of a cursor. -/
def live (c : Cursor) (operations : List Operation) (ending : Ending) : Plan (List Row) := do
  let (_, c) ← c.performAll operations
  c.finish ending

/-- What an operation shows that neither moves nor closes the cursor. -/
def shown (c : Cursor) : Operation → Sight
  | .next => .moved (.ok false)
  | .row => .row c.current
  | .header => .header c.rows.header
  | .close => .closed

/-! ## Promises -/

/-- Once the cursor on a data set is closed, the operations that follow and the end of its life show
no further row, and they leave the data set and the ledger as they are. -/
def RestsOnceClosed (d : RowSet) (operations : List Operation) (ending : Ending) (l : Ledger) : Prop :=
  ∀ before after, operations = before ++ after → ∀ sights c k,
    (performAll { rows := d } before).run l = (.ok (sights, c), k) →
    sights.any Sight.isClosing = true →
    (c.performAll after).run k = (.ok (after.map c.shown, c), k) ∧
      (c.finish ending).run k = (.ok [], k)

/-- Over the life of the cursor on a data set, that data set is closed once. -/
def ClosesOnce (d : RowSet) (operations : List Operation) (ending : Ending) (l : Ledger) : Prop :=
  ∀ n, d.source = some n →
    ((live { rows := d } operations ending).run l).2.closesOf n = l.closesOf n + 1

/-! ## One operation -/

/-- A cursor on a data set whose meter shows that it was closed if the cursor was, and no more often;
then nothing is to come of it. -/
structure Accounts (source closes : Nat) (c : Cursor) (l : Ledger) : Prop where
  reads : c.rows.source = some source
  metered : source < l.meters.length
  counted : l.closesOf source = closes + c.closed.toNat
  exhausted : c.closed = true → ∃ reaches, c.rows.stream = .closed reaches

section Operations

variable {c : Cursor} {l : Ledger} {source closes : Nat}

theorem closesOf_modify {l : Ledger} (h : source < l.meters.length) (f : Meter → Meter) (more : Nat)
    (hf : ∀ m, (f m).closes = m.closes + more) :
    Ledger.closesOf { l with meters := l.meters.modify source f } source =
      l.closesOf source + more := by
  unfold Ledger.closesOf
  rw [List.getElem?_modify, List.getElem?_eq_getElem h]
  simp [hf]

/-- A note on the advances of the data set leaves the count of its closes. -/
theorem Accounts.gives_recordPulls (h : Accounts source closes c l) (pulls : Nat) :
    (c.rows.recordPulls pulls).Gives l fun _ l' => Accounts source closes c l' := by
  unfold RowSet.recordPulls
  rw [h.reads]
  refine ⟨(), _, rfl, h.reads, ?_, ?_, h.exhausted⟩
  · exact (List.length_modify ..).symm ▸ h.metered
  · rw [← h.counted]
    exact closesOf_modify h.metered _ 0 fun _ => rfl

theorem run_close_of_closed (h : c.closed = true) : c.close.run l = (.ok c, l) := by
  unfold close
  rw [if_pos h]
  rfl

/-- **Closing a cursor** closes its data set if the cursor was open. -/
theorem Accounts.gives_close (h : Accounts source closes c l) :
    c.close.Gives l fun c' l' => Accounts source closes c' l' ∧ c'.closed = true := by
  cases hclosed : c.closed with
  | true => exact ⟨c, l, run_close_of_closed hclosed, h, hclosed⟩
  | false =>
    unfold close RowSet.close
    rw [hclosed, h.reads]
    refine ⟨_, _, rfl, ⟨h.reads, ?_, ?_, fun _ => ⟨_, rfl⟩⟩, rfl⟩
    · exact (List.length_modify ..).symm ▸ h.metered
    · have hcloses := h.counted
      rw [hclosed] at hcloses
      exact (closesOf_modify h.metered _ 1 fun _ => rfl).trans (by rw [hcloses]; rfl)

theorem run_next_of_closed (h : c.closed = true) : c.next.run l = (.ok (.ok false, c), l) := by
  unfold next
  rw [if_pos h]
  rfl

/-- **An advance** closes the cursor if and only if it fails. -/
theorem Accounts.gives_next (h : Accounts source closes c l) :
    c.next.Gives l fun r l' => Accounts source closes r.2 l' ∧
      r.2.closed = (c.closed || (Sight.moved r.1).isClosing) := by
  cases hclosed : c.closed with
  | true => exact ⟨_, l, run_next_of_closed hclosed, h, hclosed⟩
  | false =>
    unfold next
    rw [hclosed]
    rcases c.rows.stream.advance with ⟨pulls, outcome, rest⟩
    refine gives_bind ((h.gives_recordPulls pulls).mono fun _ k hk => ?_)
    -- The cursor is still open, so it owes nothing about what is to come.
    have hopen (current : Option Row) :
        Accounts source closes ⟨c.rows.withStream fun _ => rest, current, false⟩ k :=
      ⟨hk.reads, hk.metered, by rw [hk.counted, hclosed], nofun⟩
    cases outcome with
    | ok row => exact gives_pure ⟨hopen row, rfl⟩
    | error e => exact gives_bind ((hopen none).gives_close.mono fun _ _ hc' => gives_pure hc')

/-- **Every operation succeeds**, keeps account, and closes the cursor if and only if it shows so. -/
theorem Accounts.gives_perform (h : Accounts source closes c l) (o : Operation) :
    (c.perform o).Gives l fun r l' => Accounts source closes r.2 l' ∧
      r.2.closed = (c.closed || r.1.isClosing) := by
  cases o with
  | next => exact gives_bind (h.gives_next.mono fun _ _ hr => gives_pure hr)
  | row => exact gives_pure ⟨h, (Bool.or_false _).symm⟩
  | header => exact gives_pure ⟨h, (Bool.or_false _).symm⟩
  | close =>
    refine gives_bind (h.gives_close.mono fun c' k hc' => gives_pure ⟨hc'.1, ?_⟩)
    exact hc'.2.trans (Bool.or_true _).symm

/-- An operation leaves a closed cursor alone. -/
theorem run_perform_of_closed (h : c.closed = true) (o : Operation) :
    (c.perform o).run l = (.ok (c.shown o, c), l) := by
  cases o with
  | next => exact run_bind_of_run (run_next_of_closed h)
  | row => rfl
  | header => rfl
  | close => exact run_bind_of_run (run_close_of_closed h)

/-! ## Any operations -/

theorem Accounts.gives_performAll (h : Accounts source closes c l) (operations : List Operation) :
    (c.performAll operations).Gives l fun r l' => Accounts source closes r.2 l' ∧
      r.2.closed = (c.closed || r.1.any Sight.isClosing) := by
  induction operations generalizing c l with
  | nil => exact gives_pure ⟨h, (Bool.or_false _).symm⟩
  | cons o rest ih =>
    refine gives_bind ((h.gives_perform o).mono fun r k hr => ?_)
    refine gives_bind ((ih hr.1).mono fun r' k' hr' => gives_pure ⟨hr'.1, ?_⟩)
    rw [hr'.2, hr.2, List.any_cons, Bool.or_assoc]

/-- **A closed cursor rests**, whatever is done with it. -/
theorem run_performAll_of_closed (h : c.closed = true) (operations : List Operation) :
    (c.performAll operations).run l = (.ok (operations.map c.shown, c), l) := by
  induction operations with
  | nil => rfl
  | cons o rest ih =>
    rw [performAll, run_bind_of_run (run_perform_of_closed h o), run_bind_of_run ih]
    rfl

theorem performAll_append (before after : List Operation) :
    c.performAll (before ++ after) = do
      let (sights, c) ← c.performAll before
      let (more, c) ← c.performAll after
      return (sights ++ more, c) := by
  induction before generalizing c with
  | nil => simp [performAll]
  | cons o rest ih => simp [performAll, ih]

/-! ## The end -/

theorem run_drop_of_closed (h : c.closed = true) : (c.finish .drop).run l = (.ok [], l) :=
  run_bind_of_run (run_bind_of_run (run_close_of_closed h))

/-- Dropping a cursor closes its data set, unless that has been done. -/
theorem Accounts.finish_drop (h : Accounts source closes c l) :
    ((c.finish .drop).run l).2.closesOf source = closes + 1 := by
  obtain ⟨c', l', hrun, hc', hclosed⟩ := h.gives_close
  have hdrop : (c.finish .drop).run l = (.ok [], l') := run_bind_of_run (run_bind_of_run hrun)
  rw [hdrop, hc'.counted, hclosed]
  rfl

/-- Reading what is left closes the data set once more, whatever was done before. -/
theorem Accounts.finish_rest (h : Accounts source closes c l) :
    ((c.finish .rest).run l).2.closesOf source = closes + c.closed.toNat + 1 := by
  obtain ⟨_, k, hpulls, hk⟩ := h.gives_recordPulls
    (c.rows.stream.fold (fun rows row => .ok (row :: rows)) []).1
  have hclose : c.rows.close.run k = (.ok (), { k with
      meters := k.meters.modify source fun m => { m with closes := m.closes + 1 } }) := by
    unfold RowSet.close
    rw [h.reads]
    rfl
  have hcloses := (closesOf_modify hk.metered (fun m => { m with closes := m.closes + 1 }) 1
    fun _ => rfl).trans (congrArg (· + 1) hk.counted)
  rw [← hcloses]
  show (c.rows.toRows.run l).2.closesOf source = _
  unfold RowSet.toRows RowSet.foldRows
  -- What the reading comes to, rows or a failure, is handed on after the data set is closed.
  rcases hfold : c.rows.stream.fold (fun rows row => Except.ok (row :: rows)) [] with ⟨pulls, result⟩
  rw [hfold] at hpulls
  cases result with
  | ok rows => rw [run_bind_of_run (run_bind_of_run hpulls |>.trans (run_bind_of_run hclose))]; rfl
  | error e => rw [run_bind_of_failure (run_bind_of_run hpulls |>.trans (run_bind_of_run hclose))]

end Operations

/-! ## Lives that keep the promise -/

variable {d : RowSet} {l : Ledger} {n : Nat}

/-- **Every sequence of operations succeeds. A cursor that is closed rests, and its data set is closed
once**, in every life but those that end by reading what is left of a closed cursor.  There is nothing
left then, but the data set is closed twice. -/
theorem keeps_closed_iff (hsource : d.source = some n) (hn : n < l.meters.length)
    (operations : List Operation) (ending : Ending) :
    ∃ sights c k, (performAll { rows := d } operations).run l = (.ok (sights, c), k) ∧
      (RestsOnceClosed d operations ending l ∧ ClosesOnce d operations ending l ↔
        ¬ (ending = .rest ∧ sights.any Sight.isClosing = true)) ∧
      (ending = .rest ∧ sights.any Sight.isClosing = true →
        (live { rows := d } operations ending).answer l = .ok [] ∧
        ((live { rows := d } operations ending).run l).2.closesOf n = l.closesOf n + 2) := by
  have hstart : Accounts n (l.closesOf n) { rows := d } l := ⟨hsource, hn, rfl, nofun⟩
  obtain ⟨⟨sights, c⟩, k, hrun, hc, hclosed⟩ := hstart.gives_performAll operations
  rw [Bool.false_or] at hclosed
  have hlive : (live { rows := d } operations ending).run l = (c.finish ending).run k :=
    run_bind_of_run hrun
  have htwice (hrest : ending = .rest) (hany : sights.any Sight.isClosing = true) :
      ((live { rows := d } operations ending).run l).2.closesOf n = l.closesOf n + 2 := by
    rw [hlive, hrest, hc.finish_rest, hclosed, hany]
    rfl
  refine ⟨sights, c, k, hrun, ⟨?_, fun hkeeps => ⟨?_, fun m hm => ?_⟩⟩, ?_⟩
  · rintro ⟨-, honce⟩ ⟨hrest, hany⟩
    have htwo := htwice hrest hany
    rw [honce n hsource] at htwo
    omega
  · intro before after hsplit sights' c' k' hbefore hany
    obtain ⟨_, _, hbefore', -, hclosed'⟩ := hstart.gives_performAll before
    cases hbefore.symm.trans hbefore'
    have hc' : c'.closed = true := by rw [hclosed', hany]; rfl
    have hafter := run_performAll_of_closed (l := k') hc' after
    refine ⟨hafter, ?_⟩
    -- The operations that came before closed the cursor, so the life ends by dropping it.
    have hall := hrun
    rw [hsplit, performAll_append, run_bind_of_run hbefore, run_bind_of_run hafter] at hall
    cases hall
    cases ending with
    | drop => exact run_drop_of_closed hc'
    | rest => exact absurd ⟨rfl, by rw [List.any_append, hany, Bool.true_or]⟩ hkeeps
  · obtain rfl : n = m := by simpa [hsource] using hm
    rw [hlive]
    cases ending with
    | drop => exact hc.finish_drop
    | rest =>
      have hopen : sights.any Sight.isClosing = false := by simpa using hkeeps
      rw [hc.finish_rest, hclosed, hopen]
      rfl
  · rintro ⟨hrest, hany⟩
    refine ⟨?_, htwice hrest hany⟩
    subst hrest
    obtain ⟨reaches, hstream⟩ := hc.exhausted (hclosed.trans hany)
    show ((live { rows := d } operations .rest).run l).1 = .ok []
    rw [hlive]
    show c.rows.toRows.answer k = .ok []
    rw [RowSet.toRows_answer, hstream]
    rfl

/-- A data set of three advances, the second of which fails. -/
def interrupted : RowSet :=
  ⟨[], some 0, .ofOutcomes [.ok ⟨[], [], none⟩, .error .nothingToJoin, .ok ⟨[], [], none⟩]⟩

/-- A failing advance closes the cursor on it, and nothing is done with it after that. -/
theorem keeps_closed_interrupted :
    (interrupted.source = some 0 ∧ 0 < ({ meters := [{}] } : Ledger).meters.length) ∧
      RestsOnceClosed interrupted [.next, .row, .next, .header, .next, .close] .drop
        { meters := [{}] } ∧
      ClosesOnce interrupted [.next, .row, .next, .header, .next, .close] .drop
        { meters := [{}] } := by
  have hsource : interrupted.source = some 0 := rfl
  have hn : 0 < ({ meters := [{}] } : Ledger).meters.length := by decide
  obtain ⟨_, _, _, -, hiff, -⟩ := keeps_closed_iff hsource hn
    [.next, .row, .next, .header, .next, .close] .drop
  exact ⟨⟨hsource, hn⟩, hiff.mpr fun h => by cases h.1⟩

/-- Reading what is left of a closed cursor advances its data set once more, and closes it again. -/
theorem not_keeps_closed_rest :
    ¬ RestsOnceClosed interrupted [.close] .rest { meters := [{}] } ∧
      ¬ ClosesOnce interrupted [.close] .rest { meters := [{}] } ∧
      ((live { rows := interrupted } [.close] .rest).run { meters := [{}] }).2.meters = [⟨1, 2⟩] := by
  refine ⟨fun h => ?_, fun h => ?_, rfl⟩
  · have hrest := (h [.close] [] rfl _ _ _ rfl rfl).2
    have hmeters := congrArg (fun r => r.2.meters) hrest
    exact absurd hmeters (by decide)
  · exact absurd (h 0 rfl) (by decide)

end Cursor

end DocQuery
