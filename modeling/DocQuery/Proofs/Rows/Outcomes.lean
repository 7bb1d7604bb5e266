import DocQuery.Rows.Operators

/-!
# DocQuery.Proofs.Rows.Outcomes — streams as lists of outcomes

What a stream gives is a list: a row or a failure for every advance up to the end.  Seen so, each
operator on streams is one on lists: filtering and expanding replace every row by some outcomes
(`Stream.outcomes_expand`), a window takes and drops, and reading everything turns the list into
rows or the first failure (`Stream.fold_collect`).  How often the bottom is advanced on the way is
left to the ledger.
-/

namespace DocQuery

namespace Stream

/-! ## Outcomes -/

/-- What a stream gives until its end. -/
def outcomes : Stream → List (Except QueryError Row)
  | .closed _ => []
  | .step _ _ outcome rest => match outcome with
    | .ok none => []
    | .ok (some row) => .ok row :: outcomes rest
    | .error e => .error e :: outcomes rest

@[simp] theorem outcomes_closed (reaches : Bool) : (closed reaches).outcomes = [] := rfl

@[simp] theorem outcomes_end (reaches : Bool) (pulls : Nat) (rest : Stream) :
    (step reaches pulls (.ok none) rest).outcomes = [] := rfl

@[simp] theorem outcomes_row (reaches : Bool) (pulls : Nat) (row : Row) (rest : Stream) :
    (step reaches pulls (.ok (some row)) rest).outcomes = .ok row :: rest.outcomes := rfl

@[simp] theorem outcomes_failure (reaches : Bool) (pulls : Nat) (e : QueryError) (rest : Stream) :
    (step reaches pulls (.error e) rest).outcomes = .error e :: rest.outcomes := rfl

@[simp] theorem outcomes_ofOutcomes (l : List (Except QueryError Row)) :
    (ofOutcomes l).outcomes = l := by
  induction l with
  | nil => rfl
  | cons o rest ih => cases o <;> simp [ofOutcomes, Except.map, ih]

@[simp] theorem outcomes_charge (reaches : Bool) (pulls : Nat) (s : Stream) :
    (charge reaches pulls s).outcomes = s.outcomes := by
  cases s with
  | closed r => rfl
  | step r more outcome rest => rfl

@[simp] theorem outcomes_prepend (l : List (Except QueryError Row)) (s : Stream) :
    (prepend l s).outcomes = l ++ s.outcomes := by
  induction l with
  | nil => rfl
  | cons o rest ih => cases o <;> simp [prepend, Except.map, ih]

/-! ## Operators -/

/-- What a row or a failure is replaced by when rows are. -/
def spread (f : Row → List (Except QueryError Row)) :
    Except QueryError Row → List (Except QueryError Row)
  | .ok row => f row
  | .error e => [.error e]

/-- **Replacing rows is `flatMap`**; failures stay where they are. -/
theorem outcomes_expand (f : Row → List (Except QueryError Row)) (s : Stream) :
    (expand f s).outcomes = s.outcomes.flatMap (spread f) := by
  induction s with
  | closed r => rfl
  | step r pulls outcome rest ih =>
    cases outcome with
    | error e => simp [expand, spread, ih]
    | ok row? =>
      cases row? with
      | none => rfl
      | some row =>
        cases hf : f row with
        | nil => simp [expand, spread, hf, ih]
        | cons o more => cases o <;> simp [expand, spread, hf, ih, Except.map]

/-- The outcome of testing a row: the row, nothing, or a failure. -/
def tested (test : Row → Except QueryError Bool) (row : Row) : List (Except QueryError Row) :=
  match test row with
  | .ok true => [.ok row]
  | .ok false => []
  | .error e => [.error e]

theorem outcomes_filter (test : Row → Except QueryError Bool) (s : Stream) :
    (filter test s).outcomes = s.outcomes.flatMap (spread (tested test)) := by
  induction s with
  | closed r => rfl
  | step r pulls outcome rest ih =>
    cases outcome with
    | error e => simp [filter, spread, ih]
    | ok row? =>
      cases row? with
      | none => rfl
      | some row =>
        cases htest : test row with
        | error e => simp [filter, spread, tested, htest, ih]
        | ok accepted => cases accepted <;> simp [filter, spread, tested, htest, ih]

theorem outcomes_map (f : Row → Except QueryError Row) (s : Stream) :
    (map f s).outcomes = s.outcomes.map (·.bind f) := by
  induction s with
  | closed r => rfl
  | step r pulls outcome rest ih =>
    cases outcome with
    | error e => simp [map, Except.bind, ih]
    | ok row? =>
      cases row? with
      | none => rfl
      | some row => cases hf : f row <;> simp [map, Except.map, Except.bind, hf, ih]

/-! ## Windows

A failure takes no place in a window, so a window of a list of rows is one without failures. -/

theorem outcomes_skip {rows : List Row} (n : Nat) {s : Stream} (h : s.outcomes = rows.map .ok) :
    (skip n s).outcomes = (rows.drop n).map .ok := by
  induction s generalizing n rows with
  | closed r =>
    obtain rfl : rows = [] := by simpa using h.symm
    simp [skip]
  | step r pulls outcome rest ih =>
    by_cases hn : n = 0
    · simp [skip, hn, h]
    · -- A row uses up one of those to be skipped, and the stream after it gives the later rows.
      cases outcome with
      | error e => cases rows <;> simp at h
      | ok row? =>
        cases row? with
        | none =>
          obtain rfl : rows = [] := by simpa using h.symm
          simp [skip, hn]
        | some row =>
          cases rows with
          | nil => simp at h
          | cons first later =>
            rw [outcomes_row, List.map_cons, List.cons.injEq] at h
            obtain ⟨k, rfl⟩ := Nat.exists_eq_succ_of_ne_zero hn
            simp [skip, ih k h.2]

theorem outcomes_take {rows : List Row} (n : Nat) {s : Stream} (h : s.outcomes = rows.map .ok) :
    (take n s).outcomes = (rows.take n).map .ok := by
  induction s generalizing n rows with
  | closed r =>
    obtain rfl : rows = [] := by simpa using h.symm
    simp [take]
  | step r pulls outcome rest ih =>
    by_cases hn : n = 0
    · simp [take, hn]
    · cases outcome with
      | error e => cases rows <;> simp at h
      | ok row? =>
        cases row? with
        | none =>
          obtain rfl : rows = [] := by simpa using h.symm
          simp [take, hn]
        | some row =>
          cases rows with
          | nil => simp at h
          | cons first later =>
            rw [outcomes_row, List.map_cons, List.cons.injEq] at h
            obtain ⟨k, rfl⟩ := Nat.exists_eq_succ_of_ne_zero hn
            simp [take, ih k h.2, h.1]

/-! ## Reading everything -/

/-- The rows of a list of outcomes, or its first failure. -/
def collect : List (Except QueryError Row) → Except QueryError (List Row)
  | [] => .ok []
  | .ok row :: rest => (collect rest).map (row :: ·)
  | .error e :: _ => .error e

@[simp] theorem collect_rows (rows : List Row) : collect (rows.map .ok) = .ok rows := by
  induction rows with
  | nil => rfl
  | cons row rest ih => simp [collect, ih, Except.map]

theorem collect_eq_ok_iff {l : List (Except QueryError Row)} {rows : List Row} :
    collect l = .ok rows ↔ l = rows.map .ok := by
  constructor
  · intro h
    induction l generalizing rows with
    | nil =>
      cases h
      rfl
    | cons o rest ih =>
      cases o with
      | error e => cases h
      | ok row =>
        cases hrest : collect rest with
        | error e => simp [collect, hrest, Except.map] at h
        | ok later =>
          obtain rfl : row :: later = rows := by simpa [collect, hrest, Except.map] using h
          simp [ih hrest]
  · rintro rfl
    exact collect_rows rows

/-- **Reading everything gives the rows or the first failure.**  The rows are gathered last first.
-/
theorem fold_collect (s : Stream) (acc : List Row) :
    (s.fold (fun rows row => .ok (row :: rows)) acc).2.map List.reverse =
      (collect s.outcomes).map (acc.reverse ++ ·) := by
  induction s generalizing acc with
  | closed r => simp [fold, collect, Except.map]
  | step r pulls outcome rest ih =>
    cases outcome with
    | error e => rfl
    | ok row? =>
      cases row? with
      | none => simp [fold, collect, Except.map]
      | some row =>
        have hrest := ih (row :: acc)
        cases hc : collect rest.outcomes <;>
          simp_all [fold, collect, Except.map]

/-- A computation over the rows of a stream that succeeds meets no failure in it. -/
theorem exists_rows_of_fold {σ : Type} {f : σ → Row → Except QueryError σ} {s : Stream}
    {start result : σ} (h : (s.fold f start).2 = .ok result) :
    ∃ rows : List Row, s.outcomes = rows.map .ok ∧ rows.foldlM f start = .ok result := by
  induction s generalizing start with
  | closed r => exact ⟨[], rfl, h⟩
  | step r pulls outcome rest ih =>
    cases outcome with
    | error e => cases h
    | ok row? =>
      cases row? with
      | none => exact ⟨[], rfl, h⟩
      | some row =>
        unfold fold at h
        cases hf : f start row with
        | error e =>
          simp only [hf] at h
          cases h
        | ok next =>
          simp only [hf] at h
          obtain ⟨rows, hrows, hresult⟩ := ih h
          refine ⟨row :: rows, ?_, ?_⟩
          · rw [outcomes_row, hrows, List.map_cons]
          · rw [List.foldlM_cons, hf]
            exact hresult

theorem collect_append (l l' : List (Except QueryError Row)) :
    collect (l ++ l') = (collect l).bind fun rows => (collect l').map (rows ++ ·) := by
  induction l with
  | nil => cases h : collect l' <;> simp [collect, Except.bind, Except.map, h]
  | cons o rest ih =>
    cases o with
    | error e => rfl
    | ok row =>
      cases h : collect rest <;> cases h' : collect l' <;>
        simp [collect, ih, h, h', Except.bind, Except.map]

/-- Outcomes that collect alike may be exchanged. -/
theorem collect_flatMap_congr {α : Type} {l : List α} {f g : α → List (Except QueryError Row)}
    (h : ∀ a ∈ l, collect (f a) = collect (g a)) :
    collect (l.flatMap f) = collect (l.flatMap g) := by
  induction l with
  | nil => rfl
  | cons a rest ih =>
    rw [List.forall_mem_cons] at h
    rw [List.flatMap_cons, List.flatMap_cons, collect_append, collect_append, h.1, ih h.2]

theorem collect_flatMap_failure {α : Type} {l : List α} (hl : l ≠ []) (e : QueryError) :
    collect (l.flatMap fun _ => [.error e]) = .error e := by
  cases l with
  | nil => exact absurd rfl hl
  | cons a rest => rfl

/-! ## Testing rows -/

/-- Of two tests, the first of which is the stricter, equal counts make one of the other. -/
theorem eq_of_countP_eq {α : Type} {p q : α → Bool} {l : List α}
    (himp : ∀ a ∈ l, p a = true → q a = true) (hcount : l.countP p = l.countP q) :
    ∀ a ∈ l, p a = q a := by
  induction l with
  | nil => simp
  | cons a rest ih =>
    rw [List.forall_mem_cons] at himp ⊢
    have hle : rest.countP p ≤ rest.countP q := List.countP_mono_left himp.2
    rw [List.countP_cons, List.countP_cons] at hcount
    have ha : p a = q a := by
      cases hp : p a with
      | true => exact (himp.1 hp).symm
      | false =>
        cases hq : q a with
        | false => rfl
        | true =>
          rw [hp, hq, if_neg Bool.false_ne_true, if_pos rfl] at hcount
          omega
    rw [ha, Nat.add_right_cancel_iff] at hcount
    exact ⟨ha, ih himp.2 hcount⟩

/-- Tests that do not fail keep what they accept. -/
theorem flatMap_tested_eq {α : Type} {l : List α} {test : α → Except QueryError Bool}
    {accepted : α → Bool} (row : α → Row) (h : ∀ a ∈ l, test a = .ok (accepted a)) :
    (l.flatMap fun a => tested (fun _ => test a) (row a)) =
      ((l.filter accepted).map row).map .ok := by
  induction l with
  | nil => rfl
  | cons a rest ih =>
    rw [List.forall_mem_cons] at h
    have ha : tested (fun _ => test a) (row a) = if accepted a then [.ok (row a)] else [] := by
      cases haccepted : accepted a <;> simp [tested, h.1, haccepted]
    rw [List.flatMap_cons, ih h.2, ha, List.filter_cons]
    cases accepted a <;> rfl

/-- Rows gathered by one test are those that another one keeps only if the tests agree on every
combination, also where different combinations end as the same row. -/
theorem collect_tested_eq_filter_iff {α : Type} {l : List α} {test : α → Except QueryError Bool}
    {row : α → Row} {keep : Row → Bool} :
    collect (l.flatMap fun a => tested (fun _ => test a) (row a)) =
        .ok ((l.map row).filter keep) ↔ ∀ a ∈ l, test a = .ok (keep (row a)) := by
  rw [collect_eq_ok_iff]
  constructor
  · intro h
    let accepted : α → Bool := fun a => match test a with
      | .ok b => b
      | .error _ => false
    have htest : ∀ a ∈ l, test a = .ok (accepted a) := by
      intro a ha
      cases hta : test a with
      | ok b => simp only [accepted, hta]
      | error e =>
        have hmem : Except.error e ∈ ((l.map row).filter keep).map Except.ok := by
          rw [← h]
          exact List.mem_flatMap.mpr ⟨a, ha, by simp [tested, hta]⟩
        simp at hmem
    rw [flatMap_tested_eq row htest, List.map_inj_right fun _ _ => Except.ok.inj] at h
    have himp : ∀ a ∈ l, accepted a = true → keep (row a) = true := by
      intro a ha haccepted
      have hmem : row a ∈ (l.map row).filter keep := by
        rw [← h]
        exact List.mem_map_of_mem (List.mem_filter.mpr ⟨ha, haccepted⟩)
      exact (List.mem_filter.mp hmem).2
    -- Equal lists of rows do not tell which elements the rows came from, but their lengths do: the
    -- accepted elements are among the kept ones, and there are as many of them.
    have hcount : l.countP accepted = l.countP (keep ∘ row) := by
      have hlength := congrArg List.length h
      rwa [List.length_map, ← List.countP_eq_length_filter, ← List.countP_eq_length_filter,
        List.countP_map] at hlength
    intro a ha
    exact (htest a ha).trans (congrArg Except.ok (eq_of_countP_eq himp hcount a ha))
  · intro h
    rw [flatMap_tested_eq row h, List.filter_map]
    rfl

end Stream

end DocQuery
