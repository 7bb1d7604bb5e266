import DocQuery.Proofs.Rows.Outcomes

/-!
# DocQuery.Proofs.Rows.Planning — planning that succeeds

Planning carries the ledger along and may fail.  `Plan.Gives` says that it does not fail, and what it
gives and leaves behind; it goes through a sequence of steps one at a time (`Plan.gives_bind`).  What
reading a data set gives depends on its outcomes alone (`RowSet.toRows_answer`).
-/

namespace DocQuery

namespace Plan

variable {α β : Type}

/-! ## Success -/

/-- What a computation gives. -/
def answer (p : Plan α) (l : Ledger) : Except QueryError α := (p.run l).1

/-- The computation succeeds, and this holds of what it gives and of the ledger that it leaves. -/
def Gives (p : Plan α) (l : Ledger) (post : α → Ledger → Prop) : Prop :=
  ∃ a l', p.run l = (.ok a, l') ∧ post a l'

theorem Gives.mono {p : Plan α} {l : Ledger} {post weaker : α → Ledger → Prop}
    (h : p.Gives l post) (himp : ∀ a l', post a l' → weaker a l') : p.Gives l weaker := by
  obtain ⟨a, l', hrun, hpost⟩ := h
  exact ⟨a, l', hrun, himp a l' hpost⟩

theorem Gives.answer {p : Plan α} {l : Ledger} {post : α → Ledger → Prop} (h : p.Gives l post) :
    ∃ a, p.answer l = .ok a ∧ ∃ l', post a l' := by
  obtain ⟨a, l', hrun, hpost⟩ := h
  exact ⟨a, congrArg Prod.fst hrun, l', hpost⟩

theorem gives_pure {a : α} {l : Ledger} {post : α → Ledger → Prop} (h : post a l) :
    (pure a : Plan α).Gives l post :=
  ⟨a, l, rfl, h⟩

theorem run_bind_of_run {p : Plan α} {f : α → Plan β} {l l' : Ledger} {a : α}
    (h : p.run l = (.ok a, l')) : (p >>= f).run l = (f a).run l' := by
  show (ExceptT.bindCont f (p.run l).1) (p.run l).2 = _
  rw [h]
  rfl

theorem gives_bind {p : Plan α} {f : α → Plan β} {l : Ledger} {post : β → Ledger → Prop}
    (h : p.Gives l fun a l' => (f a).Gives l' post) : (p >>= f).Gives l post := by
  obtain ⟨a, l', hrun, hnext⟩ := h
  rw [Gives, run_bind_of_run hrun]
  exact hnext

theorem answer_bind {p : Plan α} {f : α → Plan β} {l : Ledger} {result : Except QueryError β}
    (h : p.Gives l fun a l' => (f a).answer l' = result) : (p >>= f).answer l = result := by
  obtain ⟨a, l', hrun, hnext⟩ := h
  rw [Plan.answer, run_bind_of_run hrun]
  exact hnext

theorem run_bind_of_failure {p : Plan α} {f : α → Plan β} {l l' : Ledger} {e : QueryError}
    (h : p.run l = (.error e, l')) : (p >>= f).run l = (.error e, l') := by
  show (ExceptT.bindCont f (p.run l).1) (p.run l).2 = _
  rw [h]
  rfl

/-- A sequence that succeeds does so step by step. -/
theorem gives_of_gives_bind {p : Plan α} {f : α → Plan β} {l : Ledger} {post : β → Ledger → Prop}
    (h : (p >>= f).Gives l post) : p.Gives l fun a l' => (f a).Gives l' post := by
  rcases hrun : p.run l with ⟨result, l'⟩
  cases result with
  | ok a =>
    rw [Gives, run_bind_of_run hrun] at h
    exact ⟨a, l', hrun, h⟩
  | error e =>
    obtain ⟨_, _, hfailed, -⟩ := h
    rw [run_bind_of_failure hrun] at hfailed
    cases hfailed

/-- A run that succeeded gives what every run of it gives. -/
theorem Gives.of_run {p : Plan α} {l l' : Ledger} {post : α → Ledger → Prop} (h : p.Gives l post)
    {a : α} (hrun : p.run l = (.ok a, l')) : post a l' := by
  obtain ⟨b, k, hb, hpost⟩ := h
  rw [hrun] at hb
  cases hb
  exact hpost

/-- A sequence that succeeded did so in both of its parts. -/
theorem run_bind_eq_ok {p : Plan α} {f : α → Plan β} {l l' : Ledger} {b : β}
    (h : (p >>= f).run l = (.ok b, l')) :
    ∃ a k, p.run l = (.ok a, k) ∧ (f a).run k = (.ok b, l') := by
  obtain ⟨a, k, hp, c, k', hf, rfl, rfl⟩ := gives_of_gives_bind
    (⟨b, l', h, rfl, rfl⟩ : (p >>= f).Gives l fun c k => c = b ∧ k = l')
  exact ⟨a, k, hp, hf⟩

/-- What ends by failing does not succeed, whatever is closed before. -/
theorem run_bind_throw_ne_ok {p : Plan α} {e : QueryError} {l l' : Ledger} {b : β} :
    (p >>= fun _ => throw e).run l ≠ (.ok b, l') := by
  intro h
  obtain ⟨_, _, -, hfailed⟩ := run_bind_eq_ok h
  cases hfailed

theorem not_gives_throw (e : QueryError) {l : Ledger} {post : α → Ledger → Prop} :
    ¬ (throw e : Plan α).Gives l post := by
  rintro ⟨_, _, hrun, -⟩
  cases hrun

theorem answer_bind_pure (p : Plan α) (f : α → β) (l : Ledger) :
    (p >>= fun a => pure (f a)).answer l = (p.answer l).map f := by
  unfold Plan.answer
  cases hrun : p.run l with
  | mk result l' =>
    cases result with
    | ok a => rw [run_bind_of_run hrun]; rfl
    | error e => rw [run_bind_of_failure hrun]; rfl

theorem gives_lift {x : Except QueryError α} {a : α} {l : Ledger} {post : α → Ledger → Prop}
    (hx : x = .ok a) (h : post a l) : (liftM x : Plan α).Gives l post := by
  subst hx
  exact ⟨a, l, rfl, h⟩

theorem gives_modifyGet {f : Ledger → α × Ledger} {l : Ledger} {post : α → Ledger → Prop}
    (h : post (f l).1 (f l).2) : (modifyGet f : Plan α).Gives l post :=
  ⟨(f l).1, (f l).2, rfl, h⟩

theorem gives_orElseClosing {p : Plan α} {cleanup : Plan Unit} {l : Ledger}
    {post : α → Ledger → Prop} (h : p.Gives l post) : (p.orElseClosing cleanup).Gives l post := by
  obtain ⟨a, l', hrun, hpost⟩ := h
  -- Nothing fails, so the cleanup is never reached.
  refine ⟨a, l', ?_, hpost⟩
  unfold orElseClosing tryCatch
  simp only [instMonadExceptOfMonadExceptOf, tryCatchThe, MonadExceptOf.tryCatch, ExceptT.tryCatch,
    ExceptT.run, ExceptT.mk, bind, StateT.bind]
  rw [show p l = (.ok a, l') from hrun]
  rfl

/-! ## Drawing identities -/

theorem gives_drawItem {l : Ledger} {post : Nat → Ledger → Prop}
    (h : post l.nextItem { l with nextItem := l.nextItem + 1 }) : drawItem.Gives l post :=
  gives_modifyGet h

end Plan

namespace RowSet

open Plan

/-! ## Notes on data sets -/

theorem gives_record {source : Nat} {f : Meter → Meter} {l : Ledger} {post : Unit → Ledger → Prop}
    (h : ∀ l' : Ledger, l'.nextItem = l.nextItem → post () l') :
    (Plan.record source f).Gives l post :=
  ⟨(), _, rfl, h _ rfl⟩

theorem gives_recordPulls {d : RowSet} {pulls : Nat} {l : Ledger} {post : Unit → Ledger → Prop}
    (h : ∀ l' : Ledger, l'.nextItem = l.nextItem → post () l') :
    (d.recordPulls pulls).Gives l post := by
  unfold recordPulls
  cases d.source with
  | none => exact gives_pure (h l rfl)
  | some n => exact gives_record h

theorem gives_close {d : RowSet} {l : Ledger} {post : Unit → Ledger → Prop}
    (h : ∀ l' : Ledger, l'.nextItem = l.nextItem → post () l') : d.close.Gives l post := by
  unfold close
  cases d.source with
  | none => exact gives_pure (h l rfl)
  | some n => exact gives_record h

theorem gives_closeAll {sets : List RowSet} {l : Ledger} {post : Unit → Ledger → Prop}
    (h : ∀ l' : Ledger, l'.nextItem = l.nextItem → post () l') : (closeAll sets).Gives l post := by
  induction sets generalizing l with
  | nil => exact gives_pure (h l rfl)
  | cons d rest ih =>
    refine gives_bind (gives_close fun l' hl' => ih fun l'' hl'' => h l'' (hl''.trans hl'))

/-! ## Reading a data set -/

/-- The data set gives these rows and then ends, without a failure. -/
def Yields (d : RowSet) (rows : List Row) : Prop := d.stream.outcomes = rows.map .ok

theorem yields_ofRows (header : List Item) (rows : List Row) : (ofRows header rows).Yields rows := by
  simp [Yields, ofRows]

theorem foldRows_answer {σ : Type} (d : RowSet) (f : σ → Row → Except QueryError σ) (start : σ)
    (l : Ledger) : (d.foldRows f start).answer l = (d.stream.fold f start).2 :=
  answer_bind (gives_recordPulls fun _ _ => answer_bind (gives_close fun _ _ => rfl))

/-- A computation over rows that succeeded has gone over all of them. -/
theorem foldRows_eq_ok {σ : Type} {d : RowSet} {f : σ → Row → Except QueryError σ} {start result : σ}
    {l l' : Ledger} (h : (d.foldRows f start).run l = (.ok result, l')) :
    ∃ rows, d.Yields rows ∧ rows.foldlM f start = .ok result := by
  have hfold : (d.stream.fold f start).2 = .ok result := by
    rw [← foldRows_answer d f start l]
    exact congrArg Prod.fst h
  exact Stream.exists_rows_of_fold hfold

/-- **Reading a data set gives its rows or its first failure.** -/
theorem toRows_answer (d : RowSet) (l : Ledger) :
    d.toRows.answer l = Stream.collect d.stream.outcomes := by
  have hfold := d.stream.fold_collect []
  have hread : d.toRows.answer l =
      (d.stream.fold (fun rows row => .ok (row :: rows)) []).2.map List.reverse := by
    rw [toRows, answer_bind_pure, foldRows_answer]
  rw [hread, hfold]
  cases Stream.collect d.stream.outcomes <;> rfl

/-- A data set gives one list of rows at most. -/
theorem Yields.unique {d : RowSet} {rows rows' : List Row} (h : d.Yields rows) (h' : d.Yields rows') :
    rows = rows' :=
  (List.map_inj_right fun _ _ => Except.ok.inj).mp (h.symm.trans h')

theorem yields_of_toRows {d : RowSet} {rows : List Row} {l l' : Ledger}
    (h : d.toRows.run l = (.ok rows, l')) : d.Yields rows := by
  have hcollect : Stream.collect d.stream.outcomes = .ok rows := by
    rw [← toRows_answer d l]
    exact congrArg Prod.fst h
  exact Stream.collect_eq_ok_iff.mp hcollect

theorem gives_toRows {d : RowSet} {rows : List Row} {l : Ledger}
    {post : List Row → Ledger → Prop} (hd : d.Yields rows)
    (h : ∀ l' : Ledger, l'.nextItem = l.nextItem → post rows l') : d.toRows.Gives l post := by
  have hfold := d.stream.fold_collect []
  rw [hd, Stream.collect_rows] at hfold
  obtain ⟨acc, hacc, hrows⟩ : ∃ acc,
      (d.stream.fold (fun rows row => .ok (row :: rows)) []).2 = .ok acc ∧ acc.reverse = rows := by
    cases hresult : (d.stream.fold (fun rows row => .ok (row :: rows)) []).2 with
    | error e => simp [hresult, Except.map] at hfold
    | ok acc => exact ⟨acc, rfl, by simpa [hresult, Except.map] using hfold⟩
  refine gives_bind (gives_bind (gives_recordPulls fun l' hl' => gives_bind (gives_close ?_)))
  intro l'' hl''
  refine gives_lift hacc (gives_pure ?_)
  rw [hrows]
  exact h l'' (hl''.trans hl')

/-! ## The stages of a selection -/

/-- The last stage: a projection, or a refusal that names the first item that cannot be read. -/
def projectedOrRefused (d : RowSet) (items : List Item) : Plan RowSet :=
  match items.find? fun i => !Header.isReadable d.header i with
  | some missing => do
    d.close
    throw (.selectItemMissing missing.sqlWithoutAlias)
  | none => return d.projected items

/-- Unless the items are those of the data set already, what cannot be read from it is computed
first, if it is a scalar function. -/
theorem selection_eq (d : RowSet) (items : List Item) : d.selection items =
    if Item.sameLayout d.header items then pure d else
      (if (missingScalars d.header items).isEmpty then pure d
        else d.withScalars (missingScalars d.header items)) >>= (·.projectedOrRefused items) := by
  unfold selection
  split
  · rfl
  · dsimp only
    split <;> rfl

end RowSet

end DocQuery
