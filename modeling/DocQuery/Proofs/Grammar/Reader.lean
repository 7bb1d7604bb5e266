import DocQuery.Grammar.Statement
import DocQuery.Proofs.Results
import Mathlib.Data.List.Forall2

/-!
# DocQuery.Proofs.Grammar.Reader — running what reads a query

A reader succeeds or fails from the counters it starts with.  Most of what is said of readers here is
that they succeed from all counters with a result of a kind (`Reads`); the counters themselves only
name things and are never looked at.
-/

namespace DocQuery.Grammar

section Running

variable {α β : Type} {s s' : State}

theorem run_pure (a : α) (s : State) : (pure a : Reader α).run s = (.ok a, s) := rfl

theorem run_bind_ok {r : Reader α} {f : α → Reader β} {a : α} (h : r.run s = (.ok a, s')) :
    (r >>= f).run s = (f a).run s' := by
  show ((ExceptT.bind r f).run s) = _
  simp only [ExceptT.bind, ExceptT.run_mk]
  show (StateT.bind r (ExceptT.bindCont f)) s = _
  have hr : r s = (.ok a, s') := h
  simp only [StateT.bind, hr]
  rfl

theorem run_bind_error {r : Reader α} {f : α → Reader β} {e : QueryError}
    (h : r.run s = (.error e, s')) : (r >>= f).run s = (.error e, s') := by
  show ((ExceptT.bind r f).run s) = _
  simp only [ExceptT.bind, ExceptT.run_mk]
  show (StateT.bind r (ExceptT.bindCont f)) s = _
  have hr : r s = (.error e, s') := h
  simp only [StateT.bind, hr]
  rfl

/-- What was computed in sequence succeeded in both of its parts. -/
theorem run_bind_eq_ok {r : Reader α} {f : α → Reader β} {b : β}
    (h : (r >>= f).run s = (.ok b, s')) :
    ∃ a middle, r.run s = (.ok a, middle) ∧ (f a).run middle = (.ok b, s') := by
  rcases hr : r.run s with ⟨result, middle⟩
  cases result with
  | error e =>
    rw [run_bind_error hr] at h
    cases h
  | ok a =>
    rw [run_bind_ok hr] at h
    exact ⟨a, middle, rfl, h⟩

/-- A result that needs no counters leaves them as they are. -/
theorem run_lift_eq_ok {x : Except QueryError α} {a : α}
    (h : (liftM x : Reader α).run s = (.ok a, s')) : x = .ok a ∧ s' = s := by
  cases x with
  | error e => cases h
  | ok b =>
    cases h
    exact ⟨rfl, rfl⟩

theorem run_lift_ok {x : Except QueryError α} {a : α} (h : x = .ok a) (s : State) :
    (liftM x : Reader α).run s = (.ok a, s) := by
  rw [h]
  rfl

/-- A run with a result succeeded. -/
theorem exists_run_of_toOption {r : Reader α} {a : α} (h : (r.run s).1.toOption = some a) :
    ∃ s', r.run s = (.ok a, s') :=
  ⟨(r.run s).2, Prod.ext (eq_ok_of_mem_toOption h) rfl⟩

theorem run_map (g : α → β) (r : Reader α) (s : State) :
    (g <$> r).run s = (Except.map g (r.run s).1, (r.run s).2) := by
  rw [map_eq_pure_bind]
  rcases hr : r.run s with ⟨result, middle⟩
  cases result with
  | error e => rw [run_bind_error hr, Except.map]
  | ok a => rw [run_bind_ok hr, run_pure, Except.map]

/-- Parameters are numbered from zero within, and the numbering around goes on afterwards. -/
theorem run_renumbered (r : Reader α) (s : State) : (renumbered r).run s =
    ((r.run { s with nextParameter := 0 }).1,
      { (r.run { s with nextParameter := 0 }).2 with nextParameter := s.nextParameter }) := rfl

theorem run_renumbered_eq_ok_iff {r : Reader α} {a : α} : (renumbered r).run s = (.ok a, s') ↔
    ∃ last, r.run { s with nextParameter := 0 } = (.ok a, last) ∧
      s' = { last with nextParameter := s.nextParameter } := by
  rw [run_renumbered]
  constructor
  · intro h
    obtain ⟨hresult, rfl⟩ := Prod.mk.inj h
    exact ⟨_, Prod.ext hresult rfl, rfl⟩
  · rintro ⟨last, hrun, rfl⟩
    rw [hrun]

/-- **A query is read by its clauses, the from items first**, whatever reads a from item without joins. -/
theorem run_readWith_eq_ok_iff {catalog : Catalog} {simple : List Char → Reader FromItem}
    {sql : List Char} {q : Query} : (readWith catalog simple sql).run s = (.ok q, s') ↔
      ∃ text clauses read k last, normalize sql = .ok text ∧ locateClauses text = .ok clauses ∧
        (readFromItems simple {} (splitOn [','] ((clauses.lookup "FROM").getD []))).run
          { s with nextParameter := 0 } = (.ok read, k) ∧
        (clauses.foldlM (fun q (keyword, text) => readClause catalog q keyword text) read).run k =
          (.ok q, last) ∧
        s' = { last with nextParameter := s.nextParameter } := by
  unfold readWith
  constructor
  · intro h
    obtain ⟨text, _, hnormalized, hrenumbered⟩ := run_bind_eq_ok h
    obtain ⟨hnormalize, rfl⟩ := run_lift_eq_ok hnormalized
    obtain ⟨last, hinner, rfl⟩ := run_renumbered_eq_ok_iff.mp hrenumbered
    obtain ⟨clauses, _, hlocated, hrest⟩ := run_bind_eq_ok hinner
    obtain ⟨hlocate, rfl⟩ := run_lift_eq_ok hlocated
    obtain ⟨read, k, hread, hclauses⟩ := run_bind_eq_ok hrest
    exact ⟨text, clauses, read, k, last, hnormalize, hlocate, hread, hclauses, rfl⟩
  · rintro ⟨text, clauses, read, k, last, hnormalize, hlocate, hread, hclauses, rfl⟩
    rw [run_bind_ok (run_lift_ok hnormalize s), run_renumbered_eq_ok_iff]
    refine ⟨last, ?_, rfl⟩
    unfold readNormalized
    rw [run_bind_ok (run_lift_ok hlocate _), run_bind_ok hread]
    exact hclauses

theorem mapM_congr {l : List α} {f g : α → Reader β} (h : ∀ a ∈ l, f a = g a) :
    l.mapM f = l.mapM g := by
  induction l with
  | nil => rfl
  | cons a l ih =>
    rw [List.mapM_cons, List.mapM_cons, h a List.mem_cons_self,
      ih fun b hb => h b (List.mem_cons_of_mem _ hb)]

/-- A run over a list gives as many results as the list is long. -/
theorem length_of_run_mapM {f : α → Reader β} {l : List α} {results : List β}
    (h : (l.mapM f).run s = (.ok results, s')) : results.length = l.length := by
  induction l generalizing s results with
  | nil =>
    cases h
    rfl
  | cons a l ih =>
    rw [List.mapM_cons] at h
    obtain ⟨b, middle, -, h⟩ := run_bind_eq_ok h
    obtain ⟨rest, last, hrest, h⟩ := run_bind_eq_ok h
    cases h
    rw [List.length_cons, List.length_cons, ih hrest]

end Running

/-! ## Success -/

/-- The reader succeeds from all counters, with a result that has the property. -/
def Reads {α : Type} (r : Reader α) (P : α → Prop) : Prop :=
  ∀ s, ∃ a s', r.run s = (.ok a, s') ∧ P a

namespace Reads

variable {α β : Type} {P Q : α → Prop} {R : β → Prop} {r : Reader α}

theorem pure {a : α} (h : P a) : Reads (Pure.pure a) P := fun s => ⟨a, s, rfl, h⟩

theorem mono (h : Reads r P) (hPQ : ∀ a, P a → Q a) : Reads r Q := by
  intro s
  obtain ⟨a, s', hrun, ha⟩ := h s
  exact ⟨a, s', hrun, hPQ a ha⟩

theorem bind {f : α → Reader β} (h : Reads r P) (hf : ∀ a, P a → Reads (f a) R) :
    Reads (r >>= f) R := by
  intro s
  obtain ⟨a, middle, hrun, ha⟩ := h s
  rw [run_bind_ok hrun]
  exact hf a ha middle

theorem map {g : α → β} (h : Reads r P) (hg : ∀ a, P a → R (g a)) : Reads (g <$> r) R := by
  rw [map_eq_pure_bind]
  exact h.bind fun a ha => Reads.pure (hg a ha)

/-- A result that needs no counters. -/
theorem lift {e : Except QueryError α} {a : α} (he : e = .ok a) (h : P a) :
    Reads (liftM e : Reader α) P := by
  subst he
  exact fun s => ⟨a, s, rfl, h⟩

/-- Results over a list that match it item by item. -/
theorem mapM {f : β → Reader α} {l : List β} {M : β → α → Prop}
    (h : ∀ b ∈ l, Reads (f b) (M b)) : Reads (l.mapM f) (List.Forall₂ M l) := by
  induction l with
  | nil => exact Reads.pure List.Forall₂.nil
  | cons b l ih =>
    rw [List.mapM_cons]
    apply (h b List.mem_cons_self).bind
    intro a ha
    apply (ih fun c hc => h c (List.mem_cons_of_mem _ hc)).bind
    intro rest hrest
    exact Reads.pure (List.Forall₂.cons ha hrest)

end Reads

/-- An item is made with some identity. -/
theorem reads_make (pending : Pending) : Reads (make pending) fun i => ∃ id, i = pending id := fun s =>
  ⟨pending s.nextItem, { s with nextItem := s.nextItem + 1 }, rfl, s.nextItem, rfl⟩

/-- An item that was found is made. -/
theorem reads_makeFound {pending : Pending} {found : Except QueryError (Option Pending)}
    {failure : QueryError} (h : found = .ok (some pending)) :
    Reads (makeFound found failure) fun i => ∃ id, i = pending id := by
  subst h
  exact reads_make pending

end DocQuery.Grammar
