import DocQuery.Proofs.Query.Queries
import DocQuery.Proofs.Rows.Headed

/-!
# DocQuery.Proofs.Rows.Cleanup — what planning leaves open

A data set that a row source hands out is to be closed by whoever reads it, also where something else
fails meanwhile.  A plan is tidy (`Plan.Tidy`) if afterwards only those data sets are open that its
result still reads, and none of those it was given if it fails; whatever else was open before stays
out of sight.  The same judgement keeps account of the causes of failure, so that it also tells why a
plan may fail.  Every operator on data sets is tidy.
-/

namespace DocQuery

/-! ## Open data sets -/

namespace Ledger

/-- All data sets that were handed out since another ledger have been closed. -/
def ClosedSince (before l : Ledger) : Prop :=
  ∀ meter ∈ l.meters.drop before.meters.length, 0 < meter.closes

/-- The data sets handed out from one on that have not been closed are among some. -/
def OpenAmong (first : Nat) (among : List Nat) (l : Ledger) : Prop :=
  ∀ n meter, first ≤ n → l.meters[n]? = some meter → meter.closes = 0 → n ∈ among

variable {first : Nat} {among more : List Nat} {before l : Ledger}

theorem OpenAmong.mono (h : l.OpenAmong first among) (hsub : among ⊆ more) :
    l.OpenAmong first more := fun n meter hn hmeter hopen => hsub (h n meter hn hmeter hopen)

/-- Before anything is handed out, nothing of it is open. -/
theorem openAmong_start (l : Ledger) : l.OpenAmong l.meters.length [] := by
  intro n meter hn hmeter
  rw [List.getElem?_eq_none hn] at hmeter
  cases hmeter

theorem OpenAmong.closedSince (h : l.OpenAmong before.meters.length []) :
    before.ClosedSince l := by
  intro meter hmem
  obtain ⟨k, hk⟩ := List.getElem?_of_mem hmem
  rw [List.getElem?_drop] at hk
  refine Nat.pos_of_ne_zero fun hopen => ?_
  exact absurd (h _ meter (Nat.le_add_right _ _) hk hopen) List.not_mem_nil

/-- A data set that is handed out is the one that may be open in addition. -/
theorem OpenAmong.append (h : l.OpenAmong first among) :
    Ledger.OpenAmong first (l.meters.length :: among) { l with meters := l.meters ++ [{}] } := by
  intro n meter hn hmeter hopen
  rcases Nat.lt_or_ge n l.meters.length with hlt | hge
  · rw [show (l.meters ++ [{}])[n]? = l.meters[n]? from List.getElem?_append_left hlt] at hmeter
    exact List.mem_cons_of_mem _ (h n meter hn hmeter hopen)
  · rw [show (l.meters ++ [{}])[n]? = _ from List.getElem?_append_right hge] at hmeter
    obtain ⟨hlt, -⟩ := List.getElem?_eq_some_iff.mp hmeter
    have heq : n = l.meters.length := by
      simp only [List.length_singleton] at hlt
      omega
    exact heq ▸ List.mem_cons_self

/-- A note on a data set that does not take back that it was closed opens nothing. -/
theorem OpenAmong.modify (h : l.OpenAmong first among) (source : Nat) {f : Meter → Meter}
    (hf : ∀ m, m.closes ≤ (f m).closes) :
    Ledger.OpenAmong first among { l with meters := l.meters.modify source f } := by
  intro n meter hn hmeter hopen
  rw [List.getElem?_modify] at hmeter
  obtain ⟨given, hgiven, rfl⟩ := Option.map_eq_some_iff.mp hmeter
  refine h n given hn hgiven (Nat.le_zero.mp ?_)
  split at hopen
  · exact hopen ▸ hf given
  · exact Nat.le_of_eq hopen

/-- A data set that is closed is not among the open ones any more. -/
theorem OpenAmong.close {source : Nat} (h : l.OpenAmong first (source :: among)) :
    Ledger.OpenAmong first among
      { l with meters := l.meters.modify source fun m => { m with closes := m.closes + 1 } } := by
  intro n meter hn hmeter hopen
  rw [List.getElem?_modify] at hmeter
  obtain ⟨given, hgiven, rfl⟩ := Option.map_eq_some_iff.mp hmeter
  by_cases hsource : source = n
  · rw [if_pos hsource] at hopen
    cases hopen
  · rw [if_neg hsource] at hopen
    exact (List.mem_cons.mp (h n given hn hgiven hopen)).resolve_left (Ne.symm hsource)

end Ledger

/-! ## Ends of plans -/

namespace Plan

variable {α β : Type}

/-- However a plan ends, this holds then: of its result and the ledger, or of the failure and the
ledger. -/
def Ends (p : Plan α) (l : Ledger) (post : α → Ledger → Prop)
    (failed : QueryError → Ledger → Prop) : Prop :=
  match p.run l with
  | (.ok a, l') => post a l'
  | (.error e, l') => failed e l'

variable {p : Plan α} {l : Ledger} {post : α → Ledger → Prop}
  {failed : QueryError → Ledger → Prop}

theorem Ends.mono {post' : α → Ledger → Prop} {failed' : QueryError → Ledger → Prop}
    (h : p.Ends l post failed) (hpost : ∀ a l', post a l' → post' a l')
    (hfailed : ∀ e l', failed e l' → failed' e l') : p.Ends l post' failed' := by
  unfold Ends at h ⊢
  rcases hrun : p.run l with ⟨result, l'⟩
  rw [hrun] at h
  cases result with
  | ok a => exact hpost a l' h
  | error e => exact hfailed e l' h

theorem ends_bind {f : α → Plan β} {post : β → Ledger → Prop}
    (h : p.Ends l (fun a l' => (f a).Ends l' post failed) failed) :
    (p >>= f).Ends l post failed := by
  unfold Ends at h
  rcases hrun : p.run l with ⟨result, l'⟩
  rw [hrun] at h
  cases result with
  | ok a =>
    rw [Ends, run_bind_of_run hrun]
    exact h
  | error e =>
    rw [Ends, run_bind_of_failure hrun]
    exact h

/-- A computation that fails is followed by its cleanup before it has ended. -/
theorem ends_orElseClosing {cleanup : Plan Unit}
    (h : p.Ends l post fun e l' => cleanup.Ends l' (fun _ => failed e) failed) :
    (p.orElseClosing cleanup).Ends l post failed := by
  unfold Ends at h
  rcases hrun : p.run l with ⟨result, l'⟩
  rw [hrun] at h
  cases result with
  | ok a =>
    rw [Ends, run_orElseClosing_of_run hrun]
    exact h
  | error e =>
    rw [Ends, run_orElseClosing_of_failure hrun]
    exact ends_bind (Ends.mono h (fun _ _ hfailed => hfailed) fun _ _ hfailed => hfailed)

theorem Ends.answer_eq_error (h : p.Ends l post failed) {e : QueryError}
    (he : p.answer l = .error e) : ∃ l', failed e l' := by
  have hrun : p.run l = (.error e, (p.run l).2) := Prod.ext he rfl
  unfold Ends at h
  rw [hrun] at h
  exact ⟨_, h⟩

/-! ## Tidy plans -/

/-- A plan is tidy if it leaves open, of what it was given, at most what its result still reads, and
nothing if it fails.  It fails for some causes only, and its result has a property.  Data sets that
others look after are not touched. -/
def Tidy (causes : QueryError → Prop) (first : Nat) (given : List Nat) (kept : α → List Nat)
    (good : α → Prop) (p : Plan α) : Prop :=
  ∀ (others : List Nat) (l : Ledger), l.OpenAmong first (given ++ others) →
    p.Ends l (fun a l' => good a ∧ l'.OpenAmong first (kept a ++ others))
      fun e l' => causes e ∧ l'.OpenAmong first others

variable {causes : QueryError → Prop} {first : Nat} {given more : List Nat} {kept : α → List Nat}
  {good : α → Prop}

theorem tidy_pure {a : α} (hgood : good a) (h : given ⊆ kept a) :
    Tidy causes first given kept good (pure a) := fun _ _ hl =>
  ⟨hgood, hl.mono (List.append_subset.mpr
    ⟨List.subset_append_of_subset_left _ h, List.subset_append_right _ _⟩)⟩

theorem tidy_throw {e : QueryError} (h : causes e) :
    Tidy causes first [] kept good (throw e) := fun _ _ hl => ⟨h, hl⟩

theorem tidy_lift {x : Except QueryError α} (hcauses : ∀ e, x = .error e → causes e) :
    Tidy causes first [] (fun _ => []) (fun a => x = .ok a) (liftM x) := by
  cases x with
  | ok a => exact tidy_pure rfl (List.Subset.refl _)
  | error e => exact tidy_throw (hcauses e rfl)

theorem Tidy.mono {kept' : α → List Nat} {good' : α → Prop}
    (h : Tidy causes first given kept good p) (hgood : ∀ a, good a → good' a)
    (hkept : ∀ a, good a → kept a ⊆ kept' a) : Tidy causes first given kept' good' p := by
  intro others l hl
  refine (h others l hl).mono (fun a l' ha => ⟨hgood a ha.1, ha.2.mono ?_⟩) fun _ _ => id
  exact List.append_subset.mpr
    ⟨List.subset_append_of_subset_left _ (hkept a ha.1), List.subset_append_right _ _⟩

/-- What a plan always gives is a property of its result as well. -/
theorem Tidy.and_run {good' : α → Prop} (h : Tidy causes first given kept good p)
    (hrun : ∀ l a l', p.run l = (.ok a, l') → good' a) :
    Tidy causes first given kept (fun a => good a ∧ good' a) p := by
  intro others l hl
  have hends := h others l hl
  unfold Ends at hends ⊢
  rcases hresult : p.run l with ⟨result, l'⟩
  rw [hresult] at hends
  cases result with
  | ok a => exact ⟨⟨hends.1, hrun l a l' hresult⟩, hends.2⟩
  | error e => exact hends

/-- A plan may be given more than is there. -/
theorem Tidy.of_subset (h : Tidy causes first given kept good p) (hsub : more ⊆ given) :
    Tidy causes first more kept good p := fun others l hl =>
  h others l (hl.mono (List.append_subset.mpr
    ⟨List.subset_append_of_subset_left _ hsub, List.subset_append_right _ _⟩))

theorem Tidy.bind {f : α → Plan β} {kept' : β → List Nat} {good' : β → Prop}
    (h : Tidy causes first given kept good p)
    (hf : ∀ a, good a → Tidy causes first (kept a) kept' good' (f a)) :
    Tidy causes first given kept' good' (p >>= f) := fun others l hl =>
  ends_bind ((h others l hl).mono (fun a l' ha => hf a ha.1 others l' ha.2) fun _ _ => id)

/-- What is to be closed if a computation fails is kept while it runs. -/
theorem Tidy.orElseClosing {cleanup : Plan Unit} (h : Tidy causes first given kept good p)
    (hcleanup : Tidy causes first more (fun _ => []) (fun _ => True) cleanup) :
    Tidy causes first (given ++ more) (fun a => kept a ++ more) good
      (p.orElseClosing cleanup) := by
  intro others l hl
  rw [List.append_assoc] at hl
  refine ends_orElseClosing ((h (more ++ others) l hl).mono (fun a l' ha => ?_) fun e l' he => ?_)
  · rw [List.append_assoc]
    exact ha
  · exact (hcleanup others l' he.2).mono (fun _ _ hclosed => ⟨he.1, hclosed.2⟩) fun _ _ => id

theorem tidy_note (r : Request) :
    Tidy causes first given (fun _ => given) (fun _ => True) (note r) := fun _ _ hl => ⟨trivial, hl⟩

theorem tidy_drawItem : Tidy causes first given (fun _ => given) (fun _ => True) drawItem :=
  fun _ _ hl => ⟨trivial, hl⟩

/-- Steps of a list that touch no data set. -/
theorem tidy_mapM {f : α → Plan β}
    (hf : ∀ a, Tidy causes first given (fun _ => given) (fun _ => True) (f a)) (as : List α) :
    Tidy causes first given (fun _ => given) (fun _ => True) (as.mapM f) := by
  induction as with
  | nil => exact tidy_pure trivial (List.Subset.refl _)
  | cons a rest ih =>
    rw [List.mapM_cons]
    exact (hf a).bind fun _ _ => ih.bind fun _ _ => tidy_pure trivial (List.Subset.refl _)

theorem tidy_makeItems (pending : List (Nat → Item)) :
    Tidy causes first given (fun _ => given) (fun _ => True) (makeItems pending) :=
  tidy_mapM (fun _ => tidy_drawItem.bind fun _ _ => tidy_pure trivial (List.Subset.refl _)) pending

end Plan

/-! ## Causes of failure -/

/-- A stream fails for some causes only. -/
def Stream.FailsWithin (causes : QueryError → Prop) (s : Stream) : Prop :=
  ∀ e, Except.error e ∈ s.outcomes → causes e

/-- Filters fail for some causes only, whatever the row is. -/
def Filter.FailWithin (causes : QueryError → Prop) (filters : List Filter) : Prop :=
  ∀ f ∈ filters, ∀ row e, Filter.accepts row f = .error e → causes e

/-- Everything but a parameter without a value is among the causes. -/
def QueryError.Admitted (causes : QueryError → Prop) : Prop :=
  ∀ e, (∀ n, e ≠ .unboundParameter n) → causes e

/-- Every error of an execution but a parameter without a value is among the causes. -/
def QueryError.RunAdmitted (causes : QueryError → Prop) : Prop :=
  ∀ e, e.kind = .execution → (∀ n, e ≠ .unboundParameter n) → causes e

theorem QueryError.Admitted.run {causes : QueryError → Prop} (h : Admitted causes) :
    RunAdmitted causes := fun e _ hne => h e hne

namespace Stream

variable {causes : QueryError → Prop} {s : Stream}

theorem failsWithin_ofRows (rows : List Row) : (ofOutcomes (rows.map .ok)).FailsWithin causes := by
  intro e he
  rw [outcomes_ofOutcomes] at he
  simp at he

theorem FailsWithin.expand (h : s.FailsWithin causes) {f : Row → List (Except QueryError Row)}
    (hf : ∀ row e, Except.error e ∈ f row → causes e) : (expand f s).FailsWithin causes := by
  intro e he
  rw [outcomes_expand] at he
  obtain ⟨o, hmem, ho⟩ := List.mem_flatMap.mp he
  cases o with
  | ok row => exact hf row e ho
  | error e' =>
    cases List.mem_singleton.mp ho
    exact h e hmem

theorem FailsWithin.map (h : s.FailsWithin causes) {f : Row → Except QueryError Row}
    (hf : ∀ row e, f row = .error e → causes e) : (map f s).FailsWithin causes := by
  intro e he
  rw [outcomes_map] at he
  obtain ⟨o, hmem, ho⟩ := List.mem_map.mp he
  cases o with
  | ok row => exact hf row e ho
  | error e' =>
    cases ho
    exact h e hmem

theorem FailsWithin.filter (h : s.FailsWithin causes) {test : Row → Except QueryError Bool}
    (htest : ∀ row e, test row = .error e → causes e) : (filter test s).FailsWithin causes := by
  intro e he
  rw [outcomes_filter] at he
  obtain ⟨o, hmem, ho⟩ := List.mem_flatMap.mp he
  cases o with
  | error e' =>
    cases List.mem_singleton.mp ho
    exact h e hmem
  | ok row =>
    unfold spread tested at ho
    dsimp only at ho
    split at ho
    · cases List.mem_singleton.mp ho
    · cases ho
    next e' htested =>
      cases List.mem_singleton.mp ho
      exact htest row e htested

theorem FailsWithin.skip (h : s.FailsWithin causes) (n : Nat) : (skip n s).FailsWithin causes := by
  intro e he
  rw [outcomes_skip_eq] at he
  exact h e (mem_of_mem_afterFirst he)

theorem FailsWithin.take (h : s.FailsWithin causes) (n : Nat) : (take n s).FailsWithin causes := by
  intro e he
  rw [outcomes_take_eq] at he
  exact h e (mem_of_mem_upToRows he)

/-- A computation over rows fails where the stream does or where it does so itself. -/
theorem FailsWithin.fold (h : s.FailsWithin causes) {σ : Type}
    {f : σ → Row → Except QueryError σ} (hf : ∀ acc row e, f acc row = .error e → causes e)
    (start : σ) {e : QueryError} (he : (s.fold f start).2 = .error e) : causes e := by
  induction s generalizing start with
  | closed r => cases he
  | step r pulls outcome rest ih =>
    cases outcome with
    | error e' =>
      cases he
      exact h e List.mem_cons_self
    | ok row? =>
      cases row? with
      | none => cases he
      | some row =>
        unfold Stream.fold at he
        cases hstep : f start row with
        | error e' =>
          simp only [hstep] at he
          cases he
          exact hf start row e hstep
        | ok next =>
          simp only [hstep] at he
          exact ih (fun e' hmem => h e' (List.mem_cons_of_mem _ hmem)) next he

end Stream

namespace Filter

variable {causes : QueryError → Prop} {filters more : List Filter}

theorem FailWithin.subset (h : FailWithin causes filters) (hsub : more ⊆ filters) :
    FailWithin causes more := fun f hf => h f (hsub hf)

/-- Filters that are asked one after the other fail where one of them does. -/
theorem FailWithin.allAccept (h : FailWithin causes filters) {row : Row} {e : QueryError}
    (he : allAccept row filters = .error e) : causes e := by
  induction filters with
  | nil => cases he
  | cons f rest ih =>
    unfold Filter.allAccept at he
    rcases failed_of_bind_eq_error he with hf | ⟨accepted, -, he⟩
    · exact h f List.mem_cons_self row e hf
    · cases accepted with
      | true => exact ih (h.subset (List.subset_cons_self f rest)) he
      | false => cases he

/-! ## Filters without parameters -/

section Parameters

set_option linter.unusedSectionVars false

variable (hcauses : QueryError.RunAdmitted causes) {row : Row} {e : QueryError}

include hcauses

theorem itemValue_failsWithin {i : Item} (he : itemValue row i = .error e) : causes e := by
  unfold itemValue at he
  split at he
  · cases he
  · cases he
    exact hcauses _ rfl fun _ => QueryError.noConfusion

/-- A comparison fails where an item is missing, or for want of the value of a parameter. -/
theorem comparisonAccepts_failsWithin {item : Item} {op : Comparison} {operand : Operand}
    (hoperand : (∀ n, operand ≠ .parameter n) ∨ ∀ n, causes (.unboundParameter n))
    (he : comparisonAccepts row item op operand = .error e) : causes e := by
  unfold comparisonAccepts at he
  rcases failed_of_bind_eq_error he with hleft | ⟨left, -, he⟩
  · exact itemValue_failsWithin hcauses hleft
  · cases operand with
    | value v => cases he
    | list vs => cases he
    | item other =>
      rcases failed_of_bind_eq_error he with hright | ⟨right, -, hdone⟩
      · exact itemValue_failsWithin hcauses hright
      · cases hdone
    | parameter n =>
      cases he
      exact hoperand.elim (fun hne => absurd rfl (hne n)) fun hunbound => hunbound _

mutual

theorem accepts_failsWithin : (f : Filter) →
    parameterCount f = 0 ∨ (∀ n, causes (.unboundParameter n)) → accepts row f = .error e → causes e
  | .comparison item op operand, hcount, he => by
    unfold accepts at he
    refine comparisonAccepts_failsWithin hcauses (hcount.imp_left fun hzero n hn => ?_) he
    subst hn
    cases hzero
  | .group .and children, hcount, he => by
    unfold accepts at he
    exact allAccept_failsWithin children hcount he
  | .group .or children, hcount, he => by
    unfold accepts at he
    split at he
    · cases he
    · exact anyAccepts_failsWithin children hcount he

theorem allAccept_failsWithin : (filters : List Filter) →
    parameterCountOf filters = 0 ∨ (∀ n, causes (.unboundParameter n)) →
      Filter.allAccept row filters = .error e → causes e
  | [], _, he => by
    cases he
  | f :: rest, hcount, he => by
    unfold Filter.allAccept at he
    rcases failed_of_bind_eq_error he with hfailed | ⟨accepted, -, he⟩
    · exact accepts_failsWithin f (hcount.imp_left fun h => (Nat.max_eq_zero_iff.mp h).1) hfailed
    · cases accepted with
      | true =>
        exact allAccept_failsWithin rest (hcount.imp_left fun h => (Nat.max_eq_zero_iff.mp h).2) he
      | false => cases he

theorem anyAccepts_failsWithin : (filters : List Filter) →
    parameterCountOf filters = 0 ∨ (∀ n, causes (.unboundParameter n)) →
      anyAccepts row filters = .error e → causes e
  | [], _, he => by
    cases he
  | f :: rest, hcount, he => by
    unfold anyAccepts at he
    rcases failed_of_bind_eq_error he with hfailed | ⟨accepted, -, he⟩
    · exact accepts_failsWithin f (hcount.imp_left fun h => (Nat.max_eq_zero_iff.mp h).1) hfailed
    · cases accepted with
      | true => cases he
      | false =>
        exact anyAccepts_failsWithin rest (hcount.imp_left fun h => (Nat.max_eq_zero_iff.mp h).2) he

end

end Parameters

/-- **Filters without parameters fail for want of an item only.** -/
theorem failWithin_of_parameterCount (hcauses : QueryError.RunAdmitted causes)
    (h : parameterCountOf filters = 0) : FailWithin causes filters := fun f hf _ _ he =>
  accepts_failsWithin hcauses f (Or.inl (parameterCountOf_eq_zero_iff.mp h f hf)) he

/-- Filters with parameters fail for want of a value in addition. -/
theorem failWithin_of_unboundParameter (hcauses : QueryError.RunAdmitted causes)
    (h : ∀ n, causes (.unboundParameter n)) : FailWithin causes filters := fun f _ _ _ he =>
  accepts_failsWithin hcauses f (Or.inr h) he

end Filter

end DocQuery
