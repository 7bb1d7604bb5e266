import DocQuery.Proofs.Engine.Closing
import DocQuery.Proofs.Engine.Everything

/-!
# DocQuery.Proofs.Engine.Binding — values for the parameters of a query that is run

A query that is made ready from its text takes as many values as it counts parameters.  It counts and
binds those of its own filters, so that the query that is run has none left exactly if there are none
in the queries within it (`RowSource.isBound_prepared_iff`).  Where none is left, a parameter is never
missing a value while the query runs.
-/

namespace DocQuery

open Plan

namespace RowSource

variable {s : RowSource} {options : Options} {sql : String} {prepared : Engine.Compiled × Nat}
  {values : List Value}

theorem parameterCount_prepared (h : s.prepare options sql = .ok prepared) :
    prepared.1.parameterCount = prepared.1.query.parameterCount := by
  obtain ⟨parsed, -, rfl⟩ := exists_of_map_eq_ok h
  rfl

/-- What is run for a compiled query is the query with its values. -/
theorem executeCompiled_eq {c : Engine.Compiled} {bound : Query}
    (hcount : values.length = c.parameterCount) (hbound : c.query.withParameters values = .ok bound) :
    Engine.executeCompiled s options c values = Engine.execute s options bound := by
  unfold Engine.executeCompiled
  rw [if_neg (not_not_intro hcount), hbound]
  rfl

/-- **A query that is bound throughout lacks no value**: what it fails for is anything else, unless the
source reports it. -/
theorem reports_of_unbound {q : Query} (hq : q.IsBound) {l : Ledger} {n : Nat}
    (h : (Answer.ofPlan (Engine.execute s options q)).answer l = .error (.unboundParameter n)) :
    s.Reports (.unboundParameter n) := by
  let causes : QueryError → Prop := fun e => (∀ n, e ≠ .unboundParameter n) ∨ s.Reports e
  have hcauses : QueryError.Admitted causes := fun _ => Or.inl
  have hfilters : ∀ inner ∈ q.queries, Filter.FailWithin causes (inner.filters ++ inner.having) :=
    fun inner hinner => Filter.failWithin_of_parameterCount hcauses.run (hq inner hinner)
  have hexecute : RowSet.Tidy causes l.meters.length [] (Engine.execute s options q) :=
    Engine.tidy_execute hcauses (fun _ => Or.inr) q hfilters
  have hanswer : Plan.Tidy causes l.meters.length [] (fun _ => []) (fun _ => True)
      (Answer.ofPlan (Engine.execute s options q)) :=
    hexecute.bind fun d hd => (RowSet.tidy_toRows hd).bind fun _ _ =>
      tidy_pure trivial (List.Subset.refl _)
  obtain ⟨_, hcause, -⟩ := (hanswer [] l l.openAmong_start).answer_eq_error h
  exact hcause.resolve_left fun hne => hne n rfl

/-- **The query that is run for a text with its values.**  With as many values as the query counts
parameters there is one, and it has no parameter left anywhere exactly if there is none in the queries
within it; if so, it never fails for want of a value. -/
theorem isBound_prepared_iff (hprepared : s.prepare options sql = .ok prepared)
    (hvalues : values.length = prepared.1.parameterCount) :
    ∃ q : Query, prepared.1.query.withParameters values = .ok q ∧
      Engine.executeCompiled s options prepared.1 values = Engine.execute s options q ∧
      (q.IsBound ↔
        ∀ inner ∈ FromItem.queriesIn prepared.1.query.sources, inner.parameterCount = 0) ∧
      (q.IsBound → ∀ n, s.askPrepared options prepared values = .error (.unboundParameter n) →
        s.Reports (.unboundParameter n)) := by
  have hcount : prepared.1.query.parameterCount ≤ values.length :=
    Nat.le_of_eq ((parameterCount_prepared hprepared).symm.trans hvalues.symm)
  obtain ⟨q, hq, hsources, hown⟩ := QueryOf.exists_withParameters hcount
  have hrun : Engine.executeCompiled s options prepared.1 values = Engine.execute s options q :=
    executeCompiled_eq hvalues hq
  refine ⟨q, hq, hrun, QueryOf.isBound_iff_of_sources hsources hown, fun hbound n hfailed => ?_⟩
  unfold askPrepared at hfailed
  rw [hrun] at hfailed
  exact reports_of_unbound hbound hfailed

/-- Why nothing is answered. -/
def failureOf {α : Type} (result : Except QueryError α) : Option QueryError :=
  match result with
  | .error e => some e
  | .ok _ => none

theorem eq_error_of_failureOf {α : Type} {result : Except QueryError α} {e : QueryError}
    (h : failureOf result = some e) : result = .error e := by
  cases result with
  | error e' =>
    cases h
    rfl
  | ok a => cases h

/-- Of the numbers from a subquery, those that equal a parameter. -/
def chosenNumbers : String := "SELECT * FROM (SELECT id FROM t) s WHERE s.id = ?"

/-- The parameter outside of the subquery is bound. -/
theorem isBound_prepared_chosenNumbers : ∃ prepared q,
    Engine.numbers.source.prepare {} chosenNumbers = .ok prepared ∧
    [Value.integer 2].length = prepared.1.parameterCount ∧
    prepared.1.query.withParameters [.integer 2] = .ok q ∧ q.IsBound ∧
    Engine.shownRows (Engine.numbers.source.askPrepared {} prepared [.integer 2]) =
      some ["Row[2]"] := by
  have hshown : (Engine.numbers.source.prepare {} chosenNumbers).toOption.map (fun prepared =>
      (prepared.1.parameterCount,
        (FromItem.queriesIn prepared.1.query.sources).all (·.parameterCount == 0),
          Engine.shownRows (Engine.numbers.source.askPrepared {} prepared [.integer 2]))) =
      some (1, true, some ["Row[2]"]) := by
    decide +kernel
  obtain ⟨prepared, hprepared, hshown⟩ := Option.map_eq_some_iff.mp hshown
  obtain ⟨hcount, hshown⟩ := Prod.mk.inj hshown
  obtain ⟨hinner, hrows⟩ := Prod.mk.inj hshown
  have hvalues : [Value.integer 2].length = prepared.1.parameterCount := hcount.symm
  have hprepared := eq_ok_of_mem_toOption hprepared
  obtain ⟨q, hq, -, hbound, -⟩ := isBound_prepared_iff hprepared hvalues
  refine ⟨prepared, q, hprepared, hvalues, hq, hbound.mpr fun inner hmem => ?_, hrows⟩
  exact eq_of_beq (List.all_eq_true.mp hinner inner hmem)

/-- The numbers from a subquery that equal a parameter. -/
def chosenWithin : String := "SELECT * FROM (SELECT id FROM t WHERE id = ?) s"

/-- The parameter within the subquery is not counted, so no value is asked for, and without one the
query fails. -/
theorem not_isBound_prepared_chosenWithin : ∃ prepared,
    Engine.numbers.source.prepare {} chosenWithin = .ok prepared ∧
    ([] : List Value).length = prepared.1.parameterCount ∧
    Engine.numbers.source.askPrepared {} prepared [] = .error (.unboundParameter 1) := by
  have hshown : (Engine.numbers.source.prepare {} chosenWithin).toOption.map (fun prepared =>
      (prepared.1.parameterCount,
        failureOf (Engine.numbers.source.askPrepared {} prepared []))) =
      some (0, some (.unboundParameter 1)) := by
    decide +kernel
  obtain ⟨prepared, hprepared, hshown⟩ := Option.map_eq_some_iff.mp hshown
  obtain ⟨hcount, hfailed⟩ := Prod.mk.inj hshown
  exact ⟨prepared, eq_ok_of_mem_toOption hprepared, hcount.symm, eq_error_of_failureOf hfailed⟩

end RowSource

end DocQuery
