import DocQuery.Engine.Answer
import DocQuery.Proofs.Engine.Lockstep
import DocQuery.Proofs.Grammar.ReadQueries

/-!
# DocQuery.Proofs.Engine.Asking — two runs of a query that is read from its text

Reading a text gives one query whatever the options for its run are, and one registry lists the items
of all queries within it.  Both runs begin with the identities that reading has drawn, which stand for
themselves.  So if each of the queries runs alike, the text is answered alike
(`RowSource.agreeing_ask`).
-/

namespace DocQuery

open Plan

/-! ## Items that were read -/

/-- The items that a registry lists are a pool. -/
theorem Registry.isPool (r : Registry) : Item.IsPool r.Lists where
  inner := fun _ _ h hx => h.inner hx
  copies := fun _ _ h h' hid => h.copies h' hid
  drawn := fun _ h => h.enters.positive

/-- Every identity before one stands for itself. -/
def Pairing.before (next : Nat) : Pairing := fun m n => m = n ∧ m < next

theorem Ledger.paired_before {next : Nat} (h : 0 < next) :
    Ledger.Paired (.before next) { nextItem := next } { nextItem := next } where
  oneToOne := by
    refine ⟨⟨?_, ?_⟩, rfl, h⟩
    · rintro m n k ⟨rfl, -⟩ ⟨rfl, -⟩
      rfl
    · rintro m n k ⟨rfl, -⟩ ⟨rfl, -⟩
      rfl
  drawn := by
    rintro m n ⟨rfl, hlt⟩
    exact ⟨hlt, hlt⟩

theorem Registry.fixes (r : Registry) : Pairing.Fixes (.before r.next) r.Lists := by
  intro i hi
  induction hi with
  | intro i enters _ ih =>
    have hid : Pairing.before r.next i.id i.id := ⟨rfl, enters.id_lt⟩
    obtain ⟨id, source, function, parameters, approximate, scope, aliasName⟩ := i
    cases source with
    | column c => exact .column c _ _ _ _ _ hid
    | expression text => exact .expression text _ _ _ _ _ hid
    | nothing => exact .nothing _ _ _ _ _ hid
    | inner x => exact .inner _ _ _ _ _ hid (ih x rfl)

theorem Grammar.IsRead.own {catalog : Grammar.Catalog} {r : Registry} {q : Query}
    (h : Grammar.IsRead catalog r q) : ∀ i ∈ q.ownItems, r.Lists i := by
  intro i hi
  rcases List.mem_append.mp hi with hclause | hcondition
  · exact (h.clauses i hclause).1
  · obtain ⟨f, hf, hmem⟩ := List.mem_flatMap.mp hcondition
    exact h.conditions f hf i hmem

/-! ## Answers -/

/-- Answers with the same labels and the same values. -/
structure Answer.Same (a a' : Answer) : Prop where
  labels : a.labels = a'.labels
  values : a.rows.map (·.values) = a'.rows.map (·.values)

/-- Outcomes with the same values are gathered into rows with the same values, or fail alike. -/
theorem Stream.agreeing_collect {l l' : List (Except QueryError Row)}
    (h : List.Forall₂ (Agreeing fun r r' : Row => r.values = r'.values) l l') :
    Agreeing (fun rows rows' : List Row => rows.map (·.values) = rows'.map (·.values))
      (collect l) (collect l') := by
  induction h with
  | nil => exact .ok rfl
  | cons ho _ ih =>
    cases ho with
    | error e => exact .error e
    | ok hr =>
      refine ih.map fun rows rows' hrows => ?_
      rw [List.map_cons, List.map_cons, hr, hrows]

/-- **Plans whose data sets may be used for each other give the same answers.** -/
theorem Plan.Alike.agreeing_ofPlan {P : Item → Prop} {ρ τ : Pairing} {p p' : Plan RowSet}
    (h : Plan.Alike ρ (RowSet.Interchangeable P τ) p p') {l l' : Ledger} (hl : l.Paired ρ l') :
    Agreeing Answer.Same ((Answer.ofPlan p).answer l) ((Answer.ofPlan p').answer l') := by
  obtain ⟨σ, -, -, -, hresult⟩ := h l l' hl
  rcases hrun : p.run l with ⟨result, k⟩
  rcases hrun' : p'.run l' with ⟨result', k'⟩
  rw [hrun, hrun'] at hresult
  unfold Answer.ofPlan Plan.answer
  cases hresult with
  | error e =>
    rw [run_bind_of_failure hrun, run_bind_of_failure hrun']
    exact .error e
  | @ok d d' hd =>
    rw [run_bind_of_run hrun, run_bind_of_run hrun']
    show Agreeing Answer.Same ((d.toRows >>= fun rows => pure ⟨d.header, rows⟩ : Plan Answer).answer k)
      ((d'.toRows >>= fun rows => pure ⟨d'.header, rows⟩ : Plan Answer).answer k')
    rw [answer_bind_pure, answer_bind_pure, RowSet.toRows_answer, RowSet.toRows_answer]
    exact (Stream.agreeing_collect hd.values).map fun rows rows' hrows => ⟨hd.labels, hrows⟩

namespace RowSource

variable {s : RowSource} {options options' : Options} {sql : String}

/-- A text is read by the grammar, and the next identity is the one after those that reading drew. -/
theorem parse_eq_ok_iff {q : Query} {n : Nat} : s.parse options sql = .ok (q, n) ↔
    ∃ state, (Grammar.readQuery (s.catalog options.expressions) sql).run {} = (.ok q, state) ∧
      state.nextItem = n := by
  unfold parse
  constructor
  · intro h
    obtain ⟨_, hresult, hpair⟩ := exists_of_map_eq_ok h
    cases hpair
    exact ⟨_, Prod.ext hresult rfl, rfl⟩
  · rintro ⟨state, hrun, rfl⟩
    rw [hrun]
    rfl

/-- What is read of a text depends on one option only. -/
theorem parse_congr (h : options.expressions = options'.expressions) :
    s.parse options sql = s.parse options' sql := by
  unfold parse
  rw [h]

/-- What is asked is what the query that was read answers. -/
theorem ask_eq (hexpressions : options.expressions = options'.expressions) {q : Query} {n : Nat}
    (h : s.parse options sql = .ok (q, n)) :
    s.ask options' sql = (Answer.ofPlan (Engine.execute s options' q)).answer { nextItem := n } := by
  unfold ask
  rw [← parse_congr hexpressions, h]
  rfl

/-- Every query that is read has a registry. -/
theorem exists_registry {q : Query} {n : Nat} (h : s.parse options sql = .ok (q, n)) :
    ∃ r : Registry, r.next = n ∧ Grammar.AllRead (s.catalog options.expressions) r q := by
  obtain ⟨state, hrun, rfl⟩ := parse_eq_ok_iff.mp h
  exact Grammar.allRead_of_readQuery hrun

/-- **A text is answered alike if every query in it runs alike on its own.** -/
theorem agreeing_ask (hs : s.IsSteady) (hexpressions : options.expressions = options'.expressions)
    (hlocal : ∀ q n r, s.parse options sql = .ok (q, n) → r.next = n →
      Grammar.AllRead (s.catalog options.expressions) r q →
        ∀ q' ∈ q.queries, Engine.IsLocallyAlike s options options' r.Lists q') :
    Agreeing Answer.Same (s.ask options sql) (s.ask options' sql) := by
  unfold ask
  rw [← parse_congr hexpressions]
  cases hparse : s.parse options sql with
  | error e => exact .error e
  | ok parsed =>
    obtain ⟨q, n⟩ := parsed
    obtain ⟨r, rfl, hread⟩ := exists_registry hparse
    have hruns := Engine.alike_execute hs r.isPool q (.before r.next) r.fixes fun q' hq' =>
      ⟨(hread q' hq').own, hlocal q _ r hparse rfl hread q' hq'⟩
    exact hruns.agreeing_ofPlan (Ledger.paired_before r.positive)

end RowSource

end DocQuery
