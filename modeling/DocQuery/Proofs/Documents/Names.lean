import DocQuery.Proofs.Documents.Store
import DocQuery.Proofs.Engine.Paging
import DocQuery.Proofs.Text.Chars
import Mathlib.Data.List.Nodup
import Mathlib.Data.List.Pairwise

/-!
# DocQuery.Proofs.Documents.Names — the names of registered files

A store keeps the registered files in one list and their tables in another one, and calls that change
them may fail on the way.  Whatever calls are made, the lists stay in step: there is one table for each
file, under its name, and names differ in more than their case (`Store.namedApart_afterAll`).  So a name
finds one table at most, in whatever order the tables are kept, and a table that was found can be read.
-/

namespace DocQuery

namespace Store

/-! ## Calls -/

/-- A call that may change a store, with the files as they are at that time. -/
inductive Call where
  | register (files : Files) (source : TableSource)
  | refresh (files : Files)

/-- The store after a call, which may have failed.  A file that cannot be registered leaves the store as
it was; a refresh that fails has read some of the files again. -/
def after (s : Store) : Call → Store
  | .register files source => match s.register files source with
    | .ok s' => s'
    | .error _ => s
  | .refresh files => (s.refresh files).1

/-- The store after calls, one after the other. -/
def afterAll (calls : List Call) : Store := calls.foldl after {}

/-! ## Files and tables in step -/

/-- Each file has a table under its name, the tables are in the order of the files, and no two names of
files differ in their case alone. -/
structure InStep (s : Store) : Prop where
  apart : s.sources.Pairwise fun a b => Text.sameName a.name b.name = false
  keys : s.tables.map (·.1) = s.names

theorem any_key_iff (tables : List (String × LoadedTable)) (name : String) :
    tables.any (·.1 == name) = true ↔ name ∈ tables.map (·.1) := by
  simp only [List.any_eq_true, beq_iff_eq, List.mem_map]

/-- Reading a file again keeps the names of the tables. -/
theorem names_reload (files : Files) {sources : List TableSource}
    {tables : List (String × LoadedTable)} (h : ∀ source ∈ sources, source.name ∈ tables.map (·.1)) :
    (reload files tables sources).1.map (·.1) = tables.map (·.1) := by
  induction sources generalizing tables with
  | nil => rfl
  | cons source rest ih =>
    rw [List.forall_mem_cons] at h
    unfold reload
    split
    next => rfl
    next t _ =>
      have hput : (put tables source.name t).map (·.1) = tables.map (·.1) := by
        rw [names_put, if_pos ((any_key_iff _ _).mpr h.1)]
      rw [ih (hput.symm ▸ h.2), hput]

/-- **A call keeps files and tables in step**, whether it succeeds or fails. -/
theorem InStep.after {s : Store} (h : s.InStep) (call : Call) : (s.after call).InStep := by
  cases call with
  | refresh files =>
    refine ⟨h.apart, ?_⟩
    show (reload files s.tables s.sources).1.map (·.1) = s.names
    rw [names_reload files fun source hsource => ?_, h.keys]
    rw [h.keys]
    exact List.mem_map_of_mem hsource
  | register files source =>
    show InStep (match s.register files source with
      | .ok s' => s'
      | .error _ => s)
    cases hregister : s.register files source with
    | error e => exact h
    | ok s' =>
      unfold register at hregister
      dsimp only at hregister
      split at hregister
      next => cases hregister
      next hnew =>
        obtain ⟨t, -, hs'⟩ := exists_of_bind_eq_ok hregister
        cases hs'
        have hapart : ∀ other ∈ s.sources, Text.sameName other.name source.name = false := by
          simpa using hnew
        -- The name is not among the keys, since it is not even the name of a file in another case.
        have hfresh : s.tables.any (·.1 == source.name) = false := by
          rw [Bool.eq_false_iff, Ne, any_key_iff, h.keys]
          intro hmem
          obtain ⟨other, hother, hname⟩ := List.mem_map.mp hmem
          have hsame := hapart other hother
          rw [hname, Text.sameName_self] at hsame
          cases hsame
        constructor
        · refine List.pairwise_append.mpr ⟨h.apart, List.pairwise_singleton _ _, ?_⟩
          intro other hother added hadded
          rw [List.mem_singleton.mp hadded]
          exact hapart other hother
        · show (put s.tables source.name t).map (·.1) = (s.sources ++ [source]).map (·.name)
          rw [names_put, if_neg (by rw [hfresh]; decide), h.keys, List.map_append]
          rfl

theorem inStep_afterAll (calls : List Call) : (afterAll calls).InStep :=
  List.foldlRecOn calls after ⟨.nil, rfl⟩ fun _ h call _ => h.after call

/-- A store after calls is reached by those of them that succeeded. -/
theorem reached_afterAll (calls : List Call) : (afterAll calls).Reached := by
  refine List.foldlRecOn calls after .empty fun s h call _ => ?_
  cases call with
  | refresh files => exact h.refresh files
  | register files source =>
    show Reached (match s.register files source with
      | .ok s' => s'
      | .error _ => s)
    cases hregister : s.register files source with
    | error e => exact h
    | ok s' => exact h.register hregister

/-! ## Finding tables -/

/-- No two tables have keys that differ in their case alone. -/
def KeysApart (tables : List (String × LoadedTable)) : Prop :=
  tables.Pairwise fun e e' => Text.sameName e.1 e'.1 = false

instance : Std.Symm fun e e' : String × LoadedTable => Text.sameName e.1 e'.1 = false :=
  ⟨fun e e' h => (Text.sameName_comm e'.1 e.1).trans h⟩

theorem InStep.keysApart {s : Store} (h : s.InStep) : KeysApart s.tables := by
  have hapart : (s.tables.map (·.1)).Pairwise fun a b => Text.sameName a b = false := by
    rw [h.keys]
    exact List.pairwise_map.mpr h.apart
  exact List.pairwise_map.mp hapart

section Apart

variable {tables : List (String × LoadedTable)} {sources : List TableSource} {name : String}

/-- **A name is that of one table at most**, in whatever case. -/
theorem KeysApart.unique (h : KeysApart tables) {e e' : String × LoadedTable} (he : e ∈ tables)
    (he' : e' ∈ tables) (hname : Text.sameName e.1 name = true)
    (hname' : Text.sameName e'.1 name = true) : e = e' := by
  by_contra hne
  have hfalse := List.Pairwise.forall h he he' hne
  rw [Text.sameName_trans hname ((Text.sameName_comm _ _).trans hname')] at hfalse
  cases hfalse

/-- **A name finds the table whose name it is**, whether it is spelled like that or in another case. -/
theorem KeysApart.find?_eq_some_iff (h : KeysApart tables) {t : LoadedTable} :
    find? ⟨sources, tables⟩ name = some t ↔
      ∃ e ∈ tables, Text.sameName e.1 name = true ∧ e.2 = t := by
  have hother : (tables.find? fun e => Text.sameName e.1 name).map (·.2) = some t ↔
      ∃ e ∈ tables, Text.sameName e.1 name = true ∧ e.2 = t := by
    constructor
    · intro hfound
      obtain ⟨e, he, rfl⟩ := Option.map_eq_some_iff.mp hfound
      exact ⟨e, List.mem_of_find?_eq_some he, (List.find?_eq_some_iff_append.mp he).1, rfl⟩
    · rintro ⟨e, he, hname, rfl⟩
      have hsome : (tables.find? fun e => Text.sameName e.1 name).isSome = true :=
        List.find?_isSome.mpr ⟨e, he, hname⟩
      obtain ⟨e', he'⟩ := Option.isSome_iff_exists.mp hsome
      rw [he', h.unique (List.mem_of_find?_eq_some he') he (List.find?_eq_some_iff_append.mp he').1
        hname]
      rfl
  unfold find?
  cases hlookup : tables.lookup name with
  | none => exact hother
  | some exact =>
    -- The table of exactly this name is also the one that a search in any case finds.
    obtain ⟨before, after, htables, -⟩ := List.lookup_eq_some_iff.mp hlookup
    have hmem : (name, exact) ∈ tables := htables ▸ List.mem_append_right _ List.mem_cons_self
    show some exact = some t ↔ _
    constructor
    · rintro ⟨⟩
      exact ⟨_, hmem, Text.sameName_self _, rfl⟩
    · rintro ⟨e, he, hname, rfl⟩
      rw [h.unique he hmem hname (Text.sameName_self _)]

/-- **The order in which the tables are kept** does not matter for what a name finds. -/
theorem KeysApart.find?_perm (h : KeysApart tables) {tables' : List (String × LoadedTable)}
    (hperm : tables'.Perm tables) : find? ⟨sources, tables'⟩ name = find? ⟨sources, tables⟩ name := by
  have h' : KeysApart tables' := (hperm.pairwise_iff fun hab => Std.Symm.symm (r := fun e e' : String × LoadedTable =>
    Text.sameName e.1 e'.1 = false) _ _ hab).mpr h
  refine Option.ext fun t => ?_
  rw [h'.find?_eq_some_iff, h.find?_eq_some_iff]
  simp only [hperm.mem_iff]

end Apart

/-! ## Stores after any calls -/

/-- **After any calls, successful or not,** names of files differ in more than their case, the tables
are kept under these names, each under its own; a name in any case is that of one table at most, which
is found in whatever order the tables are kept; and a table that a name finds can be read. -/
theorem namedApart_afterAll (calls : List Call) :
    let s := afterAll calls
    (s.sources.Pairwise fun a b => Text.sameName a.name b.name = false) ∧
    s.tables.map (·.1) = s.names ∧
    (∀ e ∈ s.tables, e.2.table.name = e.1) ∧
    (∀ name, ∀ e ∈ s.tables, ∀ e' ∈ s.tables, Text.sameName e.1 name = true →
      Text.sameName e'.1 name = true → e = e') ∧
    (∀ tables, tables.Perm s.tables → ∀ name, find? ⟨s.sources, tables⟩ name = s.find? name) ∧
    ∀ name t, s.source.table? name = some t → ∀ columns limit l,
      ∃ d l', (s.source.materializeColumns t columns limit).run l = (.ok d, l') := by
  have hstep := inStep_afterAll calls
  have hsound := (reached_afterAll calls).areSound
  have hapart := hstep.keysApart
  refine ⟨hstep.apart, hstep.keys, fun e he => (hsound.built e he).2,
    fun name e he e' he' hname hname' => hapart.unique he he' hname hname',
    fun tables hperm name => hapart.find?_perm hperm, fun name t ht columns limit l => ?_⟩
  obtain ⟨loaded, hloaded, htable, -⟩ := exists_loaded hsound ht
  obtain ⟨d, l', hrun, -⟩ :=
    RowSource.gives_handedOut (l := l) (holds_of_loaded hloaded htable l.requests columns limit)
  exact ⟨d, l', hrun⟩

end Store

end DocQuery
