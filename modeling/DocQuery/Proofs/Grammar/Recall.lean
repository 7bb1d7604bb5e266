import DocQuery.Proofs.Grammar.Naming
import DocQuery.Proofs.Grammar.Yields

/-!
# DocQuery.Proofs.Grammar.Recall — what the text of a reference means in its own query

A reference is looked up among the aliases of the select items first and among the columns second,
while a column item is written without its alias.  So the text of a column means the column again
exactly unless a select item that denotes something else goes by that text as its alias
(`resolveReference_sqlWithoutAlias`).  A text under a scope has a dot, and no plain word does, so
only unqualified columns can be taken for another item (`recalls_of_scope`).
-/

namespace DocQuery

open Grammar

/-- Whether the text of a column item means the item in a query: the first select item with such an
alias denotes it; or there is none, and the item is not approximate, which its text does not show. -/
def QueryOf.recalls (q : Query) (i : Item) : Bool :=
  match q.aliased? i.sqlWithoutAlias with
  | some j => j.sameAs true i
  | none => !i.approximate

namespace Grammar

variable {catalog : Catalog} {q : Query} {i : Item} {c : Column} {sources : List FromItem}

/-! ## Items that names mean -/

/-- A plain column that some name means over from items. -/
def GoesByName (sources : List FromItem) (i : Item) : Prop :=
  ∀ c, i.column? = some c → i.function = none →
    i.parameters = [] ∧ Named { sources := sources } c i.scope

theorem goesByName_of_resolveColumn {name : List Char} {pending : Pending} (n : Nat)
    (h : resolveColumn q name = .ok (some pending)) : GoesByName q.sources (pending n) := by
  intro c hcolumn hfunction
  obtain ⟨scope, rfl⟩ := eq_ofColumn_of_resolveColumn h hcolumn hfunction
  exact ⟨rfl, name, h⟩

/-- An item that reads nothing of its own column is no plain column. -/
theorem goesByName_of_function (h : i.function ≠ none) : GoesByName sources i :=
  fun _ _ hfunction => absurd hfunction h

theorem function_of_resolveFunction {f : Builtin} {arguments text : List Char} {pending : Pending}
    (h : resolveFunction q f arguments text = .ok pending) (n : Nat) :
    (pending n).function = some f := by
  unfold resolveFunction at h
  dsimp only at h
  split at h
  · cases h
  · obtain ⟨found, -, h⟩ := exists_of_bind_eq_ok h
    cases found with
    | none => cases h
    | some column =>
      dsimp only at h
      split at h
      · cases h
      · obtain ⟨parameters, -, h⟩ := exists_of_bind_eq_ok h
        cases h
        dsimp only
        split <;> rfl

/-- The mark for approximate functions changes nothing about names. -/
theorem GoesByName.withApproximate (h : GoesByName sources i) (n : Nat) (allowed : Bool) :
    GoesByName sources (i.withApproximate n allowed) := by
  unfold Item.withApproximate
  split
  · exact h
  · exact h

theorem goesByName_of_resolveItem {text : List Char} {pending : Pending}
    (h : resolveItem q text = .ok (some pending)) (n : Nat) : GoesByName q.sources (pending n) := by
  obtain ⟨approximate, rest, meaning, -, rfl, hmeaning⟩ := exists_of_resolveItem h
  -- Whatever was found goes by its name, and so it does with the mark.
  have hfound : GoesByName q.sources (meaning n) := by
    rcases hmeaning with ⟨_, _, -, rfl | ⟨f, hresolve⟩⟩ | ⟨-, hcolumn⟩
    · exact goesByName_of_function (by simp [Item.countAll, Item.plain])
    · exact goesByName_of_function (by simp [function_of_resolveFunction hresolve n])
    · exact goesByName_of_resolveColumn n hcolumn
  dsimp only
  split
  · exact hfound.withApproximate n true
  · exact hfound

theorem ofNames_goesByName (sources : List FromItem) : OfNames sources (GoesByName sources) where
  item := fun q hq text pending n h => hq ▸ goesByName_of_resolveItem h n
  expression := fun id text aliasName i h c hcolumn => by
    unfold Item.ofExpression? at h
    split at h
    · cases h
    · cases h
      cases hcolumn
  withAlias := fun i aliasName h => h

/-! ## References recalled -/

/-- A column made anew is a plain one in its scope, if that is not approximate. -/
theorem sameAs_ofColumn (hcolumn : i.column? = some c) (hfunction : i.function = none)
    (hparameters : i.parameters = []) (n : Nat) :
    (Item.ofColumn n c i.scope).sameAs true i = !i.approximate := by
  obtain ⟨id, source, function, parameters, approximate, scope, aliasName⟩ := i
  cases source with
  | column d =>
    cases hcolumn
    cases hfunction
    cases hparameters
    cases approximate <;> simp [Item.ofColumn, Item.plain, Item.sameAs, Item.sameUse,
      Item.sameParameters]
  | _ => cases hcolumn

/-- Aliases without dots leave every column under a scope alone. -/
theorem recalls_of_scope (hcolumn : i.column? = some c) (hfunction : i.function = none)
    {label : String} (hscope : i.scope = some label)
    (haliases : ∀ j ∈ q.select, ∀ a, j.aliasName = some a → '.' ∉ a.toList) :
    q.recalls i = !i.approximate := by
  have hdot : '.' ∈ i.sqlWithoutAlias.toList := by
    rw [toList_sqlWithoutAlias hcolumn hfunction, hscope, columnText_some]
    simp
  have hnone : q.aliased? i.sqlWithoutAlias = none := by
    refine List.find?_eq_none.mpr fun j hj hany => ?_
    obtain ⟨a, ha, hsame⟩ := (Option.any_eq_true _ _).mp hany
    exact haliases j hj a ha ((Text.mem_iff_of_eqIgnoreCase rfl hsame).mpr hdot)
  unfold QueryOf.recalls
  rw [hnone]

/-- **The text of a plain column behind FROM means that column again exactly if the query recalls
it**, whatever text the query is read from, over tables with plain words for names.  It always means
something. -/
theorem resolveReference_sqlWithoutAlias {sql : String} {s s' : State}
    (hread : (readQuery catalog sql).run s = (.ok q, s')) (hplain : NamedPlainly q.sources)
    (hi : i ∈ q.laterItems) (hcolumn : i.column? = some c) (hfunction : i.function = none) :
    ∃ pending, resolveReference q i.sqlWithoutAlias.toList = .ok (some pending) ∧
      ∀ n, (pending n).sameAs true i = q.recalls i := by
  obtain ⟨hparameters, hnamed⟩ :=
    (references_of_readQuery hread ofNames_goesByName).later i hi c hcolumn hfunction
  have hnamed : Named q c i.scope := hnamed
  have hword : IsWord i.sqlWithoutAlias.toList :=
    toList_sqlWithoutAlias hcolumn hfunction ▸ hnamed.isWord_columnText hplain
  unfold resolveReference QueryOf.recalls
  rw [hword.unquoteName_eq, String.ofList_toList]
  cases q.aliased? i.sqlWithoutAlias with
  | some j => exact ⟨fun _ => j, rfl, fun _ => rfl⟩
  | none =>
    refine ⟨fun id => Item.ofColumn id c i.scope, ?_, sameAs_ofColumn hcolumn hfunction hparameters⟩
    dsimp only
    rw [toList_sqlWithoutAlias hcolumn hfunction, hnamed.resolveItem_columnText hplain]

/-- Everything behind FROM is under a scope, so an alias that is spelled as a column changes nothing. -/
theorem resolveReference_sqlWithoutAlias_ofPairs : ∃ q s',
    (readQuery pairs "SELECT x.a AS b, y.b AS c FROM t x, t y WHERE x.b = y.a ORDER BY b").run {} =
      (.ok q, s') ∧
    q.laterItems.map Item.sqlWithoutAlias = ["x.b", "y.a", "x.a"] ∧
    ∀ i ∈ q.laterItems, ∃ pending,
      resolveReference q i.sqlWithoutAlias.toList = .ok (some pending) ∧
        ∀ n, (pending n).sameAs true i = true := by
  have hshown : ((readQuery pairs
      "SELECT x.a AS b, y.b AS c FROM t x, t y WHERE x.b = y.a ORDER BY b").run {}).1.toOption.map
        (fun q => (q.laterItems.map Item.sqlWithoutAlias, decide (NamedPlainly q.sources),
          q.laterItems.all fun i => i.column?.isSome && i.function.isNone && q.recalls i)) =
      some (["x.b", "y.a", "x.a"], true, true) := by
    decide +kernel
  obtain ⟨q, hq, hshown⟩ := Option.map_eq_some_iff.mp hshown
  obtain ⟨htexts, hshown⟩ := Prod.mk.inj hshown
  obtain ⟨hplain, hitems⟩ := Prod.mk.inj hshown
  obtain ⟨s', hrun⟩ := exists_run_of_toOption hq
  refine ⟨q, s', hrun, htexts, fun i hi => ?_⟩
  have hchecked := List.all_eq_true.mp hitems i hi
  simp only [Bool.and_eq_true, Option.isSome_iff_exists, Option.isNone_iff_eq_none] at hchecked
  obtain ⟨⟨⟨c, hcolumn⟩, hfunction⟩, hrecalls⟩ := hchecked
  obtain ⟨pending, hresolved, hsame⟩ :=
    resolveReference_sqlWithoutAlias hrun (of_decide_eq_true hplain) hi hcolumn hfunction
  exact ⟨pending, hresolved, fun n => (hsame n).trans hrecalls⟩

/-- The column `b` that is ordered by under its alias `c` is taken for the column `a` under the alias
`b`. -/
theorem resolveReference_taken_for_another : ∃ q s',
    (readQuery pairs "SELECT a AS b, b AS c FROM t ORDER BY c").run {} = (.ok q, s') ∧
    NamedPlainly q.sources ∧ (∀ j ∈ q.select, ∀ a ∈ j.aliasName, IsPlainWord a.toList) ∧
    ∃ i ∈ q.laterItems, i.column? = some ⟨"b", "t", some .number, false⟩ ∧ i.function = none ∧
      ∃ pending, resolveReference q i.sqlWithoutAlias.toList = .ok (some pending) ∧
        (pending 0).column? = some ⟨"a", "t", some .number, false⟩ ∧
        (pending 0).sameAs true i = false := by
  have hshown : ((readQuery pairs "SELECT a AS b, b AS c FROM t ORDER BY c").run {}).1.toOption.map
      (fun q => (decide (NamedPlainly q.sources),
        decide (∀ j ∈ q.select, ∀ a ∈ j.aliasName, IsPlainWord a.toList),
        q.laterItems.any fun i => i.column? == some ⟨"b", "t", some .number, false⟩ &&
          i.function.isNone && (resolveReference q i.sqlWithoutAlias.toList).toOption.join.any
            fun pending => (pending 0).column? == some ⟨"a", "t", some .number, false⟩ &&
              !(pending 0).sameAs true i)) = some (true, true, true) := by
    decide +kernel
  obtain ⟨q, hq, hshown⟩ := Option.map_eq_some_iff.mp hshown
  obtain ⟨hplain, hshown⟩ := Prod.mk.inj hshown
  obtain ⟨haliases, hitems⟩ := Prod.mk.inj hshown
  obtain ⟨s', hrun⟩ := exists_run_of_toOption hq
  obtain ⟨i, hi, hchecked⟩ := List.any_eq_true.mp hitems
  simp only [Bool.and_eq_true, beq_iff_eq, Option.isNone_iff_eq_none] at hchecked
  obtain ⟨⟨hcolumn, hfunction⟩, hmeant⟩ := hchecked
  obtain ⟨pending, hpending, hmeant⟩ := (Option.any_eq_true _ _).mp hmeant
  rw [Bool.and_eq_true, beq_iff_eq, Bool.not_eq_true'] at hmeant
  refine ⟨q, s', hrun, of_decide_eq_true hplain, of_decide_eq_true haliases, i, hi, hcolumn, hfunction,
    pending, eq_ok_of_mem_toOption (Option.join_eq_some_iff.mp hpending), hmeant.1, hmeant.2⟩

end Grammar

end DocQuery
