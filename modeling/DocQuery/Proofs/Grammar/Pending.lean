import DocQuery.Grammar.Reference
import DocQuery.Proofs.Query.Items
import DocQuery.Proofs.Query.Registry
import DocQuery.Proofs.Results
import DocQuery.Proofs.Value.Sameness
import Mathlib.Data.Option.Basic

/-!
# DocQuery.Proofs.Grammar.Pending — what a name can mean

Whatever a name in a query means, it is an item that takes the identity it is given and reads a
column of one of the from items, or nothing, with literals as parameters (`Pending.IsMeant`); or else it
is a select item of the query, which keeps its own identity (`resolveReference_eq`).
-/

namespace DocQuery

/-- An item that can be written over from items: a column is one of a table there, in no scope or
under the label of that table, a reference is one to a select item of a subquery there, and the count
of all rows has no parameters. -/
structure Item.IsAmong (sources : List FromItem) (i : Item) : Prop where
  column : ∀ c, i.source = .column c → ∃ leaf ∈ sources.flatMap FromItem.leaves, ∃ t,
    leaf.table? = some t ∧ c ∈ t.columns ∧ ∀ scope, i.scope = some scope → leaf.label? = some scope
  inner : ∀ x, i.source = .inner x → ∃ q aliasName,
    FromItem.subquery q aliasName ∈ sources.flatMap FromItem.leaves ∧ x ∈ q.select
  counted : i.isCountAll = true → i.parameters = []

theorem Item.IsAmong.withAlias {sources : List FromItem} {i : Item} (h : i.IsAmong sources)
    (aliasName : String) : (i.withAlias aliasName).IsAmong sources :=
  ⟨h.column, h.inner, h.counted⟩

/-- What stands among from items stands among more of them. -/
theorem Item.IsAmong.mono {near sources : List FromItem} {i : Item}
    (h : near.flatMap FromItem.leaves ⊆ sources.flatMap FromItem.leaves) (hi : i.IsAmong near) :
    i.IsAmong sources where
  column := fun c hc => by
    obtain ⟨leaf, hleaf, hrest⟩ := hi.column c hc
    exact ⟨leaf, h hleaf, hrest⟩
  inner := fun x hx => by
    obtain ⟨q, aliasName, hleaf, hmem⟩ := hi.inner x hx
    exact ⟨q, aliasName, h hleaf, hmem⟩
  counted := hi.counted

theorem Table.mem_of_columnNamed? {t : Table} {name : String} {c : Column}
    (h : t.columnNamed? name = some c) : c ∈ t.columns := by
  unfold columnNamed? at h
  rcases (Option.orElse_eq_some _ _ _).mp h with hfind | ⟨-, hfind⟩
  · exact List.mem_of_find?_eq_some hfind
  · exact List.mem_of_find?_eq_some hfind

/-- A reference means one of the from items that are no joins. -/
theorem FromItem.mem_of_referenced? {f source : FromItem} {reference : String}
    (h : f.referenced? reference = some source) : source ∈ f.leaves := by
  unfold referenced? at h
  rcases (Option.orElse_eq_some _ _ _).mp h with hfind | ⟨-, hrest⟩
  · exact List.mem_of_find?_eq_some hfind
  · rcases (Option.orElse_eq_some _ _ _).mp hrest with hfind | ⟨-, hfind⟩
    · exact List.mem_of_find?_eq_some hfind
    · exact List.mem_of_find?_eq_some hfind

theorem QueryOf.mem_of_source? {q : Query} {reference : String} {source : FromItem}
    (h : q.source? reference = some source) : source ∈ q.sources.flatMap FromItem.leaves := by
  obtain ⟨f, hf, href⟩ := List.exists_of_findSome?_eq_some h
  exact List.mem_flatMap.mpr ⟨f, hf, FromItem.mem_of_referenced? href⟩

namespace Grammar

/-- The select items of the subqueries among from items are listed. -/
def KnowsSources (r : Registry) (sources : List FromItem) : Prop :=
  ∀ q aliasName, FromItem.subquery q aliasName ∈ sources.flatMap FromItem.leaves →
    ∀ i ∈ q.select, r.Lists i

/-- A meaning that takes the identity it is given: a column among from items, or an item that refers
to a listed one at most. -/
structure Pending.IsFresh (r : Registry) (sources : List FromItem) (pending : Pending) : Prop where
  id : ∀ n, (pending n).id = n
  inner : ∀ n x, (pending n).inner? = some x → r.Lists x
  among : ∀ n, (pending n).IsAmong sources

/-- A meaning over from items: it takes the identity it is given, stands among the from items, and its
parameters are no documents with a key twice. -/
structure Pending.IsMeant (sources : List FromItem) (pending : Pending) : Prop where
  id : ∀ n, (pending n).id = n
  among : ∀ n, (pending n).IsAmong sources
  parameters : ∀ n, ∀ v ∈ (pending n).parameters, v.hasDistinctKeys = true

variable {r : Registry} {sources : List FromItem} {q : Query} {pending : Pending}

/-- What a meaning refers to is selected by a subquery, so it is listed. -/
theorem Pending.IsMeant.isFresh (h : Pending.IsMeant sources pending) (hknows : KnowsSources r sources) :
    Pending.IsFresh r sources pending where
  id := h.id
  inner := fun n x hx => by
    have hsource : (pending n).source = .inner x := by
      unfold Item.inner? at hx
      split at hx
      next y hy => rw [hy, Option.some.inj hx]
      next => cases hx
    obtain ⟨q, aliasName, hleaf, hmem⟩ := (h.among n).inner x hsource
    exact hknows q aliasName hleaf x hmem
  among := h.among

/-! ## Columns -/

/-- A reference to an item that a subquery among the from items selects. -/
theorem isMeant_ofInner {q : Query} {aliasName : Option String}
    (hsource : FromItem.subquery q aliasName ∈ sources.flatMap FromItem.leaves) {i : Item}
    (hi : i ∈ q.select) (scope : Option String) :
    Pending.IsMeant sources fun id => Item.ofInner id i scope where
  id := fun _ => rfl
  among := fun n => by
    refine ⟨fun c hc => (by cases hc), fun x hx => ?_, fun _ => rfl⟩
    cases hx
    exact ⟨q, aliasName, hsource, hi⟩
  parameters := fun _ => List.forall_mem_nil _

section Columns

variable {source : FromItem} (hsource : source ∈ sources.flatMap FromItem.leaves)

include hsource

/-- A column of a table among the from items. -/
theorem isMeant_ofColumn {t : Table} {c : Column} {scope : Option String} (ht : source.table? = some t)
    (hc : c ∈ t.columns) (hscope : ∀ label, scope = some label → source.label? = some label)
    (hid : ∀ n, (pending n).id = n) (hcolumn : ∀ n, (pending n).source = .column c)
    (hscoped : ∀ n, (pending n).scope = scope)
    (hparameters : ∀ n, ∀ v ∈ (pending n).parameters, v.hasDistinctKeys = true) :
    Pending.IsMeant sources pending where
  id := hid
  among := fun n => by
    refine ⟨fun d hd => ?_, fun x hx => ?_, fun hcount => ?_⟩
    · rw [hcolumn n] at hd
      cases hd
      exact ⟨source, hsource, t, ht, hc, fun label hlabel => hscope label (hscoped n ▸ hlabel)⟩
    · rw [hcolumn n] at hx
      cases hx
    · have hexpression := (Item.source_of_isCountAll hcount).1
      rw [hcolumn n] at hexpression
      cases hexpression
  parameters := hparameters

theorem isMeant_of_pathInto? {t : Table} {name : List Char} {scope : Option String}
    (ht : source.table? = some t)
    (hscope : ∀ label, scope = some label → source.label? = some label)
    (h : pathInto? t name scope = some pending) : Pending.IsMeant sources pending := by
  unfold pathInto? at h
  split at h
  · split at h
    next c hc =>
      split at h
      · cases h
        refine isMeant_ofColumn hsource ht (Table.mem_of_columnNamed? hc) hscope (fun _ => rfl)
          (fun _ => rfl) (fun _ => rfl) fun _ => ?_
        exact List.forall_mem_singleton.mpr rfl
      · cases h
    · cases h
  · cases h

/-- What a name means within one from item. -/
theorem isMeant_of_resolveIn? {name : List Char} {qualified : Bool}
    (h : resolveIn? source name qualified = some pending) : Pending.IsMeant sources pending := by
  unfold resolveIn? at h
  cases source with
  | table t aliasName =>
    have hscope : ∀ label, (if qualified then (FromItem.table t aliasName).label? else none) =
        some label → (FromItem.table t aliasName).label? = some label := by
      intro label hlabel
      split at hlabel
      · exact hlabel
      · cases hlabel
    dsimp only at h
    split at h
    next c hc =>
      cases h
      exact isMeant_ofColumn hsource rfl (Table.mem_of_columnNamed? hc) hscope (fun _ => rfl)
        (fun _ => rfl) (fun _ => rfl) fun _ => List.forall_mem_nil _
    next => exact isMeant_of_pathInto? hsource rfl hscope h
  | subquery q aliasName =>
    obtain ⟨i, hi, rfl⟩ := Option.map_eq_some_iff.mp h
    have hmem : i ∈ q.select := by
      unfold innerNamed? QueryOf.aliased? at hi
      rcases (Option.orElse_eq_some _ _ _).mp hi with hfind | ⟨-, hfind⟩
      · exact List.mem_of_find?_eq_some hfind
      · exact List.mem_of_find?_eq_some hfind
    exact isMeant_ofInner hsource hmem _
  | expression text aliasName => cases h
  | join kind left right conditions aliasName => cases h

/-- What a from item without joins offers. -/
theorem isMeant_of_offers : ∀ pending ∈ source.offers, Pending.IsMeant sources pending := by
  intro pending hpending
  cases source with
  | table t aliasName =>
    obtain ⟨c, hc, rfl⟩ := List.mem_map.mp hpending
    exact isMeant_ofColumn hsource rfl hc (fun _ h => h) (fun _ => rfl) (fun _ => rfl) (fun _ => rfl)
      fun _ => List.forall_mem_nil _
  | subquery q aliasName =>
    obtain ⟨i, hi, rfl⟩ := List.mem_map.mp hpending
    exact isMeant_ofInner hsource hi _
  | expression text aliasName => cases hpending
  | join kind left right conditions aliasName => cases hpending

end Columns

/-- A name that means something does so within one from item: as a qualified name, or as the only
one that has it. -/
theorem exists_resolveIn?_of_resolveColumn {name : List Char}
    (h : resolveColumn q name = .ok (some pending)) :
    (∃ qualifier rest source, (qualifier, rest) ∈ dottedCuts name ∧
      q.source? (String.ofList (unquoteName qualifier)) = some source ∧
      resolveIn? source (unquoteName rest) true = some pending) ∨
    ∃ before source after, q.sources.flatMap FromItem.leaves = before ++ source :: after ∧
      (∀ leaf ∈ before ++ after, resolveIn? leaf name false = none) ∧
      resolveIn? source name false = some pending := by
  unfold resolveColumn at h
  dsimp only at h
  split at h
  next found hfound =>
    obtain ⟨⟨qualifier, rest⟩, hmem, hcut⟩ := List.exists_of_findSome?_eq_some hfound
    obtain ⟨source, hsource, heq⟩ := Option.map_eq_some_iff.mp hcut
    cases h
    exact Or.inl ⟨qualifier, rest, source, hmem, hsource, heq⟩
  next =>
    split at h
    · cases h
    next found hfound =>
      cases h
      obtain ⟨before, source, after, hleaves, hbefore, hsource, hafter⟩ :=
        List.filterMap_eq_cons_iff.mp hfound
      refine Or.inr ⟨before, source, after, hleaves, fun leaf hmem => ?_, hsource⟩
      rcases List.mem_append.mp hmem with hmem | hmem
      · exact hbefore leaf hmem
      · exact List.filterMap_eq_nil_iff.mp hafter leaf hmem
    · cases h

theorem isMeant_of_resolveColumn {name : List Char}
    (h : resolveColumn q name = .ok (some pending)) : Pending.IsMeant q.sources pending := by
  rcases exists_resolveIn?_of_resolveColumn h with
    ⟨_, _, source, -, hsource, heq⟩ | ⟨before, source, after, hleaves, -, heq⟩
  · exact isMeant_of_resolveIn? (QueryOf.mem_of_source? hsource) heq
  · exact isMeant_of_resolveIn? (by rw [hleaves]; exact List.mem_append_cons_self) heq

/-- What a name means is no expression. -/
theorem source_of_resolveIn? {source : FromItem} {name : List Char} {qualified : Bool}
    (h : resolveIn? source name qualified = some pending) (n : Nat) (text : String) :
    (pending n).source ≠ .expression text := by
  unfold resolveIn? pathInto? at h
  cases source with
  | table t aliasName =>
    dsimp only at h
    split at h
    · cases h
      exact fun heq => by cases heq
    · split at h
      · split at h
        · split at h
          · cases h
            exact fun heq => by cases heq
          · cases h
        · cases h
      · cases h
  | subquery q aliasName =>
    obtain ⟨i, -, rfl⟩ := Option.map_eq_some_iff.mp h
    exact fun heq => by cases heq
  | expression text aliasName => cases h
  | join kind left right conditions aliasName => cases h

theorem source_of_resolveColumn {name : List Char}
    (h : resolveColumn q name = .ok (some pending)) (n : Nat) (text : String) :
    (pending n).source ≠ .expression text := by
  rcases exists_resolveIn?_of_resolveColumn h with ⟨_, _, _, -, -, heq⟩ | ⟨_, _, _, -, -, heq⟩
  · exact source_of_resolveIn? heq n text
  · exact source_of_resolveIn? heq n text

/-! ## Functions -/

/-- A function of what has no function reads the same. -/
theorem source_withFunction (id : Nat) (i : Item) (f : Builtin) :
    (i.withFunction id (some f)).source = i.source := by
  show i.sourceUnder (some f) = i.source
  unfold Item.sourceUnder
  rw [Option.isNone_some, Bool.and_false]
  rfl

/-- A meaning that reads the same in the same scope. -/
theorem Pending.IsMeant.congr (h : Pending.IsMeant sources pending) {other : Pending}
    (hid : ∀ n, (other n).id = n) (hsource : ∀ n, (other n).source = (pending n).source)
    (hscope : ∀ n, (other n).scope = (pending n).scope)
    (hcounted : ∀ n, (other n).isCountAll = true → (other n).parameters = [])
    (hparameters : ∀ n, ∀ v ∈ (other n).parameters, v.hasDistinctKeys = true) :
    Pending.IsMeant sources other where
  id := hid
  parameters := hparameters
  among := fun n => by
    refine ⟨fun c hc => ?_, fun x hx => ?_, hcounted n⟩
    · rw [hsource] at hc
      rw [hscope]
      exact (h.among n).column c hc
    · rw [hsource] at hx
      exact (h.among n).inner x hx

/-- A literal is no document. -/
theorem hasDistinctKeys_of_readLiteral? {text : List Char} {v : Value} (h : readLiteral? text = some v) :
    v.hasDistinctKeys = true := by
  have hmap {α : Type} {o : Option α} {f : α → Value} (hf : ∀ a, (f a).hasDistinctKeys = true)
      (h : o.map f = some v) : v.hasDistinctKeys = true := by
    obtain ⟨a, -, rfl⟩ := Option.map_eq_some_iff.mp h
    exact hf a
  unfold readLiteral? at h
  dsimp only at h
  split at h
  · exact hmap (fun _ => rfl) h
  · split_ifs at h
    · cases h
      rfl
    · cases h
      rfl
    · cases h
      rfl
    · exact hmap (fun _ => rfl) h

theorem hasDistinctKeys_of_readParameters {text : List Char} {tokens : List (List Char)}
    {parameters : List Value} (h : readParameters text tokens = .ok parameters) :
    ∀ v ∈ parameters, v.hasDistinctKeys = true := by
  induction tokens generalizing parameters with
  | nil =>
    cases h
    exact List.forall_mem_nil _
  | cons token rest ih =>
    unfold readParameters at h
    split at h
    next v hv =>
      cases hrest : readParameters text rest with
      | error e =>
        rw [hrest] at h
        cases h
      | ok more =>
        rw [hrest] at h
        cases h
        exact List.forall_mem_cons.mpr ⟨hasDistinctKeys_of_readLiteral? hv, ih hrest⟩
    next => cases h

theorem isMeant_of_resolveFunction {f : Builtin}
    {arguments text : List Char} (h : resolveFunction q f arguments text = .ok pending) :
    Pending.IsMeant q.sources pending := by
  unfold resolveFunction at h
  dsimp only at h
  split at h
  · cases h
  · obtain ⟨found, hfound, h⟩ := exists_of_bind_eq_ok h
    cases found with
    | none => cases h
    | some column =>
      have hcolumn := isMeant_of_resolveColumn hfound
      dsimp only at h
      split at h
      · cases h
      · obtain ⟨parameters, hparameters, h⟩ := exists_of_bind_eq_ok h
        cases h
        have hsource (n : Nat) : (if parameters.isEmpty then (column n).withFunction n (some f)
            else ((column n).withFunction n (some f)).withParameters n parameters).source =
              (column n).source := by
          split <;> exact source_withFunction n _ f
        refine hcolumn.congr (fun n => ?_) hsource (fun n => ?_) (fun n hcount => ?_) fun n => ?_
        · split <;> rfl
        · split <;> rfl
        · have hexpression := (Item.source_of_isCountAll hcount).1
          exact absurd ((hsource n).symm.trans hexpression) (source_of_resolveColumn hfound n "*")
        · split
          · exact hcolumn.parameters n
          · exact hasDistinctKeys_of_readParameters hparameters

/-- The same with APPROXIMATE. -/
theorem Pending.IsMeant.withApproximate (h : Pending.IsMeant sources pending) (approximate : Bool) :
    Pending.IsMeant sources fun id =>
      if approximate then (pending id).withApproximate id true else pending id := by
  have hkept (n : Nat) : ∀ i, i = (if approximate then (pending n).withApproximate n true
      else pending n) → i.id = n ∧ i.source = (pending n).source ∧ i.scope = (pending n).scope ∧
        (i.isCountAll = true → i.parameters = []) ∧ i.parameters = (pending n).parameters := by
    rintro i rfl
    split
    · unfold Item.withApproximate
      split
      · exact ⟨h.id n, rfl, rfl, (h.among n).counted, rfl⟩
      · exact ⟨rfl, rfl, rfl, (h.among n).counted, rfl⟩
    · exact ⟨h.id n, rfl, rfl, (h.among n).counted, rfl⟩
  refine h.congr (fun n => (hkept n _ rfl).1) (fun n => (hkept n _ rfl).2.1)
    (fun n => (hkept n _ rfl).2.2.1) (fun n => (hkept n _ rfl).2.2.2.1) fun n => ?_
  rw [(hkept n _ rfl).2.2.2.2]
  exact h.parameters n

theorem isMeant_countAll : Pending.IsMeant sources Item.countAll where
  id := fun _ => rfl
  among := fun _ => ⟨fun _ hc => (by cases hc), fun _ hx => (by cases hx), fun _ => rfl⟩
  parameters := fun _ => List.forall_mem_nil _

/-- What a text means as an item: a count of all rows or another function if it is a call, or else a
column, each with the mark for approximate functions that stands before it. -/
theorem exists_of_resolveItem {text : List Char} (h : resolveItem q text = .ok (some pending)) :
    ∃ approximate rest meaning, spanApproximate (Text.trim text) = (approximate, rest) ∧
      (pending = fun id => if approximate then (meaning id).withApproximate id true else meaning id) ∧
      ((∃ name arguments, functionCall? rest = some (name, arguments) ∧
          (meaning = Item.countAll ∨ ∃ f, resolveFunction q f arguments rest = .ok meaning)) ∨
        (functionCall? rest = none ∧ resolveColumn q (unquoteName rest) = .ok (some meaning))) := by
  unfold resolveItem at h
  generalize spanApproximate (Text.trim text) = spanned at h ⊢
  obtain ⟨approximate, rest⟩ := spanned
  have hmarked {found : Except QueryError (Option Pending)} (h : (do
      let found ← found
      return found.map fun make id =>
        if approximate then (make id).withApproximate id true else make id) =
      Except.ok (some pending)) : ∃ meaning, found = .ok (some meaning) ∧
        pending = fun id =>
          if approximate then (meaning id).withApproximate id true else meaning id := by
    obtain ⟨found, rfl, h⟩ := exists_of_bind_eq_ok h
    obtain ⟨meaning, rfl, rfl⟩ := Option.map_eq_some_iff.mp (Except.ok.inj h)
    exact ⟨meaning, rfl, rfl⟩
  dsimp only at h
  split at h
  next name arguments hcall =>
    split at h
    · obtain ⟨_, hnone, -⟩ := hmarked h
      cases hnone
    next f _ =>
      split at h
      · obtain ⟨_, hcount, rfl⟩ := hmarked h
        cases hcount
        exact ⟨_, _, _, rfl, rfl, Or.inl ⟨name, arguments, hcall, Or.inl rfl⟩⟩
      · obtain ⟨_, hfound, rfl⟩ := hmarked h
        obtain ⟨_, hresolve, heq⟩ := exists_of_map_eq_ok hfound
        cases heq
        exact ⟨_, _, _, rfl, rfl, Or.inl ⟨name, arguments, hcall, Or.inr ⟨f, hresolve⟩⟩⟩
  next hcall =>
    obtain ⟨_, hcolumn, rfl⟩ := hmarked h
    exact ⟨_, _, _, rfl, rfl, Or.inr ⟨hcall, hcolumn⟩⟩

theorem isMeant_of_resolveItem {text : List Char}
    (h : resolveItem q text = .ok (some pending)) : Pending.IsMeant q.sources pending := by
  obtain ⟨approximate, rest, meaning, -, rfl, hmeaning⟩ := exists_of_resolveItem h
  refine Pending.IsMeant.withApproximate ?_ approximate
  rcases hmeaning with ⟨_, _, -, rfl | ⟨f, hresolve⟩⟩ | ⟨-, hcolumn⟩
  · exact isMeant_countAll
  · exact isMeant_of_resolveFunction hresolve
  · exact isMeant_of_resolveColumn hcolumn

/-- **A reference means a select item, or an item that is fresh.** -/
theorem resolveReference_eq (hknows : KnowsSources r q.sources) {text : List Char}
    (h : resolveReference q text = .ok (some pending)) :
    Pending.IsFresh r q.sources pending ∨ ∃ i ∈ q.select, pending = fun _ => i := by
  unfold resolveReference at h
  split at h
  next i hi =>
    cases h
    exact Or.inr ⟨i, List.mem_of_find?_eq_some hi, rfl⟩
  next => exact Or.inl ((isMeant_of_resolveItem h).isFresh hknows)

end Grammar

end DocQuery
