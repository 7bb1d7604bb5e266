import DocQuery.Proofs.Query.Sameness
import DocQuery.Query.Scope

/-!
# DocQuery.Proofs.Query.Registry — what identities were drawn for

Every item draws its identity when it is made, and copies share it.  A registry keeps for each
identity the item that drew it, without an alias; it only grows.  Items that are listed in one
registry and have one identity are copies of one item, and so are the items that they refer to.

Items are made, copied and changed one after the other, and identities are drawn from one counter.  A
workshop keeps the counter and every item so far (`Workshop`); an operation makes one more item, or
fails and makes none (`Workshop.perform`).  Every operation that changes more than an alias draws a
new identity, so a registry of what each identity was drawn for can be kept along
(`Workshop.IsRegistered`), and items with one identity differ in their aliases at most
(`Workshop.copies_of_run`).
-/

namespace DocQuery

/-- The items that drew the identities before `next`. -/
structure Registry where
  entry : Nat → Item
  next : Nat
  positive : 0 < next

namespace Registry

/-- A later registry: it keeps what was entered. -/
structure Extends (r' r : Registry) : Prop where
  next_le : r.next ≤ r'.next
  entry_eq : ∀ k < r.next, r'.entry k = r.entry k

theorem Extends.refl (r : Registry) : r.Extends r := ⟨Nat.le_refl _, fun _ _ => rfl⟩

theorem Extends.trans {r r' r'' : Registry} (h : r''.Extends r') (h' : r'.Extends r) :
    r''.Extends r where
  next_le := Nat.le_trans h'.next_le h.next_le
  entry_eq := fun k hk => by
    rw [h.entry_eq k (Nat.lt_of_lt_of_le hk h'.next_le), h'.entry_eq k hk]

/-! ## Listed items -/

/-- The item, its alias aside, is the one that drew its identity. -/
structure Enters (r : Registry) (i : Item) : Prop where
  positive : 0 < i.id
  id_lt : i.id < r.next
  entry : r.entry i.id = i.withoutAlias

/-- The item is entered, and so is every item that it refers to. -/
inductive Lists (r : Registry) : Item → Prop
  | intro (i : Item) (enters : r.Enters i) (inner : ∀ x, i.inner? = some x → Lists r x) : Lists r i

variable {r r' : Registry} {i j : Item}

theorem Lists.enters (h : r.Lists i) : r.Enters i := by
  cases h with
  | intro _ enters _ => exact enters

theorem Lists.inner {x : Item} (h : r.Lists i) (hx : i.inner? = some x) : r.Lists x := by
  cases h with
  | intro _ _ inner => exact inner x hx

theorem Enters.mono (h : r.Enters i) (hr : r'.Extends r) : r'.Enters i where
  positive := h.positive
  id_lt := Nat.lt_of_lt_of_le h.id_lt hr.next_le
  entry := (hr.entry_eq i.id h.id_lt).trans h.entry

theorem Lists.mono (h : r.Lists i) (hr : r'.Extends r) : r'.Lists i := by
  induction h with
  | intro i enters _ ih => exact .intro i (enters.mono hr) ih

/-- **Listed items with one identity are copies.** -/
theorem Lists.copies (h : r.Lists i) (h' : r.Lists j) (hid : i.id = j.id) :
    i.withoutAlias = j.withoutAlias := by
  rw [← h.enters.entry, ← h'.enters.entry, hid]

/-- An alias may be given to a listed item. -/
theorem Lists.withAlias (h : r.Lists i) (aliasName : String) : r.Lists (i.withAlias aliasName) :=
  .intro _ ⟨h.enters.positive, h.enters.id_lt, h.enters.entry⟩ fun _ hx => h.inner hx

theorem Lists.withoutAlias (h : r.Lists i) : r.Lists i.withoutAlias :=
  .intro _ ⟨h.enters.positive, h.enters.id_lt, h.enters.entry⟩ fun _ hx => h.inner hx

/-! ## New entries -/

/-- The registry after more identities have been drawn. -/
def drawnUpTo (r : Registry) (n : Nat) (h : r.next ≤ n) : Registry where
  entry := r.entry
  next := n
  positive := Nat.lt_of_lt_of_le r.positive h

theorem drawnUpTo_extends (r : Registry) {n : Nat} (h : r.next ≤ n) :
    (r.drawnUpTo n h).Extends r := ⟨h, fun _ _ => rfl⟩

/-- The registry with one more item. -/
def enter (r : Registry) (i : Item) : Registry where
  entry := fun k => if k = r.next then i.withoutAlias else r.entry k
  next := r.next + 1
  positive := Nat.succ_pos _

theorem enter_extends (r : Registry) (i : Item) : (r.enter i).Extends r where
  next_le := Nat.le_succ _
  entry_eq := fun _ hk => if_neg (Nat.ne_of_lt hk)

/-- An item with the next identity that refers to listed items alone is listed once it is entered. -/
theorem lists_enter (hid : i.id = r.next) (hinner : ∀ x, i.inner? = some x → r.Lists x) :
    (r.enter i).Lists i := by
  refine .intro i ⟨?_, ?_, ?_⟩ fun x hx => (hinner x hx).mono (enter_extends r i)
  · rw [hid]
    exact r.positive
  · rw [hid]
    exact Nat.lt_succ_self _
  · show (if i.id = r.next then i.withoutAlias else r.entry i.id) = i.withoutAlias
    rw [if_pos hid]

end Registry

/-! ## What items with one identity have in common -/

/-! ### Operations -/

/-- An operation on items; the items that it is applied to are named by the order they were made in,
the last one first. -/
inductive Operation where
  | column (c : Column) (scope : Option String)
  | function (f : Builtin) (c : Column) (scope : Option String)
  | countAll
  | expression (text aliasName : String)
  | inner (item : Nat) (subquery : FromItem)
  | clone (item : Nat)
  | withAlias (item : Nat) (aliasName : String)
  | withoutAlias (item : Nat)
  | withApproximate (item : Nat) (allowed : Bool)
  | withParameters (item : Nat) (parameters : List Value)
  | withFunction (item : Nat) (function : Option Builtin)
  | withScope (item : Nat) (scope : Option String)
  | elsewhere

/-- The identity that is drawn next, and the items that were made, the last one first. -/
structure Workshop where
  next : Nat := 1
  items : List Item := []

namespace Workshop

/-- One more item under the identity that was next. -/
def issue (w : Workshop) (i : Item) : Workshop := { next := w.next + 1, items := i :: w.items }

/-- One more item under an identity that was drawn before. -/
def keep (w : Workshop) (i : Item) : Workshop := { w with items := i :: w.items }

/-- What follows an operation on an item, if there is such an item. -/
def on (w : Workshop) (item : Nat) (f : Item → Workshop) : Workshop :=
  (w.items[item]?).elim w f

/-- The workshop after an operation.  Identities are also drawn elsewhere, for items that do not come
here. -/
def perform (w : Workshop) : Operation → Workshop
  | .column c scope => w.issue (Item.ofColumn w.next c scope)
  | .function f c scope => w.issue (Item.ofFunction w.next f c scope)
  | .countAll => w.issue (Item.countAll w.next)
  | .expression text aliasName => (Item.ofExpression? w.next text aliasName).elim w w.issue
  | .inner item subquery => w.on item fun i => match FromItem.innerItem w.next i subquery with
    | .ok reference => w.issue reference
    | .error _ => w
  | .clone item => w.on item w.keep
  | .withAlias item aliasName => w.on item fun i => w.keep (i.withAlias aliasName)
  | .withoutAlias item => w.on item fun i => w.keep i.withoutAlias
  | .withApproximate item allowed => w.on item fun i =>
    if i.approximate = allowed then w.keep i else w.issue (i.withApproximate w.next allowed)
  | .withParameters item parameters => w.on item fun i =>
    w.issue (i.withParameters w.next parameters)
  | .withFunction item function => w.on item fun i => w.issue (i.withFunction w.next function)
  | .withScope item scope => w.on item fun i => w.issue (i.withScope w.next scope)
  | .elsewhere => { w with next := w.next + 1 }

/-- The workshop after operations, one after the other. -/
def run (operations : List Operation) : Workshop := operations.foldl perform {}

/-! ### The registry of a workshop -/

/-- The next identity is that of a registry, and every item is listed there. -/
def IsRegistered (w : Workshop) : Prop :=
  ∃ r : Registry, r.next = w.next ∧ ∀ i ∈ w.items, r.Lists i

variable {w : Workshop} {i : Item}

/-- An item that refers to listed items alone is registered under a new identity. -/
theorem isRegistered_issue {r : Registry} (hnext : r.next = w.next)
    (hitems : ∀ k ∈ w.items, r.Lists k) (hid : i.id = w.next)
    (hinner : ∀ x, i.inner? = some x → r.Lists x) : (w.issue i).IsRegistered := by
  refine ⟨r.enter i, congrArg Nat.succ hnext, List.forall_mem_cons.mpr ⟨?_, fun k hk => ?_⟩⟩
  · exact Registry.lists_enter (hid.trans hnext.symm) hinner
  · exact (hitems k hk).mono (r.enter_extends i)

/-- An item that differs from a listed one in its alias alone is registered already. -/
theorem isRegistered_keep {r : Registry} {k : Item} (hnext : r.next = w.next)
    (hitems : ∀ k ∈ w.items, r.Lists k) (hk : k ∈ w.items)
    (hcopy : i.withoutAlias = k.withoutAlias) : (w.keep i).IsRegistered := by
  have hid : i.withoutAlias.id = k.withoutAlias.id := congrArg Item.id hcopy
  have hinner : i.withoutAlias.inner? = k.withoutAlias.inner? := congrArg Item.inner? hcopy
  have hentered := (hitems k hk).enters
  refine ⟨r, hnext, List.forall_mem_cons.mpr ⟨.intro i ⟨?_, ?_, ?_⟩ fun x hx => ?_, hitems⟩⟩
  · exact Nat.lt_of_lt_of_eq hentered.positive hid.symm
  · exact Nat.lt_of_le_of_lt (Nat.le_of_eq hid) hentered.id_lt
  · exact (congrArg r.entry hid).trans (hentered.entry.trans hcopy.symm)
  · exact (hitems k hk).inner (hinner.symm.trans hx)

theorem eq_ofInner_of_innerItem {id : Nat} {subquery : FromItem} {reference : Item}
    (h : FromItem.innerItem id i subquery = .ok reference) :
    ∃ scope, reference = Item.ofInner id i scope := by
  cases subquery with
  | subquery q aliasName =>
    by_cases hselected : q.select.any (Item.sameAs true · i) = true
    · rw [FromItem.innerItem, if_pos hselected] at h
      exact ⟨aliasName, (Except.ok.inj h).symm⟩
    · rw [FromItem.innerItem, if_neg hselected] at h
      cases h
  | table | expression | join => cases h

/-- What an item refers to under another function is what it refers to. -/
theorem inner?_of_withFunction {x : Item} {id : Nat} {f : Option Builtin}
    (h : (i.withFunction id f).inner? = some x) : i.inner? = some x := by
  unfold Item.inner? Item.withFunction Item.sourceUnder at h
  unfold Item.inner?
  by_cases hnothing : (i.isCountAll && f.isNone) = true
  · rw [if_pos hnothing] at h
    cases h
  · rwa [if_neg hnothing] at h

/-- **Every operation keeps a workshop registered**: it draws a new identity, or the new item is a
copy up to its alias. -/
theorem IsRegistered.perform (h : w.IsRegistered) (operation : Operation) :
    (w.perform operation).IsRegistered := by
  obtain ⟨r, hnext, hitems⟩ := h
  have hnothing : ∀ {i : Item}, i.inner? = none → ∀ x, i.inner? = some x → r.Lists x :=
    fun hnone x hx => by rw [hnone] at hx; cases hx
  have hon : ∀ {item : Nat} {f : Item → Workshop}, (∀ i ∈ w.items, (f i).IsRegistered) →
      (w.on item f).IsRegistered := by
    intro item f hf
    unfold on
    cases hitem : w.items[item]? with
    | none => exact ⟨r, hnext, hitems⟩
    | some i => exact hf i (List.mem_of_getElem? hitem)
  cases operation with
  | column c scope => exact isRegistered_issue hnext hitems rfl (hnothing rfl)
  | function f c scope => exact isRegistered_issue hnext hitems rfl (hnothing rfl)
  | countAll => exact isRegistered_issue hnext hitems rfl (hnothing rfl)
  | expression text aliasName =>
    show ((Item.ofExpression? w.next text aliasName).elim w w.issue).IsRegistered
    unfold Item.ofExpression?
    by_cases hblank : Text.trim aliasName.toList = []
    · rw [if_pos hblank]
      exact ⟨r, hnext, hitems⟩
    · rw [if_neg hblank]
      exact isRegistered_issue hnext hitems rfl (hnothing rfl)
  | inner item subquery =>
    refine hon fun i hi => ?_
    cases hreference : FromItem.innerItem w.next i subquery with
    | error e => exact ⟨r, hnext, hitems⟩
    | ok reference =>
      obtain ⟨scope, rfl⟩ := eq_ofInner_of_innerItem hreference
      refine isRegistered_issue hnext hitems rfl fun x hx => ?_
      cases hx
      exact hitems i hi
  | clone item => exact hon fun i hi => isRegistered_keep hnext hitems hi rfl
  | withAlias item aliasName => exact hon fun i hi => isRegistered_keep hnext hitems hi rfl
  | withoutAlias item => exact hon fun i hi => isRegistered_keep hnext hitems hi rfl
  | withApproximate item allowed =>
    refine hon fun i hi => ?_
    split
    next => exact isRegistered_keep hnext hitems hi rfl
    next hchanged =>
      unfold Item.withApproximate
      rw [if_neg hchanged]
      exact isRegistered_issue hnext hitems rfl fun x hx => (hitems i hi).inner hx
  | withParameters item parameters =>
    exact hon fun i hi => isRegistered_issue hnext hitems rfl fun x hx => (hitems i hi).inner hx
  | withFunction item function =>
    exact hon fun i hi => isRegistered_issue hnext hitems rfl fun x hx =>
      (hitems i hi).inner (inner?_of_withFunction hx)
  | withScope item scope =>
    exact hon fun i hi => isRegistered_issue hnext hitems rfl fun x hx => (hitems i hi).inner hx
  | elsewhere =>
    refine ⟨r.enter (Item.countAll r.next), congrArg Nat.succ hnext, fun i hi => ?_⟩
    exact (hitems i hi).mono (r.enter_extends _)

/-- A workshop is registered from the start, and so at every time. -/
theorem isRegistered_run (operations : List Operation) : (run operations).IsRegistered := by
  have hstart : IsRegistered {} := by
    let r : Registry := { entry := Item.countAll, next := 1, positive := Nat.one_pos }
    exact ⟨r, rfl, List.forall_mem_nil _⟩
  have hfold : ∀ {w : Workshop}, w.IsRegistered → (operations.foldl perform w).IsRegistered := by
    induction operations with
    | nil => exact id
    | cons operation rest ih => exact fun h => ih (h.perform operation)
  exact hfold hstart

/-! ### Items with one identity -/

/-- **Items with one identity are copies up to their aliases**, in everything that is made by any
operations. -/
theorem copies_of_run (operations : List Operation) {i k : Item} (hi : i ∈ (run operations).items)
    (hk : k ∈ (run operations).items) (hid : i.id = k.id) : i.withoutAlias = k.withoutAlias := by
  obtain ⟨r, -, hitems⟩ := isRegistered_run operations
  exact (hitems i hi).copies (hitems k hk) hid

/-- Items with one identity are the same, so asking for that first is a shortcut. -/
theorem sameAs_of_run (operations : List Operation) (strict : Bool) {i k : Item}
    (hi : i ∈ (run operations).items) (hk : k ∈ (run operations).items) (hid : i.id = k.id)
    (hkeys : ∀ v ∈ k.allParameters, v.hasDistinctKeys = true) : Item.sameAs strict i k = true :=
  Item.sameAs_of_copies strict (copies_of_run operations hi hk hid) hkeys

end Workshop

end DocQuery
