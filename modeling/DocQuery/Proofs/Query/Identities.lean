import DocQuery.Rows.Row
import Mathlib.Data.List.Forall2

/-!
# DocQuery.Proofs.Query.Identities — items up to their identities

Two runs of one query draw different identities for the items that they make, and should give the
same rows nevertheless.  A pairing says which identities of one run stand for which of the other, and
items are alike if they differ in paired identities alone (`Item.Alike`).  Everything that is read of
items agrees on items that are alike: their texts, what they denote, and where they are gathered.
-/

namespace DocQuery

/-! ## Pairings -/

/-- Which identities of one run stand for which of another. -/
abbrev Pairing := Nat → Nat → Prop

namespace Pairing

/-- No identity stands for two, and the identity of look-ups stands for itself. -/
structure IsOneToOne (ρ : Pairing) : Prop where
  unique : Relator.BiUnique ρ
  zero : ρ 0 0

/-- The pairing still holds when more identities are paired. -/
def Extends (σ ρ : Pairing) : Prop := ∀ m n, ρ m n → σ m n

theorem Extends.refl (ρ : Pairing) : ρ.Extends ρ := fun _ _ h => h

theorem Extends.trans {ρ σ τ : Pairing} (h : τ.Extends σ) (h' : σ.Extends ρ) : τ.Extends ρ :=
  fun m n hmn => h m n (h' m n hmn)

theorem IsOneToOne.beq_eq {ρ : Pairing} (h : ρ.IsOneToOne) {m n m' n' : Nat} (hm : ρ m m')
    (hn : ρ n n') : (m == n) = (m' == n') := by
  rw [Bool.eq_iff_iff, beq_iff_eq, beq_iff_eq]
  constructor
  · rintro rfl
    exact h.unique.2 hm hn
  · rintro rfl
    exact h.unique.1 hm hn

end Pairing

namespace Item

variable {ρ σ : Pairing} {i i' j j' : Item}

/-! ## Alike items -/

/-- Items that differ in paired identities alone, which goes for the items that they refer to as
well. -/
inductive Alike (ρ : Pairing) : Item → Item → Prop
  | column {m n : Nat} (c : Column) (function : Option Builtin) (parameters : List Value)
      (approximate : Bool) (scope aliasName : Option String) (h : ρ m n) :
      Alike ρ ⟨m, .column c, function, parameters, approximate, scope, aliasName⟩
        ⟨n, .column c, function, parameters, approximate, scope, aliasName⟩
  | expression {m n : Nat} (text : String) (function : Option Builtin) (parameters : List Value)
      (approximate : Bool) (scope aliasName : Option String) (h : ρ m n) :
      Alike ρ ⟨m, .expression text, function, parameters, approximate, scope, aliasName⟩
        ⟨n, .expression text, function, parameters, approximate, scope, aliasName⟩
  | nothing {m n : Nat} (function : Option Builtin) (parameters : List Value) (approximate : Bool)
      (scope aliasName : Option String) (h : ρ m n) :
      Alike ρ ⟨m, .nothing, function, parameters, approximate, scope, aliasName⟩
        ⟨n, .nothing, function, parameters, approximate, scope, aliasName⟩
  | inner {m n : Nat} {x y : Item} (function : Option Builtin) (parameters : List Value)
      (approximate : Bool) (scope aliasName : Option String) (h : ρ m n) (hinner : Alike ρ x y) :
      Alike ρ ⟨m, .inner x, function, parameters, approximate, scope, aliasName⟩
        ⟨n, .inner y, function, parameters, approximate, scope, aliasName⟩

/-- Lists of items that are alike place by place. -/
abbrev AllAlike (ρ : Pairing) : List Item → List Item → Prop := List.Forall₂ (Alike ρ)

theorem Alike.mono (h : Alike ρ i j) (hσ : σ.Extends ρ) : Alike σ i j := by
  induction h with
  | column c f ps a s al h => exact .column c f ps a s al (hσ _ _ h)
  | expression t f ps a s al h => exact .expression t f ps a s al (hσ _ _ h)
  | nothing f ps a s al h => exact .nothing f ps a s al (hσ _ _ h)
  | inner f ps a s al h _ ih => exact .inner f ps a s al (hσ _ _ h) ih

theorem AllAlike.mono {l l' : List Item} (h : AllAlike ρ l l') (hσ : σ.Extends ρ) :
    AllAlike σ l l' := h.imp fun _ _ hij => hij.mono hσ

section Parts

variable (h : Alike ρ i j)

include h

theorem Alike.id : ρ i.id j.id := by cases h <;> assumption

theorem Alike.parameters : i.parameters = j.parameters := by cases h <;> rfl

theorem Alike.scope : i.scope = j.scope := by cases h <;> rfl

theorem Alike.aliasName : i.aliasName = j.aliasName := by cases h <;> rfl

theorem Alike.column? : i.column? = j.column? := by cases h <;> rfl

theorem Alike.isCountAll : i.isCountAll = j.isCountAll := by cases h <;> rfl

theorem Alike.aggregate? : i.aggregate? = j.aggregate? := by cases h <;> rfl

theorem Alike.scalar? : i.scalar? = j.scalar? := by cases h <;> rfl

theorem Alike.expression? : i.expression? = j.expression? := by
  unfold Item.expression?
  rw [h.isCountAll]
  cases h <;> rfl

/-- Items that are alike refer to items that are alike, or both to none. -/
theorem Alike.inner? : (i.inner? = none ∧ j.inner? = none) ∨
    ∃ x y, i.inner? = some x ∧ j.inner? = some y ∧ Alike ρ x y := by
  cases h with
  | column => exact Or.inl ⟨rfl, rfl⟩
  | expression => exact Or.inl ⟨rfl, rfl⟩
  | nothing => exact Or.inl ⟨rfl, rfl⟩
  | inner f ps a s al h hinner => exact Or.inr ⟨_, _, rfl, rfl, hinner⟩

theorem Alike.applyScalar (v : Value) : Row.applyScalar i v = Row.applyScalar j v := by
  unfold Row.applyScalar
  rw [h.scalar?, h.parameters]

/-! ## Texts -/

theorem Alike.sqlWithoutAlias : i.sqlWithoutAlias = j.sqlWithoutAlias := by
  induction h with
  | column => rfl
  | expression => rfl
  | nothing => rfl
  | inner f ps a s al h hinner ih =>
    unfold Item.sqlWithoutAlias
    rw [hinner.aliasName, ih]

theorem Alike.sql : i.sql = j.sql := by
  unfold Item.sql
  rw [h.aliasName, h.sqlWithoutAlias]

theorem Alike.label : i.label = j.label := by
  unfold Item.label
  rw [h.aliasName, h.sqlWithoutAlias]

/-! ## Changes -/

theorem Alike.withoutAlias : Alike ρ i.withoutAlias j.withoutAlias := by
  cases h with
  | column c f ps a s al h => exact .column c f ps a s none h
  | expression t f ps a s al h => exact .expression t f ps a s none h
  | nothing f ps a s al h => exact .nothing f ps a s none h
  | inner f ps a s al h hinner => exact .inner f ps a s none h hinner

theorem Alike.withFunction {m n : Nat} (hmn : ρ m n) (f : Option Builtin) :
    Alike ρ (i.withFunction m f) (j.withFunction n f) := by
  unfold Item.withFunction Item.sourceUnder
  rw [h.isCountAll, h.parameters, h.scope]
  -- Without a function, the count of all rows reads nothing; anything else keeps what it reads.
  by_cases hcount : (j.isCountAll && f.isNone) = true
  · rw [if_pos hcount, if_pos hcount]
    exact .nothing f _ false j.scope none hmn
  · rw [if_neg hcount, if_neg hcount]
    cases h with
    | column c f' ps a s al h => exact .column c f _ false s none hmn
    | expression t f' ps a s al h => exact .expression t f _ false s none hmn
    | nothing f' ps a s al h => exact .nothing f _ false s none hmn
    | inner f' ps a s al h hinner => exact .inner f _ false s none hmn hinner

theorem Alike.bare (hρ : ρ.IsOneToOne) : Alike ρ i.bare j.bare := h.withFunction hρ.zero none

end Parts

/-! ## Sameness -/

/-- **Items denote the same if items that are alike with them do.** -/
theorem Alike.sameAs (h : Alike ρ i i') (h' : Alike ρ j j') (strict : Bool) :
    Item.sameAs strict i j = Item.sameAs strict i' j' := by
  induction h generalizing j j' with
  | column c f ps a s al h => cases h' <;> rfl
  | expression t f ps a s al h => cases h' <;> rfl
  | nothing f ps a s al h => cases h' <;> rfl
  | inner f ps a s al h hinner ih =>
    cases h' with
    | column => rfl
    | expression => rfl
    | nothing => rfl
    | inner f' ps' a' s' al' h' hinner' =>
      unfold Item.sameAs
      rw [ih hinner']
      rfl

theorem Alike.same (h : Alike ρ i i') (h' : Alike ρ j j') : Item.same i j = Item.same i' j' := by
  unfold Item.same
  rw [h.aliasName, h'.aliasName, h.sameAs h' true]

theorem alike_ofColumn {m n : Nat} (h : ρ m n) (c : Column) (scope : Option String) :
    Alike ρ (ofColumn m c scope) (ofColumn n c scope) :=
  .column c none [] false scope none h

/-! ## Lists -/

section Lists

variable {l l' k k' : List Item}

theorem AllAlike.sameLayout (h : AllAlike ρ l l') (h' : AllAlike ρ k k') :
    Item.sameLayout l k = Item.sameLayout l' k' := by
  induction h generalizing k k' with
  | nil => cases h' <;> rfl
  | cons hij _ ih =>
    cases h' with
    | nil => rfl
    | cons hij' hrest =>
      unfold Item.sameLayout
      rw [hij.same hij', ih hrest]

theorem AllAlike.isEmpty (h : AllAlike ρ l l') : l.isEmpty = l'.isEmpty := by cases h <;> rfl

/-- A test that holds of items if it holds of those that are alike holds of some in both lists. -/
theorem AllAlike.any_eq (h : AllAlike ρ l l') {p q : Item → Bool}
    (hpq : ∀ i j, Alike ρ i j → p i = q j) : l.any p = l'.any q := by
  induction h with
  | nil => rfl
  | cons hij _ ih => rw [List.any_cons, List.any_cons, hpq _ _ hij, ih]

theorem AllAlike.filter (h : AllAlike ρ l l') {p q : Item → Bool}
    (hpq : ∀ i j, Alike ρ i j → p i = q j) : AllAlike ρ (l.filter p) (l'.filter q) :=
  List.rel_filter (fun x y hij => by
    show p x = true ↔ q y = true
    rw [hpq x y hij]) h

/-- The first item that a test accepts in one list is alike with that in the other. -/
theorem AllAlike.find? (h : AllAlike ρ l l') {p q : Item → Bool}
    (hpq : ∀ i j, Alike ρ i j → p i = q j) :
    (l.find? p = none ∧ l'.find? q = none) ∨
      ∃ x y, l.find? p = some x ∧ l'.find? q = some y ∧ Alike ρ x y := by
  induction h with
  | nil => exact Or.inl ⟨rfl, rfl⟩
  | cons hij _ ih =>
    rw [List.find?_cons, List.find?_cons, hpq _ _ hij]
    split
    · exact Or.inr ⟨_, _, rfl, rfl, hij⟩
    · exact ih

theorem AllAlike.filterMap_eq {β : Type} (h : AllAlike ρ l l') {f g : Item → Option β}
    (hfg : ∀ i j, Alike ρ i j → f i = g j) : l.filterMap f = l'.filterMap g := by
  induction h with
  | nil => rfl
  | cons hij _ ih => rw [List.filterMap_cons, List.filterMap_cons, hfg _ _ hij, ih]

theorem AllAlike.append (h : AllAlike ρ l l') (h' : AllAlike ρ k k') :
    AllAlike ρ (l ++ k) (l' ++ k') := List.rel_append h h'

theorem AllAlike.pushNew (h : AllAlike ρ l l') (hij : Alike ρ i j) :
    AllAlike ρ (Item.pushNew l i) (Item.pushNew l' j) := by
  unfold Item.pushNew
  rw [h.any_eq fun a b hab => hab.sameAs hij true]
  split
  · exact h
  · exact h.append (.cons hij .nil)

theorem AllAlike.foldl_pushNew (h : AllAlike ρ l l') (h' : AllAlike ρ k k') :
    AllAlike ρ (k.foldl Item.pushNew l) (k'.foldl Item.pushNew l') := by
  induction h' generalizing l l' with
  | nil => exact h
  | cons hij _ ih => exact ih (h.pushNew hij)

/-- Gathering without aliases. -/
theorem AllAlike.foldl_pushNew_withoutAlias (h : AllAlike ρ l l') (h' : AllAlike ρ k k') :
    AllAlike ρ (k.foldl (fun kept i => Item.pushNew kept i.withoutAlias) l)
      (k'.foldl (fun kept i => Item.pushNew kept i.withoutAlias) l') := by
  induction h' generalizing l l' with
  | nil => exact h
  | cons hij _ ih => exact ih (h.pushNew hij.withoutAlias)

end Lists

end Item

end DocQuery
