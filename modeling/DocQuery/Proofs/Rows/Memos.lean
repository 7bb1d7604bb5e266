import DocQuery.Proofs.Query.Registry
import DocQuery.Rows.Header

/-!
# DocQuery.Proofs.Rows.Memos — what a memo of look-ups remembers

A memo keeps the answers of a header under the identities of the items that were looked up, and under
the columns.  It cannot see what an item denotes, so it is right as long as items with one identity
are looked up alike, which they are when they differ in their aliases alone
(`Header.resolve?_withoutAlias`).  Of items that are made and changed by any operations this always
holds, so a memo gives the answers of its header (`Workshop.memo_answers`).
-/

namespace DocQuery

namespace Header

/-! ## Aliases -/

theorem find?_withoutAlias (items : List Item) (i : Item) :
    find? items i.withoutAlias = find? items i := by
  unfold find?
  simp only [Item.sameAs_withoutAlias]
  rfl

/-- The alias of an item plays no part in where it is found. -/
theorem resolve?_withoutAlias (items : List Item) (i : Item) :
    resolve? items i.withoutAlias = resolve? items i := by
  unfold resolve?
  rw [find?_withoutAlias]
  rfl

theorem resolve?_of_copies (items : List Item) {i k : Item}
    (h : i.withoutAlias = k.withoutAlias) : resolve? items i = resolve? items k := by
  rw [← resolve?_withoutAlias, h, resolve?_withoutAlias]

/-! ## Look-ups -/

/-- A look-up of an item or of a plain column. -/
inductive Lookup where
  | item (i : Item)
  | column (c : Column)

/-- What a look-up of an item or of a column finds. -/
abbrev Answer := Option Resolution ⊕ Option Nat

/-- The answer of a header without a memo. -/
def answer (items : List Item) : Lookup → Answer
  | .item i => .inl (resolve? items i)
  | .column c => .inr (columnIndex? items c)

namespace Memo

/-- The answer of a memo, and the memo afterwards. -/
def answer (m : Memo) : Lookup → Answer × Memo
  | .item i => (.inl (m.resolve? i).1, (m.resolve? i).2)
  | .column c => (.inr (m.columnIndex? c).1, (m.columnIndex? c).2)

/-- The answers to look-ups, one after the other. -/
def answers (m : Memo) : List Lookup → List Answer
  | [] => []
  | l :: rest => (m.answer l).1 :: (m.answer l).2.answers rest

/-- What is kept are answers of the header: those of all items of a kind with the identity they are
kept under, and those of the columns. -/
structure Remembers (items : List Item) (P : Item → Prop) (m : Memo) : Prop where
  items_eq : m.items = items
  resolved : ∀ i, P i → ∀ a, m.resolved.lookup i.id = some a → a = Header.resolve? items i
  columns : ∀ c a, m.columns.lookup c = some a → a = Header.columnIndex? items c

variable {items : List Item} {P : Item → Prop} {m : Memo}

/-- Nothing is kept at first. -/
theorem remembers_start (items : List Item) (P : Item → Prop) :
    Remembers items P { items := items } where
  items_eq := rfl
  resolved := fun _ _ _ h => by cases h
  columns := fun _ _ h => by cases h

/-- **A look-up of an item gives the answer of the header**, and what is kept stays right if the other
items with its identity are found where it is. -/
theorem Remembers.resolve? (h : m.Remembers items P) {i : Item} (hi : P i)
    (hcopies : ∀ k, P k → k.id = i.id → Header.resolve? items k = Header.resolve? items i) :
    (m.resolve? i).1 = Header.resolve? items i ∧ (m.resolve? i).2.Remembers items P := by
  unfold Memo.resolve?
  cases hkept : m.resolved.lookup i.id with
  | some a => exact ⟨h.resolved i hi a hkept, h⟩
  | none =>
    refine ⟨congrArg (Header.resolve? · i) h.items_eq, h.items_eq, fun k hk a ha => ?_, h.columns⟩
    rw [List.lookup_cons] at ha
    cases hid : k.id == i.id with
    | true =>
      rw [hid] at ha
      cases ha
      rw [h.items_eq, hcopies k hk (beq_iff_eq.mp hid)]
    | false =>
      rw [hid] at ha
      exact h.resolved k hk a ha

/-- **A look-up of a column gives the answer of the header**, and what is kept stays right. -/
theorem Remembers.columnIndex? (h : m.Remembers items P) (c : Column) :
    (m.columnIndex? c).1 = Header.columnIndex? items c ∧
      (m.columnIndex? c).2.Remembers items P := by
  unfold Memo.columnIndex?
  cases hkept : m.columns.lookup c with
  | some a => exact ⟨h.columns c a hkept, h⟩
  | none =>
    refine ⟨congrArg (Header.columnIndex? · c) h.items_eq, h.items_eq, h.resolved, fun d a ha => ?_⟩
    rw [List.lookup_cons] at ha
    cases hsame : d == c with
    | true =>
      rw [hsame] at ha
      cases ha
      rw [h.items_eq, beq_iff_eq.mp hsame]
    | false =>
      rw [hsame] at ha
      exact h.columns d a ha

/-- One look-up, of either kind. -/
theorem Remembers.answer (h : m.Remembers items P)
    (hcopies : ∀ i k, P i → P k → k.id = i.id → Header.resolve? items k = Header.resolve? items i)
    {l : Lookup} (hl : ∀ i, l = .item i → P i) :
    (m.answer l).1 = Header.answer items l ∧ (m.answer l).2.Remembers items P := by
  cases l with
  | item i =>
    obtain ⟨hanswer, hnext⟩ := h.resolve? (hl i rfl) fun k hk => hcopies i k (hl i rfl) hk
    exact ⟨congrArg Sum.inl hanswer, hnext⟩
  | column c =>
    obtain ⟨hanswer, hnext⟩ := h.columnIndex? c
    exact ⟨congrArg Sum.inr hanswer, hnext⟩

/-- **A memo answers as its header does**, if items with one identity are found in one place.  The
induction is on the look-ups; what the memo keeps by then is carried along. -/
theorem Remembers.answers (h : m.Remembers items P)
    (hcopies : ∀ i k, P i → P k → k.id = i.id → Header.resolve? items k = Header.resolve? items i)
    {lookups : List Lookup} (hlookups : ∀ i, Lookup.item i ∈ lookups → P i) :
    m.answers lookups = lookups.map (Header.answer items) := by
  induction lookups generalizing m with
  | nil => rfl
  | cons l rest ih =>
    obtain ⟨hanswer, hnext⟩ := h.answer hcopies fun i hi => hlookups i (hi ▸ List.mem_cons_self)
    rw [Memo.answers, List.map_cons, hanswer,
      ih hnext fun i hi => hlookups i (List.mem_cons_of_mem l hi)]

end Memo

end Header

namespace Workshop

/-- **Identities can be trusted.**  Of all items that any operations make, two with one identity
differ in their aliases at most; so look-ups of them by their identities, through a memo of any
header, give what the header itself gives. -/
theorem memo_answers (operations : List Operation) (header : List Item)
    (lookups : List Header.Lookup)
    (hlookups : ∀ i, Header.Lookup.item i ∈ lookups → i ∈ (run operations).items) :
    (∀ i ∈ (run operations).items, ∀ k ∈ (run operations).items,
      i.id = k.id → i.withoutAlias = k.withoutAlias) ∧
    Header.Memo.answers { items := header } lookups = lookups.map (Header.answer header) := by
  have hcopies : ∀ i ∈ (run operations).items, ∀ k ∈ (run operations).items,
      i.id = k.id → i.withoutAlias = k.withoutAlias :=
    fun i hi k hk hid => copies_of_run operations hi hk hid
  refine ⟨hcopies, ?_⟩
  refine (Header.Memo.remembers_start header (· ∈ (run operations).items)).answers ?_ hlookups
  exact fun i k hi hk hid => Header.resolve?_of_copies header (hcopies k hk i hi hid)

/-- A scalar function of a column, looked up under an alias, without it and without the function, and
the column itself: the second answer is one that the memo kept. -/
theorem memo_answers_aliased :
    let c : Column := ⟨"id", "t", some .number, false⟩
    let operations := [.column c none, .function .toText c none, .withAlias 0 "x",
      .withFunction 0 none]
    let lookups := [.item ((Item.ofFunction 2 .toText c none).withAlias "x"),
      .item (Item.ofFunction 2 .toText c none), .column c, .item (Item.ofColumn 3 c none)]
    (∀ i, Header.Lookup.item i ∈ lookups → i ∈ (run operations).items) ∧
      Header.Memo.answers { items := [Item.ofColumn 1 c none] } lookups =
        [.inl (some ⟨0, true⟩), .inl (some ⟨0, true⟩), .inr (some 0), .inl (some ⟨0, false⟩)] := by
  intro c operations lookups
  have hlookups : ∀ i, Header.Lookup.item i ∈ lookups → i ∈ (run operations).items := by
    intro i hi
    simp only [lookups, List.mem_cons, Header.Lookup.item.injEq, reduceCtorEq, List.not_mem_nil,
      or_false, false_or] at hi
    rcases hi with rfl | rfl | rfl
    · exact .tail _ (.head _)
    · exact .tail _ (.tail _ (.head _))
    · exact .head _
  refine ⟨hlookups, ?_⟩
  exact (memo_answers operations [Item.ofColumn 1 c none] lookups hlookups).2

end Workshop

end DocQuery
