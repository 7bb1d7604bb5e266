import DocQuery.Proofs.Query.Senses
import DocQuery.Proofs.Rows.Reading
import Mathlib.Data.List.Find
import Mathlib.Data.Option.Basic

/-!
# DocQuery.Proofs.Rows.Views — rows seen through what their items denote

A look-up that goes by identity, by scope and by meaning ends at the sense that it is for, whichever
items of the header stand for it, or at the first that denotes the same in some scope
(`Header.find?_bind_eq`).  So what an item has for its value in a row depends on the senses of the
header alone, if cells of one sense have one value (`Row.evaluate?_of_shows`), and headers in whose
senses every search ends alike may be exchanged (`Row.valueFor_congr`).
-/

namespace DocQuery

/-! ## Searches that end alike -/

/-- Lists in which every search ends alike: the same elements first appear in the same order. -/
def SearchAlike {α : Type} (l l' : List α) : Prop := ∀ p : α → Bool, l.find? p = l'.find? p

namespace SearchAlike

variable {α β : Type} {l l' l'' k k' : List α}

theorem refl (l : List α) : SearchAlike l l := fun _ => rfl

theorem symm (h : SearchAlike l l') : SearchAlike l' l := fun p => (h p).symm

theorem trans (h : SearchAlike l l') (h' : SearchAlike l' l'') : SearchAlike l l'' :=
  fun p => (h p).trans (h' p)

theorem append (h : SearchAlike l l') (hk : SearchAlike k k') : SearchAlike (l ++ k) (l' ++ k') := by
  intro p
  rw [List.find?_append, List.find?_append, h p, hk p]

theorem filter (h : SearchAlike l l') (p : α → Bool) : SearchAlike (l.filter p) (l'.filter p) := by
  intro q
  rw [List.find?_filter, List.find?_filter, h]

open scoped Classical in
theorem mem_iff (h : SearchAlike l l') (a : α) : a ∈ l ↔ a ∈ l' := by
  have hfound (k : List α) : a ∈ k ↔ (k.find? fun b => decide (b = a)).isSome = true := by
    rw [List.find?_isSome]
    simp
  rw [hfound, hfound, h]

/-- An element that is there already may be added behind. -/
theorem append_of_mem {a : α} (h : a ∈ l) : SearchAlike (l ++ [a]) l := by
  intro p
  rw [List.find?_append]
  cases hp : l.find? p with
  | some b => rfl
  | none =>
    have hnot : p a = false := by simpa using List.find?_eq_none.mp hp a h
    rw [List.find?_singleton, hnot]
    rfl

/-- Leaving out elements that stand for one that was kept. -/
theorem foldl_addNew {r : α → α → Bool} {f : α → β} (kept more : List α)
    (hr : ∀ a ∈ kept ++ more, ∀ b ∈ more, r a b = true → f a = f b) :
    SearchAlike ((more.foldl (addNew r) kept).map f) ((kept ++ more).map f) := by
  induction more generalizing kept with
  | nil =>
    rw [List.append_nil]
    exact refl _
  | cons a rest ih =>
    have hkept : ∀ b ∈ addNew r kept a, b ∈ kept ++ [a] := fun b hb =>
      List.mem_append.mpr ((mem_addNew hb).imp_right List.mem_singleton.mpr)
    have hadd : SearchAlike ((addNew r kept a).map f) ((kept ++ [a]).map f) := by
      unfold addNew
      split
      next hany =>
        obtain ⟨b, hb, hsame⟩ := List.any_eq_true.mp hany
        rw [List.map_append]
        refine (append_of_mem ?_).symm
        exact List.mem_map.mpr
          ⟨b, hb, hr b (List.mem_append_left _ hb) a List.mem_cons_self hsame⟩
      next => exact refl _
    rw [List.foldl_cons]
    refine (ih _ fun b hb c hc hbc => hr b ?_ c (List.mem_cons_of_mem _ hc) hbc).trans ?_
    · rw [List.append_cons]
      rcases List.mem_append.mp hb with hb | hb
      · exact List.mem_append_left _ (hkept b hb)
      · exact List.mem_append_right _ hb
    · rw [List.map_append, List.append_cons, List.map_append]
      exact hadd.append (refl _)

theorem map {l l' : List α} (h : SearchAlike l l') (f : α → β) : SearchAlike (l.map f) (l'.map f) := by
  intro p
  rw [List.find?_map, List.find?_map, h]

theorem filterMap {l l' : List α} (h : SearchAlike l l') (f : α → Option β) :
    SearchAlike (l.filterMap f) (l'.filterMap f) := by
  intro p
  rw [List.find?_filterMap, List.find?_filterMap, h]

open scoped Classical in
/-- Without repetitions there is one list in which searches end so. -/
theorem eq_of_nodup {l l' : List α} (h : SearchAlike l l') (hl : l.Nodup) (hl' : l'.Nodup) : l = l' := by
  induction l generalizing l' with
  | nil =>
    cases l' with
    | nil => rfl
    | cons b rest => exact absurd (h fun _ => true) (by simp)
  | cons a rest ih =>
    cases l' with
    | nil => exact absurd (h fun _ => true) (by simp)
    | cons b rest' =>
      obtain rfl : a = b := by simpa using h fun _ => true
      rw [List.nodup_cons] at hl hl'
      -- Behind the first element everything is found by a test that it does not pass.
      have hbehind {k : List α} (hk : a ∉ k) (p : α → Bool) :
          (a :: k).find? (fun c => p c && decide (c ≠ a)) = k.find? p := by
        rw [List.find?_cons_of_neg (by simp)]
        refine List.find?_congr fun c hc => ?_
        have hne : c ≠ a := fun heq => hk (heq ▸ hc)
        simp [hne]
      refine congrArg (a :: ·) (ih (fun p => ?_) hl.2 hl'.2)
      rw [← hbehind hl.1, ← hbehind hl'.1, h]

end SearchAlike

/-! ## Look-ups among senses -/

namespace Header

open Item (meaning sense IsHeld IsAsked IsVocabulary)

open scoped Classical in
/-- Where a look-up ends among senses: at the sense itself if it is there, else at the first that
denotes the same in any scope. -/
noncomputable def sought (senses : List Item) (m : Item) : Option Item :=
  senses.find? (fun x => decide (x = m)) <|>
    senses.find? fun x => decide (meaning false x = meaning false m)

/-- Where a look-up ends among senses that may go on without a scalar function, and whether the
function is still to be applied. -/
noncomputable def soughtFor (senses : List Item) (m : Item) : Option (Item × Bool) :=
  match sought senses m with
  | some x => some (x, false)
  | none => if m.scalar?.isSome then (sought senses m.bare).map (·, true) else none

variable {senses senses' header : List Item} {leaves : List FromItem} {known : Item → Prop}
  {g : Registry} {m i : Item}

theorem sought_of_mem (h : m ∈ senses) : sought senses m = some m := by
  classical
  have hfound : senses.find? (fun x => decide (x = m)) = some m := by
    obtain ⟨x, hx⟩ : ∃ x, senses.find? (fun x => decide (x = m)) = some x := by
      rw [← Option.isSome_iff_exists, List.find?_isSome]
      exact ⟨m, h, by simp⟩
    obtain rfl : x = m := by simpa using List.find?_some hx
    exact hx
  unfold sought
  rw [hfound]
  rfl

open scoped Classical in
theorem sought_of_not_mem (h : m ∉ senses) :
    sought senses m = senses.find? fun x => decide (meaning false x = meaning false m) := by
  have hnone : senses.find? (fun x => decide (x = m)) = none := by
    rw [List.find?_eq_none]
    intro x hx heq
    exact h (of_decide_eq_true heq ▸ hx)
  unfold sought
  rw [hnone]
  rfl

theorem soughtFor_of_mem (h : m ∈ senses) : soughtFor senses m = some (m, false) := by
  unfold soughtFor
  rw [sought_of_mem h]

theorem sought_congr (h : SearchAlike senses senses') : sought senses = sought senses' := by
  funext m
  unfold sought
  rw [h, h]

theorem soughtFor_congr (h : SearchAlike senses senses') : soughtFor senses = soughtFor senses' := by
  funext m
  unfold soughtFor
  rw [sought_congr h]

/-- The sense of what a search by places finds stands at the place that it finds. -/
theorem exists_of_findIdx?_eq_some (leaves : List FromItem) {p : Item → Bool} {n : Nat}
    (h : header.findIdx? p = some n) :
    ∃ x ∈ header, p x = true ∧ (header.map (sense leaves))[n]? = some (sense leaves x) := by
  obtain ⟨hn, hp, -⟩ := List.findIdx?_eq_some_iff_getElem.mp h
  refine ⟨header[n], List.getElem_mem hn, hp, ?_⟩
  rw [List.getElem?_map, List.getElem?_eq_getElem hn]
  rfl

/-- What has the meaning of an item within its scope has its sense. -/
theorem some_sense_eq_sought {x : Item} (hx : x ∈ header) (h : meaning true x = meaning true i) :
    some (sense leaves x) = sought (header.map (sense leaves)) (sense leaves i) := by
  have hsense : sense leaves x = sense leaves i := Item.sense_congr h
  rw [hsense, sought_of_mem]
  exact hsense ▸ List.mem_map_of_mem hx

section Lookup

variable (hknown : IsVocabulary known) (hheader : ∀ x ∈ header, x.IsHeld leaves known g)
  (hi : i.IsAsked known g)

include hknown hheader hi

theorem sameAs_iff_of_mem (strict : Bool) {x : Item} (hx : x ∈ header) :
    Item.sameAs strict x i = true ↔ meaning strict x = meaning strict i :=
  Item.sameAs_iff_meaning hknown (hheader x hx).known hi.known strict

/-- A search in any scope, where nothing has the sense that it is for. -/
theorem findIdx?_bind_eq_of_not_mem (hmem : sense leaves i ∉ header.map (sense leaves)) :
    (header.findIdx? (Item.sameAs false · i)).bind (fun n => (header.map (sense leaves))[n]?) =
      sought (header.map (sense leaves)) (sense leaves i) := by
  classical
  have hsearch : header.find? ((fun x => decide (meaning false x = meaning false (sense leaves i))) ∘
      sense leaves) = header.find? (Item.sameAs false · i) := by
    refine List.find?_congr fun x hx => ?_
    rw [Function.comp, Item.meaning_false_sense, Item.meaning_false_sense, Bool.eq_iff_iff,
      decide_eq_true_iff]
    exact (sameAs_iff_of_mem hknown hheader hi false hx).symm
  rw [sought_of_not_mem hmem, List.find?_map, hsearch, List.find?_eq_bind_findIdx?_getElem?]
  cases header.findIdx? (Item.sameAs false · i) with
  | none => rfl
  | some n => exact List.getElem?_map

/-- A search in any scope, where something has the sense that it is for, though in another form. -/
theorem findIdx?_bind_eq_of_mem (hforms : ∀ x ∈ header, meaning true x ≠ meaning true i)
    (hmem : sense leaves i ∈ header.map (sense leaves)) :
    (header.findIdx? (Item.sameAs false · i)).bind (fun n => (header.map (sense leaves))[n]?) =
      sought (header.map (sense leaves)) (sense leaves i) := by
  obtain ⟨x, hx, hsense⟩ := List.mem_map.mp hmem
  have hloose {y : Item} (hy : y ∈ header) := sameAs_iff_of_mem hknown hheader hi false hy
  obtain ⟨n, hn⟩ : ∃ n, header.findIdx? (Item.sameAs false · i) = some n := by
    rw [← Option.isSome_iff_exists, List.findIdx?_isSome, List.any_eq_true]
    exact ⟨x, hx, (hloose hx).mpr (Item.meaning_false_of_sense hsense)⟩
  obtain ⟨y, hy, heq, hplaced⟩ := exists_of_findIdx?_eq_some leaves hn
  have hsame : sense leaves y = sense leaves x :=
    Item.sense_eq_of_isPlaced hsense (hforms x hx) (hheader y hy).placed ((hloose hy).mp heq)
  rw [hn, sought_of_mem hmem, Option.bind_some, hplaced, hsame, hsense]

/-- **A look-up ends at a cell of the sense that it is for**, or of the first that denotes the same in
any scope.  An item found by its identity or within its scope has the sense; one that is only found in
any scope has it too if anything there does. -/
theorem find?_bind_eq : (find? header i).bind (fun n => (header.map (sense leaves))[n]?) =
    sought (header.map (sense leaves)) (sense leaves i) := by
  unfold find?
  cases hid : header.findIdx? (fun c => c.id == i.id) with
  | some n =>
    obtain ⟨x, hx, heq, hn⟩ := exists_of_findIdx?_eq_some leaves hid
    show (header.map (sense leaves))[n]? = _
    rw [hn]
    exact some_sense_eq_sought hx ((hheader x hx).meaning_of_id hi (beq_iff_eq.mp heq))
  | none =>
    cases hstrict : header.findIdx? (Item.sameAs true · i) with
    | some n =>
      obtain ⟨x, hx, heq, hn⟩ := exists_of_findIdx?_eq_some leaves hstrict
      show (header.map (sense leaves))[n]? = _
      rw [hn]
      exact some_sense_eq_sought hx ((sameAs_iff_of_mem hknown hheader hi true hx).mp heq)
    | none =>
      have hforms : ∀ x ∈ header, meaning true x ≠ meaning true i := by
        intro x hx heq
        have hnot := List.findIdx?_eq_none_iff.mp hstrict x hx
        rw [(sameAs_iff_of_mem hknown hheader hi true hx).mpr heq] at hnot
        cases hnot
      by_cases hmem : sense leaves i ∈ header.map (sense leaves)
      · exact findIdx?_bind_eq_of_mem hknown hheader hi hforms hmem
      · exact findIdx?_bind_eq_of_not_mem hknown hheader hi hmem

/-- Whether an item is found is a matter of senses. -/
theorem find?_cases_sought :
    (find? header i = none ∧ sought (header.map (sense leaves)) (sense leaves i) = none) ∨
      ∃ n x, find? header i = some n ∧ (header.map (sense leaves))[n]? = some x ∧
        sought (header.map (sense leaves)) (sense leaves i) = some x := by
  have heq := find?_bind_eq hknown hheader hi
  cases hfind : find? header i with
  | none =>
    rw [hfind] at heq
    exact Or.inl ⟨rfl, heq.symm⟩
  | some n =>
    rw [hfind, Option.bind_some] at heq
    have hlt : n < (header.map (sense leaves)).length := by
      rw [List.length_map]
      exact find?_lt hfind
    refine Or.inr ⟨n, _, rfl, List.getElem?_eq_getElem hlt, ?_⟩
    rw [← heq, List.getElem?_eq_getElem hlt]

/-- The same for look-ups that may go on without a scalar function. -/
theorem resolve?_cases_sought :
    (resolve? header i = none ∧ soughtFor (header.map (sense leaves)) (sense leaves i) = none) ∨
      ∃ found x, resolve? header i = some found ∧
        (header.map (sense leaves))[found.index]? = some x ∧
        soughtFor (header.map (sense leaves)) (sense leaves i) = some (x, found.viaFunction) := by
  unfold resolve? soughtFor
  rcases find?_cases_sought hknown hheader hi with ⟨hnone, hsought⟩ | ⟨n, x, hn, hx, hsought⟩
  · rw [hnone, hsought, Item.scalar?_sense, ← Item.sense_bare]
    dsimp only
    split
    · rcases find?_cases_sought hknown hheader (hi.bare hknown) with ⟨hbare, hbare'⟩ | ⟨n, x, hn, hx, hbare⟩
      · rw [hbare, hbare']
        exact Or.inl ⟨rfl, rfl⟩
      · rw [hn, hbare]
        exact Or.inr ⟨_, x, rfl, hx, rfl⟩
    · exact Or.inl ⟨rfl, rfl⟩
  · rw [hn, hsought]
    exact Or.inr ⟨_, x, rfl, hx, rfl⟩

end Lookup

end Header

/-! ## Rows -/

namespace Row

open Item (meaning sense IsHeld IsAsked IsVocabulary)

/-- A row whose items have these senses, and whose cells have the values that go with them. -/
structure Shows (leaves : List FromItem) (known : Item → Prop) (g : Registry) (senses : List Item)
    (env : Item → Value) (r : Row) : Prop where
  held : ∀ x ∈ r.header, x.IsHeld leaves known g
  header : r.header.map (sense leaves) = senses
  values : r.values = senses.map env

/-- The value of what a look-up ends at, after the function that is still to be applied. -/
noncomputable def valueAmong (senses : List Item) (env : Item → Value) (m : Item) : Option Value :=
  (Header.soughtFor senses m).map fun (x, viaFunction) =>
    if viaFunction then applyScalar m (env x) else env x

/-- The value of an item of a sense: its own, or that of the item that it refers to. -/
noncomputable def valueFor (leaves : List FromItem) (senses : List Item) (env : Item → Value)
    (m : Item) : Option Value :=
  valueAmong senses env m <|> m.inner?.bind fun x => valueAmong senses env (sense leaves x)

variable {leaves : List FromItem} {known : Item → Prop} {g g' : Registry}
  {senses senses' header : List Item} {env : Item → Value} {r : Row} {m i : Item}

theorem Shows.mono (h : r.Shows leaves known g senses env) (hg : g'.Extends g) :
    r.Shows leaves known g' senses env :=
  ⟨fun x hx => (h.held x hx).mono hg, h.header, h.values⟩

theorem valueAmong_of_mem (h : m ∈ senses) : valueAmong senses env m = some (env m) := by
  unfold valueAmong
  rw [Header.soughtFor_of_mem h]
  rfl

theorem valueFor_of_mem (h : m ∈ senses) : valueFor leaves senses env m = some (env m) := by
  unfold valueFor
  rw [valueAmong_of_mem h]
  rfl

/-- **Headers in whose senses every search ends alike may be exchanged.** -/
theorem valueFor_congr (h : SearchAlike senses senses') :
    valueFor leaves senses = valueFor leaves senses' := by
  have hamong : valueAmong senses = valueAmong senses' := by
    funext env m
    unfold valueAmong
    rw [Header.soughtFor_congr h]
  funext env m
  unfold valueFor
  rw [hamong]

/-- Whether there is a value does not depend on the values that there are. -/
theorem isSome_valueFor (env env' : Item → Value) :
    (valueFor leaves senses env m).isSome = (valueFor leaves senses env' m).isSome := by
  have hamong (m : Item) :
      (valueAmong senses env m).isSome = (valueAmong senses env' m).isSome := by
    unfold valueAmong
    rw [Option.isSome_map, Option.isSome_map]
  have hor {a b c d : Option Value} (hac : a.isSome = c.isSome) (hbd : b.isSome = d.isSome) :
      (a <|> b).isSome = (c <|> d).isSome := by
    cases a <;> cases c <;> simp_all
  unfold valueFor
  refine hor (hamong m) ?_
  cases m.inner? with
  | none => rfl
  | some x => exact hamong _

/-- A cell has the value of its sense. -/
theorem Shows.value (h : r.Shows leaves known g senses env) {n : Nat} {x : Item}
    (hx : senses[n]? = some x) : r.value n = env x := by
  unfold Row.value
  rw [h.values, List.getElem?_map, hx]
  rfl

/-- An item computes what its sense does. -/
theorem applyScalar_sense (leaves : List FromItem) (i : Item) (v : Value) :
    applyScalar (sense leaves i) v = applyScalar i v :=
  applyScalar_congr (Item.meaning_false_sense leaves i) v

section Lookup

variable (hknown : IsVocabulary known) (h : r.Shows leaves known g senses env)

include hknown h

/-- What a row has at the place of an item, and after its function, if the item is located itself. -/
theorem Shows.resolved (hi : i.IsAsked known g) :
    (Header.resolve? r.header i).map (fun found =>
      if found.viaFunction then applyScalar i (r.value found.index) else r.value found.index) =
    valueAmong senses env (sense leaves i) := by
  unfold valueAmong
  rw [← h.header]
  rcases Header.resolve?_cases_sought hknown h.held hi with
    ⟨hnone, hsought⟩ | ⟨found, x, hfound, hx, hsought⟩
  · rw [hnone, hsought]
    rfl
  · have hvalue : r.value found.index = env x := h.value (h.header ▸ hx)
    rw [hfound, hsought]
    simp only [Option.map_some, hvalue, applyScalar_sense]

/-- **The value of an item is that of its sense.** -/
theorem Shows.evaluate? (hi : i.IsAsked known g) :
    r.evaluate? i = valueFor leaves senses env (sense leaves i) := by
  have hown := h.resolved hknown hi
  unfold Row.evaluate? Row.locate? valueFor
  rw [Item.inner?_sense]
  cases hresolve : Header.resolve? r.header i with
  | some found =>
    rw [hresolve] at hown
    rw [← hown]
    rfl
  | none =>
    rw [hresolve] at hown
    rw [← hown]
    cases hinner : i.inner? with
    | none => rfl
    | some x =>
      have hrest := h.resolved hknown (hi.of_inner hknown hinner)
      simp only [Option.map_some, Option.bind_some, Option.map_none, Item.sense_meaning]
      rw [← hrest]
      cases Header.resolve? r.header x <;> rfl

end Lookup

end Row

/-- Whether an item is readable is a matter of senses. -/
theorem Header.isReadable_eq {leaves : List FromItem} {known : Item → Prop} {g : Registry}
    {header : List Item} {i : Item} (hknown : Item.IsVocabulary known)
    (hheader : ∀ x ∈ header, x.IsHeld leaves known g) (hi : i.IsAsked known g)
    (env : Item → Value) : isReadable header i =
      (Row.valueFor leaves (header.map (Item.sense leaves)) env (Item.sense leaves i)).isSome := by
  let r : Row := { header := header, values := (header.map (Item.sense leaves)).map env }
  have hshows : r.Shows leaves known g (header.map (Item.sense leaves)) env := ⟨hheader, rfl, rfl⟩
  rw [← hshows.evaluate? hknown hi, Row.isSome_evaluate?_iff]

end DocQuery
