import DocQuery.Proofs.Results
import DocQuery.Proofs.Rows.Columns
import DocQuery.Proofs.Rows.Views

/-!
# DocQuery.Proofs.Rows.Counterparts — rows of two runs that show the same

Two runs may ask for the same in different forms and under different identities.  Items of the two are
counterparts if they have one sense over the from items of the query, headers share their senses if
every search among these ends alike, and rows are counterparts if each sense has one value in both.
Then items that are asked for alike have one value (`Row.Counterparts.evaluate?_eq`), and filters with
such items at each place say the same (`Row.Counterparts.allAccept`).
-/

namespace DocQuery

/-- Two runs: what the items of both may denote in any scope, and what the identities of each were drawn
for. -/
structure Runs where
  known : Item → Prop
  left : Registry
  right : Registry

namespace Runs

/-- The two runs at a later time. -/
structure Extends (σ ρ : Runs) : Prop where
  known : σ.known = ρ.known
  left : σ.left.Extends ρ.left
  right : σ.right.Extends ρ.right

variable {ρ σ τ : Runs}

theorem Extends.refl (ρ : Runs) : ρ.Extends ρ := ⟨rfl, .refl _, .refl _⟩

theorem Extends.trans (h : τ.Extends σ) (h' : σ.Extends ρ) : τ.Extends ρ :=
  ⟨h.known.trans h'.known, h.left.trans h'.left, h.right.trans h'.right⟩

theorem Extends.vocabulary (h : σ.Extends ρ) (hρ : Item.IsVocabulary ρ.known) :
    Item.IsVocabulary σ.known := by
  rw [h.known]
  exact hρ

end Runs

/-! ## Items -/

namespace Item

/-- Items of two runs that may be asked for alike. -/
structure AskedAlike (ρ : Runs) (leaves : List FromItem) (i i' : Item) : Prop where
  left : i.IsAsked ρ.known ρ.left
  right : i'.IsAsked ρ.known ρ.right
  sense : sense leaves i = sense leaves i'

/-- Items of two runs that rows may hold, with one sense. -/
structure Counterparts (ρ : Runs) (leaves : List FromItem) (i i' : Item) : Prop where
  left : i.IsHeld leaves ρ.known ρ.left
  right : i'.IsHeld leaves ρ.known ρ.right
  sense : sense leaves i = sense leaves i'

/-- Items of two runs that are counterparts place by place. -/
abbrev AllCounterparts (ρ : Runs) (leaves : List FromItem) : List Item → List Item → Prop :=
  List.Forall₂ (Counterparts ρ leaves)

/-- Items of two runs that rows may hold, among whose senses every search ends alike. -/
structure ShareSenses (ρ : Runs) (leaves : List FromItem) (l l' : List Item) : Prop where
  left : ∀ x ∈ l, x.IsHeld leaves ρ.known ρ.left
  right : ∀ x ∈ l', x.IsHeld leaves ρ.known ρ.right
  senses : SearchAlike (l.map (sense leaves)) (l'.map (sense leaves))

variable {ρ σ : Runs} {leaves : List FromItem} {i i' : Item} {l l' more more' : List Item}

theorem Counterparts.asked (h : Counterparts ρ leaves i i') : AskedAlike ρ leaves i i' :=
  ⟨h.left.asked, h.right.asked, h.sense⟩

theorem IsHeld.extends {g g' : Registry} {known : Item → Prop} (h : i.IsHeld leaves known g)
    (hg : g'.Extends g) {known' : Item → Prop} (hknown : known' = known) :
    i.IsHeld leaves known' g' := by
  rw [hknown]
  exact h.mono hg

theorem Counterparts.mono (h : Counterparts ρ leaves i i') (hσ : σ.Extends ρ) :
    Counterparts σ leaves i i' :=
  ⟨h.left.extends hσ.left hσ.known, h.right.extends hσ.right hσ.known, h.sense⟩

/-- What counterparts read without their functions may be asked for alike. -/
theorem AskedAlike.bare (hρ : IsVocabulary ρ.known) (h : AskedAlike ρ leaves i i') :
    AskedAlike ρ leaves i.bare i'.bare :=
  ⟨h.left.bare hρ, h.right.bare hρ, by rw [sense_bare, sense_bare, h.sense]⟩

theorem AllCounterparts.mono (h : AllCounterparts ρ leaves l l') (hσ : σ.Extends ρ) :
    AllCounterparts σ leaves l l' := h.imp fun _ _ hi => hi.mono hσ

theorem AllCounterparts.senses (h : AllCounterparts ρ leaves l l') :
    l.map (Item.sense leaves) = l'.map (Item.sense leaves) := by
  induction h with
  | nil => rfl
  | cons hi _ ih => rw [List.map_cons, List.map_cons, hi.sense, ih]

theorem AllCounterparts.shareSenses (h : AllCounterparts ρ leaves l l') :
    ShareSenses ρ leaves l l' where
  left := fun x hx => by
    obtain ⟨_, _, hi⟩ := exists_of_mem_forall₂ h hx
    exact hi.left
  right := fun x hx => by
    obtain ⟨_, _, hi⟩ := exists_of_mem_forall₂ h.flip hx
    exact hi.right
  senses := h.senses ▸ SearchAlike.refl _

namespace ShareSenses

theorem mono (h : ShareSenses ρ leaves l l') (hσ : σ.Extends ρ) : ShareSenses σ leaves l l' :=
  ⟨fun x hx => (h.left x hx).extends hσ.left hσ.known,
    fun x hx => (h.right x hx).extends hσ.right hσ.known, h.senses⟩

theorem nil : ShareSenses ρ leaves [] [] := AllCounterparts.shareSenses .nil

theorem append (h : ShareSenses ρ leaves l l') (hmore : ShareSenses ρ leaves more more') :
    ShareSenses ρ leaves (l ++ more) (l' ++ more') where
  left := List.forall_mem_append.mpr ⟨h.left, hmore.left⟩
  right := List.forall_mem_append.mpr ⟨h.right, hmore.right⟩
  senses := by
    rw [List.map_append, List.map_append]
    exact h.senses.append hmore.senses

/-- The items that pass a test of their senses. -/
theorem filter (h : ShareSenses ρ leaves l l') {p : Item → Bool}
    (hp : ∀ x, p (sense leaves x) = p x) : ShareSenses ρ leaves (l.filter p) (l'.filter p) where
  left := fun x hx => h.left x (List.mem_filter.mp hx).1
  right := fun x hx => h.right x (List.mem_filter.mp hx).1
  senses := by
    have hsenses (k : List Item) :
        (k.filter p).map (sense leaves) = (k.map (sense leaves)).filter p := by
      rw [List.filter_map]
      exact congrArg _ (List.filter_congr fun x _ => (hp x).symm)
    rw [hsenses, hsenses]
    exact h.senses.filter p

/-- Further items, without those that denote the same as one that is there. -/
theorem foldl_pushNew (hρ : IsVocabulary ρ.known) (h : ShareSenses ρ leaves l l')
    (hmore : ShareSenses ρ leaves more more') :
    ShareSenses ρ leaves (more.foldl pushNew l) (more'.foldl pushNew l') := by
  have happended := h.append hmore
  have hheld {k more : List Item} {i : Item} (hi : i ∈ more.foldl pushNew k) : i ∈ k ++ more :=
    List.mem_append.mpr (mem_of_mem_foldl_pushNew hi)
  have hsame {g : Registry} {k more : List Item}
      (hk : ∀ x ∈ k ++ more, x.IsHeld leaves ρ.known g) :
      SearchAlike ((more.foldl pushNew k).map (sense leaves)) ((k ++ more).map (sense leaves)) := by
    refine SearchAlike.foldl_addNew k more fun a ha b hb heq => sense_congr ?_
    exact (sameAs_iff_meaning hρ (hk a ha).known (hk b (List.mem_append_right _ hb)).known true).mp heq
  refine ⟨fun x hx => happended.left x (hheld hx), fun x hx => happended.right x (hheld hx), ?_⟩
  exact ((hsame happended.left).trans happended.senses).trans (hsame happended.right).symm

theorem symm_mem (h : ShareSenses ρ leaves l l') (hi : i' ∈ l') :
    ∃ i ∈ l, Counterparts ρ leaves i i' := by
  obtain ⟨i, hmem, hsense⟩ :=
    List.mem_map.mp ((h.senses.mem_iff _).mpr (List.mem_map_of_mem (f := sense leaves) hi))
  exact ⟨i, hmem, h.left i hmem, h.right i' hi, hsense⟩

theorem mem (h : ShareSenses ρ leaves l l') (hi : i ∈ l) : ∃ i' ∈ l', Counterparts ρ leaves i i' := by
  obtain ⟨i', hmem, hsense⟩ :=
    List.mem_map.mp ((h.senses.mem_iff _).mp (List.mem_map_of_mem (f := sense leaves) hi))
  exact ⟨i', hmem, h.left i hi, h.right i' hmem, hsense.symm⟩

/-- What is asked of all items of both runs has one answer, if counterparts have. -/
theorem all_eq (h : ShareSenses ρ leaves l l') {p p' : Item → Bool}
    (hp : ∀ i i', Counterparts ρ leaves i i' → p i = p' i') : l.all p = l'.all p' := by
  rw [Bool.eq_iff_iff, List.all_eq_true, List.all_eq_true]
  constructor
  · intro hall i' hi'
    obtain ⟨i, hi, hpair⟩ := h.symm_mem hi'
    rw [← hp i i' hpair]
    exact hall i hi
  · intro hall i hi
    obtain ⟨i', hi', hpair⟩ := h.mem hi
    rw [hp i i' hpair]
    exact hall i' hi'

theorem isEmpty_eq (h : ShareSenses ρ leaves l l') : l.isEmpty = l'.isEmpty := by
  have hsense : (l.all fun _ => false) = l'.all fun _ => false := h.all_eq fun _ _ _ => rfl
  cases l <;> cases l' <;> simp_all

end ShareSenses

end Item

/-! ## Filters -/

/-- Operands with items of two runs that are related. -/
inductive Operand.Paired (R : Item → Item → Prop) : Operand → Operand → Prop
  | value (v : Value) : Paired R (.value v) (.value v)
  | list (vs : List Value) : Paired R (.list vs) (.list vs)
  | item {i i' : Item} (h : R i i') : Paired R (.item i) (.item i')
  | parameter (index : Nat) : Paired R (.parameter index) (.parameter index)

namespace Filter

mutual

/-- Filters of one form, with related items at each place. -/
def Paired (R : Item → Item → Prop) : Filter → Filter → Prop
  | .comparison i op x, .comparison i' op' x' => R i i' ∧ op = op' ∧ Operand.Paired R x x'
  | .group op fs, .group op' fs' => op = op' ∧ AllPaired R fs fs'
  | _, _ => False

/-- Filters that are paired place by place. -/
def AllPaired (R : Item → Item → Prop) : List Filter → List Filter → Prop
  | [], [] => True
  | f :: fs, f' :: fs' => Paired R f f' ∧ AllPaired R fs fs'
  | _, _ => False

end

variable {R : Item → Item → Prop} {filters filters' : List Filter}

theorem allPaired_iff : AllPaired R filters filters' ↔ List.Forall₂ (Paired R) filters filters' := by
  induction filters generalizing filters' with
  | nil => cases filters' <;> simp [AllPaired]
  | cons f fs ih => cases filters' <;> simp [AllPaired, ih]

theorem comparisonItems_paired {i i' : Item} {x x' : Operand} (hi : R i i')
    (hx : Operand.Paired R x x') :
    List.Forall₂ R (comparisonItems i x) (comparisonItems i' x') := by
  cases hx with
  | item h => exact .cons hi (.cons h .nil)
  | value | list | parameter => exact .cons hi .nil

mutual

theorem Paired.items : (f f' : Filter) → Paired R f f' → List.Forall₂ R f.items f'.items
  | .comparison _ _ _, .comparison _ _ _, h => comparisonItems_paired h.1 h.2.2
  | .comparison _ _ _, .group _ _, h => h.elim
  | .group _ _, .comparison _ _ _, h => h.elim
  | .group _ fs, .group _ fs', h => AllPaired.itemsOf fs fs' h.2

theorem AllPaired.itemsOf : (fs fs' : List Filter) → AllPaired R fs fs' →
    List.Forall₂ R (itemsOf fs) (itemsOf fs')
  | [], [], _ => .nil
  | [], _ :: _, h => h.elim
  | _ :: _, [], h => h.elim
  | f :: fs, f' :: fs', h =>
    List.rel_append (Paired.items f f' h.1) (AllPaired.itemsOf fs fs' h.2)

end

mutual

theorem Paired.mono {R' : Item → Item → Prop} (hR : ∀ i i', R i i' → R' i i') :
    (f f' : Filter) → Paired R f f' → Paired R' f f'
  | .comparison _ _ _, .comparison _ _ _, ⟨hi, hop, hx⟩ => ⟨hR _ _ hi, hop, by
    cases hx with
    | item h => exact .item (hR _ _ h)
    | value v => exact .value v
    | list vs => exact .list vs
    | parameter n => exact .parameter n⟩
  | .comparison _ _ _, .group _ _, h => h.elim
  | .group _ _, .comparison _ _ _, h => h.elim
  | .group _ fs, .group _ fs', ⟨hop, h⟩ => ⟨hop, AllPaired.mono hR fs fs' h⟩

theorem AllPaired.mono {R' : Item → Item → Prop} (hR : ∀ i i', R i i' → R' i i') :
    (fs fs' : List Filter) → AllPaired R fs fs' → AllPaired R' fs fs'
  | [], [], _ => trivial
  | [], _ :: _, h => h.elim
  | _ :: _, [], h => h.elim
  | f :: fs, f' :: fs', ⟨hf, h⟩ => ⟨Paired.mono hR f f' hf, AllPaired.mono hR fs fs' h⟩

end

/-! ### What paired filters say -/

section Values

variable {r r' : Row} (heval : ∀ i i', R i i' → r.evaluate? i = r'.evaluate? i')

include heval

theorem itemValue_paired {i i' : Item} (h : R i i') :
    Alongside Eq (itemValue r i) (itemValue r' i') := by
  unfold itemValue
  rw [heval i i' h]
  cases r'.evaluate? i' with
  | some v => exact .ok rfl
  | none => exact .error _ _

theorem comparisonAccepts_paired {i i' : Item} (hi : R i i') (op : Comparison) {x x' : Operand}
    (hx : Operand.Paired R x x') :
    Alongside Eq (comparisonAccepts r i op x) (comparisonAccepts r' i' op x') := by
  unfold comparisonAccepts
  refine (itemValue_paired heval hi).bind ?_
  rintro v _ rfl
  cases hx with
  | item h =>
    refine (itemValue_paired heval h).bind ?_
    rintro w _ rfl
    exact .ok rfl
  | value | list => exact .ok rfl
  | parameter => exact .error _ _

end Values

mutual

/-- **Filters with items of one value at each place say the same**, or both fail. -/
theorem Paired.accepts {r r' : Row} (heval : ∀ i i', R i i' → r.evaluate? i = r'.evaluate? i') :
    (f f' : Filter) → Paired R f f' → Alongside Eq (Filter.accepts r f) (Filter.accepts r' f')
  | .comparison _ _ _, .comparison _ _ _, h => by
    obtain ⟨hi, rfl, hx⟩ := h
    exact comparisonAccepts_paired heval hi _ hx
  | .comparison _ _ _, .group _ _, h => h.elim
  | .group _ _, .comparison _ _ _, h => h.elim
  | .group .and fs, .group _ fs', h => by
    obtain ⟨rfl, hfs⟩ := h
    exact AllPaired.allAccept heval fs fs' hfs
  | .group .or fs, .group _ fs', h => by
    obtain ⟨rfl, hfs⟩ := h
    have hempty : fs.isEmpty = fs'.isEmpty := by
      cases fs <;> cases fs' <;> first | rfl | exact hfs.elim
    rw [Filter.accepts, Filter.accepts, hempty]
    split
    · exact .ok rfl
    · exact AllPaired.anyAccepts heval fs fs' hfs

theorem AllPaired.allAccept {r r' : Row} (heval : ∀ i i', R i i' → r.evaluate? i = r'.evaluate? i') :
    (fs fs' : List Filter) → AllPaired R fs fs' → Alongside Eq (Filter.allAccept r fs) (Filter.allAccept r' fs')
  | [], [], _ => .ok rfl
  | [], _ :: _, h => h.elim
  | _ :: _, [], h => h.elim
  | f :: fs, f' :: fs', h => by
    refine (Paired.accepts heval f f' h.1).bind ?_
    rintro b _ rfl
    cases b with
    | true => exact AllPaired.allAccept heval fs fs' h.2
    | false => exact .ok rfl

theorem AllPaired.anyAccepts {r r' : Row} (heval : ∀ i i', R i i' → r.evaluate? i = r'.evaluate? i') :
    (fs fs' : List Filter) → AllPaired R fs fs' → Alongside Eq (Filter.anyAccepts r fs) (Filter.anyAccepts r' fs')
  | [], [], _ => .ok rfl
  | [], _ :: _, h => h.elim
  | _ :: _, [], h => h.elim
  | f :: fs, f' :: fs', h => by
    refine (Paired.accepts heval f f' h.1).bind ?_
    rintro b _ rfl
    cases b with
    | true => exact .ok rfl
    | false => exact AllPaired.anyAccepts heval fs fs' h.2

end

end Filter

/-! ## Rows -/

open Item (sense IsVocabulary AskedAlike ShareSenses)

/-- Rows of two runs in which each sense of two headers has one value. -/
def Row.Counterparts (ρ : Runs) (leaves : List FromItem) (header header' : List Item)
    (r r' : Row) : Prop :=
  ∃ env, r.Shows leaves ρ.known ρ.left (header.map (sense leaves)) env ∧
    r'.Shows leaves ρ.known ρ.right (header'.map (sense leaves)) env

section Rows

variable {ρ σ : Runs} {leaves : List FromItem} {header header' : List Item} {r r' : Row} {i i' : Item}

theorem Row.Counterparts.mono (h : Row.Counterparts ρ leaves header header' r r') (hσ : σ.Extends ρ) :
    Row.Counterparts σ leaves header header' r r' := by
  obtain ⟨env, hleft, hright⟩ := h
  refine ⟨env, ?_, ?_⟩ <;> rw [hσ.known]
  · exact hleft.mono hσ.left
  · exact hright.mono hσ.right

/-- **Items that are asked for alike have one value in counterparts.** -/
theorem Row.Counterparts.evaluate?_eq (hρ : IsVocabulary ρ.known)
    (hheader : ShareSenses ρ leaves header header')
    (h : Row.Counterparts ρ leaves header header' r r') (hi : AskedAlike ρ leaves i i') :
    r.evaluate? i = r'.evaluate? i' := by
  obtain ⟨env, hleft, hright⟩ := h
  rw [hleft.evaluate? hρ hi.left, hright.evaluate? hρ hi.right, hi.sense,
    valueFor_congr hheader.senses]

/-- Items that are asked for alike are readable in both runs or in neither. -/
theorem Header.isReadable_counterparts (hρ : IsVocabulary ρ.known)
    (hheader : ShareSenses ρ leaves header header') (hi : AskedAlike ρ leaves i i') :
    isReadable header i = isReadable header' i' := by
  rw [isReadable_eq hρ hheader.left hi.left fun _ => .null,
    isReadable_eq hρ hheader.right hi.right fun _ => .null, hi.sense,
    Row.valueFor_congr hheader.senses]

/-- Filters with counterparts at each place say the same of counterparts. -/
theorem Row.Counterparts.allAccept (hρ : IsVocabulary ρ.known)
    (hheader : ShareSenses ρ leaves header header')
    (h : Row.Counterparts ρ leaves header header' r r') {filters filters' : List Filter}
    (hfilters : Filter.AllPaired (Item.Counterparts ρ leaves) filters filters') :
    Alongside Eq (Filter.allAccept r filters) (Filter.allAccept r' filters') :=
  Filter.AllPaired.allAccept (fun _ _ hi => h.evaluate?_eq hρ hheader hi.asked) _ _ hfilters

end Rows

/-! ## Cells -/

/-- No sense stands among both. -/
def Item.Apart (leaves : List FromItem) (items more : List Item) : Prop :=
  ∀ x ∈ items, ∀ y ∈ more, sense leaves x ≠ sense leaves y

namespace Row

/-- Values that go with items of two runs: one for each sense. -/
def CellsAlike (leaves : List FromItem) (items items' : List Item) (values values' : List Value) :
    Prop :=
  ∃ env, values = (items.map (sense leaves)).map env ∧ values' = (items'.map (sense leaves)).map env

variable {ρ : Runs} {leaves : List FromItem} {header header' items items' : List Item}
  {values values' more more' : List Value} {r r' : Row}

theorem Counterparts.cells (h : Counterparts ρ leaves header header' r r') :
    CellsAlike leaves header header' r.values r'.values := by
  obtain ⟨env, hr, hr'⟩ := h
  exact ⟨env, hr.values, hr'.values⟩

/-- Rows with items and values that go together. -/
theorem counterparts_of_cells (hheader : ShareSenses ρ leaves header header')
    (h : CellsAlike leaves header header' values values') (styles styles' : Option (List (Option Style))) :
    Counterparts ρ leaves header header' ⟨header, values, styles⟩ ⟨header', values', styles'⟩ := by
  obtain ⟨env, hvalues, hvalues'⟩ := h
  exact ⟨env, ⟨hheader.left, rfl, hvalues⟩, ⟨hheader.right, rfl, hvalues'⟩⟩

theorem cellsAlike_nulls (leaves : List FromItem) (items items' : List Item) :
    CellsAlike leaves items items' (List.replicate items.length .null)
      (List.replicate items'.length .null) :=
  ⟨fun _ => .null, by rw [List.map_map]; exact List.map_const'.symm,
    by rw [List.map_map]; exact List.map_const'.symm⟩

open scoped Classical in
/-- Values for all items, which counterparts have in common. -/
theorem cellsAlike_map (hitems : ShareSenses ρ leaves items items') {f f' : Item → Value}
    (hf : ∀ i ∈ items, ∀ i' ∈ items', Item.Counterparts ρ leaves i i' → f i = f' i') :
    CellsAlike leaves items items' (items.map f) (items'.map f') := by
  have hpair {i i' : Item} (hi : i ∈ items) (hi' : i' ∈ items')
      (h : sense leaves i' = sense leaves i) : f i = f' i' :=
    hf i hi i' hi' ⟨hitems.left i hi, hitems.right i' hi', h.symm⟩
  let env := fun m => if h : ∃ i' ∈ items', sense leaves i' = m then f' h.choose else .null
  have henv {i : Item} (hi : i ∈ items) : f i = env (sense leaves i) := by
    obtain ⟨i', hi', h⟩ := hitems.mem hi
    have hex : ∃ i' ∈ items', sense leaves i' = sense leaves i := ⟨i', hi', h.sense.symm⟩
    show f i = dite _ _ _
    rw [dif_pos hex]
    exact hpair hi hex.choose_spec.1 hex.choose_spec.2
  refine ⟨env, ?_, ?_⟩ <;> rw [List.map_map]
  · exact List.map_congr_left fun i hi => henv hi
  · refine List.map_congr_left fun i' hi' => ?_
    obtain ⟨i, hi, h⟩ := hitems.symm_mem hi'
    rw [Function.comp, ← h.sense, ← henv hi, hpair hi hi' h.sense.symm]

open scoped Classical in
/-- Any values for items of different senses. -/
theorem cellsAlike_of_nodup (hitems : Item.AllCounterparts ρ leaves items items')
    (hnodup : (items.map (sense leaves)).Nodup) (hlength : values.length = items.length) :
    CellsAlike leaves items items' values values := by
  have hexists {senses : List Item} (hsenses : senses.Nodup) {values : List Value}
      (hlength : values.length = senses.length) : ∃ env, values = senses.map env := by
    induction senses generalizing values with
    | nil => exact ⟨fun _ => .null, List.length_eq_zero_iff.mp hlength⟩
    | cons m rest ih =>
      cases values with
      | nil => cases hlength
      | cons v more =>
        rw [List.nodup_cons] at hsenses
        obtain ⟨env, rfl⟩ := ih hsenses.2 (Nat.succ.inj hlength)
        refine ⟨Function.update env m v, ?_⟩
        rw [List.map_cons, Function.update_self]
        refine congrArg (v :: ·) (List.map_congr_left fun x hx => ?_)
        exact (Function.update_of_ne (fun heq : x = m => hsenses.1 (heq ▸ hx)) v env).symm
  obtain ⟨env, henv⟩ := hexists hnodup (hlength.trans (List.length_map _).symm)
  exact ⟨env, henv, henv.trans (by rw [hitems.senses])⟩

open scoped Classical in
/-- Values side by side. -/
theorem CellsAlike.append (h : CellsAlike leaves header header' values values')
    (hheader : ShareSenses ρ leaves header header') (hitems : ShareSenses ρ leaves items items')
    (hapart : Item.Apart leaves header items) (hmore : CellsAlike leaves items items' more more') :
    CellsAlike leaves (header ++ items) (header' ++ items') (values ++ more) (values' ++ more') := by
  obtain ⟨env, rfl, rfl⟩ := h
  obtain ⟨beside, rfl, rfl⟩ := hmore
  -- A sense has the value of the side that it stands on.
  let both := fun m => if m ∈ items.map (sense leaves) then beside m else env m
  have hbeside {k : List Item} (hk : ∀ m ∈ k.map (sense leaves), m ∈ items.map (sense leaves)) :
      (k.map (sense leaves)).map beside = (k.map (sense leaves)).map both :=
    List.map_congr_left fun m hm => (if_pos (hk m hm)).symm
  have henv {k : List Item} (hk : ∀ m ∈ k.map (sense leaves), m ∈ header.map (sense leaves)) :
      (k.map (sense leaves)).map env = (k.map (sense leaves)).map both := by
    refine List.map_congr_left fun m hm => (if_neg fun hitem => ?_).symm
    obtain ⟨x, hx, rfl⟩ := List.mem_map.mp (hk m hm)
    obtain ⟨y, hy, hsense⟩ := List.mem_map.mp hitem
    exact hapart x hx y hy hsense.symm
  refine ⟨both, ?_, ?_⟩ <;> rw [List.map_append, List.map_append]
  · rw [henv fun _ hm => hm, hbeside fun _ hm => hm]
  · rw [henv fun m hm => (hheader.senses.mem_iff m).mpr hm,
      hbeside fun m hm => (hitems.senses.mem_iff m).mpr hm]

end Row

end DocQuery
