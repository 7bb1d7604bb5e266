import DocQuery.Proofs.Rows.Counterparts
import DocQuery.Proofs.Rows.Operators
import DocQuery.Proofs.Rows.Showing

/-!
# DocQuery.Proofs.Rows.Following — plans that follow one another

A plan follows another one if it succeeds wherever the other one does, with a result that is related to
the other's (`Plan.Follows`).  Data sets of two runs are counterparts if their headers share their
senses and their rows are counterparts one by one (`RowSet.Counterparts`).  Filtering, cutting out
windows, selecting and ordering keep them so.

Rows that are put side by side show what both show, as long as no sense stands on both sides
(`Item.Apart`).  So joins and products of counterparts are counterparts: the nested loop pairs the same
rows in both runs, and a product applies each filter at the same stage.
-/

namespace DocQuery

open Item (sense IsVocabulary AskedAlike ShareSenses AllCounterparts)

namespace Plan

variable {α β γ δ : Type} {ρ σ : Runs} {R : Runs → α → β → Prop} {S : Runs → γ → δ → Prop}
  {p : Plan α} {p' : Plan β}

/-! ## Plans that follow -/

/-- From ledgers behind the identities of two runs: if the first plan succeeds, the second one does, with
a related result. -/
def Follows (ρ : Runs) (R : Runs → α → β → Prop) (p : Plan α) (p' : Plan β) : Prop :=
  ∀ l l' a k, ρ.left.next ≤ l.nextItem → ρ.right.next ≤ l'.nextItem → p.run l = (.ok a, k) →
    p'.Gives l' fun b k' => ∃ σ : Runs, σ.Extends ρ ∧
      (σ.left.next ≤ k.nextItem ∧ σ.right.next ≤ k'.nextItem) ∧ R σ a b

theorem follows_pure {a : α} {b : β} (h : R ρ a b) : Follows ρ R (pure a) (pure b) := by
  intro l l' _ k hl hl' hrun
  cases hrun
  exact gives_pure ⟨ρ, .refl ρ, ⟨hl, hl'⟩, h⟩

/-- Nothing is asked of a plan that follows one that fails. -/
theorem follows_of_failure (h : ∀ l a k, p.run l ≠ (.ok a, k)) : Follows ρ R p p' :=
  fun l _ a k _ _ hrun => absurd hrun (h l a k)

theorem Follows.mono {R' : Runs → α → β → Prop} (h : Follows ρ R p p')
    (hR : ∀ σ, σ.Extends ρ → ∀ a b, R σ a b → R' σ a b) : Follows ρ R' p p' :=
  fun l l' a k hl hl' hrun => (h l l' a k hl hl' hrun).mono fun b _ ⟨σ, hσ, hnext, hab⟩ =>
    ⟨σ, hσ, hnext, hR σ hσ a b hab⟩

theorem Follows.bind {f : α → Plan γ} {f' : β → Plan δ} (h : Follows ρ R p p')
    (hf : ∀ σ, σ.Extends ρ → ∀ a b, R σ a b → Follows σ S (f a) (f' b)) :
    Follows ρ S (p >>= f) (p' >>= f') := by
  intro l l' c k hl hl' hrun
  obtain ⟨a, middle, hp, hrest⟩ := run_bind_eq_ok hrun
  refine gives_bind ((h l l' a middle hl hl' hp).mono fun b middle' ⟨σ, hσ, hnext, hab⟩ => ?_)
  refine (hf σ hσ a b hab middle middle' c k hnext.1 hnext.2 hrest).mono ?_
  exact fun d _ ⟨τ, hτ, hlast, hcd⟩ => ⟨τ, hτ.trans hσ, hlast, hcd⟩

theorem Follows.orElseClosing {cleanup cleanup' : Plan Unit} (h : Follows ρ R p p') :
    Follows ρ R (p.orElseClosing cleanup) (p'.orElseClosing cleanup') :=
  fun l l' a k hl hl' hrun => gives_orElseClosing (h l l' a k hl hl' (run_of_orElseClosing hrun))

theorem follows_lift {x : Except QueryError α} {y : Except QueryError β}
    (h : ∀ a, x = .ok a → ∃ b, y = .ok b ∧ R ρ a b) : Follows ρ R (liftM x) (liftM y) := by
  intro l l' a k hl hl' hrun
  cases x with
  | error e => cases hrun
  | ok a' =>
    cases hrun
    obtain ⟨b, hb, hab⟩ := h a rfl
    exact gives_lift hb ⟨ρ, .refl ρ, ⟨hl, hl'⟩, hab⟩

theorem IsQuiet.follows {p p' : Plan Unit} (hp : IsQuiet p) (hp' : IsQuiet p') :
    Follows ρ (fun _ _ _ => True) p p' := by
  intro l l' _ k hl hl' hrun
  have hk : k.nextItem = l.nextItem := (hp l).of_run hrun
  refine (hp' l').mono fun _ k' hk' => ⟨ρ, .refl ρ, ⟨?_, ?_⟩, trivial⟩
  · rwa [hk]
  · rwa [hk']

theorem follows_note (r r' : Request) : Follows ρ (fun _ _ _ => True) (note r) (note r') := by
  intro l l' _ k hl hl' hrun
  cases hrun
  exact gives_modifyGet ⟨ρ, .refl ρ, ⟨hl, hl'⟩, trivial⟩

/-! ## Plans that always succeed -/

/-- From every ledger behind the identities of a registry the plan succeeds, and its result has the
property in some later registry. -/
def Makes (g : Registry) (p : Plan α) (post : Registry → α → Prop) : Prop :=
  ∀ l, g.next ≤ l.nextItem → p.Gives l fun a k =>
    ∃ g' : Registry, g'.Extends g ∧ g'.next ≤ k.nextItem ∧ post g' a

variable {g : Registry} {post : Registry → α → Prop}

theorem makes_pure {a : α} (h : post g a) : Makes g (pure a) post :=
  fun _ hl => gives_pure ⟨g, .refl g, hl, h⟩

theorem Makes.mono {weaker : Registry → α → Prop} (h : Makes g p post)
    (hpost : ∀ g' a, g'.Extends g → post g' a → weaker g' a) : Makes g p weaker :=
  fun l hl => (h l hl).mono fun a _ ⟨g', hg, hnext, ha⟩ => ⟨g', hg, hnext, hpost g' a hg ha⟩

theorem Makes.bind {f : α → Plan γ} {next : Registry → γ → Prop} (h : Makes g p post)
    (hf : ∀ g' a, g'.Extends g → post g' a → Makes g' (f a) next) : Makes g (p >>= f) next := by
  refine fun l hl => gives_bind ((h l hl).mono fun a k ⟨g', hg, hnext, ha⟩ => ?_)
  refine (hf g' a hg ha k hnext).mono fun c _ ⟨g'', hg', hnext', hc⟩ => ?_
  exact ⟨g'', hg'.trans hg, hnext', hc⟩

theorem makes_mapM {T : γ → Prop} {post : Registry → γ → α → Prop} {f : γ → Plan α} {cs : List γ}
    (hcs : ∀ c ∈ cs, T c)
    (hpost : ∀ g' g'' c a, g''.Extends g' → post g' c a → post g'' c a)
    (hf : ∀ g' c, g'.Extends g → T c → Makes g' (f c) fun g'' a => post g'' c a) :
    Makes g (cs.mapM f) fun g' as => List.Forall₂ (post g') cs as := by
  induction cs generalizing g with
  | nil => exact makes_pure .nil
  | cons c rest ih =>
    rw [List.forall_mem_cons] at hcs
    rw [List.mapM_cons]
    refine (hf g c (.refl g) hcs.1).bind fun g' a hg ha => ?_
    refine (ih hcs.2 fun g'' c hg' => hf g'' c (hg'.trans hg)).bind fun g'' as hg' has => ?_
    exact makes_pure (.cons (hpost g' g'' c a hg' ha) has)

/-- An item under the next identity is listed, if what it refers to is. -/
theorem makes_item {make : Nat → Item} (hid : ∀ n, (make n).id = n)
    (hinner : ∀ n x, (make n).inner? = some x → g.Lists x) :
    Makes g (do return make (← drawItem) : Plan Item) fun g' i => g'.Lists i ∧ ∃ n, i = make n := by
  intro l hl
  -- Identities that were drawn in between belong to items that are not entered.
  let drawn := g.drawnUpTo l.nextItem hl
  have hdrawn := g.drawnUpTo_extends hl
  refine gives_bind (gives_drawItem (gives_pure ?_))
  refine ⟨drawn.enter (make l.nextItem), (drawn.enter_extends _).trans hdrawn, Nat.le_refl _, ?_,
    l.nextItem, rfl⟩
  exact Registry.lists_enter (hid _) fun x hx => (hinner _ x hx).mono hdrawn

/-- Columns become items, which are listed. -/
theorem makes_makeItems (g : Registry) (columns : List Column) (scope : Option String) :
    Makes g (makeItems (columns.map fun c id => Item.ofColumn id c scope)) fun g' items =>
      List.Forall₂ (fun c i => g'.Lists i ∧ i = Item.ofColumn i.id c scope) columns items := by
  unfold makeItems
  rw [List.mapM_map]
  refine makes_mapM (T := fun _ => True) (fun _ _ => trivial)
    (fun _ _ _ _ hg h => ⟨h.1.mono hg, h.2⟩) fun g' c _ _ => ?_
  refine (makes_item (fun _ => rfl) fun _ x hx => by cases hx).mono fun _ i _ ⟨hi, n, heq⟩ => ⟨hi, ?_⟩
  rw [heq]
  rfl

/-- Two plans that always succeed follow each other. -/
theorem follows_of_makes {post : Registry → α → Prop} {post' : Registry → β → Prop}
    (h : Makes ρ.left p post) (h' : Makes ρ.right p' post')
    (hR : ∀ σ, σ.Extends ρ → ∀ a b, post σ.left a → post' σ.right b → R σ a b) :
    Follows ρ R p p' := by
  intro l l' a k hl hl' hrun
  obtain ⟨g, hg, hnext, ha⟩ := (h l hl).of_run hrun
  refine (h' l' hl').mono fun b k' ⟨g', hg', hnext', hb⟩ => ?_
  exact ⟨⟨ρ.known, g, g'⟩, ⟨rfl, hg, hg'⟩, ⟨hnext, hnext'⟩, hR ⟨ρ.known, g, g'⟩ ⟨rfl, hg, hg'⟩ a b ha hb⟩

end Plan

/-! ## Data sets -/

/-- Data sets of two runs: their headers share their senses, and they give rows that are counterparts,
or both fail, one after the other. -/
structure RowSet.Counterparts (ρ : Runs) (leaves : List FromItem) (d d' : RowSet) : Prop where
  header : ShareSenses ρ leaves d.header d'.header
  outcomes : List.Forall₂ (Alongside (Row.Counterparts ρ leaves d.header d'.header))
    d.stream.outcomes d'.stream.outcomes

theorem Stream.tellsRows_alongside (R : Row → Row → Prop) : Stream.TellsRows (Alongside R) := by
  rintro _ _ (_ | _) <;> rfl

namespace RowSet

open Plan

variable {ρ σ : Runs} {leaves leaves' : List FromItem} {d d' e e' : RowSet}

theorem Counterparts.mono (h : d.Counterparts ρ leaves d') (hσ : σ.Extends ρ) :
    d.Counterparts σ leaves d' :=
  ⟨h.header.mono hσ, h.outcomes.imp fun _ _ ho => ho.mono fun _ _ hr => hr.mono hσ⟩

theorem counterparts_ofRows {header header' : List Item} {rows rows' : List Row}
    (hheader : ShareSenses ρ leaves header header')
    (hrows : List.Forall₂ (Row.Counterparts ρ leaves header header') rows rows') :
    (ofRows header rows).Counterparts ρ leaves (ofRows header' rows') := by
  refine ⟨hheader, ?_⟩
  show List.Forall₂ _ (Stream.ofOutcomes _).outcomes (Stream.ofOutcomes _).outcomes
  rw [Stream.outcomes_ofOutcomes, Stream.outcomes_ofOutcomes]
  exact List.rel_map (fun _ _ hr => Alongside.ok hr) hrows

theorem counterparts_empty {header header' : List Item}
    (hheader : ShareSenses ρ leaves header header') :
    (empty header).Counterparts ρ leaves (empty header') := counterparts_ofRows hheader .nil

/-- **Rows that are shaped alike in both runs** stay counterparts. -/
theorem Counterparts.reshapes (h : d.Counterparts ρ leaves d') {f : (Item → Value) → Item → Value}
    (he : Reshapes ρ.known ρ.left leaves leaves' f d e)
    (he' : Reshapes ρ.known ρ.right leaves leaves' f d' e')
    (hsenses : SearchAlike (e.header.map (sense leaves')) (e'.header.map (sense leaves'))) :
    e.Counterparts ρ leaves' e' := by
  obtain ⟨change, hchange, hrows⟩ := he.rows
  obtain ⟨change', hchange', hrows'⟩ := he'.rows
  refine ⟨⟨he.header, he'.header, hsenses⟩, ?_⟩
  rw [hchange, hchange']
  refine List.rel_map (fun o o' ho => ho.bind fun r r' ⟨env, hr, hr'⟩ => ?_) h.outcomes
  obtain ⟨s, hs, hshows⟩ := hrows r env hr
  obtain ⟨s', hs', hshows'⟩ := hrows' r' env hr'
  rw [hs, hs']
  exact .ok ⟨f env, hshows, hshows'⟩

/-! ### Reading -/

theorem Counterparts.yields (h : d.Counterparts ρ leaves d') {rows : List Row} (hd : d.Yields rows) :
    ∃ rows', d'.Yields rows' ∧
      List.Forall₂ (Row.Counterparts ρ leaves d.header d'.header) rows rows' := by
  have houtcomes := h.outcomes
  rw [hd] at houtcomes
  exact Alongside.exists_of_forall₂_ok houtcomes

theorem follows_foldRows {γ δ : Type} {S : γ → δ → Prop} (h : d.Counterparts ρ leaves d')
    {f : γ → Row → Except QueryError γ} {f' : δ → Row → Except QueryError δ}
    (hf : ∀ c c' r r', S c c' → Row.Counterparts ρ leaves d.header d'.header r r' →
      Alongside S (f c r) (f' c' r')) {c : γ} {c' : δ} (hc : S c c') :
    Follows ρ (fun _ => S) (d.foldRows f c) (d'.foldRows f' c') := by
  have hresult : Alongside S (d.stream.fold f c).2 (d'.stream.fold f' c').2 := by
    rw [Stream.fold_eq_foldlM, Stream.fold_eq_foldlM]
    refine Alongside.foldlM h.outcomes (fun c c' o o' hc ho => ?_) hc
    exact ho.bind fun r r' hr => hf c c' r r' hc hr
  unfold foldRows
  refine ((isQuiet_recordPulls d _).follows (isQuiet_recordPulls d' _)).bind fun _ _ _ _ _ => ?_
  refine ((isQuiet_close d).follows (isQuiet_close d')).bind fun _ _ _ _ _ => ?_
  refine follows_lift fun a ha => ?_
  rw [ha] at hresult
  exact hresult.exists_of_ok

theorem follows_toRows (h : d.Counterparts ρ leaves d') :
    Follows ρ (fun σ => List.Forall₂ (Row.Counterparts σ leaves d.header d'.header))
      d.toRows d'.toRows := by
  unfold toRows
  refine (follows_foldRows h (S := List.Forall₂ (Row.Counterparts ρ leaves d.header d'.header))
    (fun c c' r r' hc hr => ?_) .nil).bind fun σ hσ rows rows' hrows => follows_pure ?_
  · exact .ok (.cons hr hc)
  · exact List.rel_reverse (hrows.imp fun _ _ hr => hr.mono hσ)

/-! ### Windows -/

theorem Counterparts.fromRow (h : d.Counterparts ρ leaves d') (firstRow : Nat) :
    (d.fromRow firstRow).Counterparts ρ leaves (d'.fromRow firstRow) := by
  refine ⟨h.header, ?_⟩
  show List.Forall₂ _ (Stream.skip _ d.stream).outcomes (Stream.skip _ d'.stream).outcomes
  rw [Stream.outcomes_skip_eq, Stream.outcomes_skip_eq]
  exact Stream.forall₂_afterFirst (Stream.tellsRows_alongside _) h.outcomes _

theorem Counterparts.atMost (h : d.Counterparts ρ leaves d') (maxRows : Nat) :
    (d.atMost maxRows).Counterparts ρ leaves (d'.atMost maxRows) := by
  refine ⟨h.header, ?_⟩
  show List.Forall₂ _ (Stream.take _ d.stream).outcomes (Stream.take _ d'.stream).outcomes
  rw [Stream.outcomes_take_eq, Stream.outcomes_take_eq]
  exact Stream.forall₂_upToRows (Stream.tellsRows_alongside _) h.outcomes _

theorem Counterparts.paged (h : d.Counterparts ρ leaves d') (firstRow : Nat) (maxRows : Option Nat) :
    (d.paged firstRow maxRows).Counterparts ρ leaves (d'.paged firstRow maxRows) := by
  have hskip : RowSet.Counterparts ρ leaves (if 1 < firstRow then d.fromRow firstRow else d)
      (if 1 < firstRow then d'.fromRow firstRow else d') := by
    split
    · exact h.fromRow firstRow
    · exact h
  cases maxRows with
  | none => exact hskip
  | some n => exact hskip.atMost n

/-! ### Filtering, selecting, ordering -/

section Reading

variable (hρ : IsVocabulary ρ.known) (h : d.Counterparts ρ leaves d')

include hρ h

theorem Counterparts.filtered {filters filters' : List Filter}
    (hfilters : Filter.AllPaired (Item.Counterparts ρ leaves) filters filters') :
    (d.filtered filters).Counterparts ρ leaves (d'.filtered filters') := by
  refine ⟨?_, ?_⟩
  · rw [header_filtered, header_filtered]
    exact h.header
  · rw [outcomes_filtered, outcomes_filtered, header_filtered, header_filtered]
    refine Stream.forall₂_flatMap_spread (Stream.tellsRows_alongside _) h.outcomes
      (fun r r' hr => ?_) fun e e' _ => .error e e'
    cases hr with
    | ok hr =>
      have haccept := hr.allAccept hρ h.header hfilters
      dsimp only [Stream.tested]
      generalize Filter.allAccept r filters = b, Filter.allAccept r' filters' = b' at haccept ⊢
      cases haccept with
      | error e e' => exact .cons (.error e e') .nil
      | @ok b _ hb =>
        subst hb
        cases b with
        | true => exact .cons (.ok hr) .nil
        | false => exact .nil

/-- **Projections onto counterparts**, which may be looked at over other from items if they are no
columns. -/
theorem Counterparts.projected {items items' : List Item}
    (hitems : ShareSenses ρ leaves' items items')
    (hlens : leaves' = leaves ∨ (∀ i ∈ items, i.column? = none) ∧ ∀ i ∈ items', i.column? = none) :
    (d.projected items).Counterparts ρ leaves' (d'.projected items') := by
  have hleft : leaves' = leaves ∨ ∀ i ∈ items, i.column? = none := hlens.imp_right And.left
  have hright : leaves' = leaves ∨ ∀ i ∈ items', i.column? = none := hlens.imp_right And.right
  have hsense (i i' : Item) (hi : i ∈ items) (hi' : i' ∈ items')
      (heq : sense leaves' i = sense leaves' i') : sense leaves i = sense leaves i' := by
    rw [← sense_eq_of_lens hleft hi, ← sense_eq_of_lens hright hi', heq]
  by_cases hall : ∀ i ∈ items, Row.IsShown leaves (d.header.map (sense leaves)) (sense leaves i)
  · have hall' : ∀ i' ∈ items',
        Row.IsShown leaves (d'.header.map (sense leaves)) (sense leaves i') := by
      intro i' hi'
      obtain ⟨i, hi, hpair⟩ := hitems.symm_mem hi'
      rw [← hsense i i' hi hi' hpair.sense]
      exact (Row.isShown_congr h.header.senses).mp (hall i hi)
    have hreshapes' := reshapes_projected hρ h.header.right hitems.right hright hall'
    rw [← Row.cellFor_congr h.header.senses] at hreshapes'
    exact h.reshapes (reshapes_projected hρ h.header.left hitems.left hleft hall) hreshapes'
      hitems.senses
  · -- Every row lacks one of the items then, in both runs.
    obtain ⟨i, hi, hnot⟩ : ∃ i ∈ items,
        ¬ Row.IsShown leaves (d.header.map (sense leaves)) (sense leaves i) := by
      simpa using hall
    obtain ⟨i', hi', hpair⟩ := hitems.mem hi
    have hnot' : ¬ Row.IsShown leaves (d'.header.map (sense leaves)) (sense leaves i') := by
      rw [← hsense i i' hi hi' hpair.sense, ← Row.isShown_congr h.header.senses]
      exact hnot
    have hlayout : ¬ Item.sameLayout d.header items = true := fun hlayout =>
      hnot (isShown_of_sameLayout hρ h.header.left hitems.left hlayout i hi)
    have hlayout' : ¬ Item.sameLayout d'.header items' = true := fun hlayout =>
      hnot' (isShown_of_sameLayout hρ h.header.right hitems.right hlayout i' hi')
    refine ⟨hitems, ?_⟩
    unfold RowSet.projected
    simp only [if_neg hlayout, if_neg hlayout', Stream.outcomes_map]
    refine List.rel_map (fun o o' ho => ho.bind fun r r' ⟨env, hr, hr'⟩ => ?_) h.outcomes
    obtain ⟨e, he⟩ := hr.project_eq_error hρ hi hpair.left.asked hnot
    obtain ⟨e', he'⟩ := hr'.project_eq_error hρ hi' hpair.right.asked hnot'
    rw [he, he']
    exact .error e e'

theorem follows_selection {items items' : List Item} (hitems : ShareSenses ρ leaves items items') :
    Follows ρ (fun σ e e' => e.Counterparts σ leaves e' ∧
        e.header.map (sense leaves) = items.map (sense leaves) ∧
        e'.header.map (sense leaves) = items'.map (sense leaves))
      (d.selection items) (d'.selection items') := by
  intro l l' e k hl hl' hrun
  have hshown := isShown_of_selection hρ h.header.left hitems.left hrun
  have hshown' : ∀ i' ∈ items', Row.IsShown leaves
      (Header.lacking (d'.header.map (sense leaves)) (items'.map (sense leaves)) ++
        d'.header.map (sense leaves)) (sense leaves i') := by
    intro i' hi'
    obtain ⟨i, hi, hpair⟩ := hitems.symm_mem hi'
    rw [← hpair.sense]
    refine (Row.isShown_congr ?_).mp (hshown i hi)
    exact (Header.lacking_congr h.header.senses hitems.senses).append h.header.senses
  obtain ⟨rfl, hheader, hreshapes⟩ :=
    (gives_selection_shown hρ h.header.left hitems.left hshown l).of_run hrun
  refine (gives_selection_shown hρ h.header.right hitems.right hshown' l').mono ?_
  rintro e' _ ⟨rfl, hheader', hreshapes'⟩
  rw [← selectedFor_congr h.header.senses hitems.senses] at hreshapes'
  refine ⟨ρ, .refl ρ, ⟨hl, hl'⟩, h.reshapes hreshapes hreshapes' ?_, hheader, hheader'⟩
  rw [hheader, hheader']
  exact hitems.senses

end Reading

/-! ### Ordering -/

/-- Items to order by in two runs. -/
structure OrderedAlike (ρ : Runs) (leaves : List FromItem) (o o' : OrderItem) : Prop where
  item : Item.Counterparts ρ leaves o.item o'.item
  direction : o.direction = o'.direction

theorem compareKeys_alike {orderBy orderBy' : List OrderItem}
    (h : List.Forall₂ (OrderedAlike ρ leaves) orderBy orderBy') (as bs : List Value) :
    compareKeys orderBy as bs = compareKeys orderBy' as bs := by
  induction h generalizing as bs with
  | nil => rfl
  | cons ho _ ih =>
    cases as with
    | nil => rfl
    | cons a as =>
      cases bs with
      | nil => rfl
      | cons b bs =>
        unfold compareKeys
        rw [ho.direction, ih]

theorem follows_ordered (hρ : IsVocabulary ρ.known) (h : d.Counterparts ρ leaves d')
    {orderBy orderBy' : List OrderItem}
    (horder : List.Forall₂ (OrderedAlike ρ leaves) orderBy orderBy') :
    Follows ρ (fun σ e e' => e.Counterparts σ leaves e' ∧ e.header = d.header ∧ e'.header = d'.header)
      (d.ordered orderBy) (d'.ordered orderBy') := by
  have hempty : orderBy.isEmpty = orderBy'.isEmpty := by cases horder <;> rfl
  unfold ordered
  rw [hempty]
  split
  · exact follows_pure ⟨h, rfl, rfl⟩
  · have hreadable : ∀ o o', OrderedAlike ρ leaves o o' →
        Header.isReadable d.header o.item = Header.isReadable d'.header o'.item :=
      fun o o' ho => Header.isReadable_counterparts hρ h.header ho.item.asked
    split
    next => exact follows_of_failure fun _ _ _ => run_bind_throw_ne_ok
    next hfind =>
      have hfind' : (orderBy'.find? fun o => !Header.isReadable d'.header o.item) = none := by
        rw [List.find?_eq_none] at hfind ⊢
        intro o' ho'
        obtain ⟨o, ho, hpair⟩ := exists_of_mem_forall₂ horder.flip ho'
        rw [← hreadable o o' hpair]
        exact hfind o ho
      rw [hfind']
      refine (follows_toRows h).bind fun σ hσ rows rows' hrows => follows_pure ⟨?_, rfl, rfl⟩
      refine counterparts_ofRows (h.header.mono hσ) ?_
      have hkeys (r r' : Row) (hr : Row.Counterparts σ leaves d.header d'.header r r') :
          sortKeys orderBy r = sortKeys orderBy' r' := by
        refine map_eq_map_of_forall₂ horder fun o _ o' ho => ?_
        rw [hr.evaluate?_eq (hσ.vocabulary hρ) (h.header.mono hσ) (ho.item.mono hσ).asked]
      rw [sortRows_eq, sortRows_eq]
      refine forall₂_mergeSort hrows fun a a' b b' ha hb => ?_
      rw [hkeys a a' ha, hkeys b b' hb, compareKeys_alike horder]

end RowSet

/-! ## Joins and products of counterparts -/

open Item (sense IsVocabulary ShareSenses)

namespace Filter

variable {R : Item → Item → Prop} {filters filters' : List Filter}

/-- Paired filters that pass a test of what they read together. -/
theorem AllPaired.filter (h : AllPaired R filters filters') {p p' : Filter → Bool}
    (hp : ∀ f f', Paired R f f' → p f = p' f') :
    AllPaired R (filters.filter p) (filters'.filter p') := by
  rw [allPaired_iff] at h ⊢
  induction h with
  | nil => exact .nil
  | @cons f f' _ _ hf _ ih =>
    rw [List.filter_cons, List.filter_cons, hp f f' hf]
    split
    · exact .cons hf ih
    · exact ih

end Filter

namespace RowSet

open Plan

variable {ρ σ : Runs} {leaves : List FromItem} {d d' : RowSet}
  {header header' items items' : List Item} {filters filters' : List Filter}

/-! ### The nested loop -/

section Joining

variable (hheader : ShareSenses ρ leaves header header') (hitems : ShareSenses ρ leaves items items')
  (hapart : Item.Apart leaves header items)

include hheader hitems hapart

/-- **Rows side by side show what both show.** -/
theorem combine_counterparts {r r' : Row} (hr : Row.Counterparts ρ leaves header header' r r')
    {values values' : List Value} (hvalues : Row.CellsAlike leaves items items' values values') :
    Row.Counterparts ρ leaves (header ++ items) (header' ++ items')
      (combine (header ++ items) r values) (combine (header' ++ items') r' values') :=
  Row.counterparts_of_cells (hheader.append hitems) (hr.cells.append hheader hitems hapart hvalues) none none

variable (hρ : IsVocabulary ρ.known)
  (hfilters : Filter.AllPaired (Item.Counterparts ρ leaves) filters filters')

include hρ hfilters

/-- The pairs of an outer row with inner rows that filters accept. -/
theorem pairOutcomes_counterparts {outer outer' : Row}
    (houter : Row.Counterparts ρ leaves header header' outer outer') {inner inner' : List Row}
    (hinner : List.Forall₂ (Row.Counterparts ρ leaves items items') inner inner') :
    List.Forall₂ (Alongside (Row.Counterparts ρ leaves (header ++ items) (header' ++ items')))
      (inner.filterMap fun row => pairOutcome filters (combine (header ++ items) outer row.values))
      (inner'.filterMap fun row =>
        pairOutcome filters' (combine (header' ++ items') outer' row.values)) := by
  induction hinner with
  | nil => exact .nil
  | @cons row row' _ _ hrow _ ih =>
    have hpair := combine_counterparts hheader hitems hapart houter hrow.cells
    have haccept := hpair.allAccept hρ (hheader.append hitems) hfilters
    rw [List.filterMap_cons, List.filterMap_cons]
    unfold pairOutcome at ih ⊢
    generalize Filter.allAccept (combine (header ++ items) outer row.values) filters = b,
      Filter.allAccept (combine (header' ++ items') outer' row'.values) filters' = b' at haccept ⊢
    cases haccept with
    | error e e' => exact .cons (.error e e') ih
    | @ok b _ hb =>
      subst hb
      cases b with
      | true => exact .cons (.ok hpair) ih
      | false => exact ih

theorem matchesOf_counterparts {outer outer' : Row}
    (houter : Row.Counterparts ρ leaves header header' outer outer') {inner inner' : List Row}
    (hinner : List.Forall₂ (Row.Counterparts ρ leaves items items') inner inner') (padded : Bool) :
    List.Forall₂ (Alongside (Row.Counterparts ρ leaves (header ++ items) (header' ++ items')))
      (matchesOf (header ++ items) inner filters
        (if padded then some (List.replicate items.length .null) else none) outer)
      (matchesOf (header' ++ items') inner' filters'
        (if padded then some (List.replicate items'.length .null) else none) outer') := by
  have hfound := pairOutcomes_counterparts hheader hitems hapart hρ hfilters houter hinner
  unfold matchesOf
  cases padded with
  | false => exact hfound
  | true =>
    have hany {l l' : List (Except QueryError Row)}
        (h : List.Forall₂ (Alongside (Row.Counterparts ρ leaves (header ++ items)
          (header' ++ items'))) l l') : l.any isRow = l'.any isRow := by
      induction h with
      | nil => rfl
      | cons ho _ ih =>
        rw [List.any_cons, List.any_cons, ih]
        cases ho <;> rfl
    simp only [if_true, hany hfound]
    split
    · exact hfound
    · refine List.rel_append hfound (.cons (.ok ?_) .nil)
      exact combine_counterparts hheader hitems hapart houter (Row.cellsAlike_nulls leaves items items')

end Joining

section Loops

variable (hρ : IsVocabulary ρ.known) (h : d.Counterparts ρ leaves d')

include hρ h

/-- **The nested loop over counterparts.** -/
theorem Counterparts.nestedLoop (hitems : ShareSenses ρ leaves items items')
    (hapart : Item.Apart leaves d.header items) {inner inner' : List Row}
    (hinner : List.Forall₂ (Row.Counterparts ρ leaves items items') inner inner')
    (hfilters : Filter.AllPaired (Item.Counterparts ρ leaves) filters filters') (padded : Bool) :
    (d.nestedLoop items inner filters padded).Counterparts ρ leaves
      (d'.nestedLoop items' inner' filters' padded) := by
  refine ⟨h.header.append hitems, ?_⟩
  unfold RowSet.nestedLoop
  simp only [Stream.outcomes_expand]
  refine Stream.forall₂_flatMap_spread (Stream.tellsRows_alongside _) h.outcomes (fun r r' hr => ?_)
    fun e e' _ => .error e e'
  cases hr with
  | ok hr => exact matchesOf_counterparts h.header hitems hapart hρ hfilters hr hinner padded

end Loops

/-! ### Products -/

/-- Headers of data sets, no two of which have a sense in common. -/
abbrev AllApart (leaves : List FromItem) (sets : List RowSet) : Prop :=
  sets.Pairwise fun d e => Item.Apart leaves d.header e.header

theorem shareSenses_flatMap {sets sets' : List RowSet}
    (h : List.Forall₂ (Counterparts ρ leaves) sets sets') :
    ShareSenses ρ leaves (sets.flatMap (·.header)) (sets'.flatMap (·.header)) := by
  induction h with
  | nil => exact .nil
  | cons hd _ ih =>
    rw [List.flatMap_cons, List.flatMap_cons]
    exact hd.header.append ih

/-- A filter can be applied to both sides, or to neither. -/
theorem all_isReadable_counterparts (hρ : IsVocabulary ρ.known)
    (hheader : ShareSenses ρ leaves header header') {f f' : Filter}
    (hf : Filter.Paired (Item.Counterparts ρ leaves) f f') :
    f.items.all (Header.isReadable header) = f'.items.all (Header.isReadable header') := by
  have hread := Filter.Paired.items f f' hf
  generalize f.items = read, f'.items = read' at hread ⊢
  induction hread with
  | nil => rfl
  | cons hi _ ih =>
    rw [List.all_cons, List.all_cons, ih, Header.isReadable_counterparts hρ hheader hi.asked]

/-- The product of counterparts with further ones: each filter is applied at the same stage. -/
theorem follows_productWith (hρ : IsVocabulary ρ.known) {sets sets' : List RowSet}
    (h : d.Counterparts ρ leaves d') (hsets : List.Forall₂ (Counterparts ρ leaves) sets sets')
    (hapart : AllApart leaves (d :: sets))
    (hfilters : Filter.AllPaired (Item.Counterparts ρ leaves) filters filters') :
    Follows ρ (fun σ e e' => e.Counterparts σ leaves e' ∧
        e.header = d.header ++ sets.flatMap (·.header))
      (productWith (d.header ++ sets.flatMap (·.header)) d filters sets)
      (productWith (d'.header ++ sets'.flatMap (·.header)) d' filters' sets') := by
  induction sets generalizing ρ d d' sets' filters filters' with
  | nil =>
    cases hsets
    unfold productWith
    refine follows_pure ⟨h.filtered hρ hfilters, ?_⟩
    rw [header_filtered, List.flatMap_nil, List.append_nil]
  | cons inner rest ih =>
    cases hsets with
    | @cons _ inner' _ rest' hinner hrest =>
      rw [AllApart, List.pairwise_cons, List.forall_mem_cons, List.pairwise_cons] at hapart
      obtain ⟨⟨hfirst, hfirstRest⟩, hinnerRest, hrestApart⟩ := hapart
      have hall := h.header.append (shareSenses_flatMap (.cons hinner hrest))
      unfold productWith
      refine (follows_toRows hinner).orElseClosing.bind fun σ hσ rows rows' hrows => ?_
      have hempty : rows.isEmpty = rows'.isEmpty := by cases hrows <;> rfl
      rw [hempty]
      split
      · refine ((isQuiet_close d).follows (isQuiet_close d')).bind fun τ hτ _ _ _ => ?_
        refine ((isQuiet_closeAll rest).follows (isQuiet_closeAll rest')).bind fun υ hυ _ _ _ => ?_
        exact follows_pure ⟨counterparts_empty (hall.mono ((hυ.trans hτ).trans hσ)), rfl⟩
      · have hσρ := hσ.vocabulary hρ
        have hboth := (h.header.append hinner.header).mono hσ
        have hpaired := Filter.AllPaired.mono (fun _ _ hi => hi.mono hσ) _ _ hfilters
        have htest (f f' : Filter) (hf : Filter.Paired (Item.Counterparts σ leaves) f f') :=
          all_isReadable_counterparts hσρ hboth hf
        have hloop := (h.mono hσ).nestedLoop hσρ (hinner.mono hσ).header hfirst hrows
          (hpaired.filter htest) false
        have hlater := ih hσρ hloop (hrest.imp fun _ _ hd => hd.mono hσ)
          (List.pairwise_cons.mpr ⟨fun e he x hx y hy => ?_, hrestApart⟩)
          (hpaired.filter fun f f' hf => congrArg not (htest f f' hf))
        · have hleft : (d.nestedLoop inner.header rows
              (filters.filter fun f => f.items.all (Header.isReadable (d.header ++ inner.header)))
                false).header ++ rest.flatMap (·.header) =
              d.header ++ (inner :: rest).flatMap (·.header) := List.append_assoc _ _ _
          have hright : (d'.nestedLoop inner'.header rows'
              (filters'.filter fun f => f.items.all (Header.isReadable (d'.header ++ inner'.header)))
                false).header ++ rest'.flatMap (·.header) =
              d'.header ++ (inner' :: rest').flatMap (·.header) := List.append_assoc _ _ _
          rw [hleft, hright] at hlater
          simp only [List.partition_eq_filter_filter]
          exact hlater
        · rcases List.mem_append.mp hx with hx | hx
          · exact hfirstRest e he x hx y hy
          · exact hinnerRest e he x hx y hy

/-- **The product of counterparts.** -/
theorem follows_cartesianProduct (hρ : IsVocabulary ρ.known) {sets sets' : List RowSet}
    (hsets : List.Forall₂ (Counterparts ρ leaves) sets sets') (hapart : AllApart leaves sets)
    (hfilters : Filter.AllPaired (Item.Counterparts ρ leaves) filters filters') :
    Follows ρ (fun σ e e' => e.Counterparts σ leaves e' ∧ e.header = sets.flatMap (·.header))
      (cartesianProduct sets filters) (cartesianProduct sets' filters') := by
  cases hsets with
  | nil => exact follows_of_failure fun _ _ _ => nofun
  | cons hfirst hrest => exact follows_productWith hρ hfirst hrest hapart hfilters

/-! ### One-sided joins -/

variable {right right' : RowSet}

theorem follows_leftJoin (hρ : IsVocabulary ρ.known) (h : d.Counterparts ρ leaves d')
    (hright : right.Counterparts ρ leaves right') (hapart : Item.Apart leaves d.header right.header)
    (hfilters : Filter.AllPaired (Item.Counterparts ρ leaves) filters filters') :
    Follows ρ (fun σ e e' => e.Counterparts σ leaves e' ∧ e.header = d.header ++ right.header)
      (d.leftJoin right filters) (d'.leftJoin right' filters') := by
  unfold leftJoin
  refine (follows_toRows hright).orElseClosing.bind fun σ hσ rows rows' hrows => follows_pure ⟨?_, rfl⟩
  exact (h.mono hσ).nestedLoop (hσ.vocabulary hρ) (hright.mono hσ).header hapart hrows
    (Filter.AllPaired.mono (fun _ _ hi => hi.mono hσ) _ _ hfilters) true

theorem follows_rightJoin (hρ : IsVocabulary ρ.known) (h : d.Counterparts ρ leaves d')
    (hright : right.Counterparts ρ leaves right') (hapart : Item.Apart leaves d.header right.header)
    (hfilters : Filter.AllPaired (Item.Counterparts ρ leaves) filters filters') :
    Follows ρ (fun σ e e' => e.Counterparts σ leaves e' ∧
        e.header.map (sense leaves) = (d.header ++ right.header).map (sense leaves))
      (d.rightJoin right filters) (d'.rightJoin right' filters') := by
  unfold rightJoin
  refine (follows_leftJoin hρ hright h (fun x hx y hy heq => hapart y hy x hx heq.symm)
    hfilters).bind fun σ hσ e e' he => ?_
  refine (follows_selection (hσ.vocabulary hρ) he.1
    ((h.header.append hright.header).mono hσ)).mono fun τ _ s s' hs => ?_
  exact ⟨hs.1, hs.2.1⟩

end RowSet

end DocQuery
