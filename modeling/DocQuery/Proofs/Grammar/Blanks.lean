import DocQuery.Proofs.Grammar.Clauses

/-!
# DocQuery.Proofs.Grammar.Blanks — one normal form for all texts that differ in blanks

Outside of quotes it does not matter which blanks stand between two characters of a query text, only
whether any do; within quotes every blank counts.  Two texts that differ in no other way
(`VaryInBlanks`) have one normal form or none, and a text has none exactly if it leaves a quote or a
parenthesis open or closes one that is not open (`normalize_canonical`).  The normal form is a
variant of the text itself, so nothing but blanks is lost on the way to it.
-/

namespace DocQuery.Grammar

open Text (isBlank)

/-! ## Texts that differ in blanks -/

/-- A text of blanks. -/
def AllBlank (w : List Char) : Prop := ∀ c ∈ w, isBlank c = true

instance (w : List Char) : Decidable (AllBlank w) := inferInstanceAs (Decidable (∀ c ∈ w, _))

theorem AllBlank.cons {c : Char} {w : List Char} (hc : isBlank c = true) (hw : AllBlank w) :
    AllBlank (c :: w) := List.forall_mem_cons.mpr ⟨hc, hw⟩

theorem AllBlank.append {u v : List Char} (hu : AllBlank u) (hv : AllBlank v) : AllBlank (u ++ v) :=
  List.forall_mem_append.mpr ⟨hu, hv⟩

theorem allBlank_nil : AllBlank [] := List.forall_mem_nil _

/-- Two texts, walked from one state of the scanner, that have the same characters and have blanks at
the same places outside of quotes, each of them as many and of whatever kind. -/
inductive AlikeButBlanks : Scanner → List Char → List Char → Prop
  | nil {s : Scanner} : AlikeButBlanks s [] []
  | char {s : Scanner} {c : Char} {t u : List Char} (hc : s.closing = none → isBlank c = false)
      (rest : AlikeButBlanks (s.step c) t u) : AlikeButBlanks s (c :: t) (c :: u)
  | blanks {s : Scanner} {v w t u : List Char} (hs : s.closing = none) (hv : AllBlank v)
      (hw : AllBlank w) (hvne : v ≠ []) (hwne : w ≠ []) (rest : AlikeButBlanks s t u) :
      AlikeButBlanks s (v ++ t) (w ++ u)

/-- Two texts that differ at most in their blanks: in those at their ends, and in which run of blanks
stands at each place outside of quotes. -/
def VaryInBlanks (t u : List Char) : Prop := ∃ before before' a b after after',
  t = before ++ (a ++ after) ∧ u = before' ++ (b ++ after') ∧ AllBlank before ∧ AllBlank before' ∧
    AllBlank after ∧ AllBlank after' ∧ AlikeButBlanks {} a b

section Variants

variable {s : Scanner} {started pending : Bool} {t u v w : List Char}

theorem AlikeButBlanks.run_eq (h : AlikeButBlanks s t u) : s.run t = s.run u := by
  induction h with
  | nil => rfl
  | char hc rest ih => exact ih
  | blanks hs hv hw hvne hwne rest ih =>
    rw [Scanner.run_append, Scanner.run_append, Scanner.run_blanks hs hv, Scanner.run_blanks hs hw, ih]

theorem AlikeButBlanks.eq_nil (h : AlikeButBlanks s t []) : t = [] := by
  generalize hu : ([] : List Char) = u at h
  cases h with
  | nil => rfl
  | char hc rest => cases hu
  | blanks hs hv hw hvne hwne rest => exact absurd (List.append_eq_nil_iff.mp hu.symm).1 hwne

/-- Blanks around a text neither open nor close anything in it. -/
theorem balanced_between_blanks (hv : AllBlank v) (hw : AllBlank w) :
    Balanced (v ++ (t ++ w)) ↔ Balanced t := by
  unfold Balanced
  rw [Scanner.run_append, Scanner.run_blanks rfl hv, Scanner.run_append]
  refine ⟨fun h => ?_, fun h => by rw [h, Scanner.run_blanks rfl hw]⟩
  have hclosing : (Scanner.run {} t).closing = none := by
    by_contra hne
    exact Scanner.closing_run_blanks (Scanner.sound_start.run t) hne hw (by rw [h])
  rwa [Scanner.run_blanks hclosing hw] at h

theorem VaryInBlanks.balanced_iff (h : VaryInBlanks t u) : Balanced t ↔ Balanced u := by
  obtain ⟨before, before', a, b, after, after', rfl, rfl, hb, hb', ha, ha', hab⟩ := h
  rw [balanced_between_blanks hb ha, balanced_between_blanks hb' ha', Balanced, Balanced, hab.run_eq]

/-! ## Collapsing variants -/

theorem collapse_char {c : Char} (hc : s.closing = none → isBlank c = false) :
    collapse s started pending (c :: t) =
      ((if pending then [' '] else []) ++ c :: (collapse (s.step c) true false t).1,
        (collapse (s.step c) true false t).2) := by
  have hnot : ¬ (s.closing.isNone && isBlank c) = true := by
    rw [Bool.and_eq_true, Option.isNone_iff_eq_none]
    exact fun h => Bool.false_ne_true ((hc h.1).symm.trans h.2)
  rw [collapse, if_neg hnot]
  cases pending <;> rfl

theorem collapse_blank {c : Char} (hs : s.closing = none) (hc : isBlank c = true) :
    collapse s started pending (c :: t) = collapse s started started t := by
  rw [collapse, if_pos (by rw [hs, hc]; rfl)]

/-- A run of blanks leaves a space due if anything was kept before it. -/
theorem collapse_blanks (hs : s.closing = none) (hv : AllBlank v) :
    collapse s started pending (v ++ t) =
      collapse s started (if v = [] then pending else started) t := by
  induction v generalizing pending with
  | nil => rfl
  | cons c v ih =>
    obtain ⟨hc, hv⟩ := List.forall_mem_cons.mp hv
    rw [List.cons_append, collapse_blank hs hc, ih hv, ite_self, if_neg (List.cons_ne_nil c v)]

/-- Collapsing blanks leaves the scanner where the text leaves it. -/
theorem collapse_snd (s : Scanner) (started pending : Bool) (t : List Char) :
    (collapse s started pending t).2 = s.run t := by
  induction t generalizing s started pending with
  | nil => rfl
  | cons c t ih =>
    by_cases hblank : s.closing = none ∧ isBlank c = true
    · rw [collapse_blank hblank.1 hblank.2, ih, Scanner.run_cons,
        Scanner.step_blank hblank.1 hblank.2]
    · rw [collapse_char fun hs => Bool.eq_false_iff.mpr fun hc => hblank ⟨hs, hc⟩]
      exact ih _ _ _

/-- **Variants collapse alike**, whatever blanks follow them outside of quotes. -/
theorem AlikeButBlanks.collapse_eq (h : AlikeButBlanks s t u) (hend : (s.run t).closing = none)
    (hv : AllBlank v) (hw : AllBlank w) :
    (collapse s started pending (t ++ v)).1 = (collapse s started pending (u ++ w)).1 := by
  induction h generalizing started pending with
  | @nil s =>
    -- Only blanks are left, and a space that is due for them is never written.
    have hkept {x : List Char} (hx : AllBlank x) : (collapse s started pending x).1 = [] := by
      rw [← List.append_nil x, collapse_blanks (show s.closing = none from hend) hx]
      rfl
    rw [List.nil_append, List.nil_append, hkept hv, hkept hw]
  | char hc rest ih =>
    rw [List.cons_append, List.cons_append, collapse_char hc, collapse_char hc]
    exact congrArg (_ ++ _ :: ·) (ih hend)
  | blanks hs hx hy hxne hyne rest ih =>
    rw [Scanner.run_append, Scanner.run_blanks hs hx] at hend
    rw [List.append_assoc, List.append_assoc, collapse_blanks hs hx, collapse_blanks hs hy,
      if_neg hxne, if_neg hyne, ih hend]

theorem VaryInBlanks.collapse_eq (h : VaryInBlanks t u) (ht : Balanced t) :
    (collapse {} false false t).1 = (collapse {} false false u).1 := by
  obtain ⟨before, before', a, b, after, after', rfl, rfl, hb, hb', ha, ha', hab⟩ := h
  rw [balanced_between_blanks hb ha] at ht
  rw [collapse_blanks rfl hb, collapse_blanks rfl hb', ite_self, ite_self]
  exact hab.collapse_eq (by rw [ht]) ha ha'

end Variants

/-! ## Texts without a normal form -/

section Normal

variable {s : Scanner} {t r : List Char}

theorem normalize_eq_ok_iff :
    normalize t = .ok r ↔ Balanced t ∧ (collapse {} false false t).1 = r := by
  have hbalanced : Balanced t ↔ ¬ ((Scanner.run {} t).closing.isSome = true) ∧
      ¬ (((Scanner.run {} t).unbalanced || (Scanner.run {} t).depth != 0) = true) := by
    refine ⟨fun h => by rw [h]; decide, fun h => ?_⟩
    have hclosing : (Scanner.run {} t).closing = none := by simpa using h.1
    obtain ⟨hunbalanced, hdepth⟩ : (Scanner.run {} t).unbalanced = false ∧
        (Scanner.run {} t).depth = 0 := by simpa using h.2
    refine (Scanner.sound_start.run t).eq_start ?_ hunbalanced
    rw [Scanner.isTopLevel, hdepth, hclosing]
    rfl
  unfold normalize
  simp only [collapse_snd]
  by_cases hclosing : (Scanner.run {} t).closing.isSome = true
  · simp [hclosing, hbalanced]
  · by_cases hdepth : ((Scanner.run {} t).unbalanced || (Scanner.run {} t).depth != 0) = true
    · simp [hclosing, hdepth, hbalanced]
    · simp [hclosing, hdepth, hbalanced]

theorem exists_normalize_eq_error_iff : (∃ e, normalize t = .error e) ↔ ¬ Balanced t := by
  constructor
  · rintro ⟨e, he⟩ hbalanced
    rw [normalize_eq_ok_iff.mpr ⟨hbalanced, rfl⟩] at he
    cases he
  · intro hbalanced
    cases hresult : normalize t with
    | error e => exact ⟨e, rfl⟩
    | ok r => exact absurd (normalize_eq_ok_iff.mp hresult).1 hbalanced

/-- The scanner remembers exactly that some parenthesis was closed while none was open. -/
theorem run_unbalanced_iff : (s.run t).unbalanced = true ↔ s.unbalanced = true ∨
    ∃ a b, t = a ++ ')' :: b ∧ (s.run a).closing = none ∧ (s.run a).depth = 0 := by
  induction t generalizing s with
  | nil => simp
  | cons c t ih =>
    have hstep : (s.step c).unbalanced = true ↔
        s.unbalanced = true ∨ c = ')' ∧ s.closing = none ∧ s.depth = 0 := by
      unfold Scanner.step
      cases hclosing : s.closing with
      | some closing =>
        simp only
        split_ifs <;> simp
      | none =>
        simp only
        split_ifs <;> simp_all
    rw [Scanner.run_cons, ih, hstep, or_assoc]
    refine or_congr_right ⟨?_, ?_⟩
    · rintro (⟨rfl, hclosing, hdepth⟩ | ⟨a, b, rfl, hclosing, hdepth⟩)
      · exact ⟨[], t, rfl, hclosing, hdepth⟩
      · exact ⟨c :: a, b, rfl, hclosing, hdepth⟩
    · rintro ⟨a, b, hsplit, hclosing, hdepth⟩
      cases a with
      | nil =>
        cases hsplit
        exact Or.inl ⟨rfl, hclosing, hdepth⟩
      | cons d a =>
        cases hsplit
        exact Or.inr ⟨a, b, rfl, hclosing, hdepth⟩

/-- Whether a text leaves a quote open, closes a parenthesis that is not open, or leaves one open. -/
def LeavesOpen (t : List Char) : Prop :=
  (Scanner.run {} t).closing ≠ none ∨
    (∃ a b, t = a ++ ')' :: b ∧ (Scanner.run {} a).closing = none ∧ (Scanner.run {} a).depth = 0) ∨
    (Scanner.run {} t).depth ≠ 0

theorem leavesOpen_iff : LeavesOpen t ↔ ¬ Balanced t := by
  have hstray := run_unbalanced_iff (s := {}) (t := t)
  simp only [Bool.false_eq_true, false_or] at hstray
  rw [LeavesOpen, ← hstray]
  constructor
  · rintro (hclosing | hunbalanced | hdepth) hbalanced
    · exact hclosing (by rw [hbalanced])
    · rw [hbalanced] at hunbalanced
      cases hunbalanced
    · exact hdepth (by rw [hbalanced])
  · intro hbalanced
    by_contra hnone
    obtain ⟨hclosing, hunbalanced, hdepth⟩ : (Scanner.run {} t).closing = none ∧
        (Scanner.run {} t).unbalanced = false ∧ (Scanner.run {} t).depth = 0 := by simpa using hnone
    refine hbalanced ((Scanner.sound_start.run t).eq_start ?_ hunbalanced)
    rw [Scanner.isTopLevel, hclosing, hdepth]
    rfl

end Normal

/-! ## The normal form is a variant -/

section Variant

variable {s : Scanner} {started pending : Bool} {t : List Char}

/-- What is kept of a text is a variant of it, up to the blanks at its ends: those in front are left
out before anything is kept, and a space that was due is put in front of what follows it. -/
def KeepsVariant (s : Scanner) (started pending : Bool) (t : List Char) : Prop :=
  ∃ before a after kept, t = before ++ (a ++ after) ∧ AllBlank before ∧ AllBlank after ∧
    AlikeButBlanks s a kept ∧ (before ≠ [] → s.closing = none ∧ (started = true → pending = true)) ∧
    (collapse s started pending t).1 = if pending = true ∧ kept ≠ [] then ' ' :: kept else kept

theorem keepsVariant_nil : KeepsVariant s started pending [] := by
  refine ⟨[], [], [], [], rfl, allBlank_nil, allBlank_nil, .nil, fun h => absurd rfl h, ?_⟩
  rw [if_neg fun h => h.2 rfl]
  rfl

/-- A blank that changes nothing is one more blank in front. -/
theorem KeepsVariant.skipped {c : Char} (h : KeepsVariant s started started t) (hs : s.closing = none)
    (hc : isBlank c = true) : KeepsVariant s started started (c :: t) := by
  obtain ⟨before, a, after, kept, rfl, hbefore, hafter, halike, -, hkept⟩ := h
  refine ⟨c :: before, a, after, kept, rfl, .cons hc hbefore, hafter, halike, fun _ => ⟨hs, id⟩, ?_⟩
  rw [collapse_blank hs hc, hkept]

/-- A blank behind which a space becomes due belongs to the variant, unless nothing follows it. -/
theorem KeepsVariant.due {c : Char} (h : KeepsVariant s true true t) (hs : s.closing = none)
    (hc : isBlank c = true) : KeepsVariant s true false (c :: t) := by
  obtain ⟨before, a, after, kept, rfl, hbefore, hafter, halike, -, hkept⟩ := h
  by_cases hnil : kept = []
  · subst hnil
    obtain rfl := halike.eq_nil
    refine ⟨[], [], c :: (before ++ ([] ++ after)), [], rfl, allBlank_nil,
      .cons hc (hbefore.append hafter), .nil, fun h => absurd rfl h, ?_⟩
    rw [collapse_blank hs hc, hkept]
    simp
  · refine ⟨[], (c :: before) ++ a, after, [' '] ++ kept, ?_, allBlank_nil, hafter,
      .blanks hs (.cons hc hbefore) (by decide) (List.cons_ne_nil _ _) (List.cons_ne_nil _ _) halike,
      fun h => absurd rfl h, ?_⟩
    · simp
    · rw [collapse_blank hs hc, hkept]
      simp [hnil]

theorem KeepsVariant.char {c : Char} (h : KeepsVariant (s.step c) true false t)
    (hc : s.closing = none → isBlank c = false) : KeepsVariant s started pending (c :: t) := by
  obtain ⟨before, a, after, kept, rfl, hbefore, hafter, halike, hempty, hkept⟩ := h
  have hnil : before = [] := by
    by_contra hne
    exact Bool.false_ne_true ((hempty hne).2 rfl)
  subst hnil
  refine ⟨[], c :: a, after, c :: kept, rfl, allBlank_nil, hafter, .char hc halike,
    fun h => absurd rfl h, ?_⟩
  rw [collapse_char hc, hkept]
  cases pending <;> simp

theorem keepsVariant (hpending : pending = true → started = true) (t : List Char) :
    KeepsVariant s started pending t := by
  induction t generalizing s started pending with
  | nil => exact keepsVariant_nil
  | cons c t ih =>
    by_cases hblank : s.closing = none ∧ isBlank c = true
    · obtain ⟨hs, hc⟩ := hblank
      cases started with
      | false =>
        -- No space is due before anything is kept.
        obtain rfl : pending = false := Bool.eq_false_iff.mpr fun h => Bool.false_ne_true (hpending h)
        exact (ih id).skipped hs hc
      | true =>
        cases pending with
        | false => exact (ih id).due hs hc
        | true => exact (ih id).skipped hs hc
    · exact (ih fun _ => rfl).char fun hs => Bool.eq_false_iff.mpr fun h => hblank ⟨hs, h⟩

/-- **The normal form of a text differs from it in blanks alone.** -/
theorem varyInBlanks_of_normalize {r : List Char} (h : normalize t = .ok r) : VaryInBlanks t r := by
  obtain ⟨-, rfl⟩ := normalize_eq_ok_iff.mp h
  have hkeeps : KeepsVariant {} false false t := keepsVariant id t
  obtain ⟨before, a, after, kept, ht, hbefore, hafter, halike, -, hkept⟩ := hkeeps
  refine ⟨before, [], a, kept, after, [], ht, ?_, hbefore, allBlank_nil, hafter, allBlank_nil, halike⟩
  rw [hkept, List.append_nil, List.nil_append, if_neg fun h => Bool.false_ne_true h.1]

end Variant

/-! ## Quoted sections -/

/-- The quoted sections of a text, each with its quotes and all that stands between them.  If a quote
is open in front of the text, the first section is the rest of that one. -/
def quotesFrom (s : Scanner) : List Char → List (List Char)
  | [] => []
  | c :: t =>
    match s.closing, (s.step c).closing with
    | none, none => quotesFrom (s.step c) t
    | some _, none => [c] :: quotesFrom (s.step c) t
    | _, some _ => consFirst c (quotesFrom (s.step c) t)

section Quotes

variable {s : Scanner} {t u v : List Char}

theorem quotesFrom_cons_congr {c : Char} (h : quotesFrom (s.step c) t = quotesFrom (s.step c) u) :
    quotesFrom s (c :: t) = quotesFrom s (c :: u) := by
  rw [quotesFrom, quotesFrom, h]

theorem quotesFrom_blanks (hs : s.closing = none) (hv : AllBlank v) :
    quotesFrom s (v ++ t) = quotesFrom s t := by
  induction v with
  | nil => rfl
  | cons c v ih =>
    obtain ⟨hc, hv⟩ := List.forall_mem_cons.mp hv
    rw [List.cons_append, quotesFrom, Scanner.step_blank hs hc]
    simp only [hs]
    exact ih hv

/-- Blanks behind a text belong to no quote that is closed in it. -/
theorem quotesFrom_append_blanks (hend : (s.run t).closing = none) (hv : AllBlank v) :
    quotesFrom s (t ++ v) = quotesFrom s t := by
  induction t generalizing s with
  | nil =>
    rw [List.nil_append, ← List.append_nil v]
    exact quotesFrom_blanks hend hv
  | cons c t ih => exact quotesFrom_cons_congr (ih hend)

theorem AlikeButBlanks.quotesFrom_eq (h : AlikeButBlanks s t u) : quotesFrom s t = quotesFrom s u := by
  induction h with
  | nil => rfl
  | char hc rest ih => exact quotesFrom_cons_congr ih
  | blanks hs hv hw hvne hwne rest ih => rw [quotesFrom_blanks hs hv, quotesFrom_blanks hs hw, ih]

/-- **Variants have the same quoted sections**, character by character. -/
theorem VaryInBlanks.quotesFrom_eq (h : VaryInBlanks t u) (ht : Balanced t) :
    quotesFrom {} t = quotesFrom {} u := by
  obtain ⟨before, before', a, b, after, after', rfl, rfl, hb, hb', ha, ha', hab⟩ := h
  rw [balanced_between_blanks hb ha] at ht
  have hend : (Scanner.run {} b).closing = none := by
    rw [← hab.run_eq, ht]
  rw [quotesFrom_blanks rfl hb, quotesFrom_blanks rfl hb', quotesFrom_append_blanks (by rw [ht]) ha,
    quotesFrom_append_blanks hend ha', hab.quotesFrom_eq]

end Quotes

/-! ## Single spaces -/

/-- A blank outside of quotes is a single space between two other characters. -/
def SpacedSingly (w : List Char) : Prop := ∀ a c b, w = a ++ c :: b →
  (Scanner.run {} a).closing = none → isBlank c = true →
    c = ' ' ∧ (∃ x ∈ a.getLast?, isBlank x = false) ∧ ∃ y ∈ b.head?, isBlank y = false

section Spaces

variable {s : Scanner} {started pending : Bool} {before : Option Char} {t : List Char}

/-- The same at every place behind a state of the scanner, where `before` stands in front. -/
def SpacedFrom (s : Scanner) (before : Option Char) : List Char → Prop
  | [] => True
  | c :: w => (s.closing = none → isBlank c = true →
      c = ' ' ∧ (∃ x ∈ before, isBlank x = false) ∧ ∃ y ∈ w.head?, isBlank y = false) ∧
    SpacedFrom (s.step c) (some c) w

theorem SpacedFrom.of_append {a b : List Char} {c : Char} (h : SpacedFrom s before (a ++ c :: b))
    (hs : (s.run a).closing = none) (hc : isBlank c = true) :
    c = ' ' ∧ (∃ x ∈ lastOr before a, isBlank x = false) ∧ ∃ y ∈ b.head?, isBlank y = false := by
  induction a generalizing s before with
  | nil => exact h.1 hs hc
  | cons d a ih =>
    rw [lastOr_cons]
    exact ih h.2 hs

/-- No blank closes a quote, and none outside of quotes is kept as it is. -/
theorem isBlank_eq_false_of_step {c : Char} (hs : s.Sound) (hc : s.closing = none → isBlank c = false)
    (hnext : (s.step c).closing = none) : isBlank c = false := by
  by_cases hclosing : s.closing = none
  · exact hc hclosing
  · by_contra hblank
    have hblanks : AllBlank [c] := List.forall_mem_singleton.mpr ((Bool.not_eq_false _).mp hblank)
    exact Scanner.closing_run_blanks hs hclosing hblanks hnext

/-- A space is written only when a character that is no blank follows it. -/
theorem spacedFrom_collapse (hs : s.Sound) (hpending : pending = true → started = true ∧ s.closing = none)
    (hbefore : started = true → s.closing = none → ∃ x ∈ before, isBlank x = false) :
    SpacedFrom s before (collapse s started pending t).1 := by
  induction t generalizing s started pending before with
  | nil => trivial
  | cons c t ih =>
    by_cases hblank : s.closing = none ∧ isBlank c = true
    · rw [collapse_blank hblank.1 hblank.2]
      exact ih hs (fun h => ⟨h, hblank.1⟩) hbefore
    · have hc : s.closing = none → isBlank c = false := fun hs =>
        Bool.eq_false_iff.mpr fun h => hblank ⟨hs, h⟩
      have hlater : SpacedFrom (s.step c) (some c) (collapse (s.step c) true false t).1 :=
        ih (hs.step c) (fun h => by cases h) fun _ hnext => ⟨c, rfl, isBlank_eq_false_of_step hs hc hnext⟩
      have hhere (b : Option Char) : SpacedFrom s b (c :: (collapse (s.step c) true false t).1) :=
        ⟨fun hclosing hblank => absurd ((hc hclosing).symm.trans hblank) Bool.false_ne_true, hlater⟩
      rw [collapse_char hc]
      cases pending with
      | false => exact hhere before
      | true =>
        -- The space that was due stands between what was kept and this character.
        obtain ⟨hstarted, hclosing⟩ := hpending rfl
        refine ⟨fun _ _ => ⟨rfl, hbefore hstarted hclosing, c, rfl, hc hclosing⟩, ?_⟩
        rw [Scanner.step_blank hclosing rfl]
        exact hhere _

theorem spacedSingly_of_normalize {r : List Char} (h : normalize t = .ok r) : SpacedSingly r := by
  obtain ⟨-, rfl⟩ := normalize_eq_ok_iff.mp h
  intro a c b hsplit hs hc
  have hspaced : SpacedFrom {} none (collapse {} false false t).1 :=
    spacedFrom_collapse Scanner.sound_start (fun h => by cases h) fun h => by cases h
  rw [hsplit] at hspaced
  simpa [lastOr] using hspaced.of_append hs hc

end Spaces

/-! ## The normal form -/

/-- **Normalising is canonical.**  Texts that differ in blanks alone have the same normal form or none;
a normal form is its own, differs from the text in blanks alone, has single spaces outside of quotes and
the quoted sections of the text; and a text has none exactly if it leaves something open or closes what
is not open. -/
theorem normalize_canonical :
    (∀ t u, VaryInBlanks t u →
      (∃ e e', normalize t = .error e ∧ normalize u = .error e') ∨
        ∃ r, normalize t = .ok r ∧ normalize u = .ok r) ∧
    (∀ t r, normalize t = .ok r →
      normalize r = .ok r ∧ VaryInBlanks t r ∧ SpacedSingly r ∧ quotesFrom {} r = quotesFrom {} t) ∧
    ∀ t, (∃ e, normalize t = .error e) ↔ LeavesOpen t := by
  have hagree (t u : List Char) (h : VaryInBlanks t u) :
      (∃ e e', normalize t = .error e ∧ normalize u = .error e') ∨
        ∃ r, normalize t = .ok r ∧ normalize u = .ok r := by
    by_cases ht : Balanced t
    · exact Or.inr ⟨_, normalize_eq_ok_iff.mpr ⟨ht, rfl⟩,
        normalize_eq_ok_iff.mpr ⟨h.balanced_iff.mp ht, (h.collapse_eq ht).symm⟩⟩
    · obtain ⟨e, he⟩ := exists_normalize_eq_error_iff.mpr ht
      obtain ⟨e', he'⟩ := exists_normalize_eq_error_iff.mpr fun hu => ht (h.balanced_iff.mpr hu)
      exact Or.inl ⟨e, e', he, he'⟩
  refine ⟨hagree, fun t r h => ?_, fun t => exists_normalize_eq_error_iff.trans leavesOpen_iff.symm⟩
  have hvary := varyInBlanks_of_normalize h
  have hbalanced : Balanced t := (normalize_eq_ok_iff.mp h).1
  refine ⟨?_, hvary, spacedSingly_of_normalize h, (hvary.quotesFrom_eq hbalanced).symm⟩
  -- The text and its normal form are variants, so they have one normal form.
  rcases hagree t r hvary with ⟨e, -, he, -⟩ | ⟨r', ht, hr⟩
  · rw [h] at he
    cases he
  · rw [h] at ht
    cases ht
    exact hr

/-- Two ways of putting blanks around a quoted text that holds blanks itself. -/
theorem normalize_around_quoted :
    VaryInBlanks " a \t'b  c'".toList "a 'b  c' \n".toList ∧
      ((∃ e e', normalize " a \t'b  c'".toList = .error e ∧
          normalize "a 'b  c' \n".toList = .error e') ∨
        ∃ r, normalize " a \t'b  c'".toList = .ok r ∧ normalize "a 'b  c' \n".toList = .ok r) ∧
      normalize " a \t'b  c'".toList = .ok "a 'b  c'".toList ∧
      quotesFrom {} "a 'b  c'".toList = quotesFrom {} " a \t'b  c'".toList ∧
      quotesFrom {} "a 'b  c'".toList = ["'b  c'".toList] := by
  have hquoted : AlikeButBlanks {} "'b  c'".toList "'b  c'".toList :=
    .char (by decide) <| .char (by decide) <| .char (by decide) <| .char (by decide) <|
      .char (by decide) <| .char (by decide) .nil
  have halike : AlikeButBlanks {} "a \t'b  c'".toList "a 'b  c'".toList :=
    .char (by decide) (.blanks (v := [' ', '\t']) (w := [' ']) rfl (by decide) (by decide) (by decide)
      (by decide) hquoted)
  have hvary : VaryInBlanks " a \t'b  c'".toList "a 'b  c' \n".toList :=
    ⟨[' '], [], _, _, [], [' ', '\n'], rfl, rfl, by decide, by decide, by decide, by decide, halike⟩
  have hnormal : normalize " a \t'b  c'".toList = .ok "a 'b  c'".toList := by decide
  exact ⟨hvary, normalize_canonical.1 _ _ hvary, hnormal,
    (normalize_canonical.2.1 _ _ hnormal).2.2.2, by decide⟩

end DocQuery.Grammar
