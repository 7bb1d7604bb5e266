import DocQuery.Proofs.Grammar.Parts
import Mathlib.Data.List.DropRight
import Mathlib.Data.List.Infix

/-!
# DocQuery.Proofs.Grammar.Nesting — what is nested never splits a clause

Two texts that are written over one skeleton have the same characters at top level, and at the same
places groups in parentheses and quotes with contents of their own.  Such a section shows a search its
first character and no other, and no search is for that one.  So every search ends at one place of the
skeleton in both texts, and both are split into the texts over one list of parts
(`searches_see_skeleton`): neither a keyword nor a delimiter, quote or bracket within the contents makes
a difference.
-/

namespace DocQuery.Grammar

open Text (isBlank isWordChar)

/-! ## Sections -/

/-- A text that stays in the quote in front of it: nothing in it closes the quote, and it does not end
in a backslash that would take what follows as it is. -/
structure StaysQuoted (closing : Char) (w : List Char) : Prop where
  inside : ∀ u, u <+: w → (Scanner.run { closing := some closing } u).closing = some closing
  unescaped : (Scanner.run { closing := some closing } w).escaped = false

instance (closing : Char) (w : List Char) : Decidable (StaysQuoted closing w) :=
  decidable_of_iff
    ((∀ u ∈ w.inits, (Scanner.run { closing := some closing } u).closing = some closing) ∧
      (Scanner.run { closing := some closing } w).escaped = false)
    ⟨fun h => ⟨fun u hu => h.1 u ((List.mem_inits u w).mpr hu), h.2⟩,
      fun h => ⟨fun u hu => h.inside u ((List.mem_inits u w).mp hu), h.unescaped⟩⟩

/-- One or more sections of a text: balanced groups in parentheses, and complete quotes of any kind. -/
inductive IsNested : List Char → Prop
  | group {w : List Char} (hw : Balanced w) : IsNested ('(' :: (w ++ [')']))
  | quoted {opening closing : Char} {w : List Char} (hopening : Scanner.closer? opening = some closing)
      (hw : StaysQuoted closing w) : IsNested (opening :: (w ++ [closing]))
  | append {u v : List Char} (hu : IsNested u) (hv : IsNested v) : IsNested (u ++ v)

section Sections

variable {P : Option Char → List Char → Prop} {s : Scanner} {before : Option Char} {w : List Char}
  {opening closing : Char}

/-- The scanner keeps its depth within a quote. -/
theorem Scanner.run_quoted (h : ∀ u, u <+: w → (s.run u).closing = some closing) :
    s.run w = { s with closing := some closing, escaped := (s.run w).escaped } := by
  induction w generalizing s with
  | nil =>
    have hclosing : s.closing = some closing := h [] List.nil_prefix
    rw [← hclosing]
    rfl
  | cons c w ih =>
    have hclosing : s.closing = some closing := h [] List.nil_prefix
    have hrest := ih (s := s.step c) fun u hu => h (c :: u) (List.cons_prefix_cons.mpr ⟨rfl, hu⟩)
    have hstep : (s.step c).depth = s.depth ∧ (s.step c).unbalanced = s.unbalanced := by
      unfold Scanner.step
      rw [hclosing]
      simp only
      split_ifs <;> exact ⟨rfl, rfl⟩
    rw [Scanner.run_cons, hrest, hstep.1, hstep.2]

/-- Within a quote there is no place at top level. -/
theorem TopAll.of_quoted (h : ∀ u, u <+: w → (s.run u).closing = some closing) :
    TopAll P s before w := by
  induction w generalizing s before with
  | nil => trivial
  | cons c w ih =>
    refine ⟨fun htop => ?_, ih fun u hu => h (c :: u) (List.cons_prefix_cons.mpr ⟨rfl, hu⟩)⟩
    have hclosing : s.closing = some closing := h [] List.nil_prefix
    rw [Scanner.closing_of_isTopLevel htop] at hclosing
    cases hclosing

theorem not_neutral_of_closer? (h : Scanner.closer? opening = some closing) : ¬ Neutral opening := by
  rintro ⟨-, -, hnone⟩
  rw [h] at hnone
  cases hnone

/-- A quote is opened and closed by these characters alone. -/
theorem mem_closers (h : Scanner.closer? opening = some closing) :
    opening ∈ ['\'', '"', '\x60', '['] ∧ closing ∈ ['\'', '"', '\x60', ']'] := by
  unfold Scanner.closer? at h
  split_ifs at h with hsame hbracket
  · cases h
    rcases hsame with rfl | rfl | rfl <;> decide
  · cases h
    rw [hbracket]
    decide

theorem step_opening (h : Scanner.closer? opening = some closing) :
    Scanner.step {} opening = { closing := some closing } := by
  have hne : opening ≠ '(' ∧ opening ≠ ')' := by
    have hmem := (mem_closers h).1
    refine ⟨?_, ?_⟩ <;> (rintro rfl; revert hmem; decide)
  simp only [Scanner.step, if_neg hne.1, if_neg hne.2, h]

theorem StaysQuoted.run_eq (hw : StaysQuoted closing w) :
    Scanner.run { closing := some closing } w = { closing := some closing } := by
  rw [Scanner.run_quoted hw.inside, hw.unescaped]

/-- A quote is over at the character that closes it. -/
theorem step_closing (h : Scanner.closer? opening = some closing) :
    Scanner.step { closing := some closing } closing = {} := by
  have hne : ¬ (closing = '\\' ∧ closing ≠ ']') := by
    rintro ⟨rfl, -⟩
    have hmem := (mem_closers h).2
    revert hmem
    decide
  simp only [Scanner.step, Bool.false_eq_true, if_false, if_neg hne, if_true]

namespace IsNested

/-- Sections close what they open. -/
theorem balanced (h : IsNested w) : Balanced w := by
  induction h with
  | group hw => exact hw.group
  | quoted hopening hw =>
    rw [Balanced, Scanner.run_cons, step_opening hopening, Scanner.run_append, hw.run_eq]
    exact step_closing hopening
  | append hu hv ihu ihv => exact ihu.append ihv

/-- **A section shows its first character alone**, and that is one that opens it. -/
theorem topAll (h : IsNested w) (hP : ∀ b c t, ¬ Neutral c → P b (c :: t)) :
    TopAll P {} before w := by
  induction h generalizing P before with
  | group hw => exact TopAll.group hw (hP _ _ _ fun h => h.1 rfl)
  | quoted hopening hw =>
    refine ⟨fun _ => hP _ _ _ (not_neutral_of_closer? hopening), ?_⟩
    rw [step_opening hopening, TopAll.append_iff]
    -- The character that closes a quote still stands within it.
    refine ⟨.of_quoted hw.inside, fun htop => ?_, trivial⟩
    rw [hw.run_eq] at htop
    cases htop
  | append hu hv ihu ihv =>
    rw [TopAll.append_iff, hu.balanced]
    exact ⟨ihu fun b c t hc => hP b c _ hc, ihv hP⟩

theorem exists_eq_cons (h : IsNested w) : ∃ c t, w = c :: t ∧ ¬ Neutral c := by
  induction h with
  | group hw => exact ⟨_, _, rfl, fun h => h.1 rfl⟩
  | quoted hopening hw => exact ⟨_, _, rfl, not_neutral_of_closer? hopening⟩
  | append hu hv ihu ihv =>
    obtain ⟨c, t, rfl, hc⟩ := ihu
    exact ⟨c, _, rfl, hc⟩

theorem exists_eq_concat (h : IsNested w) :
    ∃ t c, w = t ++ [c] ∧ isWordChar c = false ∧ isBlank c = false := by
  induction h with
  | @group w hw => exact ⟨'(' :: w, ')', rfl, by decide, by decide⟩
  | @quoted opening closing w hopening hw =>
    have hall : ∀ c ∈ ['\'', '"', '\x60', ']'], isWordChar c = false ∧ isBlank c = false := by decide
    exact ⟨opening :: w, closing, rfl, hall _ (mem_closers hopening).2⟩
  | @append u v hu hv ihu ihv =>
    obtain ⟨t, c, rfl, hc⟩ := ihv
    exact ⟨u ++ t, c, (List.append_assoc ..).symm, hc⟩

end IsNested

end Sections

/-! ## Skeletons -/

/-- Which of two texts over a skeleton. -/
inductive Side
  | left | right

/-- What stands at a place of a skeleton: a character that is in both texts, or sections in each. -/
inductive Piece
  | char (c : Char) (hc : Neutral c)
  | nested (sections : Side → { w : List Char // IsNested w })

namespace Piece

/-- What a piece is in one of the texts. -/
def text (side : Side) : Piece → List Char
  | char c _ => [c]
  | nested sections => (sections side).val

/-- Whether a piece is a blank, which can only be a character. -/
def isBlank : Piece → Bool
  | char c _ => Text.isBlank c
  | nested _ => false

end Piece

/-- One of the texts over a skeleton. -/
def textOver (side : Side) (pieces : List Piece) : List Char := pieces.flatMap (Piece.text side)

section Skeletons

variable {side : Side} {p : Piece} {pieces more : List Piece}

theorem textOver_cons : textOver side (p :: pieces) = p.text side ++ textOver side pieces := rfl

theorem textOver_append : textOver side (pieces ++ more) = textOver side pieces ++ textOver side more :=
  List.flatMap_append

theorem Piece.balanced (side : Side) (p : Piece) : Balanced (p.text side) := by
  cases p with
  | char c hc => exact hc.step (s := {}) rfl
  | nested sections => exact (sections side).property.balanced

theorem Piece.text_ne_nil (side : Side) (p : Piece) : p.text side ≠ [] := by
  cases p with
  | char c hc => exact List.cons_ne_nil c []
  | nested sections =>
    obtain ⟨c, t, hw, -⟩ := (sections side).property.exists_eq_cons
    rw [text, hw]
    exact List.cons_ne_nil c t

/-- Behind a piece both texts are in a word or neither is. -/
theorem Piece.touchesWord_lastOr (p : Piece) (before before' : Option Char) (side side' : Side) :
    touchesWord (lastOr before (p.text side)) = touchesWord (lastOr before' (p.text side')) := by
  cases p with
  | char c hc => rfl
  | nested sections =>
    have hword (b : Option Char) (side : Side) :
        touchesWord (lastOr b (sections side).val) = false := by
      obtain ⟨t, c, hw, hc, -⟩ := (sections side).property.exists_eq_concat
      rw [hw, lastOr, List.getLast?_concat, Option.some_or]
      exact hc
    exact (hword before side).trans (hword before' side').symm

/-! ### Blanks at the ends -/

theorem neutral_of_isBlank {c : Char} (h : isBlank c = true) : Neutral c := by
  have hne (d : Char) (hd : isBlank d = false) : c ≠ d := by
    rintro rfl
    rw [h] at hd
    cases hd
  refine ⟨hne _ rfl, hne _ rfl, ?_⟩
  simp [Scanner.closer?, hne '\'' rfl, hne '"' rfl, hne '\x60' rfl, hne '[' rfl]

theorem dropWhile_textOver (side : Side) (pieces : List Piece) :
    (textOver side pieces).dropWhile isBlank = textOver side (pieces.dropWhile Piece.isBlank) := by
  induction pieces with
  | nil => rfl
  | cons p pieces ih =>
    cases p with
    | char c hc =>
      cases hblank : isBlank c with
      | true =>
        rw [List.dropWhile_cons_of_pos (by exact hblank), ← ih]
        exact List.dropWhile_cons_of_pos hblank
      | false =>
        rw [List.dropWhile_cons_of_neg (by exact Bool.eq_false_iff.mp hblank)]
        exact List.dropWhile_cons_of_neg (Bool.eq_false_iff.mp hblank)
    | nested sections =>
      obtain ⟨c, t, hw, hc⟩ := (sections side).property.exists_eq_cons
      have hblank : ¬ isBlank c = true := fun h => hc (neutral_of_isBlank h)
      rw [List.dropWhile_cons_of_neg (by exact Bool.false_ne_true), textOver_cons, Piece.text, hw]
      exact List.dropWhile_cons_of_neg hblank

theorem rdropWhile_textOver (side : Side) (pieces : List Piece) :
    (textOver side pieces).rdropWhile isBlank = textOver side (pieces.rdropWhile Piece.isBlank) := by
  induction pieces using List.reverseRecOn with
  | nil => rfl
  | append_singleton pieces p ih =>
    rw [textOver_append]
    cases p with
    | char c hc =>
      show (textOver side pieces ++ [c]).rdropWhile isBlank = _
      rw [List.rdropWhile_concat, List.rdropWhile_concat, ih]
      cases hblank : isBlank c with
      | true => rw [if_pos rfl, if_pos (by exact hblank)]
      | false =>
        rw [if_neg Bool.false_ne_true, if_neg (by exact Bool.eq_false_iff.mp hblank), textOver_append]
        rfl
    | nested sections =>
      obtain ⟨t, c, hw, -, hc⟩ := (sections side).property.exists_eq_concat
      have htext : textOver side [Piece.nested sections] = t ++ [c] :=
        (List.append_nil _).trans hw
      rw [List.rdropWhile_concat_neg _ _ _ (by exact Bool.false_ne_true), textOver_append, htext,
        ← List.append_assoc, List.rdropWhile_concat_neg _ _ _ (Bool.eq_false_iff.mp hc)]

/-- A skeleton without the blanks at its ends. -/
def trimPieces (pieces : List Piece) : List Piece :=
  (pieces.dropWhile Piece.isBlank).rdropWhile Piece.isBlank

/-- **A text is trimmed by trimming its skeleton.** -/
theorem trim_textOver (side : Side) (pieces : List Piece) :
    Text.trim (textOver side pieces) = textOver side (trimPieces pieces) := by
  rw [trimPieces, ← rdropWhile_textOver, ← dropWhile_textOver]
  rfl

theorem textOver_eq_nil_iff : textOver side pieces = [] ↔ pieces = [] := by
  refine ⟨fun h => ?_, fun h => by rw [h]; rfl⟩
  cases pieces with
  | nil => rfl
  | cons p pieces => exact absurd (List.append_eq_nil_iff.mp h).1 (p.text_ne_nil side)

end Skeletons

/-! ## Searches -/

/-- What is in front of two texts, if a word goes on in both of them or in neither. -/
def Abreast (before : Side → Option Char) : Prop :=
  ∀ side side', touchesWord (before side) = touchesWord (before side')

/-- A test that is for characters of the skeleton: it takes the same pieces from every text over one,
and nothing where a section begins. -/
structure SeesSkeleton {α : Type} (test : Option Char → List Char → Option (α × List Char)) :
    Prop where
  found : ∀ {pieces : List Piece} {before : Side → Option Char} {side : Side} {a : α}
    {rest : List Char}, Abreast before → test (before side) (textOver side pieces) = some (a, rest) →
      ∃ d cut after, d ≠ [] ∧ (∀ c ∈ d, Neutral c) ∧ pieces = cut ++ after ∧
        ∀ side, textOver side cut = d ∧
          test (before side) (textOver side pieces) = some (a, textOver side after)
  opening : ∀ (before : Option Char) {c : Char} (t : List Char), ¬ Neutral c → test before (c :: t) = none

section Tests

variable {α : Type}

/-- A character that differs from one of the skeleton at most in case is of the skeleton. -/
theorem Neutral.of_toLower_eq {a c : Char} (ha : Neutral a) (h : a.toLower = c.toLower) : Neutral c := by
  by_contra hc
  have hmem : c ∈ ['(', ')', '\'', '"', '\x60', '['] := by
    by_contra hmem
    simp only [List.mem_cons, List.not_mem_nil, or_false, not_or] at hmem
    exact hc ⟨hmem.1, hmem.2.1, by simp [Scanner.closer?, hmem]⟩
  -- What opens a section is no letter, so nothing else differs from it in case alone.
  have hall : ∀ c ∈ ['(', ')', '\'', '"', '\x60', '['], c.isAlpha = false := by decide
  rw [toLower_of_isAlpha_eq_false (hall c hmem)] at h
  exact hc (eq_of_toLower_eq (hall c hmem) h ▸ ha)

theorem afterPattern?_textOver {p rest : List Char} {pieces : List Piece} {side : Side}
    (hp : ∀ c ∈ p, Neutral c) (h : afterPattern? p (textOver side pieces) = some rest) :
    ∃ d cut after, d.length = p.length ∧ (∀ c ∈ d, Neutral c) ∧ pieces = cut ++ after ∧
      ∀ side, textOver side cut = d ∧
        afterPattern? p (textOver side pieces) = some (textOver side after) := by
  induction p generalizing pieces with
  | nil => exact ⟨[], [], pieces, rfl, List.forall_mem_nil _, rfl, fun side => ⟨rfl, rfl⟩⟩
  | cons a p ih =>
    obtain ⟨ha, hp⟩ := List.forall_mem_cons.mp hp
    cases pieces with
    | nil => cases h
    | cons first pieces =>
      cases first with
      | char c hc =>
        have hstep (side : Side) : afterPattern? (a :: p) (textOver side (.char c hc :: pieces)) =
            if a.toLower = c.toLower then afterPattern? p (textOver side pieces) else none := rfl
        rw [hstep] at h
        split_ifs at h with hac
        obtain ⟨d, cut, after, hlength, hd, rfl, hafter⟩ := ih hp h
        refine ⟨c :: d, .char c hc :: cut, after, congrArg (· + 1) hlength,
          List.forall_mem_cons.mpr ⟨hc, hd⟩, rfl, fun side => ⟨?_, ?_⟩⟩
        · exact congrArg (c :: ·) (hafter side).1
        · rw [hstep, if_pos hac]
          exact (hafter side).2
      | nested sections =>
        obtain ⟨c, t, hw, hc⟩ := (sections side).property.exists_eq_cons
        rw [textOver_cons, Piece.text, hw, List.cons_append, afterPattern?] at h
        split_ifs at h with hac
        exact absurd (ha.of_toLower_eq hac) hc

/-- A keyword or a delimiter: it is not empty, and none of its characters begins a section. -/
structure IsPlain (p : List Char) : Prop where
  nonempty : p ≠ []
  neutral : ∀ c ∈ p, Neutral c

theorem IsPlain.afterPattern?_of_not_neutral {p t : List Char} {c : Char} (hp : IsPlain p)
    (hc : ¬ Neutral c) : afterPattern? p (c :: t) = none := by
  obtain ⟨a, p, rfl⟩ := List.exists_cons_of_ne_nil hp.nonempty
  rw [afterPattern?, if_neg fun h => hc ((hp.neutral a List.mem_cons_self).of_toLower_eq h)]

/-- What a plain pattern takes is not empty. -/
theorem IsPlain.ne_nil_of_length_eq {p d : List Char} (hp : IsPlain p) (h : d.length = p.length) :
    d ≠ [] := by
  rintro rfl
  exact hp.nonempty (List.eq_nil_of_length_eq_zero h.symm)

theorem IsPlain.seesSkeleton_pattern {p : List Char} (hp : IsPlain p) (a : α) :
    SeesSkeleton fun _ t => (afterPattern? p t).map (a, ·) where
  found _ h := by
    obtain ⟨rest, hrest, heq⟩ := Option.map_eq_some_iff.mp h
    cases heq
    obtain ⟨d, cut, after, hlength, hd, hpieces, hafter⟩ := afterPattern?_textOver hp.neutral hrest
    refine ⟨d, cut, after, hp.ne_nil_of_length_eq hlength, hd, hpieces,
      fun side => ⟨(hafter side).1, ?_⟩⟩
    rw [(hafter side).2]
    rfl
  opening _ _ _ hc := by rw [hp.afterPattern?_of_not_neutral hc]; rfl

/-- A word goes on behind a skeleton in both texts or in neither. -/
theorem touchesWord_head?_textOver (side side' : Side) (pieces : List Piece) :
    touchesWord (textOver side pieces).head? = touchesWord (textOver side' pieces).head? := by
  cases pieces with
  | nil => rfl
  | cons p pieces =>
    cases p with
    | char c hc => rfl
    | nested sections =>
      have hword (side : Side) :
          touchesWord (textOver side (.nested sections :: pieces)).head? = false := by
        obtain ⟨c, t, hw, hc⟩ := (sections side).property.exists_eq_cons
        rw [textOver_cons, Piece.text, hw]
        exact Bool.eq_false_iff.mpr fun h => hc (neutral_of_isWordChar h)
      rw [hword, hword]

theorem IsPlain.seesSkeleton_keyword {k : List Char} (hk : IsPlain k) :
    SeesSkeleton fun b t => (afterKeyword? k b t).map ((), ·) where
  found {pieces before side a rest} hbefore h := by
    obtain ⟨rest, hrest, heq⟩ := Option.map_eq_some_iff.mp h
    cases heq
    unfold afterKeyword? at hrest
    split_ifs at hrest with hword
    obtain ⟨hpattern, hend⟩ := Option.filter_eq_some_iff.mp hrest
    obtain ⟨d, cut, after, hlength, hd, hpieces, hafter⟩ := afterPattern?_textOver hk.neutral hpattern
    -- Both texts go on behind the keyword with one skeleton, so a word ends there in both.
    obtain rfl : rest = textOver side after := Option.some.inj (hpattern.symm.trans (hafter side).2)
    refine ⟨d, cut, after, hk.ne_nil_of_length_eq hlength, hd, hpieces,
      fun side' => ⟨(hafter side').1, ?_⟩⟩
    have hend' : (!touchesWord (textOver side' after).head?) = true := by
      rwa [touchesWord_head?_textOver side' side]
    rw [afterKeyword?, hbefore side' side, if_neg hword, (hafter side').2]
    simp only [Option.filter_some, hend', if_true, Option.map_some]
  opening before c t hc := by
    rw [afterKeyword?, hk.afterPattern?_of_not_neutral hc]
    split_ifs <;> rfl

/-- The first of several patterns. -/
theorem seesSkeleton_findSome? {patterns : List (List Char × α)} (h : ∀ p ∈ patterns, IsPlain p.1) :
    SeesSkeleton fun _ t => patterns.findSome? fun (p, a) => (afterPattern? p t).map (a, ·) := by
  induction patterns with
  | nil => exact ⟨fun _ h => (by cases h), fun _ _ _ _ => rfl⟩
  | cons p patterns ih =>
    obtain ⟨hp, hpatterns⟩ := List.forall_mem_cons.mp h
    have hfirst := hp.seesSkeleton_pattern p.2
    have hothers := ih hpatterns
    refine ⟨fun {pieces before side a rest} hbefore hfound => ?_, fun before c t hc => ?_⟩
    · simp only [List.findSome?_cons] at hfound ⊢
      cases hhere : (afterPattern? p.1 (textOver side pieces)).map (p.2, ·) with
      | some found =>
        rw [hhere] at hfound
        cases hfound
        obtain ⟨d, cut, after, hne, hd, hpieces, hafter⟩ := hfirst.found hbefore hhere
        refine ⟨d, cut, after, hne, hd, hpieces, fun side => ⟨(hafter side).1, ?_⟩⟩
        rw [(hafter side).2]
      | none =>
        rw [hhere] at hfound
        obtain ⟨d, cut, after, hne, hd, hpieces, hafter⟩ := hothers.found hbefore hfound
        refine ⟨d, cut, after, hne, hd, hpieces, fun side' => ⟨(hafter side').1, ?_⟩⟩
        -- Were the first pattern found in one text, it would be found in the other.
        cases hthere : (afterPattern? p.1 (textOver side' pieces)).map (p.2, ·) with
        | none => exact (hafter side').2
        | some found =>
          obtain ⟨_, _, after', _, _, _, hsame⟩ := hfirst.found hbefore hthere
          have hboth := hhere.symm.trans (hsame side).2
          cases hboth
    · simp only [List.findSome?_cons]
      have hnone : (afterPattern? p.1 (c :: t)).map (p.2, ·) = none := by
        rw [hp.afterPattern?_of_not_neutral hc]
        rfl
      rw [hnone]
      exact hothers.opening before t hc

end Tests

/-! ### One place -/

section Searches

variable {α : Type} {test : Option Char → List Char → Option (α × List Char)}
  {before : Side → Option Char} {pieces : List Piece}

/-- Where a search ends in the texts over a skeleton: nowhere in both, or at one place. -/
def CutAlike (pieces : List Piece) (found : Side → Option (List Char × α × List Char)) : Prop :=
  (∀ side, found side = none) ∨ ∃ front cut after a, pieces = front ++ (cut ++ after) ∧
    ∀ side, found side = some (textOver side front, a, textOver side after)

theorem Abreast.behind (p : Piece) (before : Side → Option Char) :
    Abreast fun side => lastOr (before side) (p.text side) :=
  fun side side' => p.touchesWord_lastOr _ _ side side'

theorem lastOr_append (b : Option Char) (u v : List Char) :
    lastOr b (u ++ v) = lastOr (lastOr b u) v := by
  rw [lastOr, List.getLast?_append, Option.or_assoc]
  rfl

theorem Abreast.textOver (h : Abreast before) (done : List Piece) :
    Abreast fun side => lastOr (before side) (textOver side done) := by
  induction done generalizing before with
  | nil => exact h
  | cons p done ih =>
    have hdone := ih (Abreast.behind p before)
    intro side side'
    have hsame := hdone side side'
    simp only [← lastOr_append] at hsame
    exact hsame

/-- A test for characters of the skeleton fails in all texts over it if it fails in one. -/
theorem SeesSkeleton.missed (htest : SeesSkeleton test) (hbefore : Abreast before) {side : Side}
    (h : test (before side) (textOver side pieces) = none) (side' : Side) :
    test (before side') (textOver side' pieces) = none := by
  by_contra hne
  obtain ⟨⟨a, rest⟩, hfound⟩ := Option.ne_none_iff_exists'.mp hne
  obtain ⟨_, _, after, _, _, _, hafter⟩ := htest.found hbefore hfound
  rw [(hafter side).2] at h
  cases h

/-- No such test succeeds within a piece, unless at a character. -/
theorem SeesSkeleton.topAll (htest : SeesSkeleton test) {p : Piece} {side : Side} {b : Option Char}
    {rest : List Char} (h : test b (p.text side ++ rest) = none) :
    TopAll (fun b t => test b (t ++ rest) = none) {} b (p.text side) := by
  cases p with
  | char c hc => exact ⟨fun _ => h, trivial⟩
  | nested sections => exact (sections side).property.topAll fun b c t hc => htest.opening b _ hc

theorem findTop?_here {b : Option Char} {t rest : List Char} {a : α} (h : test b t = some (a, rest))
    (ht : t ≠ []) : findTop? test {} b t = some ([], a, rest) := by
  obtain ⟨c, t, rfl⟩ := List.exists_cons_of_ne_nil ht
  have hhere : (if Scanner.isTopLevel {} = true then test b (c :: t) else none) = some (a, rest) := h
  rw [findTop?, hhere]

/-- **A search ends at one place of the skeleton.** -/
theorem SeesSkeleton.findTop? (htest : SeesSkeleton test) (hbefore : Abreast before) :
    CutAlike pieces fun side => findTop? test {} (before side) (textOver side pieces) := by
  induction pieces generalizing before with
  | nil => exact Or.inl fun side => rfl
  | cons p pieces ih =>
    cases hfound : test (before .left) (textOver .left (p :: pieces)) with
    | some found =>
      obtain ⟨a, rest⟩ := found
      obtain ⟨_, cut, after, _, _, hpieces, hafter⟩ := htest.found hbefore hfound
      refine Or.inr ⟨[], cut, after, a, hpieces, fun side => findTop?_here (hafter side).2 fun hnil => ?_⟩
      exact List.cons_ne_nil p pieces (textOver_eq_nil_iff.mp hnil)
    | none =>
      have hskip (side : Side) : Grammar.findTop? test {} (before side) (textOver side (p :: pieces)) =
          (Grammar.findTop? test {} (lastOr (before side) (p.text side)) (textOver side pieces)).map
            fun cut => (p.text side ++ cut.1, cut.2) := by
        have hmissed : test (before side) (p.text side ++ textOver side pieces) = none :=
          htest.missed hbefore hfound side
        rw [textOver_cons, findTop?_append (htest.topAll hmissed), p.balanced side]
      rcases ih (Abreast.behind p before) with hnone | ⟨front, cut, after, a, rfl, hcut⟩
      · exact Or.inl fun side => (hskip side).trans (congrArg (Option.map _) (hnone side))
      · exact Or.inr ⟨p :: front, cut, after, a, rfl,
          fun side => (hskip side).trans (congrArg (Option.map _) (hcut side))⟩

end Searches

/-! ### Parts -/

section Parts

variable {test : Option Char → List Char → Option (List Char)} {before : Side → Option Char}
  {pieces : List Piece} {parts : List (List Piece)}

/-- Parts of a skeleton that stand in it one after another, with something left out around them. -/
inductive Consecutive : List Piece → List (List Piece) → Prop
  | nil (rest : List Piece) : Consecutive rest []
  | cons (gap : List Piece) {part rest : List Piece} {parts : List (List Piece)}
      (h : Consecutive rest parts) : Consecutive (gap ++ (part ++ rest)) (part :: parts)

theorem Consecutive.behind (h : Consecutive pieces parts) (gap : List Piece) :
    Consecutive (gap ++ pieces) parts := by
  cases h with
  | nil => exact .nil _
  | cons more h =>
    rw [← List.append_assoc]
    exact .cons (gap ++ more) h

theorem exists_eq_trimPieces (pieces : List Piece) : ∃ u v, pieces = u ++ (trimPieces pieces ++ v) := by
  obtain ⟨v, hv⟩ := List.rdropWhile_prefix Piece.isBlank (l := pieces.dropWhile Piece.isBlank)
  refine ⟨pieces.takeWhile Piece.isBlank, v, ?_⟩
  rw [trimPieces, hv, List.takeWhile_append_dropWhile]

/-- Parts that are trimmed and left out if nothing is left of them. -/
def trimParts (parts : List (List Piece)) : List (List Piece) :=
  (parts.map trimPieces).filter (!·.isEmpty)

theorem Consecutive.trimParts (h : Consecutive pieces parts) : Consecutive pieces (trimParts parts) := by
  induction h with
  | nil rest => exact .nil rest
  | @cons gap part rest parts h ih =>
    obtain ⟨u, v, hpart⟩ := exists_eq_trimPieces part
    unfold Grammar.trimParts at ih ⊢
    rw [List.map_cons, List.filter_cons]
    split_ifs with hkept
    · have hpieces : gap ++ (part ++ rest) = (gap ++ u) ++ (trimPieces part ++ (v ++ rest)) := by
        conv_lhs => rw [hpart]
        simp only [List.append_assoc]
      rw [hpieces]
      exact .cons _ (ih.behind v)
    · exact (ih.behind part).behind gap

theorem textOver_trimParts (side : Side) (parts : List (List Piece)) :
    ((parts.map (textOver side)).map Text.trim).filter (· ≠ []) =
      (trimParts parts).map (textOver side) := by
  induction parts with
  | nil => rfl
  | cons part parts ih =>
    rw [trimParts] at ih ⊢
    rw [List.map_cons, List.map_cons, List.map_cons, List.filter_cons, List.filter_cons, trim_textOver,
      ih]
    by_cases hnil : trimPieces part = []
    · simp [hnil, textOver]
    · have hne : textOver side (trimPieces part) ≠ [] := fun h => hnil (textOver_eq_nil_iff.mp h)
      simp [hnil, hne]

/-- Where a delimiter is found in one text, all of them are split again behind it. -/
theorem exists_splitTop_of_found (htest : SeesSkeleton fun b t => (test b t).map ((), ·))
    (hbefore : Abreast before) {side : Side} {rest : List Char}
    (h : test (before side) (textOver side pieces) = some rest) :
    ∃ d cut after, cut ≠ [] ∧ pieces = cut ++ after ∧ (Abreast fun side => lastOr (before side) d) ∧
      ∀ side, splitTop test {} 0 (before side) (textOver side pieces) =
        [] :: splitTop test {} 0 (lastOr (before side) d) (textOver side after) := by
  obtain ⟨d, cut, after, hne, hd, rfl, hafter⟩ :=
    htest.found hbefore (show _ = some ((), rest) by rw [h]; rfl)
  have hcut : cut ≠ [] := by
    rintro rfl
    exact hne (hafter .left).1.symm
  have hbehind : Abreast fun side => lastOr (before side) d := by
    obtain ⟨c, d, rfl⟩ := List.exists_cons_of_ne_nil hne
    intro side side'
    simp only [lastOr_cons]
  refine ⟨d, cut, after, hcut, rfl, hbehind, fun side => ?_⟩
  obtain ⟨_, hsome, heq⟩ := Option.map_eq_some_iff.mp (hafter side).2
  cases heq
  rw [textOver_append, (hafter side).1] at hsome ⊢
  exact splitTop_delimiter rfl hne hd hsome

/-- Where none is found in one text, a piece belongs to the first part of all of them. -/
theorem splitTop_of_missed (htest : SeesSkeleton fun b t => (test b t).map ((), ·))
    (hbefore : Abreast before) {p : Piece} {side : Side}
    (h : test (before side) (textOver side (p :: pieces)) = none) (side' : Side) :
    splitTop test {} 0 (before side') (textOver side' (p :: pieces)) = appendFirst (p.text side')
      (splitTop test {} 0 (lastOr (before side') (p.text side')) (textOver side' pieces)) := by
  have hnone : (test (before side) (textOver side (p :: pieces))).map ((), ·) = none := by
    rw [h]
    rfl
  have hmissed : (test (before side') (p.text side' ++ textOver side' pieces)).map ((), ·) = none :=
    htest.missed hbefore hnone side'
  have hskip := TopAll.mono (fun _ _ _ h => Option.map_eq_none_iff.mp h) (htest.topAll hmissed)
  rw [textOver_cons, splitTop_append hskip, p.balanced side']

/-- **A text is split at places of the skeleton.** -/
theorem splitTop_textOver (pieces : List Piece) (htest : SeesSkeleton fun b t => (test b t).map ((), ·))
    (hbefore : Abreast before) : ∃ part rest parts, pieces = part ++ rest ∧ Consecutive rest parts ∧
      ∀ side, splitTop test {} 0 (before side) (textOver side pieces) =
        (part :: parts).map (textOver side) := by
  -- Behind a delimiter the text is split again, so this is no induction along the pieces.
  induction hlength : pieces.length using Nat.strong_induction_on generalizing before pieces with
  | _ n ih =>
    subst hlength
    cases pieces with
    | nil => exact ⟨[], [], [], rfl, .nil [], fun side => rfl⟩
    | cons p pieces =>
      cases hfound : test (before .left) (textOver .left (p :: pieces)) with
      | some rest =>
        obtain ⟨d, cut, after, hcut, hpieces, hbehind, hsplits⟩ :=
          exists_splitTop_of_found htest hbefore hfound
        have hshorter : after.length < (p :: pieces).length := by
          have hpositive := List.length_pos_iff.mpr hcut
          rw [hpieces, List.length_append]
          omega
        obtain ⟨part, rest', parts, rfl, hparts, hsplit⟩ := ih _ hshorter after hbehind rfl
        refine ⟨[], p :: pieces, part :: parts, rfl, hpieces ▸ .cons cut hparts, fun side => ?_⟩
        rw [hsplits side, hsplit side]
        rfl
      | none =>
        obtain ⟨part, rest, parts, rfl, hparts, hsplit⟩ :=
          ih _ (Nat.lt_succ_self _) pieces (Abreast.behind p before) rfl
        refine ⟨p :: part, rest, parts, rfl, hparts, fun side => ?_⟩
        rw [splitTop_of_missed htest hbefore hfound side, hsplit side]
        rfl

end Parts

/-! ## What a clause is cut at -/

/-- The keywords and patterns that a query text is cut at, all of them. -/
def searchedPatterns : List (List Char) :=
  "SELECT".toList :: clauseKeywords.map String.toList ++ ["JOIN".toList, "ON".toList, "AS".toList] ++
    comparisonSpellings.map Prod.fst ++ [[','], ['='], " AND ".toList, " OR ".toList]

/-- **None of them begins a section.** -/
theorem isPlain_of_mem_searchedPatterns : ∀ p ∈ searchedPatterns, IsPlain p := by
  have hall : ∀ p ∈ searchedPatterns, p ≠ [] ∧ ∀ c ∈ p, Neutral c := by decide
  exact fun p hp => ⟨(hall p hp).1, (hall p hp).2⟩

/-- **No search looks into a section.**  Whatever stands in the sections of two texts over one skeleton,
a keyword is found at one place of the skeleton in both or in neither, also behind any place where the
search goes on; so are a pattern and the first of several patterns; and both texts are split into the
texts over the same consecutive parts.  This holds of all that a query text is cut at. -/
theorem searches_see_skeleton (pieces : List Piece) :
    (∀ p ∈ searchedPatterns, IsPlain p) ∧
    (∀ k, IsPlain k → ∀ done, (∀ side, cutKeyword? k (lastOr none (textOver side done))
          (textOver side pieces) = none) ∨
        ∃ front cut after, pieces = front ++ (cut ++ after) ∧ ∀ side,
          cutKeyword? k (lastOr none (textOver side done)) (textOver side pieces) =
            some (textOver side front, textOver side after)) ∧
    (∀ p, IsPlain p → (∀ side, cutPattern? p (textOver side pieces) = none) ∨
        ∃ front cut after, pieces = front ++ (cut ++ after) ∧ ∀ side,
          cutPattern? p (textOver side pieces) = some (textOver side front, textOver side after)) ∧
    (∀ (α : Type) (patterns : List (List Char × α)), (∀ p ∈ patterns, IsPlain p.1) →
      CutAlike pieces fun side => cutFirst? patterns (textOver side pieces)) ∧
    ∀ d, IsPlain d → ∃ parts, Consecutive pieces parts ∧ ∀ side,
      splitOn d (textOver side pieces) = parts.map (textOver side) := by
  have hstart : Abreast fun _ => none := fun _ _ => rfl
  refine ⟨isPlain_of_mem_searchedPatterns, fun k hk done => ?_, fun p hp => ?_, fun α patterns h => ?_,
    fun d hd => ?_⟩
  · have hcut : CutAlike pieces _ := hk.seesSkeleton_keyword.findTop? (hstart.textOver done)
    rcases hcut with hnone | ⟨front, cut, after, a, hpieces, hcut⟩
    · exact Or.inl fun side => congrArg (Option.map _) (hnone side)
    · exact Or.inr ⟨front, cut, after, hpieces, fun side => congrArg (Option.map _) (hcut side)⟩
  · have hcut : CutAlike pieces _ := (hp.seesSkeleton_pattern ()).findTop? hstart
    rcases hcut with hnone | ⟨front, cut, after, a, hpieces, hcut⟩
    · exact Or.inl fun side => congrArg (Option.map _) (hnone side)
    · exact Or.inr ⟨front, cut, after, hpieces, fun side => congrArg (Option.map _) (hcut side)⟩
  · exact (seesSkeleton_findSome? h).findTop? hstart
  · have hsplit := splitTop_textOver pieces (hd.seesSkeleton_pattern ()) hstart
    obtain ⟨part, rest, parts, rfl, hparts, hsplit⟩ := hsplit
    have hfirst : Consecutive (part ++ rest) (part :: parts) := .cons [] hparts
    refine ⟨trimParts (part :: parts), hfirst.trimParts, fun side => ?_⟩
    rw [splitOn_of_splitTop (hsplit side), textOver_trimParts]

/-- A keyword, a comma and an operator that stand in the sections of two texts and between them. -/
theorem searches_see_skeleton_around_sections : ∃ pieces,
    textOver .left pieces = "('x, \\' AND y') AND [=], b".toList ∧
    textOver .right pieces = "\"(,\" AND (a = (1, 2)), b".toList ∧
    (∃ front cut after, pieces = front ++ (cut ++ after) ∧ ∀ side,
      cutKeyword? "AND".toList none (textOver side pieces) =
        some (textOver side front, textOver side after)) ∧
    (∃ front cut after, pieces = front ++ (cut ++ after) ∧ ∀ side,
      cutPattern? " AND ".toList (textOver side pieces) =
        some (textOver side front, textOver side after)) ∧
    (CutAlike pieces fun side => cutFirst? comparisonSpellings (textOver side pieces)) ∧
    ∃ parts, Consecutive pieces parts ∧ parts.length = 2 ∧ ∀ side,
      splitOn [','] (textOver side pieces) = parts.map (textOver side) := by
  have hgroup : IsNested "('x, \\' AND y')".toList := .group (w := "'x, \\' AND y'".toList) (by decide)
  have hbracket : IsNested "[=]".toList := .quoted (w := ['=']) rfl (by decide)
  have hquote : IsNested "\"(,\"".toList := .quoted (w := ['(', ',']) rfl (by decide)
  have hnested : IsNested "(a = (1, 2))".toList := .group (w := "a = (1, 2)".toList) (by decide)
  let first : Piece := .nested fun | .left => ⟨_, hgroup⟩ | .right => ⟨_, hquote⟩
  let second : Piece := .nested fun | .left => ⟨_, hbracket⟩ | .right => ⟨_, hnested⟩
  let pieces : List Piece := [first, .char ' ' (by decide), .char 'A' (by decide), .char 'N' (by decide),
    .char 'D' (by decide), .char ' ' (by decide), second, .char ',' (by decide), .char ' ' (by decide),
    .char 'b' (by decide)]
  obtain ⟨hplain, hkeyword, hpattern, hfirst, hsplit⟩ := searches_see_skeleton pieces
  refine ⟨pieces, rfl, rfl, ?_, ?_, ?_, ?_⟩
  · refine (hkeyword "AND".toList ⟨by decide, by decide⟩ []).resolve_left fun hnone => ?_
    have hfound : cutKeyword? "AND".toList none "('x, \\' AND y') AND [=], b".toList ≠ none := by decide
    exact hfound (hnone .left)
  · refine (hpattern " AND ".toList (hplain _ (by decide))).resolve_left fun hnone => ?_
    have hfound : cutPattern? " AND ".toList "('x, \\' AND y') AND [=], b".toList ≠ none := by decide
    exact hfound (hnone .left)
  · refine hfirst _ comparisonSpellings fun p hp => isPlain_of_mem_searchedPatterns p.1 ?_
    exact List.mem_append_left _ (List.mem_append_right _ (List.mem_map_of_mem hp))
  · obtain ⟨parts, hparts, hsame⟩ := hsplit [','] (hplain _ (by decide))
    have htwo : (splitOn [','] "('x, \\' AND y') AND [=], b".toList).length = 2 := by decide
    have hleft : splitOn [','] "('x, \\' AND y') AND [=], b".toList = parts.map (textOver .left) :=
      hsame .left
    rw [hleft, List.length_map] at htwo
    exact ⟨parts, hparts, htwo, hsame⟩

end DocQuery.Grammar
