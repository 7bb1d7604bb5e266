import DocQuery.Grammar.Scanner
import DocQuery.Proofs.Text.Chars

/-!
# DocQuery.Proofs.Grammar.Scanner — what a search sees of a text

Every search in a query text tests the places at top level and no others, so what it does with a
text is decided by a property of those places (`TopAll`).  A text that closes what it opens
(`Balanced`) hands the scanner on as it came, and within parentheses it offers no place at all.
Texts are put together from such parts, and so are the searches over them: a search that fails at
every place of a part goes on after it (`findTop?_append`, `splitTop_append`).
-/

namespace DocQuery.Grammar

namespace Scanner

@[simp] theorem run_nil (s : Scanner) : s.run [] = s := rfl

@[simp] theorem run_cons (s : Scanner) (c : Char) (w : List Char) :
    s.run (c :: w) = (s.step c).run w := rfl

@[simp] theorem run_append (s : Scanner) (u v : List Char) : s.run (u ++ v) = (s.run u).run v :=
  List.foldl_append

/-! ## Balance -/

/-- A parenthesis that was closed without being open is never forgotten. -/
theorem step_unbalanced {s : Scanner} {c : Char} (h : (s.step c).unbalanced = false) :
    s.unbalanced = false := by
  cases hs : s.unbalanced with
  | false => rfl
  | true =>
    unfold step at h
    split at h <;> split_ifs at h <;> simp_all

theorem run_unbalanced {s : Scanner} {w : List Char} (h : (s.run w).unbalanced = false) :
    s.unbalanced = false := by
  induction w generalizing s with
  | nil => exact h
  | cons c w ih => exact step_unbalanced (ih h)

/-- The scanner within so many more parentheses. -/
def lift (k : Nat) (s : Scanner) : Scanner := { s with depth := s.depth + k }

@[simp] theorem isTopLevel_lift (s : Scanner) (k : Nat) : (s.lift (k + 1)).isTopLevel = false := by
  simp [isTopLevel, lift]

theorem step_lift {s : Scanner} {c : Char} (k : Nat) (h : (s.step c).unbalanced = false) :
    (s.lift k).step c = (s.step c).lift k := by
  obtain ⟨depth, closing, escaped, unbalanced⟩ := s
  cases closing with
  | some closing =>
    cases escaped with
    | true => rfl
    | false =>
      simp only [step, lift, Bool.false_eq_true, if_false]
      by_cases hskip : c = '\\' ∧ closing ≠ ']'
      · simp only [if_pos hskip]
      · by_cases hend : c = closing
        · simp only [if_neg hskip, if_pos hend]
        · simp only [if_neg hskip, if_neg hend]
  | none =>
    simp only [step, lift] at h ⊢
    by_cases hopen : c = '('
    · simp only [if_pos hopen, Nat.add_right_comm]
    · by_cases hclose : c = ')'
      · -- Nothing is closed that was not open, so the depth goes down on both sides.
        have hdepth : depth ≠ 0 := by
          intro hzero
          simp [hclose, hzero] at h
        have hdepth' : depth + k ≠ 0 := by omega
        have hdown : depth + k - 1 = depth - 1 + k := by omega
        simp only [if_neg hopen, if_pos hclose, if_neg hdepth, if_neg hdepth', hdown]
      · simp only [if_neg hopen, if_neg hclose]

/-- **A text is scanned alike at every depth**, as long as it closes only what it opens. -/
theorem run_lift {s : Scanner} {w : List Char} (k : Nat) (h : (s.run w).unbalanced = false) :
    (s.lift k).run w = (s.run w).lift k := by
  induction w generalizing s with
  | nil => rfl
  | cons c w ih =>
    rw [run_cons, step_lift k (run_unbalanced h)]
    exact ih h

end Scanner

/-- A text that leaves no quote and no parenthesis open, and closes none that it did not open. -/
def Balanced (w : List Char) : Prop := Scanner.run {} w = {}

instance (w : List Char) : Decidable (Balanced w) :=
  inferInstanceAs (Decidable (Scanner.run {} w = {}))

namespace Balanced

theorem nil : Balanced [] := rfl

theorem append {u v : List Char} (hu : Balanced u) (hv : Balanced v) : Balanced (u ++ v) := by
  unfold Balanced
  rw [Scanner.run_append, hu]
  exact hv

/-- A balanced text leaves every depth as it was. -/
theorem run_lift {w : List Char} (h : Balanced w) (k : Nat) :
    (Scanner.lift k {}).run w = Scanner.lift k {} := by
  rw [Scanner.run_lift k (by rw [h]), h]

/-- Parentheses around a balanced text. -/
theorem group {w : List Char} (h : Balanced w) : Balanced ('(' :: (w ++ [')'])) := by
  show Scanner.run (Scanner.lift 1 {}) (w ++ [')']) = {}
  rw [Scanner.run_append, h.run_lift]
  rfl

end Balanced

/-! ## The places of a text at top level -/

/-- The character before a place, where `before` stands in front of the text. -/
def lastOr (before : Option Char) (w : List Char) : Option Char := w.getLast?.or before

@[simp] theorem lastOr_nil (before : Option Char) : lastOr before [] = before := rfl

@[simp] theorem lastOr_cons (before : Option Char) (c : Char) (w : List Char) :
    lastOr before (c :: w) = lastOr (some c) w := by
  cases w with
  | nil => rfl
  | cons d w => simp [lastOr, List.getLast?_cons]

/-- Whether a property holds at every place of a text at top level: of the character in front of it
and the rest of the text. -/
def TopAll (P : Option Char → List Char → Prop) (s : Scanner) (before : Option Char) :
    List Char → Prop
  | [] => True
  | c :: w => (s.isTopLevel = true → P before (c :: w)) ∧ TopAll P (s.step c) (some c) w

instance TopAll.decidable {P : Option Char → List Char → Prop} [∀ before w, Decidable (P before w)] :
    ∀ (s : Scanner) (before : Option Char) (w : List Char), Decidable (TopAll P s before w)
  | _, _, [] => .isTrue trivial
  | s, before, c :: w =>
    have := TopAll.decidable (P := P) (s.step c) (some c) w
    inferInstanceAs (Decidable ((s.isTopLevel = true → P before (c :: w)) ∧ TopAll P (s.step c) (some c) w))

namespace TopAll

variable {P Q : Option Char → List Char → Prop} {s : Scanner} {before : Option Char}

theorem mono {w : List Char} (hPQ : ∀ b t, t ≠ [] → P b t → Q b t) (h : TopAll P s before w) :
    TopAll Q s before w := by
  induction w generalizing s before with
  | nil => trivial
  | cons c w ih => exact ⟨fun htop => hPQ _ _ (List.cons_ne_nil c w) (h.1 htop), ih h.2⟩

theorem append_iff {u v : List Char} : TopAll P s before (u ++ v) ↔
    TopAll (fun b t => P b (t ++ v)) s before u ∧ TopAll P (s.run u) (lastOr before u) v := by
  induction u generalizing s before with
  | nil => simp [TopAll]
  | cons c u ih =>
    rw [List.cons_append, TopAll, ih, lastOr_cons, ← and_assoc]
    rfl

/-- Within parentheses there is no place at top level. -/
theorem of_lift {w : List Char} (k : Nat) (h : (s.run w).unbalanced = false) :
    TopAll P (s.lift (k + 1)) before w := by
  induction w generalizing s before with
  | nil => trivial
  | cons c w ih =>
    refine ⟨fun htop => ?_, ?_⟩
    · rw [Scanner.isTopLevel_lift] at htop
      cases htop
    · rw [Scanner.step_lift _ (Scanner.run_unbalanced h)]
      exact ih h

/-- Parentheses around a balanced text have one place at top level, in front. -/
theorem group {w : List Char} (hw : Balanced w) (h : P before ('(' :: (w ++ [')']))) :
    TopAll P {} before ('(' :: (w ++ [')'])) := by
  refine ⟨fun _ => h, ?_⟩
  show TopAll P (Scanner.lift 1 {}) (some '(') (w ++ [')'])
  rw [append_iff, hw.run_lift]
  refine ⟨of_lift 0 (by rw [hw]), fun htop => ?_, trivial⟩
  rw [Scanner.isTopLevel_lift] at htop
  cases htop

end TopAll

/-! ## Searches -/

section Searches

variable {α : Type} {test : Option Char → List Char → Option (α × List Char)} {s : Scanner}
  {before : Option Char} {w : List Char}

theorem findTop?_append {rest : List Char}
    (h : TopAll (fun b t => test b (t ++ rest) = none) s before w) :
    findTop? test s before (w ++ rest) =
      (findTop? test (s.run w) (lastOr before w) rest).map fun (skipped, r) => (w ++ skipped, r) := by
  induction w generalizing s before with
  | nil =>
    cases findTop? test s before rest <;> simp [lastOr]
  | cons c w ih =>
    have hhere : (if s.isTopLevel then test before (c :: (w ++ rest)) else none) = none := by
      cases htop : s.isTopLevel with
      | false => rfl
      | true => exact h.1 htop
    rw [List.cons_append, findTop?, hhere, Scanner.run_cons, lastOr_cons]
    show (findTop? test (s.step c) (some c) (w ++ rest)).map _ = _
    rw [ih h.2, Option.map_map]
    rfl

theorem findTop?_eq_none (h : TopAll (fun b t => test b t = none) s before w) :
    findTop? test s before w = none := by
  have hnil : TopAll (fun b t => test b (t ++ []) = none) s before w := by
    simpa only [List.append_nil] using h
  have happend := findTop?_append hnil
  rw [List.append_nil] at happend
  rw [happend]
  rfl

end Searches

section Splitting

variable {test : Option Char → List Char → Option (List Char)} {s : Scanner}
  {before : Option Char} {w : List Char}

/-- A text put in front of the first part. -/
def appendFirst (w : List Char) : List (List Char) → List (List Char)
  | [] => [w]
  | part :: parts => (w ++ part) :: parts

theorem splitTop_ne_nil (test : Option Char → List Char → Option (List Char)) (s : Scanner)
    (skip : Nat) (before : Option Char) (w : List Char) : splitTop test s skip before w ≠ [] := by
  induction w generalizing s skip before with
  | nil => cases skip <;> simp [splitTop]
  | cons c w ih =>
    cases skip with
    | succ skip => exact ih _ _ _
    | zero =>
      rw [splitTop]
      split
      · exact List.cons_ne_nil _ _
      · cases splitTop test (s.step c) 0 (some c) w <;> exact List.cons_ne_nil _ _

theorem splitTop_append {rest : List Char}
    (h : TopAll (fun b t => test b (t ++ rest) = none) s before w) :
    splitTop test s 0 before (w ++ rest) =
      appendFirst w (splitTop test (s.run w) 0 (lastOr before w) rest) := by
  induction w generalizing s before with
  | nil =>
    cases hsplit : splitTop test s 0 before rest with
    | nil => exact absurd hsplit (splitTop_ne_nil _ _ _ _ _)
    | cons part parts => simp [appendFirst, hsplit]
  | cons c w ih =>
    have hhere : (if s.isTopLevel then test before (c :: (w ++ rest)) else none) = none := by
      cases htop : s.isTopLevel with
      | false => rfl
      | true => exact h.1 htop
    rw [List.cons_append, splitTop, hhere, Scanner.run_cons, lastOr_cons]
    show consFirst c (splitTop test (s.step c) 0 (some c) (w ++ rest)) = _
    rw [ih h.2]
    cases splitTop test ((s.step c).run w) 0 (lastOr (some c) w) rest <;> rfl

theorem splitTop_eq_singleton (h : TopAll (fun b t => test b t = none) s before w) :
    splitTop test s 0 before w = [w] := by
  have hnil : TopAll (fun b t => test b (t ++ []) = none) s before w := by
    simpa only [List.append_nil] using h
  have happend := splitTop_append hnil
  rw [List.append_nil] at happend
  rw [happend]
  simp [splitTop, appendFirst]

end Splitting

/-! ## Parentheses -/

theorem closeParenthesis?_lift {s : Scanner} {w rest : List Char}
    (h : (s.run w).unbalanced = false) :
    closeParenthesis? (s.lift 1) (w ++ rest) =
      (closeParenthesis? ((s.run w).lift 1) rest).map fun (inside, after) => (w ++ inside, after) := by
  induction w generalizing s with
  | nil => cases hclose : closeParenthesis? (s.lift 1) rest <;> simp [hclose]
  | cons c w ih =>
    have hopen : ¬ (c = ')' ∧ ((s.step c).lift 1).isTopLevel = true) := by
      rw [Scanner.isTopLevel_lift]
      simp
    rw [List.cons_append, closeParenthesis?, Scanner.step_lift 1 (Scanner.run_unbalanced h)]
    simp only [if_neg hopen]
    rw [ih h, Scanner.run_cons]
    cases closeParenthesis? (((s.step c).run w).lift 1) rest <;> rfl

/-- **The parenthesis in front of a balanced text is closed right after it.** -/
theorem parenthesized?_group {w : List Char} (hw : Balanced w) (rest : List Char) :
    parenthesized? ('(' :: (w ++ ')' :: rest)) = some (w, rest) := by
  show closeParenthesis? (Scanner.lift 1 {}) (w ++ ')' :: rest) = some (w, rest)
  rw [closeParenthesis?_lift (by rw [hw]), hw]
  show some (w ++ [], rest) = _
  rw [List.append_nil]

theorem trimmed_group (w : List Char) : Text.Trimmed ('(' :: (w ++ [')'])) where
  nonempty := List.cons_ne_nil _ _
  first := by simp [Text.isBlank]
  last := by simp [List.getLast?_cons, Text.isBlank]

/-- **Parentheses around a balanced text are unwrapped.** -/
theorem unwrap?_group {w : List Char} (hw : Balanced w) :
    unwrap? ('(' :: (w ++ [')'])) = some (Text.trim w) := by
  rw [unwrap?, (trimmed_group w).trim_eq, parenthesized?_group hw]

/-- Within parentheses a character leaves one open, unless it closes the last one. -/
theorem depth_pos_of_not_closed {s : Scanner} {c : Char} (hdepth : 0 < s.depth)
    (hclose : ¬ (c = ')' ∧ (s.step c).isTopLevel = true)) : 0 < (s.step c).depth := by
  unfold Scanner.step at hclose ⊢
  cases hclosing : s.closing with
  | some closing =>
    simp only
    split_ifs <;> exact hdepth
  | none =>
    simp only [hclosing] at hclose ⊢
    split_ifs with hopen hend hzero
    · exact Nat.succ_pos _
    · exact hdepth
    · have hdown : s.depth - 1 ≠ 0 := by
        simpa [hend, Scanner.isTopLevel, hzero, hclosing] using hclose
      show 0 < s.depth - 1
      omega
    · exact hdepth

/-- What a closed parenthesis was closed in: the text up to it has no place at top level. -/
theorem topAll_of_closeParenthesis? {P : Option Char → List Char → Prop} {s : Scanner}
    (before : Option Char) {w inside rest : List Char} (hdepth : 0 < s.depth)
    (h : closeParenthesis? s w = some (inside, rest)) :
    w = inside ++ ')' :: rest ∧ TopAll P s before (inside ++ [')']) := by
  have hlow : s.isTopLevel = false := by
    have hne : s.depth ≠ 0 := by omega
    simp [Scanner.isTopLevel, hne]
  induction w generalizing s before inside with
  | nil => cases h
  | cons c w ih =>
    rw [closeParenthesis?] at h
    simp only at h
    split_ifs at h with hclose
    · cases h
      rw [hclose.1]
      exact ⟨rfl, fun htop => absurd htop (by rw [hlow]; decide), trivial⟩
    · obtain ⟨⟨inside', rest'⟩, hrest, heq⟩ := Option.map_eq_some_iff.mp h
      cases heq
      have hnext : 0 < (s.step c).depth := depth_pos_of_not_closed hdepth hclose
      have hlow' : (s.step c).isTopLevel = false := by
        have hne : (s.step c).depth ≠ 0 := by omega
        simp [Scanner.isTopLevel, hne]
      obtain ⟨rfl, htop⟩ := ih (some c) hnext hrest hlow'
      refine ⟨rfl, fun htop' => absurd htop' (by rw [hlow]; decide), htop⟩

/-- A text that unwraps begins with a parenthesis that is closed at its end: in front is its only
place at top level. -/
theorem topAll_of_unwrap? {P : Option Char → List Char → Prop} {w inner : List Char}
    (hw : Text.Trimmed w) (h : unwrap? w = some inner) (hP : ∀ t, w = '(' :: t → P none w) :
    TopAll P {} none w ∧ inner.length + 2 ≤ w.length := by
  rw [unwrap?, hw.trim_eq] at h
  split at h
  case h_1 inside hinside =>
    cases h
    cases w with
    | nil => cases hinside
    | cons c w =>
      rw [parenthesized?.eq_def] at hinside
      split at hinside
      case h_1 text heq =>
        cases heq
        obtain ⟨rfl, htop⟩ := topAll_of_closeParenthesis? (P := P) (some '(') Nat.one_pos hinside
        refine ⟨⟨fun _ => hP _ rfl, htop⟩, ?_⟩
        have hlength := Text.length_trim_le inside
        simp only [List.length_cons, List.length_append, List.length_nil]
        omega
      case h_2 => cases hinside
  case h_2 => cases h

end DocQuery.Grammar
