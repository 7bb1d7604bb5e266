import DocQuery.Proofs.Grammar.Scanner
import Mathlib.Algebra.GroupWithZero.Nat

/-!
# DocQuery.Proofs.Grammar.Splitting — clauses cut at delimiters

`splitOn` drops empty parts, so a delimiter at an end of a text would leave no trace.  A delimiter
between blanks never stands at an end of a trimmed text, so such a text is either one part as it is
or has at least two (`splitOn_of_length_le_one`).  The parts are never longer than the text together
(`splitOn_length_lt`), which is what the readers recurse on.
-/

namespace DocQuery.Grammar

/-! ## Patterns -/

/-- What a pattern takes from a text differs from it at most in case. -/
theorem afterPattern?_eq_some_iff {p t rest : List Char} : afterPattern? p t = some rest ↔
    ∃ u, t = u ++ rest ∧ u.map Char.toLower = p.map Char.toLower := by
  induction p generalizing t with
  | nil => simp [afterPattern?, eq_comm]
  | cons a p ih =>
    cases t with
    | nil => simp [afterPattern?]
    | cons c t =>
      rw [afterPattern?]
      constructor
      · intro h
        split_ifs at h with hac
        obtain ⟨u, rfl, hu⟩ := ih.mp h
        exact ⟨c :: u, rfl, by simp [hac, hu]⟩
      · rintro ⟨u, ht, hu⟩
        cases u with
        | nil => simp at hu
        | cons d u =>
          rw [List.cons_append, List.cons.injEq] at ht
          rw [List.map_cons, List.map_cons, List.cons.injEq] at hu
          obtain ⟨rfl, rfl⟩ := ht
          rw [if_pos hu.1.symm]
          exact ih.mpr ⟨u, rfl, hu.2⟩

theorem toLower_of_isUpper_eq_false {c : Char} (h : c.isUpper = false) : c.toLower = c := by
  have hnot : ¬ ('A'.val ≤ c.val ∧ c.val ≤ 'Z'.val) := of_decide_eq_false h
  exact dif_neg hnot

theorem isUpper_range {c : Char} (h : c.isUpper = true) : 65 ≤ c.toNat ∧ c.toNat ≤ 90 := by
  have hrange : 'A'.val ≤ c.val ∧ c.val ≤ 'Z'.val := of_decide_eq_true h
  simpa [UInt32.le_iff_toNat_le] using hrange

/-- The letters are those of two ranges. -/
theorem isAlpha_range {c : Char} (h : c.isAlpha = true) :
    (65 ≤ c.toNat ∧ c.toNat ≤ 90) ∨ (97 ≤ c.toNat ∧ c.toNat ≤ 122) := by
  rcases Bool.or_eq_true_iff.mp h with hupper | hlower
  · exact Or.inl (isUpper_range hupper)
  · obtain ⟨hleast, hgreatest⟩ := Bool.and_eq_true_iff.mp hlower
    have hleast : 'a'.val ≤ c.val := of_decide_eq_true hleast
    have hgreatest : c.val ≤ 'z'.val := of_decide_eq_true hgreatest
    exact Or.inr (by simpa [UInt32.le_iff_toNat_le] using And.intro hleast hgreatest)

theorem isDigit_range {c : Char} (h : c.isDigit = true) : 48 ≤ c.toNat ∧ c.toNat ≤ 57 := by
  simpa [Char.isDigit, Char.le_def, UInt32.le_iff_toNat_le] using h

theorem isAlpha_eq_false_of_isDigit {c : Char} (h : c.isDigit = true) : c.isAlpha = false := by
  have hdigit := isDigit_range h
  by_contra halpha
  rw [Bool.not_eq_false] at halpha
  have hletter := isAlpha_range halpha
  omega

/-- What is no letter has no other case. -/
theorem toLower_of_isAlpha_eq_false {c : Char} (h : c.isAlpha = false) : c.toLower = c :=
  toLower_of_isUpper_eq_false (Bool.or_eq_false_iff.mp h).1

/-- Only a letter has another case. -/
theorem eq_of_toLower_eq {c d : Char} (hd : d.isAlpha = false) (h : c.toLower = d) : c = d := by
  cases hupper : c.isUpper with
  | false => rw [← toLower_of_isUpper_eq_false hupper, h]
  | true =>
    have hrange := isUpper_range hupper
    have hall : ∀ n < 91, 65 ≤ n → (Char.ofNat n).toLower.isAlpha = true := by decide
    have halpha := hall c.toNat (by omega) hrange.1
    rw [Char.ofNat_toNat, h, hd] at halpha
    cases halpha

theorem toLower_eq_blank {c : Char} (h : c.toLower = ' ') : c = ' ' := eq_of_toLower_eq rfl h

/-- A delimiter that has a blank on either side. -/
structure IsSpaced (delimiter : List Char) : Prop where
  first : delimiter.head? = some ' '
  last : delimiter.getLast? = some ' '

theorem isSpaced_and : IsSpaced " AND ".toList := ⟨rfl, rfl⟩

theorem isSpaced_or : IsSpaced " OR ".toList := ⟨rfl, rfl⟩

/-- A spaced delimiter begins at blanks only. -/
theorem IsSpaced.afterPattern?_of_ne {d t : List Char} {c : Char} (hd : IsSpaced d) (hc : c ≠ ' ') :
    afterPattern? d (c :: t) = none := by
  have hfirst := hd.first
  cases d with
  | nil => cases hfirst
  | cons a d =>
    cases hfirst
    rw [afterPattern?, if_neg]
    exact fun h => hc (toLower_eq_blank h.symm)

/-- A spaced delimiter ends in a blank, so something else at the end of the text is left over. -/
theorem IsSpaced.afterPattern?_ne_nil {d t : List Char} {c : Char} (hd : IsSpaced d)
    (ht : t.getLast? = some c) (hc : c ≠ ' ') : afterPattern? d t ≠ some [] := by
  intro h
  obtain ⟨u, hu, hlower⟩ := afterPattern?_eq_some_iff.mp h
  rw [List.append_nil] at hu
  subst hu
  have hlast := congrArg List.getLast? hlower
  rw [List.getLast?_map, List.getLast?_map, ht, hd.last] at hlast
  exact hc (toLower_eq_blank (Option.some.inj hlast))

/-! ## Parts -/

section Parts

variable {test : Option Char → List Char → Option (List Char)} {s : Scanner}
  {before : Option Char} {w : List Char}

/-- The parts together are not longer than the text. -/
theorem splitTop_length_le (test : Option Char → List Char → Option (List Char)) (s : Scanner)
    (skip : Nat) (before : Option Char) (w : List Char) :
    ((splitTop test s skip before w).map List.length).sum ≤ w.length := by
  induction w generalizing s skip before with
  | nil => cases skip <;> simp [splitTop]
  | cons c w ih =>
    cases skip with
    | succ skip =>
      have hrest := ih (s.step c) skip (some c)
      rw [splitTop, List.length_cons]
      omega
    | zero =>
      rw [splitTop, List.length_cons]
      split
      next rest _ =>
        have hrest := ih (s.step c) (w.length - rest.length) (some c)
        simpa using Nat.le_succ_of_le hrest
      next =>
        have hrest := ih (s.step c) 0 (some c)
        cases hsplit : splitTop test (s.step c) 0 (some c) w with
        | nil => simp [consFirst]
        | cons part parts =>
          rw [hsplit] at hrest
          simp only [consFirst, List.map_cons, List.sum_cons, List.length_cons] at hrest ⊢
          omega

/-- The parts of a text are the text itself or at least two. -/
theorem splitTop_eq_singleton_or (test : Option Char → List Char → Option (List Char))
    (s : Scanner) (before : Option Char) (w : List Char) :
    splitTop test s 0 before w = [w] ∨
      ∃ p q parts, splitTop test s 0 before w = p :: q :: parts := by
  induction w generalizing s before with
  | nil => exact Or.inl rfl
  | cons c w ih =>
    rw [splitTop]
    split
    next rest _ =>
      obtain ⟨q, parts, hrest⟩ := List.exists_cons_of_ne_nil
        (splitTop_ne_nil test (s.step c) (w.length - rest.length) (some c) w)
      exact Or.inr ⟨[], q, parts, by rw [hrest]⟩
    next =>
      rcases ih (s.step c) (some c) with h | ⟨p, q, parts, h⟩
      · exact Or.inl (by rw [h]; rfl)
      · exact Or.inr ⟨c :: p, q, parts, by rw [h]; rfl⟩

/-- What ends a text ends its last part, if no delimiter takes it. -/
theorem mem_getLast_splitTop {c : Char} {skip : Nat} (s : Scanner) (before : Option Char)
    (htest : ∀ b a t rest, (a :: t).getLast? = some c → test b (a :: t) = some rest →
      rest ≠ [] ∧ rest.length ≤ t.length)
    (hw : w.getLast? = some c) (hskip : skip < w.length) :
    ∃ part ∈ (splitTop test s skip before w).getLast?, c ∈ part := by
  induction w generalizing s skip before with
  | nil => cases hw
  | cons a w ih =>
    cases skip with
    | succ skip =>
      have hskip' : skip < w.length := Nat.lt_of_succ_lt_succ hskip
      obtain ⟨d, w, rfl⟩ := List.exists_cons_of_length_pos (Nat.zero_lt_of_lt hskip')
      rw [List.getLast?_cons_cons] at hw
      exact ih (s.step a) (some a) hw hskip'
    | zero =>
      rw [splitTop]
      split
      next rest hrest =>
        have hfound : test before (a :: w) = some rest := by
          split_ifs at hrest
          exact hrest
        obtain ⟨hne, hle⟩ := htest _ _ _ _ hw hfound
        have hpos : 0 < rest.length := List.length_pos_iff.mpr hne
        obtain ⟨d, w, rfl⟩ := List.exists_cons_of_length_pos (Nat.lt_of_lt_of_le hpos hle)
        rw [List.getLast?_cons_cons] at hw
        obtain ⟨part, hpart, hmem⟩ := ih (s.step a) (some a) hw
          (show (d :: w).length - rest.length < (d :: w).length by omega)
        obtain ⟨q, parts, hsplit⟩ := List.exists_cons_of_ne_nil
          (splitTop_ne_nil test (s.step a) ((d :: w).length - rest.length) (some a) (d :: w))
        rw [hsplit] at hpart ⊢
        exact ⟨part, by rwa [List.getLast?_cons_cons], hmem⟩
      next =>
        cases w with
        | nil =>
          have hac : a = c := by simpa using hw
          exact ⟨[a], by simp [splitTop, consFirst], by simp [hac]⟩
        | cons d w =>
          rw [List.getLast?_cons_cons] at hw
          obtain ⟨part, hpart, hmem⟩ := ih (s.step a) (some a) hw (Nat.succ_pos _)
          obtain ⟨q, parts, hsplit⟩ := List.exists_cons_of_ne_nil
            (splitTop_ne_nil test (s.step a) 0 (some a) (d :: w))
          rw [hsplit] at hpart ⊢
          cases parts with
          | nil =>
            cases hpart
            exact ⟨a :: q, rfl, List.mem_cons_of_mem _ hmem⟩
          | cons r parts =>
            rw [List.getLast?_cons_cons] at hpart
            exact ⟨part, by rwa [consFirst, List.getLast?_cons_cons], hmem⟩

end Parts

/-! ## Trimmed texts -/

section Trimmed

variable {d w : List Char}

theorem splitOn_of_splitTop {parts : List (List Char)}
    (h : splitTop (fun _ t => afterPattern? d t) {} 0 none w = parts) :
    splitOn d w = (parts.map Text.trim).filter (· ≠ []) := by
  rw [splitOn, h]

theorem splitOn_eq_singleton (hw : Text.Trimmed w)
    (h : TopAll (fun _ t => afterPattern? d t = none) {} none w) : splitOn d w = [w] := by
  rw [splitOn_of_splitTop (splitTop_eq_singleton h), List.map_singleton, hw.trim_eq]
  simp [hw.nonempty]

/-- The first part of a trimmed text is not blank. -/
theorem trim_ne_nil_of_splitTop_cons (hd : IsSpaced d) (hw : Text.Trimmed w) {p : List Char}
    {parts : List (List Char)}
    (h : splitTop (fun _ t => afterPattern? d t) {} 0 none w = p :: parts) : Text.trim p ≠ [] := by
  obtain ⟨c, w, rfl⟩ := List.exists_cons_of_ne_nil hw.nonempty
  have hc : Text.isBlank c = false := hw.first c rfl
  have hne : c ≠ ' ' := by
    rintro rfl
    cases hc
  rw [splitTop, hd.afterPattern?_of_ne hne, ite_self] at h
  have hmem : c ∈ p := by
    cases hsplit : splitTop (fun _ t => afterPattern? d t) (Scanner.step {} c) 0 (some c) w with
    | nil => exact absurd hsplit (splitTop_ne_nil _ _ _ _ _)
    | cons part more =>
      rw [hsplit] at h
      simp only [consFirst, List.cons.injEq] at h
      rw [← h.1]
      exact List.mem_cons_self
  exact Text.trim_ne_nil_of_mem hmem hc

/-- A spaced delimiter leaves something of a text that ends in another character than a space, and
takes something of it. -/
theorem IsSpaced.afterPattern?_shorter (hd : IsSpaced d) {c : Char} (hne : c ≠ ' ') {a : Char}
    {t rest : List Char} (ht : (a :: t).getLast? = some c) (hrest : afterPattern? d (a :: t) = some rest) :
    rest ≠ [] ∧ rest.length ≤ t.length := by
  refine ⟨?_, ?_⟩
  · rintro rfl
    exact hd.afterPattern?_ne_nil ht hne hrest
  · obtain ⟨u, hu, hlower⟩ := afterPattern?_eq_some_iff.mp hrest
    have hpos : 0 < u.length := by
      have hlength := congrArg List.length hlower
      simp only [List.length_map] at hlength
      rw [hlength]
      exact List.length_pos_iff.mpr (by rintro rfl; cases hd.first)
    have hlength := congrArg List.length hu
    simp only [List.length_cons, List.length_append] at hlength
    omega

/-- The last part of a trimmed text is not blank. -/
theorem exists_mem_getLast_splitTop (hd : IsSpaced d) (hw : Text.Trimmed w) :
    ∃ part ∈ (splitTop (fun _ t => afterPattern? d t) {} 0 none w).getLast?, Text.trim part ≠ [] := by
  obtain ⟨c, hc⟩ : ∃ c, w.getLast? = some c := ⟨_, List.getLast?_eq_some_getLast hw.nonempty⟩
  have hblank : Text.isBlank c = false := hw.last c hc
  have hne : c ≠ ' ' := by
    rintro rfl
    cases hblank
  obtain ⟨part, hpart, hmem⟩ := mem_getLast_splitTop {} none
    (fun _ _ _ _ ht hrest => hd.afterPattern?_shorter hne ht hrest) hc
    (List.length_pos_iff.mpr hw.nonempty)
  exact ⟨part, hpart, Text.trim_ne_nil_of_mem hmem hblank⟩

/-- Neither the first nor the last of several parts of a trimmed text is left out. -/
theorem two_le_length_splitOn (hd : IsSpaced d) (hw : Text.Trimmed w) {p q : List Char}
    {parts : List (List Char)}
    (h : splitTop (fun _ t => afterPattern? d t) {} 0 none w = p :: q :: parts) :
    2 ≤ (splitOn d w).length := by
  have hfirst := trim_ne_nil_of_splitTop_cons hd hw h
  obtain ⟨part, hpart, hne⟩ := exists_mem_getLast_splitTop hd hw
  rw [h, List.getLast?_cons_cons] at hpart
  have hkept : Text.trim part ∈ ((q :: parts).map Text.trim).filter (· ≠ []) :=
    List.mem_filter.mpr ⟨List.mem_map_of_mem (List.mem_of_getLast? hpart), by simpa using hne⟩
  have hpos := List.length_pos_of_mem hkept
  rw [splitOn_of_splitTop h, List.map_cons, List.filter_cons_of_pos (by simpa using hfirst),
    List.length_cons]
  omega

/-- **A trimmed text with at most one part is that part**: a spaced delimiter leaves something on
both of its sides. -/
theorem splitOn_of_length_le_one (hd : IsSpaced d) (hw : Text.Trimmed w)
    (h : (splitOn d w).length ≤ 1) : splitOn d w = [w] := by
  rcases splitTop_eq_singleton_or (fun _ t => afterPattern? d t) {} none w with hone | ⟨p, q, parts, htwo⟩
  · rw [splitOn_of_splitTop hone, List.map_singleton, hw.trim_eq]
    simp [hw.nonempty]
  · have := two_le_length_splitOn hd hw htwo
    omega

/-- The parts of a text are trimmed. -/
theorem trimmed_of_mem_splitOn {part : List Char} (h : part ∈ splitOn d w) : Text.Trimmed part := by
  obtain ⟨hmem, hne⟩ := List.mem_filter.mp h
  obtain ⟨raw, -, rfl⟩ := List.mem_map.mp hmem
  exact Text.trimmed_trim (by simpa using hne)

theorem splitOn_sum_length_le (d w : List Char) : ((splitOn d w).map List.length).sum ≤ w.length := by
  refine Nat.le_trans ?_ (splitTop_length_le (fun _ t => afterPattern? d t) {} 0 none w)
  rw [splitOn]
  generalize splitTop (fun _ t => afterPattern? d t) {} 0 none w = parts
  induction parts with
  | nil => simp
  | cons part parts ih =>
    have htrim := Text.length_trim_le part
    rw [List.map_cons, List.filter_cons]
    split <;> simp only [List.map_cons, List.sum_cons] <;> omega

theorem length_le_of_mem_splitOn {part : List Char} (hmem : part ∈ splitOn d w) :
    part.length ≤ w.length := by
  have hsum := splitOn_sum_length_le d w
  obtain ⟨before, after, hsplit⟩ := List.append_of_mem hmem
  rw [hsplit, List.map_append, List.map_cons, List.sum_append, List.sum_cons] at hsum
  omega

/-- **Of two or more parts each is shorter than the text.** -/
theorem length_lt_of_mem_splitOn {part : List Char} (hmem : part ∈ splitOn d w)
    (h : 1 < (splitOn d w).length) : part.length < w.length := by
  have hsum := splitOn_sum_length_le d w
  obtain ⟨before, after, hsplit⟩ := List.append_of_mem hmem
  have hother : ∃ other ∈ before ++ after, other ∈ splitOn d w := by
    rw [hsplit] at h
    cases before with
    | nil =>
      cases after with
      | nil => simp at h
      | cons other after => exact ⟨other, by simp, by simp [hsplit]⟩
    | cons other before => exact ⟨other, by simp, by simp [hsplit]⟩
  obtain ⟨other, hother, hmem'⟩ := hother
  have hpos : 0 < other.length := List.length_pos_iff.mpr (trimmed_of_mem_splitOn hmem').nonempty
  obtain ⟨others, more, hothers⟩ := List.append_of_mem hother
  have hlengths := congrArg (fun parts => (parts.map List.length).sum) hothers
  rw [hsplit] at hsum
  simp only [List.map_append, List.map_cons, List.sum_append, List.sum_cons] at hsum hlengths
  omega

end Trimmed

end DocQuery.Grammar
