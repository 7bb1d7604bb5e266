import DocQuery.Text.Chars
import Mathlib.Data.List.TakeWhile

/-!
# DocQuery.Proofs.Text.Chars — names in any case, and texts without blanks at their ends

Names that differ at most in the case of ASCII letters count as the same name wherever tables, from
items and columns are looked up, and being the same in this sense is an equivalence.

Everything that is cut out of a query text is trimmed, and a text that is trimmed already stays as
it is.  So what matters of a text is that it has no blank at either end (`Text.Trimmed`), which is
easily seen of a text that is put together from others.
-/

namespace DocQuery.Text

theorem sameName_self (name : String) : sameName name name = true := beq_self_eq_true _

theorem sameName_comm (s t : String) : sameName s t = sameName t s := by
  unfold sameName eqIgnoreCase
  rw [Bool.eq_iff_iff, beq_iff_eq, beq_iff_eq]
  exact eq_comm

/-- Which names are the same as a name does not change with its case. -/
theorem sameName_congr {s t : String} (h : sameName s t = true) (name : String) :
    sameName name s = sameName name t := by
  unfold sameName eqIgnoreCase at h ⊢
  rw [beq_iff_eq.mp h]

theorem sameName_trans {s t u : String} (h : sameName s t = true) (h' : sameName t u = true) :
    sameName s u = true := sameName_congr h' s ▸ h

/-! ## Texts without blanks at their ends -/

/-! Questions about all the characters of a text are decided over the text: the instance that goes
over all characters there are would never come to an end. -/

instance decidableForallMem (w : List Char) (P : Char → Prop) [DecidablePred P] :
    Decidable (∀ c ∈ w, P c) :=
  List.decidableBAll P w

instance decidableForallMemOption (o : Option Char) (P : Char → Prop) [DecidablePred P] :
    Decidable (∀ c ∈ o, P c) :=
  Option.decidableForallMem o

/-- A text with something in it and no blank at either end. -/
structure Trimmed (w : List Char) : Prop where
  nonempty : w ≠ []
  first : ∀ c ∈ w.head?, isBlank c = false
  last : ∀ c ∈ w.getLast?, isBlank c = false

theorem trimStart_eq_self {w : List Char} (h : ∀ c ∈ w.head?, isBlank c = false) :
    trimStart w = w := by
  cases w with
  | nil => rfl
  | cons c w =>
    have hc : isBlank c = false := h c rfl
    simp [trimStart, hc]

theorem trimEnd_eq_self {w : List Char} (h : ∀ c ∈ w.getLast?, isBlank c = false) :
    trimEnd w = w := by
  have hreverse : trimStart w.reverse = w.reverse := by
    apply trimStart_eq_self
    rwa [List.head?_reverse]
  show (trimStart w.reverse).reverse = w
  rw [hreverse, List.reverse_reverse]

/-- **Trimming leaves a trimmed text as it is.** -/
theorem Trimmed.trim_eq {w : List Char} (h : Trimmed w) : trim w = w := by
  rw [trim, trimStart_eq_self h.first, trimEnd_eq_self h.last]

/-- Blanks in front of a text are left out. -/
theorem trim_blanks_append {u w : List Char} (hu : ∀ c ∈ u, isBlank c = true) :
    trim (u ++ w) = trim w := by
  have hstart : trimStart (u ++ w) = trimStart w := List.dropWhile_append_of_pos hu
  rw [trim, hstart, trim]

theorem trimStart_append_of_mem {w v : List Char} {c : Char} (hc : c ∈ w)
    (hblank : isBlank c = false) : trimStart (w ++ v) = trimStart w ++ v := by
  induction w with
  | nil => cases hc
  | cons a w ih =>
    by_cases ha : isBlank a = true
    · have hcw : c ∈ w := by
        rcases List.mem_cons.mp hc with rfl | hmem
        · rw [hblank] at ha
          cases ha
        · exact hmem
      simpa [trimStart, ha] using ih hcw
    · simp [trimStart, ha]

/-- Blanks after a text with anything else in it are left out. -/
theorem trim_append_blanks {w v : List Char} {c : Char} (hc : c ∈ w) (hblank : isBlank c = false)
    (hv : ∀ c ∈ v, isBlank c = true) : trim (w ++ v) = trim w := by
  have hend (u : List Char) : trimEnd (u ++ v) = trimEnd u := by
    show (trimStart (u ++ v).reverse).reverse = (trimStart u.reverse).reverse
    rw [List.reverse_append]
    have hreverse : ∀ c ∈ v.reverse, isBlank c = true := fun c hmem => hv c (List.mem_reverse.mp hmem)
    exact congrArg List.reverse (List.dropWhile_append_of_pos hreverse)
  rw [trim, trimStart_append_of_mem hc hblank, hend, trim]

theorem Trimmed.trim_append_blanks {w v : List Char} (h : Trimmed w)
    (hv : ∀ c ∈ v, isBlank c = true) : trim (w ++ v) = w := by
  obtain ⟨c, rest, rfl⟩ := List.exists_cons_of_ne_nil h.nonempty
  rw [Text.trim_append_blanks List.mem_cons_self (h.first c rfl) hv, h.trim_eq]

/-! ### What trimming gives -/

theorem first_of_trimStart {w : List Char} : ∀ c ∈ (trimStart w).head?, isBlank c = false := by
  intro c hc
  have hhead := List.head?_dropWhile_not isBlank w
  rw [trimStart] at hc
  rw [Option.mem_def.mp hc] at hhead
  exact Bool.eq_false_iff.mpr (by simpa using hhead)

theorem trimEnd_prefix (w : List Char) : ∃ v, w = trimEnd w ++ v ∧ ∀ c ∈ v, isBlank c = true := by
  refine ⟨(w.reverse.takeWhile isBlank).reverse, ?_, ?_⟩
  · rw [trimEnd, ← List.reverse_append, List.takeWhile_append_dropWhile, List.reverse_reverse]
  · intro c hc
    exact List.mem_takeWhile_imp (List.mem_reverse.mp hc)

/-- **A text is its trimmed form between blanks.** -/
theorem exists_eq_trim (w : List Char) : ∃ u v, w = u ++ (trim w ++ v) ∧
    (∀ c ∈ u, isBlank c = true) ∧ ∀ c ∈ v, isBlank c = true := by
  obtain ⟨v, hv, hblank⟩ := trimEnd_prefix (trimStart w)
  refine ⟨w.takeWhile isBlank, v, ?_, fun c hc => List.mem_takeWhile_imp hc, hblank⟩
  rw [trim, ← hv, trimStart, List.takeWhile_append_dropWhile]

theorem trimmed_trim {w : List Char} (h : trim w ≠ []) : Trimmed (trim w) where
  nonempty := h
  first := by
    obtain ⟨v, hv, -⟩ := trimEnd_prefix (trimStart w)
    intro c hc
    apply first_of_trimStart (w := w)
    rw [hv, show trimEnd (trimStart w) = trim w from rfl, List.head?_append]
    exact Option.or_eq_some_iff.mpr (Or.inl hc)
  last := by
    intro c hc
    have hreverse : (trim w).getLast? = (trimStart (trimStart w).reverse).head? :=
      List.getLast?_reverse
    rw [hreverse] at hc
    exact first_of_trimStart c hc

theorem length_trim_le (w : List Char) : (trim w).length ≤ w.length := by
  obtain ⟨u, v, hw, -⟩ := exists_eq_trim w
  have hlength := congrArg List.length hw
  simp only [List.length_append] at hlength
  omega

theorem trim_ne_nil_of_mem {w : List Char} {c : Char} (hc : c ∈ w) (hblank : isBlank c = false) :
    trim w ≠ [] := by
  intro hnil
  obtain ⟨u, v, hw, hu, hv⟩ := exists_eq_trim w
  rw [hnil, List.nil_append] at hw
  rw [hw] at hc
  have hctrue : isBlank c = true := (List.mem_append.mp hc).elim (hu c) (hv c)
  rw [hblank] at hctrue
  cases hctrue

theorem trim_trim (w : List Char) : trim (trim w) = trim w := by
  by_cases h : trim w = []
  · rw [h]
    rfl
  · exact (trimmed_trim h).trim_eq

/-- The first character of a trimmed text is the first one that is not blank. -/
theorem head?_trim (w : List Char) : (trim w).head? = w.find? fun c => !isBlank c := by
  induction w with
  | nil => rfl
  | cons c w ih =>
    cases hc : isBlank c with
    | true =>
      rw [List.find?_cons_of_neg (by simp [hc]), ← ih]
      have hblanks : ∀ d ∈ [c], isBlank d = true := List.forall_mem_singleton.mpr hc
      exact congrArg List.head? (trim_blanks_append hblanks)
    | false =>
      rw [List.find?_cons_of_pos (by simp [hc])]
      have hstart : trimStart (c :: w) = c :: w := trimStart_eq_self (by simp [hc])
      obtain ⟨v, hv, hblanks⟩ := trimEnd_prefix (c :: w)
      rw [trim, hstart]
      cases hend : trimEnd (c :: w) with
      | nil =>
        rw [hend, List.nil_append] at hv
        exact absurd (hblanks c (hv ▸ List.mem_cons_self)) (by simp [hc])
      | cons d u =>
        rw [hend] at hv
        exact congrArg some (List.cons.inj hv).1.symm

theorem head?_trim_of_prefix {u v : List Char} {c : Char} (h : u <+: v)
    (hc : (trim u).head? = some c) : (trim v).head? = some c := by
  rw [head?_trim] at hc ⊢
  exact h.find?_eq_some hc

/-! ## Texts split at a character -/

theorem splitOnChar_eq_splitOn (d : Char) (s : List Char) : splitOnChar d s = s.splitOn d := by
  induction s with
  | nil => rfl
  | cons c s ih =>
    obtain ⟨part, parts, hparts⟩ := List.exists_cons_of_ne_nil (List.splitOn_ne_nil d s)
    rw [splitOnChar, List.splitOn_cons_eq_if_modifyHead, ih, hparts]
    simp only [beq_iff_eq]
    rfl

/-- The parts of a text are those in front of an occurrence and those behind it. -/
theorem splitOnChar_append (d : Char) (s t : List Char) :
    splitOnChar d (s ++ d :: t) = splitOnChar d s ++ splitOnChar d t := by
  simp only [splitOnChar_eq_splitOn, List.splitOn_append_cons_self]

theorem splitOnChar_eq_singleton {d : Char} {s : List Char} (h : d ∉ s) : splitOnChar d s = [s] := by
  rw [splitOnChar_eq_splitOn, List.splitOn_eq_singleton h]

theorem not_mem_of_mem_splitOnChar {d : Char} {s part : List Char} (h : part ∈ splitOnChar d s) :
    d ∉ part := by
  induction s generalizing part with
  | nil =>
    rw [List.mem_singleton.mp h]
    exact List.not_mem_nil
  | cons c s ih =>
    have hne : splitOnChar d s ≠ [] := splitOnChar_eq_splitOn d s ▸ List.splitOn_ne_nil d s
    obtain ⟨first, parts, hparts⟩ := List.exists_cons_of_ne_nil hne
    rw [splitOnChar, hparts] at h
    rw [hparts] at ih
    split_ifs at h with hc
    · rcases List.mem_cons.mp h with rfl | hmem
      · exact List.not_mem_nil
      · exact ih hmem
    · rcases List.mem_cons.mp h with rfl | hmem
      · exact List.not_mem_cons_of_ne_of_not_mem (Ne.symm hc) (ih List.mem_cons_self)
      · exact ih (List.mem_cons_of_mem _ hmem)

end DocQuery.Text
