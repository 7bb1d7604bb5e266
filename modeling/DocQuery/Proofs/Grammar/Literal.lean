import DocQuery.Grammar.Predicate
import DocQuery.Proofs.Grammar.Parts

/-!
# DocQuery.Proofs.Grammar.Literal — literals read back

Nothing, booleans, integers and texts without backslashes are written as literals that read back as
the same values (`readLiteral?_literal`).  The text of such a literal is a part that no search in a
query cuts, and so is the text of a natural number.
-/

namespace DocQuery

/-- A value whose literal reads back as the value itself. -/
def Value.IsPlain : Value → Prop
  | .null | .boolean _ | .number (.integer _) => True
  | .text s => '\\' ∉ s.toList
  | _ => False

namespace Grammar

open Text (Trimmed isBlank isWordChar eqIgnoreCase)

/-! ## The words and marks that queries are cut at -/

/-- The first words of the keywords that clauses after the select list begin with. -/
def clauseWords : List (List Char) :=
  ["FROM", "WHERE", "GROUP", "HAVING", "ORDER", "LIMIT", "OFFSET"].map String.toList

/-- The words that a clause is cut at. -/
def structuralWords : List (List Char) :=
  clauseWords ++ ["JOIN", "AS", "AND", "OR"].map String.toList

/-- The words that a clause or a comparison is cut at. -/
def cuttingWords : List (List Char) :=
  structuralWords ++ ["NOT", "LIKE", "IN"].map String.toList

/-- The characters that a clause or a comparison is cut at. -/
def cuttingMarks : List Char := [',', '=', '<', '>', '!']

theorem nil_not_mem_cuttingWords : [] ∉ cuttingWords := by decide

theorem nil_not_mem_structuralWords : [] ∉ structuralWords := by decide

theorem structuralWords_subset : structuralWords ⊆ cuttingWords := List.subset_append_left _ _

theorem clauseWords_subset : clauseWords ⊆ structuralWords := List.subset_append_left _ _

theorem cuttingMarks_not_wordChar : ∀ m ∈ cuttingMarks, isWordChar m = false := by
  have hall : (cuttingMarks.all fun m => !isWordChar m) = true := by decide
  intro m hm
  simpa using List.all_eq_true.mp hall m hm

/-! ## Digits -/

theorem isWordChar_of_isDigit {c : Char} (h : c.isDigit = true) : isWordChar c = true := by
  have hrange := isDigit_range h
  have hall : ∀ n < 58, 48 ≤ n → isWordChar (Char.ofNat n) = true := by decide
  have hc := hall c.toNat (by omega) hrange.1
  rwa [Char.ofNat_toNat] at hc

theorem isDigit_toLower {c : Char} (h : c.isDigit = true) : c.toLower = c := by
  have hrange := isDigit_range h
  have hall : ∀ n < 58, 48 ≤ n → (Char.ofNat n).toLower = Char.ofNat n := by decide
  have hc := hall c.toNat (by omega) hrange.1
  rwa [Char.ofNat_toNat] at hc

theorem isDigit_of_mem_toDigits {n : Nat} {c : Char} (h : c ∈ Nat.toDigits 10 n) :
    c.isDigit = true :=
  Nat.isDigit_of_mem_toDigits (by decide) (by decide) h

theorem exists_toDigits_cons (n : Nat) :
    ∃ c w, Nat.toDigits 10 n = c :: w ∧ c.isDigit = true := by
  obtain ⟨c, w, hdigits⟩ := List.exists_cons_of_ne_nil (Nat.toDigits_ne_nil (n := n) (b := 10))
  exact ⟨c, w, hdigits, isDigit_of_mem_toDigits (n := n) (by rw [hdigits]; exact List.mem_cons_self)⟩

theorem isWord_toDigits (n : Nat) : IsWord (Nat.toDigits 10 n) where
  nonempty := Nat.toDigits_ne_nil
  all _ hc := isWordChar_of_isDigit (isDigit_of_mem_toDigits hc)

/-- A text that begins with a digit is none of the words. -/
theorem eqIgnoreCase_of_isDigit {c : Char} {w k : List Char} (hc : c.isDigit = true)
    (hk : ∀ d ∈ k.head?, d.toLower.isDigit = false) : eqIgnoreCase (c :: w) k = false := by
  rw [eqIgnoreCase, beq_eq_false_iff_ne]
  intro h
  cases k with
  | nil => cases h
  | cons d k =>
    rw [List.map_cons, List.map_cons, List.cons.injEq] at h
    have hd := hk d rfl
    rw [← h.1, isDigit_toLower hc, hc] at hd
    cases hd

theorem cuttingWords_head : ∀ k ∈ cuttingWords, ∀ d ∈ k.head?, d.toLower.isDigit = false := by
  have hall : ∀ k ∈ cuttingWords, (k.head?.all fun d => !d.toLower.isDigit) = true := by decide
  intro k hk d hd
  simpa [Option.mem_def.mp hd] using hall k hk

/-- The text of a natural number is a part. -/
theorem part_toDigits (n : Nat) : Part cuttingMarks cuttingWords (Nat.toDigits 10 n) := by
  apply Part.of_isWord (isWord_toDigits n) cuttingMarks_not_wordChar
  intro k hk
  obtain ⟨c, w, hdigits, hc⟩ := exists_toDigits_cons n
  rw [hdigits]
  exact eqIgnoreCase_of_isDigit hc (cuttingWords_head k hk)

theorem ofDigits_toDigits (n : Nat) : Decimal.ofDigits (Nat.toDigits 10 n) = n :=
  Nat.ofDigitChars_toDigits (by decide) (by decide)

/-- A text that begins with a digit has no sign. -/
theorem spanSign_of_isDigit {c : Char} (hc : c.isDigit = true) (w : List Char) :
    Decimal.spanSign (c :: w) = (false, c :: w) := by
  unfold Decimal.spanSign
  split
  next heq =>
    rw [(List.cons.inj heq).1] at hc
    cases hc
  next heq =>
    rw [(List.cons.inj heq).1] at hc
    cases hc
  next => rfl

theorem readNat?_toDigits (n : Nat) : Decimal.readNat? (Nat.toDigits 10 n) = some n := by
  have hall : (Nat.toDigits 10 n).all Char.isDigit = true :=
    List.all_eq_true.mpr fun c hc => isDigit_of_mem_toDigits hc
  rw [Decimal.readNat?, if_pos ⟨Nat.toDigits_ne_nil, hall⟩, ofDigits_toDigits]

/-- **An index reads back from its digits.** -/
theorem readIndex?_toDigits {n : Nat} (h : n ≤ Word.greatestUnsigned) :
    Decimal.readIndex? (Nat.toDigits 10 n) = some n := by
  have hplus : ∀ r, Nat.toDigits 10 n ≠ '+' :: r := by
    intro r hr
    have hdigit : '+'.isDigit = true := isDigit_of_mem_toDigits (n := n) (by rw [hr]; exact List.mem_cons_self)
    cases hdigit
  unfold Decimal.readIndex?
  split
  next r heq => exact absurd heq (hplus r)
  next => simp only [readNat?_toDigits, if_pos h]

/-! ## Integers -/

theorem ofInt?_toInt (i : Int64) : Word.ofInt? i.toInt = some i := by
  have hlow : Word.least ≤ i.toInt := Int64.le_toInt i
  have hhigh : i.toInt ≤ Word.greatest := by
    have := Int64.toInt_lt i
    unfold Word.greatest
    omega
  rw [Word.ofInt?, if_pos ⟨hlow, hhigh⟩, Int64.ofInt_toInt]

/-- The text of an integer: a minus where it needs one, and digits. -/
theorem toList_toString_int (i : Int) : (toString i).toList =
    (if 0 ≤ i then [] else ['-']) ++ Nat.toDigits 10 i.natAbs := by
  show i.repr.toList = _
  rw [Int.repr_eq_if]
  by_cases h : 0 ≤ i
  · have habs : i.toNat = i.natAbs := by omega
    rw [if_pos h, if_pos h, Nat.toList_repr, habs]
    rfl
  · have habs : (-i).toNat = i.natAbs := by omega
    rw [if_neg h, if_neg h, String.toList_append, Nat.toList_repr, habs]
    rfl

theorem readInt64?_toString (i : Int64) : Decimal.readInt64? (toString i.toInt).toList = some i := by
  rw [toList_toString_int]
  unfold Decimal.readInt64?
  by_cases h : 0 ≤ i.toInt
  · have hsign : Decimal.spanSign (Nat.toDigits 10 i.toInt.natAbs) =
        (false, Nat.toDigits 10 i.toInt.natAbs) := by
      obtain ⟨c, w, hdigits, hc⟩ := exists_toDigits_cons i.toInt.natAbs
      rw [hdigits, spanSign_of_isDigit hc]
    have habs : ((i.toInt.natAbs : Nat) : Int) = i.toInt := by omega
    rw [if_pos h, List.nil_append, hsign]
    simp only [readNat?_toDigits, Option.bind_some, Bool.false_eq_true, if_false, habs]
    exact ofInt?_toInt i
  · have habs : -((i.toInt.natAbs : Nat) : Int) = i.toInt := by omega
    rw [if_neg h]
    show ((Decimal.readNat? (Nat.toDigits 10 i.toInt.natAbs)).bind fun n =>
      Word.ofInt? (if true = true then -(n : Int) else n)) = some i
    simp only [readNat?_toDigits, Option.bind_some, if_true, habs]
    exact ofInt?_toInt i

/-- The text of an integer is a part. -/
theorem part_integer (i : Int) : Part cuttingMarks cuttingWords (toString i).toList := by
  rw [toList_toString_int]
  have hdigits := part_toDigits i.natAbs
  split_ifs with h
  · exact hdigits
  · have hminus : ∀ c ∈ ['-'], Neutral c ∧ isWordChar c = false ∧ isBlank c = false ∧
        c ∉ cuttingMarks := by
      intro c hc
      obtain rfl := List.mem_singleton.mp hc
      exact ⟨⟨by decide, by decide, by decide⟩, rfl, rfl, by decide⟩
    exact
      { trimmed := trimmed_of_chars (List.cons_ne_nil _ _) (by
          intro c hc
          rcases List.mem_append.mp hc with hc | hc
          · exact (hminus c hc).2.2.1
          · exact isBlank_of_isWordChar ((isWord_toDigits _).all c hc))
        balanced := hdigits.balanced
        tidy := (Tidy.char rfl rfl).append hdigits.tidy
        clear := hdigits.clear.cons (hminus '-' List.mem_cons_self).1 rfl (by decide)
          nil_not_mem_cuttingWords }

/-! ## Texts -/

theorem unquoteBody?_quotedBody {s : List Char} (hs : '\\' ∉ s) :
    unquoteBody? (quotedBody s ++ ['\'']) = some s := by
  induction s with
  | nil => rfl
  | cons c s ih =>
    have ih := ih fun hmem => hs (List.mem_cons_of_mem _ hmem)
    rw [quotedBody_cons]
    split_ifs with hc
    · subst hc
      show (unquoteBody? (quotedBody s ++ ['\''])).map ('\'' :: ·) = _
      rw [ih]
      rfl
    · have hslash : c ≠ '\\' := by
        rintro rfl
        exact hs List.mem_cons_self
      rw [List.cons_append, List.nil_append, List.cons_append, unquoteBody?.eq_def]
      split <;> simp_all

/-! ## Literals -/

theorem eqIgnoreCase_of_head_ne {c d : Char} {w k : List Char} (h : c.toLower ≠ d.toLower) :
    eqIgnoreCase (c :: w) (d :: k) = false := by
  rw [eqIgnoreCase, beq_eq_false_iff_ne]
  intro heq
  rw [List.map_cons, List.map_cons, List.cons.injEq] at heq
  exact h heq.1

/-- A literal that begins like a number is read as one. -/
theorem readLiteral?_of_startsNumber {c : Char} {w : List Char} (hw : Trimmed (c :: w))
    (hc : startsNumber c = true) (hlower : c.toLower = c) :
    readLiteral? (c :: w) = (Number.read? (c :: w)).map Value.number := by
  have hne (d : Char) (hd : startsNumber d = false) : c ≠ d := by
    rintro rfl
    rw [hc] at hd
    cases hd
  have hword (d : Char) (hd : startsNumber d.toLower = false) (k : List Char) :
      eqIgnoreCase (c :: w) (d :: k) = false := by
    apply eqIgnoreCase_of_head_ne
    rw [hlower]
    exact hne _ hd
  have hnull : eqIgnoreCase (c :: w) "NULL".toList = false := hword 'N' rfl _
  have htrue : eqIgnoreCase (c :: w) "TRUE".toList = false := hword 'T' rfl _
  have hfalse : eqIgnoreCase (c :: w) "FALSE".toList = false := hword 'F' rfl _
  have hhead : (c :: w).head?.any startsNumber = true := hc
  unfold readLiteral?
  rw [hw.trim_eq]
  dsimp only
  split
  next body heq => exact absurd (List.cons.inj heq).1 (hne '\'' rfl)
  next =>
    simp only [hnull, htrue, hfalse, hhead, Bool.false_eq_true, if_false, if_true]

theorem readLiteral?_integer (i : Int64) :
    readLiteral? (toString i.toInt).toList = some (.integer i) := by
  have htrimmed := (part_integer i.toInt).trimmed
  have hhead : ∃ c w, (toString i.toInt).toList = c :: w ∧ startsNumber c = true ∧ c.toLower = c := by
    rw [toList_toString_int]
    split_ifs with h
    · obtain ⟨c, w, hdigits, hc⟩ := exists_toDigits_cons i.toInt.natAbs
      exact ⟨c, w, hdigits, by simp [startsNumber, hc], isDigit_toLower hc⟩
    · exact ⟨'-', _, rfl, rfl, rfl⟩
  obtain ⟨c, w, htext, hstarts, hlower⟩ := hhead
  have hread : Number.read? (toString i.toInt).toList = some (.integer i) := by
    unfold Number.read?
    rw [htrimmed.trim_eq]
    dsimp only
    rw [readInt64?_toString]
  rw [htext] at htrimmed hread ⊢
  rw [readLiteral?_of_startsNumber htrimmed hstarts hlower, hread]
  rfl

/-- **The literal of a plain value reads back as the value.** -/
theorem readLiteral?_literal {v : Value} (hv : v.IsPlain) : readLiteral? v.literal.toList = some v := by
  cases v with
  | null => rfl
  | boolean b => cases b <;> rfl
  | number n =>
    cases n with
    | integer i => exact readLiteral?_integer i
    | float x => cases hv
  | text s =>
    have hs : '\\' ∉ s.toList := hv
    have hpart : Part [] [] (quoted s.toList) :=
      Part.of_quoted hs List.not_mem_nil List.not_mem_nil
    have htrimmed := hpart.trimmed
    rw [Value.literal, toList_quoted]
    unfold readLiteral?
    rw [htrimmed.trim_eq]
    show (unquoteBody? (quotedBody s.toList ++ ['\''])).map _ = _
    rw [unquoteBody?_quotedBody hs, Option.map_some, String.ofList_toList]
  | temporal m => cases hv
  | nested j => cases hv

/-- The literal of a plain value is a part. -/
theorem part_literal {v : Value} (hv : v.IsPlain) :
    Part cuttingMarks cuttingWords v.literal.toList := by
  have hword {w : List Char} (hw : IsWord w) (hwords : ∀ k ∈ cuttingWords, eqIgnoreCase w k = false) :=
    Part.of_isWord hw cuttingMarks_not_wordChar hwords
  cases v with
  | null => exact hword (isWord_of_all (by decide) (by decide)) (by decide)
  | boolean b => cases b <;> exact hword (isWord_of_all (by decide) (by decide)) (by decide)
  | number n =>
    cases n with
    | integer i => exact part_integer i.toInt
    | float x => cases hv
  | text s =>
    rw [Value.literal, toList_quoted]
    exact Part.of_quoted hv (by decide) nil_not_mem_cuttingWords
  | temporal m => cases hv
  | nested j => cases hv

end Grammar

end DocQuery
