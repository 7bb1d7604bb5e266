import DocQuery.Proofs.Time.Texts
import DocQuery.Proofs.Value.Sameness

/-!
# DocQuery.Proofs.Grammar.LiteralTexts — which values their literals show whole

The literal of a value is meant to be read as the value again.  It is for nothing, booleans,
integers and finite doubles of every size.  Two kinds lose something (`Value.readsBack_iff`):

* a text is written with a backslash before each quote but none before a backslash, while reading
  takes a backslash off every character, so that a text with a backslash comes out shorter or not
  at all;
* a moment is written to the second, and its fraction of a second is gone.
-/

namespace DocQuery

open Text (Trimmed isBlank)

namespace Grammar

/-! ## Texts with backslashes -/

theorem unquoteBody?_char {c : Char} (hslash : c ≠ '\\') (hquote : c ≠ '\'') (text : List Char) :
    unquoteBody? (c :: text) = (unquoteBody? text).map (c :: ·) := by
  rw [unquoteBody?.eq_def]
  split <;> simp_all

/-- A quote behind which anything but a quote follows ends the text too early. -/
theorem unquoteBody?_quote {c : Char} (hquote : c ≠ '\'') (text : List Char) :
    unquoteBody? ('\'' :: c :: text) = none := by
  rw [unquoteBody?.eq_def]
  split <;> grind

theorem exists_quotedBody_cons (c : Char) (s : List Char) :
    ∃ d rest, quotedBody (c :: s) = d :: rest ∧ d ≠ '\'' := by
  rw [quotedBody_cons]
  split_ifs with hc
  · exact ⟨'\\', _, rfl, by decide⟩
  · exact ⟨c, _, rfl, hc⟩

/-- A quote behind an escaped backslash leaves nothing to read. -/
theorem unquoteBody?_quote_quotedBody (s : List Char) :
    unquoteBody? ('\'' :: (quotedBody s ++ ['\''])) = none := by
  cases s with
  | nil => rfl
  | cons c s =>
    obtain ⟨d, rest, hbody, hd⟩ := exists_quotedBody_cons c s
    rw [hbody]
    exact unquoteBody?_quote hd _

/-- **Reading never makes a text longer, and takes away from one with a backslash.** -/
theorem length_of_unquoteBody? {s t : List Char}
    (h : unquoteBody? (quotedBody s ++ ['\'']) = some t) :
    t.length ≤ s.length ∧ ('\\' ∈ s → t.length < s.length) := by
  induction hn : s.length using Nat.strongRecOn generalizing s t with
  | ind n ih =>
    subst hn
    -- A character that is read by itself, or behind a backslash, leaves a shorter text to read.
    have hstep {c : Char} {r : List Char} (hshort : r.length < s.length)
        (hread : (unquoteBody? (quotedBody r ++ ['\''])).map (c :: ·) = some t) :
        t.length ≤ r.length + 1 ∧ ('\\' ∈ r → t.length < r.length + 1) := by
      obtain ⟨u, hu, rfl⟩ := Option.map_eq_some_iff.mp hread
      obtain ⟨hle, hlt⟩ := ih r.length hshort hu rfl
      exact ⟨Nat.succ_le_succ hle, fun hmem => Nat.succ_lt_succ (hlt hmem)⟩
    cases s with
    | nil =>
      cases h
      simp
    | cons c s =>
      by_cases hquote : c = '\''
      · subst hquote
        obtain ⟨hle, hlt⟩ := hstep (r := s) (Nat.lt_succ_self _) h
        exact ⟨hle, fun hmem => hlt (by simpa using hmem)⟩
      by_cases hslash : c = '\\'
      · subst hslash
        cases s with
        | nil => cases h
        | cons d s =>
          by_cases hd : d = '\''
          · -- The quote in the text has lost its backslash to the one in front of it.
            subst hd
            obtain ⟨u, hu, -⟩ := Option.map_eq_some_iff.mp h
            cases (unquoteBody?_quote_quotedBody s).symm.trans hu
          · rw [quotedBody_cons, if_neg hquote, quotedBody_cons, if_neg hd] at h
            have hshort : s.length < ('\\' :: d :: s).length := Nat.lt_succ_of_lt (Nat.lt_succ_self _)
            obtain ⟨hle, -⟩ := hstep hshort h
            simp only [List.length_cons]
            exact ⟨by omega, fun _ => by omega⟩
      · rw [quotedBody_cons, if_neg hquote] at h
        have hchar := unquoteBody?_char hslash hquote (quotedBody s ++ ['\''])
        obtain ⟨hle, hlt⟩ := hstep (r := s) (Nat.lt_succ_self _) (hchar ▸ h)
        exact ⟨hle, fun hmem => hlt ((List.mem_cons.mp hmem).resolve_left (Ne.symm hslash))⟩

/-- **A text between quotes is read back exactly if it has no backslash.** -/
theorem unquoteBody?_quotedBody_iff (s : List Char) :
    unquoteBody? (quotedBody s ++ ['\'']) = some s ↔ '\\' ∉ s :=
  ⟨fun h hmem => Nat.lt_irrefl _ ((length_of_unquoteBody? h).2 hmem), unquoteBody?_quotedBody⟩

/-- What is read from a text between quotes. -/
theorem readLiteral?_quoted (s : String) : readLiteral? (Value.quoted s).toList =
    (unquoteBody? (quotedBody s.toList ++ ['\''])).map fun t => .text (String.ofList t) := by
  have htrimmed : Trimmed (quoted s.toList) := by
    refine ⟨List.cons_ne_nil _ _, by rintro c ⟨⟩; rfl, ?_⟩
    intro c hc
    rw [quoted, ← List.cons_append, List.getLast?_concat] at hc
    cases hc
    rfl
  rw [toList_quoted]
  unfold readLiteral?
  rw [htrimmed.trim_eq]
  rfl

/-! ## Numbers -/

/-- A number in positional form is a literal. -/
theorem readLiteral?_signed {text whole fraction : List Char}
    (h : Decimal.IsPositional text whole fraction) (negative : Bool) :
    readLiteral? (Decimal.signed negative text) =
      (Number.read? (Decimal.signed negative text)).map Value.number := by
  have htrimmed := h.trimmed_signed negative
  obtain ⟨c, rest, rfl, hc⟩ := h.exists_cons
  cases negative with
  | true => exact readLiteral?_of_startsNumber htrimmed rfl rfl
  | false => exact readLiteral?_of_startsNumber htrimmed (by simp [startsNumber, hc]) (isDigit_toLower hc)

theorem readLiteral?_write (style : NumberStyle) (hstyle : ∀ e, style.positional e = true)
    (negative : Bool) (m : Magnitude) :
    readLiteral? (style.write negative m) =
      (Number.read? (style.write negative m)).map Value.number := by
  obtain ⟨whole, fraction, hpositional, -⟩ := style.isPositional_writeMagnitude hstyle m
  exact readLiteral?_signed hpositional negative

/-- The literal of a finite double is the number in positional form. -/
theorem exists_literal_float (negative : Bool) (m : Magnitude) :
    ∃ style : NumberStyle, (∀ e, style.positional e = true) ∧
      (Number.float (.finite negative m)).literal.toList = style.write negative m := by
  unfold Number.literal
  simp only [String.toList_ofList]
  split_ifs
  · exact ⟨.literal, fun _ => rfl, rfl⟩
  · exact ⟨.cell, fun _ => rfl, rfl⟩

/-- **The literal of a finite double is read as the same number.** -/
theorem exists_readLiteral?_float (negative : Bool) (m : Magnitude) :
    ∃ n, readLiteral? (Number.float (.finite negative m)).literal.toList = some (.number n) ∧
      n.same (.float (.finite negative m)) = true := by
  obtain ⟨style, hstyle, hliteral⟩ := exists_literal_float negative m
  obtain ⟨n, hread, hsame⟩ := Number.exists_read?_write style hstyle negative m
  rw [hliteral, readLiteral?_write style hstyle, hread]
  exact ⟨n, rfl, hsame⟩

end Grammar

namespace Value

open Grammar

/-! ## Reading back -/

/-- The type of the column that the literal of a value is compared with.  It matters to a moment
alone, whose literal is a text. -/
def columnType? : Value → Option ColumnType
  | .temporal _ => some .temporal
  | _ => none

/-- The value that the literal of a value is read as. -/
def readBack? (v : Value) : Option Value :=
  (readLiteral? v.literal.toList).map (coerce · v.columnType?)

/-- A value whose literal is read as the same value. -/
def ReadsBack (v : Value) : Prop := ∃ w, v.readBack? = some w ∧ w.same v = true

/-- A value of which its literal shows everything that is read. -/
def IsShownWhole : Value → Prop
  | .null | .boolean _ | .number (.integer _) => True
  | .number (.float x) => x.isFinite = true
  | .text s => '\\' ∉ s.toList
  | .temporal m => m.nanos = 0 ∨ m.nanos = 1000000000 ∧ m.second % 60 = 59
  | .nested _ => False

theorem coerce_none (v : Value) : coerce v none = v := by
  cases v <;> rfl

theorem readBack?_of_columnType?_eq_none {v : Value} (h : v.columnType? = none) :
    v.readBack? = readLiteral? v.literal.toList := by
  rw [readBack?, h]
  simp only [coerce_none, Option.map_id']

theorem readsBack_of_isPlain {v : Value} (hv : v.IsPlain) : v.ReadsBack := by
  have htype : v.columnType? = none := by cases v <;> first | rfl | cases hv
  have hkeys : v.hasDistinctKeys = true := by cases v <;> first | rfl | cases hv
  refine ⟨v, ?_, same_self hkeys⟩
  rw [readBack?_of_columnType?_eq_none htype, readLiteral?_literal hv]

theorem not_readsBack_of_eq_none {v : Value} (h : v.readBack? = none) : ¬ v.ReadsBack := by
  rintro ⟨w, hw, -⟩
  rw [h] at hw
  cases hw

theorem readsBack_float_iff (x : Binary64) :
    (number (.float x)).ReadsBack ↔ x.isFinite = true := by
  cases x with
  | nan negative =>
    refine iff_of_false (not_readsBack_of_eq_none ?_) Bool.false_ne_true
    cases negative <;> rfl
  | infinite negative =>
    refine iff_of_false (not_readsBack_of_eq_none ?_) Bool.false_ne_true
    cases negative <;> rfl
  | finite negative m =>
    obtain ⟨n, hread, hsame⟩ := exists_readLiteral?_float negative m
    refine iff_of_true ⟨.number n, ?_, hsame⟩ rfl
    rw [readBack?_of_columnType?_eq_none rfl]
    exact hread

/-- What is read from a literal in quotes is a text. -/
theorem readLiteral?_quoted_eq_some {s : String} {w : Value}
    (h : readLiteral? (quoted s).toList = some w) :
    ∃ t, unquoteBody? (quotedBody s.toList ++ ['\'']) = some t ∧ w = .text (String.ofList t) := by
  rw [readLiteral?_quoted] at h
  obtain ⟨t, ht, hw⟩ := Option.map_eq_some_iff.mp h
  exact ⟨t, ht, hw.symm⟩

theorem readsBack_text_iff (s : String) : (text s).ReadsBack ↔ '\\' ∉ s.toList := by
  refine ⟨?_, fun hs => readsBack_of_isPlain (v := text s) hs⟩
  rintro ⟨w, hw, hsame⟩
  rw [readBack?_of_columnType?_eq_none rfl] at hw
  obtain ⟨t, ht, rfl⟩ := readLiteral?_quoted_eq_some hw
  have htext : String.ofList t = s := beq_iff_eq.mp hsame
  apply (unquoteBody?_quotedBody_iff s.toList).mp
  rw [ht, ← htext, String.toList_ofList]

theorem readBack?_temporal (m : Moment) : (temporal m).readBack? = some (.temporal m.shown) := by
  have hplain : (Value.text m.text).IsPlain := m.backslash_not_mem_text
  have hread : readLiteral? (temporal m).literal.toList = some (.text m.text) :=
    readLiteral?_literal hplain
  have hcoerce : coerce (.text m.text) (some .temporal) =
      ((Moment.read? m.text.toList).map Value.temporal).getD (.text m.text) := rfl
  rw [readBack?, hread, Option.map_some]
  show some (coerce (.text m.text) (some .temporal)) = _
  rw [hcoerce, Moment.read?_text]
  rfl

theorem readsBack_temporal_iff (m : Moment) :
    (temporal m).ReadsBack ↔ m.nanos = 0 ∨ m.nanos = 1000000000 ∧ m.second % 60 = 59 := by
  rw [← Moment.shown_eq_iff]
  constructor
  · rintro ⟨w, hw, hsame⟩
    rw [readBack?_temporal] at hw
    cases hw
    exact beq_iff_eq.mp hsame
  · intro h
    exact ⟨_, readBack?_temporal m, beq_iff_eq.mpr h⟩

theorem not_readsBack_nested (j : Json) : ¬ (nested j).ReadsBack := by
  rintro ⟨w, hw, hsame⟩
  rw [readBack?_of_columnType?_eq_none rfl] at hw
  obtain ⟨t, -, rfl⟩ := readLiteral?_quoted_eq_some hw
  cases hsame

/-- **A value reads back from its literal exactly if the literal shows it whole.** -/
theorem readsBack_iff (v : Value) : v.ReadsBack ↔ v.IsShownWhole := by
  cases v with
  | null => exact iff_of_true (readsBack_of_isPlain trivial) trivial
  | boolean b => exact iff_of_true (readsBack_of_isPlain trivial) trivial
  | number n =>
    cases n with
    | integer i => exact iff_of_true (readsBack_of_isPlain trivial) trivial
    | float x => exact readsBack_float_iff x
  | text s => exact readsBack_text_iff s
  | temporal m => exact readsBack_temporal_iff m
  | nested j => exact iff_of_false (not_readsBack_nested j) id

/-- A text loses its backslash, and half a second after midnight is midnight. -/
theorem not_readsBack_backslash :
    (text "a\\b").readBack? = some (text "ab") ∧ ¬ (text "a\\b").ReadsBack ∧
      ¬ (temporal ⟨.epoch, 0, 500000000, by decide, by decide⟩).ReadsBack := by
  have hread : (text "a\\b").readBack? = some (text "ab") := by rfl
  refine ⟨hread, ?_, ?_⟩
  · rintro ⟨w, hw, hsame⟩
    rw [hread] at hw
    cases hw
    exact absurd hsame (by decide)
  · rw [readsBack_temporal_iff]
    decide

end Value

end DocQuery
