import DocQuery.Proofs.Grammar.Clauses
import DocQuery.Proofs.Grammar.Literal

/-!
# DocQuery.Proofs.Grammar.Placeholders — question marks and what stands in their place

A question mark outside of quotes is a placeholder.  Filling a text puts the literals of values in the
place of its placeholders (`fill`).  A text and a filled one are related place by place (`Fills`): they
go on alike outside of the literals, and a literal leaves the scanner as the placeholder does.  So a
filled text is cut where the text is cut (`Fills.split`), and a pattern that no literal can begin is
found in both or in neither (`Fills.afterPattern?_eq_some`, `Fills.afterPattern?_eq_none`).

A literal must not touch what stands around it: a placeholder stands apart if a blank or a comparison
is in front of it and a blank, a closing parenthesis or nothing follows (`standApart`).
-/

namespace DocQuery.Grammar

open Text (Trimmed isBlank isWordChar)

/-! ## Placeholders -/

/-- Whether a character is a placeholder: a question mark outside of quotes. -/
def Scanner.isPlaceholder (s : Scanner) (c : Char) : Bool := s.closing.isNone && c == '?'

/-- How many placeholders a text has. -/
def placeholdersFrom (s : Scanner) : List Char → Nat
  | [] => 0
  | c :: text => placeholdersFrom (s.step c) text + if s.isPlaceholder c then 1 else 0

/-- The text with the literals of values in the place of its placeholders, in order. -/
def fillFrom (s : Scanner) : List Char → List Value → List Char
  | [], _ => []
  | c :: text, values =>
    if s.isPlaceholder c then match values with
      | v :: rest => v.literal.toList ++ fillFrom (s.step c) text rest
      | [] => c :: fillFrom (s.step c) text []
    else c :: fillFrom (s.step c) text values

/-- Whether a literal may follow a character: a blank or a comparison. -/
def opens (before : Option Char) : Bool :=
  before.all fun c => isBlank c || c == '=' || c == '<' || c == '>'

/-- Whether a literal may stand in front of a text. -/
def ends (text : List Char) : Bool := text.head?.all fun c => isBlank c || c == ')'

/-- Whether literals may stand in the place of all placeholders of a text. -/
def standApartFrom (s : Scanner) (before : Option Char) : List Char → Bool
  | [] => true
  | c :: text =>
    (!s.isPlaceholder c || opens before && ends text) && standApartFrom (s.step c) (some c) text

/-- How many placeholders a query text has. -/
def placeholders (sql : String) : Nat := placeholdersFrom {} sql.toList

/-- The query text with the literals of values in the place of its placeholders. -/
def fill (sql : String) (values : List Value) : String :=
  String.ofList (fillFrom {} sql.toList values)

/-- Whether all placeholders of a query text stand apart from what is around them. -/
def standApart (sql : String) : Bool := standApartFrom {} none sql.toList

/-- A text and the same text with the literals of values in the place of its placeholders; `before`
is the character in front of the text. -/
inductive Fills : Scanner → (before : Option Char) → List Char → List Char → List Value → Prop
  | nil {s : Scanner} {before : Option Char} : Fills s before [] [] []
  | char {s : Scanner} {before : Option Char} {c : Char} {text filled : List Char}
      {values : List Value} (hc : s.closing = none → c ≠ '?')
      (rest : Fills (s.step c) (some c) text filled values) :
      Fills s before (c :: text) (c :: filled) values
  | literal {s : Scanner} {before : Option Char} {v : Value} {text filled : List Char}
      {values : List Value} (hs : s.closing = none) (hbefore : opens before = true)
      (hends : ends text = true) (hv : v.IsPlain) (rest : Fills s (some '?') text filled values) :
      Fills s before ('?' :: text) (v.literal.toList ++ filled) (v :: values)

/-! ## Scanning literals -/

namespace Scanner

/-- The scanner after a parenthesis was closed that was not open. -/
def flagged (s : Scanner) : Scanner := { s with unbalanced := true }

theorem step_flagged (s : Scanner) (c : Char) : s.flagged.step c = (s.step c).flagged := by
  obtain ⟨depth, closing, escaped, unbalanced⟩ := s
  cases closing with
  | some closing =>
    cases escaped with
    | true => rfl
    | false =>
      simp only [step, flagged, Bool.false_eq_true, if_false]
      by_cases hskip : c = '\\' ∧ closing ≠ ']'
      · simp only [if_pos hskip]
      · by_cases hend : c = closing
        · simp only [if_neg hskip, if_pos hend]
        · simp only [if_neg hskip, if_neg hend]
  | none =>
    simp only [step, flagged]
    split_ifs <;> simp_all

theorem run_flagged (s : Scanner) (w : List Char) : s.flagged.run w = (s.run w).flagged := by
  induction w generalizing s with
  | nil => rfl
  | cons c w ih => rw [run_cons, run_cons, step_flagged, ih]

/-- Outside of quotes the scanner is one at the start, within so many parentheses. -/
theorem Outside.eq_lift {s : Scanner} (hs : s.Outside) :
    s = lift s.depth {} ∨ s = (lift s.depth {}).flagged := by
  obtain ⟨depth, closing, escaped, unbalanced⟩ := s
  obtain ⟨rfl, rfl⟩ := hs
  cases unbalanced with
  | false => exact Or.inl (by simp [lift])
  | true => exact Or.inr (by simp [lift, flagged])

/-- A balanced text leaves every scanner outside of quotes as it was. -/
theorem Outside.run_eq {s : Scanner} (hs : s.Outside) {w : List Char} (hw : Balanced w) :
    s.run w = s := by
  rcases hs.eq_lift with h | h
  · rw [h, hw.run_lift]
  · rw [h, run_flagged, hw.run_lift]

theorem Outside.of_sound {s : Scanner} (hs : s.Sound) (hclosing : s.closing = none) : s.Outside :=
  ⟨hclosing, hs.escaped hclosing⟩

theorem step_question {s : Scanner} (hs : s.closing = none) : s.step '?' = s :=
  Neutral.step ⟨by decide, by decide, by decide⟩ hs

/-- The quotes that are open decide the quotes that are open after the next character. -/
theorem step_quotes {s s' : Scanner} (hclosing : s.closing = s'.closing)
    (hescaped : s.escaped = s'.escaped) (c : Char) :
    (s.step c).closing = (s'.step c).closing ∧ (s.step c).escaped = (s'.step c).escaped := by
  obtain ⟨depth, closing, escaped, unbalanced⟩ := s
  obtain ⟨depth', closing', escaped', unbalanced'⟩ := s'
  obtain ⟨rfl, rfl⟩ := And.intro hclosing hescaped
  cases closing with
  | some closing =>
    simp only [step]
    split_ifs <;> exact ⟨rfl, rfl⟩
  | none =>
    simp only [step]
    split_ifs <;> exact ⟨rfl, rfl⟩

end Scanner

theorem TopAll.flagged_iff {P : Option Char → List Char → Prop} {s : Scanner} {before : Option Char}
    {w : List Char} : TopAll P s.flagged before w ↔ TopAll P s before w := by
  induction w generalizing s before with
  | nil => exact Iff.rfl
  | cons c w ih =>
    rw [TopAll, TopAll, Scanner.step_flagged, ih]
    rfl

/-- What holds at the places of a balanced text holds at those it has within parentheses. -/
theorem TopAll.of_outside {P : Option Char → List Char → Prop} {s : Scanner} {before : Option Char}
    {w : List Char} (hs : s.Outside) (hw : Balanced w) (h : TopAll P {} before w) :
    TopAll P s before w := by
  have hlift : TopAll P (Scanner.lift s.depth {}) before w := by
    cases s.depth with
    | zero => exact h
    | succ k => exact TopAll.of_lift k (by rw [hw])
  rcases hs.eq_lift with heq | heq
  · rwa [heq]
  · rw [heq, TopAll.flagged_iff]
    exact hlift

/-! ## How literals begin -/

/-- Whether the literal of no plain value begins like a text: neither a number nor a quoted text nor
one of the words does. -/
def repels : List Char → Bool
  | [] => false
  | c :: text => !c.isDigit && c != '-' && c != '\'' &&
    [('n', 'u'), ('t', 'r'), ('f', 'a')].all fun (first, second) =>
      c.toLower != first || text.head?.any (·.toLower != second)

theorem literal_starts {v : Value} (hv : v.IsPlain) : ∃ c text, v.literal.toList = c :: text ∧
    (c.isDigit = true ∨ c = '-' ∨ c = '\'' ∨ ∃ d rest, text = d :: rest ∧
      (c.toLower, d.toLower) ∈ [('n', 'u'), ('t', 'r'), ('f', 'a')]) := by
  cases v with
  | null => exact ⟨_, _, rfl, by simp; decide⟩
  | boolean b => cases b <;> exact ⟨_, _, rfl, by simp; decide⟩
  | number n =>
    cases n with
    | integer i =>
      show ∃ c text, (toString i.toInt).toList = c :: text ∧ _
      rw [toList_toString_int]
      split_ifs with h
      · obtain ⟨c, w, hdigits⟩ := List.exists_cons_of_ne_nil
          (Nat.toDigits_ne_nil (n := i.toInt.natAbs) (b := 10))
        refine ⟨c, w, hdigits, Or.inl ?_⟩
        exact isDigit_of_mem_toDigits (n := i.toInt.natAbs) (by rw [hdigits]; exact List.mem_cons_self)
      · exact ⟨_, _, rfl, Or.inr (Or.inl rfl)⟩
    | float x => cases hv
  | text s =>
    refine ⟨_, _, toList_quoted s, Or.inr (Or.inr (Or.inl rfl))⟩
  | temporal m => cases hv
  | nested j => cases hv

/-- **A text that repels literals is not found where one stands.** -/
theorem afterPattern?_literal {v : Value} (hv : v.IsPlain) {p : List Char} (hp : repels p = true)
    (rest : List Char) : afterPattern? p (v.literal.toList ++ rest) = none := by
  obtain ⟨c, text, hliteral, hstart⟩ := literal_starts hv
  rw [hliteral]
  cases p with
  | nil => cases hp
  | cons a p =>
    simp only [repels, Bool.and_eq_true, Bool.not_eq_true', bne_iff_ne, List.all_eq_true,
      Bool.or_eq_true] at hp
    obtain ⟨⟨⟨hdigit, hminus⟩, hquote⟩, hwords⟩ := hp
    rw [List.cons_append, afterPattern?]
    split_ifs with hlower
    · rcases hstart with hc | rfl | rfl | ⟨d, more, rfl, hword⟩
      · -- Digits have no case, so the pattern would begin with one.
        rw [isDigit_toLower hc] at hlower
        rw [eq_of_toLower_eq (isAlpha_eq_false_of_isDigit hc) hlower, hc] at hdigit
        cases hdigit
      · exact absurd (eq_of_toLower_eq rfl hlower) hminus
      · exact absurd (eq_of_toLower_eq rfl hlower) hquote
      · rcases hwords _ hword with hne | hne
        · exact absurd hlower hne
        · cases p with
          | nil => cases hne
          | cons b p =>
            have hb : b.toLower ≠ d.toLower := by simpa using hne
            rw [List.cons_append, afterPattern?, if_neg hb]
    · rfl

/-! ## Filled texts -/

theorem ends_append {u v : List Char} (h : ends (u ++ v) = true) : ends u = true := by
  cases u with
  | nil => rfl
  | cons c u => exact h

theorem standApartFrom_cons {s : Scanner} {before : Option Char} {c : Char} {text : List Char}
    (h : standApartFrom s before (c :: text) = true) :
    (s.isPlaceholder c = true → opens before = true ∧ ends text = true) ∧
      standApartFrom (s.step c) (some c) text = true := by
  rw [standApartFrom, Bool.and_eq_true, Bool.or_eq_true, Bool.not_eq_true', Bool.and_eq_true] at h
  refine ⟨fun hc => h.1.resolve_left ?_, h.2⟩
  rw [hc]
  exact Bool.noConfusion

/-- **Filling fills**: with a plain value for each placeholder that stands apart. -/
theorem fills_fillFrom {s : Scanner} {before : Option Char} {text : List Char} {values : List Value}
    (hapart : standApartFrom s before text = true) (hcount : placeholdersFrom s text = values.length)
    (hplain : ∀ v ∈ values, v.IsPlain) : Fills s before text (fillFrom s text values) values := by
  induction text generalizing s before values with
  | nil =>
    obtain rfl : values = [] := List.length_eq_zero_iff.mp hcount.symm
    exact Fills.nil
  | cons c text ih =>
    obtain ⟨hhere, hrest⟩ := standApartFrom_cons hapart
    rw [placeholdersFrom] at hcount
    cases hc : s.isPlaceholder c with
    | false =>
      rw [hc] at hcount
      have hfill : fillFrom s (c :: text) values = c :: fillFrom (s.step c) text values := by
        cases values <;> simp [fillFrom, hc]
      rw [hfill]
      refine Fills.char (fun hs hq => ?_) (ih hrest hcount hplain)
      rw [Scanner.isPlaceholder, hs, hq] at hc
      cases hc
    | true =>
      obtain ⟨hbefore, hends⟩ := hhere hc
      rw [Scanner.isPlaceholder, Bool.and_eq_true, Option.isNone_iff_eq_none, beq_iff_eq] at hc
      obtain ⟨hs, rfl⟩ := hc
      have hplaceholder : s.isPlaceholder '?' = true := by simp [Scanner.isPlaceholder, hs]
      rw [hplaceholder, if_pos rfl] at hcount
      rw [Scanner.step_question hs] at hrest hcount
      cases values with
      | nil => cases hcount
      | cons v values =>
        have hrest := ih hrest (Nat.succ.inj hcount) fun w hw => hplain w (List.mem_cons_of_mem _ hw)
        simp only [fillFrom, hplaceholder, if_true, Scanner.step_question hs]
        exact Fills.literal hs hbefore hends (hplain v List.mem_cons_self) hrest

theorem literal_ne_nil {v : Value} (hv : v.IsPlain) : v.literal.toList ≠ [] :=
  (part_literal hv).trimmed.nonempty

namespace Fills

variable {s s' : Scanner} {before before' : Option Char} {text filled u rest : List Char}
  {values : List Value}

/-- A text without placeholders stays as it is. -/
theorem eq_of_nil (h : Fills s before text filled []) : filled = text := by
  generalize hvalues : ([] : List Value) = values at h
  induction h with
  | nil => rfl
  | char hc rest ih => rw [ih hvalues]
  | literal hs hbefore hends hv rest ih => cases hvalues

theorem eq_nil_iff (h : Fills s before text filled values) : filled = [] ↔ text = [] := by
  cases h with
  | nil => exact Iff.rfl
  | char hc rest => simp
  | literal hs hbefore hends hv rest => simp [literal_ne_nil hv]

theorem values_eq_nil (h : Fills s before text filled values) (htext : '?' ∉ text) :
    values = [] := by
  induction h with
  | nil => rfl
  | char hc rest ih => exact ih fun hmem => htext (List.mem_cons_of_mem _ hmem)
  | literal hs hbefore hends hv rest ih => exact absurd List.mem_cons_self htext

/-- Only the quotes that are open in front of a text decide what its placeholders are. -/
theorem congr (h : Fills s before text filled values) (hclosing : s.closing = s'.closing)
    (hescaped : s.escaped = s'.escaped) (hopens : opens before = true → opens before' = true) :
    Fills s' before' text filled values := by
  induction h generalizing s' before' with
  | nil => exact Fills.nil
  | char hc rest ih =>
    obtain ⟨hclosing', hescaped'⟩ := Scanner.step_quotes hclosing hescaped _
    exact Fills.char (fun hs => hc (hclosing.trans hs)) (ih hclosing' hescaped' id)
  | literal hs hbefore hends hv rest ih =>
    exact Fills.literal (hclosing ▸ hs) (hopens hbefore) hends hv (ih hclosing hescaped id)

/-- What follows a place outside of quotes is a text of its own. -/
theorem alone (h : Fills s before text filled values) (hs : s.Outside) :
    Fills {} none text filled values :=
  h.congr hs.closing hs.escaped fun _ => rfl

/-- **A filled text is cut where the text is cut.** -/
theorem split (h : Fills s before (u ++ rest) filled values) : ∃ u' rest' left right,
    filled = u' ++ rest' ∧ values = left ++ right ∧ Fills s before u u' left ∧
      Fills (s.run u) (lastOr before u) rest rest' right := by
  induction u generalizing s before filled values with
  | nil => exact ⟨[], filled, [], values, rfl, rfl, Fills.nil, h⟩
  | cons c u ih =>
    cases h with
    | char hc hrest =>
      obtain ⟨u', rest', left, right, rfl, rfl, hu, hr⟩ := ih hrest
      exact ⟨c :: u', rest', left, right, rfl, rfl, Fills.char hc hu, by rwa [lastOr_cons]⟩
    | literal hs hbefore hends hv hrest =>
      obtain ⟨u', rest', left, right, rfl, rfl, hu, hr⟩ := ih hrest
      refine ⟨_ ++ u', rest', _ :: left, right, (List.append_assoc _ _ _).symm, rfl,
        Fills.literal hs hbefore (ends_append hends) hv hu, ?_⟩
      rwa [Scanner.run_cons, Scanner.step_question hs, lastOr_cons]

/-- A part without placeholders stands in both texts. -/
theorem split_plain (h : Fills s before (u ++ rest) filled values) (hu : '?' ∉ u) :
    ∃ rest', filled = u ++ rest' ∧ Fills (s.run u) (lastOr before u) rest rest' values := by
  obtain ⟨u', rest', left, right, rfl, rfl, hleft, hright⟩ := h.split
  obtain rfl := hleft.values_eq_nil hu
  rw [hleft.eq_of_nil]
  exact ⟨rest', rfl, hright⟩

theorem ends_filled (h : Fills s before text filled values) (hends : ends text = true) :
    ends filled = true := by
  cases h with
  | nil => rfl
  | char hc rest => exact hends
  | literal hs hbefore hends' hv rest => cases hends

/-! ### Trimming -/

/-- A literal has no blank at its ends. -/
theorem trimmed (h : Fills s before text filled values) (htext : Trimmed text) :
    Trimmed filled where
  nonempty hnil := htext.nonempty (h.eq_nil_iff.mp hnil)
  first := by
    cases h with
    | nil => exact htext.first
    | char hc rest => exact htext.first
    | literal hs hbefore hends hv rest =>
      have hliteral := (part_literal hv).trimmed
      obtain ⟨c, w, hw⟩ := List.exists_cons_of_ne_nil hliteral.nonempty
      rw [hw] at hliteral ⊢
      exact hliteral.first
  last := by
    obtain ⟨init, c, rfl⟩ := List.eq_nil_or_concat text |>.resolve_left htext.nonempty
    rw [List.concat_eq_append] at h
    obtain ⟨init', last', left, right, rfl, rfl, -, hlast⟩ := h.split
    cases hlast with
    | char hc rest =>
      cases rest
      intro d hd
      rw [List.getLast?_append_of_ne_nil _ (List.cons_ne_nil _ _)] at hd
      exact htext.last d (by simpa using hd)
    | literal hs hbefore hends hv rest =>
      cases rest
      intro d hd
      have hliteral := (part_literal hv).trimmed
      rw [List.append_nil, List.getLast?_append_of_ne_nil _ hliteral.nonempty] at hd
      exact hliteral.last d hd

theorem not_mem_of_blanks (h : ∀ c ∈ u, isBlank c = true) : '?' ∉ u := fun hmem => by
  have hblank := h '?' hmem
  cases hblank

/-- **A filled text is trimmed with the text.** -/
theorem trim (h : Fills s before text filled values) (hs : s.Outside) :
    Fills {} none (Text.trim text) (Text.trim filled) values := by
  obtain ⟨u, v, htext, hu, hv⟩ := Text.exists_eq_trim text
  rw [htext] at h
  obtain ⟨middle, rfl, hmiddle⟩ := h.split_plain (not_mem_of_blanks hu)
  rw [Scanner.run_blanks hs.closing hu] at hmiddle
  obtain ⟨inner, last, left, right, rfl, rfl, hinner, hlast⟩ := hmiddle.split
  obtain rfl := hlast.values_eq_nil (not_mem_of_blanks hv)
  rw [hlast.eq_of_nil, Text.trim_blanks_append hu, List.append_nil]
  have hinner := hinner.alone hs
  by_cases hnil : Text.trim text = []
  · rw [hnil] at hinner ⊢
    cases hinner
    have hblank : Text.trim v = [] := by
      by_contra hne
      have hmem := (Text.trimmed_trim hne).first
      obtain ⟨a, b, hsplit, -, -⟩ := Text.exists_eq_trim v
      obtain ⟨c, w, hw⟩ := List.exists_cons_of_ne_nil hne
      have hc : isBlank c = true := hv c (by rw [hsplit, hw]; simp)
      rw [hw] at hmem
      rw [hmem c rfl] at hc
      cases hc
    rw [List.nil_append, hblank]
    exact Fills.nil
  · rw [(hinner.trimmed (Text.trimmed_trim hnil)).trim_append_blanks hv]
    exact hinner

end Fills

/-! ## Patterns -/

/-- The characters that a pattern must not have: the placeholder, and what means something to the
scanner. -/
def unfitMarks : List Char := ['?', '(', ')', '\'', '"', '\x60', '[']

/-- Whether a pattern is found in a text where it is found in the filled one: where it can reach a
literal, it repels it. -/
def isForeignAfter : (before : Option Char) → List Char → Bool
  | _, [] => true
  | before, c :: p =>
    (!opens before || repels (c :: p)) && !unfitMarks.contains c.toLower && isForeignAfter (some c) p

/-- Whether a pattern is foreign to literals. -/
def IsForeign (p : List Char) : Prop := isForeignAfter none p = true

instance (p : List Char) : Decidable (IsForeign p) := inferInstanceAs (Decidable (_ = true))

theorem fit_of_toLower {a c : Char} (ha : unfitMarks.contains a.toLower = false)
    (h : a.toLower = c.toLower) : Neutral c ∧ c ≠ '?' := by
  have hne (d : Char) (hd : unfitMarks.contains d.toLower = true) : c ≠ d := by
    rintro rfl
    rw [h, hd] at ha
    cases ha
  refine ⟨⟨hne '(' rfl, hne ')' rfl, ?_⟩, hne '?' rfl⟩
  simp [Scanner.closer?, hne '\'' rfl, hne '"' rfl, hne '\x60' rfl, hne '[' rfl]

theorem isAlpha_of_opens {c : Char} (h : opens (some c) = true) : c.isAlpha = false := by
  by_contra halpha
  rw [Bool.not_eq_false] at halpha
  have hrange : c.toNat < 123 := by
    rcases isAlpha_range halpha with hupper | hlower
    · omega
    · omega
  have hall : ∀ n < 123, (Char.ofNat n).isAlpha = true → opens (some (Char.ofNat n)) = false := by
    decide
  have hc := hall c.toNat hrange (by rwa [Char.ofNat_toNat])
  rw [Char.ofNat_toNat, h] at hc
  cases hc

theorem opens_of_toLower {a c : Char} (h : a.toLower = c.toLower) (hc : opens (some c) = true) :
    opens (some a) = true := by
  have halpha := isAlpha_of_opens hc
  rw [toLower_of_isAlpha_eq_false halpha] at h
  rwa [eq_of_toLower_eq halpha h]

theorem fit_of_isForeignAfter {p u : List Char} {before : Option Char}
    (hp : isForeignAfter before p = true) (h : u.map Char.toLower = p.map Char.toLower) :
    ∀ c ∈ u, Neutral c ∧ c ≠ '?' := by
  induction p generalizing u before with
  | nil =>
    obtain rfl : u = [] := List.map_eq_nil_iff.mp h
    exact fun c hc => by cases hc
  | cons a p ih =>
    obtain ⟨c, u, rfl⟩ := List.exists_cons_of_ne_nil (l := u) (by rintro rfl; cases h)
    rw [List.map_cons, List.map_cons, List.cons.injEq] at h
    rw [isForeignAfter, Bool.and_eq_true, Bool.and_eq_true, Bool.not_eq_true'] at hp
    exact List.forall_mem_cons.mpr ⟨fit_of_toLower hp.1.2 h.1.symm, ih hp.2 h.2⟩

namespace Fills

variable {s : Scanner} {before : Option Char} {p text filled rest : List Char} {values : List Value}

/-- **A pattern that is found in a text is found in the filled one**, and what follows it is filled. -/
theorem afterPattern?_eq_some (h : Fills s before text filled values) (hs : s.closing = none)
    (hp : IsForeign p) (hsome : afterPattern? p text = some rest) : ∃ u rest',
    text = u ++ rest ∧ filled = u ++ rest' ∧ u.map Char.toLower = p.map Char.toLower ∧
      (∀ c ∈ u, Neutral c ∧ c ≠ '?') ∧ afterPattern? p filled = some rest' ∧
      Fills s (lastOr before u) rest rest' values := by
  obtain ⟨u, rfl, hu⟩ := Grammar.afterPattern?_eq_some_iff.mp hsome
  have hfit := fit_of_isForeignAfter hp hu
  obtain ⟨rest', rfl, hrest⟩ := h.split_plain fun hmem => (hfit '?' hmem).2 rfl
  have hrun : s.run u = s := by
    clear hsome hu h hrest
    induction u with
    | nil => rfl
    | cons c u ih =>
      rw [Scanner.run_cons, (hfit c List.mem_cons_self).1.step hs]
      exact ih fun d hd => hfit d (List.mem_cons_of_mem _ hd)
  rw [hrun] at hrest
  exact ⟨u, rest', rfl, rfl, hu, hfit, Grammar.afterPattern?_eq_some_iff.mpr ⟨u, rfl, hu⟩, hrest⟩

/-- **A pattern that is not found in a text is not found in the filled one.** -/
theorem afterPattern?_eq_none (h : Fills s before text filled values) (hs : s.closing = none)
    (hp : IsForeign p) (hnone : afterPattern? p text = none) : afterPattern? p filled = none := by
  suffices hafter : ∀ b, (opens before = true → opens b = true) → isForeignAfter b p = true →
      Grammar.afterPattern? p filled = none from hafter none (fun _ => rfl) hp
  clear hp
  intro b hb hp
  induction p generalizing before text filled values b with
  | nil => cases hnone
  | cons a p ih =>
    rw [isForeignAfter, Bool.and_eq_true, Bool.and_eq_true, Bool.not_eq_true'] at hp
    cases h with
    | nil => exact hnone
    | @char _ _ c text filled _ hc hrest =>
      rw [afterPattern?] at hnone ⊢
      split_ifs at hnone ⊢ with hlower
      · rw [(fit_of_toLower hp.1.2 hlower).1.step hs] at hrest
        exact ih hrest hnone _ (opens_of_toLower hlower) hp.2
      · rfl
    | literal _ hbefore hends hv hrest =>
      have hrepels : repels (a :: p) = true := by simpa [hb hbefore] using hp.1.1
      exact afterPattern?_literal hv hrepels _

end Fills

/-! ## Blanks -/

theorem collapse_pending (s : Scanner) (text : List Char) :
    (collapse s true true text).1 = [] ∨ ∃ rest, (collapse s true true text).1 = ' ' :: rest := by
  induction text with
  | nil => exact Or.inl rfl
  | cons c text ih =>
    rw [collapse]
    split_ifs with hblank
    · exact ih
    · exact Or.inr ⟨_, rfl⟩
    · contradiction

theorem ends_collapse {s : Scanner} (hs : s.closing = none) {text : List Char}
    (h : ends text = true) : ends (collapse s true false text).1 = true := by
  cases text with
  | nil => rfl
  | cons c text =>
    rw [collapse, hs]
    simp only [Option.isNone_none, Bool.true_and, Bool.false_eq_true, if_false]
    split_ifs with hblank
    · rcases collapse_pending s text with hnil | ⟨rest, hrest⟩
      · rw [hnil]
        rfl
      · rw [hrest]
        rfl
    · exact h

/-- Blanks are collapsed in a filled text as in the text. -/
theorem Fills.collapse {s : Scanner} {before kept : Option Char} {started pending : Bool}
    {text filled : List Char} {values : List Value} (h : Fills s before text filled values)
    (hs : s.Sound) (hstarted : started = false → pending = false ∧ kept = none)
    (hkept : started = true → pending = false → kept = before)
    (hpending : pending = true → s.closing = none) :
    (collapse s started pending filled).2 = (collapse s started pending text).2 ∧
      Fills s kept (collapse s started pending text).1 (collapse s started pending filled).1
        values := by
  induction h generalizing started pending kept with
  | nil => exact ⟨rfl, Fills.nil⟩
  | @char s before c text filled values hc rest ih =>
    rw [Grammar.collapse, Grammar.collapse]
    split_ifs with hblank hpend
    · rw [Bool.and_eq_true, Option.isNone_iff_eq_none] at hblank
      have hstep : s.step c = s := Scanner.step_blank hblank.1 hblank.2
      rw [hstep] at ih
      refine ih hs (fun hfalse => ⟨hfalse, (hstarted hfalse).2⟩) (fun htrue hfalse => ?_) fun _ => hblank.1
      rw [htrue] at hfalse
      cases hfalse
    · obtain ⟨hlast, hfills⟩ := @ih (some c) true false (hs.step c)
        (fun h => by cases h) (fun _ _ => rfl) fun h => by cases h
      refine ⟨hlast, Fills.char (fun _ => by decide) (Fills.char ?_ ?_)⟩
      · rwa [Scanner.step_blank (hpending hpend) rfl]
      · rwa [Scanner.step_blank (hpending hpend) rfl]
    · obtain ⟨hlast, hfills⟩ := @ih (some c) true false (hs.step c)
        (fun h => by cases h) (fun _ _ => rfl) fun h => by cases h
      exact ⟨hlast, Fills.char hc hfills⟩
  | @literal s before v text filled values hclosing hbefore hends hv rest ih =>
    have hliteral := part_literal hv
    have houtside := Scanner.Outside.of_sound hs hclosing
    obtain ⟨hlast, hfills⟩ := @ih (some '?') true false hs
      (fun h => by cases h) (fun _ _ => rfl) fun h => by cases h
    rw [hliteral.tidy.collapse_append _ _ _ houtside, houtside.run_eq hliteral.balanced, Grammar.collapse,
      hclosing]
    simp only [Option.isNone_none, Bool.true_and, show isBlank '?' = false from rfl,
      Bool.false_eq_true, if_false, Scanner.step_question hclosing]
    refine ⟨hlast, ?_⟩
    cases pending with
    | true =>
      refine Fills.char (fun _ => by decide) ?_
      rw [Scanner.step_blank hclosing rfl]
      exact Fills.literal hclosing rfl (ends_collapse hclosing hends) hv hfills
    | false =>
      refine Fills.literal hclosing ?_ (ends_collapse hclosing hends) hv hfills
      cases started with
      | true => rwa [hkept rfl rfl]
      | false =>
        rw [(hstarted rfl).2]
        rfl

/-- **A filled text is normalised with the text.** -/
theorem Fills.normalize {text filled sql : List Char} {values : List Value}
    (h : Fills {} none text filled values) (hsql : normalize text = .ok sql) :
    ∃ sql', normalize filled = .ok sql' ∧ Fills {} none sql sql' values := by
  obtain ⟨hlast, hfills⟩ :
      (Grammar.collapse {} false false filled).2 = (Grammar.collapse {} false false text).2 ∧
      Fills {} none (Grammar.collapse {} false false text).1 (Grammar.collapse {} false false filled).1
        values :=
    h.collapse Scanner.sound_start (fun _ => ⟨rfl, rfl⟩) (fun h => by cases h) fun h => by cases h
  unfold Grammar.normalize at hsql ⊢
  simp only [hlast] at hsql ⊢
  split_ifs at hsql ⊢
  cases hsql
  exact ⟨_, rfl, hfills⟩

end DocQuery.Grammar
