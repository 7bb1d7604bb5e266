import DocQuery.Json.Reader
import DocQuery.Json.Writer
import DocQuery.Proofs.Grammar.Literal
import DocQuery.Proofs.Json.Text
import DocQuery.Proofs.Number.Texts

/-!
# DocQuery.Proofs.Json.Scanning — the tokens of a written document

The spread text of a document is cut into the tokens of the document: marks, strings with their
escapes decoded, words, and for every number the number that its own text is read as, which may be
none (`Json.tokensOf?`).  A number or a word ends only at what follows it, so the tokens of a text
are stated for every character that may follow (`Json.ScannedAs`); each part of a text has one lemma,
and a container is put together from those of its parts.
-/

namespace DocQuery.Json

/-! ## Texts and their tokens -/

/-- A character that no number and no word goes on with. -/
def endsPart (c : Char) : Bool := !Scan.isNumberChar c && !c.isAlpha

/-- A text is cut into tokens, or is none if there are none, whatever is read before it and goes on
behind it with a character that ends a number. -/
def ScannedAs (text : List Char) (tokens? : Option (List Token)) : Prop :=
  ∀ (before : List Token) (c : Char) (rest : List Char), endsPart c = true →
    (text ++ c :: rest).foldlM Scan.step ⟨before, .idle⟩ =
      tokens?.bind fun tokens => (c :: rest).foldlM Scan.step ⟨tokens.reverse ++ before, .idle⟩

namespace Scan

theorem foldlM_cons_of_step {scan next : Scan} {c : Char} (h : scan.step c = some next)
    (rest : List Char) : (c :: rest).foldlM step scan = rest.foldlM step next := by
  rw [List.foldlM_cons, h]
  rfl

/-- What ends a number or a word in progress is read as if nothing had been in progress. -/
theorem step_of_endsPart {tokens : List Token} {mode : Mode} {c : Char} (hc : endsPart c = true)
    (hmode : (∃ done, mode = .number done) ∨ ∃ done, mode = .word done) :
    step ⟨tokens, mode⟩ c = (finish? ⟨tokens, mode⟩).bind (step ⟨·, .idle⟩ c) := by
  simp only [endsPart, Bool.and_eq_true, Bool.not_eq_true'] at hc
  rcases hmode with ⟨done, rfl⟩ | ⟨done, rfl⟩
  · simp [step, hc.1]
  · simp [step, hc.2]

/-- A text that leaves a number or a word in progress. -/
theorem scannedAs_of_progress {text : List Char} (mode : Mode) (token? : Option Token)
    (hmode : (∃ done, mode = .number done) ∨ ∃ done, mode = .word done)
    (hrun : ∀ before, text.foldlM step ⟨before, .idle⟩ = some ⟨before, mode⟩)
    (hfinish : ∀ before, finish? ⟨before, mode⟩ = token?.map (· :: before)) :
    ScannedAs text (token?.map ([·])) := by
  intro before c rest hc
  rw [List.foldlM_append, hrun]
  simp only [Option.bind_eq_bind, Option.bind_some, List.foldlM_cons,
    step_of_endsPart hc hmode, hfinish]
  cases token? <;> rfl

end Scan

/-! ## Texts one behind the other -/

/-- A text is cut into tokens without a rest in progress. -/
def CompletedAs (text : List Char) (tokens : List Token) : Prop :=
  ∀ before, text.foldlM Scan.step ⟨before, .idle⟩ = some ⟨tokens.reverse ++ before, .idle⟩

/-- The tokens of two texts, if both have some. -/
def appended? (first second : Option (List Token)) : Option (List Token) :=
  first.bind fun tokens => second.map (tokens ++ ·)

section

variable {a b : List Char} {first second : Option (List Token)} {tokens : List Token}

theorem CompletedAs.append {more : List Token} (ha : CompletedAs a tokens)
    (hb : CompletedAs b more) : CompletedAs (a ++ b) (tokens ++ more) := by
  intro before
  rw [List.foldlM_append, ha before, Option.bind_eq_bind, Option.bind_some, hb,
    List.reverse_append, List.append_assoc]

theorem CompletedAs.appendScanned (ha : CompletedAs a tokens) (hb : ScannedAs b second) :
    ScannedAs (a ++ b) (appended? (some tokens) second) := by
  intro before c rest hc
  rw [List.append_assoc, List.foldlM_append, ha before, Option.bind_eq_bind, Option.bind_some,
    hb _ c rest hc, appended?, Option.bind_some, Option.bind_map]
  simp only [Function.comp_def, List.reverse_append, List.append_assoc]

theorem CompletedAs.scannedAs (ha : CompletedAs a tokens) : ScannedAs a (some tokens) := by
  intro before c rest _
  rw [List.foldlM_append, ha before]
  rfl

/-- The second text begins, if at all, with what ends a part in progress. -/
theorem ScannedAs.append (ha : ScannedAs a first) (hb : ScannedAs b second)
    (hhead : ∀ c ∈ b.head?, endsPart c = true) : ScannedAs (a ++ b) (appended? first second) := by
  intro before c rest hc
  obtain ⟨next, others, hnext, hends⟩ :
      ∃ next others, b ++ c :: rest = next :: others ∧ endsPart next = true := by
    cases b with
    | nil => exact ⟨c, rest, rfl, hc⟩
    | cons next b => exact ⟨next, b ++ c :: rest, rfl, hhead next rfl⟩
  rw [List.append_assoc, hnext, ha before next others hends, ← hnext, appended?, Option.bind_assoc]
  refine congrArg first.bind (funext fun tokens => ?_)
  rw [hb _ c rest hc, Option.bind_map]
  simp only [Function.comp_def, List.reverse_append, List.append_assoc]

end

/-! ## Words -/

theorem scannedAs_null : ScannedAs "null".toList (some [.scalar .null]) :=
  Scan.scannedAs_of_progress (.word "llun".toList) (some (.scalar .null)) (Or.inr ⟨_, rfl⟩)
    (fun _ => rfl) (fun _ => rfl)

theorem scannedAs_bool (b : Bool) : ScannedAs (write (.bool b)) (some [.scalar (.bool b)]) := by
  cases b
  · exact Scan.scannedAs_of_progress (.word "eslaf".toList) (some (.scalar (.bool false)))
      (Or.inr ⟨_, rfl⟩) (fun _ => rfl) (fun _ => rfl)
  · exact Scan.scannedAs_of_progress (.word "eurt".toList) (some (.scalar (.bool true)))
      (Or.inr ⟨_, rfl⟩) (fun _ => rfl) (fun _ => rfl)

/-! ## Numbers -/

open Scan (isNumberChar)

/-- A text that is cut off as one number, whatever number that is. -/
structure IsNumberText (text : List Char) : Prop where
  head : ∃ c rest, text = c :: rest ∧ (c.isDigit || c == '-') = true
  chars : ∀ c ∈ text, isNumberChar c = true

theorem isNumberChar_of_isDigit {c : Char} (h : c.isDigit = true) : isNumberChar c = true := by
  simp [isNumberChar, h]

namespace Scan

theorem start?_number {c : Char} (h : (c.isDigit || c == '-') = true) (before : List Token) :
    start? before c = some ⟨before, .number [c]⟩ := by
  have hne (d : Char) (hd : (d.isDigit || d == '-') = false) : c ≠ d := by
    rintro rfl
    rw [h] at hd
    cases hd
  unfold start?
  rw [if_neg, if_neg (hne _ rfl), if_neg (hne _ rfl), if_neg (hne _ rfl), if_neg (hne _ rfl),
    if_neg (hne _ rfl), if_neg (hne _ rfl), if_neg (hne _ rfl), if_pos h]
  rintro (rfl | rfl | rfl | rfl) <;> cases h

theorem foldlM_number {text : List Char} (h : ∀ c ∈ text, isNumberChar c = true)
    (before : List Token) (done : List Char) :
    text.foldlM step ⟨before, .number done⟩ = some ⟨before, .number (text.reverse ++ done)⟩ := by
  induction text generalizing done with
  | nil => rfl
  | cons c rest ih =>
    have hstep : step ⟨before, .number done⟩ c = some ⟨before, .number (c :: done)⟩ :=
      if_pos (h c List.mem_cons_self)
    rw [foldlM_cons_of_step hstep, ih fun d hd => h d (List.mem_cons_of_mem _ hd),
      List.reverse_cons, List.append_assoc]
    rfl

end Scan

theorem IsNumberText.scannedAs {text : List Char} (h : IsNumberText text) :
    ScannedAs text ((readNumber? text).map fun n => [.scalar (.number n)]) := by
  have hrun (before : List Token) :
      text.foldlM Scan.step ⟨before, .idle⟩ = some ⟨before, .number text.reverse⟩ := by
    obtain ⟨c, rest, rfl, hc⟩ := h.head
    have hstart : Scan.step ⟨before, .idle⟩ c = some ⟨before, .number [c]⟩ :=
      Scan.start?_number hc before
    rw [Scan.foldlM_cons_of_step hstart,
      Scan.foldlM_number fun d hd => h.chars d (List.mem_cons_of_mem _ hd), List.reverse_cons]
  have hfinish (before : List Token) : Scan.finish? ⟨before, .number text.reverse⟩ =
      ((readNumber? text).map fun n => .scalar (.number n)).map (· :: before) := by
    rw [Scan.finish?, List.reverse_reverse, Option.map_map]
    rfl
  have hscanned := Scan.scannedAs_of_progress _ _ (Or.inl ⟨text.reverse, rfl⟩) hrun hfinish
  rwa [Option.map_map] at hscanned

/-! ### The texts of numbers -/

theorem IsNumberText.of_isPositional {text whole fraction : List Char}
    (h : Decimal.IsPositional text whole fraction) : IsNumberText text where
  head := by
    obtain ⟨c, rest, htext, hc⟩ := h.exists_cons
    exact ⟨c, rest, htext, by rw [hc]; rfl⟩
  chars c hc := by
    rcases h.isDigit_or_eq c hc with hdigit | rfl
    · exact isNumberChar_of_isDigit hdigit
    · rfl

theorem IsNumberText.minus {text : List Char} (h : IsNumberText text) :
    IsNumberText ('-' :: text) where
  head := ⟨'-', text, rfl, rfl⟩
  chars := List.forall_mem_cons.mpr ⟨rfl, h.chars⟩

theorem isNumberText_writeScientific {ds : List Char} (hne : ds ≠ [])
    (hds : ∀ c ∈ ds, c.isDigit = true) (e : Int) :
    IsNumberText (NumberStyle.writeScientific ds e) := by
  have hend : ∀ c ∈ (if e < 0 then '-' else '+') :: Nat.toDigits 10 e.natAbs,
      isNumberChar c = true := by
    refine List.forall_mem_cons.mpr ⟨by split_ifs <;> rfl, fun c hc => ?_⟩
    exact isNumberChar_of_isDigit (Grammar.isDigit_of_mem_toDigits hc)
  have hdigits : ∀ c ∈ ds, isNumberChar c = true := fun c hc =>
    isNumberChar_of_isDigit (hds c hc)
  match ds, hne with
  | [d], _ =>
    refine ⟨⟨d, _, rfl, by rw [hds d List.mem_cons_self]; rfl⟩, ?_⟩
    exact List.forall_mem_cons.mpr ⟨hdigits d List.mem_cons_self,
      List.forall_mem_cons.mpr ⟨rfl, hend⟩⟩
  | d :: f :: fs, _ =>
    refine ⟨⟨d, _, rfl, by rw [hds d List.mem_cons_self]; rfl⟩, ?_⟩
    rw [List.forall_mem_cons] at hdigits
    exact List.forall_mem_cons.mpr ⟨hdigits.1, List.forall_mem_cons.mpr ⟨rfl,
      List.forall_mem_append.mpr ⟨hdigits.2, List.forall_mem_cons.mpr ⟨rfl, hend⟩⟩⟩⟩

theorem isNumberText_writeMagnitude (style : NumberStyle) (m : Magnitude) :
    IsNumberText (style.writeMagnitude m) := by
  unfold NumberStyle.writeMagnitude
  by_cases hm : m.units = 0
  · rw [if_pos hm]
    obtain ⟨whole, fraction, h, -⟩ := NumberStyle.isPositional_writePositional style.pointZero
      (List.cons_ne_nil '0' []) (by simp) 0
    exact .of_isPositional h
  · obtain ⟨hne, hds, -⟩ := NumberStyle.trimZeros_shortest style.tie hm
    rw [if_neg hm]
    dsimp only
    split_ifs
    · obtain ⟨whole, fraction, h, -⟩ := NumberStyle.isPositional_writePositional style.pointZero
        hne hds (NumberStyle.trimZeros (m.shortest style.tie)).2
      exact .of_isPositional h
    · exact isNumberText_writeScientific hne hds _

theorem isNumberText_toString (i : Int) : IsNumberText (toString i).toList := by
  have hdigits : IsNumberText (Nat.toDigits 10 i.natAbs) := by
    obtain ⟨c, rest, htext, hc⟩ := Grammar.exists_toDigits_cons i.natAbs
    refine ⟨⟨c, rest, htext, by rw [hc]; rfl⟩, fun d hd => ?_⟩
    exact isNumberChar_of_isDigit (Grammar.isDigit_of_mem_toDigits hd)
  rw [Grammar.toList_toString_int]
  split_ifs
  · exact hdigits
  · exact hdigits.minus

theorem isNumberText_write (n : JsonNumber) : IsNumberText n.write := by
  cases n with
  | integer i lower upper =>
    rw [JsonNumber.write]
    exact isNumberText_toString i
  | float negative m =>
    have hmagnitude := isNumberText_writeMagnitude .document m
    rw [JsonNumber.write, NumberStyle.write]
    split_ifs
    · exact hmagnitude.minus
    · exact hmagnitude

/-! ## Strings -/

theorem hexDigit?_hexDigit {n : Nat} (h : n < 16) : Text.hexDigit? (hexDigit n) = some n := by
  have hall : ∀ n < 16, Text.hexDigit? (hexDigit n) = some n := by decide
  exact hall n h

namespace Scan

/-- A control character stands as the digits of its code. -/
theorem foldlM_hexEscape (before : List Token) (done : List Char) {c : Char} (hc : c.toNat < 32) :
    ['\\', 'u', '0', '0', hexDigit (c.toNat / 16), hexDigit (c.toNat % 16)].foldlM step
      ⟨before, .string done⟩ = some ⟨before, .string (c :: done)⟩ := by
  have hsum : 16 * (c.toNat / 16) + c.toNat % 16 = c.toNat := by omega
  have hhigh := hexDigit?_hexDigit (show c.toNat / 16 < 16 by omega)
  have hlow := hexDigit?_hexDigit (show c.toNat % 16 < 16 by omega)
  have hunit : afterUnit? done none c.toNat = some (.string (c :: done)) := by
    unfold afterUnit?
    dsimp only
    rw [if_neg (by omega), if_neg (by omega), Char.ofNat_toNat]
  have hstart : step ⟨before, .string done⟩ '\\' = some ⟨before, .escape done⟩ := rfl
  have hletter : step ⟨before, .escape done⟩ 'u' = some ⟨before, .unicode done none 0 4⟩ := rfl
  have hzero : step ⟨before, .unicode done none 0 4⟩ '0' =
      some ⟨before, .unicode done none 0 3⟩ := rfl
  have hzero' : step ⟨before, .unicode done none 0 3⟩ '0' =
      some ⟨before, .unicode done none 0 2⟩ := rfl
  have hfirst : step ⟨before, .unicode done none 0 2⟩ (hexDigit (c.toNat / 16)) =
      some ⟨before, .unicode done none (c.toNat / 16) 1⟩ := by simp [step, hhigh]
  have hsecond : step ⟨before, .unicode done none (c.toNat / 16) 1⟩ (hexDigit (c.toNat % 16)) =
      some ⟨before, .string (c :: done)⟩ := by simp [step, hlow, hsum, hunit]
  rw [foldlM_cons_of_step hstart, foldlM_cons_of_step hletter, foldlM_cons_of_step hzero,
    foldlM_cons_of_step hzero', foldlM_cons_of_step hfirst, foldlM_cons_of_step hsecond]
  rfl

/-- **A written character is read as itself.** -/
theorem foldlM_escapeChar (before : List Token) (done : List Char) (c : Char) :
    (escapeChar c).foldlM step ⟨before, .string done⟩ = some ⟨before, .string (c :: done)⟩ := by
  unfold escapeChar
  split_ifs with hquote hslash hline hreturn htab hback hfeed hcontrol
  case pos => subst hquote; rfl
  case pos => subst hslash; rfl
  case pos => subst hline; rfl
  case pos => subst hreturn; rfl
  case pos => subst htab; rfl
  case pos =>
    rw [← Char.ofNat_toNat c, hback]
    rfl
  case pos =>
    rw [← Char.ofNat_toNat c, hfeed]
    rfl
  case pos => exact foldlM_hexEscape before done hcontrol
  case neg => simp [step, hquote, hslash, hcontrol]

theorem foldlM_flatMap_escapeChar (before : List Token) (done chars : List Char) :
    (chars.flatMap escapeChar).foldlM step ⟨before, .string done⟩ =
      some ⟨before, .string (chars.reverse ++ done)⟩ := by
  induction chars generalizing done with
  | nil => rfl
  | cons c rest ih =>
    rw [List.flatMap_cons, List.foldlM_append, foldlM_escapeChar, Option.bind_eq_bind,
      Option.bind_some, ih, List.reverse_cons, List.append_assoc]
    rfl

theorem foldlM_writeString (before : List Token) (s : String) :
    (writeString s).foldlM step ⟨before, .idle⟩ = some ⟨.string s :: before, .idle⟩ := by
  have hopen : step ⟨before, .idle⟩ '"' = some ⟨before, .string []⟩ := rfl
  have hclose : step ⟨before, .string s.toList.reverse⟩ '"' = some ⟨.string s :: before, .idle⟩ := by
    simp [step]
  rw [writeString, foldlM_cons_of_step hopen, List.foldlM_append, foldlM_flatMap_escapeChar,
    List.append_nil, Option.bind_eq_bind, Option.bind_some, foldlM_cons_of_step hclose]
  rfl

end Scan

theorem completedAs_writeString (s : String) : CompletedAs (writeString s) [.string s] :=
  fun before => Scan.foldlM_writeString before s

/-! ## Marks and blanks -/

theorem completedAs_openArray : CompletedAs ['['] [.openArray] := fun _ => rfl

theorem completedAs_closeArray : CompletedAs [']'] [.closeArray] := fun _ => rfl

theorem completedAs_openObject : CompletedAs ['\x7b'] [.openObject] := fun _ => rfl

theorem completedAs_closeObject : CompletedAs ['\x7d'] [.closeObject] := fun _ => rfl

theorem completedAs_comma : CompletedAs [','] [.comma] := fun _ => rfl

theorem completedAs_colon : CompletedAs [':', ' '] [.colon] := fun _ => rfl

theorem completedAs_newLine (depth : Nat) : CompletedAs (newLine depth) [] := by
  intro before
  have hblanks (n : Nat) : (List.replicate n ' ').foldlM Scan.step ⟨before, .idle⟩ =
      some ⟨before, .idle⟩ := by
    induction n with
    | zero => rfl
    | succ n ih => exact ih
  exact hblanks (2 * depth)

/-! ## Containers -/

mutual

/-- The tokens of the text of a document; none if a number in it is not read from its text. -/
def tokensOf? : Json → Option (List Token)
  | .null => some [.scalar .null]
  | .bool b => some [.scalar (.bool b)]
  | .number n => (readNumber? n.write).map fun m => [.scalar (.number m)]
  | .string s => some [.string s]
  | .array [] => some [.openArray, .closeArray]
  | .array (item :: items) =>
    appended? (some [.openArray])
      (appended? (tokensOf? item) (appended? (moreItemTokens? items) (some [.closeArray])))
  | .object [] => some [.openObject, .closeObject]
  | .object ((k, v) :: members) =>
    appended? (some [.openObject, .string k, .colon])
      (appended? (tokensOf? v) (appended? (moreMemberTokens? members) (some [.closeObject])))

/-- The tokens of items behind the first one of an array. -/
def moreItemTokens? : List Json → Option (List Token)
  | [] => some []
  | item :: rest =>
    appended? (some [.comma]) (appended? (tokensOf? item) (moreItemTokens? rest))

/-- The tokens of members behind the first one of an object. -/
def moreMemberTokens? : List (String × Json) → Option (List Token)
  | [] => some []
  | (k, v) :: rest =>
    appended? (some [.comma, .string k, .colon])
      (appended? (tokensOf? v) (moreMemberTokens? rest))

end

/-- The lines behind the first one of a container. -/
def moreLines (depth : Nat) (parts : List (List Char)) : List Char :=
  parts.flatMap fun part => ',' :: (newLine (depth + 1) ++ part)

theorem flatten_intersperse_cons (first : List Char) (rest : List (List Char)) :
    ((first :: rest).intersperse [',']).flatten = first ++ rest.flatMap (',' :: ·) := by
  induction rest generalizing first with
  | nil => simp
  | cons second rest ih =>
    rw [List.intersperse_cons_cons, List.flatten_cons, List.flatten_cons, ih]
    rfl

theorem spreadLines_cons (depth : Nat) (part : List Char) (parts : List (List Char)) :
    spreadLines depth (part :: parts) =
      newLine (depth + 1) ++ (part ++ (moreLines depth parts ++ newLine depth)) := by
  rw [spreadLines, List.map_cons, flatten_intersperse_cons, List.flatMap_map]
  simp only [List.append_assoc, moreLines]

/-- A line behind the first one begins with a comma. -/
theorem endsPart_of_mem_head_moreLines {depth : Nat} {parts : List (List Char)} {rest : List Char}
    (hrest : ∀ c ∈ rest.head?, endsPart c = true) :
    ∀ c ∈ (moreLines depth parts ++ rest).head?, endsPart c = true := by
  cases parts with
  | nil => exact hrest
  | cons part parts =>
    rintro c ⟨⟩
    rfl

/-- A container: what stands before its first value, that value, and the lines behind it. -/
theorem scannedAs_container {depth : Nat} {start close first : List Char} {opening : List Token}
    {closing : Token} {parts : List (List Char)} {head? more? : Option (List Token)}
    (hopen : CompletedAs start opening) (hclose : CompletedAs close [closing])
    (hfirst : ScannedAs first head?) (hmore : ScannedAs (moreLines depth parts) more?) :
    ScannedAs (start ++ (first ++ (moreLines depth parts ++ (newLine depth ++ close))))
      (appended? (some opening) (appended? head? (appended? more? (some [closing])))) := by
  have hend : ScannedAs (newLine depth ++ close) (some [closing]) :=
    ((completedAs_newLine depth).append hclose).scannedAs
  have hline : ∀ c ∈ (newLine depth ++ close).head?, endsPart c = true := by
    rintro c ⟨⟩
    rfl
  exact hopen.appendScanned
    (hfirst.append (hmore.append hend hline) (endsPart_of_mem_head_moreLines hline))

/-- A line behind the first one, and those behind it. -/
theorem scannedAs_moreLines_cons {depth : Nat} {start text : List Char} {opening : List Token}
    {parts : List (List Char)} {head? more? : Option (List Token)}
    (hopen : CompletedAs start opening) (htext : ScannedAs text head?)
    (hmore : ScannedAs (moreLines depth parts) more?) :
    ScannedAs (moreLines depth ((start ++ text) :: parts))
      (appended? (some (.comma :: opening)) (appended? head? more?)) := by
  have hhead : ∀ c ∈ (moreLines depth parts).head?, endsPart c = true := by
    rw [← List.append_nil (moreLines depth parts)]
    exact endsPart_of_mem_head_moreLines (by simp)
  have hstart := (completedAs_comma.append (completedAs_newLine (depth + 1))).append hopen
  have hline := hstart.appendScanned (htext.append hmore hhead)
  simpa [moreLines] using hline

theorem scannedAs_moreItems {items : List Json} (depth : Nat)
    (h : ∀ j ∈ items, ScannedAs (spread (depth + 1) j) (tokensOf? j)) :
    ScannedAs (moreLines depth (spreadItems (depth + 1) items)) (moreItemTokens? items) := by
  induction items with
  | nil => exact CompletedAs.scannedAs fun _ => rfl
  | cons item rest ih =>
    have hempty : CompletedAs [] [] := fun _ => rfl
    exact scannedAs_moreLines_cons hempty (h item List.mem_cons_self)
      (ih fun j hj => h j (List.mem_cons_of_mem _ hj))

theorem completedAs_key (k : String) :
    CompletedAs (writeString k ++ [':', ' ']) [.string k, .colon] :=
  (completedAs_writeString k).append completedAs_colon

theorem scannedAs_moreMembers {members : List (String × Json)} (depth : Nat)
    (h : ∀ m ∈ members, ScannedAs (spread (depth + 1) m.2) (tokensOf? m.2)) :
    ScannedAs (moreLines depth (spreadMembers (depth + 1) members))
      (moreMemberTokens? members) := by
  induction members with
  | nil => exact CompletedAs.scannedAs fun _ => rfl
  | cons m rest ih =>
    have hline := scannedAs_moreLines_cons (completedAs_key m.1) (h m List.mem_cons_self)
      (ih fun j hj => h j (List.mem_cons_of_mem _ hj))
    rwa [List.append_assoc] at hline

theorem spread_array_cons (depth : Nat) (item : Json) (items : List Json) :
    spread depth (.array (item :: items)) = (['['] ++ newLine (depth + 1)) ++
      (spread (depth + 1) item ++ (moreLines depth (spreadItems (depth + 1) items) ++
        (newLine depth ++ [']']))) := by
  simp [spread, spreadLines_cons]

theorem spread_object_cons (depth : Nat) (m : String × Json) (members : List (String × Json)) :
    spread depth (.object (m :: members)) =
      (['\x7b'] ++ newLine (depth + 1) ++ (writeString m.1 ++ [':', ' '])) ++
        (spread (depth + 1) m.2 ++ (moreLines depth (spreadMembers (depth + 1) members) ++
          (newLine depth ++ ['\x7d']))) := by
  simp [spread, spreadLines_cons]

/-- **The spread text of a document is cut into the tokens of the document**, at any depth. -/
theorem scannedAs_spread (j : Json) (depth : Nat) : ScannedAs (spread depth j) (tokensOf? j) := by
  induction j using Json.induction generalizing depth with
  | null => exact scannedAs_null
  | bool b => exact scannedAs_bool b
  | number n => exact (isNumberText_write n).scannedAs
  | string s => exact (completedAs_writeString s).scannedAs
  | array items ih =>
    cases items with
    | nil => exact CompletedAs.scannedAs fun _ => rfl
    | cons item items =>
      have hopen := completedAs_openArray.append (completedAs_newLine (depth + 1))
      rw [spread_array_cons]
      exact scannedAs_container hopen completedAs_closeArray (ih item List.mem_cons_self (depth + 1))
        (scannedAs_moreItems depth fun j hj => ih j (List.mem_cons_of_mem _ hj) (depth + 1))
  | object members ih =>
    cases members with
    | nil => exact CompletedAs.scannedAs fun _ => rfl
    | cons m members =>
      have hopen := (completedAs_openObject.append (completedAs_newLine (depth + 1))).append
        (completedAs_key m.1)
      rw [spread_object_cons]
      exact scannedAs_container hopen completedAs_closeObject (ih m List.mem_cons_self (depth + 1))
        (scannedAs_moreMembers depth fun j hj => ih j (List.mem_cons_of_mem _ hj) (depth + 1))

/-- The tokens of a written document with the line end behind it. -/
theorem tokens?_spread (j : Json) : tokens? (spread 0 j ++ ['\n']) = tokensOf? j := by
  rw [tokens?, scannedAs_spread j 0 [] '\n' [] rfl]
  cases tokensOf? j with
  | none => rfl
  | some tokens =>
    show some ((tokens.reverse ++ []).reverse) = some tokens
    rw [List.append_nil, List.reverse_reverse]

end DocQuery.Json
