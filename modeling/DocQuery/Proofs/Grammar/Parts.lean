import DocQuery.Proofs.Grammar.Words
import DocQuery.Value.Basic

/-!
# DocQuery.Proofs.Grammar.Parts — putting texts together

The text of a query is put together from words, symbols, quoted texts and groups in parentheses, with
single spaces, commas and connectives between them.  Whatever is put together so is a part again
(`Part`): trimmed, balanced, with its blanks as they must be, and clear of the marks and words that
none of its own parts shows.  And what was joined at a delimiter that the parts do not show is split
there again (`splitOn_commas`, `splitOn_connected`).
-/

namespace DocQuery.Grammar

open Text (Trimmed isBlank isWordChar eqIgnoreCase)

/-! ## Blanks -/

/-- The scanner outside of quotes. -/
structure Scanner.Outside (s : Scanner) : Prop where
  closing : s.closing = none
  escaped : s.escaped = false

/-- A text whose blanks are kept as they are: there is none at its ends, and never two in a row
outside of quotes. -/
structure Tidy (w : List Char) : Prop where
  outside : ∀ {s : Scanner}, s.Outside → (s.run w).Outside
  collapse_append : ∀ {s : Scanner} (started pending : Bool) (rest : List Char), s.Outside →
    collapse s started pending (w ++ rest) =
      ((if pending then ' ' :: w else w) ++ (collapse (s.run w) true false rest).1,
        (collapse (s.run w) true false rest).2)

namespace Tidy

variable {u v w : List Char}

theorem append (hu : Tidy u) (hv : Tidy v) : Tidy (u ++ v) where
  outside hs := by
    rw [Scanner.run_append]
    exact hv.outside (hu.outside hs)
  collapse_append started pending rest hs := by
    rw [List.append_assoc, hu.collapse_append _ _ _ hs, hv.collapse_append _ _ _ (hu.outside hs),
      Scanner.run_append]
    cases pending <;> simp

theorem spaced (hu : Tidy u) (hv : Tidy v) : Tidy (u ++ ' ' :: v) where
  outside {s} hs := by
    rw [Scanner.run_append, Scanner.run_cons, Scanner.step_blank (hu.outside hs).closing rfl]
    exact hv.outside (hu.outside hs)
  collapse_append {s} started pending rest hs := by
    have hclosing := (hu.outside hs).closing
    rw [List.append_assoc, hu.collapse_append _ _ _ hs, List.cons_append, collapse, hclosing]
    simp only [Option.isNone_none, Bool.true_and, show isBlank ' ' = true from rfl, if_true]
    rw [hv.collapse_append _ _ _ (hu.outside hs), Scanner.run_append, Scanner.run_cons,
      Scanner.step_blank hclosing rfl]
    cases pending <;> simp

/-- A character outside of quotes that is neither a blank nor opens a quote. -/
theorem char {c : Char} (hblank : isBlank c = false) (hcloser : Scanner.closer? c = none) :
    Tidy [c] where
  outside {s} hs := by
    obtain ⟨depth, closing, escaped, unbalanced⟩ := s
    obtain ⟨rfl, rfl⟩ := hs
    simp only [Scanner.run_cons, Scanner.run_nil, Scanner.step, hcloser]
    split_ifs <;> exact ⟨rfl, rfl⟩
  collapse_append {s} started pending rest hs := by
    rw [List.cons_append, List.nil_append, collapse, hblank, Bool.and_false]
    cases pending <;> rfl

theorem of_chars (hne : w ≠ [])
    (hw : ∀ c ∈ w, isBlank c = false ∧ Scanner.closer? c = none) : Tidy w := by
  induction w with
  | nil => exact absurd rfl hne
  | cons c w ih =>
    have hc := hw c List.mem_cons_self
    cases w with
    | nil => exact char hc.1 hc.2
    | cons d w =>
      exact (char hc.1 hc.2).append
        (ih (List.cons_ne_nil d w) fun e he => hw e (List.mem_cons_of_mem _ he))

theorem of_isWord (hw : IsWord w) : Tidy w :=
  of_chars hw.nonempty fun c hc =>
    ⟨isBlank_of_isWordChar (hw.all c hc), (neutral_of_isWordChar (hw.all c hc)).2.2⟩

theorem group (hw : w = [] ∨ Tidy w) : Tidy ('(' :: (w ++ [')'])) := by
  have hopen : Tidy ['('] := char rfl rfl
  have hclose : Tidy [')'] := char rfl rfl
  rcases hw with rfl | hw
  · exact hopen.append hclose
  · exact hopen.append (hw.append hclose)

/-- **A tidy and balanced text is normal.** -/
theorem normalize_eq (hw : Tidy w) (hbalanced : Balanced w) : normalize w = .ok w := by
  have hcollapse := hw.collapse_append (s := {}) false false [] ⟨rfl, rfl⟩
  rw [List.append_nil, hbalanced] at hcollapse
  rw [normalize, hcollapse]
  simp [collapse]

end Tidy

/-! ## Quotes -/

/-- The text between the quotes of a literal. -/
def quotedBody (s : List Char) : List Char := Text.replaceChar '\'' ['\\', '\''] s

/-- A text in quotes. -/
def quoted (s : List Char) : List Char := '\'' :: (quotedBody s ++ ['\''])

theorem toList_quoted (s : String) : (Value.quoted s).toList = quoted s.toList := by
  rw [Value.quoted, String.toList_ofList]
  rfl

theorem quotedBody_cons (c : Char) (s : List Char) :
    quotedBody (c :: s) = (if c = '\'' then ['\\', '\''] else [c]) ++ quotedBody s := rfl

section Quotes

variable {s : List Char} {scanner : Scanner}

/-- The scanner in single quotes. -/
structure Scanner.Quoted (s : Scanner) : Prop where
  closing : s.closing = some '\''
  escaped : s.escaped = false

theorem Scanner.Quoted.step (h : scanner.Quoted) {c : Char} (hquote : c ≠ '\'') (hslash : c ≠ '\\') :
    scanner.step c = scanner := by
  obtain ⟨depth, closing, escaped, unbalanced⟩ := scanner
  obtain ⟨rfl, rfl⟩ := h
  simp [Scanner.step, hquote, hslash]

theorem Scanner.Quoted.step_escaped (h : scanner.Quoted) :
    (scanner.step '\\').step '\'' = scanner := by
  obtain ⟨depth, closing, escaped, unbalanced⟩ := scanner
  obtain ⟨rfl, rfl⟩ := h
  rfl

theorem Scanner.Quoted.run_body (h : scanner.Quoted) (hs : '\\' ∉ s) :
    scanner.run (quotedBody s) = scanner := by
  induction s with
  | nil => rfl
  | cons c s ih =>
    have hs' : '\\' ∉ s := fun hmem => hs (List.mem_cons_of_mem _ hmem)
    rw [quotedBody_cons, Scanner.run_append]
    split_ifs with hc
    · show ((scanner.step '\\').step '\'').run _ = _
      rw [h.step_escaped]
      exact ih hs'
    · have hslash : c ≠ '\\' := by
        rintro rfl
        exact hs List.mem_cons_self
      show (scanner.step c).run _ = _
      rw [h.step hc hslash]
      exact ih hs'

theorem topAll_quotedBody {P : Option Char → List Char → Prop} {before : Option Char}
    (h : scanner.Quoted) (hs : '\\' ∉ s) : TopAll P scanner before (quotedBody s) := by
  have hlow (t : Scanner) (ht : t.closing ≠ none) : ¬ t.isTopLevel = true := by
    rw [Scanner.isTopLevel, Bool.and_eq_true, Option.isNone_iff_eq_none]
    exact fun htop => ht htop.2
  have hquoted : scanner.closing ≠ none := by simp [h.closing]
  induction s generalizing before with
  | nil => trivial
  | cons c s ih =>
    have hs' : '\\' ∉ s := fun hmem => hs (List.mem_cons_of_mem _ hmem)
    rw [quotedBody_cons, TopAll.append_iff]
    split_ifs with hc
    · refine ⟨⟨fun htop => absurd htop (hlow _ hquoted), fun htop => absurd htop (hlow _ ?_), trivial⟩,
        ?_⟩
      · obtain ⟨depth, closing, escaped, unbalanced⟩ := scanner
        obtain ⟨rfl, rfl⟩ := h
        exact Option.some_ne_none _
      · show TopAll P ((scanner.step '\\').step '\'') _ _
        rw [h.step_escaped]
        exact ih hs'
    · have hslash : c ≠ '\\' := by
        rintro rfl
        exact hs List.mem_cons_self
      refine ⟨⟨fun htop => absurd htop (hlow _ hquoted), trivial⟩, ?_⟩
      show TopAll P (scanner.step c) _ _
      rw [h.step hc hslash]
      exact ih hs'

theorem collapse_quotedBody (h : scanner.Quoted) (hs : '\\' ∉ s) (rest : List Char) :
    collapse scanner true false (quotedBody s ++ rest) =
      (quotedBody s ++ (collapse scanner true false rest).1, (collapse scanner true false rest).2) := by
  induction s with
  | nil => rfl
  | cons c s ih =>
    have hs' : '\\' ∉ s := fun hmem => hs (List.mem_cons_of_mem _ hmem)
    have hkept (t : Scanner) (ht : t.closing = some '\'') (a : Char) (more : List Char) :
        collapse t true false (a :: more) = (a :: (collapse (t.step a) true false more).1,
          (collapse (t.step a) true false more).2) := by
      rw [collapse, ht]
      rfl
    rw [quotedBody_cons]
    split_ifs with hc
    · have hescaped : (scanner.step '\\').closing = some '\'' := by
        obtain ⟨depth, closing, escaped, unbalanced⟩ := scanner
        obtain ⟨rfl, rfl⟩ := h
        rfl
      rw [List.append_assoc, List.cons_append, hkept _ h.closing, List.cons_append,
        hkept _ hescaped, h.step_escaped, List.nil_append, ih hs']
      rfl
    · have hslash : c ≠ '\\' := by
        rintro rfl
        exact hs List.mem_cons_self
      rw [List.append_assoc, List.cons_append, hkept _ h.closing, h.step hc hslash,
        List.nil_append, ih hs']
      rfl

/-- The opening quote. -/
theorem Scanner.Outside.step_quote (h : scanner.Outside) : (scanner.step '\'').Quoted := by
  obtain ⟨depth, closing, escaped, unbalanced⟩ := scanner
  obtain ⟨rfl, rfl⟩ := h
  exact ⟨rfl, rfl⟩

theorem Scanner.Outside.step_quotes (h : scanner.Outside) :
    (scanner.step '\'').step '\'' = scanner := by
  obtain ⟨depth, closing, escaped, unbalanced⟩ := scanner
  obtain ⟨rfl, rfl⟩ := h
  rfl

theorem Scanner.Outside.run_quoted (h : scanner.Outside) (hs : '\\' ∉ s) :
    scanner.run (quoted s) = scanner := by
  show (scanner.step '\'').run (quotedBody s ++ ['\'']) = scanner
  rw [Scanner.run_append, h.step_quote.run_body hs]
  exact h.step_quotes

theorem balanced_quoted (hs : '\\' ∉ s) : Balanced (quoted s) :=
  Scanner.Outside.run_quoted ⟨rfl, rfl⟩ hs

theorem tidy_quoted (hs : '\\' ∉ s) : Tidy (quoted s) where
  outside h := by
    rw [h.run_quoted hs]
    exact h
  collapse_append {scanner} started pending rest h := by
    have hquoted := h.step_quote
    have hend : collapse (scanner.step '\'') true false ('\'' :: rest) =
        ('\'' :: (collapse scanner true false rest).1, (collapse scanner true false rest).2) := by
      rw [collapse, hquoted.closing, h.step_quotes]
      rfl
    rw [h.run_quoted hs]
    show collapse scanner started pending ('\'' :: ((quotedBody s ++ ['\'']) ++ rest)) = _
    rw [collapse, show isBlank '\'' = false from rfl, Bool.and_false, List.append_assoc,
      collapse_quotedBody hquoted hs, List.cons_append, List.nil_append, hend]
    cases pending <;> simp [quoted]

theorem clear_quoted {marks : List Char} {words : List (List Char)} (hs : '\\' ∉ s)
    (hmark : '\'' ∉ marks) (hwords : [] ∉ words) : Clear marks words (quoted s) := by
  refine ⟨fun _ => harmless_of_not_wordChar rfl hmark hwords, ?_⟩
  have hquoted : (Scanner.step {} '\'').Quoted := ⟨rfl, rfl⟩
  refine TopAll.append_iff.mpr ⟨topAll_quotedBody hquoted hs, ?_⟩
  rw [hquoted.run_body hs]
  exact ⟨fun htop => absurd htop (by decide), trivial⟩

end Quotes

/-! ## Parts -/

/-- A text that other texts are put together from, which shows none of some marks and words. -/
structure Part (marks : List Char) (words : List (List Char)) (w : List Char) : Prop where
  trimmed : Trimmed w
  balanced : Balanced w
  tidy : Tidy w
  clear : Clear marks words w

theorem trimmed_append {u v : List Char} (middle : List Char) (hu : Trimmed u) (hv : Trimmed v) :
    Trimmed (u ++ (middle ++ v)) where
  nonempty h := hu.nonempty (List.append_eq_nil_iff.mp h).1
  first := by
    obtain ⟨c, u, rfl⟩ := List.exists_cons_of_ne_nil hu.nonempty
    exact hu.first
  last := by
    intro c hc
    rw [List.getLast?_append_of_ne_nil _ (by simp [hv.nonempty]),
      List.getLast?_append_of_ne_nil _ hv.nonempty] at hc
    exact hv.last c hc

theorem trimmed_of_chars {w : List Char} (hne : w ≠ []) (hw : ∀ c ∈ w, isBlank c = false) :
    Trimmed w where
  nonempty := hne
  first := fun c hc => hw c (List.mem_of_mem_head? hc)
  last := fun c hc => hw c (List.mem_of_getLast? hc)

theorem balanced_of_neutral {w : List Char} (hw : ∀ c ∈ w, Neutral c) : Balanced w := by
  induction w with
  | nil => rfl
  | cons c w ih =>
    show (Scanner.step {} c).run w = {}
    rw [(hw c List.mem_cons_self).step rfl]
    exact ih fun d hd => hw d (List.mem_cons_of_mem _ hd)

namespace Part

variable {marks marks' : List Char} {words words' : List (List Char)} {u v w : List Char}

theorem mono (h : Part marks words w) (hmarks : marks' ⊆ marks) (hwords : words' ⊆ words) :
    Part marks' words' w :=
  ⟨h.trimmed, h.balanced, h.tidy, h.clear.mono hmarks hwords⟩

theorem of_isWord (hw : IsWord w) (hmarks : ∀ m ∈ marks, isWordChar m = false)
    (hwords : ∀ k ∈ words, eqIgnoreCase w k = false) : Part marks words w where
  trimmed := trimmed_of_chars hw.nonempty fun c hc => isBlank_of_isWordChar (hw.all c hc)
  balanced := balanced_of_neutral fun c hc => neutral_of_isWordChar (hw.all c hc)
  tidy := Tidy.of_isWord hw
  clear := clear_of_isWord hw hmarks hwords

/-- Characters that are no blanks, belong to no words and mean nothing to the scanner. -/
theorem of_symbols (hne : w ≠ []) (hwords : [] ∉ words)
    (hw : ∀ c ∈ w, Neutral c ∧ isWordChar c = false ∧ isBlank c = false ∧ c ∉ marks) :
    Part marks words w where
  trimmed := trimmed_of_chars hne fun c hc => (hw c hc).2.2.1
  balanced := balanced_of_neutral fun c hc => (hw c hc).1
  tidy := Tidy.of_chars hne fun c hc => ⟨(hw c hc).2.2.1, (hw c hc).1.2.2⟩
  clear := by
    clear hne
    induction w with
    | nil => exact clear_nil
    | cons c w ih =>
      have hc := hw c List.mem_cons_self
      exact (ih fun d hd => hw d (List.mem_cons_of_mem _ hd)).cons hc.1 hc.2.1 hc.2.2.2 hwords

theorem of_quoted (hw : '\\' ∉ w) (hmark : '\'' ∉ marks) (hwords : [] ∉ words) :
    Part marks words (quoted w) where
  trimmed :=
    { nonempty := List.cons_ne_nil _ _
      first := by simp [quoted, isBlank]
      last := by simp [quoted, List.getLast?_cons, isBlank] }
  balanced := balanced_quoted hw
  tidy := tidy_quoted hw
  clear := clear_quoted hw hmark hwords

theorem of_group (hbalanced : Balanced w) (htidy : w = [] ∨ Tidy w) (hmark : '(' ∉ marks)
    (hwords : [] ∉ words) : Part marks words (enclosed w) where
  trimmed := trimmed_group w
  balanced := hbalanced.group
  tidy := Tidy.group htidy
  clear := clear_group hbalanced hmark hwords

theorem group (hw : Part marks' words' w) (hmark : '(' ∉ marks) (hwords : [] ∉ words) :
    Part marks words (enclosed w) :=
  of_group hw.balanced (Or.inr hw.tidy) hmark hwords

/-- Two parts of which the second does not go on with a word. -/
theorem append (hu : Part marks words u) (hv : Part marks words v)
    (hhead : touchesWord v.head? = false) : Part marks words (u ++ v) where
  trimmed := by
    have h := trimmed_append [] hu.trimmed hv.trimmed
    rwa [List.nil_append] at h
  balanced := hu.balanced.append hv.balanced
  tidy := hu.tidy.append hv.tidy
  clear := hu.clear.append hu.balanced hv.clear hhead

/-- Two parts with a space between them. -/
theorem spaced (hu : Part marks words u) (hv : Part marks words v) (hmark : ' ' ∉ marks)
    (hwords : [] ∉ words) : Part marks words (u ++ ' ' :: v) where
  trimmed := trimmed_append [' '] hu.trimmed hv.trimmed
  balanced := hu.balanced.append (by
    show (Scanner.step {} ' ').run v = {}
    exact hv.balanced)
  tidy := hu.tidy.spaced hv.tidy
  clear := hu.clear.append hu.balanced
    (hv.clear.cons (by decide) rfl hmark hwords) rfl

/-- A comma after a part. -/
theorem comma (hu : Part marks words u) (hmark : ',' ∉ marks) (hwords : [] ∉ words) :
    Part marks words (u ++ [',']) :=
  hu.append (of_symbols (List.cons_ne_nil _ _) hwords (by
    intro c hc
    obtain rfl := List.mem_singleton.mp hc
    exact ⟨by decide, rfl, rfl, hmark⟩)) rfl

/-- Parts with a comma and a space between neighbours. -/
theorem commas {parts : List (List Char)} (hne : parts ≠ [])
    (hparts : ∀ w ∈ parts, Part marks words w) (hcomma : ',' ∉ marks) (hmark : ' ' ∉ marks)
    (hwords : [] ∉ words) : Part marks words ([',', ' '].intercalate parts) := by
  induction parts with
  | nil => exact absurd rfl hne
  | cons w parts ih =>
    have hw := hparts w List.mem_cons_self
    cases parts with
    | nil => simpa using hw
    | cons v parts =>
      have hrest := ih (List.cons_ne_nil v parts) fun u hu => hparts u (List.mem_cons_of_mem _ hu)
      have h := (hw.comma hcomma hwords).spaced hrest hmark hwords
      simpa [List.intercalate_cons_cons] using h

/-- Parts with a word between spaces between neighbours. -/
theorem connected {word : List Char} {parts : List (List Char)} (hne : parts ≠ [])
    (hparts : ∀ w ∈ parts, Part marks words w) (hword : Part marks words word) (hmark : ' ' ∉ marks)
    (hwords : [] ∉ words) : Part marks words ((' ' :: (word ++ [' '])).intercalate parts) := by
  induction parts with
  | nil => exact absurd rfl hne
  | cons w parts ih =>
    have hw := hparts w List.mem_cons_self
    cases parts with
    | nil => simpa using hw
    | cons v parts =>
      have hrest := ih (List.cons_ne_nil v parts) fun u hu => hparts u (List.mem_cons_of_mem _ hu)
      have h := hw.spaced (hword.spaced hrest hmark hwords) hmark hwords
      simpa [List.intercalate_cons_cons] using h

end Part

/-! ## Splitting what was joined -/

section Joined

variable {test : Option Char → List Char → Option (List Char)} {before : Option Char}
  {d rest : List Char}

theorem Scanner.closing_of_isTopLevel {s : Scanner} (h : s.isTopLevel = true) : s.closing = none := by
  rw [Scanner.isTopLevel, Bool.and_eq_true, Option.isNone_iff_eq_none] at h
  exact h.2

/-- The characters of a delimiter are walked over. -/
theorem splitTop_skip {s : Scanner} (hs : s.closing = none) (hneutral : ∀ c ∈ d, Neutral c) :
    splitTop test s d.length before (d ++ rest) = splitTop test s 0 (lastOr before d) rest := by
  induction d generalizing before with
  | nil => rfl
  | cons c d ih =>
    have hstep : s.step c = s := (hneutral c List.mem_cons_self).step hs
    rw [List.cons_append, List.length_cons, splitTop, hstep, lastOr_cons]
    exact ih fun a ha => hneutral a (List.mem_cons_of_mem _ ha)

/-- A text is split at a delimiter at its start. -/
theorem splitTop_delimiter {s : Scanner} (hs : s.isTopLevel = true) (hne : d ≠ [])
    (hneutral : ∀ c ∈ d, Neutral c) (htest : test before (d ++ rest) = some rest) :
    splitTop test s 0 before (d ++ rest) = [] :: splitTop test s 0 (lastOr before d) rest := by
  obtain ⟨c, d, rfl⟩ := List.exists_cons_of_ne_nil hne
  have hclosing := Scanner.closing_of_isTopLevel hs
  have hstep : s.step c = s := (hneutral c List.mem_cons_self).step hclosing
  have hneutral' : ∀ a ∈ d, Neutral a := fun a ha => hneutral a (List.mem_cons_of_mem _ ha)
  have hlength : (d ++ rest).length - rest.length = d.length := by simp
  rw [List.cons_append] at htest ⊢
  rw [splitTop]
  simp only [hs, if_true, htest]
  rw [hlength, hstep, splitTop_skip hclosing hneutral', lastOr_cons]

/-- A text that shows no delimiter, whatever delimiter follows it. -/
structure Unsplit (d w : List Char) : Prop where
  balanced : Balanced w
  alone : ∀ before, TopAll (fun _ t => afterPattern? d t = none) {} before w
  delimited : ∀ before rest, TopAll (fun _ t => afterPattern? d (t ++ (d ++ rest)) = none) {} before w

/-- **What was joined at a delimiter is split there**, if no part shows it. -/
theorem splitTop_intercalate {parts : List (List Char)} (hne : d ≠ [])
    (hneutral : ∀ c ∈ d, Neutral c) (hparts : parts ≠ []) (h : ∀ w ∈ parts, Unsplit d w) :
    splitTop (fun _ t => afterPattern? d t) {} 0 before (d.intercalate parts) = parts := by
  induction parts generalizing before with
  | nil => exact absurd rfl hparts
  | cons w parts ih =>
    have hw := h w List.mem_cons_self
    cases parts with
    | nil =>
      rw [List.intercalate_singleton]
      exact splitTop_eq_singleton (hw.alone before)
    | cons v parts =>
      have hrest (b : Option Char) :
          splitTop (fun _ t => afterPattern? d t) {} 0 b (d.intercalate (v :: parts)) = v :: parts :=
        ih (List.cons_ne_nil v parts) fun u hu => h u (List.mem_cons_of_mem _ hu)
      rw [List.intercalate_cons_cons, List.append_assoc,
        splitTop_append (hw.delimited before _), hw.balanced,
        splitTop_delimiter rfl hne hneutral (afterPattern?_append d _), hrest, appendFirst,
        List.append_nil]

theorem filter_trimmed {parts : List (List Char)} (h : ∀ w ∈ parts, Trimmed w) :
    parts.filter (· ≠ []) = parts :=
  List.filter_eq_self.mpr fun w hw => by simpa using (h w hw).nonempty

/-- Parts joined by a delimiter are found again. -/
theorem splitOn_intercalate {parts : List (List Char)} (hne : d ≠ [])
    (hneutral : ∀ c ∈ d, Neutral c) (h : ∀ w ∈ parts, Unsplit d w) :
    splitOn d (d.intercalate parts) = (parts.map Text.trim).filter (· ≠ []) := by
  cases parts with
  | nil =>
    have htrim : Text.trim [] = [] := rfl
    simp [splitOn, splitTop, htrim]
  | cons w parts =>
    exact splitOn_of_splitTop (splitTop_intercalate hne hneutral (List.cons_ne_nil w parts) h)

theorem map_trim_eq {parts : List (List Char)} (h : ∀ w ∈ parts, Trimmed w) :
    parts.map Text.trim = parts :=
  (List.map_congr_left fun w hw => (h w hw).trim_eq).trans (List.map_id parts)

variable {marks : List Char} {words : List (List Char)} {parts : List (List Char)} {w : List Char}

/-! ### Commas -/

/-- A text that closes what it opens and shows no comma is not split at commas. -/
theorem unsplit_comma (hbalanced : Balanced w) (hclear : Clear marks words w) (hmark : ',' ∈ marks) :
    Unsplit [','] w where
  balanced := hbalanced
  alone before := by
    have h := hclear.afterMark?_eq_none (p := []) hmark rfl rfl before []
    simpa only [List.append_nil] using h
  delimited before rest := hclear.afterMark?_eq_none hmark rfl rfl before _

/-- A space in front changes nothing. -/
theorem Unsplit.padded (hw : Unsplit [','] w) : Unsplit [','] (' ' :: w) where
  balanced := hw.balanced
  alone _ := ⟨fun _ => rfl, hw.alone _⟩
  delimited _ rest := ⟨fun _ => rfl, hw.delimited _ rest⟩

/-- The space after a comma is the first character of the part that follows. -/
theorem intercalate_commas (w : List Char) (parts : List (List Char)) :
    [',', ' '].intercalate (w :: parts) = [','].intercalate (w :: parts.map (' ' :: ·)) := by
  induction parts generalizing w with
  | nil => rfl
  | cons v parts ih =>
    rw [List.map_cons, List.intercalate_cons_cons, List.intercalate_cons_cons, ih v]
    cases parts <;> simp [List.intercalate_cons_cons]

/-- **Trimmed texts that are not split at commas are found again between commas.** -/
theorem splitOn_comma_intercalate (htrimmed : ∀ w ∈ parts, Trimmed w)
    (h : ∀ w ∈ parts, Unsplit [','] w) : splitOn [','] ([',', ' '].intercalate parts) = parts := by
  cases parts with
  | nil => rfl
  | cons w parts =>
    obtain ⟨hw, hparts⟩ := List.forall_mem_cons.mp h
    have hneutral : ∀ c ∈ [','], Neutral c := by decide
    have hpadded : ∀ v ∈ w :: parts.map (' ' :: ·), Unsplit [','] v := by
      refine List.forall_mem_cons.mpr ⟨hw, fun v hv => ?_⟩
      obtain ⟨u, hu, rfl⟩ := List.mem_map.mp hv
      exact (hparts u hu).padded
    obtain ⟨hfirst, hrest⟩ := List.forall_mem_cons.mp htrimmed
    have htrim : (parts.map (' ' :: ·)).map Text.trim = parts := by
      have hblank : ∀ c ∈ [' '], isBlank c = true := by simp [isBlank]
      rw [List.map_map]
      exact (List.map_congr_left fun v _ => Text.trim_blanks_append hblank).trans (map_trim_eq hrest)
    rw [intercalate_commas, splitOn_intercalate (List.cons_ne_nil _ _) hneutral hpadded, List.map_cons,
      htrim, hfirst.trim_eq]
    exact filter_trimmed htrimmed

/-- **Parts that show no comma are found again between commas.** -/
theorem splitOn_commas (h : ∀ w ∈ parts, Part marks words w) (hmark : ',' ∈ marks) :
    splitOn [','] ([',', ' '].intercalate parts) = parts :=
  splitOn_comma_intercalate (fun w hw => (h w hw).trimmed) fun w hw =>
    unsplit_comma (h w hw).balanced (h w hw).clear hmark

/-! ### Connectives -/

/-- A trimmed text that closes what it opens and does not show a word is not split at the word between
spaces. -/
theorem unsplit_connective {word : List Char} (hword : IsWord word) (htrimmed : Trimmed w)
    (hbalanced : Balanced w) (hclear : Clear marks words w) (hmem : word ∈ words) :
    Unsplit (' ' :: (word ++ [' '])) w := by
  have hleading : leadingWord (word ++ [' ']) = word :=
    (leadingWord_append rfl).trans hword.leadingWord_eq
  have hblank : ' ' ∈ word ++ [' '] := by simp
  have hlast : w.getLast? ≠ some ' ' := fun hlast => by
    have hfalse := htrimmed.last ' ' hlast
    cases hfalse
  have hnone (before : Option Char) (rest : List Char) (hrest : touchesWord rest.head? = false) :=
    hclear.afterSpaced?_eq_none hblank (by rwa [hleading]) hlast before rest hrest
  exact
    { balanced := hbalanced
      alone := fun before => by
        have h := hnone before [] rfl
        simpa only [List.append_nil] using h
      delimited := fun before rest => hnone before _ rfl }

theorem neutral_of_mem_connective {word : List Char} (hword : IsWord word) :
    ∀ c ∈ ' ' :: (word ++ [' ']), Neutral c := by
  intro c hc
  have hc : c = ' ' ∨ c ∈ word := by
    simpa [or_comm] using hc
  rcases hc with rfl | hc
  · decide
  · exact neutral_of_isWordChar (hword.all c hc)

/-- **Trimmed texts that are not split at a word between spaces are found again between its
occurrences.** -/
theorem splitOn_connective_intercalate {word : List Char} (hword : IsWord word)
    (htrimmed : ∀ w ∈ parts, Trimmed w) (h : ∀ w ∈ parts, Unsplit (' ' :: (word ++ [' '])) w) :
    splitOn (' ' :: (word ++ [' '])) ((' ' :: (word ++ [' '])).intercalate parts) = parts := by
  rw [splitOn_intercalate (List.cons_ne_nil _ _) (neutral_of_mem_connective hword) h,
    map_trim_eq htrimmed, filter_trimmed htrimmed]

/-- **Parts that do not show a word are found again between its occurrences.** -/
theorem splitOn_connected {word : List Char} (hword : IsWord word)
    (h : ∀ w ∈ parts, Part marks words w) (hmem : word ∈ words) :
    splitOn (' ' :: (word ++ [' '])) ((' ' :: (word ++ [' '])).intercalate parts) = parts :=
  splitOn_connective_intercalate hword (fun w hw => (h w hw).trimmed) fun w hw =>
    unsplit_connective hword (h w hw).trimmed (h w hw).balanced (h w hw).clear hmem

/-- A part alone is not split. -/
theorem splitOn_connected_part {word : List Char} (hword : IsWord word) (hw : Part marks words w)
    (hmem : word ∈ words) : splitOn (' ' :: (word ++ [' '])) w = [w] := by
  have h := splitOn_connected hword (List.forall_mem_singleton.mpr hw) hmem
  rwa [List.intercalate_singleton] at h

end Joined

end DocQuery.Grammar
