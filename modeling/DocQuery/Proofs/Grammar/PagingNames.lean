import DocQuery.Proofs.Grammar.LiteralTexts
import DocQuery.Proofs.Grammar.Joins
import DocQuery.Proofs.Grammar.Paging
import DocQuery.Proofs.Query.Queries

/-!
# DocQuery.Proofs.Grammar.PagingNames — what can take a phrase of paging

A phrase at top level is in no parentheses, so neither a group nor a function call is the whole text; it
makes a text no literal and no count.  All that is left is a name: an alias in quotes, a column, the path
into a document.  Then the item that the name means has the phrase in its text, or a from item has it in
its label (`holds_of_resolveReference`).
-/

namespace DocQuery

/-- A from item and the sides of joins within it. -/
def FromItem.parts : FromItem → List FromItem
  | .join kind l r conditions aliasName => .join kind l r conditions aliasName :: (parts l ++ parts r)
  | f => [f]

theorem FromItem.mem_parts_self (f : FromItem) : f ∈ f.parts := by
  cases f <;> exact List.mem_cons_self

theorem FromItem.leaves_subset_parts (f : FromItem) : f.leaves ⊆ f.parts := by
  cases f with
  | join _ l r _ _ =>
    intro leaf hleaf
    rcases List.mem_append.mp hleaf with hmem | hmem
    · exact List.mem_cons_of_mem _ (List.mem_append_left _ (leaves_subset_parts l hmem))
    · exact List.mem_cons_of_mem _ (List.mem_append_right _ (leaves_subset_parts r hmem))
  | _ => exact List.Subset.refl _

namespace Grammar

open Text (isBlank isWordChar)

/-! ## Texts that a phrase excludes -/

/-- What is no blank stays when a text is trimmed. -/
theorem mem_trim {w : List Char} {c : Char} (hc : c ∈ w) (hblank : isBlank c = false) :
    c ∈ Text.trim w := by
  obtain ⟨u, v, hw, hu, hv⟩ := Text.exists_eq_trim w
  rw [hw, List.mem_append, List.mem_append] at hc
  rcases hc with hmem | hmem | hmem
  · rw [hu c hmem] at hblank
    cases hblank
  · exact hmem
  · rw [hv c hmem] at hblank
    cases hblank

section Numbers

variable {s : List Char}

theorem readNat?_eq_none {c : Char} (hc : c ∈ s) (hdigit : c.isDigit = false) :
    Decimal.readNat? s = none := by
  unfold Decimal.readNat?
  rw [if_neg]
  intro h
  rw [List.all_eq_true.mp h.2 c hc] at hdigit
  cases hdigit

theorem mem_spanSign {c : Char} (hc : c ∈ s) (hminus : c ≠ '-') (hplus : c ≠ '+') :
    c ∈ (Decimal.spanSign s).2 := by
  unfold Decimal.spanSign
  split <;> simpa [hminus, hplus] using hc

theorem mem_spanDigits {c : Char} (hc : c ∈ s) (hdigit : c.isDigit = false) :
    c ∈ (Decimal.spanDigits s).2 := by
  rw [Decimal.spanDigits, List.span_eq_takeWhile_dropWhile]
  rw [← List.takeWhile_append_dropWhile (p := Char.isDigit) (l := s), List.mem_append] at hc
  refine hc.resolve_left fun hmem => ?_
  rw [List.mem_takeWhile_imp hmem] at hdigit
  cases hdigit

theorem readExponent?_eq_none (h : ' ' ∈ s) : Decimal.readExponent? s = none := by
  cases s with
  | nil => cases h
  | cons c s =>
    rw [Decimal.readExponent?]
    split_ifs with hmark
    · have hmem : ' ' ∈ s := (List.mem_cons.mp h).resolve_left (by rintro rfl; simp at hmark)
      dsimp only
      rw [readNat?_eq_none (mem_spanSign hmem (by decide) (by decide)) rfl]
      rfl
    · rfl

theorem readUnsigned?_eq_none (h : ' ' ∈ s) (negative : Bool) :
    Decimal.readUnsigned? negative s = none := by
  have hrest := mem_spanDigits h rfl
  unfold Decimal.readUnsigned?
  dsimp only
  split_ifs
  · rfl
  · rw [Option.map_eq_none_iff]
    apply readExponent?_eq_none
    split
    next r heq =>
      rw [heq] at hrest
      exact mem_spanDigits ((List.mem_cons.mp hrest).resolve_left (by decide)) rfl
    next => exact hrest

/-- A number is written without blanks. -/
theorem read?_eq_none (h : ' ' ∈ Text.trim s) : Number.read? s = none := by
  unfold Number.read?
  dsimp only
  generalize Text.trim s = s at h
  have hbody := mem_spanSign h (by decide) (by decide)
  have hint : Decimal.readInt64? s = none := by
    unfold Decimal.readInt64?
    dsimp only
    rw [readNat?_eq_none hbody rfl]
    rfl
  have hfloat : Decimal.readBinary64? s = none := by
    have hlower : ' ' ∈ Text.lower (Decimal.spanSign s).2 := List.mem_map.mpr ⟨' ', hbody, rfl⟩
    have hname (k : List Char) (hk : ' ' ∉ k) : Text.lower (Decimal.spanSign s).2 ≠ k := by
      rintro rfl
      exact hk hlower
    unfold Decimal.readBinary64?
    dsimp only
    rw [if_neg (not_or.mpr ⟨hname _ (by decide), hname _ (by decide)⟩), if_neg (hname _ (by decide)),
      readUnsigned?_eq_none hbody]
  rw [hint, hfloat]

/-- A count is written without letters. -/
theorem readIndex?_eq_none {c : Char} (hc : c ∈ s) (halpha : c.isAlpha = true) :
    Decimal.readIndex? s = none := by
  have hdigit : c.isDigit = false := by
    by_contra hdigit
    rw [isAlpha_eq_false_of_isDigit (Bool.not_eq_false _ ▸ hdigit)] at halpha
    cases halpha
  have hplus : c ≠ '+' := by
    rintro rfl
    cases halpha
  unfold Decimal.readIndex?
  dsimp only
  rw [readNat?_eq_none _ hdigit]
  split
  · simpa [hplus] using hc
  · exact hc

end Numbers

namespace Paging

variable {p : Paging} {w : List Char}

/-- Where a phrase shows, its start is a place at top level. -/
theorem Shows.exists_place {P : Option Char → List Char → Prop} {before : Option Char}
    (h : p.Shows w) (htop : TopAll P {} before w) : ∃ b v, P b (p.text ++ v) := by
  obtain ⟨u, v, rfl, hu⟩ := h
  obtain ⟨-, hplace⟩ := TopAll.append_iff.mp htop
  obtain ⟨c, t, htext, -⟩ := p.exists_text_cons
  rw [hu, htext] at hplace
  rw [htext]
  exact ⟨_, v, hplace.1 rfl⟩

/-- No phrase begins with what is no letter. -/
theorem head?_text_append_ne {c : Char} (hc : c.isAlpha = false) (v : List Char) :
    (p.text ++ v).head? ≠ some c := by
  obtain ⟨d, t, htext, hd⟩ := p.exists_text_cons
  rw [htext]
  rintro ⟨rfl⟩
  rw [hc] at hd
  cases hd

/-- A text that a phrase shows in is in no parentheses. -/
theorem Shows.unwrap?_eq_none (h : p.Shows w) : unwrap? w = none := by
  by_contra hsome
  obtain ⟨inner, hinner⟩ := Option.ne_none_iff_exists'.mp hsome
  have htrimmed := Text.trimmed_trim h.trim.holds.ne_nil
  have hinner : unwrap? (Text.trim w) = some inner := by
    rwa [unwrap?, Text.trim_trim]
  obtain ⟨htop, -⟩ := topAll_of_unwrap? (P := fun _ t => t.head? = some '(') htrimmed hinner
    fun t ht => by rw [ht]; rfl
  obtain ⟨b, v, hplace⟩ := h.trim.exists_place htop
  exact head?_text_append_ne rfl v hplace

/-- What shows in a text that begins with parentheses stands behind them. -/
theorem Shows.of_parenthesized? {inside after : List Char} (h : p.Shows w)
    (hw : parenthesized? w = some (inside, after)) : p.Holds after := by
  rw [parenthesized?.eq_def] at hw
  split at hw
  case h_1 text =>
    let P : Option Char → List Char → Prop := fun _ t => t.head? = some '('
    obtain ⟨rfl, htop⟩ := topAll_of_closeParenthesis? (P := P) (some '(') Nat.one_pos hw
    have htop : TopAll P {} none ('(' :: (inside ++ [')'])) := ⟨fun _ => rfl, htop⟩
    obtain ⟨u, v, heq, hu⟩ := h
    have heq : u ++ (p.text ++ v) = '(' :: (inside ++ [')']) ++ after := by
      rw [← heq]
      simp
    rcases append_cases heq with ⟨z, hz⟩ | ⟨z, -, rfl⟩ | ⟨x, y, htext, hx, -, hlast, -⟩
    · obtain ⟨b, v, hplace⟩ := Shows.exists_place ⟨u, z, hz, hu⟩ htop
      exact absurd hplace (head?_text_append_ne rfl v)
    · exact ⟨z, v, List.append_assoc ..⟩
    · -- The phrase would begin in front of the closing parenthesis and go on behind it.
      have hclose := congrArg List.getLast? hlast
      rw [← List.cons_append, List.getLast?_append_of_ne_nil _ (List.cons_ne_nil _ _),
        List.getLast?_append_of_ne_nil _ hx] at hclose
      have hmem : ')' ∈ p.text := htext ▸ List.mem_append_left _ (List.mem_of_getLast? hclose.symm)
      exact absurd hmem (not_mem_text rfl (by decide) rfl)
  case h_2 => cases hw

/-- The name of a function closes nothing and opens nothing, with blanks around it or not. -/
theorem balanced_of_isName (h : ∀ c ∈ Text.trim w, (c.isAlphanum || c == '_') = true) : Balanced w := by
  refine balanced_of_neutral fun c hc => ?_
  by_cases hblank : isBlank c = true
  · exact neutral_of_isBlank hblank
  · have hname := h c (mem_trim hc (Bool.eq_false_iff.mpr hblank))
    rw [Char.isAlphanum, Bool.or_eq_true, Bool.or_eq_true, beq_iff_eq] at hname
    rcases hname with (halpha | hdigit) | rfl
    · exact neutral_of_isWordChar (isWordChar_of_isAlpha halpha)
    · exact neutral_of_isWordChar (isWordChar_of_isDigit hdigit)
    · exact neutral_of_isWordChar rfl

/-- A text that a phrase shows in is no function call. -/
theorem Shows.functionCall?_eq_none (h : p.Shows w) : functionCall? w = none := by
  unfold functionCall?
  dsimp only
  split_ifs with hname
  · rfl
  · rw [not_or, not_not] at hname
    have hchars := List.all_eq_true.mp hname.2
    split
    next inside hinside =>
      exfalso
      obtain ⟨u, v, heq, hu⟩ := h
      have heq' : u ++ (p.text ++ v) = w.takeWhile (· != '(') ++ w.dropWhile (· != '(') := by
        rw [List.takeWhile_append_dropWhile, heq]
      rcases append_cases heq' with ⟨z, hz⟩ | ⟨z, hz, hrest⟩ | ⟨x, y, htext, -, hy, -, hrest⟩
      · -- The name of a function has no blank.
        have hshows : p.Shows (w.takeWhile (· != '(')) := ⟨u, z, hz, hu⟩
        have hblank := hchars ' ' (hshows.trim.holds.mem p.blank_mem_text)
        exact absurd hblank (by decide)
      · -- Behind the name the text is all in parentheses, with nothing after them.
        have hz : Balanced z := by
          unfold Balanced at hu
          rwa [hz, Scanner.run_append, balanced_of_isName hchars] at hu
        exact (Shows.of_parenthesized? ⟨z, v, hrest, hz⟩ hinside).ne_nil rfl
      · obtain ⟨c, y, rfl⟩ := List.exists_cons_of_ne_nil hy
        rw [hrest, List.cons_append, parenthesized?.eq_def] at hinside
        split at hinside
        next heq =>
          cases heq
          exact not_mem_text rfl (by decide) rfl (htext ▸ List.mem_append_right _ List.mem_cons_self)
        next => cases hinside
    next => rfl

/-- A text in quotes to its end shows what begins with a quote at most, by induction on how it is
unquoted. -/
theorem topAll_of_unquoteBody? {P : Option Char → List Char → Prop}
    (hP : ∀ b t, P b ('\'' :: t)) {s : Scanner} (hs : s.Quoted) {before : Option Char}
    {body value : List Char} (h : unquoteBody? body = some value) : TopAll P s before body := by
  have hlow {s : Scanner} (hs : s.closing = some '\'') {Q : Prop} (htop : s.isTopLevel = true) : Q := by
    rw [Scanner.closing_of_isTopLevel htop] at hs
    cases hs
  induction body using unquoteBody?.induct generalizing s before value with
  | case1 => cases h
  | case2 => cases h
  | case3 c text ih =>
    obtain ⟨rest, hrest, -⟩ := Option.map_eq_some_iff.mp h
    obtain ⟨depth, closing, escaped, unbalanced⟩ := s
    obtain ⟨rfl, rfl⟩ := hs
    exact ⟨hlow rfl, hlow rfl, ih ⟨rfl, rfl⟩ hrest⟩
  | case4 text ih =>
    obtain ⟨rest, hrest, -⟩ := Option.map_eq_some_iff.mp h
    obtain ⟨depth, closing, escaped, unbalanced⟩ := s
    obtain ⟨rfl, rfl⟩ := hs
    exact ⟨hlow rfl, fun _ => hP _ _, ih ⟨rfl, rfl⟩ hrest⟩
  | case5 => exact ⟨hlow hs.closing, trivial⟩
  | case6 tail hmore hend =>
    obtain ⟨c, text, rfl⟩ := List.exists_cons_of_ne_nil hend
    rw [unquoteBody?_quote fun hquote => hmore text (hquote ▸ rfl)] at h
    cases h
  | case7 c text hlone hescape hdouble hend hquote ih =>
    have hslash : c ≠ '\\' := by
      rintro rfl
      cases text with
      | nil => exact hlone rfl rfl
      | cons d text => exact hescape d text rfl rfl
    rw [unquoteBody?_char hslash hquote] at h
    obtain ⟨rest, hrest, -⟩ := Option.map_eq_some_iff.mp h
    refine ⟨hlow hs.closing, ?_⟩
    rw [hs.step hquote hslash]
    exact ih hs hrest

/-- A text that a phrase shows in is no literal. -/
theorem Shows.readLiteral?_eq_none (h : p.Shows w) : readLiteral? w = none := by
  have hblank : ' ' ∈ Text.trim w := h.holds.trim.mem p.blank_mem_text
  unfold readLiteral?
  dsimp only
  split
  next body hbody =>
    rw [Option.map_eq_none_iff]
    by_contra hsome
    obtain ⟨value, hvalue⟩ := Option.ne_none_iff_exists'.mp hsome
    have htop : TopAll (fun _ t => t.head? = some '\'') (Scanner.step {} '\'') (some '\'') body :=
      topAll_of_unquoteBody? (fun _ _ => rfl) ⟨rfl, rfl⟩ hvalue
    have hwhole : TopAll (fun _ t => t.head? = some '\'') {} none ('\'' :: body) := ⟨fun _ => rfl, htop⟩
    have hshows := h.trim
    rw [hbody] at hshows
    obtain ⟨b, v, hplace⟩ := hshows.exists_place hwhole
    exact head?_text_append_ne rfl v hplace
  next =>
    have hword (k : List Char) (hk : ' ' ∉ k) : ¬ Text.eqIgnoreCase (Text.trim w) k = true :=
      fun heq => hk ((Text.mem_iff_of_eqIgnoreCase rfl heq).mp hblank)
    rw [if_neg (hword _ (by decide)), if_neg (hword _ (by decide)), if_neg (hword _ (by decide))]
    split_ifs
    · rw [Option.map_eq_none_iff]
      exact read?_eq_none (by rwa [Text.trim_trim])
    · rfl

end Paging

/-! ## Names that hold a phrase -/

/-- A character that belongs to no phrase leaves a phrase whole. -/
theorem Paging.Holds.of_separator {p : Paging} {a b : List Char} {c : Char} (h : p.Holds (a ++ c :: b))
    (hc : c ∉ p.text) : p.Holds a ∨ p.Holds b := by
  obtain ⟨u, v, heq⟩ := h
  rw [List.append_assoc] at heq
  rcases append_cases heq with ⟨z, rfl⟩ | ⟨z, -, hz⟩ | ⟨x, y, htext, -, hy, -, hrest⟩
  · exact Or.inl ⟨u, z, List.append_assoc ..⟩
  · cases z with
    | nil =>
      obtain ⟨d, t, htext, -⟩ := p.exists_text_cons
      rw [htext] at hz hc
      obtain ⟨rfl, -⟩ := List.cons.inj hz
      exact absurd List.mem_cons_self hc
    | cons d z =>
      obtain ⟨-, rfl⟩ := List.cons.inj hz
      exact Or.inr ⟨z, v, List.append_assoc ..⟩
  · obtain ⟨d, y, rfl⟩ := List.exists_cons_of_ne_nil hy
    obtain ⟨rfl, -⟩ := List.cons.inj hrest
    exact absurd (htext ▸ List.mem_append_right _ List.mem_cons_self) hc

/-- The phrase stands in a name, in any case. -/
def Paging.Names (p : Paging) (name : List Char) : Prop :=
  p.text.map Char.toLower <:+: name.map Char.toLower

theorem Paging.Holds.names {p : Paging} {w : List Char} (h : p.Holds w) : p.Names w := h.map Char.toLower

theorem Paging.Names.mono {p : Paging} {u w : List Char} (h : p.Names u) (hu : u <:+: w) : p.Names w :=
  h.trans (hu.map Char.toLower)

theorem Paging.Names.of_sameName {p : Paging} {s t : String} (h : p.Names t.toList)
    (hsame : Text.sameName s t = true) : p.Names s.toList := by
  unfold Text.sameName Text.eqIgnoreCase at hsame
  unfold Names
  rwa [beq_iff_eq.mp hsame]

section Quoted

variable {w : List Char}

/-- A name in quotes is one between two characters that belong to no phrase. -/
theorem exists_of_isQuotedName (h : isQuotedName w = true) : ∃ opening closing name,
    w = opening :: (name ++ [closing]) ∧ opening.isAlpha = false ∧ opening.isDigit = false ∧
      closing.isAlpha = false ∧ closing.isDigit = false := by
  have hdelimited {o c : Char} (h : isDelimited o c w = true) : ∃ name, w = o :: (name ++ [c]) := by
    unfold isDelimited at h
    rw [Bool.and_eq_true, Bool.and_eq_true, decide_eq_true_iff, beq_iff_eq, beq_iff_eq] at h
    obtain ⟨⟨hlength, hhead⟩, hlast⟩ := h
    obtain ⟨rest, rfl⟩ := List.head?_eq_some_iff.mp hhead
    rw [List.length_cons] at hlength
    have hne : rest ≠ [] := List.ne_nil_of_length_pos (by omega)
    obtain ⟨d, rest, rfl⟩ := List.exists_cons_of_ne_nil hne
    rw [List.getLast?_cons_cons] at hlast
    obtain ⟨name, hname⟩ := List.getLast?_eq_some_iff.mp hlast
    exact ⟨name, by rw [hname]⟩
  unfold isQuotedName at h
  rw [Bool.or_eq_true, Bool.or_eq_true] at h
  rcases h with (h | h) | h
  all_goals
    obtain ⟨name, hname⟩ := hdelimited h
    exact ⟨_, _, name, hname, rfl, rfl, rfl, rfl⟩

theorem Paging.Holds.unquoteName {p : Paging} (h : p.Holds w) : p.Holds (unquoteName w) := by
  unfold Grammar.unquoteName
  dsimp only
  split_ifs with hquoted
  · obtain ⟨opening, closing, name, hw, hopening, -, -, hclosing⟩ := exists_of_isQuotedName hquoted
    have htrim := h.trim
    rw [hw] at htrim ⊢
    rw [List.drop_one, List.tail_cons, List.dropLast_concat]
    refine (Holds.of_front (e := [opening]) htrim ?_).of_ending (e := [closing]) ?_
    · simpa using hopening
    · simpa using hclosing
  · exact h.trim

end Quoted

/-! ## Items -/

theorem QueryOf.sameName_of_aliased? {q : Query} {name : String} {i : Item}
    (h : q.aliased? name = some i) : ∃ a, i.aliasName = some a ∧ Text.sameName a name = true := by
  have hfind : q.select.find? (fun i => i.aliasName.any (Text.sameName · name)) = some i := h
  have htest := List.find?_some hfind
  exact (Option.any_eq_true _ _).mp htest

section Items

variable {p : Paging} {i : Item} {pending : Pending} {name : List Char} {source : FromItem} {q : Query}

/-- An item without alias and function shows its scope, if any, and what it reads. -/
theorem infix_underScope (scope : Option String) (text : String) :
    text.toList <:+: (Item.underScope scope text).toList := by
  cases scope with
  | none => exact List.infix_refl _
  | some label =>
    show text.toList <:+: (label ++ "." ++ text).toList
    rw [String.toList_append]
    exact (List.suffix_append _ _).isInfix

theorem holds_ofColumn {c : Column} (h : p.Names c.name.toList) (id : Nat) (scope : Option String) :
    p.Names (Item.ofColumn id c scope).sqlWithoutAlias.toList :=
  h.mono (infix_underScope scope c.name)

/-- The path into a document is shown in quotes, which changes no phrase. -/
theorem holds_quoted {s : String} (h : p.Names s.toList) : p.Names (Value.quoted s).toList := by
  obtain ⟨u, v, heq⟩ := h
  have happend (a b : List Char) : quotedBody (a ++ b) = quotedBody a ++ quotedBody b :=
    List.flatMap_append
  have hkeeps {w : List Char} (hw : '\'' ∉ w) : quotedBody w = w := by
    induction w with
    | nil => rfl
    | cons c w ih =>
      rw [List.mem_cons, not_or] at hw
      rw [quotedBody_cons, if_neg (Ne.symm hw.1), ih hw.2]
      rfl
  -- The phrase as it is spelled in the text has no quote that would be doubled.
  obtain ⟨front, v', hs, hfront, -⟩ := List.map_eq_append_iff.mp heq.symm
  obtain ⟨u', phrase, rfl, -, hphrase⟩ := List.map_eq_append_iff.mp hfront
  have hquote : '\'' ∉ phrase := by
    intro hmem
    obtain ⟨c, hc, hlower⟩ := List.mem_map.mp (hphrase ▸ List.mem_map_of_mem hmem)
    obtain rfl : c = '\'' := eq_of_toLower_eq rfl hlower
    exact Paging.not_mem_text rfl (by decide) rfl hc
  refine Paging.Names.mono (u := phrase) ?_ ⟨'\'' :: quotedBody u', quotedBody v' ++ ['\''], ?_⟩
  · rw [Paging.Names, hphrase]
  · rw [toList_quoted, quoted, hs, happend, happend, hkeeps hquote]
    simp

theorem holds_path {c : Column} {path : List Char} (h : p.Names c.name.toList ∨ p.Names path)
    (id : Nat) (scope : Option String) : p.Names ((Item.ofFunction id .mapValue c scope).withParameters
      id [.text (String.ofList path)]).sqlWithoutAlias.toList := by
  have hsql : ((Item.ofFunction id .mapValue c scope).withParameters id
      [.text (String.ofList path)]).sqlWithoutAlias.toList = Builtin.mapValue.name.toList ++ '(' ::
        ((Item.underScope scope c.name).toList ++ ([',', ' '] ++
          ((Value.quoted (String.ofList path)).toList ++ [')']))) := by
    simp [Item.sqlWithoutAlias, Item.withParameters, Item.ofFunction, Item.plain,
      Item.underFunction, Text.joinWith, Value.literal]
  rw [hsql]
  rcases h with hcolumn | hpath
  · refine (hcolumn.mono (infix_underScope scope c.name)).mono ?_
    exact ⟨Builtin.mapValue.name.toList ++ ['('],
      [',', ' '] ++ ((Value.quoted (String.ofList path)).toList ++ [')']), by simp⟩
  · refine (holds_quoted (s := String.ofList path) (by rwa [String.toList_ofList])).mono ?_
    exact ⟨Builtin.mapValue.name.toList ++ '(' :: ((Item.underScope scope c.name).toList ++ [',', ' ']),
      [')'], by simp⟩

/-- What a reference into a subquery shows. -/
theorem holds_ofInner {inner : Item} (h : p.Names inner.label.toList) (id : Nat)
    (scope : Option String) : p.Names (Item.ofInner id inner scope).sqlWithoutAlias.toList :=
  h.mono (infix_underScope scope inner.label)

theorem holds_label_of_innerNamed? {inner : Item} (h : innerNamed? q (String.ofList name) = some inner)
    (hname : p.Names name) : p.Names inner.label.toList := by
  have hname : p.Names (String.ofList name).toList := by
    rwa [String.toList_ofList]
  rcases (Option.orElse_eq_some _ _ _).mp h with haliased | ⟨-, hfind⟩
  · obtain ⟨a, ha, hsame⟩ := QueryOf.sameName_of_aliased? haliased
    rw [Item.label, ha]
    exact hname.of_sameName hsame
  · have htest := List.find?_some hfind
    rw [Bool.and_eq_true, Option.isNone_iff_eq_none, Bool.or_eq_true] at htest
    obtain ⟨halias, htext | hcolumn⟩ := htest
    · rw [Item.label, halias]
      exact hname.of_sameName htext
    · rw [Bool.and_eq_true, Option.isNone_iff_eq_none] at hcolumn
      obtain ⟨c, hc, hsame⟩ := (Option.any_eq_true _ _).mp hcolumn.2
      rw [Item.label, halias]
      refine (hname.of_sameName hsame).mono ?_
      show c.name.toList <:+: inner.sqlWithoutAlias.toList
      rw [toList_sqlWithoutAlias hc hcolumn.1]
      exact infix_underScope inner.scope c.name

/-- **A name with a phrase in it means an item with a phrase in its text.** -/
theorem holds_of_resolveIn? {qualified : Bool} (h : resolveIn? source name qualified = some pending)
    (hname : p.Holds name) (n : Nat) : p.Names (pending n).sqlWithoutAlias.toList := by
  have hstring : p.Names (String.ofList name).toList := by
    rw [String.toList_ofList]
    exact hname.names
  unfold resolveIn? at h
  cases source with
  | table t aliasName =>
    dsimp only at h
    split at h
    next c hc =>
      cases h
      exact holds_ofColumn (hstring.of_sameName (Table.sameName_of_columnNamed? hc)) n _
    next =>
      unfold pathInto? at h
      split at h
      next head path hcut =>
        split at h
        next c hc =>
          split at h
          · cases h
            -- The dot is no part of the phrase, so the column has it or the path does.
            rw [prefix_of_cutAt? hcut] at hname
            refine holds_path ?_ n _
            rcases hname.of_separator (Paging.not_mem_text rfl (by decide) rfl) with hhead | hpath
            · refine Or.inl (Paging.Names.of_sameName ?_ (Table.sameName_of_columnNamed? hc))
              rw [String.toList_ofList]
              exact hhead.names
            · exact Or.inr hpath.names
          · cases h
        next => cases h
      next => cases h
  | subquery inner aliasName =>
    obtain ⟨i, hi, rfl⟩ := Option.map_eq_some_iff.mp h
    exact holds_ofInner (holds_label_of_innerNamed? hi hname.names) n aliasName
  | expression text aliasName => cases h
  | join kind left right conditions aliasName => cases h

theorem sqlWithoutAlias_withAlias (i : Item) (aliasName : String) :
    (i.withAlias aliasName).sqlWithoutAlias = i.sqlWithoutAlias := by
  obtain ⟨id, source, function, parameters, approximate, scope, other⟩ := i
  cases source <;> rfl

/-- An item shows as much with its alias. -/
theorem infix_sql (i : Item) : i.sqlWithoutAlias.toList <:+: i.sql.toList := by
  unfold Item.sql
  cases i.aliasName with
  | none => exact List.infix_refl _
  | some aliasName =>
    simp only [String.toList_append, List.append_assoc]
    exact (List.prefix_append _ _).isInfix

theorem holds_of_alias {aliasName : String} (hi : i.aliasName = some aliasName)
    (h : p.Names aliasName.toList) : p.Names i.sql.toList := by
  refine h.mono ?_
  unfold Item.sql
  rw [hi]
  simp only [String.toList_append]
  exact (List.suffix_append _ _).isInfix

end Items

end Grammar

/-! ## Queries that name a phrase -/

open Grammar

/-- A table is named with the keyword of the phrase, and its alias begins with the count. -/
def FromItem.TakesPaging (catalog : Catalog) (p : Paging) (f : FromItem) : Prop :=
  ∃ name t aliasName, catalog.table? name = some t ∧ f = .table t (some aliasName) ∧
    p.keyword <:+ name.toList ∧ p.count <+: aliasName.toList

/-- The phrase stands in the label of a from item or of a side of its joins, in the name of such a table
and its alias, or in the text of an item of the conditions. -/
def FromItem.NamesPaging (catalog : Catalog) (p : Paging) (f : FromItem) : Prop :=
  (∃ i ∈ f.conditionItems, p.Names i.sql.toList) ∨
    ∃ g ∈ f.parts, (∃ label ∈ g.label?, p.Names label.toList) ∨ g.TakesPaging catalog p

/-- The phrase stands in the text of an item of a query, or one of the from items names it. -/
def QueryOf.NamesPaging (catalog : Catalog) (p : Paging) (q : Query) : Prop :=
  (∃ i ∈ q.itemsOfClauses, p.Names i.sql.toList) ∨ ∃ f ∈ q.sources, f.NamesPaging catalog p

theorem FromItem.namesPaging_withAlias {catalog : Catalog} {p : Paging} {f : FromItem}
    {aliasName : String} (h : p.Names aliasName.toList) :
    (f.withAlias aliasName).NamesPaging catalog p := by
  refine Or.inr ⟨_, (f.withAlias aliasName).mem_parts_self, Or.inl ⟨aliasName, ?_, h⟩⟩
  cases f <;> rfl

/-- What a reference with a phrase in it finds has the phrase in its label. -/
theorem QueryOf.namesPaging_of_source? {catalog : Catalog} {p : Paging} {q : Query}
    {reference : List Char} {source : FromItem}
    (h : q.source? (String.ofList reference) = some source) (hreference : p.Holds reference) :
    ∃ f ∈ q.sources, f.NamesPaging catalog p := by
  obtain ⟨f, hf, hfound⟩ := List.exists_of_findSome?_eq_some h
  obtain ⟨label, hlabel, hsame⟩ := FromItem.label?_of_referenced? hfound
  refine ⟨f, hf, Or.inr ⟨source, f.leaves_subset_parts (FromItem.mem_of_referenced? hfound),
    Or.inl ⟨label, hlabel, Paging.Names.of_sameName ?_ hsame⟩⟩⟩
  rw [String.toList_ofList]
  exact hreference.names

namespace Grammar

section References

variable {catalog : Catalog} {p : Paging} {q : Query} {name text : List Char} {pending : Pending}

theorem eq_of_mem_dottedCuts {cut : List Char × List Char} (h : cut ∈ dottedCuts name) :
    name = cut.1 ++ '.' :: cut.2 := by
  induction name generalizing cut with
  | nil => cases h
  | cons c name ih =>
    have hlater (h : cut ∈ (dottedCuts name).map fun cut => (c :: cut.1, cut.2)) :
        c :: name = cut.1 ++ '.' :: cut.2 := by
      obtain ⟨later, hmem, rfl⟩ := List.mem_map.mp h
      exact congrArg (c :: ·) (ih hmem)
    rw [dottedCuts] at h
    dsimp only at h
    split_ifs at h with hdot
    · rcases List.mem_append.mp h with hmem | hmem
      · exact hlater hmem
      · obtain rfl := List.mem_singleton.mp hmem
        rw [hdot]
        rfl
    · exact hlater h

/-- **A column named with a phrase shows it**, unless the name of a from item does. -/
theorem holds_of_resolveColumn (h : resolveColumn q name = .ok (some pending)) (hname : p.Holds name)
    (n : Nat) :
    p.Names (pending n).sqlWithoutAlias.toList ∨ ∃ f ∈ q.sources, f.NamesPaging catalog p := by
  rcases exists_resolveIn?_of_resolveColumn h with
    ⟨_, _, source, hmem, hsource, heq⟩ | ⟨_, _, _, -, -, heq⟩
  · rw [eq_of_mem_dottedCuts hmem] at hname
    rcases hname.of_separator (Paging.not_mem_text rfl (by decide) rfl) with hqualifier | hrest
    · exact Or.inr (q.namesPaging_of_source? hsource hqualifier.unquoteName)
    · exact Or.inl (holds_of_resolveIn? heq hrest.unquoteName n)
  · exact Or.inl (holds_of_resolveIn? heq hname n)

/-- The words that allow a function to be approximate go from the start of a text. -/
theorem Paging.Shows.spanApproximate (h : p.Shows text) : p.Shows (spanApproximate text).2 := by
  induction text using Grammar.spanApproximate.induct with
  | case1 text rest hword hshorter ih =>
    rw [Grammar.spanApproximate, hword]
    simp only [if_pos hshorter]
    exact ih (h.of_afterWord? (by decide) hword)
  | case2 text rest hword hlonger =>
    rw [Grammar.spanApproximate, hword]
    simp only [if_neg hlonger]
    exact h.of_afterWord? (by decide) hword
  | case3 text hword =>
    rw [Grammar.spanApproximate, hword]
    exact h

/-- An item shows as much when its function is allowed to be approximate. -/
theorem infix_withApproximate (i : Item) (id : Nat) :
    i.sqlWithoutAlias.toList <:+: (i.withApproximate id true).sqlWithoutAlias.toList := by
  have hfunction (f : Option Builtin) (parameters : List Value) (body : String) :
      (Item.underFunction f false parameters body).toList <:+
        (Item.underFunction f true parameters body).toList := by
    cases f with
    | none => exact List.suffix_refl _
    | some f => exact ⟨"APPROXIMATE ".toList, by simp [Item.underFunction]⟩
  obtain ⟨number, source, function, parameters, approximate, scope, aliasName⟩ := i
  cases approximate with
  | true => exact List.infix_refl _
  | false => cases source <;> exact (hfunction _ _ _).isInfix

theorem holds_of_resolveItem (h : resolveItem q text = .ok (some pending)) (htext : p.Shows text)
    (n : Nat) :
    p.Names (pending n).sqlWithoutAlias.toList ∨ ∃ f ∈ q.sources, f.NamesPaging catalog p := by
  obtain ⟨approximate, rest, meaning, hspan, rfl, hmeaning⟩ := exists_of_resolveItem h
  have hshows := htext.trim.spanApproximate
  rw [hspan] at hshows
  rcases hmeaning with ⟨_, _, hcall, -⟩ | ⟨-, hcolumn⟩
  · rw [hshows.functionCall?_eq_none] at hcall
    cases hcall
  · refine (holds_of_resolveColumn hcolumn hshows.holds.unquoteName n).imp_left fun hmake => ?_
    dsimp only
    split_ifs
    · exact hmake.mono (infix_withApproximate _ n)
    · exact hmake

/-- **What a text with a phrase at top level means shows the phrase**, unless a from item names it. -/
theorem holds_of_resolveReference (h : resolveReference q text = .ok (some pending))
    (htext : p.Shows text) (n : Nat) :
    p.Names (pending n).sql.toList ∨ ∃ f ∈ q.sources, f.NamesPaging catalog p := by
  unfold resolveReference at h
  split at h
  next i hi =>
    cases h
    obtain ⟨a, ha, hsame⟩ := QueryOf.sameName_of_aliased? hi
    refine Or.inl (holds_of_alias ha (Paging.Names.of_sameName ?_ hsame))
    rw [String.toList_ofList]
    exact htext.holds.unquoteName.names
  next => exact (holds_of_resolveItem h htext n).imp_left fun hi => hi.mono (infix_sql _)

end References

end Grammar

end DocQuery
