import DocQuery.Proofs.Grammar.FilledSearches
import DocQuery.Proofs.Grammar.Numbering
import DocQuery.Proofs.Grammar.Predicate
import DocQuery.Proofs.Query.Literals

/-!
# DocQuery.Proofs.Grammar.FilledFilters — filters of filled texts

A filter is read from a filled text as it is read from the text, with the literals in the place of its
parameters (`ReadsFilled`).  Reading draws at most one parameter for each placeholder; only where it
draws one for each of them is every placeholder the whole operand of a comparison, so that its literal
is read as an operand as well.  This is shown of one comparison (`readsFilled_comparison`) and carried
through groups and parentheses by induction on how deep they are nested.
-/

namespace DocQuery.Grammar

open Text (Trimmed isBlank)

/-! ## Two readers side by side -/

/-- What a reader draws from a text with some placeholders: no more parameters than placeholders, and
none of a later number. -/
structure Draws (placed : List Value) (s s' : State) (count : Nat) : Prop where
  grows : s.nextParameter ≤ s'.nextParameter
  bounded : s'.nextParameter ≤ s.nextParameter + placed.length
  counted : count ≤ s'.nextParameter

/-- Every placeholder of a text was drawn as a parameter, which has the value that is placed there,
and none of them is compared by membership. -/
structure Answered (values placed : List Value) (s s' : State) (uses : List ParameterUse) : Prop where
  all : s'.nextParameter = s.nextParameter + placed.length
  values : placed <+: values.drop s.nextParameter
  scalar : ∀ u ∈ uses, u.op.isList = false

section Shares

variable {left right values : List Value} {s middle s' : State} {count count' total : Nat}

/-- What is drawn from two texts one after the other. -/
theorem Draws.append (h : Draws left s middle count) (h' : Draws right middle s' count')
    (htotal : total ≤ s'.nextParameter) : Draws (left ++ right) s s' total where
  grows := Nat.le_trans h.grows h'.grows
  bounded := by
    have hbounded := h.bounded
    have hbounded' := h'.bounded
    rw [List.length_append]
    omega
  counted := htotal

/-- **Each of two texts draws its own share**, if all placeholders of both were drawn. -/
theorem Answered.shares {uses first second : List ParameterUse}
    (hanswered : Answered values (left ++ right) s s' uses) (h : Draws left s middle count)
    (h' : Draws right middle s' count') (hfirst : first ⊆ uses) (hsecond : second ⊆ uses) :
    Answered values left s middle first ∧ Answered values right middle s' second := by
  have hall := hanswered.all
  have hbounded := h.bounded
  have hbounded' := h'.bounded
  rw [List.length_append] at hall
  have hmiddle : middle.nextParameter = s.nextParameter + left.length := by omega
  obtain ⟨rest, hrest⟩ := hanswered.values
  refine ⟨⟨hmiddle, ⟨right ++ rest, ?_⟩, fun u hu => hanswered.scalar u (hfirst hu)⟩,
    ⟨by omega, ⟨rest, ?_⟩, fun u hu => hanswered.scalar u (hsecond hu)⟩⟩
  · rw [← hrest, List.append_assoc]
  · rw [hmiddle, ← List.drop_drop, ← hrest, List.append_assoc, List.drop_left]

end Shares

section ReadsFilled

variable {α : Type} {values placed : List Value}

/-- Whether a reader of a filled text reads what a reader of the text does, with the values in the
place of the parameters. -/
def ReadsFilled (values placed : List Value) (count : α → Nat) (uses : α → List ParameterUse)
    (withLiterals : α → α) (r r' : Reader α) : Prop :=
  ∀ s a s', r.run s = (.ok a, s') → Draws placed s s' (count a) ∧
    (Answered values placed s s' (uses a) → ∀ n, r'.run { s with nextParameter := n } =
      (.ok (withLiterals a), { s' with nextParameter := n }))

/-- Two readers of filters side by side. -/
abbrev ReadsFilledFilter (values placed : List Value) : Reader Filter → Reader Filter → Prop :=
  ReadsFilled values placed Filter.parameterCount Filter.uses (Filter.withLiterals values)

/-- Two readers of lists of filters side by side. -/
abbrev ReadsFilledFilters (values placed : List Value) :
    Reader (List Filter) → Reader (List Filter) → Prop :=
  ReadsFilled values placed Filter.parameterCountOf Filter.usesOf (Filter.allWithLiterals values)

/-- **Filters read one after the other**: each draws its own share of the parameters. -/
theorem readsFilled_mapM {f f' : List Char → Reader Filter} {parts parts' : List (List Char)}
    (h : AllFill parts parts' placed) (hparts : ∀ part part' placed, part ∈ parts →
      Fills {} none part part' placed → ReadsFilledFilter values placed (f part) (f' part')) :
    ReadsFilledFilters values placed (parts.mapM f) (parts'.mapM f') := by
  induction h with
  | nil =>
    intro s a s' hrun
    cases hrun
    exact ⟨⟨Nat.le_refl _, Nat.le_add_right _ _, Nat.zero_le _⟩, fun _ n => rfl⟩
  | @cons part part' parts parts' left right first rest ih =>
    intro s a s' hrun
    rw [List.mapM_cons] at hrun
    obtain ⟨b, middle, hb, hrun⟩ := run_bind_eq_ok hrun
    obtain ⟨others, last, hothers, hrun⟩ := run_bind_eq_ok hrun
    cases hrun
    obtain ⟨hdraws, hfilled⟩ := hparts part part' left List.mem_cons_self first s b middle hb
    obtain ⟨hdraws', hfilled'⟩ := ih (fun part part' placed hmem =>
      hparts part part' placed (List.mem_cons_of_mem _ hmem)) middle others s' hothers
    have hcounts : Filter.parameterCountOf (b :: others) ≤ s'.nextParameter := by
      rw [Filter.parameterCountOf]
      exact Nat.max_le.mpr ⟨Nat.le_trans hdraws.counted hdraws'.grows, hdraws'.counted⟩
    refine ⟨hdraws.append hdraws' hcounts, fun hanswered n => ?_⟩
    obtain ⟨hhere, hlater⟩ := hanswered.shares hdraws hdraws' (List.subset_append_left _ _)
      (List.subset_append_right _ _)
    rw [List.mapM_cons, run_bind_ok (hfilled hhere n), run_bind_ok (hfilled' hlater n)]
    rfl

end ReadsFilled

/-! ## Comparisons -/

section Comparisons

variable {text left right : List Char} {op : Comparison} {v : Value}

/-- A comparison is cut at one of the spellings. -/
theorem exists_spelling (h : cutFirst? comparisonSpellings text = some (left, op, right)) :
    ∃ u, text = left ++ (u ++ right) ∧
      ∃ p ∈ comparisonSpellings, u.map Char.toLower = p.1.map Char.toLower := by
  obtain ⟨t, rfl, -, hfound, -⟩ := findTop?_eq_some h
  obtain ⟨p, hp, hhere⟩ := List.exists_of_findSome?_eq_some hfound
  obtain ⟨rest, hrest, heq⟩ := Option.map_eq_some_iff.mp hhere
  cases heq
  obtain ⟨u, rfl, hu⟩ := afterPattern?_eq_some_iff.mp hrest
  exact ⟨u, rfl, p, hp, hu⟩

/-- No spelling of a comparison ends like the words before NULL in a test for null. -/
theorem spelling_ending : ∀ p ∈ comparisonSpellings, p.1.map Char.toLower ≠ [] ∧
    (2 ≤ (p.1.map Char.toLower).length ∨ ¬ [' '] <:+ p.1.map Char.toLower) ∧
    ∀ c ∈ ['s', 't'], ¬ [c] <:+ p.1.map Char.toLower ∧ ¬ [c, ' '] <:+ p.1.map Char.toLower := by
  simp only [List.forall_mem_cons, List.not_mem_nil, false_implies, implies_true, and_true]
  decide

theorem toLower_of_isBlank {c : Char} (h : isBlank c = true) : c.toLower = c :=
  toLower_of_isAlpha_eq_false (isAlpha_of_opens (by simp [opens, h]))

theorem suffix_of_append {u v w : List Char} (h : u <:+ v ++ w) (hlength : u.length ≤ w.length) :
    u <:+ w :=
  List.suffix_of_suffix_length_le h (List.suffix_append v w) hlength

/-- What follows a comparison and blanks is never a test for null. -/
theorem nullTest?_of_spelling {u blanks : List Char}
    (hu : ∃ p ∈ comparisonSpellings, u.map Char.toLower = p.1.map Char.toLower)
    (hblanks : ∀ c ∈ blanks, isBlank c = true) :
    nullTest? (left ++ (u ++ blanks) ++ "NULL".toList) = none := by
  apply nullTest?_eq_none
  intro e c hc hsuffix
  obtain ⟨p, hp, hlower⟩ := hu
  obtain ⟨hne, hlong, hending⟩ := spelling_ending p hp
  obtain ⟨hone, htwo⟩ := hending c (by rcases hc with rfl | rfl <;> decide)
  rw [List.map_append, List.map_append, List.map_append, hlower] at hsuffix
  have hsuffix : (e ++ [c]) ++ [' '] <:+
      left.map Char.toLower ++ (p.1.map Char.toLower ++ blanks.map Char.toLower) := by
    rw [show " null".toList = [' '] ++ "NULL".toList.map Char.toLower from rfl, ← List.append_assoc,
      List.suffix_append_self_iff] at hsuffix
    exact hsuffix
  have hpair : [c, ' '] <:+ (e ++ [c]) ++ [' '] := ⟨e, by simp⟩
  rcases List.eq_nil_or_concat blanks with rfl | ⟨before, b, rfl⟩
  · rw [List.map_nil, List.append_nil] at hsuffix
    rcases hlong with hlong | hblank
    · exact htwo (suffix_of_append (hpair.trans hsuffix) hlong)
    · refine hblank (suffix_of_append ((List.suffix_append _ [' ']).trans hsuffix) ?_)
      exact List.length_pos_iff.mpr hne
  · rw [List.concat_eq_append] at hblanks hsuffix
    rw [List.map_append, ← List.append_assoc, ← List.append_assoc] at hsuffix
    obtain ⟨t, ht, hsuffix⟩ := (List.suffix_concat_iff.mp hsuffix).resolve_left (by simp)
    obtain ⟨rfl, -⟩ := List.append_inj' ht rfl
    have hlast : [c] <:+ left.map Char.toLower ++ p.1.map Char.toLower ++ before.map Char.toLower :=
      (List.suffix_append e [c]).trans hsuffix
    rcases List.eq_nil_or_concat before with rfl | ⟨first, d, rfl⟩
    · rw [List.map_nil, List.append_nil] at hlast
      exact hone (suffix_of_append hlast (List.length_pos_iff.mpr hne))
    · rw [List.concat_eq_append, List.map_append, ← List.append_assoc] at hlast
      obtain ⟨t, ht, -⟩ := (List.suffix_concat_iff.mp hlast).resolve_left (by simp)
      obtain ⟨-, hd⟩ := List.append_inj' (show [] ++ [c] = t ++ [d.toLower] from ht) rfl
      have hd : d.toLower = c := (List.singleton_inj.mp hd).symm
      have hblank : isBlank d = true := hblanks d (by simp)
      rw [toLower_of_isBlank hblank] at hd
      rw [hd] at hblank
      rcases hc with rfl | rfl <;> cases hblank

/-- **A comparison with a literal is no test for null.** -/
theorem nullTest?_filled (hv : v.IsPlain) {u blanks : List Char}
    (hu : ∃ p ∈ comparisonSpellings, u.map Char.toLower = p.1.map Char.toLower)
    (hblanks : ∀ c ∈ blanks, isBlank c = true) :
    nullTest? (left ++ (u ++ blanks) ++ v.literal.toList) = none := by
  rcases last_literal hv with rfl | ⟨c, hc, hl⟩
  · exact nullTest?_of_spelling hu hblanks
  · exact nullTest?_of_last (c := c) (by rw [List.getLast?_append_of_ne_nil _ (literal_ne_nil hv), hc]) hl

variable {q : Query} {clause : String} {filled : List Char} {values placed : List Value}

/-- What the right side of a comparison is read as if it is no parameter. -/
theorem readOperand_plain (values : List Value) (failure : QueryError) (item : Item) (op : Comparison)
    (hright : right ≠ ['?']) : Blind (readOperand q failure item op right) ∧
      ∀ s operand s', (readOperand q failure item op right).run s = (.ok operand, s') →
        Filter.parameterCount (.comparison item op operand) = 0 ∧
          Filter.withLiterals values (.comparison item op operand) = .comparison item op operand := by
  unfold readOperand
  rw [if_neg hright]
  dsimp only
  split
  · split
    · refine ⟨(Blind.lift _).bind fun vs => Blind.pure _, fun s operand s' hrun => ?_⟩
      obtain ⟨vs, middle, -, hrun⟩ := run_bind_eq_ok hrun
      cases hrun
      exact ⟨rfl, rfl⟩
    · exact ⟨Blind.throw _, fun s operand s' hrun => by cases hrun⟩
  · split
    · refine ⟨Blind.pure _, fun s operand s' hrun => ?_⟩
      cases hrun
      exact ⟨rfl, rfl⟩
    · refine ⟨(blind_makeFound _ _).bind fun i => Blind.pure _, fun s operand s' hrun => ?_⟩
      obtain ⟨i, middle, -, hrun⟩ := run_bind_eq_ok hrun
      cases hrun
      exact ⟨rfl, rfl⟩

/-- What a comparison is read as if its right side is no parameter. -/
theorem readComparison_plain (values : List Value) (hplain : ∀ left op right, nullTest? text = none →
      cutFirst? comparisonSpellings text = some (left, op, right) → Text.trim right ≠ ['?']) :
    Blind (readComparison q clause text) ∧
      ∀ s f s', (readComparison q clause text).run s = (.ok f, s') →
        Filter.parameterCount f = 0 ∧ Filter.withLiterals values f = f := by
  unfold readComparison
  dsimp only
  split
  · refine ⟨(blind_makeFound _ _).bind fun item => Blind.pure _, fun s f s' hrun => ?_⟩
    obtain ⟨item, middle, -, hrun⟩ := run_bind_eq_ok hrun
    cases hrun
    exact ⟨rfl, rfl⟩
  next hnull =>
    split
    next left op right hcut =>
      have hright := hplain left op right hnull hcut
      refine ⟨(blind_makeFound _ _).bind fun item =>
        (readOperand_plain values _ item op hright).1.bind fun operand => Blind.pure _,
          fun s f s' hrun => ?_⟩
      obtain ⟨item, middle, -, hrun⟩ := run_bind_eq_ok hrun
      obtain ⟨operand, middle', hrun', hrun⟩ := run_bind_eq_ok hrun
      cases hrun
      exact (readOperand_plain values _ item op hright).2 _ _ _ hrun'
    next => exact ⟨Blind.throw _, fun s f s' hrun => by cases hrun⟩

/-- What ends in a placeholder once it is trimmed is filled with one literal. -/
theorem Fills.of_placeholder (h : Fills {} none ['?'] filled placed) :
    ∃ v, v.IsPlain ∧ placed = [v] ∧ filled = v.literal.toList := by
  cases h with
  | char hc rest => exact absurd rfl (hc rfl)
  | literal hs hbefore hends hv rest =>
    cases rest
    exact ⟨_, hv, rfl, List.append_nil _⟩

/-- An item that was found does not depend on how a failure is reported. -/
theorem run_makeFound_failure {found : Except QueryError (Option Pending)}
    {failure failure' : QueryError} {s s' : State} {i : Item}
    (h : (makeFound found failure).run s = (.ok i, s')) :
    (makeFound found failure').run s = (.ok i, s') := by
  unfold makeFound at h ⊢
  obtain ⟨pending?, middle, hfound, h⟩ := run_bind_eq_ok h
  rw [run_bind_ok hfound]
  cases pending? with
  | none => cases h
  | some pending => exact h

/-- The literal of a value is read as what it is compared as. -/
theorem run_readOperand_literal (hv : v.IsPlain) (failure : QueryError) (item : Item)
    (hscalar : op.isList = false) (s : State) :
    (readOperand q failure item op v.literal.toList).run s =
      (.ok (.value (op.literal item v)), s) := by
  have hnot : v.literal.toList ≠ ['?'] := by
    intro heq
    have hread := readLiteral?_literal hv
    rw [heq] at hread
    cases hread
  unfold readOperand
  rw [if_neg hnot]
  simp only [hscalar, Bool.false_eq_true, if_false, readLiteral?_literal hv]
  rfl

/-- **A comparison with a placeholder is filled with one literal**, behind the comparison, and the
filled text is no test for null. -/
theorem Fills.cut_placeholder (h : Fills {} none text filled placed) (htrimmed : Trimmed text)
    (hcut : Grammar.cutFirst? comparisonSpellings text = some (left, op, right))
    (hright : Text.trim right = ['?']) :
    ∃ left' right' v before, Grammar.cutFirst? comparisonSpellings filled = some (left', op, right') ∧
      nullTest? filled = none ∧ v.IsPlain ∧ Text.trim right' = v.literal.toList ∧
      placed = before ++ [v] ∧ Fills {} none left left' before := by
  have hfound := h.cutFirst?
  rw [hcut] at hfound
  obtain ⟨left', u, right', before, after, hcut', rfl, htext, hfilled, hfirst, hsecond⟩ :=
    hfound.of_some
  have htrim := hsecond.trim ⟨rfl, rfl⟩
  rw [hright] at htrim
  obtain ⟨v, hv, rfl, hliteral⟩ := htrim.of_placeholder
  refine ⟨left', right', v, before, hcut', ?_, hv, hliteral, rfl, hfirst⟩
  obtain ⟨blanks, tail, hsplit, hblanks, htail⟩ := Text.exists_eq_trim right'
  have hnil : tail = [] := by
    by_contra hne
    have hlast : filled.getLast? = tail.getLast? := by
      rw [hfilled, hsplit]
      simp only [List.getLast?_append_of_ne_nil _ hne, ← List.append_assoc]
    obtain ⟨c, hc⟩ : ∃ c, tail.getLast? = some c := ⟨_, List.getLast?_eq_some_getLast hne⟩
    have hblank := (h.trimmed htrimmed).last c (hlast.trans hc)
    rw [htail c (List.mem_of_getLast? hc)] at hblank
    cases hblank
  obtain ⟨u', hu', hspelling⟩ := exists_spelling hcut
  obtain rfl : u' = u := by
    rw [htext] at hu'
    exact (List.append_cancel_right (List.append_cancel_left hu')).symm
  rw [hfilled, hsplit, hliteral, hnil, List.append_nil]
  have hshape : nullTest? (left' ++ (u' ++ blanks) ++ v.literal.toList) = none :=
    nullTest?_filled hv hspelling hblanks
  simpa only [List.append_assoc] using hshape

/-- What a comparison with a placeholder is read as: one with the next parameter. -/
theorem readComparison_placeholder {s s' : State} {f : Filter} (hnull : nullTest? text = none)
    (hcut : cutFirst? comparisonSpellings text = some (left, op, right))
    (hright : Text.trim right = ['?']) (hrun : (readComparison q clause text).run s = (.ok f, s')) :
    ∃ item middle, (makeFound (resolveReference q (Text.trim left))
        (.unparsable clause (String.ofList text))).run s = (.ok item, middle) ∧
      f = .comparison item op (.parameter middle.nextParameter) ∧
      s' = { middle with nextParameter := middle.nextParameter + 1 } := by
  unfold readComparison at hrun
  simp only [hnull, hcut] at hrun
  obtain ⟨item, middle, hitem, hrun⟩ := run_bind_eq_ok hrun
  obtain ⟨operand, last, hoperand, hrun⟩ := run_bind_eq_ok hrun
  unfold readOperand at hoperand
  rw [if_pos hright] at hoperand
  cases hoperand
  cases hrun
  exact ⟨item, middle, hitem, rfl, rfl⟩

/-- Where a comparison has a placeholder, its literal is read in the place of the parameter. -/
theorem readsFilled_placeholder (h : Fills {} none text filled placed) (htrimmed : Trimmed text)
    {left right : List Char} {op : Comparison} (hnull : nullTest? text = none)
    (hcut : cutFirst? comparisonSpellings text = some (left, op, right))
    (hright : Text.trim right = ['?']) :
    ReadsFilledFilter values placed (readComparison q clause text) (readComparison q clause filled) := by
  intro s f s' hrun
  obtain ⟨left', right', v, before, hcut', hnull', hv, hliteral, rfl, hfirst⟩ :=
    h.cut_placeholder htrimmed hcut hright
  obtain ⟨item, middle, hitem, rfl, rfl⟩ := readComparison_placeholder hnull hcut hright hrun
  have hmiddle := (blind_makeFound _ _).keeps hitem
  refine ⟨⟨?_, ?_, ?_⟩, fun hanswered n => ?_⟩
  · show s.nextParameter ≤ middle.nextParameter + 1
    omega
  · show middle.nextParameter + 1 ≤ s.nextParameter + (before ++ [v]).length
    rw [List.length_append, List.length_singleton]
    omega
  · exact Nat.le_refl _
  -- One parameter was drawn, so its literal is the only one of the text.
  have hall : middle.nextParameter + 1 = s.nextParameter + (before ++ [v]).length := hanswered.all
  rw [List.length_append, List.length_singleton] at hall
  obtain rfl : before = [] := List.length_eq_zero_iff.mp (by omega)
  have hvalue : values[middle.nextParameter]? = some v := by
    obtain ⟨rest, hrest⟩ := hanswered.values
    have hhead : (values.drop s.nextParameter)[0]? = some v := by
      rw [← hrest]
      rfl
    rwa [List.getElem?_drop, Nat.add_zero, ← hmiddle] at hhead
  have hscalar : op.isList = false := hanswered.scalar ⟨item, op, _⟩ (List.mem_singleton.mpr rfl)
  unfold readComparison
  simp only [hnull', hcut', hfirst.eq_of_nil, hliteral]
  rw [run_bind_ok (run_makeFound_failure ((blind_makeFound _ _).run_eq hitem n)),
    run_bind_ok (run_readOperand_literal hv _ item hscalar _), Filter.withLiterals, hvalue]
  rfl

/-- Where a comparison has no placeholder, nothing was drawn, and the text is as it was. -/
theorem readsFilled_plain (h : Fills {} none text filled placed)
    (hplain : ∀ left op right, nullTest? text = none →
      cutFirst? comparisonSpellings text = some (left, op, right) → Text.trim right ≠ ['?']) :
    ReadsFilledFilter values placed (readComparison q clause text) (readComparison q clause filled) := by
  intro s f s' hrun
  obtain ⟨hblind, hread⟩ := readComparison_plain values hplain
  obtain ⟨hcount, hsame⟩ := hread s f s' hrun
  have hkeeps := hblind.keeps hrun
  refine ⟨⟨Nat.le_of_eq hkeeps.symm, by omega, by omega⟩, fun hanswered n => ?_⟩
  have hall := hanswered.all
  obtain rfl : placed = [] := List.length_eq_zero_iff.mp (by omega)
  rw [h.eq_of_nil, hsame]
  exact hblind.run_eq hrun n

/-- **A comparison is read from a filled text** with the literal in the place of its parameter. -/
theorem readsFilled_comparison (h : Fills {} none text filled placed)
    (htext : text = [] ∨ Trimmed text) :
    ReadsFilledFilter values placed (readComparison q clause text) (readComparison q clause filled) := by
  by_cases hparameter : ∃ left op right, nullTest? text = none ∧
      cutFirst? comparisonSpellings text = some (left, op, right) ∧ Text.trim right = ['?']
  · obtain ⟨left, op, right, hnull, hcut, hright⟩ := hparameter
    have htrimmed : Trimmed text := by
      refine htext.resolve_left ?_
      rintro rfl
      cases hcut
    exact readsFilled_placeholder h htrimmed hnull hcut hright
  · exact readsFilled_plain h fun left op right hnull hcut hright =>
      hparameter ⟨left, op, right, hnull, hcut, hright⟩

end Comparisons

/-! ## Filters -/

section Filters

variable {q : Query} {clause : String} {text filled : List Char} {values placed : List Value}

/-- **A filter is read from a filled text** with the literals in the place of its parameters, by
induction on how deep it is nested. -/
theorem readsFilled_filter (depth : Nat) (h : Fills {} none text filled placed)
    (htext : text = [] ∨ Trimmed text) :
    ReadsFilledFilter values placed (readFilter q clause depth text)
      (readFilter q clause depth filled) := by
  induction depth generalizing text filled placed with
  | zero => exact readsFilled_comparison h htext
  | succ depth ih =>
    rw [readFilter, readFilter]
    rcases h.unwrap? with ⟨hunwrap, hunwrap'⟩ | ⟨inner, inner', hunwrap, hunwrap', hinner⟩
    · rw [hunwrap, hunwrap']
      rcases h.connectedParts? with ⟨hparts, hparts'⟩ | ⟨op, parts, parts', hparts, hparts', hfills⟩
      · rw [hparts, hparts']
        exact readsFilled_comparison h htext
      · rw [hparts, hparts']
        obtain ⟨-, d, rfl⟩ := connectedParts?_spec hparts
        have hchildren : ReadsFilledFilters values placed
            ((splitOn d text).mapM (readFilter q clause depth))
            (parts'.mapM (readFilter q clause depth)) :=
          readsFilled_mapM hfills fun part part' placed hmem hpart =>
            ih hpart (Or.inr (trimmed_of_mem_splitOn hmem))
        intro s f s' hrun
        obtain ⟨children, last, hrun', hrun⟩ := run_bind_eq_ok hrun
        cases hrun
        obtain ⟨hdraws, hread⟩ := hchildren s children s' hrun'
        refine ⟨⟨hdraws.grows, hdraws.bounded, hdraws.counted⟩, fun hanswered n => ?_⟩
        rw [run_bind_ok (hread ⟨hanswered.all, hanswered.values, hanswered.scalar⟩ n)]
        rfl
    · rw [hunwrap, hunwrap']
      refine ih hinner ?_
      unfold unwrap? at hunwrap
      split at hunwrap
      next inside _ =>
        cases hunwrap
        by_cases hnil : Text.trim inside = []
        · exact Or.inl hnil
        · exact Or.inr (Text.trimmed_trim hnil)
      next => cases hunwrap

/-- **The filters of a clause are read from a filled clause** with the literals in the place of their
parameters. -/
theorem readsFilled_filters (h : Fills {} none text filled placed) :
    ReadsFilledFilters values placed (readFilters q clause text) (readFilters q clause filled) := by
  -- Both clauses are read with one bound on the nesting, which does for the longer of them.
  have hdepth (w : List Char) (n : Nat) (hn : w.length ≤ n) : readFilters q clause w =
      (splitOn " AND ".toList w).mapM (readFilter q clause n) := by
    refine mapM_congr fun part hpart => (readFilter_depth q clause ?_ hn).symm
    exact length_le_of_mem_splitOn hpart
  rw [hdepth text (text.length + filled.length) (by omega),
    hdepth filled (text.length + filled.length) (by omega)]
  exact readsFilled_mapM (h.splitOn avoidsLiterals_connective.1) fun part part' placed hmem hpart =>
    readsFilled_filter _ hpart (Or.inr (trimmed_of_mem_splitOn hmem))

end Filters

end DocQuery.Grammar
