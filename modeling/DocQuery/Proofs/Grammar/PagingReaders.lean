import DocQuery.Proofs.Grammar.PagingNames

/-!
# DocQuery.Proofs.Grammar.PagingReaders — readers of texts that a phrase of paging shows in

A clause is cut into filters, tokens, sides of joins and names, and a phrase at top level of its text
is in one of them.  Every reader hands the part that has it to another reader, down to a name, or it
gives up.  So whatever a clause with a phrase in it is read as has the phrase in the text of an item,
or a from item names it (`ShowsPaging`, `FromItem.NamesPaging`).
-/

namespace DocQuery.Grammar

/-! ## Readers of texts with a phrase -/

/-- A phrase stands in the text of one of some items, or a from item of a query names one. -/
def ShowsPaging (catalog : Catalog) (p : Paging) (q : Query) (items : List Item) : Prop :=
  (∃ i ∈ items, p.Names i.sql.toList) ∨ ∃ f ∈ q.sources, f.NamesPaging catalog p

section Readers

variable {catalog : Catalog} {p : Paging} {q : Query} {text : List Char}

theorem ShowsPaging.mono {items more : List Item} (h : ShowsPaging catalog p q items)
    (hmore : items ⊆ more) : ShowsPaging catalog p q more :=
  h.imp_left fun ⟨i, hi, hshows⟩ => ⟨i, hmore hi, hshows⟩

theorem ShowsPaging.of_mem {i : Item} {items : List Item} (h : ShowsPaging catalog p q [i])
    (hi : i ∈ items) : ShowsPaging catalog p q items :=
  h.mono (List.cons_subset.mpr ⟨hi, List.nil_subset items⟩)

/-- What a reader yields under a condition. -/
theorem yields_imp {α : Type} {m : Reader α} {C : Prop} {P : α → Prop} (h : C → Yields m P) :
    Yields m fun a => C → P a :=
  fun s a s' hrun hC => h hC s a s' hrun

theorem yields_mapM_of_mem {α β : Type} {f : β → Reader α} {l : List β} {b : β} {P : α → Prop}
    (hb : b ∈ l) (h : Yields (f b) P) : Yields (l.mapM f) fun results => ∃ a ∈ results, P a := by
  induction l with
  | nil => cases hb
  | cons c rest ih =>
    rw [List.mapM_cons]
    rcases List.mem_cons.mp hb with rfl | hmem
    · exact h.bind fun a ha => (yields_true _).bind fun results _ =>
        yields_pure ⟨a, List.mem_cons_self, ha⟩
    · refine (yields_true _).bind fun a _ => (ih hmem).bind fun results hresults => yields_pure ?_
      obtain ⟨a', ha', hP⟩ := hresults
      exact ⟨a', List.mem_cons_of_mem _ ha', hP⟩

variable (catalog) in
/-- A reference with a phrase at top level shows it. -/
theorem yields_shown_reference (h : p.Shows text) (failure : QueryError) :
    Yields (makeFound (resolveReference q text) failure) fun i => ShowsPaging catalog p q [i] :=
  yields_makeFound.mono fun i ⟨pending, n, hfound, hi⟩ => by
    rw [hi]
    exact (holds_of_resolveReference hfound h n).imp_left fun hshows => ⟨_, List.mem_cons_self, hshows⟩

/-- What differs from a text without digits at most in case has no digits. -/
theorem isDigit_of_eqIgnoreCase {u k : List Char} (h : Text.eqIgnoreCase u k = true)
    (hk : ∀ c ∈ k.map Char.toLower, c.isDigit = false) : ∀ c ∈ u, c.isDigit = false := by
  intro c hc
  unfold Text.eqIgnoreCase at h
  exact isDigit_of_toLower (hk _ (beq_iff_eq.mp h ▸ List.mem_map_of_mem hc))

theorem Paging.Shows.of_beforeEnding? {ending left : List Char} (h : p.Shows text)
    (hending : ∀ c ∈ ending.map Char.toLower, c.isDigit = false)
    (hleft : beforeEnding? ending text = some left) : p.Shows left := by
  unfold beforeEnding? at hleft
  dsimp only at hleft
  split_ifs at hleft with hend
  cases hleft
  rw [← List.take_append_drop (text.length - ending.length) text] at h
  exact h.of_ending (isDigit_of_eqIgnoreCase hend.2 hending)

theorem yields_shown_operand (h : p.Shows text) (failure : QueryError) (item : Item) (op : Comparison) :
    Yields (readOperand q failure item op text) fun operand =>
      ShowsPaging catalog p q (Filter.comparisonItems item operand) := by
  have hparameter : text ≠ ['?'] := by
    rintro rfl
    exact absurd (h.holds.mem p.blank_mem_text) (by decide)
  unfold readOperand
  rw [if_neg hparameter, h.unwrap?_eq_none, h.readLiteral?_eq_none]
  dsimp only
  split
  · exact yields_throw failure
  · refine (yields_shown_reference catalog h.trim failure).bind fun other hother => yields_pure ?_
    exact hother.mono (by simp [Filter.comparisonItems])

theorem yields_shown_comparison (h : p.Shows text) (clause : String) :
    Yields (readComparison q clause text) fun f => ShowsPaging catalog p q f.items := by
  have hnull {left : List Char} {op : Comparison} (hleft : nullTest? text = some (left, op)) :
      p.Shows left := by
    rcases (Option.orElse_eq_some _ _ _).mp hleft with hdifferent | ⟨-, hequal⟩
    · obtain ⟨found, hfound, heq⟩ := Option.map_eq_some_iff.mp hdifferent
      cases heq
      exact h.of_beforeEnding? (by decide) hfound
    · obtain ⟨found, hfound, heq⟩ := Option.map_eq_some_iff.mp hequal
      cases heq
      exact h.of_beforeEnding? (by decide) hfound
  unfold readComparison
  dsimp only
  split
  next left op hleft =>
    exact (yields_shown_reference catalog (hnull hleft).trim _).bind fun item hitem => yields_pure hitem
  next =>
    split
    next left op right hcut =>
      rcases h.of_cutComparison? hcut with hleft | hright
      · refine (yields_shown_reference catalog hleft.trim _).bind fun item hitem => ?_
        refine (yields_true _).bind fun operand _ => yields_pure (hitem.mono ?_)
        cases operand <;> simp [Filter.items, Filter.comparisonItems]
      · exact (yields_true _).bind fun item _ =>
          (yields_shown_operand hright.trim _ item op).bind fun operand hoperand => yields_pure hoperand
    next => exact yields_throw _

theorem items_subset_itemsOf {f : Filter} {filters : List Filter} (h : f ∈ filters) :
    f.items ⊆ Filter.itemsOf filters := by
  induction filters with
  | nil => cases h
  | cons g rest ih =>
    rw [Filter.itemsOf]
    rcases List.mem_cons.mp h with rfl | hmem
    · exact List.subset_append_left _ _
    · exact List.Subset.trans (ih hmem) (List.subset_append_right _ _)

variable (catalog) in
/-- **Whatever a filter with a phrase at top level is cut into, a comparison shows it**, by induction on
its depth. -/
theorem yields_shown_filter (h : p.Shows text) (clause : String) (depth : Nat) :
    Yields (readFilter q clause depth text) fun f => ShowsPaging catalog p q f.items := by
  induction depth generalizing text with
  | zero => exact yields_shown_comparison h clause
  | succ depth ih =>
    unfold readFilter
    rw [h.unwrap?_eq_none]
    dsimp only
    split
    next op parts hparts =>
      have hpart : ∃ part ∈ parts, p.Shows part := by
        unfold connectedParts? at hparts
        dsimp only at hparts
        split_ifs at hparts
        · cases hparts
          exact h.of_splitOn (by decide) (by decide)
        · cases hparts
          exact h.of_splitOn (by decide) (by decide)
      obtain ⟨part, hmem, hshows⟩ := hpart
      refine (yields_mapM_of_mem hmem (ih hshows)).bind fun filters hfilters => yields_pure ?_
      obtain ⟨f, hf, hitems⟩ := hfilters
      exact hitems.mono (items_subset_itemsOf hf)
    next => exact yields_shown_comparison h clause

variable (catalog) in
theorem yields_shown_filters (h : p.Shows text) (clause : String) :
    Yields (readFilters q clause text) fun filters =>
      ShowsPaging catalog p q (Filter.itemsOf filters) := by
  obtain ⟨part, hmem, hshows⟩ := h.of_splitOn (d := " AND ".toList) (by decide) (by decide)
  refine (yields_mapM_of_mem hmem (yields_shown_filter catalog hshows clause text.length)).mono ?_
  rintro filters ⟨f, hf, hitems⟩
  exact hitems.mono (items_subset_itemsOf hf)

theorem yields_shown_groupBy (h : p.Shows text) :
    Yields (readGroupBy q text) fun q' => ShowsPaging catalog p q q'.groupBy := by
  obtain ⟨token, hmem, hshows⟩ := h.of_splitOn (d := [',']) (by decide) (by decide)
  unfold readGroupBy
  refine (yields_mapM_of_mem hmem (yields_shown_reference catalog hshows _)).bind ?_
  rintro items ⟨i, hi, hitem⟩
  exact yields_pure (hitem.of_mem hi)

/-- A last word without digits goes from the end of a text. -/
theorem Paging.Shows.of_cutLastSpace? {before word : List Char} (h : p.Shows text)
    (hcut : cutLastSpace? text = some (before, word)) (hword : ∀ c ∈ word, c.isDigit = false) :
    p.Shows before := by
  have htext : text = before ++ ' ' :: word := by
    unfold cutLastSpace? at hcut
    split at hcut
    next after front hreverse =>
      cases hcut
      rw [← text.reverse_reverse, prefix_of_cutAt? hreverse]
      simp
    next => cases hcut
  rw [htext] at h
  exact h.of_ending (List.forall_mem_cons.mpr ⟨rfl, hword⟩)

theorem Paging.Shows.splitDirection (h : p.Shows text) : p.Shows (splitDirection text).1 := by
  unfold Grammar.splitDirection
  split
  next before word hcut =>
    split_ifs with hdown hup
    · exact h.of_cutLastSpace? hcut (isDigit_of_eqIgnoreCase hdown (by decide))
    · exact h.of_cutLastSpace? hcut (isDigit_of_eqIgnoreCase hup (by decide))
    · exact h
  next => exact h

theorem yields_shown_orderBy (h : p.Shows text) :
    Yields (readOrderBy q text) fun q' => ShowsPaging catalog p q (q'.orderBy.map (·.item)) := by
  obtain ⟨token, hmem, hshows⟩ := h.of_splitOn (d := [',']) (by decide) (by decide)
  unfold readOrderBy
  refine (yields_mapM_of_mem (P := fun o : OrderItem => ShowsPaging catalog p q [o.item]) hmem ?_).bind ?_
  · exact (yields_shown_reference catalog hshows.splitDirection _).bind
      fun item hitem => yields_pure hitem
  · rintro items ⟨o, ho, hitem⟩
    exact yields_pure (hitem.of_mem (List.mem_map_of_mem ho))

/-! ### Select items -/

/-- A phrase is in front of an alias, or in an alias, which stands in quotes then. -/
theorem Paging.Shows.splitAlias (h : p.Shows text) :
    p.Shows (splitAlias text).1 ∨ ∃ aliasName ∈ (splitAlias text).2, p.Holds aliasName := by
  unfold Grammar.splitAlias
  split
  next before after hcut =>
    dsimp only
    split_ifs with hwhole
    · exact Or.inl h
    · rcases h.of_cutLastKeyword? (spares_afterKeyword? (by decide)) hcut with hbefore | hafter
      · exact Or.inl hbefore.trim
      · exact Or.inr ⟨_, rfl, hafter.holds.trim.unquoteName⟩
  next => exact Or.inl h

theorem yields_shown_selectToken (hcatalog : catalog.expressions = false)
    (h : p.Shows text) :
    Yields (readSelectToken catalog q text) fun items => ShowsPaging catalog p q items := by
  have hstar : text ≠ ['*'] := by
    rintro rfl
    exact absurd (h.holds.mem p.blank_mem_text) (by decide)
  unfold readSelectToken
  dsimp only
  rw [if_neg hstar]
  split
  next name hname =>
    have hholds := (h.of_beforeEnding? (by decide) hname).holds.unquoteName
    split
    next source hsource =>
      exact (yields_true _).mono fun items _ => Or.inr (q.namesPaging_of_source? hsource hholds)
    next => exact yields_throw _
  next =>
    refine yields_lift.bind fun result hresult => ?_
    cases result with
    | none =>
      dsimp only
      rw [hcatalog]
      exact yields_throw _
    | some pending =>
      refine (yields_make pending).bind ?_
      rintro item ⟨n, rfl⟩
      refine yields_pure ?_
      rcases h.splitAlias with hshows | ⟨aliasName, halias, hholds⟩
      · refine (holds_of_resolveItem hresult hshows n).imp_left fun hitem => ⟨_, List.mem_cons_self, ?_⟩
        split
        · refine Paging.Names.mono ?_ (infix_sql _)
          rwa [sqlWithoutAlias_withAlias]
        · exact hitem.mono (infix_sql _)
      · refine Or.inl ⟨_, List.mem_cons_self, ?_⟩
        rw [Option.mem_def.mp halias]
        exact holds_of_alias rfl (by rw [String.toList_ofList]; exact hholds.names)

theorem Paging.Shows.of_distinct (h : p.Shows text) :
    p.Shows (match afterWord? "DISTINCT".toList text with
      | some rest => (true, rest)
      | none => (false, text)).2 := by
  split
  next rest hrest => exact h.of_afterWord? (by decide) hrest
  next => exact h

theorem yields_shown_select (hcatalog : catalog.expressions = false)
    (h : p.Shows text) :
    Yields (readSelect catalog q text) fun q' => ShowsPaging catalog p q q'.select := by
  obtain ⟨token, hmem, hshows⟩ := h.of_distinct.of_splitOn (d := [',']) (by decide) (by decide)
  unfold readSelect
  dsimp only
  refine (yields_mapM_of_mem hmem (yields_shown_selectToken hcatalog hshows)).bind ?_
  rintro items ⟨l, hl, hitems⟩
  split
  · exact yields_throw _
  · exact yields_pure (hitems.mono fun i hi => List.mem_flatten_of_mem hl hi)

/-! ### From items -/

/-- A phrase in a text behind a from item is in its alias, which stands in quotes then. -/
theorem exists_of_readAlias {token : List Char} {found : Option (List Char)} (h : p.Holds text)
    (hread : readAlias text token = .ok found) :
    ∃ aliasName, found = some aliasName ∧ p.Holds aliasName := by
  unfold readAlias at hread
  dsimp only at hread
  rw [if_neg h.trim.ne_nil] at hread
  split_ifs at hread
  cases hread
  refine ⟨_, rfl, Paging.Holds.unquoteName ?_⟩
  cases hword : afterWord? ['A', 'S'] (Text.trim text) with
  | none => exact h.trim
  | some rest =>
    unfold afterWord? at hword
    split at hword
    next rest' hrest =>
      cases hword
      obtain ⟨d, heq, hd⟩ := afterPattern?_eq_some_iff.mp hrest
      have hholds := h.trim
      rw [heq] at hholds
      have hforeign : ['A', 'S'] ∈ foreignPatterns := by decide
      exact (hholds.of_word hforeign hd).trim
    next => cases hword

theorem namesPaging_of_underAlias {f source : FromItem} {token : List Char} (h : p.Holds text)
    (hsource : underAlias f text token = .ok source) : source.NamesPaging catalog p := by
  unfold underAlias at hsource
  cases hread : readAlias text token with
  | error e =>
    rw [hread] at hsource
    cases hsource
  | ok found =>
    obtain ⟨aliasName, rfl, hholds⟩ := exists_of_readAlias h hread
    rw [hread] at hsource
    cases hsource
    exact FromItem.namesPaging_withAlias (by rw [String.toList_ofList]; exact hholds.names)

theorem not_mem_of_cutAt? {d : Char} {w before after : List Char}
    (h : Text.cutAt? d w = some (before, after)) : d ∉ before := by
  have hmem : d ∈ w := by
    rw [prefix_of_cutAt? h]
    exact List.mem_append_right _ List.mem_cons_self
  obtain ⟨front, behind, rfl, hfront⟩ := List.eq_append_cons_of_mem hmem
  rw [cutAt?_append hfront] at h
  cases h
  exact hfront

/-- A quote stays open as long as what closes it does not come. -/
theorem Scanner.closing_run {s : Scanner} {c : Char} {w : List Char} (hs : s.closing = some c)
    (hw : c ∉ w) : (s.run w).closing = some c := by
  induction w generalizing s with
  | nil => exact hs
  | cons d w ih =>
    rw [List.mem_cons, not_or] at hw
    refine ih ?_ hw.2
    obtain ⟨depth, closing, escaped, unbalanced⟩ := s
    subst hs
    simp only [Scanner.step, if_neg (Ne.symm hw.1)]
    split_ifs <;> rfl

/-- Cut at the first blank, a phrase is behind it, or it is cut between its keyword and the count. -/
theorem Paging.Holds.of_blank {name after : List Char} (h : p.Holds (name ++ ' ' :: after))
    (hname : ' ' ∉ name) : p.Holds after ∨ p.keyword <:+ name ∧ p.count <+: after := by
  obtain ⟨u, v, heq⟩ := h
  rw [List.append_assoc] at heq
  rcases append_cases heq with ⟨z, rfl⟩ | ⟨z, -, hz⟩ | ⟨x, y, htext, -, hy, rfl, hrest⟩
  · exact absurd (List.mem_append_right _ (List.mem_append_left _ p.blank_mem_text)) hname
  · cases z with
    | nil => exact absurd (congrArg List.head? hz).symm (head?_text_append_ne rfl v)
    | cons c z =>
      obtain ⟨-, rfl⟩ := List.cons.inj hz
      exact Or.inl ⟨z, v, List.append_assoc ..⟩
  · obtain ⟨c, y, rfl⟩ := List.exists_cons_of_ne_nil hy
    obtain ⟨rfl, -⟩ := List.cons.inj hrest
    have hx : ' ' ∉ x := fun hmem => hname (List.mem_append_right _ hmem)
    have hkeyword : ' ' ∉ p.keyword := fun hmem => absurd (p.isAlpha_keyword _ hmem) (by decide)
    -- Both sides are cut at the one blank of the phrase.
    have hcut := cutAt?_append hkeyword p.count
    rw [← text, htext, cutAt?_append hx] at hcut
    cases hcut
    exact Or.inr ⟨List.suffix_append u p.keyword, v, (List.cons.inj hrest).2.symm⟩

/-- No quote belongs to a phrase. -/
theorem Paging.quotes_not_mem_text (p : Paging) {opening closing : Char}
    (hcloser : Scanner.closer? opening = some closing) : opening ∉ p.text ∧ closing ∉ p.text := by
  have hopen : ∀ c ∈ ['\'', '"', '\x60', '['], c.isAlpha = false ∧ c ≠ ' ' ∧ c.isDigit = false := by
    decide
  have hclose : ∀ c ∈ ['\'', '"', '\x60', ']'], c.isAlpha = false ∧ c ≠ ' ' ∧ c.isDigit = false := by
    decide
  obtain ⟨hopening, hclosing⟩ := mem_closers hcloser
  obtain ⟨halpha, hblank, hdigit⟩ := hopen opening hopening
  obtain ⟨halpha', hblank', hdigit'⟩ := hclose closing hclosing
  exact ⟨not_mem_text halpha hblank hdigit, not_mem_text halpha' hblank' hdigit'⟩

/-- A name in quotes ends at a place where nothing is open, so a phrase is behind it. -/
theorem Paging.Shows.of_quotedName {opening closing : Char} {name after : List Char}
    (hcloser : Scanner.closer? opening = some closing)
    (h : p.Shows (opening :: (name ++ closing :: after))) (hname : closing ∉ name) : p.Holds after := by
  have hquotes := p.quotes_not_mem_text hcloser
  obtain ⟨u, v, heq, hu⟩ := h
  have heq : u ++ (p.text ++ v) = opening :: name ++ [closing] ++ after := by
    rw [← heq]
    simp
  rcases append_cases heq with ⟨z, hz⟩ | ⟨z, -, rfl⟩ | ⟨x, y, htext, hx, -, hlast, -⟩
  · exfalso
    cases u with
    | nil =>
      obtain ⟨c, t, htext, -⟩ := p.exists_text_cons
      rw [htext] at hz hquotes
      obtain ⟨rfl, -⟩ := List.cons.inj hz
      exact hquotes.1 List.mem_cons_self
    | cons c u =>
      -- The quote is still open where the phrase would begin.
      rw [List.cons_append, List.cons_append, List.cons.injEq] at hz
      obtain ⟨rfl, hrest⟩ := hz
      have hfront := congrArg List.dropLast hrest
      rw [List.dropLast_concat, List.dropLast_append_of_ne_nil (by simp [p.text_ne_nil])] at hfront
      have hu' : closing ∉ u := fun hmem => hname (hfront ▸ List.mem_append_left _ hmem)
      unfold Balanced at hu
      rw [Scanner.run_cons, step_opening hcloser] at hu
      have hclosing := Scanner.closing_run (s := { closing := some closing }) rfl hu'
      rw [hu] at hclosing
      cases hclosing
  · exact ⟨z, v, List.append_assoc ..⟩
  · have hmem : closing ∈ x := by
      have hend := congrArg List.getLast? hlast
      rw [List.getLast?_append_of_ne_nil _ (List.cons_ne_nil _ _),
        List.getLast?_append_of_ne_nil _ hx] at hend
      exact List.mem_of_getLast? hend.symm
    exact absurd (htext ▸ List.mem_append_left _ hmem) hquotes.2

/-- A name that is not in quotes stays as it is. -/
theorem unquoteName_of_open {name : List Char} (htrimmed : Text.Trimmed name)
    (h : isQuotedName name = false) : unquoteName name = name := by
  unfold unquoteName
  rw [htrimmed.trim_eq]
  simp [h]

/-- A word is no name in quotes. -/
theorem unquoteName_of_suffix {name keyword : List Char} (h : keyword <:+ name) (hne : keyword ≠ [])
    (hkeyword : ∀ c ∈ keyword, c.isAlpha = true) (hfirst : ∀ c ∈ name.head?, Text.isBlank c = false) :
    unquoteName name = name := by
  have hlast : ∀ c ∈ name.getLast?, c.isAlpha = true := by
    obtain ⟨front, rfl⟩ := h
    rw [List.getLast?_append_of_ne_nil _ hne]
    exact fun c hc => hkeyword c (List.mem_of_getLast? hc)
  refine unquoteName_of_open
    { nonempty := fun hnil => hne (List.suffix_nil.mp (hnil ▸ h))
      first := hfirst
      last := fun c hc => isBlank_of_isWordChar (isWordChar_of_isAlpha (hlast c hc)) } ?_
  rw [Bool.eq_false_iff]
  intro hquoted
  obtain ⟨opening, closing, inner, heq, -, -, hclosing, -⟩ := exists_of_isQuotedName hquoted
  rw [heq, ← List.cons_append, List.getLast?_concat] at hlast
  rw [hlast closing rfl] at hclosing
  cases hclosing

/-- A count at the start of a text stays there when the text is trimmed. -/
theorem prefix_trim {count : List Char} (hne : count ≠ []) (hcount : ∀ c ∈ count, c.isDigit = true)
    (h : count <+: text) : count <+: Text.trim text := by
  have hblank {c : Char} (hc : c ∈ count) (h : Text.isBlank c = true) : False := by
    rw [isBlank_of_isWordChar (isWordChar_of_isDigit (hcount c hc))] at h
    cases h
  obtain ⟨rest, rfl⟩ := h
  obtain ⟨front, behind, heq, hfront, hbehind⟩ := Text.exists_eq_trim (count ++ rest)
  have hnone : front = [] := by
    cases front with
    | nil => rfl
    | cons c front =>
      obtain ⟨d, count, rfl⟩ := List.exists_cons_of_ne_nil hne
      obtain ⟨rfl, -⟩ := List.cons.inj heq
      exact (hblank List.mem_cons_self (hfront d List.mem_cons_self)).elim
  rw [hnone, List.nil_append] at heq
  rcases List.append_eq_append_iff.mp heq with ⟨z, hz, -⟩ | ⟨z, hz, rfl⟩
  · exact ⟨z, hz.symm⟩
  · cases z with
    | nil =>
      rw [List.append_nil] at hz
      exact hz ▸ List.prefix_refl _
    | cons c z =>
      have hmem : c ∈ count := hz ▸ List.mem_append_right _ List.mem_cons_self
      exact (hblank hmem (hbehind c List.mem_cons_self)).elim

/-- A count behind the name of a table begins its alias. -/
theorem exists_of_readAlias_count {token : List Char} {found : Option (List Char)} (h : p.count <+: text)
    (hread : readAlias text token = .ok found) :
    ∃ aliasName, found = some aliasName ∧ p.count <+: aliasName := by
  have hprefix := prefix_trim p.nonempty p.digits h
  obtain ⟨c, count, hcount⟩ := List.exists_cons_of_ne_nil p.nonempty
  have hdigit : c.isDigit = true := p.digits c (hcount ▸ List.mem_cons_self)
  obtain ⟨rest, htext⟩ := hprefix
  have hstart : Text.trim text = c :: (count ++ rest) := by rw [← htext, hcount, List.cons_append]
  have hword : afterWord? ['A', 'S'] (Text.trim text) = none := by
    have hne : 'A'.toLower ≠ c.toLower := by
      rw [toLower_of_isAlpha_eq_false (isAlpha_eq_false_of_isDigit hdigit)]
      rintro rfl
      cases hdigit
    rw [hstart, afterWord?, afterPattern?, if_neg hne]
  have hopen : isQuotedName (Text.trim text) = false := by
    rw [Bool.eq_false_iff]
    intro hquoted
    obtain ⟨opening, closing, inner, heq, -, hopening, -⟩ := exists_of_isQuotedName hquoted
    rw [hstart] at heq
    obtain ⟨rfl, -⟩ := List.cons.inj heq
    rw [hdigit] at hopening
    cases hopening
  have hne : Text.trim text ≠ [] := by
    rw [hstart]
    exact List.cons_ne_nil _ _
  unfold readAlias at hread
  dsimp only at hread
  rw [if_neg hne, hword, Option.getD_none, unquoteName_of_open (Text.trimmed_trim hne) hopen] at hread
  split_ifs at hread
  cases hread
  exact ⟨_, rfl, rest, htext⟩

/-- A phrase in a text that begins with the name of a table is behind the name, or the name ends in the
keyword of the phrase and the count follows. -/
theorem Paging.Shows.of_splitTableName (h : p.Shows text) (htrimmed : Text.Trimmed text) :
    p.Holds (splitTableName text).2 ∨
      p.keyword <:+ unquoteName (splitTableName text).1 ∧ p.count <+: (splitTableName text).2 := by
  have hspace : p.Holds ((Text.cutAt? ' ' text).getD (text, [])).2 ∨
      p.keyword <:+ unquoteName ((Text.cutAt? ' ' text).getD (text, [])).1 ∧
        p.count <+: ((Text.cutAt? ' ' text).getD (text, [])).2 := by
    obtain ⟨name, after, rfl, hname⟩ := List.eq_append_cons_of_mem (h.holds.mem p.blank_mem_text)
    rw [cutAt?_append hname, Option.getD_some]
    refine (h.holds.of_blank hname).imp_right fun ⟨hsuffix, hcount⟩ => ⟨?_, hcount⟩
    rw [unquoteName_of_suffix hsuffix p.keyword_ne_nil p.isAlpha_keyword fun c hc => htrimmed.first c ?_]
    · exact hsuffix
    · rw [List.head?_append, Option.mem_def.mp hc]
      rfl
  unfold splitTableName
  dsimp only
  cases text with
  | nil => exact absurd rfl htrimmed.nonempty
  | cons c rest =>
    dsimp only
    split_ifs
    · exact hspace
    · split
      next closing name after hcut =>
        obtain ⟨closing', hcloser, hmap⟩ := Option.bind_eq_some_iff.mp hcut
        obtain ⟨⟨name', after'⟩, hat, heq⟩ := Option.map_eq_some_iff.mp hmap
        cases heq
        rw [prefix_of_cutAt? hat] at h
        exact Or.inl (h.of_quotedName hcloser (not_mem_of_cutAt? hat))
      next => exact hspace

/-- A table whose name ends in the keyword of a phrase takes the count behind it for its alias. -/
theorem takesPaging_of_underAlias {name : String} {t : Table} {f : FromItem} {token : List Char}
    (ht : catalog.table? name = some t) (hname : p.keyword <:+ name.toList) (hcount : p.count <+: text)
    (hf : underAlias (.table t none) text token = .ok f) : f.TakesPaging catalog p := by
  unfold underAlias at hf
  cases hread : readAlias text token with
  | error e =>
    rw [hread] at hf
    cases hf
  | ok found =>
    obtain ⟨aliasName, rfl, hprefix⟩ := exists_of_readAlias_count hcount hread
    rw [hread] at hf
    cases hf
    exact ⟨name, t, String.ofList aliasName, ht, rfl, hname, by rwa [String.toList_ofList]⟩

/-- **A from item without joins takes a phrase at top level in its alias only**, or in the name of a table
and its alias. -/
theorem yields_named_simple (depth : Nat) (h : p.Shows text) :
    Yields (readSimple catalog depth text) (FromItem.NamesPaging catalog p) := by
  have htrimmed := Text.trimmed_trim h.trim.holds.ne_nil
  rw [readSimple.eq_def]
  dsimp only
  split
  · split
    next depth inside after hparentheses =>
      have hafter := h.trim.of_parenthesized? hparentheses
      have halias (source : FromItem) : Yields
          (liftM (underAlias source after (Text.trim text)) : Reader FromItem)
          (FromItem.NamesPaging catalog p) :=
        yields_lift.mono fun f hf => namesPaging_of_underAlias hafter hf
      split
      · exact (yields_true _).bind fun inner _ => halias _
      · exact (yields_true _).bind fun source _ => halias source
    next => exact yields_throw _
  · split
    · exact yields_throw _
    · split
      next t ht =>
        rcases h.trim.of_splitTableName htrimmed with hafter | ⟨hname, hcount⟩
        · exact yields_lift.mono fun f hf => namesPaging_of_underAlias hafter hf
        · refine yields_lift.mono fun f hf => Or.inr ⟨f, f.mem_parts_self, Or.inr ?_⟩
          exact takesPaging_of_underAlias ht (by rwa [String.toList_ofList]) hcount hf
      next => exact yields_throw _

/-! ### Joins -/

theorem Paging.Shows.exists_isDigit (h : p.Shows text) : ∃ c ∈ text, c.isDigit = true := by
  obtain ⟨c, hc, hdigit⟩ := Paging.exists_isDigit (p := p) (x := []) rfl p.text_ne_nil
  exact ⟨c, h.holds.mem hc, hdigit⟩

theorem Paging.Shows.splitLastWord (h : p.Shows text)
    (hword : ∀ c ∈ (splitLastWord text).2, c.isDigit = false) : p.Shows (splitLastWord text).1 := by
  unfold Grammar.splitLastWord at hword ⊢
  split at hword
  next rest word hcut => exact (h.of_cutLastSpace? hcut hword).trim
  next =>
    obtain ⟨c, hc, hdigit⟩ := h.exists_isDigit
    rw [hword c hc] at hdigit
    cases hdigit

/-- The word for a kind of join has no digits. -/
theorem isDigit_of_ofKeyword? {word : List Char} {kind : JoinKind}
    (h : JoinKind.ofKeyword? word = some kind) : ∀ c ∈ word, c.isDigit = false := by
  intro c hc
  by_contra hdigit
  rw [Bool.not_eq_false] at hdigit
  have hsql : kind.sql = String.ofList (Text.upper (Text.trim word)) := by
    have htest := List.find?_some h
    exact beq_iff_eq.mp htest
  have hupper : c.toUpper = c := by
    have hrange := isDigit_range hdigit
    have hall : ∀ n < 58, 48 ≤ n → (Char.ofNat n).toUpper = Char.ofNat n := by decide
    have hc := hall c.toNat (by omega) hrange.1
    rwa [Char.ofNat_toNat] at hc
  have hmem : c ∈ kind.sql.toList := by
    rw [hsql, String.toList_ofList]
    exact List.mem_map.mpr ⟨c, mem_trim hc (isBlank_of_isWordChar (isWordChar_of_isDigit hdigit)), hupper⟩
  have hall : ∀ kind : JoinKind, ∀ c ∈ kind.sql.toList, c.isDigit = false := by
    rintro (_ | _ | _) <;> decide
  rw [hall kind c hmem] at hdigit
  cases hdigit

/-- The words for the kind of a join go from the end of a text. -/
theorem Paging.Shows.of_splitJoinKind {token rest : List Char} {kind : JoinKind} (h : p.Shows text)
    (hkind : splitJoinKind text token = .ok (rest, kind)) : p.Shows rest := by
  unfold splitJoinKind at hkind
  dsimp only at hkind
  generalize houter : Text.eqIgnoreCase (Grammar.splitLastWord (Text.trim text)).2 "OUTER".toList = outer
    at hkind
  generalize hwords : (if outer then Grammar.splitLastWord (Grammar.splitLastWord (Text.trim text)).1
    else Grammar.splitLastWord (Text.trim text)) = words at hkind
  -- The word that tells the kind is the last one, or the one in front of OUTER.
  have hshows (hdigits : ∀ c ∈ words.2, c.isDigit = false) : p.Shows words.1 := by
    rw [← hwords] at hdigits ⊢
    cases outer with
    | true =>
      exact (h.trim.splitLastWord (isDigit_of_eqIgnoreCase houter (by decide))).splitLastWord hdigits
    | false => exact h.trim.splitLastWord hdigits
  split at hkind
  next hword =>
    split_ifs at hkind
    cases hkind
    exact hshows (isDigit_of_ofKeyword? hword)
  next found _ hword =>
    cases hkind
    exact hshows (isDigit_of_ofKeyword? hword)
  next =>
    split_ifs at hkind
    cases hkind
    exact h.trim

theorem yields_shown_condition {right : FromItem} (h : p.Shows text) :
    Yields (readCondition q right text) fun c => ShowsPaging catalog p q [c.1, c.2] := by
  have hcolumn {name : List Char} (hname : p.Shows name) (failure : QueryError) :
      Yields (makeFound (resolveColumn q (unquoteName name)) failure) fun i =>
        ShowsPaging catalog p q [i] :=
    yields_makeFound.mono fun i ⟨pending, n, hfound, hi⟩ => by
      rw [hi]
      refine (holds_of_resolveColumn hfound hname.holds.unquoteName n).imp_left fun hshows => ?_
      exact ⟨_, List.mem_cons_self, hshows.mono (infix_sql _)⟩
  unfold readCondition
  rw [h.unwrap?_eq_none, Option.getD_none]
  dsimp only
  split
  next => exact yields_throw _
  next before after hcut =>
    rcases h.of_cutPattern? (d := ['=']) (by decide) (by decide) hcut with hbefore | hafter
    · refine (hcolumn hbefore _).bind fun first hfirst => ?_
      refine (yields_true _).bind fun second _ => yields_pure ?_
      split <;> exact hfirst.of_mem (by simp)
    · refine (yields_true _).bind fun first _ => ?_
      refine (hcolumn hafter _).bind fun second hsecond => yields_pure ?_
      split <;> exact hsecond.of_mem (by simp)

variable (catalog) in
theorem yields_shown_conditions {left right : FromItem} (h : p.Shows text) :
    Yields (readConditions q left right text) fun conditions => ∃ c ∈ conditions,
      ShowsPaging catalog p { q with sources := q.sources ++ [left, right] } [c.1, c.2] := by
  unfold readConditions
  rw [h.unwrap?_eq_none, Option.getD_none]
  obtain ⟨part, hmem, hshows⟩ := h.of_splitOn (d := " AND ".toList) (by decide) (by decide)
  exact yields_mapM_of_mem hmem (yields_shown_condition hshows)

/-- A join names a phrase if a side of it does, or if a condition shows it. -/
theorem namesPaging_join {left right : FromItem} {conditions : List (Item × Item)} {kind : JoinKind}
    {aliasName : Option String} (h : left.NamesPaging catalog p ∨ right.NamesPaging catalog p ∨
      ∃ c ∈ conditions, ∃ i ∈ [c.1, c.2], p.Names i.sql.toList) :
    (FromItem.join kind left right conditions aliasName).NamesPaging catalog p := by
  have hleft : left.parts ⊆ (FromItem.join kind left right conditions aliasName).parts :=
    fun g hg => List.mem_cons_of_mem _ (List.mem_append_left _ hg)
  have hright : right.parts ⊆ (FromItem.join kind left right conditions aliasName).parts :=
    fun g hg => List.mem_cons_of_mem _ (List.mem_append_right _ hg)
  rcases h with
    (⟨i, hi, hholds⟩ | ⟨g, hg, hlabel⟩) | (⟨i, hi, hholds⟩ | ⟨g, hg, hlabel⟩) | ⟨c, hc, i, hi, hholds⟩
  · exact Or.inl ⟨i, List.mem_append_left _ (List.mem_append_left _ hi), hholds⟩
  · exact Or.inr ⟨g, hleft hg, hlabel⟩
  · exact Or.inl ⟨i, List.mem_append_left _ (List.mem_append_right _ hi), hholds⟩
  · exact Or.inr ⟨g, hright hg, hlabel⟩
  · exact Or.inl ⟨i, List.mem_append_right _ (List.mem_flatMap.mpr ⟨c, hc, hi⟩), hholds⟩

/-- A condition of a join that shows a phrase makes the join name it, unless a from item in front does. -/
theorem namesPaging_of_conditions {left right : FromItem} {conditions : List (Item × Item)}
    {kind : JoinKind} {aliasName : Option String} (h : ∃ c ∈ conditions,
      ShowsPaging catalog p { q with sources := q.sources ++ [left, right] } [c.1, c.2]) :
    (FromItem.join kind left right conditions aliasName).NamesPaging catalog p ∨
      ∃ f ∈ q.sources, f.NamesPaging catalog p := by
  obtain ⟨c, hc, ⟨i, hi, hholds⟩ | ⟨f, hf, hnames⟩⟩ := h
  · exact Or.inl (namesPaging_join (Or.inr (Or.inr ⟨c, hc, i, hi, hholds⟩)))
  · rcases List.mem_append.mp hf with hsource | hside
    · exact Or.inr ⟨f, hsource, hnames⟩
    · rw [List.mem_pair] at hside
      rcases hside with rfl | rfl
      · exact Or.inl (namesPaging_join (Or.inl hnames))
      · exact Or.inl (namesPaging_join (Or.inr (Or.inl hnames)))

section Chains

variable {simple : List Char → Reader FromItem}
  (hsimple : ∀ {text : List Char}, p.Shows text → Yields (simple text) (FromItem.NamesPaging catalog p))

include hsimple

/-- One join of a chain, if the joins behind it are read over all that names the phrase. -/
theorem yields_named_join {token part : List Char} {left : FromItem} {kind next : JoinKind}
    {parts : List (List Char)}
    (hlater : ∀ join : FromItem, join.NamesPaging catalog p ∨ (∃ part ∈ parts, p.Shows part) ∨
      (∃ f ∈ q.sources, f.NamesPaging catalog p) → Yields (readJoins simple q token join next parts)
        fun f => f.NamesPaging catalog p ∨ ∃ f ∈ q.sources, f.NamesPaging catalog p)
    (h : left.NamesPaging catalog p ∨ p.Shows part ∨ (∃ part ∈ parts, p.Shows part) ∨
      ∃ f ∈ q.sources, f.NamesPaging catalog p) :
    Yields (do
      match cutKeyword? ['O', 'N'] none part with
      | none => throw (.missingOn (String.ofList token))
      | some (rightText, conditions) =>
        let right ← simple rightText
        let conditions ← readConditions q left right (Text.trim conditions)
        let join ← (FromItem.join? kind left right (conditions.map (·.1))
          (conditions.map (·.2)) : Except QueryError FromItem)
        readJoins simple q token join next parts) fun f =>
      f.NamesPaging catalog p ∨ ∃ f ∈ q.sources, f.NamesPaging catalog p := by
  split
  next => exact yields_throw _
  next rightText conditions hcut =>
    refine (yields_imp hsimple).bind fun right hright => ?_
    refine (yields_imp fun h : p.Shows conditions => yields_shown_conditions catalog h.trim).bind ?_
    intro pairs hpairs
    refine yields_lift.bind fun join hmade => hlater join ?_
    obtain ⟨-, rfl⟩ := join?_eq_ok hmade
    rcases h with hleft | hshows | hrest
    · exact Or.inl (namesPaging_join (Or.inl hleft))
    · rcases hshows.of_cutKeyword? (by decide) hcut with hfront | hbehind
      · exact Or.inl (namesPaging_join (Or.inr (Or.inl (hright hfront))))
      · exact (namesPaging_of_conditions (hpairs hbehind)).imp_right Or.inr
    · exact Or.inr hrest

/-- **A chain of joins names a phrase that one of its parts shows**, unless a from item in front does, by
induction on the parts. -/
theorem yields_named_joins {token : List Char} {left : FromItem} {kind : JoinKind}
    {parts : List (List Char)} (h : left.NamesPaging catalog p ∨ (∃ part ∈ parts, p.Shows part) ∨
      ∃ f ∈ q.sources, f.NamesPaging catalog p) :
    Yields (readJoins simple q token left kind parts) fun f =>
      f.NamesPaging catalog p ∨ ∃ f ∈ q.sources, f.NamesPaging catalog p := by
  induction parts generalizing left kind with
  | nil =>
    refine yields_pure (h.imp_right fun h => h.resolve_left ?_)
    rintro ⟨part, hpart, -⟩
    cases hpart
  | cons part parts ih =>
    -- The part without the words for the next join is read alike, whether there are any or not.
    have hparts {part' : List Char} (hpart : p.Shows part → p.Shows part') :
        left.NamesPaging catalog p ∨ p.Shows part' ∨ (∃ part ∈ parts, p.Shows part) ∨
          ∃ f ∈ q.sources, f.NamesPaging catalog p := by
      rcases h with hleft | ⟨shown, hmem, hshows⟩ | hsources
      · exact Or.inl hleft
      · rcases List.mem_cons.mp hmem with rfl | hlater
        · exact Or.inr (Or.inl (hpart hshows))
        · exact Or.inr (Or.inr (Or.inl ⟨shown, hlater, hshows⟩))
      · exact Or.inr (Or.inr (Or.inr hsources))
    unfold readJoins
    split
    · refine (yields_pure (P := fun found => p.Shows part → p.Shows found.1) fun hp => hp.trim).bind ?_
      rintro ⟨part', next⟩ hpart
      exact yields_named_join hsimple (fun join hjoin => ih hjoin) (hparts hpart)
    · refine (yields_lift.mono fun found hfound (hp : p.Shows part) => hp.of_splitJoinKind hfound).bind ?_
      rintro ⟨part', next⟩ hpart
      exact yields_named_join hsimple (fun join hjoin => ih hjoin) (hparts hpart)

theorem yields_named_fromItem (h : p.Shows text) : Yields (readFromItem simple q text) fun f =>
    f.NamesPaging catalog p ∨ ∃ f ∈ q.sources, f.NamesPaging catalog p := by
  unfold readFromItem
  split
  next first part parts hsplit =>
    have hforeign : "JOIN".toList ∈ foreignPatterns := by decide
    obtain ⟨shown, hmem, hshows⟩ := h.of_splitKeyword hforeign
    rw [hsplit] at hmem
    refine (yields_lift.mono fun found hfound (h : p.Shows first) => h.of_splitJoinKind hfound).bind ?_
    rintro ⟨first', kind⟩ hfirst
    refine (yields_imp hsimple).bind fun left hleft => yields_named_joins hsimple ?_
    rcases List.mem_cons.mp hmem with rfl | hlater
    · exact Or.inl (hleft (hfirst hshows))
    · exact Or.inr (Or.inl ⟨shown, hlater, hshows⟩)
  next => exact (hsimple h).mono fun f hf => Or.inl hf

/-- **From items name a phrase that one of their texts shows**, by induction on the texts. -/
theorem yields_named_fromItems {tokens : List (List Char)}
    (h : (∃ token ∈ tokens, p.Shows token) ∨ ∃ f ∈ q.sources, f.NamesPaging catalog p) :
    Yields (readFromItems simple q tokens) fun q' => ∃ f ∈ q'.sources, f.NamesPaging catalog p := by
  induction tokens generalizing q with
  | nil =>
    refine yields_pure (h.resolve_left ?_)
    rintro ⟨token, hmem, -⟩
    cases hmem
  | cons token rest ih =>
    unfold readFromItems
    refine (yields_imp fun h : p.Shows token => yields_named_fromItem hsimple h).bind ?_
    refine fun source hsource => ih ?_
    have hfront (h : ∃ f ∈ q.sources, f.NamesPaging catalog p) :
        ∃ f ∈ q.sources ++ [source], f.NamesPaging catalog p := by
      obtain ⟨f, hf, hnames⟩ := h
      exact ⟨f, List.mem_append_left _ hf, hnames⟩
    rcases h with ⟨shown, hmem, hshows⟩ | hsources
    · rcases List.mem_cons.mp hmem with rfl | hlater
      · refine Or.inr ((hsource hshows).elim (fun hnames => ?_) hfront)
        exact ⟨source, List.mem_append_right _ List.mem_cons_self, hnames⟩
      · exact Or.inl ⟨shown, hlater, hshows⟩
    · exact Or.inr (hfront hsources)

end Chains

end Readers

end DocQuery.Grammar
