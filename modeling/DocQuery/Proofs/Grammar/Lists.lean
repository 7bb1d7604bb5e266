import DocQuery.Proofs.Grammar.Parts

/-!
# DocQuery.Proofs.Grammar.Lists — lists of a query text, joined and split again

The clauses of a query hold lists: items with a comma and a space between neighbours, conditions with
AND between spaces.  What may stand in a list is said without the search that takes it apart: a text
with no blank at its ends, after which the scanner is where it began (`Listable`).  Such texts, blanks
and quotes within them as they may be, are found again between commas exactly if none of them shows a
comma at top level, and between ANDs if none of them shows that word there (`splitOn_joinWith`).
-/

namespace DocQuery.Grammar

open Text (Trimmed isBlank)

/-! ## What a list can hold -/

/-- A text that can stand in a list: there is something in it and no blank at its ends, it ends outside
of quotes with no parenthesis open, and it closes none that was not open. -/
structure Listable (w : List Char) : Prop where
  trimmed : Trimmed w
  topLevel : (Scanner.run {} w).isTopLevel = true
  matched : (Scanner.run {} w).unbalanced = false

theorem Listable.balanced {w : List Char} (h : Listable w) : Balanced w :=
  (Scanner.sound_start.run w).eq_start h.topLevel h.matched

theorem balanced_intercalate {d : List Char} {parts : List (List Char)} (hd : Balanced d)
    (h : ∀ w ∈ parts, Balanced w) : Balanced (d.intercalate parts) := by
  induction parts with
  | nil => exact Balanced.nil
  | cons w parts ih =>
    obtain ⟨hw, hparts⟩ := List.forall_mem_cons.mp h
    cases parts with
    | nil => simpa using hw
    | cons v parts =>
      rw [List.intercalate_cons_cons]
      exact (hw.append hd).append (ih hparts)

/-! ## What is split off -/

section Commas

variable {s : Scanner} {w : List Char}

/-- Whether a text shows no comma has nothing to do with what stands in front of it. -/
theorem clear_comma_of_topAll {before : Option Char} (h : TopAll (Harmless [','] []) {} before w) :
    Clear [','] [] w := by
  cases w with
  | nil => trivial
  | cons c w => exact ⟨fun htop => ⟨(h.1 htop).1, fun _ => List.forall_mem_nil _⟩, h.2⟩

theorem Clear.trim_comma (h : Clear [','] [] w) : Clear [','] [] (Text.trim w) := by
  obtain ⟨u, v, hw, hu, -⟩ := Text.exists_eq_trim w
  rw [hw] at h
  have hrest := (TopAll.append_iff.mp h).2
  rw [Scanner.run_blanks rfl hu] at hrest
  have hmiddle := (TopAll.append_iff.mp hrest).1
  refine clear_comma_of_topAll (hmiddle.mono fun before t ht hshown => ⟨?_, fun _ => List.forall_mem_nil _⟩)
  obtain ⟨c, t, rfl⟩ := List.exists_cons_of_ne_nil ht
  exact hshown.1

/-- A comma at top level ends a part, so no part shows one; the first part goes on where the scanner
is. -/
theorem topAll_splitTop_comma (hs : s.Sound) (hmatched : (s.run w).unbalanced = false)
    (before : Option Char) :
    ∃ part parts, splitTop (fun _ t => afterPattern? [','] t) s 0 before w = part :: parts ∧
      TopAll (Harmless [','] []) s before part ∧ ∀ q ∈ parts, Clear [','] [] q := by
  induction w generalizing s before with
  | nil => exact ⟨[], [], rfl, trivial, List.forall_mem_nil _⟩
  | cons c w ih =>
    by_cases hcut : s.isTopLevel = true ∧ c = ','
    · obtain ⟨htop, rfl⟩ := hcut
      obtain rfl := hs.eq_start htop (Scanner.run_unbalanced hmatched)
      obtain ⟨part, parts, hsplit, hpart, hparts⟩ := ih hs hmatched (some ',')
      refine ⟨[], part :: parts, ?_, trivial, List.forall_mem_cons.mpr
        ⟨clear_comma_of_topAll hpart, hparts⟩⟩
      have hdelimiter : splitTop (fun _ t => afterPattern? [','] t) {} 0 before (',' :: w) =
          [] :: splitTop (fun _ t => afterPattern? [','] t) {} 0 (some ',') w :=
        splitTop_delimiter (d := [',']) htop (List.cons_ne_nil _ _) (by decide) rfl
      exact hdelimiter.trans (congrArg _ hsplit)
    · have hnone : (if s.isTopLevel then afterPattern? [','] (c :: w) else none) = none := by
        split_ifs with htop
        · have hc : ¬ ','.toLower = c.toLower := fun hlower =>
            hcut ⟨htop, eq_of_toLower_eq rfl hlower.symm⟩
          exact if_neg hc
        · rfl
      obtain ⟨part, parts, hsplit, hpart, hparts⟩ := ih (hs.step c) hmatched (some c)
      refine ⟨c :: part, parts, ?_, ⟨fun htop => ⟨?_, fun _ => List.forall_mem_nil _⟩, hpart⟩, hparts⟩
      · rw [splitTop, hnone, hsplit]
        rfl
      · rintro d ⟨⟩ hmem
        exact hcut ⟨htop, List.mem_singleton.mp hmem⟩

/-- **What is split off between commas shows none.** -/
theorem clear_of_mem_splitOn_comma (hw : Balanced w) {part : List Char}
    (hpart : part ∈ splitOn [','] w) : Clear [','] [] part := by
  obtain ⟨first, parts, hsplit, hfirst, hparts⟩ :=
    topAll_splitTop_comma Scanner.sound_start (by rw [hw]) (w := w) none
  obtain ⟨hmem, -⟩ := List.mem_filter.mp hpart
  rw [hsplit] at hmem
  obtain ⟨raw, hraw, rfl⟩ := List.mem_map.mp hmem
  rcases List.mem_cons.mp hraw with rfl | hraw
  · exact Clear.trim_comma hfirst
  · exact (hparts raw hraw).trim_comma

end Commas

/-! ## Lists joined and split -/

theorem splitOn_comma_intercalate_iff {parts : List (List Char)} (h : ∀ w ∈ parts, Listable w) :
    splitOn [','] ([',', ' '].intercalate parts) = parts ↔ ∀ w ∈ parts, Clear [','] [] w := by
  constructor
  · intro hsplit w hw
    have hbalanced : Balanced ([',', ' '].intercalate parts) :=
      balanced_intercalate rfl fun v hv => (h v hv).balanced
    rw [← hsplit] at hw
    exact clear_of_mem_splitOn_comma hbalanced hw
  · intro hclear
    exact splitOn_comma_intercalate (fun w hw => (h w hw).trimmed) fun w hw =>
      unsplit_comma (h w hw).balanced (hclear w hw) (List.mem_singleton_self _)

theorem splitOn_and_intercalate {parts : List (List Char)} (h : ∀ w ∈ parts, Listable w)
    (hclear : ∀ w ∈ parts, Clear [] ["AND".toList] w) :
    splitOn " AND ".toList (" AND ".toList.intercalate parts) = parts := by
  have hword : IsWord "AND".toList := isWord_of_all (by decide) (by decide)
  exact splitOn_connective_intercalate hword (fun w hw => (h w hw).trimmed) fun w hw =>
    unsplit_connective hword (h w hw).trimmed (h w hw).balanced (hclear w hw)
      (List.mem_singleton_self _)

/-- **Splitting undoes joining.**  Texts that can stand in a list are found again, each as it was and in
their order: between commas exactly if none of them shows a comma at top level, and between ANDs if
none of them shows that word there, in any case. -/
theorem splitOn_joinWith {parts : List String} (h : ∀ part ∈ parts, Listable part.toList) :
    (splitOn [','] (Text.joinWith ", " parts).toList = parts.map String.toList ↔
      ∀ part ∈ parts, Clear [','] [] part.toList) ∧
    ((∀ part ∈ parts, Clear [] ["AND".toList] part.toList) →
      splitOn " AND ".toList (Text.joinWith " AND " parts).toList = parts.map String.toList) := by
  have hlistable : ∀ w ∈ parts.map String.toList, Listable w := List.forall_mem_map.mpr h
  have htext (separator : String) : (Text.joinWith separator parts).toList =
      separator.toList.intercalate (parts.map String.toList) := String.toList_intercalate
  constructor
  · have hcommas := splitOn_comma_intercalate_iff hlistable
    rw [List.forall_mem_map] at hcommas
    rw [htext]
    exact hcommas
  · intro hclear
    rw [htext]
    exact splitOn_and_intercalate hlistable (List.forall_mem_map.mpr hclear)

/-- Texts with commas and the word in quotes and parentheses, and with more than one blank in a row. -/
theorem splitOn_joinWith_enclosed :
    let parts := ["'a, b' =  [x AND y]", "SUBSTRING(c, 1, 2)", "(d = 1 and e = 2) OR brand = 'x\\', AND '"]
    (∀ part ∈ parts, Listable part.toList) ∧
      (∀ part ∈ parts, Clear [','] [] part.toList ∧ Clear [] ["AND".toList] part.toList) ∧
      splitOn [','] (Text.joinWith ", " parts).toList = parts.map String.toList ∧
      splitOn " AND ".toList (Text.joinWith " AND " parts).toList = parts.map String.toList := by
  intro parts
  have hlistable : ∀ part ∈ parts, Listable part.toList := by
    simp only [parts, List.forall_mem_cons]
    exact ⟨⟨⟨by decide, by decide, by decide⟩, by decide, by decide⟩,
      ⟨⟨by decide, by decide, by decide⟩, by decide, by decide⟩,
      ⟨⟨by decide, by decide, by decide⟩, by decide, by decide⟩, List.forall_mem_nil _⟩
  have hclear : ∀ part ∈ parts, Clear [','] [] part.toList ∧ Clear [] ["AND".toList] part.toList := by
    decide
  obtain ⟨hcommas, hands⟩ := splitOn_joinWith hlistable
  exact ⟨hlistable, hclear, hcommas.mpr fun part hpart => (hclear part hpart).1,
    hands fun part hpart => (hclear part hpart).2⟩

/-! A text that ends in the word takes the delimiter from the one behind it. -/

example : splitOn " AND ".toList (Text.joinWith " AND " ["a = b AND", "c"]).toList =
    ["a = b".toList, "AND c".toList] := by decide

end DocQuery.Grammar
