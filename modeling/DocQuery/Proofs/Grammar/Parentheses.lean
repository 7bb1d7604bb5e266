import DocQuery.Grammar.Predicate
import DocQuery.Proofs.Grammar.Reader
import DocQuery.Proofs.Grammar.Splitting
import DocQuery.Rows.Row

/-!
# DocQuery.Proofs.Grammar.Parentheses — when parentheses around a clause change nothing

A clause is cut at AND first, and what stands in parentheses at OR first.  So a pair of parentheses
around a whole clause is redundant exactly as long as the clause does not hold both of them side by
side (`Mixed`): it is then read as the same filters, joined to one group if they are several
(`readFilters_enclosed_iff`).  With both, `a OR b AND c` means `(a OR b) AND c` on its own and
`a OR (b AND c)` in parentheses.
-/

namespace DocQuery.Grammar

/-! ## Nesting -/

theorem unwrap?_length {text inner : List Char} (h : unwrap? text = some inner) :
    inner.length + 2 ≤ text.length := by
  have hle := Text.length_trim_le text
  have hne : Text.trim text ≠ [] := by
    intro hnil
    rw [unwrap?, hnil] at h
    cases h
  have htrimmed := Text.trimmed_trim hne
  have hinner : unwrap? (Text.trim text) = some inner := by
    rw [unwrap?, htrimmed.trim_eq]
    exact h
  obtain ⟨-, hlength⟩ := topAll_of_unwrap? (P := fun _ _ => True) htrimmed hinner fun _ _ => trivial
  omega

theorem connectedParts?_spec {text : List Char} {op : Connective} {parts : List (List Char)}
    (h : connectedParts? text = some (op, parts)) :
    1 < parts.length ∧ ∃ d, parts = splitOn d text := by
  rw [connectedParts?] at h
  split_ifs at h with hor hand
  · cases h
    exact ⟨hor, _, rfl⟩
  · cases h
    exact ⟨hand, _, rfl⟩

/-- **The bound on the nesting does not matter** once it is as long as the text. -/
theorem readFilter_depth (q : Query) (clause : String) {text : List Char} {n m : Nat}
    (hn : text.length ≤ n) (hm : n ≤ m) : readFilter q clause m text = readFilter q clause n text := by
  induction n generalizing text m with
  | zero =>
    obtain rfl := List.length_eq_zero_iff.mp (Nat.le_zero.mp hn)
    cases m <;> rfl
  | succ n ih =>
    obtain ⟨m, rfl⟩ := Nat.exists_eq_add_of_le' (Nat.le_trans (Nat.succ_pos n) hm)
    have hnm : n ≤ m := Nat.le_of_succ_le_succ hm
    rw [readFilter, readFilter]
    cases hunwrap : unwrap? text with
    | some inner =>
      have hlength := unwrap?_length hunwrap
      exact ih (by omega) hnm
    | none =>
      cases hparts : connectedParts? text with
      | none => rfl
      | some found =>
        obtain ⟨op, parts⟩ := found
        obtain ⟨hone, d, rfl⟩ := connectedParts?_spec hparts
        have hchildren : (splitOn d text).mapM (readFilter q clause m) =
            (splitOn d text).mapM (readFilter q clause n) := by
          apply mapM_congr
          intro part hpart
          have hlength := length_lt_of_mem_splitOn hpart hone
          exact ih (by omega) hnm
        simp only [hchildren]

/-! ## Parentheses around a clause -/

/-- The text of a clause as it is found in a query: trimmed, with all it opens closed. -/
structure ClauseText (w : List Char) : Prop where
  trimmed : Text.Trimmed w
  balanced : Balanced w

/-- A text in parentheses. -/
def enclosed (w : List Char) : List Char := '(' :: (w ++ [')'])

/-- A text that holds both AND and OR at top level. -/
def Mixed (w : List Char) : Prop :=
  1 < (splitOn " OR ".toList w).length ∧ 1 < (splitOn " AND ".toList w).length

instance (w : List Char) : Decidable (Mixed w) := instDecidableAnd

/-- The filters of a clause as one, if they are several. -/
def joined : List Filter → List Filter
  | [f] => [f]
  | filters => [.group .and filters]

theorem splitOn_enclosed {d w : List Char} (hd : IsSpaced d) (hw : Balanced w) :
    splitOn d (enclosed w) = [enclosed w] := by
  apply splitOn_eq_singleton (trimmed_group w)
  apply TopAll.group hw
  exact hd.afterPattern?_of_ne (by decide)

/-- A text that unwraps is one part. -/
theorem splitOn_of_unwrap? {d w inner : List Char} (hd : IsSpaced d) (hw : Text.Trimmed w)
    (h : unwrap? w = some inner) : splitOn d w = [w] := by
  apply splitOn_eq_singleton hw
  refine (topAll_of_unwrap? hw h fun t ht => ?_).1
  rw [ht]
  exact hd.afterPattern?_of_ne (by decide)

section Enclosed

variable (q : Query) (clause : String) {w : List Char}

theorem readFilters_of_splitOn {text : List Char} (h : splitOn " AND ".toList text = [text]) :
    readFilters q clause text = (fun f => [f]) <$> readFilter q clause text.length text := by
  rw [readFilters, h, List.mapM_cons, List.mapM_nil]
  simp only [pure_bind]
  rw [map_eq_pure_bind]

/-- A clause in parentheses is one filter, read as a group is. -/
theorem readFilters_enclosed (hw : ClauseText w) :
    readFilters q clause (enclosed w) =
      (fun f => [f]) <$> readFilter q clause (w.length + 1) w := by
  have hunwrap : unwrap? (enclosed w) = some w := by
    rw [enclosed, unwrap?_group hw.balanced, hw.trimmed.trim_eq]
  have hlength : (enclosed w).length = w.length + 1 + 1 := by
    simp [enclosed]
  rw [readFilters_of_splitOn q clause (splitOn_enclosed isSpaced_and hw.balanced), hlength, readFilter,
    hunwrap]

/-- Several filters are read into the group that they are in parentheses. -/
theorem readFilter_of_and (hw : ClauseText w) (hand : 1 < (splitOn " AND ".toList w).length)
    (hor : ¬ 1 < (splitOn " OR ".toList w).length) :
    readFilter q clause (w.length + 1) w = Filter.group .and <$> readFilters q clause w := by
  have hunwrap : unwrap? w = none := by
    cases h : unwrap? w with
    | none => rfl
    | some inner =>
      rw [splitOn_of_unwrap? isSpaced_and hw.trimmed h] at hand
      exact absurd hand (by simp)
  have hparts : connectedParts? w = some (.and, splitOn " AND ".toList w) := by
    rw [connectedParts?]
    simp only [if_neg hor, if_pos hand]
  rw [readFilter, hunwrap, hparts, map_eq_pure_bind]
  rfl

theorem readFilter_of_mixed (hw : ClauseText w) (hmixed : Mixed w) :
    readFilter q clause (w.length + 1) w =
      Filter.group .or <$> (splitOn " OR ".toList w).mapM (readFilter q clause w.length) := by
  have hunwrap : unwrap? w = none := by
    cases h : unwrap? w with
    | none => rfl
    | some inner =>
      have hand := hmixed.2
      rw [splitOn_of_unwrap? isSpaced_and hw.trimmed h] at hand
      exact absurd hand (by simp)
  have hparts : connectedParts? w = some (.or, splitOn " OR ".toList w) := by
    rw [connectedParts?]
    simp only [if_pos hmixed.1]
  rw [readFilter, hunwrap, hparts, map_eq_pure_bind]

end Enclosed

/-! ## The same rows -/

/-- A group of all filters accepts what they accept together. -/
theorem allAccept_joined (row : Row) (filters : List Filter) :
    Filter.allAccept row (joined filters) = Filter.allAccept row filters := by
  have hgroup (children : List Filter) :
      Filter.allAccept row [.group .and children] = Filter.allAccept row children := by
    rw [Filter.allAccept, Filter.accepts]
    cases Filter.allAccept row children with
    | error e => rfl
    | ok accepted => cases accepted <;> rfl
  unfold joined
  split
  · rfl
  · exact hgroup _

/-- Two readings of a clause that accept the same rows and fail alike on all others, or that could
not be read for the same reason. -/
def Agree : Except QueryError (List Filter) → Except QueryError (List Filter) → Prop
  | .ok fs, .ok gs => ∀ row, Filter.allAccept row fs = Filter.allAccept row gs
  | .error e, .error f => e = f
  | _, _ => False

theorem agree_joined (result : Except QueryError (List Filter)) :
    Agree (result.map joined) result := by
  cases result with
  | error e => exact rfl
  | ok filters => exact fun row => allAccept_joined row filters

/-- Two filters or more are joined to a group. -/
theorem joined_of_one_lt {filters : List Filter} (h : 1 < filters.length) :
    joined filters = [.group .and filters] := by
  unfold joined
  split
  · simp at h
  · rfl

/-- Several parts of a clause are read as several filters. -/
theorem one_lt_length_of_run {q : Query} {clause : String} {w : List Char} {s s' : State}
    {filters : List Filter} (hand : 1 < (splitOn " AND ".toList w).length)
    (h : (readFilters q clause w).run s = (.ok filters, s')) : 1 < filters.length := by
  rw [length_of_run_mapM h]
  exact hand

/-- **Parentheses around an unmixed clause join its filters** and change nothing else. -/
theorem readFilters_enclosed_of_not_mixed (q : Query) (clause : String) {w : List Char}
    (hw : ClauseText w) (hmixed : ¬ Mixed w) (s : State) :
    (readFilters q clause (enclosed w)).run s = (joined <$> readFilters q clause w).run s := by
  rw [readFilters_enclosed q clause hw]
  by_cases hand : 1 < (splitOn " AND ".toList w).length
  · have hor : ¬ 1 < (splitOn " OR ".toList w).length := fun hor => hmixed ⟨hor, hand⟩
    rw [readFilter_of_and q clause hw hand hor, Functor.map_map, run_map, run_map]
    rcases hrun : (readFilters q clause w).run s with ⟨result, s'⟩
    cases result with
    | error e => rfl
    | ok filters =>
      have hjoined := joined_of_one_lt (one_lt_length_of_run hand hrun)
      simp only [Except.map, hjoined]
  · have hone : splitOn " AND ".toList w = [w] :=
      splitOn_of_length_le_one isSpaced_and hw.trimmed (by omega)
    rw [readFilters_of_splitOn q clause hone, Functor.map_map,
      readFilter_depth q clause (Nat.le_refl _) (Nat.le_succ _)]
    rfl

/-- **Parentheses around a mixed clause put OR outside**: its parts between ORs become the filters
of one group. -/
theorem readFilters_enclosed_of_mixed (q : Query) (clause : String) {w : List Char}
    (hw : ClauseText w) (hmixed : Mixed w) (s : State) :
    (readFilters q clause (enclosed w)).run s =
      ((fun alternatives => [Filter.group .or alternatives]) <$>
        (splitOn " OR ".toList w).mapM (readFilter q clause w.length)).run s := by
  rw [readFilters_enclosed q clause hw, readFilter_of_mixed q clause hw hmixed, Functor.map_map]

/-- **Parentheses around a clause are redundant as long as it is not mixed.**  Then the clause is
read with the same counters and either fails for the same reason or accepts the same rows; it is
otherwise read as alternatives, which the clause on its own never is. -/
theorem enclosed_agrees_unless_mixed (q : Query) (clause : String) (w : List Char)
    (hw : ClauseText w) (s : State) :
    (¬ Mixed w → Agree ((readFilters q clause (enclosed w)).run s).1
        ((readFilters q clause w).run s).1 ∧
      ((readFilters q clause (enclosed w)).run s).2 = ((readFilters q clause w).run s).2) ∧
    ∀ filters s', (readFilters q clause w).run s = (.ok filters, s') →
      ((readFilters q clause (enclosed w)).run s = (.ok (joined filters), s') ↔ ¬ Mixed w) := by
  refine ⟨fun hmixed => ?_, fun filters s' hrun => ⟨fun henclosed hmixed => ?_, fun hmixed => ?_⟩⟩
  · rw [readFilters_enclosed_of_not_mixed q clause hw hmixed, run_map]
    exact ⟨agree_joined _, rfl⟩
  · -- The parts between ANDs would be joined by AND, and the parentheses join by OR.
    rw [readFilters_enclosed_of_mixed q clause hw hmixed, run_map,
      joined_of_one_lt (one_lt_length_of_run hmixed.2 hrun)] at henclosed
    cases halternatives : ((splitOn " OR ".toList w).mapM (readFilter q clause w.length)).run s with
    | mk result last =>
      rw [halternatives] at henclosed
      cases result <;> cases henclosed
  · rw [readFilters_enclosed_of_not_mixed q clause hw hmixed, run_map, hrun]
    rfl

section Instances

/-- A table with three columns of numbers. -/
def threeColumns : Table where
  name := "t"
  columns := ["a", "b", "c"].map fun name => ⟨name, "t", some .number, false⟩

/-- Whether a WHERE clause over the table accepts the values of its columns. -/
def acceptsRow? (w : String) (values : List Value) : Option Bool :=
  match ((readFilters { sources := [.table threeColumns none] } "WHERE" w.toList).run {}).1 with
  | .ok filters =>
    let header := threeColumns.columns.map fun c => Item.ofColumn 0 c none
    (Filter.allAccept ⟨header, values, none⟩ filters).toOption
  | .error _ => none

/-- Two alternatives beside a group are within the theorem. -/
theorem enclosed_agrees_alternatives :
    ClauseText "a = 1 OR (b = 1 AND c = 1)".toList ∧
      Agree
        ((readFilters { sources := [.table threeColumns none] } "WHERE"
          (enclosed "a = 1 OR (b = 1 AND c = 1)".toList)).run {}).1
        ((readFilters { sources := [.table threeColumns none] } "WHERE"
          "a = 1 OR (b = 1 AND c = 1)".toList).run {}).1 := by
  have hw : ClauseText "a = 1 OR (b = 1 AND c = 1)".toList :=
    ⟨⟨by decide, by rintro c ⟨⟩; rfl, by rintro c ⟨⟩; rfl⟩, by decide⟩
  have hmixed : ¬ Mixed "a = 1 OR (b = 1 AND c = 1)".toList := by decide
  exact ⟨hw, ((enclosed_agrees_unless_mixed _ _ _ hw {}).1 hmixed).1⟩

/-- A clause that mixes AND and OR accepts a row only once it stands in parentheses. -/
theorem enclosed_differs_mixed :
    acceptsRow? "a = 1 OR b = 1 AND c = 1" [.integer 1, .integer 0, .integer 0] = some false ∧
      acceptsRow? "(a = 1 OR b = 1 AND c = 1)" [.integer 1, .integer 0, .integer 0] = some true := by
  decide +kernel

end Instances

end DocQuery.Grammar
