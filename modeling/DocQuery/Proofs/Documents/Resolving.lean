import DocQuery.Proofs.Documents.Counting
import DocQuery.Proofs.Engine.Resolving

/-!
# DocQuery.Proofs.Documents.Resolving — stores answer for what items denote

A store counts the rows that one equality accepts under an item of its own, under which the column is
found whatever its identity and scope are (`Store.count_of_paired`), and it looks up a key without regard
to the items that are asked for.  So every store that is reached is a source whose resolved queries
answer as they did before (`Store.isUniform`, `Store.namesTables`).
-/

namespace DocQuery

namespace Store

variable {s : Store} {f f' : Filter} {filters filters' : List Filter} {c : Column} {x x' : Item}

/-! ## Counting -/

/-- A column alone in a row is found by what it denotes in any scope. -/
theorem evaluate?_alone (h : Item.DenotesSame x x') (hsource : x.source = .column c)
    (hfunction : x.function = none) (v : Value) :
    Row.evaluate? ⟨[Item.ofColumn (x.id + 1) c none], [v], none⟩ x =
      Row.evaluate? ⟨[Item.ofColumn (x'.id + 1) c none], [v], none⟩ x' := by
  obtain ⟨id, source, function, parameters, approximate, scope, aliasName⟩ := x
  obtain rfl : source = .column c := hsource
  obtain rfl : function = none := hfunction
  obtain ⟨id', source', function', parameters', approximate', scope', aliasName'⟩ := x'
  obtain ⟨rfl, rfl, rfl, rfl⟩ : source' = .column c ∧ function' = none ∧ parameters = parameters' ∧
      approximate = approximate' := by
    cases source' <;> simp_all [Item.DenotesSame, Item.meaning]
  have hcolumns (n : Nat) : Header.IsOfColumns none (n + 1) [Item.ofColumn (n + 1) c none] [c] :=
    .cons ⟨rfl, Nat.le_refl _⟩ .nil
  by_cases hplain : Item.IsPlain ⟨id, .column c, none, parameters, approximate, scope, aliasName⟩
  · have hplain' : Item.IsPlain ⟨id', .column c, none, parameters, approximate, scope', aliasName'⟩ :=
      ⟨rfl, hplain.parameters, hplain.approximate⟩
    have hleft := Row.evaluate?_columnRow (hcolumns id) (fun _ => v) ⟨rfl, Or.inl hplain⟩
      List.mem_cons_self (Nat.lt_succ_self id)
    have hright := Row.evaluate?_columnRow (hcolumns id') (fun _ => v) ⟨rfl, Or.inl hplain'⟩
      List.mem_cons_self (Nat.lt_succ_self id')
    exact hleft.trans hright.symm
  · have hmarked : ¬ Item.IsPlain ⟨id', .column c, none, parameters, approximate, scope', aliasName'⟩ :=
      fun h => hplain ⟨rfl, h.parameters, h.approximate⟩
    exact (Row.evaluate?_marked (hcolumns id) rfl rfl hplain (Nat.lt_succ_self id) [v]).trans
      (Row.evaluate?_marked (hcolumns id') rfl rfl hmarked (Nat.lt_succ_self id') [v]).symm

/-- Rows of one value each are counted alike. -/
theorem countAccepted_alone (h : Item.DenotesSame x x') (hsource : x.source = .column c)
    (hfunction : x.function = none) (key : Value) (cells : List Value) :
    Alongside Eq
      (countAccepted (Item.ofColumn (x.id + 1) c none) (.comparison x .equal (.value key))
        (cells.map fun v => [v]))
      (countAccepted (Item.ofColumn (x'.id + 1) c none) (.comparison x' .equal (.value key))
        (cells.map fun v => [v])) := by
  induction cells with
  | nil => exact .ok rfl
  | cons v rest ih =>
    rw [List.map_cons]
    unfold countAccepted
    have hvalue (i i' : Item) (hi : i = x ∧ i' = x') :
        Row.evaluate? ⟨[Item.ofColumn (x.id + 1) c none], [v], none⟩ i =
          Row.evaluate? ⟨[Item.ofColumn (x'.id + 1) c none], [v], none⟩ i' := by
      rw [hi.1, hi.2]
      exact evaluate?_alone h hsource hfunction v
    refine (Filter.comparisonAccepts_paired hvalue ⟨rfl, rfl⟩ .equal (.value key)).bind ?_
    rintro accepted _ rfl
    refine ih.bind ?_
    rintro count _ rfl
    exact .ok rfl

/-- The conditions that a store counts by alone have one column. -/
theorem equalityHeader?_paired (h : Filter.Paired Item.DenotesSame f f') :
    Option.Rel (fun p p' => ∃ x x' key c, f = .comparison x .equal (.value key) ∧
        f' = .comparison x' .equal (.value key) ∧ Item.DenotesSame x x' ∧ x.source = .column c ∧
        x.function = none ∧ p = (c, Item.ofColumn (x.id + 1) c none) ∧
        p' = (c, Item.ofColumn (x'.id + 1) c none))
      (equalityHeader? f) (equalityHeader? f') := by
  cases f with
  | group op fs => cases f' with
    | group op' fs' => exact .none
    | comparison i' op' y' => exact h.elim
  | comparison i op y => cases f' with
    | group op' fs' => exact h.elim
    | comparison i' op' y' =>
      obtain ⟨hi, rfl, hy⟩ := h
      have hfunction : i.function = i'.function := by
        rw [← Item.function_meaning false i, hi, Item.function_meaning]
      have hcolumn : i.column? = i'.column? := by
        rw [← Item.column?_meaning false i, hi, Item.column?_meaning]
      cases hy with
      | value key =>
        cases op <;> try exact .none
        unfold equalityHeader?
        dsimp only
        rw [← hfunction, ← hcolumn]
        cases hnone : i.function with
        | some g => exact .none
        | none =>
          cases hc : i.column? with
          | none => exact .none
          | some c =>
            exact .some ⟨i, i', key, c, rfl, rfl, hi, Item.column?_eq_some_iff.mp hc, hnone, rfl, rfl⟩
      | _ => cases op <;> exact .none

/-- **A store counts for what items denote in any scope.** -/
theorem count_of_paired {t : Table} {n : Option Nat}
    (h : Filter.AllPaired Item.DenotesSame filters filters') (hcount : s.count t filters = .ok n) :
    s.count t filters' = .ok n := by
  have hpaired := Filter.allPaired_iff.mp h
  cases hpaired with
  | nil => exact hcount
  | @cons f f' _ _ hf hrest =>
    cases hrest with
    | cons _ _ => exact hcount
    | nil =>
      have hheader := equalityHeader?_paired hf
      unfold Store.count at hcount ⊢
      dsimp only at hcount ⊢
      generalize equalityHeader? f = header, equalityHeader? f' = header' at hheader hcount ⊢
      cases hheader with
      | none => exact hcount
      | @some p p' hp =>
        obtain ⟨x, x', key, column, rfl, rfl, hx, hsource, hfunction, rfl, rfl⟩ := hp
        obtain ⟨loaded, hloaded, hcount⟩ := exists_of_bind_eq_ok hcount
        obtain ⟨k, hk, hcount⟩ := exists_of_bind_eq_ok hcount
        -- The rows of one column have one cell each.
        have halike := countAccepted_alone hx hsource hfunction key (loaded.rows.map fun row =>
          ((loaded.table.columnIndex? column).bind fun n => row[n]?).getD .null)
        rw [List.map_map] at halike
        obtain ⟨_, hk', rfl⟩ := (hk ▸ halike).exists_of_ok
        rw [hloaded]
        exact (congrArg (· >>= fun n => pure (some n)) hk').trans hcount

/-! ## Stores that are reached -/

/-- **A store that is reached answers for what items denote.** -/
theorem isUniform (hs : s.Reached) : s.source.IsUniform where
  toIsSteady := isSteady s
  width := by
    intro past t columns limit outcomes hread values hvalues
    change (s.loaded t).map _ = _ at hread
    cases hloaded : s.loaded t with
    | error e =>
      rw [hloaded] at hread
      cases hread
    | ok loaded =>
      rw [hloaded] at hread
      cases hread
      obtain ⟨row, hrow, hok⟩ := List.mem_map.mp hvalues
      obtain rfl := Except.ok.inj hok
      obtain ⟨stored, -, rfl⟩ := List.mem_map.mp hrow
      rw [List.length_map, List.length_map]
  countSame := fun _ _ _ _ _ _ h hcount => count_of_paired h hcount
  lookupSame := fun _ _ _ _ _ _ _ _ h => h
  found := by
    intro past name t items column key columns values ht hfound
    obtain ⟨loaded, hloaded, rfl, hbuilt⟩ := exists_loaded hs.areSound ht
    obtain ⟨found, hfind, heq⟩ : ∃ found, loaded.find? column key = some found ∧
        (loaded.table.columns, found) = (columns, values) := by
      change (s.loaded loaded.table).map _ = _ at hfound
      rw [hloaded] at hfound
      exact Option.map_eq_some_iff.mp (Except.ok.inj hfound)
    cases heq
    exact ⟨hbuilt.wellBuilt.names.of_map _, List.Subset.refl _,
      hbuilt.widths _ (LoadedTable.mem_of_find? hfind)⟩

theorem namesTables (hs : s.Reached) : s.source.NamesTables where
  own := fun name t ht c hc => by
    obtain ⟨loaded, -, rfl, hbuilt⟩ := exists_loaded hs.areSound ht
    exact hbuilt.wellBuilt.own c hc
  unique := fun a b t u ht hu hname => by
    obtain ⟨loaded, hloaded, rfl, -⟩ := exists_loaded hs.areSound ht
    obtain ⟨other, hother, rfl, -⟩ := exists_loaded hs.areSound hu
    have hsame : s.loaded loaded.table = s.loaded other.table := by
      unfold Store.loaded
      rw [hname]
    rw [Except.ok.inj (hloaded.symm.trans (hsame.trans hother))]

end Store

end DocQuery
