/-!
# DocQuery.Number.Power — powers, and the integers of 64 bits

Everything about numbers here is arithmetic on natural numbers and integers with powers of two and
ten. An integer of a cell has 64 bits and a sign (`Word.ofInt?`); an index, and a whole number of a
document, may use all 64 bits without one.
-/

namespace DocQuery

namespace Power

/-- A power of two. -/
def two (n : Nat) : Nat := Nat.pow 2 n

/-- A power of ten. -/
def ten (n : Nat) : Nat := Nat.pow 10 n

end Power

namespace Word

/-- The least integer of 64 bits with a sign. -/
def least : Int := -0x8000000000000000

/-- The greatest integer of 64 bits with a sign. -/
def greatest : Int := 0x7FFFFFFFFFFFFFFF

/-- The greatest whole number of 64 bits without a sign. -/
def greatestUnsigned : Nat := 0xFFFFFFFFFFFFFFFF

/-- An integer as one of 64 bits, if it is one. -/
def ofInt? (i : Int) : Option Int64 :=
  if least ≤ i ∧ i ≤ greatest then some (Int64.ofInt i) else none

end Word

end DocQuery
