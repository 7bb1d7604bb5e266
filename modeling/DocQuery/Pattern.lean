/-!
# DocQuery.Pattern — patterns of texts

In a pattern a percent sign stands for any run of characters, an underscore for exactly one, and
every other character for itself.  A pattern is worked off from its end: what is left of it accepts
some of the endings of the text, and one more character of the pattern changes which
(`Pattern.extend`).  So the work is the length of the pattern times that of the text, whatever
percent signs there are.
-/

namespace DocQuery.Pattern

/-- Whether a character of a pattern other than the percent sign stands for a character of a text.
-/
def standsFor (p c : Char) : Bool := p = '_' || p = c

/-- For every place, whether there is a `true` there or at a later place. -/
def fromHereOn : List Bool → List Bool
  | [] => []
  | b :: bs =>
    let later := fromHereOn bs
    (b || later.headD false) :: later

/-- Which endings of a text, longest first, one more character of a pattern accepts, given those
that what follows it accepts. -/
def extend (text : List Char) (p : Char) (accepted : List Bool) : List Bool :=
  if p = '%' then fromHereOn accepted
  else List.zipWith (fun c b => standsFor p c && b) text accepted.tail ++ [false]

/-- Which endings of a text, longest first, a pattern accepts; without a pattern only the empty one.
-/
def acceptedEndings (text : List Char) : (pattern : List Char) → List Bool
  | [] => text.map (fun _ => false) ++ [true]
  | p :: ps => extend text p (acceptedEndings text ps)

/-- Whether a text is made as the pattern says. -/
def accepts (pattern text : List Char) : Bool := (acceptedEndings text pattern).headD false

end DocQuery.Pattern
