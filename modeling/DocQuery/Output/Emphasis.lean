import DocQuery.Rows.Row

/-!
# DocQuery.Output.Emphasis — styled text on a terminal

A style becomes codes between an escape and the text; a reset follows the text.  Where the text
itself holds a reset, the codes are written again after it.  A colour has a name, or is mixed from
red, green and blue and stands for the nearest one that has a name.  Colours that are neither are
left out, and a style without any code leaves the text as it is.
-/

namespace DocQuery.Emphasis

/-- The names of the eight colours in the order of their codes. -/
def colours : List String := ["black", "red", "green", "yellow", "blue", "magenta", "cyan", "white"]

/-- The shares of red, green and blue in the eight colours and then in their bright ones. -/
def palette : List (Nat × Nat × Nat) :=
  [(0, 0, 0), (205, 0, 0), (0, 205, 0), (205, 205, 0),
    (0, 0, 238), (205, 0, 205), (0, 205, 205), (229, 229, 229),
    (127, 127, 127), (255, 0, 0), (0, 255, 0), (255, 255, 0),
    (92, 92, 255), (255, 0, 255), (0, 255, 255), (255, 255, 255)]

/-- The square of the distance of two mixtures. -/
def distance (a b : Nat × Nat × Nat) : Nat :=
  let square := fun m n : Nat => (m - n + (n - m)) * (m - n + (n - m))
  square a.1 b.1 + square a.2.1 b.2.1 + square a.2.2 b.2.2

/-- The place of the colour that is nearest to a mixture, the first of several, and whether it is
the bright one. -/
def nearest (mixture : Nat × Nat × Nat) : Nat × Bool :=
  let distances := palette.map (distance mixture)
  let place := distances.findIdx fun d => distances.all (d ≤ ·)
  (place % 8, 8 ≤ place)

/-- A share of two hexadecimal digits, or of one after a plus sign. -/
def share? (a b : Char) : Option Nat :=
  if a = '+' then Text.hexDigit? b
  else (Text.hexDigit? a).bind fun m => (Text.hexDigit? b).map fun n => 16 * m + n

/-- The mixture that three shares of two digits, or three single digits that count twice, give. -/
def mixture? : List Char → Option (Nat × Nat × Nat)
  | [r, s, g, h, b, c] => do return (← share? r s, ← share? g h, ← share? b c)
  | [r, g, b] => do return (← share? r r, ← share? g g, ← share? b b)
  | _ => none

/-- A character of the name of a colour in lower case; the Kelvin sign counts as K. -/
def lowerChar (c : Char) : Char := if c = '\u212a' then 'k' else c.toLower

/-- The place of a colour, and whether it is the bright one; `purple` is another name of magenta,
and a number sign begins a mixture. -/
def colour? (name : String) : Option (Nat × Bool) :=
  let word := name.toList.map lowerChar
  if word = "purple".toList then some (5, false)
  else match word with
    | '#' :: digits => (mixture? digits).map nearest
    | _ =>
      let bright := Text.afterStart? "bright ".toList word
      (colours.findIdx? fun c => c.toList = bright.getD word).map (·, bright.isSome)

/-- The code of a colour for letters; that of a background is ten more. -/
def code (colour : Nat × Bool) : Nat := if colour.2 then 90 + colour.1 else 30 + colour.1

/-- The codes of a style. -/
def codes (s : Style) : List Nat :=
  (if s.bold then [1] else []) ++ (if s.italic then [3] else []) ++
    ((s.background.bind colour?).map fun c => code c + 10).toList ++
    ((s.foreground.bind colour?).map code).toList

/-- The sequence that begins a style. -/
def start (codes : List Nat) : List Char :=
  '\x1b' :: '[' :: ((Text.joinWith ";" (codes.map toString)).toList ++ ['m'])

/-- The sequence that ends every style. -/
def reset : List Char := ['\x1b', '[', '0', 'm']

/-- A text with a sequence after each reset in it. -/
def afterResets (sequence : List Char) : List Char → List Char
  | '\x1b' :: '[' :: '0' :: 'm' :: rest => reset ++ sequence ++ afterResets sequence rest
  | c :: rest => c :: afterResets sequence rest
  | [] => []

/-- A text in a style. -/
def apply (s : Style) (text : List Char) : List Char :=
  match codes s with
  | [] => text
  | codes => start codes ++ afterResets (start codes) text ++ reset

end DocQuery.Emphasis
