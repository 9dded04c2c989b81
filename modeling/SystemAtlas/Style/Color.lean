import SystemAtlas.Json.Basic
import SystemAtlas.Style.Fault

/-! # Colours

A colour is `#` and three or six hexadecimal digits, and may end with one line feed. Its normal form
is in lower case, and a text of three digits alone has each of them doubled.
-/

namespace SystemAtlas.Style.Color

/-- Whether a character is a hexadecimal digit. -/
def isHexDigit (c : Char) : Bool :=
  c.isDigit || ('a' ≤ c && c ≤ 'f') || ('A' ≤ c && c ≤ 'F')

/-- A text without one line feed at its end. -/
def dropLineEnd (cs : List Char) : List Char :=
  if cs.getLast? = some '\n' then cs.dropLast else cs

/-- Whether characters spell a colour. -/
def isColor (cs : List Char) : Bool :=
  match dropLineEnd cs with
  | '#' :: digits => (digits.length = 3 || digits.length = 6) && digits.all isHexDigit
  | _ => false

/-- The normal form of the characters of a colour. -/
def normalChars (cs : List Char) : List Char :=
  match cs.map Char.toLower with
  | [mark, r, g, b] => [mark, r, r, g, g, b, b]
  | lowered => lowered

/-- The normal form of the colour that a value spells. -/
def ofJson : Json → Except Fault Text
  | .string s =>
    (s.chars?.filter isColor).elim (.error (.badColor s)) fun cs => .ok (.ofChars (normalChars cs))
  | j => .error (.badColor j.plain)

end SystemAtlas.Style.Color
