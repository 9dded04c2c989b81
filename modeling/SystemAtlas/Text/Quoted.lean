import SystemAtlas.Text.Casing
import SystemAtlas.Text.PrintableTable

/-! # Quoted texts

`quoted` writes a text between quotation marks for a message. Apostrophes enclose it unless it
holds an apostrophe and no double quotation mark. The backslash, the enclosing mark and the
characters that do not print are escaped, and so is half of a surrogate pair.
-/

namespace SystemAtlas.Text

/-- Whether a character shows on its own in a message. -/
def isPrinting (c : Char) : Bool :=
  if c.toNat < 0x80 then 0x20 ≤ c.toNat && c.toNat < 0x7F
  else !inRanges nonPrintingRanges c.toNat

/-- The last `width` hexadecimal digits of a number, in lower case. -/
def hexDigits : Nat → Nat → List Char
  | 0, _ => []
  | width + 1, n => hexDigits width (n / 16) ++ [Nat.digitChar (n % 16)]

/-- A character as it appears between the marks `mark`. -/
def quotedChar (mark c : Char) : List Char :=
  if c = mark || c = '\\' then ['\\', c]
  else if c = '\n' then ['\\', 'n']
  else if c = '\r' then ['\\', 'r']
  else if c = '\t' then ['\\', 't']
  else if isPrinting c then [c]
  else if c.toNat < 0x100 then '\\' :: 'x' :: hexDigits 2 c.toNat
  else if c.toNat < 0x10000 then '\\' :: 'u' :: hexDigits 4 c.toNat
  else '\\' :: 'U' :: hexDigits 8 c.toNat

/-- Half of a surrogate pair as messages show it. -/
def shownHalf (half : Surrogate) : List Char := '\\' :: 'u' :: hexDigits 4 half.code

/-- A code point as it appears between the marks `mark`. -/
def quotedPoint (mark : Char) : CodePoint → List Char
  | .char c => quotedChar mark c
  | .lone half => shownHalf half

/-- The mark that encloses a text: an apostrophe where that needs no escape or the double mark
would need one as well. -/
def markFor (ps : List CodePoint) : Char :=
  if ps.contains '\'' && !ps.contains '"' then '"' else '\''

/-- A text between quotation marks. -/
def quoted (s : Text) : Text :=
  let mark := markFor s.points
  ofChars (mark :: s.points.flatMap (quotedPoint mark) ++ [mark])

end SystemAtlas.Text
