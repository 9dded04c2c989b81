import SystemAtlas.Text.Basic

/-! # Blank characters

Two classes of characters count as blank. `isWhite` is the white-space property of the character
set; `isBlank` adds the four information separators U+001C to U+001F, which also part words.
`strip` drops blanks from both ends of a text and `unspaced` drops them everywhere.
-/

namespace SystemAtlas.Text

/-- The characters with the white-space property. -/
def isWhite (c : Char) : Bool :=
  let n := c.toNat
  (9 ≤ n && n ≤ 13) || n == 0x20 || n == 0x85 || n == 0xA0 || n == 0x1680 ||
    (0x2000 ≤ n && n ≤ 0x200A) || n == 0x2028 || n == 0x2029 || n == 0x202F || n == 0x205F ||
    n == 0x3000

/-- White space or an information separator. -/
def isBlank (c : Char) : Bool :=
  isWhite c || (0x1C ≤ c.toNat && c.toNat ≤ 0x1F)

/-- A list without the elements satisfying `p` at either end. -/
def trimBoth (p : α → Bool) (xs : List α) : List α :=
  ((xs.dropWhile p).reverse.dropWhile p).reverse

/-- A text without the blanks at its ends. -/
def strip (s : Text) : Text := ⟨trimBoth (·.satisfies isBlank) s.points⟩

/-- A text without any blank. -/
def unspaced (s : Text) : Text := ⟨s.points.filter fun p => !p.satisfies isBlank⟩

/-- A text without the characters `c` it starts with. -/
def dropLeading (c : Char) (s : Text) : Text := ⟨s.points.dropWhile (· == c)⟩

end SystemAtlas.Text
