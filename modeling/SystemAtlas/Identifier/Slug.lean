import SystemAtlas.Text.Blank
import SystemAtlas.Text.Casing

/-! # Names made of display names

`slug` turns a display name into a name of letters `a` to `z`, digits and single underscores, none
at either end. Every run of other characters becomes one underscore, and a name of which nothing is
left becomes `element`.
-/

namespace SystemAtlas.Identifier

/-- The characters a slug keeps. -/
def isSlugChar (c : Char) : Bool := ('a' ≤ c && c ≤ 'z') || ('0' ≤ c && c ≤ '9')

/-- The character that a slug keeps of a code point. -/
def kept? (p : CodePoint) : Option Char := p.char?.filter isSlugChar

/-- What a slug keeps, with every run of other code points as one underscore. `inRun` tells that one
was just written. -/
def collapse (inRun : Bool) : List CodePoint → List Char
  | [] => []
  | p :: rest =>
    match kept? p with
    | some c => c :: collapse false rest
    | none => if inRun then collapse true rest else '_' :: collapse true rest

/-- The name that a display name gives. -/
def slug (name : Text) : Text :=
  let body := Text.trimBoth (· == '_') (collapse false name.strip.lower.points)
  if body.isEmpty then "element" else .ofChars body

end SystemAtlas.Identifier
