import SystemAtlas.Text.Basic

/-! # Terminal sequences

A terminal sequence is an escape character and an opening bracket, then digits, semicolons and
question marks, and at the end a letter. It tells a terminal how to show the text after it, and
nothing is lost of that text without it: `unstyled` leaves all sequences out.
-/

namespace SystemAtlas.Text

/-- Whether a code point may stand between the bracket and the letter of a terminal sequence. -/
def isParameter (p : CodePoint) : Bool := p.satisfies fun c => c.isDigit || c = ';' || c = '?'

/-- The number of code points in the terminal sequence that a text starts with; zero if it starts
with none. -/
def sequenceLength : List CodePoint → Nat
  | .char '\x1b' :: .char '[' :: rest =>
    let parameters := rest.takeWhile isParameter
    if (rest[parameters.length]?).any (·.satisfies Char.isAlpha) then parameters.length + 3 else 0
  | _ => 0

/-- Code points without terminal sequences, the first `skip` of them left out as well. -/
def dropSequences (skip : Nat) : List CodePoint → List CodePoint
  | [] => []
  | p :: rest =>
    match skip, sequenceLength (p :: rest) with
    | skip + 1, _ => dropSequences skip rest
    | 0, 0 => p :: dropSequences 0 rest
    | 0, length + 1 => dropSequences length rest

/-- A text without terminal sequences. -/
def unstyled (s : Text) : Text := ⟨dropSequences 0 s.points⟩

end SystemAtlas.Text
