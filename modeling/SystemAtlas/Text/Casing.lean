import SystemAtlas.Text.Basic
import SystemAtlas.Text.CasingTable

/-! # Lower case

`lower` maps a text to lower case character by character, with the one mapping that looks at its
surroundings: a capital sigma that ends a word becomes the final sigma.
-/

namespace SystemAtlas.Text

/-- Whether a code point lies in one of the ranges. -/
def inRanges (ranges : List (Nat × Nat)) (n : Nat) : Bool :=
  ranges.any fun r => r.1 ≤ n && n ≤ r.2

/-- A letter with case that is not passed over when looking around a capital sigma. -/
def isCased (p : CodePoint) : Bool := inRanges casedRanges p.code

/-- A character that is passed over when looking around a capital sigma. -/
def isCaseIgnorable (p : CodePoint) : Bool := inRanges caseIgnorableRanges p.code

/-- The lower-case form of a code point that lies in a run. -/
def CaseRun.image? (r : CaseRun) (n : Nat) : Option Nat :=
  if r.first ≤ n && n ≤ r.last && (n - r.first) % r.stride == 0 then some (r.lower + (n - r.first))
  else none

/-- The lower-case form of a character away from its surroundings. Dotted capital I is the only one
of two characters. -/
def lowerChar (c : Char) : List Char :=
  if c.toNat < 128 then [c.toLower]
  else if c.toNat = 0x130 then ['i', Char.ofNat 0x307]
  else match lowerCaseRuns.findSome? (·.image? c.toNat) with
    | some n => [Char.ofNat n]
    | none => [c]

/-- Whether the nearest code point that is not passed over is a letter with case. -/
def meetsCased (ps : List CodePoint) : Bool := (ps.dropWhile isCaseIgnorable).head?.any isCased

/-- Lower case of a code point between those before it, which are reversed, and those after it. -/
def lowerPoint (before : List CodePoint) (p : CodePoint) (rest : List CodePoint) : List CodePoint :=
  match p with
  | .char c =>
    if c = 'Σ' then [.char (if meetsCased before && !meetsCased rest then 'ς' else 'σ')]
    else (lowerChar c).map .char
  | .lone half => [.lone half]

/-- Lower case of the code points after `before`, which is reversed. -/
def lowerPoints (before : List CodePoint) : List CodePoint → List CodePoint
  | [] => []
  | p :: rest => lowerPoint before p rest ++ lowerPoints (p :: before) rest

/-- A text in lower case. -/
def lower (s : Text) : Text := ⟨lowerPoints [] s.points⟩

end SystemAtlas.Text
