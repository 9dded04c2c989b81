/-! # Lossy decoding

`decodeLossy` turns octets into characters. Where the octets are no well-formed encoding, the
longest start of a character becomes one replacement character, and an octet that starts none
becomes one by itself.
-/

namespace SystemAtlas.Text

/-- A character under way: its code so far, the octets still owed, and the bounds of the next. -/
structure Partial where
  code : Nat
  owed : Nat
  low : Nat
  high : Nat

/-- The character under way after a first octet. A complete one owes nothing. -/
def Partial.start? (b : Nat) : Option Partial :=
  if b < 0x80 then some ⟨b, 0, 0, 0⟩
  else if 0xC2 ≤ b && b ≤ 0xDF then some ⟨b - 0xC0, 1, 0x80, 0xBF⟩
  else if 0xE0 ≤ b && b ≤ 0xEF then
    some ⟨b - 0xE0, 2, if b = 0xE0 then 0xA0 else 0x80, if b = 0xED then 0x9F else 0xBF⟩
  else if 0xF0 ≤ b && b ≤ 0xF4 then
    some ⟨b - 0xF0, 3, if b = 0xF0 then 0x90 else 0x80, if b = 0xF4 then 0x8F else 0xBF⟩
  else none

/-- What stands for octets that are no character. -/
def replacement : Char := Char.ofNat 0xFFFD

/-- What a first octet gives at once, and the character under way after it. -/
def beginChar (b : Nat) : List Char × Option Partial :=
  match Partial.start? b with
  | some p => if p.owed = 0 then ([Char.ofNat p.code], none) else ([], some p)
  | none => ([replacement], none)

/-- Decoding from the middle of a character or between two. -/
def decodeFrom : Option Partial → List Nat → List Char
  | none, [] => []
  | some _, [] => [replacement]
  | none, b :: rest =>
    let (done, next) := beginChar b
    done ++ decodeFrom next rest
  | some p, b :: rest =>
    if p.low ≤ b && b ≤ p.high then
      let code := p.code * 64 + (b - 0x80)
      if p.owed = 1 then Char.ofNat code :: decodeFrom none rest
      else decodeFrom (some ⟨code, p.owed - 1, 0x80, 0xBF⟩) rest
    else
      let (done, next) := beginChar b
      replacement :: done ++ decodeFrom next rest

/-- The characters that octets encode. -/
def decodeLossy (octets : List Nat) : List Char := decodeFrom none octets

end SystemAtlas.Text
