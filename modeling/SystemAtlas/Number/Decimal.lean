import SystemAtlas.Text.Blank

/-! # Numbers in decimal

What decimal digits spell: a natural number, and the double nearest to a number with a power of ten.
`float?` reads a double from characters alone, where the infinities and the value that is no number
have names.
-/

namespace SystemAtlas.Number

/-- The number written by decimal digits. -/
def digitsValue (cs : List Char) : Nat :=
  cs.foldl (fun n c => 10 * n + (c.toNat - '0'.toNat)) 0

/-- The most digits with which a whole number is read or written. -/
def digitLimit : Nat := 4300

/-- The least natural number with too many digits. -/
def leastUnwritable : Nat := Nat.pow 10 digitLimit

/-- Whether a whole number has no more digits than can be written. -/
def isWritable (i : Int) : Bool := i.natAbs < leastUnwritable

/-- The double nearest to `± digits · 10 ^ exponent`. Magnitudes beyond the range of doubles are
settled before the power is taken. -/
def nearestDouble (negative : Bool) (digits : List Char) (exponent : Int) : Float :=
  let n := digitsValue digits
  let size := (Nat.toDigits 10 n).length + exponent
  let magnitude :=
    if n = 0 || size < -330 then 0
    else if size > 310 then 1.0 / 0.0
    else if exponent < 0 then Float.ofScientific n true (-exponent).toNat
    else Float.ofScientific n false exponent.toNat
  if negative then -magnitude else magnitude

/-- Whether a sign is a minus, and the characters after it; a sign may be missing. -/
def signed : List Char → Bool × List Char
  | '-' :: cs => (true, cs)
  | '+' :: cs => (false, cs)
  | cs => (false, cs)

/-- A whole number in digits, with a sign or without. -/
def exponentOf? (cs : List Char) : Option Int :=
  let (negative, digits) := signed cs
  if digits.isEmpty || !digits.all (·.isDigit) then none
  else
    let n : Int := digitsValue digits
    some (if negative then -n else n)

/-- The double that characters without a sign spell: digits with at most one point among them, and
perhaps a power of ten. -/
def unsigned? (negative : Bool) (cs : List Char) : Option Float :=
  let whole := cs.takeWhile (·.isDigit)
  let rest := cs.drop whole.length
  let fraction := if rest.head? = some '.' then (rest.drop 1).takeWhile (·.isDigit) else []
  let rest := if rest.head? = some '.' then rest.drop (fraction.length + 1) else rest
  let value exponent :=
    nearestDouble negative (whole ++ fraction) (exponent - (fraction.length : Int))
  if whole.isEmpty && fraction.isEmpty then none
  else
    match rest with
    | [] => some (value 0)
    | mark :: rest => if mark.toLower = 'e' then (exponentOf? rest).map value else none

/-- The infinite double of a sign. -/
def infinity (negative : Bool) : Float := if negative then -1.0 / 0.0 else 1.0 / 0.0

/-- The double that characters spell. -/
def ofChars? (cs : List Char) : Option Float :=
  let (negative, cs) := signed cs
  let name := String.ofList (cs.map Char.toLower)
  if name == "inf" || name == "infinity" then some (infinity negative)
  else if name == "nan" then some (0.0 / 0.0)
  else unsigned? negative cs

/-- Characters without the underscores that stand alone between others. -/
def withoutUnderscores? (cs : List Char) : Option (List Char) :=
  let groups := cs.splitOn '_'
  if groups.any (·.isEmpty) then none else some groups.flatten

/-- The double that characters spell, with white space around them or with single underscores among
them, but not with both. -/
def float? (cs : List Char) : Option Float :=
  ofChars? (Text.trimBoth Text.isWhite cs) <|> (withoutUnderscores? cs).bind ofChars?

end SystemAtlas.Number
