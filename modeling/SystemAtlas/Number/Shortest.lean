/-! # Decimal texts of floating-point numbers

A finite double is `m · 2 ^ q`. `shortestDigits` finds the fewest decimal digits whose reading is
that double again: for one digit, two digits and so on it tests the two points of the decimal grid
next to the value against the interval of reals that round to it, in whole-number arithmetic, and
takes the nearer of those that lie in it, or the even one of two equally near. `Number.text` writes
the digits positionally for exponents from -4 to 15 and in scientific form otherwise.
-/

namespace SystemAtlas.Number

/-- The parts of a double. A finite one is `mantissa · 2 ^ exponent`. -/
inductive Double where
  | finite (negative : Bool) (mantissa : Nat) (exponent : Int)
  | infinite (negative : Bool)
  | notANumber

/-- The parts of a double, from its encoding. -/
def Double.ofFloat (x : Float) : Double :=
  let bits := x.toBits.toNat
  let negative := bits / Nat.pow 2 63 = 1
  let biased := bits / Nat.pow 2 52 % Nat.pow 2 11
  let fraction := bits % Nat.pow 2 52
  if biased = 2047 then if fraction = 0 then .infinite negative else .notANumber
  else if biased = 0 then .finite negative fraction (-1074)
  else .finite negative (Nat.pow 2 52 + fraction) (Int.ofNat biased - 1075)

/-- The integer nearest to `± mantissa · 2 ^ exponent`; a tie goes to the even neighbour. -/
def roundToInt (negative : Bool) (mantissa : Nat) (exponent : Int) : Int :=
  let magnitude : Nat :=
    if 0 ≤ exponent then mantissa * Nat.pow 2 exponent.toNat
    else
      let unit := Nat.pow 2 (-exponent).toNat
      let below := mantissa / unit
      let twice := 2 * (mantissa % unit)
      if twice < unit || (twice = unit && below % 2 = 0) then below else below + 1
  if negative then -(magnitude : Int) else magnitude

/-- The integer nearest to a finite double, ties to even. -/
def round? (x : Float) : Option Int :=
  match Double.ofFloat x with
  | .finite negative m q => some (roundToInt negative m q)
  | _ => none

/-- The integer a double is, if it is one. -/
def whole? (x : Float) : Option Int :=
  match Double.ofFloat x with
  | .finite negative m q =>
    if 0 ≤ q || m % Nat.pow 2 (-q).toNat = 0 then some (roundToInt negative m q) else none
  | _ => none

/-- Whether a double is neither infinite nor no number. -/
def isFinite (x : Float) : Bool :=
  match Double.ofFloat x with
  | .finite .. => true
  | _ => false

/-- The reals that round to `m · 2 ^ q`, in quarters of its last place: the double is `4 m`, and the
ends are `4 m - 2` (or `4 m - 1` just above a power of two) and `4 m + 2`. -/
structure Interval where
  low : Nat
  value : Nat
  high : Nat
  scale : Int
  closed : Bool

/-- The interval of reals that round to `m · 2 ^ q`. -/
def Interval.of (m : Nat) (q : Int) : Interval :=
  { low := if m = Nat.pow 2 52 && q ≠ -1074 then 4 * m - 1 else 4 * m - 2
    value := 4 * m
    high := 4 * m + 2
    scale := q - 2
    closed := m % 2 = 0 }

/-- `n · 2 ^ q` and `d · 10 ^ e` as whole numbers on one scale. -/
def commonScale (n : Nat) (q : Int) (d : Nat) (e : Int) : Nat × Nat :=
  (n * Nat.pow 2 q.toNat * Nat.pow 10 (-e).toNat, d * Nat.pow 10 e.toNat * Nat.pow 2 (-q).toNat)

/-- Whether `d · 10 ^ e` rounds to the double of the interval. -/
def Interval.contains (i : Interval) (d : Nat) (e : Int) : Bool :=
  let (low, point) := commonScale i.low i.scale d e
  let (high, point') := commonScale i.high i.scale d e
  if i.closed then low ≤ point && point' ≤ high else low < point && point' < high

/-- The number of decimal digits of the whole part of `n · 2 ^ q`, counted on below one: the `k`
with `10 ^ (k - 1) ≤ n · 2 ^ q < 10 ^ k`. -/
def decimalExponent (n : Nat) (q : Int) : Int :=
  let top := n * Nat.pow 2 q.toNat
  let bottom := Nat.pow 2 (-q).toNat
  if bottom ≤ top then ((Nat.toDigits 10 (top / bottom)).length : Int)
  else
    let inverse := (bottom + top - 1) / top
    let k := (Nat.toDigits 10 inverse).length
    if top * Nat.pow 10 (k - 1) ≥ bottom then 2 - (k : Int) else 1 - (k : Int)

/-- The best point with `count` digits below `10 ^ k` that lies in the interval: digits and
exponent. -/
def Interval.gridPoint? (i : Interval) (k : Int) (count : Nat) : Option (Nat × Int) :=
  let e := k - count
  let (value, unit) := commonScale i.value i.scale 1 e
  let below := value / unit
  let twice := 2 * (value % unit)
  let nearerBelow := twice < unit || (twice = unit && below % 2 = 0)
  match i.contains below e && below ≠ 0, i.contains (below + 1) e with
  | true, true => some (if nearerBelow then below else below + 1, e)
  | true, false => some (below, e)
  | false, true => some (below + 1, e)
  | false, false => none

/-- Shortest digits of `m · 2 ^ q` with their exponent, for `m ≠ 0`. -/
def shortestDigits (m : Nat) (q : Int) : Nat × Int :=
  let i := Interval.of m q
  let k := decimalExponent i.value i.scale
  ((List.range 17).findSome? fun n => i.gridPoint? k (n + 1)).getD (m, q)

/-- Digits without their trailing zeros, and the exponent that goes with them. -/
def dropZeros : Nat → Nat × Int → Nat × Int
  | 0, p => p
  | fuel + 1, (d, e) => if d ≠ 0 && d % 10 = 0 then dropZeros fuel (d / 10, e + 1) else (d, e)

/-- Digits and exponent as text. -/
def decimalText (d : Nat) (e : Int) : List Char :=
  let digits := Nat.toDigits 10 d
  let point : Int := digits.length + e
  if -4 < point && point ≤ 16 then
    if point ≤ 0 then '0' :: '.' :: List.replicate (-point).toNat '0' ++ digits
    else if 0 ≤ e then digits ++ List.replicate e.toNat '0' ++ ['.', '0']
    else digits.take point.toNat ++ '.' :: digits.drop point.toNat
  else
    let exponent := point - 1
    let size := Nat.toDigits 10 exponent.natAbs
    (match digits with
      | [d] => [d]
      | d :: ds => d :: '.' :: ds
      | [] => []) ++
      'e' :: (if exponent < 0 then '-' else '+') ::
        (if size.length < 2 then '0' :: size else size)

/-- The text of a double: the shortest decimal that reads back as it. -/
def text (x : Float) : String :=
  match Double.ofFloat x with
  | .notANumber => "nan"
  | .infinite negative => if negative then "-inf" else "inf"
  | .finite negative m q =>
    let body :=
      if m = 0 then ['0', '.', '0']
      else
        let (d, e) := shortestDigits m q
        let (d, e) := dropZeros 20 (d, e)
        decimalText d e
    .ofList (if negative then '-' :: body else body)

end SystemAtlas.Number
