import SystemAtlas.Declaration.Checked
import SystemAtlas.Number.Decimal
import SystemAtlas.Text.Blank

/-! # Values in documents

How the simple values of a document are read. Whole numbers and truth values may be written in other
ways than as themselves: as texts, as each other, and as floating-point numbers without a fraction.
A text that is kept may have any code points; one that is read as something else has characters
only.
-/

namespace SystemAtlas.Declaration

open Checked

/-- A text. -/
def text : Json → Checked Text
  | .string s => ok s
  | _ => fault .notString

/-- What the characters of a text are read as. -/
def readChars (read : List Char → Except Problem α) (s : Text) : Checked α :=
  s.chars?.elim (fault .notUnicode) fun cs => (ok cs).andThen read

/-! ## Whole numbers -/

/-- The whole number of a plain spelling: its digits, without a needless zero in front, after a
minus sign or not. The number of digits has a limit, which shows before what follows the digits. -/
def integerOfDigits (cs : List Char) : Except Problem Int :=
  let sign := cs.takeWhile (· == '-')
  let digits := cs.drop sign.length
  let known := digits.takeWhile Char.isDigit
  if 1 < sign.length || known.isEmpty || (known.head? = some '0' && digits != ['0']) then
    .error .notIntegerText
  else if Number.digitLimit < known.length then .error .tooLarge
  else if known.length < digits.length then .error .notIntegerText
  else
    let n : Int := Number.digitsValue digits
    .ok (if sign.isEmpty then n else -n)

/-- Characters without a point and the zeros behind it, if nothing else is behind it. -/
def dropFraction (cs : List Char) : List Char :=
  let whole := cs.takeWhile (· != '.')
  let fraction := cs.drop (whole.length + 1)
  if !fraction.isEmpty && fraction.all (· == '0') then whole else cs

/-- Digits without the zeros in front of them, among which underscores may stand. A minus sign may
follow such zeros; of zeros alone the last character is kept. -/
def dropZeros? (cs : List Char) : Option (List Char) :=
  match cs with
  | [] => none
  | '0' :: rest =>
    match rest.dropWhile fun c => c == '0' || c == '_' with
    | [] => some cs.getLast?.toList
    | c :: more => if c.isDigit || c == '-' then some (c :: more) else none
  | c :: _ => if c.isDigit then some cs else none

/-- The plain spelling that another spelling of a whole number comes down to. White space around it,
a plus sign, zeros in front, zeros behind a point and single underscores are left out. -/
def plainDigits? (cs : List Char) : Option (List Char) := do
  let cs ←
    match Text.trimBoth Text.isWhite cs with
    | '+' :: '-' :: _ => none
    | '+' :: cs => some cs
    | cs => some cs
  let digits ←
    match dropFraction cs with
    | '-' :: cs => ('-' :: ·) <$> dropZeros? cs
    | cs => dropZeros? cs
  Number.withoutUnderscores? digits

/-- The whole number of a spelling that is not plain. Too many digits do not show in it. -/
def integerOfSpelling (cs : List Char) : Except Problem Int :=
  match (plainDigits? cs).map integerOfDigits with
  | some (.ok n) => .ok n
  | _ => .error .notIntegerText

/-- The whole number that characters spell, plainly or otherwise. -/
def integerOfChars (cs : List Char) : Except Problem Int :=
  match integerOfDigits cs with
  | .error .notIntegerText => integerOfSpelling cs
  | outcome => outcome

/-- Whether a whole number fits into 64 bits with its sign. -/
def isShort (i : Int) : Bool := -(Nat.pow 2 63 : Int) ≤ i && i < (Nat.pow 2 63 : Int)

/-- The whole number that a floating-point number is. It must lie within 64 bits. -/
def integerOfFloat (x : Float) : Except Problem Int :=
  if !Number.isFinite x then .error .notFinite
  else
    match Number.whole? x with
    | none => .error .fractional
    | some i => if i.natAbs < Nat.pow 2 63 then .ok i else .error .tooLarge

/-- A whole number. -/
def integer : Json → Checked Int
  | .int i => ok i
  | .bool b => ok (if b then 1 else 0)
  | .float x => (ok x).andThen integerOfFloat
  | .string s => readChars integerOfChars s
  | _ => fault .notInteger

/-- A whole number that is at least `bound`. -/
def integerFrom (bound : Int) (j : Json) : Checked Int :=
  (integer j).ensure (bound ≤ ·) fun _ => .below bound

/-- A whole number that is at most `bound` and at least `least`. -/
def integerIn (least bound : Int) (j : Json) : Checked Int :=
  (integerFrom least j).ensure (· ≤ bound) fun _ => .above bound

/-! ## Truth values -/

/-- The words that mean true. -/
def trueWords : List String := ["1", "true", "t", "yes", "y", "on"]

/-- The words that mean false. -/
def falseWords : List String := ["0", "false", "f", "no", "n", "off"]

/-- The truth value that characters spell, in capital or small letters. -/
def booleanOfChars (cs : List Char) : Except Problem Bool :=
  let word := String.ofList (cs.map Char.toLower)
  if trueWords.contains word then .ok true
  else if falseWords.contains word then .ok false
  else .error .notBooleanText

/-- The truth value that zero or one stands for. -/
def booleanOfInt (i : Int) : Except Problem Bool :=
  if i = 0 then .ok false
  else if i = 1 then .ok true
  else .error (if isShort i then .notBooleanText else .notBoolean)

/-- A truth value. -/
def boolean : Json → Checked Bool
  | .bool b => ok b
  | .int i => (ok i).andThen booleanOfInt
  | .float x =>
    match integerOfFloat x with
    | .ok i => (ok i).andThen booleanOfInt
    | .error _ => fault .notBoolean
  | .string s => readChars booleanOfChars s
  | _ => fault .notBoolean

/-! ## Choices -/

/-- One of the given texts, as what it stands for. -/
def choice (options : List (Text × α)) (j : Json) : Checked α :=
  let refused := Problem.notOneOf (options.map (·.1))
  match j with
  | .string s =>
    readChars (fun cs => (options.lookup (.ofChars cs)).elim (.error refused) .ok) s
  | _ => fault refused

/-! ## Composite values -/

/-- A value or null. -/
def optional (read : Json → Checked α) : Json → Checked (Option α)
  | .null => ok none
  | j => some <$> read j

/-- Items from position `i` on. -/
def itemsFrom (read : Json → Checked α) (i : Nat) : List Json → Checked (List α)
  | [] => ok []
  | j :: rest => List.cons <$> (read j).under (.ofNat i) <*> itemsFrom read (i + 1) rest

/-- A list. -/
def list (read : Json → Checked α) : Json → Checked (List α)
  | .array items => itemsFrom read 0 items
  | _ => fault .notList

/-- A list of texts. -/
def texts : Json → Checked (List Text) := list text

/-- The texts under the keys of an object. -/
def entries : Json.Fields → Checked (List (Text × Text))
  | [] => ok []
  | (k, j) :: rest =>
    List.cons <$> ((fun s => (k, s)) <$> (text j).under k.lossy) <*> entries rest

/-- An object with texts for values. -/
def dictionary : Json → Checked (List (Text × Text))
  | .object fields => entries fields
  | _ => fault .notObject

end SystemAtlas.Declaration
