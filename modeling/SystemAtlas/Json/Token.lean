import SystemAtlas.Json.Basic
import SystemAtlas.Number.Decimal

/-! # Tokens of JSON texts

`Json.lexemes` cuts a text into tokens, each with the rest of the text that starts with it. A text
that is no token becomes `stray`; a string that cannot be read becomes `flawed` with its problem
and the rest of the text at the fault, so that a reader reports it only where it expects a string.
In the same way an integer with too many digits becomes `oversized`.
-/

namespace SystemAtlas.Json

/-- What is wrong with a JSON text. -/
inductive Problem where
  | expectedValue
  | expectedKey
  | expectedColon
  | expectedComma
  | extraData
  | unterminatedString
  | controlCharacter
  | badEscape
  | badCodeEscape
  | byteOrderMark
  /-- An integer with more digits than can be read. -/
  | tooManyDigits (count : Nat)
  /-- A container of the given sort that lies too deep inside others. -/
  | tooDeep (container : Text)
  deriving DecidableEq, Inhabited

/-- Whether a problem is a limit of reading rather than a fault of the text. -/
def Problem.isLimit : Problem → Bool
  | tooManyDigits _ | tooDeep _ => true
  | _ => false

/-- A problem and the rest of the text where it is. -/
structure Flaw where
  problem : Problem
  rest : List CodePoint

/-- A token. Numbers and the named constants are values. -/
inductive Token where
  | openArray
  | closeArray
  | openObject
  | closeObject
  | colon
  | comma
  | value (value : Json)
  | string (value : Text)
  | flawed (flaw : Flaw)
  /-- An integer with the given number of digits, which are too many. -/
  | oversized (digits : Nat)
  | stray

/-- A token and the rest of the text that starts with it. -/
structure Lexeme where
  token : Token
  rest : List CodePoint

/-- The value of a hexadecimal digit. -/
def hexDigit? (c : Char) : Option Nat :=
  if c.isDigit then some (c.toNat - 48)
  else if 'a' ≤ c && c ≤ 'f' then some (c.toNat - 87)
  else if 'A' ≤ c && c ≤ 'F' then some (c.toNat - 55)
  else none

/-- The number written by hexadecimal digits. -/
def hexNumber? (ps : List CodePoint) : Option Nat :=
  ps.foldlM (fun n p => (p.char?.bind hexDigit?).map (16 * n + ·)) 0

/-- The character that a one-character escape stands for. -/
def escapeOf? : Char → Option Char
  | '"' => some '"'
  | '\\' => some '\\'
  | '/' => some '/'
  | 'b' => some (Char.ofNat 8)
  | 'f' => some (Char.ofNat 12)
  | 'n' => some '\n'
  | 'r' => some '\r'
  | 't' => some '\t'
  | _ => none

/-- A piece of a string: a code point, or a sixteen-bit unit that an escape spells by its number. -/
inductive Piece where
  | point (point : CodePoint)
  | unit (code : Nat)

/-- The code points of pieces. Two units that are the halves of a surrogate pair, high before low,
are one character. -/
def joinUnits : List Piece → List CodePoint
  | [] => []
  | .point p :: rest => p :: joinUnits rest
  | .unit n :: .unit m :: rest =>
    if 0xD800 ≤ n && n < 0xDC00 && 0xDC00 ≤ m && m < 0xE000 then
      .char (Char.ofNat (0x10000 + (n - 0xD800) * 0x400 + (m - 0xDC00))) :: joinUnits rest
    else .ofCode n :: joinUnits (.unit m :: rest)
  | .unit n :: rest => .ofCode n :: joinUnits rest

/-- The text of a string after its opening mark, up to its closing mark. `opening` is what starts
with the opening mark, and `pieces` what was read, last first. -/
def scanString (opening : List CodePoint) (pieces : List Piece) :
    List CodePoint → Except Flaw (Text × List CodePoint)
  | [] => .error ⟨.unterminatedString, opening⟩
  | .char '"' :: rest => .ok (⟨joinUnits pieces.reverse⟩, rest)
  | [.char '\\'] => .error ⟨.unterminatedString, opening⟩
  | .char '\\' :: .char 'u' :: a :: b :: c :: d :: rest =>
    match hexNumber? [a, b, c, d], rest with
    | some n, _ :: _ => scanString opening (.unit n :: pieces) rest
    | _, _ => .error ⟨.badCodeEscape, .char 'u' :: a :: b :: c :: d :: rest⟩
  | .char '\\' :: .char 'u' :: rest => .error ⟨.badCodeEscape, .char 'u' :: rest⟩
  | .char '\\' :: e :: rest =>
    match e.char?.bind escapeOf? with
    | some c => scanString opening (.point c :: pieces) rest
    | none => .error ⟨.badEscape, .char '\\' :: e :: rest⟩
  | p :: rest =>
    if p.code < 0x20 then .error ⟨.controlCharacter, p :: rest⟩
    else scanString opening (.point p :: pieces) rest

/-- The digits that code points start with, and the rest. -/
def digits : List CodePoint → List Char × List CodePoint
  | .char c :: rest =>
    if c.isDigit then
      let (ds, rest) := digits rest
      (c :: ds, rest)
    else ([], .char c :: rest)
  | ps => ([], ps)

/-- The digits after a decimal point, if at least one follows. -/
def fraction (ps : List CodePoint) : List Char × List CodePoint :=
  match ps with
  | .char '.' :: rest =>
    match digits rest with
    | ([], _) => ([], ps)
    | parts => parts
  | _ => ([], ps)

/-- An exponent, if at least one digit follows its mark. -/
def exponent (ps : List CodePoint) : Option Int × List CodePoint :=
  match ps with
  | mark :: rest =>
    if mark = 'e' || mark = 'E' then
      let (negative, rest) :=
        match rest with
        | .char '-' :: rest => (true, rest)
        | .char '+' :: rest => (false, rest)
        | _ => (false, rest)
      match digits rest with
      | ([], _) => (none, ps)
      | (ds, rest) =>
        let n : Int := Number.digitsValue ds
        (some (if negative then -n else n), rest)
    else (none, ps)
  | [] => (none, ps)

/-- A number without its sign. A leading zero stands alone. -/
def scanNumber (negative : Bool) (ps : List CodePoint) : Option (Json × List CodePoint) :=
  let (whole, rest) :=
    match ps with
    | .char '0' :: rest => (['0'], rest)
    | _ => digits ps
  if whole.isEmpty then none
  else
    let (decimals, rest) := fraction rest
    let (power, rest) := exponent rest
    if decimals.isEmpty && power.isNone then
      let n : Int := Number.digitsValue whole
      some (.int (if negative then -n else n), rest)
    else
      let shift : Int := power.getD 0 - decimals.length
      some (.float (Number.nearestDouble negative (whole ++ decimals) shift), rest)

/-- The rest after the code points that others must start with. -/
def after? : List CodePoint → List CodePoint → Option (List CodePoint)
  | [], ps => some ps
  | _ :: _, [] => none
  | e :: es, p :: ps => if e = p then after? es ps else none

/-- The constants by their names. -/
def constants : List (Text × Json) :=
  [("null", .null), ("true", .bool true), ("false", .bool false), ("NaN", .float (0.0 / 0.0)),
    ("Infinity", .float (1.0 / 0.0)), ("-Infinity", .float (-1.0 / 0.0))]

/-- A number or a constant at the start of code points. -/
def scanValue (ps : List CodePoint) : Option (Json × List CodePoint) :=
  (constants.findSome? fun (name, j) => (after? name.points ps).map (j, ·)) <|>
    match ps with
    | .char '-' :: rest => scanNumber true rest
    | _ => scanNumber false ps

/-- The token of a number or a constant. -/
def Token.ofValue : Json → Token
  | .int i =>
    if Number.isWritable i then .value (.int i)
    else .oversized (Nat.toDigits 10 i.natAbs).length
  | j => .value j

/-- The characters that may stand between tokens. -/
def isSpace (c : Char) : Bool := c = ' ' || c = '\t' || c = '\n' || c = '\r'

/-- The token at the start of code points that do not start with a space. -/
def token (ps : List CodePoint) : Token × List CodePoint :=
  match ps with
  | .char '[' :: rest => (.openArray, rest)
  | .char ']' :: rest => (.closeArray, rest)
  | .char '\x7b' :: rest => (.openObject, rest)
  | .char '\x7d' :: rest => (.closeObject, rest)
  | .char ':' :: rest => (.colon, rest)
  | .char ',' :: rest => (.comma, rest)
  | .char '"' :: rest =>
    match scanString ps [] rest with
    | .ok (s, rest) => (.string s, rest)
    | .error flaw => (.flawed flaw, [])
  | _ =>
    match scanValue ps with
    | some (j, rest) => (.ofValue j, rest)
    | none => (.stray, [])

/-- At most `count` tokens of code points. -/
def lexemesUpTo : Nat → List CodePoint → List Lexeme
  | 0, _ => []
  | count + 1, ps =>
    let ps := ps.dropWhile (·.satisfies isSpace)
    if ps.isEmpty then []
    else
      let (t, rest) := token ps
      ⟨t, ps⟩ :: lexemesUpTo count rest

/-- The tokens of a text. Nothing is read behind a string that cannot be read or what is no
token. -/
def lexemes (s : Text) : List Lexeme := lexemesUpTo s.points.length s.points

end SystemAtlas.Json
