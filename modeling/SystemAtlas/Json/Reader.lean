import SystemAtlas.Json.Token

/-! # Reading JSON

`Json.parse` reads a text as one value. It goes over the tokens once, with the containers still
open on a stack and a note of what must come next. A refusal names the problem and the line and
column where it is; lines end with a line feed only. Integers have a limit of digits and containers
a limit of depth.
-/

namespace SystemAtlas.Json

/-- Why a text is no JSON value, and where. -/
structure SyntaxFault where
  problem : Problem
  line : Nat
  column : Nat
  deriving DecidableEq, Inhabited

/-- A container that is still open: the items so far, last first, or the fields so far with the key
whose value comes next. -/
inductive OpenPart where
  | array (items : List Json)
  | object (fields : List (Text × Json)) (key : Text)

/-- What must come next. -/
inductive Expected where
  /-- A value. -/
  | value
  /-- A value or the end of the array that has just opened. -/
  | firstItem
  /-- A key, or the end of the object, which has just opened. -/
  | firstKey
  /-- A key of the object with these fields. -/
  | key (fields : List (Text × Json))
  /-- The colon after a key. -/
  | colon (fields : List (Text × Json)) (key : Text)
  /-- What follows the complete value. -/
  | delimiter (value : Json)

/-- The problem when a token is not what must come next. -/
def Expected.problem (stack : List OpenPart) : Expected → Problem
  | value | firstItem => .expectedValue
  | firstKey | key _ => .expectedKey
  | colon .. => .expectedColon
  | delimiter _ => if stack.isEmpty then .extraData else .expectedComma

/-- The most containers that may lie inside one another. -/
def depthLimit : Nat := 990

/-- The value the tokens spell. -/
def build (stack : List OpenPart) (next : Expected) : List Lexeme → Except Flaw Json
  | [] =>
    match next, stack with
    | .delimiter j, [] => .ok j
    | _, _ => .error ⟨next.problem stack, []⟩
  | ⟨t, here⟩ :: rest =>
    match next, stack, t with
    | .value, _, .value j | .firstItem, _, .value j => build stack (.delimiter j) rest
    | .value, _, .string s | .firstItem, _, .string s =>
      build stack (.delimiter (.string s)) rest
    | .value, _, .oversized n | .firstItem, _, .oversized n => .error ⟨.tooManyDigits n, here⟩
    | .value, _, .openArray | .firstItem, _, .openArray =>
      if stack.length < depthLimit then build (.array [] :: stack) .firstItem rest
      else .error ⟨.tooDeep "array", here⟩
    | .value, _, .openObject | .firstItem, _, .openObject =>
      if stack.length < depthLimit then build stack .firstKey rest
      else .error ⟨.tooDeep "object", here⟩
    | .firstItem, .array items :: stack, .closeArray =>
      build stack (.delimiter (.array items.reverse)) rest
    | .firstKey, _, .closeObject => build stack (.delimiter (.object [])) rest
    | .firstKey, _, .string k => build stack (.colon [] k) rest
    | .key fields, _, .string k => build stack (.colon fields k) rest
    | .colon fields k, _, .colon => build (.object fields k :: stack) .value rest
    | .delimiter j, .array items :: stack, .comma =>
      build (.array (j :: items) :: stack) .value rest
    | .delimiter j, .array items :: stack, .closeArray =>
      build stack (.delimiter (.array (j :: items).reverse)) rest
    | .delimiter j, .object fields k :: stack, .comma => build stack (.key (put fields k j)) rest
    | .delimiter j, .object fields k :: stack, .closeObject =>
      build stack (.delimiter (.object (put fields k j))) rest
    | .value, _, .flawed flaw | .firstItem, _, .flawed flaw | .firstKey, _, .flawed flaw
    | .key _, _, .flawed flaw => .error flaw
    | _, _, _ => .error ⟨next.problem stack, here⟩

/-- The line and column, both from one, of what comes after `before`. -/
def position (before : List CodePoint) : Nat × Nat :=
  (before.countP (·.is '\n') + 1, (before.reverse.takeWhile (!·.is '\n')).length + 1)

/-- The place in a text where `flaw` is. -/
def Flaw.locate (text : Text) (flaw : Flaw) : SyntaxFault :=
  let (line, column) := position (text.points.take (text.points.length - flaw.rest.length))
  ⟨flaw.problem, line, column⟩

/-- The value a text spells. A text must not start with a byte order mark. -/
def parse (text : Text) : Except SyntaxFault Json :=
  let read :=
    if text.points.head? = some '\ufeff' then .error ⟨.byteOrderMark, text.points⟩
    else build [] .value (lexemes text)
  read.mapError (Flaw.locate text)

/-- The beginning of every message about an integer with too many digits. -/
def digitsText : Text :=
  "Exceeds the limit (" ++ toString Number.digitLimit ++ " digits) for integer string conversion"

/-- The description of a problem. -/
def Problem.message : Problem → Text
  | expectedValue => "Expecting value"
  | expectedKey => "Expecting property name enclosed in double quotes"
  | expectedColon => "Expecting ':' delimiter"
  | expectedComma => "Expecting ',' delimiter"
  | extraData => "Extra data"
  | unterminatedString => "Unterminated string starting at"
  | controlCharacter => "Invalid control character at"
  | badEscape => "Invalid \\escape"
  | badCodeEscape => "Invalid \\uXXXX escape"
  | byteOrderMark => "Unexpected UTF-8 BOM (decode using utf-8-sig)"
  | tooManyDigits count =>
    digitsText ++ ": value has " ++ toString count ++ " digits; use " ++
      "sys.set_int_max_str_digits() to increase the limit"
  | tooDeep container =>
    "maximum recursion depth exceeded while decoding a JSON " ++ container ++
      " from a unicode string"

end SystemAtlas.Json
