import SystemAtlas.Json.Basic
import SystemAtlas.Number.Decimal

/-! # Writing JSON

`Json.compact` writes a value without any space, `Json.pretty` over several lines with two spaces
per level and the keys of every object in increasing order. Both write ASCII only.
-/

namespace SystemAtlas.Json

/-- One sixteen-bit unit as an escape. -/
def unitEscape (n : Nat) : List Char := '\\' :: 'u' :: Text.hexDigits 4 n

/-- A character inside a JSON string. Beyond U+FFFF it takes two units. -/
def escapedChar (c : Char) : List Char :=
  if c = '"' then ['\\', '"']
  else if c = '\\' then ['\\', '\\']
  else if c = '\n' then ['\\', 'n']
  else if c = '\r' then ['\\', 'r']
  else if c = '\t' then ['\\', 't']
  else if c.toNat = 8 then ['\\', 'b']
  else if c.toNat = 12 then ['\\', 'f']
  else if 0x20 ≤ c.toNat && c.toNat < 0x7F then [c]
  else if c.toNat < 0x10000 then unitEscape c.toNat
  else
    let n := c.toNat - 0x10000
    unitEscape (0xD800 + n / 0x400) ++ unitEscape (0xDC00 + n % 0x400)

/-- A code point inside a JSON string. Half of a surrogate pair is the unit that it is. -/
def escapedPoint : CodePoint → List Char
  | .char c => escapedChar c
  | .lone half => unitEscape half.code

/-- A text as a JSON string. -/
def stringText (s : Text) : String :=
  .ofList ('"' :: s.points.flatMap escapedPoint ++ ['"'])

/-- A floating-point number; the values that are no numbers have names. -/
def floatText (x : Float) : String :=
  match Number.Double.ofFloat x with
  | .notANumber => "NaN"
  | .infinite negative => if negative then "-Infinity" else "Infinity"
  | .finite .. => Number.text x

mutual

/-- A value without any space. -/
def compact : Json → String
  | null => "null"
  | bool b => if b then "true" else "false"
  | int i => toString i
  | float x => floatText x
  | string s => stringText s
  | array items => "[" ++ ",".intercalate (compactItems items) ++ "]"
  | object fields => "\x7b" ++ ",".intercalate (compactFields fields) ++ "\x7d"

/-- The items of an array without any space. -/
def compactItems : List Json → List String
  | [] => []
  | j :: rest => compact j :: compactItems rest

/-- The fields of an object without any space. -/
def compactFields : List (Text × Json) → List String
  | [] => []
  | (k, j) :: rest => (stringText k ++ ":" ++ compact j) :: compactFields rest

end

mutual

/-- Whether all integers of a value can be written. -/
def isWritable : Json → Bool
  | int i => Number.isWritable i
  | array items => itemsWritable items
  | object fields => fieldsWritable fields
  | _ => true

/-- Whether all integers of the items of an array can be written. -/
def itemsWritable : List Json → Bool
  | [] => true
  | j :: rest => isWritable j && itemsWritable rest

/-- Whether all integers of the fields of an object can be written. -/
def fieldsWritable : List (Text × Json) → Bool
  | [] => true
  | (_, j) :: rest => isWritable j && fieldsWritable rest

end

/-- The line break before something at the given level. -/
def lineBreak (level : Nat) : String :=
  .ofList ('\n' :: List.replicate (2 * level) ' ')

/-- Entries between brackets, one to a line at `level`; brackets alone around nothing. -/
def bracketed (opening closing : String) (level : Nat) (entries : List String) : String :=
  if entries.isEmpty then opening ++ closing
  else opening ++ lineBreak (level + 1) ++ ("," ++ lineBreak (level + 1)).intercalate entries ++
    lineBreak level ++ closing

mutual

/-- A value over several lines, its closing bracket at `level`. -/
def prettyAt (level : Nat) : Json → String
  | null => "null"
  | bool b => if b then "true" else "false"
  | int i => toString i
  | float x => floatText x
  | string s => stringText s
  | array items => bracketed "[" "]" level (prettyItems (level + 1) items)
  | object fields =>
    let sorted := (prettyFields (level + 1) fields).mergeSort fun a b => a.1.le b.1
    bracketed "\x7b" "\x7d" level (sorted.map fun f => stringText f.1 ++ ": " ++ f.2)

/-- The items of an array over several lines. -/
def prettyItems (level : Nat) : List Json → List String
  | [] => []
  | j :: rest => prettyAt level j :: prettyItems level rest

/-- The fields of an object over several lines, each with its key. -/
def prettyFields (level : Nat) : List (Text × Json) → List (Text × String)
  | [] => []
  | (k, j) :: rest => (k, prettyAt level j) :: prettyFields level rest

end

/-- A value over several lines with sorted keys. -/
def pretty (j : Json) : String := prettyAt 0 j

end SystemAtlas.Json
