import SystemAtlas.Number.Shortest
import SystemAtlas.Text.Quoted

/-! # JSON values

Integers and floating-point numbers are kept apart, and an object keeps the order in which its keys
first appeared. `Json.inline` writes a value on one line as messages show it, with quoted texts;
`Json.plain` is the same except that a text stands for itself.
-/

namespace SystemAtlas

/-- A JSON value. -/
inductive Json where
  | null
  | bool (value : Bool)
  | int (value : Int)
  | float (value : Float)
  | string (value : Text)
  | array (items : List Json)
  | object (fields : List (Text × Json))
  deriving Inhabited

namespace Json

/-- The fields of an object. -/
abbrev Fields := List (Text × Json)

/-- The word by which messages name the type of a value. -/
def typeWord : Json → Text
  | null => "NoneType"
  | bool _ => "bool"
  | int _ => "int"
  | float _ => "float"
  | string _ => "str"
  | array _ => "list"
  | object _ => "dict"

/-- The value of the key in a list of fields. -/
def find? (fields : Fields) (key : Text) : Option Json :=
  (fields.find? (·.1 == key)).map (·.2)

/-- A list of fields in which `key` has `value`: a key keeps its place, and a new one goes last. -/
def put (fields : Fields) (key : Text) (value : Json) : Fields :=
  match fields with
  | [] => [(key, value)]
  | (k, v) :: rest => if k == key then (k, value) :: rest else (k, v) :: put rest key value

/-- The field of an object; `none` for any other value. -/
def field? (j : Json) (key : Text) : Option Json :=
  match j with
  | object fields => find? fields key
  | _ => none

/-- Whether a value counts as absent: null, false, zero, or nothing inside. -/
def isEmpty : Json → Bool
  | null => true
  | bool b => !b
  | int i => i == 0
  | float x => x == 0
  | string s => s == ""
  | array items => items.isEmpty
  | object fields => fields.isEmpty

/-- A list of texts as an array. -/
def ofTexts (xs : List Text) : Json := array (xs.map string)

/-- A text or null. -/
def ofText? : Option Text → Json
  | some s => string s
  | none => null

/-- A whole number or null. -/
def ofInt? : Option Int → Json
  | some i => int i
  | none => null

mutual

/-- A value on one line, with texts between quotation marks. -/
def inline : Json → Text
  | null => "None"
  | bool b => if b then "True" else "False"
  | int i => .ofInt i
  | float x => Number.text x
  | string s => s.quoted
  | array items => "[" ++ Text.intercalate ", " (inlineItems items) ++ "]"
  | object fields => "\x7b" ++ Text.intercalate ", " (inlineFields fields) ++ "\x7d"

/-- The items of an array, each on one line. -/
def inlineItems : List Json → List Text
  | [] => []
  | j :: rest => inline j :: inlineItems rest

/-- The fields of an object, each on one line. -/
def inlineFields : List (Text × Json) → List Text
  | [] => []
  | (k, j) :: rest => (k.quoted ++ ": " ++ inline j) :: inlineFields rest

end

/-- A value on one line; a text stands for itself. -/
def plain : Json → Text
  | string s => s
  | j => inline j

end Json

end SystemAtlas
