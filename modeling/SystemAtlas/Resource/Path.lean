import SystemAtlas.Text.Basic

/-! # File paths

A path is a root and the names below it. Reading a path drops empty and `.` segments and keeps
`..`, so two spellings of one path are equal as values. The root of an absolute path is one slash,
or two if it was written with exactly two.
-/

namespace SystemAtlas.Resource

/-- A file path: the slashes it starts with and its names. -/
structure Path where
  root : Text
  names : List Text
  deriving DecidableEq, Inhabited

namespace Path

/-- The root of a path that starts with the given number of slashes. -/
def rootOf : Nat → Text
  | 0 => ""
  | 2 => "//"
  | _ => "/"

/-- The path a text spells. -/
def ofText (s : Text) : Path :=
  { root := rootOf (s.points.takeWhile (·.is '/')).length
    names := (s.pieces '/').filter fun n => n != "" && n != "." }

/-- The text of a path; the empty path is `.`. -/
def toText (p : Path) : Text :=
  if p.root == "" && p.names.isEmpty then "." else p.root ++ Text.intercalate "/" p.names

/-- The last name, or nothing where there is none. -/
def name (p : Path) : Text := p.names.getLast?.getD ""

/-- Whether a path starts at a root. -/
def isAbsolute (p : Path) : Bool := p.root != ""

/-- Whether a path is a name alone, or nothing, so that it says nothing of its directory. -/
def isBare (p : Path) : Bool := !p.isAbsolute && p.names.length ≤ 1

/-- The path `q` as seen from the directory `p`. -/
def append (p q : Path) : Path :=
  if q.isAbsolute then q else { p with names := p.names ++ q.names }

instance : Append Path := ⟨append⟩

/-- Whether `p` is strictly below `q`. -/
def isBelow (p q : Path) : Bool :=
  p.root == q.root && q.names.isPrefixOf p.names && q.names.length < p.names.length

end Path

end SystemAtlas.Resource
