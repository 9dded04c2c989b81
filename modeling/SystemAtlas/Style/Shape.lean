import SystemAtlas.Json.Basic
import SystemAtlas.Style.Fault
import SystemAtlas.Text.Casing

/-! # Shapes

The shapes an element can be drawn with. A shape is recognised by the letters of its name alone, in
either case.
-/

namespace SystemAtlas.Style

/-- The shapes of elements. -/
inductive Shape where
  | box
  | roundedBox
  | circle
  | ellipse
  | hexagon
  | diamond
  | cylinder
  | bucket
  | pipe
  | person
  | robot
  | folder
  | webBrowser
  | window
  | terminal
  | shell
  | mobileDevicePortrait
  | mobileDeviceLandscape
  | component
  deriving DecidableEq, Inhabited

namespace Shape

/-- Every shape. -/
def all : List Shape :=
  [box, roundedBox, circle, ellipse, hexagon, diamond, cylinder, bucket, pipe, person, robot,
    folder, webBrowser, window, terminal, shell, mobileDevicePortrait, mobileDeviceLandscape,
    component]

/-- The name of a shape. -/
def name : Shape → Text
  | box => "Box"
  | roundedBox => "RoundedBox"
  | circle => "Circle"
  | ellipse => "Ellipse"
  | hexagon => "Hexagon"
  | diamond => "Diamond"
  | cylinder => "Cylinder"
  | bucket => "Bucket"
  | pipe => "Pipe"
  | person => "Person"
  | robot => "Robot"
  | folder => "Folder"
  | webBrowser => "WebBrowser"
  | window => "Window"
  | terminal => "Terminal"
  | shell => "Shell"
  | mobileDevicePortrait => "MobileDevicePortrait"
  | mobileDeviceLandscape => "MobileDeviceLandscape"
  | component => "Component"

/-- The letters of a text in lower case, without everything else. -/
def letters (s : Text) : List Char :=
  s.lower.points.filterMap fun p => p.char?.filter fun c => 'a' ≤ c && c ≤ 'z'

/-- The shape whose name has the letters of a text. -/
def ofText? (s : Text) : Option Shape := all.find? fun shape => letters shape.name == letters s

/-- The shape that a value names. -/
def ofJson : Json → Except Fault Shape
  | .string s => (ofText? s).elim (.error (.unknownShape s)) .ok
  | j => .error (.shapeNotText j.inline)

end Shape

end SystemAtlas.Style
