import SystemAtlas.Text.Basic

/-! # Faults of style rules

Why no style rule can be made of what was written for it.
-/

namespace SystemAtlas.Style

/-- A fault of a style rule. Values that are no texts are kept as they are shown. -/
inductive Fault where
  /-- The rule has no tag to select by. -/
  | noSelector
  | shapeNotText (shown : Text)
  | unknownShape (name : Text)
  | badColor (shown : Text)
  /-- A property whose value must be a text has another one. -/
  | notText (property shown : Text)
  deriving DecidableEq, Inhabited

/-- The description of a fault. -/
def Fault.message : Fault → Text
  | noSelector => "Style rule requires a tag selector"
  | shapeNotText shown => "Invalid shape: " ++ shown
  | unknownShape name => "Unknown shape: " ++ name
  | badColor shown => "Invalid color: " ++ shown
  | notText property shown => "Invalid " ++ property ++ ": " ++ shown

end SystemAtlas.Style
