import SystemAtlas.Text.Blank

/-! # Tags

`mergeTags` puts groups of tags together: every tag without the blanks at its ends, in the order of
first occurrence, each once, and none that is blank.
-/

namespace SystemAtlas.Model

/-- The tags so far with one more. -/
def addTag (seen : List Text) (tag : Text) : List Text :=
  let tag := tag.strip
  if tag == "" || seen.contains tag then seen else seen ++ [tag]

/-- The tags of all groups. -/
def mergeTags (groups : List (List Text)) : List Text := groups.flatten.foldl addTag []

end SystemAtlas.Model
