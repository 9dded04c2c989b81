import SystemAtlas.Text.Basic

/-! # Local names

A local name names a declaration among its neighbours. It is not empty and holds no dot, because
dots part the names of a path.
-/

namespace SystemAtlas.Identifier

/-- Whether a text can be a local name. -/
def isLocalName (s : Text) : Bool := !s.isEmpty && !s.points.contains '.'

/-- A name without dots. -/
structure LocalName where
  text : Text
  plain : isLocalName text = true
  deriving DecidableEq

/-- The local name that a text is. -/
def LocalName.ofText? (s : Text) : Option LocalName :=
  if h : isLocalName s then some ⟨s, h⟩ else none

instance : Inhabited LocalName := ⟨⟨"element", by decide +kernel⟩⟩

theorem LocalName.ofText?_text (n : LocalName) : ofText? n.text = some n := by
  simp [ofText?, n.plain]

end SystemAtlas.Identifier
