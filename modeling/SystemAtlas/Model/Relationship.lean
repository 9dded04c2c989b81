import SystemAtlas.Json.Basic
import SystemAtlas.Model.Tags

/-! # Relationships

A link says what connects two elements; a relationship is a link with its place in a model. The tags
of a relationship start with `Relationship` and, where its interaction is known, that interaction.
-/

namespace SystemAtlas.Model

/-- How the ends of a relationship interact. -/
inductive Interaction where
  | synchronous
  | asynchronous
  | other (name : Text)
  deriving DecidableEq, Inhabited

namespace Interaction

/-- The name of an interaction. -/
def name : Interaction → Text
  | synchronous => "synchronous"
  | asynchronous => "asynchronous"
  | other name => name

/-- The interaction with the given name. -/
def ofName (s : Text) : Interaction :=
  if s == "synchronous" then synchronous else if s == "asynchronous" then asynchronous else other s

/-- The tags that an interaction gives. -/
def tags : Interaction → List Text
  | synchronous => ["Synchronous"]
  | asynchronous => ["Asynchronous"]
  | other _ => []

end Interaction

/-- A connection between two elements. `linkedTo` is the relationship it was derived from, and a
parallel link may stand beside another one with the same ends and label. -/
structure Link where
  source : Text
  destination : Text
  label : Option Text := some ""
  technology : Option Text := some ""
  interaction : Option Interaction := none
  ownTags : List Text := []
  implied : Bool := false
  parallel : Bool := false
  linkedTo : Option Text := none
  deriving DecidableEq, Inhabited

/-- The tags that every relationship with an interaction has. -/
def Link.defaultTags (interaction : Option Interaction) : List Text :=
  "Relationship" :: (interaction.map Interaction.tags).getD []

/-- The tags of a link: those of its interaction, then its own. -/
def Link.tags (l : Link) : List Text := mergeTags [defaultTags l.interaction, l.ownTags]

/-- Whether two links have the same ends and label. -/
def Link.sameKey (l m : Link) : Bool :=
  l.source == m.source && l.destination == m.destination && l.label == m.label

/-- A link with its id in a model. -/
structure Relationship extends Link where
  id : Text
  deriving DecidableEq, Inhabited

/-- A relationship as a value. -/
def Relationship.toJson (r : Relationship) : Json :=
  .object
    [("id", .string r.id), ("source", .string r.source), ("destination", .string r.destination),
      ("label", .ofText? r.label), ("technology", .ofText? r.technology),
      ("interaction", .ofText? (r.interaction.map Interaction.name)),
      ("tags", .ofTexts r.tags), ("implied", .bool r.implied), ("parallel", .bool r.parallel),
      ("linked_to", .ofText? r.linkedTo)]

end SystemAtlas.Model
