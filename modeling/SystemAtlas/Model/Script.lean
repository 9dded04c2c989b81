import SystemAtlas.Declaration.Member

/-! # Scripts

The declarations of a model, one after the other as they stand in the document. What opens a block
comes before the members of the block, and the end of the block after them.
-/

namespace SystemAtlas.Model

open Declaration (Details Named Instance ContainerMember SystemMember NodeMember EnvironmentMember
  ModelMember)

/-- A declaration that opens a block. -/
inductive Block where
  | system (details : Details)
  | container (details : Details)
  | node (details : Details) (instances : Int)
  | environment (environment : Named)
  deriving DecidableEq, Inhabited

/-- A declaration of something without members. -/
inductive Leaf where
  | person (details : Details)
  | component (details : Details)
  | infrastructure (details : Details)
  | group (group : Named)
  | occurrence (occurrence : Instance)
  deriving DecidableEq, Inhabited

/-- One entry of a script. -/
inductive Event where
  | enter (block : Block)
  | leave
  | add (leaf : Leaf)
  | relate (relationship : Declaration.Relationship)
  deriving DecidableEq, Inhabited

/-- The line of a declaration that opens a block. -/
def Block.line : Block → Option Int
  | system d | container d | node d _ => d.line
  | environment n => n.line

/-- The line of a declaration without members. -/
def Leaf.line : Leaf → Option Int
  | person d | component d | infrastructure d => d.line
  | group n => n.line
  | occurrence i => i.line

/-- The line of an entry. -/
def Event.line : Event → Option Int
  | enter block => block.line
  | leave => none
  | add leaf => leaf.line
  | relate r => r.line

/-- A block around the script of its members. -/
def Block.around (block : Block) (inside : List Event) : List Event :=
  .enter block :: inside ++ [.leave]

/-- The entry of a member of a container. -/
def containerEvent : ContainerMember → Event
  | .component d => .add (.component d)
  | .relationship r => .relate r

/-- The script of a member of a software system. -/
def systemScript : SystemMember → List Event
  | .container d body => (Block.container d).around (body.map containerEvent)
  | .relationship r => [.relate r]

mutual

/-- The script of a member of a deployment node. -/
def nodeScript : NodeMember → List Event
  | .node d instances body => (Block.node d instances).around (bodyScript body)
  | .infrastructure d => [.add (.infrastructure d)]
  | .occurrence i => [.add (.occurrence i)]
  | .relationship r => [.relate r]

/-- The script of the members of a deployment node. -/
def bodyScript : List NodeMember → List Event
  | [] => []
  | m :: rest => nodeScript m ++ bodyScript rest

end

/-- The script of a member of a deployment environment. -/
def environmentScript : EnvironmentMember → List Event
  | .group g => [.add (.group g)]
  | .node d instances body => (Block.node d instances).around (bodyScript body)
  | .relationship r => [.relate r]

/-- The script of a member of a model. -/
def memberScript : ModelMember → List Event
  | .person d => [.add (.person d)]
  | .system d body => (Block.system d).around (body.flatMap systemScript)
  | .environment n body => (Block.environment n).around (body.flatMap environmentScript)
  | .relationship r => [.relate r]

/-- The script of a model. -/
def script (members : List ModelMember) : List Event := members.flatMap memberScript

theorem script_append (xs ys : List ModelMember) : script (xs ++ ys) = script xs ++ script ys :=
  List.flatMap_append

end SystemAtlas.Model
