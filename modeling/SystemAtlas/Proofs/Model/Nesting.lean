import SystemAtlas.Model.Script

/-! # Nesting of a script

Along a script, blocks are opened and left. `Stands` tells which entries the blocks around them
admit, and in the script of a model every entry stands where it may (`nested_script`). -/

namespace SystemAtlas.Model

open Declaration (Details Named Instance ContainerMember SystemMember NodeMember EnvironmentMember
  ModelMember)

/-- The blocks that are open after an entry, innermost first. -/
def Event.after (blocks : List Block) : Event → List Block
  | .enter block => block :: blocks
  | .leave => blocks.tail
  | .add _ | .relate _ => blocks

/-- The open blocks are deployment nodes inside a deployment environment. -/
inductive Deploys : List Block → Prop where
  | environment (n : Named) : Deploys [.environment n]
  | node {blocks : List Block} (d : Details) (n : Int) : Deploys blocks →
    Deploys (.node d n :: blocks)

/-- An entry stands in open blocks that admit it. -/
inductive Stands : List Block → Event → Prop where
  | person (d : Details) : Stands [] (.add (.person d))
  | system (d : Details) : Stands [] (.enter (.system d))
  | container (s d : Details) : Stands [.system s] (.enter (.container d))
  | component (s c d : Details) : Stands [.container c, .system s] (.add (.component d))
  | environment (n : Named) : Stands [] (.enter (.environment n))
  | group (v n : Named) : Stands [.environment v] (.add (.group n))
  | node {blocks : List Block} (d : Details) (n : Int) : Deploys blocks →
    Stands blocks (.enter (.node d n))
  | infrastructure {blocks : List Block} (p : Details) (n : Int) (d : Details) :
    Deploys blocks → Stands (.node p n :: blocks) (.add (.infrastructure d))
  | occurrence {blocks : List Block} (p : Details) (n : Int) (i : Instance) :
    Deploys blocks → Stands (.node p n :: blocks) (.add (.occurrence i))
  | relate (blocks : List Block) (r : Declaration.Relationship) : Stands blocks (.relate r)
  | leave (block : Block) (blocks : List Block) : Stands (block :: blocks) .leave

/-- Every entry of a script stands where it may. -/
inductive Nested : List Block → List Event → Prop where
  | nil (blocks : List Block) : Nested blocks []
  | cons {blocks : List Block} {e : Event} {events : List Event} : Stands blocks e →
    Nested (e.after blocks) events → Nested blocks (e :: events)

variable {blocks : List Block} {rest : List Event}

theorem Nested.around {block : Block} {inside : List Event} (hs : Stands blocks (.enter block))
    (hinside : Nested (block :: blocks) (inside ++ .leave :: rest)) :
    Nested blocks (block.around inside ++ rest) := by
  simp only [Block.around, List.cons_append, List.append_assoc, List.nil_append]
  exact .cons hs hinside

theorem Nested.leave {block : Block} (h : Nested blocks rest) :
    Nested (block :: blocks) (.leave :: rest) :=
  .cons (.leave block blocks) h

theorem Nested.flatMap {α : Type} {scriptOf : α → List Event}
    (hm : ∀ m rest, Nested blocks rest → Nested blocks (scriptOf m ++ rest)) (ms : List α)
    (h : Nested blocks rest) : Nested blocks (ms.flatMap scriptOf ++ rest) := by
  induction ms with
  | nil => exact h
  | cons m ms ih =>
    rw [List.flatMap_cons, List.append_assoc]
    exact hm m _ ih

theorem nested_container {c s : Details} (body : List ContainerMember)
    (h : Nested [.container c, .system s] rest) :
    Nested [.container c, .system s] (body.map containerEvent ++ rest) := by
  induction body with
  | nil => exact h
  | cons m body ih =>
    cases m with
    | component d => exact .cons (.component s c d) ih
    | relationship r => exact .cons (.relate _ r) ih

theorem nested_system {s : Details} (m : SystemMember) (h : Nested [.system s] rest) :
    Nested [.system s] (systemScript m ++ rest) := by
  cases m with
  | container d body => exact .around (.container s d) (nested_container body h.leave)
  | relationship r => exact .cons (.relate _ r) h

mutual

theorem nested_node : ∀ {blocks : List Block} {p : Details} {n : Int}, Deploys blocks →
    ∀ (m : NodeMember) (rest : List Event), Nested (.node p n :: blocks) rest →
      Nested (.node p n :: blocks) (nodeScript m ++ rest)
  | _, p, n, hb, .node d k body, _, h =>
    .around (.node d k (.node p n hb)) (nested_body (.node p n hb) body _ h.leave)
  | _, p, n, hb, .infrastructure d, _, h => .cons (.infrastructure p n d hb) h
  | _, p, n, hb, .occurrence i, _, h => .cons (.occurrence p n i hb) h
  | _, _, _, _, .relationship r, _, h => .cons (.relate _ r) h

theorem nested_body : ∀ {blocks : List Block} {p : Details} {n : Int}, Deploys blocks →
    ∀ (body : List NodeMember) (rest : List Event), Nested (.node p n :: blocks) rest →
      Nested (.node p n :: blocks) (bodyScript body ++ rest)
  | _, _, _, _, [], _, h => h
  | _, _, _, hb, m :: body, rest, h => by
    rw [bodyScript, List.append_assoc]
    exact nested_node hb m _ (nested_body hb body rest h)

end

theorem nested_environment {v : Named} (m : EnvironmentMember) (h : Nested [.environment v] rest) :
    Nested [.environment v] (environmentScript m ++ rest) := by
  cases m with
  | group g => exact .cons (.group v g) h
  | node d n body =>
    exact .around (.node d n (.environment v)) (nested_body (.environment v) body _ h.leave)
  | relationship r => exact .cons (.relate _ r) h

theorem nested_member (m : ModelMember) (h : Nested [] rest) :
    Nested [] (memberScript m ++ rest) := by
  cases m with
  | person d => exact .cons (.person d) h
  | system d body => exact .around (.system d) (.flatMap (fun m _ => nested_system m) body h.leave)
  | environment n body =>
    exact .around (.environment n) (.flatMap (fun m _ => nested_environment m) body h.leave)
  | relationship r => exact .cons (.relate _ r) h

/-- In the script of a model every entry stands where it may. -/
theorem nested_script (members : List ModelMember) : Nested [] (script members) := by
  have h := Nested.flatMap (fun m _ => nested_member m) members (.nil [])
  rwa [List.append_nil] at h

end SystemAtlas.Model
