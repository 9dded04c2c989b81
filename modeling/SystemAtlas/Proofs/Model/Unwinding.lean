import SystemAtlas.Proofs.Model.Step
import SystemAtlas.Proofs.Refusal

/-! # Failures on their way out of blocks

Declarations can also be handled as they are nested: a block is opened, its body handled, and the
block left. A failure then leaves block after block, and each of them annotates it once more. This
is the same as going through the script and annotating a failure once, where it arises
(`declareAll_eq_handleAll`): an annotation keeps the scope that is there already, and the lines that
the blocks offer one after the other come to that of the nearest block that has one. -/

namespace SystemAtlas

/-! ## Annotating again -/

namespace Failure

variable {f : Failure} {scope scope' : List Text} {line line' : Option Int}

/-- A failure tells the scope that it arose in, if it is a build error. -/
def IsScoped (f : Failure) : Prop := ∀ e, f = .build e → e.scope ≠ []

theorem isScoped_annotate (h : scope ≠ []) : (f.annotate scope line).IsScoped := by
  intro e he
  cases f with
  | build x =>
    cases he
    dsimp only
    split
    · exact h
    · next hne => simpa using hne
  | _ => cases he

theorem annotate_annotate :
    (f.annotate scope line).annotate scope line' = f.annotate scope (line <|> line') := by
  cases f with
  | build e =>
    cases hscope : e.scope <;> cases hline : e.line <;> cases scope <;>
      simp [annotate, onBuild, hscope, hline]
  | _ => rfl

theorem IsScoped.annotate_eq (h : f.IsScoped) :
    f.annotate scope line = f.annotate scope' line := by
  cases f with
  | build e => simp [annotate, onBuild, h e rfl]
  | _ => rfl

@[simp] theorem annotate_nothing : f.annotate [] none = f := by
  cases f with
  | build e =>
    obtain ⟨cause, scope, line, phase⟩ := e
    cases scope <;> simp [annotate, onBuild]
  | _ => rfl

end Failure

/-! ## Outlines of scopes -/

namespace Scope

variable {s : Scope}

/-- A scope without what is recorded as declared in its blocks. -/
def outline (s : Scope) : Scope where
  blocks := s.blocks.map ({ · with declared := [] })
  workspace := { s.workspace with declared := [] }

@[simp] theorem outline_record (id : Text) : (s.record id).outline = s.outline := by
  rw [record]
  split
  · next h => simp [outline, h]
  · next h => simp [outline, h]

theorem outline_leave : s.leave.outline = s.outline.leave := by
  simp only [outline, leave, List.map_tail]

theorem path_outline : s.outline.path = s.path := by
  simp only [path, current, outline]
  cases s.blocks <;> rfl

theorem line_outline : s.outline.line = s.line := by
  simp only [line, frames, outline, List.findSome?_append, List.findSome?_map]
  rfl

theorem line_enter (f : Frame) : (s.enter f).line = (f.line <|> s.line) := by
  rw [line, frames, enter, List.cons_append, List.findSome?_cons]
  cases f.line <;> rfl

variable {t : Scope} (h : s.outline = t.outline)
include h

theorem path_eq_of_outline : s.path = t.path := by rw [← path_outline, h, path_outline]

theorem line_eq_of_outline : s.line = t.line := by rw [← line_outline, h, line_outline]

end Scope

namespace Model

open Declaration (ContainerMember SystemMember NodeMember EnvironmentMember ModelMember)

namespace Assembly

variable {a b : Assembly} {block : Block}

theorem Step.outline_eq {leaf : Leaf} (h : Step a (.add leaf) b) :
    b.scope.outline = a.scope.outline := by
  cases h
  apply Scope.outline_record

theorem Step.outline_enter (h : Step a (.enter block) b) : ∃ f : Scope.Frame, f.path ≠ [] ∧
    f.line = block.line ∧ b.scope.outline = (a.scope.enter f).outline := by
  have hframe : ∀ (d : Identifier.Declared) element environment,
      ((a.named d).scope.enter ⟨d.path, element, environment, block.line, []⟩).outline =
        (a.scope.enter ⟨d.path, element, environment, block.line, []⟩).outline := by
    intro d element environment
    simp only [Scope.enter, Scope.outline, List.map_cons, Scope.mk.injEq, List.cons.injEq, true_and]
    exact Scope.mk.inj (Scope.outline_record _)
  cases h with
  | element => exact ⟨_, by simp [Identifier.Declared.path], rfl, hframe _ _ _⟩
  | environment => exact ⟨_, by simp [Identifier.Declared.path], rfl, hframe _ _ _⟩

/-! ## Handling what is nested -/

/-- What is done with an assembly. -/
abbrev Handler := Assembly → Except Failure Assembly

/-- A declaration without members is added. -/
def handleLeaf (leaf : Leaf) : Handler := fun a =>
  (a.add leaf).mapError (·.annotate a.scope.path leaf.line)

/-- A relationship is put aside. -/
def handleRelationship (r : Declaration.Relationship) : Handler := fun a => .ok (a.setAside r)

/-- A block is opened, its body handled, and the block left. A failure in the body is annotated when
it leaves the block. -/
def handleBlock (block : Block) (body : Handler) : Handler := fun a =>
  let after := do
    let inside ← body (← a.enter block)
    return { inside with scope := inside.scope.leave }
  after.mapError (·.annotate a.scope.path block.line)

def handleContainer : ContainerMember → Handler
  | .component d => handleLeaf (.component d)
  | .relationship r => handleRelationship r

def handleSystem : SystemMember → Handler
  | .container d body => handleBlock (.container d) (body.foldlM fun a m => handleContainer m a)
  | .relationship r => handleRelationship r

mutual

def handleNode : NodeMember → Handler
  | .node d instances body => handleBlock (.node d instances) (handleBody body)
  | .infrastructure d => handleLeaf (.infrastructure d)
  | .occurrence i => handleLeaf (.occurrence i)
  | .relationship r => handleRelationship r

def handleBody : List NodeMember → Handler
  | [] => .ok
  | m :: rest => fun a => handleNode m a >>= handleBody rest

end

def handleEnvironment : EnvironmentMember → Handler
  | .group g => handleLeaf (.group g)
  | .node d instances body => handleBlock (.node d instances) (handleBody body)
  | .relationship r => handleRelationship r

def handleMember : ModelMember → Handler
  | .person d => handleLeaf (.person d)
  | .system d body => handleBlock (.system d) (body.foldlM fun a m => handleSystem m a)
  | .environment n body =>
    handleBlock (.environment n) (body.foldlM fun a m => handleEnvironment m a)
  | .relationship r => handleRelationship r

/-- The members of a model are handled in their order. -/
def handleAll (members : List ModelMember) : Handler :=
  members.foldlM fun a m => handleMember m a

/-! ## Scripts and handlers -/

/-- A handler does what a script does. Its failures lack the annotations of the blocks around it,
but have a scope if there is a block. -/
structure Handles (events : List Event) (handle : Handler) : Prop where
  result : ∀ a, events.foldlM declare a =
    (handle a).mapError (·.annotate a.scope.path a.scope.line)
  outline : ∀ a b, handle a = .ok b → b.scope.outline = a.scope.outline
  failures : ∀ a, a.scope.path ≠ [] → FailsAs Failure.IsScoped (handle a)

namespace Handles

variable {events more : List Event} {handle after : Handler}

theorem leaf (l : Leaf) : Handles [.add l] (handleLeaf l) where
  result a := by
    rw [List.foldlM_cons, declare, handleLeaf]
    cases a.add l with
    | ok b => rfl
    | error f => exact congrArg Except.error Failure.annotate_annotate.symm
  outline a b h := by
    have hdeclare : a.declare (.add l) = .ok b := mapError_eq_ok_iff.mpr (mapError_eq_ok_iff.mp h)
    exact (declare_eq_ok_iff.mp hdeclare).outline_eq
  failures a ha := FailsAs.mapError (P := fun _ => True) (fun _ _ => trivial)
    fun _ _ => Failure.isScoped_annotate ha

theorem relationship (r : Declaration.Relationship) :
    Handles [.relate r] (handleRelationship r) where
  result _ := rfl
  outline _ _ h := Except.ok.inj h ▸ rfl
  failures _ _ := .ok

theorem nil : Handles [] .ok where
  result _ := rfl
  outline _ _ h := Except.ok.inj h ▸ rfl
  failures _ _ := .ok

theorem append (h : Handles events handle) (h' : Handles more after) :
    Handles (events ++ more) fun a => handle a >>= after where
  result a := by
    rw [List.foldlM_append, h.result]
    cases hb : handle a with
    | error f => rfl
    | ok b =>
      have houtline := h.outline a b hb
      rw [← Scope.path_eq_of_outline houtline, ← Scope.line_eq_of_outline houtline]
      exact h'.result b
  outline a c hc := by
    obtain ⟨b, hb, hc⟩ := bind_eq_ok_iff.mp hc
    exact (h'.outline b c hc).trans (h.outline a b hb)
  failures a ha := (h.failures a ha).bind fun b hb =>
    h'.failures b (Scope.path_eq_of_outline (h.outline a b hb) ▸ ha)

theorem foldlM {α : Type} {scriptOf : α → List Event} {handleOf : α → Handler}
    (h : ∀ m, Handles (scriptOf m) (handleOf m)) (ms : List α) :
    Handles (ms.flatMap scriptOf) (ms.foldlM fun a m => handleOf m a) := by
  induction ms with
  | nil => exact nil
  | cons m ms ih => exact (h m).append ih

/-- A failure in a block has the scope of the block, and the line that the block has or else one
around it, as it would have if it were annotated where it arises. -/
theorem around (h : Handles events handle) (block : Block) :
    Handles (block.around events) (handleBlock block handle) where
  result a := by
    rw [Block.around, List.cons_append, List.foldlM_cons, declare, handleBlock]
    cases henter : a.enter block with
    | error f => exact congrArg Except.error Failure.annotate_annotate.symm
    | ok inside =>
      have hdeclare : a.declare (.enter block) = .ok inside := mapError_eq_ok_iff.mpr henter
      obtain ⟨f, hpath, hline, houtline⟩ := (declare_eq_ok_iff.mp hdeclare).outline_enter
      have hlines : inside.scope.line = (block.line <|> a.scope.line) := by
        rw [Scope.line_eq_of_outline houtline, Scope.line_enter, hline]
      calc (events ++ [Event.leave]).foldlM declare inside
        _ = (handle inside).mapError (·.annotate inside.scope.path inside.scope.line) >>=
            fun b => .ok { b with scope := b.scope.leave } := by
          rw [List.foldlM_append, h.result]
          rfl
        _ = ((handle inside >>= fun b => .ok { b with scope := b.scope.leave }).mapError
              (·.annotate a.scope.path block.line)).mapError
              (·.annotate a.scope.path a.scope.line) := by
          cases hhandle : handle inside with
          | ok b => rfl
          | error x =>
            have hinside : inside.scope.path ≠ [] := Scope.path_eq_of_outline houtline ▸ hpath
            have hx : x.annotate inside.scope.path inside.scope.line =
                x.annotate a.scope.path (block.line <|> a.scope.line) :=
              hlines ▸ (h.failures inside hinside x hhandle).annotate_eq
            exact congrArg Except.error (hx.trans Failure.annotate_annotate.symm)
  outline a b hb := by
    obtain ⟨inside, henter, hb⟩ := bind_eq_ok_iff.mp (mapError_eq_ok_iff.mp hb)
    obtain ⟨c, hc, hb⟩ := bind_eq_ok_iff.mp hb
    cases Except.ok.inj hb
    have hdeclare : a.declare (.enter block) = .ok inside := mapError_eq_ok_iff.mpr henter
    obtain ⟨f, -, -, houtline⟩ := (declare_eq_ok_iff.mp hdeclare).outline_enter
    rw [Scope.outline_leave, h.outline inside c hc, houtline, ← Scope.outline_leave,
      Scope.leave_enter]
  failures a ha := FailsAs.mapError (P := fun _ => True) (fun _ _ => trivial)
    fun _ _ => Failure.isScoped_annotate ha

theorem container (m : ContainerMember) : Handles [containerEvent m] (handleContainer m) := by
  cases m with
  | component d => exact .leaf _
  | relationship r => exact .relationship r

theorem system (m : SystemMember) : Handles (systemScript m) (handleSystem m) := by
  cases m with
  | container d body =>
    rw [systemScript, List.map_eq_flatMap]
    exact (foldlM container body).around _
  | relationship r => exact .relationship r

mutual

theorem node : ∀ m : NodeMember, Handles (nodeScript m) (handleNode m)
  | .node d n members => by
    rw [nodeScript, handleNode]
    exact (body members).around _
  | .infrastructure d => by
    rw [nodeScript, handleNode]
    exact .leaf _
  | .occurrence i => by
    rw [nodeScript, handleNode]
    exact .leaf _
  | .relationship r => by
    rw [nodeScript, handleNode]
    exact .relationship r

theorem body : ∀ members : List NodeMember, Handles (bodyScript members) (handleBody members)
  | [] => by
    rw [bodyScript, handleBody]
    exact .nil
  | m :: rest => by
    rw [bodyScript, handleBody]
    exact (node m).append (body rest)

end

theorem environment (m : EnvironmentMember) :
    Handles (environmentScript m) (handleEnvironment m) := by
  cases m with
  | group g => exact .leaf _
  | node d n members => exact (body members).around _
  | relationship r => exact .relationship r

theorem member (m : ModelMember) : Handles (memberScript m) (handleMember m) := by
  cases m with
  | person d => exact .leaf _
  | system d body => exact (foldlM system body).around _
  | environment n body => exact (foldlM environment body).around _
  | relationship r => exact .relationship r

end Handles

/-- Failures that are annotated by every block they leave are those of the script. -/
theorem declareAll_eq_handleAll (mode : Identifier.Mode) (members : List ModelMember) :
    (declareAll { registry := { mode } } (script members)).result =
      handleAll members { registry := { mode } } := by
  have hall : Handles (script members) (handleAll members) := .foldlM .member members
  rw [declareAll_result, hall.result]
  cases handleAll members { registry := { mode } } with
  | ok a => rfl
  | error f => exact congrArg Except.error Failure.annotate_nothing

end Assembly

end Model

end SystemAtlas
