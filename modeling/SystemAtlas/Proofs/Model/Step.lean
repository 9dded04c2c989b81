import SystemAtlas.Model.Assembly
import SystemAtlas.Proofs.Identifier.Registry
import SystemAtlas.Proofs.Model.Growth

/-! # Steps of an assembly

`Step` tells all that one entry of a script can do to an assembly: a declaration is named and its
element or environment added, a block is opened or left, a relationship is put aside. An entry is
taken exactly if it is such a step (`declare_eq_ok_iff`). -/

namespace SystemAtlas.Model

open Identifier (LocalName Declared)
open Declaration (Details Named Instance)

/-- The identifier that an entry gives to what it declares. -/
def Event.identifier : Event → Option LocalName
  | .enter (.system d) | .enter (.container d) | .enter (.node d _) => d.identifier
  | .enter (.environment n) => n.identifier
  | .add (.person d) | .add (.component d) | .add (.infrastructure d) => d.identifier
  | .add (.group n) => n.identifier
  | .add (.occurrence i) => i.identifier
  | .leave | .relate _ => none

/-- The scope after a declaration, which is inside a frame if the entry opens one. -/
def Event.scopeAfter (e : Event) (scope : Scope) (frame : Scope.Frame) : Scope :=
  match e with
  | .enter _ => scope.enter frame
  | _ => scope

namespace Assembly

variable {a a' : Assembly} {e : Event} {id name : Text} {identifier : Option LocalName}
  {make : Text → Element}

/-- The declaration that an identifier makes in the scope of an assembly, or else a display name. -/
def naming (a : Assembly) (identifier : Option LocalName) (name : Text) : Declared :=
  ⟨a.scope.path,
    match identifier with
    | some n => n.text
    | none =>
      let taken name := a.registry.contains (Declared.id a.registry.mode ⟨a.scope.path, name⟩)
      Identifier.Registry.firstFree taken (Identifier.slug name) a.registry.sequence 1⟩

/-- The assembly with a declaration added to its registry and recorded in its scope. -/
def named (a : Assembly) (d : Declared) : Assembly :=
  { a with registry := a.registry.add d, scope := a.scope.record (d.id a.registry.mode) }

/-- What an entry makes an element of: the display name it is named after, and the element for
every id. -/
inductive Makes (a : Assembly) : Event → Text → (Text → Element) → Prop where
  | person (d : Details) : Makes a (.add (.person d)) d.name (element d (.static .person) none)
  | system (d : Details) :
    Makes a (.enter (.system d)) d.name (element d (.static .softwareSystem) none)
  | container (d : Details) :
    Makes a (.enter (.container d)) d.name (element d (.static .container) a.scope.element)
  | component (d : Details) :
    Makes a (.add (.component d)) d.name (element d (.static .component) a.scope.element)
  | node (d : Details) (n : Int) : Makes a (.enter (.node d n)) d.name
    (element d (.deployed a.environment (.node n)) a.scope.element)
  | infrastructure (d : Details) : Makes a (.add (.infrastructure d)) d.name
    (element d (.deployed a.environment .infrastructure) a.scope.element)
  | group (n : Named) : Makes a (.add (.group n)) n.name fun id =>
    { id, name := n.name, role := .deployed a.environment .group }
  | occurrence {i : Instance} {q : Element} {groups : List Text} {name : Text} :
    a.definition i.kind i.element = .ok q → i.groups.mapM a.group = .ok groups →
    a.registry.localName q.id = .ok name →
    Makes a (.add (.occurrence i)) name (a.occurrence i q groups)

/-- What one entry of a script does to an assembly. -/
inductive Step (a : Assembly) : Event → Assembly → Prop where
  | leave : Step a .leave { a with scope := a.scope.leave }
  | relate (r : Declaration.Relationship) : Step a (.relate r) (a.setAside r)
  | element {e : Event} {name : Text} {make : Text → Element} {d : Declared} {id : Text}
    {g : Graph} : Makes a e name make → d = a.naming e.identifier name →
    id = d.id a.registry.mode → a.registry.Free d → a.graph.addElement (make id) = .ok g →
    Step a e { a.named d with
      graph := g
      scope := e.scopeAfter (a.named d).scope
        { path := d.path, element := some id, environment := none, line := e.line } }
  | environment {n : Named} {d : Declared} {id : Text} {g : Graph} :
    d = a.naming n.identifier n.name → id = d.id a.registry.mode → a.registry.Free d →
    a.graph.addEnvironment ⟨id, n.name⟩ = .ok g →
    Step a (.enter (.environment n)) { a.named d with
      graph := g
      scope := (a.named d).scope.enter
        { path := d.path, element := none, environment := some id, line := n.line } }

/-! ## Operations -/

theorem identify_eq : a.identify identifier name =
    (a.registry.declare (a.naming identifier name).localName a.scope.path >>= fun p =>
      .ok (p.1, { a with registry := p.2, scope := a.scope.record p.1 })) := by
  cases identifier <;> rfl

theorem identify_eq_ok_iff : a.identify identifier name = .ok (id, a') ↔
    a.registry.Free (a.naming identifier name) ∧
      id = (a.naming identifier name).id a.registry.mode ∧
      a' = a.named (a.naming identifier name) := by
  rw [identify_eq, bind_eq_ok_iff]
  constructor
  · rintro ⟨⟨id', r⟩, h, heq⟩
    obtain ⟨hfree, rfl, rfl⟩ := Identifier.Registry.declare_eq_ok_iff.mp h
    cases Except.ok.inj heq
    exact ⟨hfree, rfl, rfl⟩
  · rintro ⟨hfree, rfl, rfl⟩
    exact ⟨_, Identifier.Registry.declare_eq_ok_iff.mpr ⟨hfree, rfl, rfl⟩, rfl⟩

theorem addElement_eq_ok_iff : a.addElement identifier name make = .ok (id, a') ↔
    ∃ g, a.registry.Free (a.naming identifier name) ∧
      id = (a.naming identifier name).id a.registry.mode ∧
      a.graph.addElement (make id) = .ok g ∧
      a' = { a.named (a.naming identifier name) with graph := g } := by
  rw [addElement, bind_eq_ok_iff]
  constructor
  · rintro ⟨⟨id', b⟩, h, h'⟩
    obtain ⟨hfree, rfl, rfl⟩ := identify_eq_ok_iff.mp h
    obtain ⟨g, hg, heq⟩ := bind_eq_ok_iff.mp h'
    cases Except.ok.inj heq
    exact ⟨g, hfree, rfl, hg, rfl⟩
  · rintro ⟨g, hfree, rfl, hg, rfl⟩
    exact ⟨_, identify_eq_ok_iff.mpr ⟨hfree, rfl, rfl⟩, bind_eq_ok_iff.mpr ⟨g, hg, rfl⟩⟩

/-- A leaf is added by the element it makes. -/
theorem addLeaf_eq_ok_iff :
    (·.2) <$> a.addElement identifier name make = .ok a' ↔
      ∃ d id g, d = a.naming identifier name ∧ id = d.id a.registry.mode ∧ a.registry.Free d ∧
        a.graph.addElement (make id) = .ok g ∧ a' = { a.named d with graph := g } := by
  rw [map_eq_ok_iff]
  constructor
  · rintro ⟨⟨id, b⟩, h, rfl⟩
    obtain ⟨g, hfree, rfl, hg, rfl⟩ := addElement_eq_ok_iff.mp h
    exact ⟨_, _, g, rfl, rfl, hfree, hg, rfl⟩
  · rintro ⟨d, id, g, rfl, rfl, hfree, hg, rfl⟩
    exact ⟨_, addElement_eq_ok_iff.mpr ⟨g, hfree, rfl, hg, rfl⟩, rfl⟩

theorem openBlock_named {d : Declared} {g : Graph} {element environment : Option Text}
    {line : Option Int} (h : a.registry.Free d) :
    ({ a.named d with graph := g } : Assembly).openBlock (d.id a.registry.mode) element environment
      line = .ok { a.named d with
        graph := g
        scope := (a.named d).scope.enter { path := d.path, element, environment, line } } := by
  simp only [openBlock, named, Identifier.Registry.framePath_add h]
  rfl

theorem openElement_eq_ok_iff {d : Details} {role : Role} {parent : Option Text} :
    a.openElement d role parent = .ok a' ↔
      ∃ x id g, x = a.naming d.identifier d.name ∧ id = x.id a.registry.mode ∧
        a.registry.Free x ∧ a.graph.addElement (element d role parent id) = .ok g ∧
        a' = { a.named x with
          graph := g
          scope := (a.named x).scope.enter
            { path := x.path, element := some id, environment := none, line := d.line } } := by
  rw [openElement, bind_eq_ok_iff]
  constructor
  · rintro ⟨⟨id, b⟩, h, h'⟩
    obtain ⟨g, hfree, rfl, hg, rfl⟩ := addElement_eq_ok_iff.mp h
    simp only [openBlock_named hfree] at h'
    exact ⟨_, _, g, rfl, rfl, hfree, hg, (Except.ok.inj h').symm⟩
  · rintro ⟨x, id, g, rfl, rfl, hfree, hg, rfl⟩
    exact ⟨_, addElement_eq_ok_iff.mpr ⟨g, hfree, rfl, hg, rfl⟩, openBlock_named hfree⟩

theorem openEnvironment_eq_ok_iff {n : Named} : a.openEnvironment n = .ok a' ↔
    ∃ x id g, x = a.naming n.identifier n.name ∧ id = x.id a.registry.mode ∧ a.registry.Free x ∧
      a.graph.addEnvironment ⟨id, n.name⟩ = .ok g ∧
      a' = { a.named x with
        graph := g
        scope := (a.named x).scope.enter
          { path := x.path, element := none, environment := some id, line := n.line } } := by
  rw [openEnvironment, bind_eq_ok_iff]
  constructor
  · rintro ⟨⟨id, b⟩, h, h'⟩
    obtain ⟨hfree, rfl, rfl⟩ := identify_eq_ok_iff.mp h
    obtain ⟨g, hg, h'⟩ := bind_eq_ok_iff.mp h'
    simp only [openBlock_named hfree] at h'
    exact ⟨_, _, g, rfl, rfl, hfree, hg, (Except.ok.inj h').symm⟩
  · rintro ⟨x, id, g, rfl, rfl, hfree, hg, rfl⟩
    refine ⟨_, identify_eq_ok_iff.mpr ⟨hfree, rfl, rfl⟩, ?_⟩
    exact bind_eq_ok_iff.mpr ⟨g, hg, openBlock_named hfree⟩

theorem addInstance_eq_ok_iff {i : Instance} : a.addInstance i = .ok a' ↔
    ∃ q, a.definition i.kind i.element = .ok q ∧
      ∃ groups, i.groups.mapM a.group = .ok groups ∧
        ∃ name, a.registry.localName q.id = .ok name ∧
          (·.2) <$> a.addElement i.identifier name (a.occurrence i q groups) = .ok a' := by
  simp only [addInstance, bind_eq_ok_iff]

/-! ## Steps -/

theorem declare_eq : a.declare e = .ok a' ↔
    (match e with
      | .enter block => a.enter block
      | .leave => .ok { a with scope := a.scope.leave }
      | .add leaf => a.add leaf
      | .relate r => .ok (a.setAside r)) = .ok a' := mapError_eq_ok_iff

/-- An entry is taken exactly if it is a step, and leads where the step does. -/
theorem declare_eq_ok_iff : a.declare e = .ok a' ↔ Step a e a' := by
  rw [declare_eq]
  constructor
  · intro h
    cases e with
    | enter block =>
      cases block with
      | environment n =>
        obtain ⟨x, id, g, hx, hid, hfree, hg, rfl⟩ := openEnvironment_eq_ok_iff.mp h
        exact .environment hx hid hfree hg
      | system d =>
        obtain ⟨x, id, g, hx, hid, hfree, hg, rfl⟩ := openElement_eq_ok_iff.mp h
        exact .element (.system d) hx hid hfree hg
      | container d =>
        obtain ⟨x, id, g, hx, hid, hfree, hg, rfl⟩ := openElement_eq_ok_iff.mp h
        exact .element (.container d) hx hid hfree hg
      | node d n =>
        obtain ⟨x, id, g, hx, hid, hfree, hg, rfl⟩ := openElement_eq_ok_iff.mp h
        exact .element (.node d n) hx hid hfree hg
    | add leaf =>
      cases leaf with
      | person d =>
        obtain ⟨x, id, g, hx, hid, hfree, hg, rfl⟩ := addLeaf_eq_ok_iff.mp h
        exact .element (.person d) hx hid hfree hg
      | component d =>
        obtain ⟨x, id, g, hx, hid, hfree, hg, rfl⟩ := addLeaf_eq_ok_iff.mp h
        exact .element (.component d) hx hid hfree hg
      | infrastructure d =>
        obtain ⟨x, id, g, hx, hid, hfree, hg, rfl⟩ := addLeaf_eq_ok_iff.mp h
        exact .element (.infrastructure d) hx hid hfree hg
      | group n =>
        obtain ⟨x, id, g, hx, hid, hfree, hg, rfl⟩ := addLeaf_eq_ok_iff.mp h
        exact .element (.group n) hx hid hfree hg
      | occurrence i =>
        obtain ⟨q, hq, groups, hgs, name, hn, h⟩ := addInstance_eq_ok_iff.mp h
        obtain ⟨x, id, g, hx, hid, hfree, hg, rfl⟩ := addLeaf_eq_ok_iff.mp h
        exact .element (.occurrence hq hgs hn) hx hid hfree hg
    | leave => exact Except.ok.inj h ▸ .leave
    | relate r => exact Except.ok.inj h ▸ .relate r
  · intro h
    cases h with
    | leave => rfl
    | relate r => rfl
    | environment hx hid hfree hg =>
      exact openEnvironment_eq_ok_iff.mpr ⟨_, _, _, hx, hid, hfree, hg, rfl⟩
    | element hm hx hid hfree hg =>
      cases hm with
      | system d => exact openElement_eq_ok_iff.mpr ⟨_, _, _, hx, hid, hfree, hg, rfl⟩
      | container d => exact openElement_eq_ok_iff.mpr ⟨_, _, _, hx, hid, hfree, hg, rfl⟩
      | node d n => exact openElement_eq_ok_iff.mpr ⟨_, _, _, hx, hid, hfree, hg, rfl⟩
      | person d => exact addLeaf_eq_ok_iff.mpr ⟨_, _, _, hx, hid, hfree, hg, rfl⟩
      | component d => exact addLeaf_eq_ok_iff.mpr ⟨_, _, _, hx, hid, hfree, hg, rfl⟩
      | infrastructure d => exact addLeaf_eq_ok_iff.mpr ⟨_, _, _, hx, hid, hfree, hg, rfl⟩
      | group n => exact addLeaf_eq_ok_iff.mpr ⟨_, _, _, hx, hid, hfree, hg, rfl⟩
      | occurrence hq hgs hn =>
        refine addInstance_eq_ok_iff.mpr ⟨_, hq, _, hgs, _, hn, ?_⟩
        exact addLeaf_eq_ok_iff.mpr ⟨_, _, _, hx, hid, hfree, hg, rfl⟩

/-- A script is taken exactly if its entries are steps one after the other. -/
theorem declareAll_result (events : List Event) :
    (a.declareAll events).result = events.foldlM declare a := Progress.result_run ..

end Assembly

end SystemAtlas.Model
