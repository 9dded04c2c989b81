import SystemAtlas.Proofs.Model.Alike
import SystemAtlas.Proofs.Model.Naming

/-! # Entries of a script

An entry of a script is told by itself and the blocks around it. With flat ids and identifiers
everywhere, what an entry declares can be read off the entry: an element, but for the number of an
instance (`entryElement`), an environment, or a relationship between the elements that its
references mean. The declared part of a model is made of what its entries declare
(`linked_madeOf`), so it does not matter where in a block they stand. -/

namespace SystemAtlas.Model

open Text (lastName)
open Declaration (Details Named)

/-- An entry of a script, with the blocks that are open around it, innermost first. -/
abbrev Entry := List Block × Event

/-- The entries of a script inside open blocks. -/
def entriesIn : List Block → List Event → List Entry
  | _, [] => []
  | blocks, e :: events => (blocks, e) :: entriesIn (e.after blocks) events

/-- The id of the element that a block belongs to, with flat ids. -/
def Block.elementId : Block → Option Text
  | .system d | .container d | .node d _ => d.identifier.map (·.text)
  | .environment _ => none

/-- The id of the environment that a block belongs to, with flat ids. -/
def Block.environmentId : Block → Option Text
  | .environment n => n.identifier.map (·.text)
  | _ => none

/-- The owner of the innermost block. -/
def ownerOf (blocks : List Block) : Option Text := blocks.head?.bind (·.elementId)

/-- The environment of the open blocks. -/
def environmentOf (blocks : List Block) : Text :=
  (blocks.findSome? (·.environmentId)).getD ""

/-- What an entry inside open blocks makes an element of, given the definitions of instances. An
instance is left without its number. -/
def Event.make (definition : Text → Option Element) (blocks : List Block) :
    Event → Option (Text → Element)
  | .add (.person d) => some (element d (.static .person) none)
  | .enter (.system d) => some (element d (.static .softwareSystem) none)
  | .enter (.container d) => some (element d (.static .container) (ownerOf blocks))
  | .add (.component d) => some (element d (.static .component) (ownerOf blocks))
  | .enter (.node d n) =>
    some (element d (.deployed (environmentOf blocks) (.node n)) (ownerOf blocks))
  | .add (.infrastructure d) =>
    some (element d (.deployed (environmentOf blocks) .infrastructure) (ownerOf blocks))
  | .add (.group n) =>
    some fun id => { id, name := n.name, role := .deployed (environmentOf blocks) .group }
  | .add (.occurrence i) => (definition i.element.lastName).map fun q id =>
    { id
      name := q.name
      description := if i.description == "" then q.description else some i.description
      technology := q.technology
      parent := ownerOf blocks
      ownTags := i.tags
      role := .deployed (environmentOf blocks)
        (.occurrence (instanceType i.kind) q.id (i.groups.map lastName) 0) }
  | .enter (.environment _) | .leave | .relate _ => none

/-- The element that an entry declares, given the definitions of instances. -/
def entryElement (definition : Text → Option Element) (x : Entry) : Option Element :=
  (x.2.make definition x.1).bind fun make => x.2.identifier.map fun n => make n.text

/-- The element that an entry declares, unless it is an instance. -/
def plainElement (x : Entry) : Option Element := entryElement (fun _ => none) x

/-- The definitions among the elements that entries declare. -/
def definitionIn (entries : List Entry) (id : Text) : Option Element :=
  (entries.filterMap plainElement).find? (·.id == id)

/-- The display name of the environment that an entry declares. -/
def Event.environmentName : Event → Option Text
  | .enter (.environment n) => some n.name
  | _ => none

/-- The environment that an entry declares. -/
def entryEnvironment : Entry → Option Environment
  | (_, .enter (.environment n)) => n.identifier.map fun x => ⟨x.text, n.name⟩
  | _ => none

/-- The relationship that an entry declares, with the owner of the block around it. -/
def entryRelationship : Entry → Option (Option Text × Declaration.Relationship)
  | (blocks, .relate r) => some (ownerOf blocks, r)
  | _ => none

/-! ## Entries -/

variable {x : Entry} {q : Element} {definition : Text → Option Element} {blocks : List Block}
  {events : List Event} {entries : List Entry} {e : Event}

theorem map_entriesIn : (entriesIn blocks events).map (·.2) = events := by
  induction events generalizing blocks with
  | nil => rfl
  | cons e events ih => rw [entriesIn, List.map_cons, ih]

theorem id_of_make {make : Text → Element} (h : e.make definition blocks = some make) (id : Text) :
    (make id).id = id := by
  cases e with
  | enter block =>
    cases block with
    | environment n => cases h
    | _ => exact Option.some.inj h ▸ rfl
  | add leaf =>
    cases leaf with
    | occurrence i =>
      obtain ⟨q, -, rfl⟩ := Option.map_eq_some_iff.mp h
      rfl
    | _ => exact Option.some.inj h ▸ rfl
  | leave => cases h
  | relate r => cases h

theorem entryElement_eq_some_iff : entryElement definition x = some q ↔
    ∃ make, x.2.make definition x.1 = some make ∧
      ∃ n, x.2.identifier = some n ∧ q = make n.text := by
  simp only [entryElement, Option.bind_eq_some_iff, Option.map_eq_some_iff, @eq_comm _ q]

theorem id_of_entryElement (h : entryElement definition x = some q) :
    x.2.givenName = some q.id := by
  obtain ⟨make, hmake, n, hn, rfl⟩ := entryElement_eq_some_iff.mp h
  rw [Event.givenName, hn, id_of_make hmake, Option.map_some]

theorem eq_of_entryEnvironment {v : Environment} (h : entryEnvironment x = some v) :
    ∃ n m, x.2 = .enter (.environment n) ∧ n.identifier = some m ∧ v = ⟨m.text, n.name⟩ := by
  obtain ⟨blocks, e⟩ := x
  cases e with
  | enter block =>
    cases block with
    | environment n =>
      obtain ⟨m, hm, rfl⟩ := Option.map_eq_some_iff.mp h
      exact ⟨n, m, rfl, hm, rfl⟩
    | _ => cases h
  | _ => cases h

theorem id_of_entryEnvironment {v : Environment} (h : entryEnvironment x = some v) :
    x.2.givenName = some v.id := by
  obtain ⟨n, m, hx, hm, rfl⟩ := eq_of_entryEnvironment h
  rw [hx]
  exact congrArg (Option.map _) hm

theorem name_of_entryEnvironment {v : Environment} (h : entryEnvironment x = some v) :
    x.2.environmentName = some v.name := by
  obtain ⟨n, m, hx, -, rfl⟩ := eq_of_entryEnvironment h
  rw [hx, Event.environmentName]

theorem plainElement_of_isStatic (h : entryElement definition x = some q)
    (hs : q.isStatic = true) : plainElement x = some q := by
  obtain ⟨make, hmake, n, hn, rfl⟩ := entryElement_eq_some_iff.mp h
  refine entryElement_eq_some_iff.mpr ⟨make, ?_, n, hn, rfl⟩
  obtain ⟨blocks, e⟩ := x
  cases e with
  | enter block =>
    cases block with
    | environment n => cases hmake
    | _ => exact hmake
  | add leaf =>
    cases leaf with
    | occurrence i =>
      -- an instance is not static
      obtain ⟨q, -, rfl⟩ := Option.map_eq_some_iff.mp hmake
      cases hs
    | _ => exact hmake
  | leave => cases hmake
  | relate r => cases hmake

theorem keys_sublist {α : Type} {f : Entry → Option α} {key : α → Text}
    {keyOf : Event → Option Text} (hf : ∀ x y, f x = some y → keyOf x.2 = some (key y)) :
    ((entries.filterMap f).map key).Sublist ((entries.map (·.2)).filterMap keyOf) := by
  induction entries with
  | nil => exact List.Sublist.refl _
  | cons x entries ih =>
    rw [List.map_cons]
    cases hx : f x with
    | none =>
      rw [List.filterMap_cons_none hx, List.filterMap_cons]
      split
      · exact ih
      · exact ih.cons _
    | some y =>
      rw [List.filterMap_cons_some hx, List.map_cons, List.filterMap_cons_some (hf x y hx)]
      exact ih.cons_cons _

theorem filterMap_concat {α : Type} (f : Entry → Option α) :
    (entries ++ [x]).filterMap f = entries.filterMap f ++ (f x).toList := by
  rw [List.filterMap_append, List.filterMap_cons, List.filterMap_nil]
  cases f x <;> rfl

section
variable (hn : (names (entries.map (·.2))).Nodup)
include hn

theorem nodup_ids_plainElement : ((entries.filterMap plainElement).map (·.id)).Nodup :=
  hn.sublist (keys_sublist fun _ _ => id_of_entryElement)

/-- If names differ, an element that an entry declares is the definition for its id. -/
theorem definitionIn_eq_some (hx : x ∈ entries) (hq : plainElement x = some q) :
    definitionIn entries q.id = some q :=
  find?_key_of_mem (nodup_ids_plainElement hn) (List.mem_filterMap.mpr ⟨x, hx, hq⟩)

theorem definitionIn_congr {entries' : List Entry} (h : entries.Perm entries') :
    definitionIn entries = definitionIn entries' :=
  funext fun _ => find?_key_perm (nodup_ids_plainElement hn) (h.filterMap plainElement)

end

/-! ## Declaring with flat ids -/

/-- What an assembly with flat ids has declared of entries, inside open blocks. -/
structure Follows (definition : Text → Option Element) (blocks : List Block) (entries : List Entry)
    (a : Assembly) : Prop where
  mode : a.registry.mode = .flat
  owners : a.scope.blocks.map (·.element) = blocks.map (·.elementId)
  environmentIds : a.scope.blocks.map (·.environment) = blocks.map (·.environmentId)
  workspace : a.scope.workspace.element = none ∧ a.scope.workspace.environment = none
  elements : a.graph.elements.map (·.unnumbered) = entries.filterMap (entryElement definition)
  environments : a.graph.environments = entries.filterMap entryEnvironment
  pending : a.pending.map (fun p => (p.owner, p.declaration)) =
    entries.filterMap entryRelationship

namespace Follows

variable {a a' : Assembly} {name id : Text} {make : Text → Element}

section
variable (h : Follows definition blocks entries a)
include h

theorem element_eq : a.scope.element = ownerOf blocks := by
  have howners := h.owners
  rw [Scope.element, Scope.current, ownerOf]
  generalize a.scope.blocks = fs at howners
  cases fs <;> cases blocks
  · exact h.workspace.1
  · cases howners
  · cases howners
  · exact (List.cons.inj howners).1

theorem environment_eq : a.environment = environmentOf blocks := by
  have hids : a.scope.blocks.findSome? (·.environment) = blocks.findSome? (·.environmentId) := by
    have hmap := congrArg (List.findSome? id) h.environmentIds
    rwa [List.findSome?_map, List.findSome?_map] at hmap
  rw [Assembly.environment, Scope.environment, Scope.frames, List.findSome?_append, hids,
    environmentOf, List.findSome?_cons, h.workspace.2, List.findSome?_nil, Option.or_none]

/-- What an entry makes can be read off it, but for the number of an instance. -/
theorem make_eq (hdot : a.DotFree)
    (hdef : ∀ q ∈ a.graph.elements, q.isStatic = true → definition q.id = some q)
    (hm : Assembly.Makes a e name make) :
    (e.make definition blocks).map (· id) = some (make id).unnumbered := by
  have helement := h.element_eq
  have henv := h.environment_eq
  cases hm with
  | person d => rfl
  | system d => rfl
  | container d => rw [helement]; rfl
  | component d => rw [helement]; rfl
  | node d n => rw [helement, henv]; rfl
  | infrastructure d => rw [helement, henv]; rfl
  | group n => rw [henv]; rfl
  | @occurrence i q groups name hq hgroups _ =>
    obtain ⟨hmem, hrole⟩ := Assembly.definition_eq_ok hq
    have hid := Assembly.definition_lastName h.mode hdot hq
    have hgroups' : groups = i.groups.map lastName := by
      rw [mapM_eq_ok_iff] at hgroups
      refine List.forall₂_eq_eq_eq ▸ List.forall₂_map_right_iff.mpr (hgroups.imp ?_).flip
      intro x y hxy
      exact Assembly.group_lastName h.mode hdot hxy
    have hfind : definition i.element.lastName = some q := by
      rw [← hid]
      refine hdef q hmem ?_
      rw [Element.isStatic, hrole]
      cases i.kind <;> rfl
    simp only [Event.make, hfind, Option.map_some, Assembly.occurrence, Element.unnumbered,
      Role.unnumbered, DeployedPart.unnumbered, helement, henv, hgroups']

end

theorem named {d : Identifier.Declared} (h : Follows definition blocks entries a) :
    Follows definition blocks entries (a.named d) := by
  have hblocks : ∀ {α : Type} (field : Scope.Frame → α),
      (∀ f declared, field { f with declared } = field f) →
        (a.named d).scope.blocks.map field = a.scope.blocks.map field := by
    intro α field hfield
    simp only [Assembly.named, Scope.record]
    cases a.scope.blocks with
    | nil => rfl
    | cons f fs => rw [List.map_cons, List.map_cons, hfield]
  refine ⟨h.mode, (hblocks _ fun _ _ => rfl).trans h.owners,
    (hblocks _ fun _ _ => rfl).trans h.environmentIds, ?_, h.elements, h.environments, h.pending⟩
  simp only [Assembly.named, Scope.record]
  split <;> exact h.workspace

theorem leave (h : Follows definition blocks entries a) :
    Follows definition blocks.tail (entries ++ [(blocks, .leave)])
      { a with scope := a.scope.leave } := by
  refine ⟨h.mode, ?_, ?_, h.workspace, ?_, ?_, ?_⟩
  · simp only [Scope.leave, List.map_tail, h.owners]
  · simp only [Scope.leave, List.map_tail, h.environmentIds]
  · rw [filterMap_concat, ← h.elements]; exact (List.append_nil _).symm
  · rw [filterMap_concat, ← h.environments]; exact (List.append_nil _).symm
  · rw [filterMap_concat, ← h.pending]; exact (List.append_nil _).symm

theorem setAside (h : Follows definition blocks entries a) (r : Declaration.Relationship) :
    Follows definition blocks (entries ++ [(blocks, .relate r)]) (a.setAside r) := by
  refine ⟨h.mode, h.owners, h.environmentIds, h.workspace, ?_, ?_, ?_⟩
  · rw [filterMap_concat, ← h.elements]; exact (List.append_nil _).symm
  · rw [filterMap_concat, ← h.environments]; exact (List.append_nil _).symm
  · rw [filterMap_concat, ← h.pending, Assembly.setAside, List.map_append, h.element_eq]
    rfl

/-- The block that the declaration of an element opens is known by the id of the element. -/
theorem scopeAfter {line : Option Int} {path : Identifier.ScopePath} {declared : List Text}
    (h : Follows definition blocks entries a) (hm : Assembly.Makes a' e name make)
    (hid : e.givenName = some id) :
    ((e.scopeAfter a.scope ⟨path, some id, none, line, declared⟩).blocks.map (·.element) =
        (e.after blocks).map (·.elementId)) ∧
      (e.scopeAfter a.scope ⟨path, some id, none, line, declared⟩).blocks.map (·.environment) =
        (e.after blocks).map (·.environmentId) := by
  cases hm with
  | system _ | container _ | node _ _ =>
    exact ⟨congrArg₂ List.cons hid.symm h.owners, congrArg (none :: ·) h.environmentIds⟩
  | _ => exact ⟨h.owners, h.environmentIds⟩

theorem element {d : Identifier.Declared} {g : Graph} (h : Follows definition blocks entries a)
    (hmake : (e.make definition blocks).map (· id) = some (make id).unnumbered)
    (hm : Assembly.Makes a e name make) (hid : e.givenName = some id)
    (hg : a.graph.addElement (make id) = .ok g) :
    Follows definition (e.after blocks) (entries ++ [(blocks, e)]) { a.named d with
      graph := g
      scope := e.scopeAfter (a.named d).scope
        { path := d.path, element := some id, environment := none, line := e.line } } := by
  have helement : entryElement definition (blocks, e) = some (make id).unnumbered := by
    obtain ⟨n, hn, hname⟩ := Option.map_eq_some_iff.mp hid
    rw [← hmake, entryElement, hn, ← hname]
    cases e.make definition blocks <;> rfl
  obtain ⟨-, -, -, rfl⟩ := Graph.addElement_eq_ok_iff.mp hg
  have hnamed := h.named (d := d)
  obtain ⟨howners, hids⟩ := hnamed.scopeAfter hm hid
  refine ⟨h.mode, howners, hids, ?_, ?_, ?_, ?_⟩
  · cases e <;> exact hnamed.workspace
  · rw [filterMap_concat, ← h.elements, helement, List.map_append]
    rfl
  · rw [filterMap_concat, ← h.environments]
    cases hm <;> exact (List.append_nil _).symm
  · rw [filterMap_concat, ← h.pending]
    cases hm <;> exact (List.append_nil _).symm

theorem environment {d : Identifier.Declared} {n : Named} {g : Graph}
    (h : Follows definition blocks entries a)
    (hid : (Event.enter (.environment n)).givenName = some id)
    (hg : a.graph.addEnvironment ⟨id, n.name⟩ = .ok g) :
    Follows definition (.environment n :: blocks) (entries ++ [(blocks, .enter (.environment n))])
      { a.named d with
        graph := g
        scope := (a.named d).scope.enter
          { path := d.path, element := none, environment := some id, line := n.line } } := by
  obtain ⟨m, hm, rfl⟩ := Option.map_eq_some_iff.mp hid
  have hm' : n.identifier = some m := hm
  obtain ⟨-, -, rfl⟩ := Graph.addEnvironment_eq_ok_iff.mp hg
  have hnamed := h.named (d := d)
  refine ⟨h.mode, congrArg (none :: ·) hnamed.owners, congrArg₂ List.cons hid.symm
    hnamed.environmentIds, hnamed.workspace, ?_, ?_, ?_⟩
  · rw [filterMap_concat, ← h.elements]; exact (List.append_nil _).symm
  · rw [filterMap_concat, ← h.environments, entryEnvironment, hm']
    rfl
  · rw [filterMap_concat, ← h.pending]; exact (List.append_nil _).symm

/-- What an entry declares is added to what the entries before it declare. -/
theorem step (h : Follows definition blocks entries a) (hdot : a.DotFree)
    (hdef : ∀ q ∈ a.graph.elements, q.isStatic = true → definition q.id = some q)
    (he : e.Declares → e.identifier.isSome = true) (hs : Assembly.Step a e a') :
    Follows definition (e.after blocks) (entries ++ [(blocks, e)]) a' := by
  have hname : ∀ {d : Identifier.Declared} {name : Text}, e.Declares →
      d = a.naming e.identifier name → e.givenName = some (d.id a.registry.mode) := by
    intro d name hdeclares hd
    obtain ⟨n, hn⟩ := Option.isSome_iff_exists.mp (he hdeclares)
    rw [hd, Assembly.naming_of_identifier hn, h.mode, Event.givenName, hn]
    rfl
  cases hs with
  | leave => exact h.leave
  | relate r => exact h.setAside r
  | element hm hd hid _ hg =>
    exact h.element (h.make_eq hdot hdef hm) hm (hid ▸ hname hm.declares hd) hg
  | environment hd hid _ hg => exact h.environment (hid ▸ hname trivial hd) hg

/-- What the entries of a script declare is added to what the entries before them declare. -/
theorem run (h : Follows definition blocks entries a) (hdot : a.DotFree)
    (hdef : ∀ x ∈ entries ++ entriesIn blocks events, ∀ q, plainElement x = some q →
      definition q.id = some q)
    (he : Identified events)
    (hrun : events.foldlM Assembly.declare a = .ok a') :
    Follows definition (events.foldl Event.after blocks) (entries ++ entriesIn blocks events) a' ∧
      a'.DotFree := by
  induction events generalizing a blocks entries with
  | nil =>
    cases Except.ok.inj hrun
    exact ⟨(List.append_nil entries).symm ▸ h, hdot⟩
  | cons e events ih =>
    obtain ⟨m, hm, hrun⟩ := foldlM_cons_eq_ok_iff.mp hrun
    have hs := Assembly.declare_eq_ok_iff.mp hm
    have hfirst := h.step hdot (fun q hq hstatic => ?_) (he e List.mem_cons_self) hs
    · have happend : entries ++ entriesIn blocks (e :: events) =
          (entries ++ [(blocks, e)]) ++ entriesIn (e.after blocks) events := by
        rw [List.append_assoc]
        rfl
      rw [happend] at hdef ⊢
      exact ih hfirst (hdot.step hs) hdef (fun x hx => he x (List.mem_cons_of_mem _ hx)) hrun
    · have hmem : q ∈ entries.filterMap (entryElement definition) := by
        rw [← h.elements]
        exact List.mem_map.mpr ⟨q, hq, Element.unnumbered_of_isStatic hstatic⟩
      obtain ⟨x, hx, hq⟩ := List.mem_filterMap.mp hmem
      exact hdef x (List.mem_append_left _ hx) q (plainElement_of_isStatic hq hstatic)

end Follows

/-! ## Linking with flat ids -/

/-- A relationship that an entry declares leads from one id to another. -/
def Leads (s d : Text) (x : Option Text × Declaration.Relationship) : Prop :=
  Assembly.meant x.1 x.2.source = some s ∧ Assembly.meant x.1 x.2.destination = some d

/-- Linking connects just what the relationships put aside mean. -/
theorem Assembly.connects_of_linked {a a' : Assembly} {ps : List Pending} {s d : Text}
    (hm : a.registry.mode = .flat) (hdot : a.DotFree) (hps : ∀ p ∈ ps, p ∈ a.pending)
    (h : ps.foldlM link a = .ok a') : a'.graph.connects s d = true ↔
      a.graph.connects s d = true ∨ ∃ p ∈ ps, Leads s d (p.owner, p.declaration) := by
  induction ps generalizing a with
  | nil =>
    cases Except.ok.inj h
    simp
  | cons p ps ih =>
    obtain ⟨m, hm', h⟩ := foldlM_cons_eq_ok_iff.mp h
    obtain ⟨l, hl, g, hg, rfl⟩ := link_eq_ok_iff.mp hm'
    obtain ⟨x, hx, y, hy, rfl⟩ := resolveLink_eq_ok_iff.mp hl
    obtain ⟨-, -, -, -, rfl⟩ := Graph.addRelationship_eq_ok_iff.mp hg
    have hp := hps p List.mem_cons_self
    refine (ih ?_ ?_ ?_ h).trans ?_
    · exact hm
    · exact ⟨hdot.registry, hdot.frames, hdot.pending⟩
    · intro q hq
      exact hps q (List.mem_cons_of_mem _ hq)
    · have hone : Leads s d (p.owner, p.declaration) ↔ x = s ∧ y = d := by
        simp only [Leads, meant_of_endpoint hm hdot hp hx, meant_of_endpoint hm hdot hp hy,
          Option.some.injEq]
      rw [List.exists_mem_cons_iff, hone]
      simp only [Graph.connects_appended, List.mem_singleton, exists_eq_left, or_assoc]
      rfl

/-! ## The declared part of a model -/

/-- An assembly with flat ids is made of what entries declare. -/
structure Assembly.MadeOf (entries : List Entry) (a : Assembly) : Prop where
  mode : a.registry.mode = .flat
  dotFree : a.registry.DotFree
  distinct : (names (entries.map (·.2))).Nodup
  elements : a.graph.elements.map (·.unnumbered) =
    entries.filterMap (entryElement (definitionIn entries))
  environments : a.graph.environments = entries.filterMap entryEnvironment
  connects : ∀ s d, a.graph.connects s d = true ↔
    ∃ x ∈ entries.filterMap entryRelationship, Leads s d x

/-- The declared part of a model with flat ids is made of what the entries of its script declare, if
declarations have identifiers. -/
theorem linked_madeOf {members : List Declaration.ModelMember} {a : Assembly}
    (he : Identified (script members))
    (h : linked .flat members = .ok a) : a.MadeOf (entriesIn [] (script members)) := by
  obtain ⟨b, hb, h⟩ := linked_eq_ok_iff.mp h
  have hnames : (names (script members)).Nodup := by
    have hrun : b.registry.mode = .flat ∧ b.localNames.Nodup := by
      refine foldlM_invariant (P := fun b => b.registry.mode = .flat ∧ b.localNames.Nodup) ?_
        ⟨rfl, List.nodup_nil⟩ hb
      rintro s e t - ⟨hm, hn⟩ hstep
      have hs := Assembly.declare_eq_ok_iff.mp hstep
      exact ⟨hs.mode_eq.trans hm, hs.nodup_localNames hm hn⟩
    have hlocal : b.localNames = names (script members) := Assembly.localNames_of_declared he hb
    exact hlocal ▸ hrun.2
  have hdistinct : (names ((entriesIn [] (script members)).map (·.2))).Nodup :=
    map_entriesIn.symm ▸ hnames
  have hinitial : Follows (definitionIn (entriesIn [] (script members))) [] []
      { registry := { mode := .flat } } := ⟨rfl, rfl, rfl, ⟨rfl, rfl⟩, rfl, rfl, rfl⟩
  obtain ⟨hb', hdot⟩ := hinitial.run (.initial .flat)
    (fun x hx q hq => definitionIn_eq_some hdistinct hx hq) he hb
  rw [List.nil_append] at hb'
  have hnone : b.graph.relationships = [] := Assembly.relationships_of_declared hb
  have hconnects := fun s d =>
    Assembly.connects_of_linked (s := s) (d := d) hb'.mode hdot (fun _ hp => hp) h
  obtain ⟨rs, rfl, -⟩ := Assembly.appended_of_link h
  refine ⟨hb'.mode, hdot.registry, hdistinct, hb'.elements, hb'.environments, fun s d => ?_⟩
  rw [hconnects, ← hb'.pending]
  simp only [Graph.connects, hnone, List.any_nil, Bool.false_eq_true, false_or, List.mem_map,
    exists_exists_and_eq_and]

end SystemAtlas.Model
