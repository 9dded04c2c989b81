import SystemAtlas.Proofs.Model.Nesting
import SystemAtlas.Proofs.Model.Step

/-! # Typing of a model

In a typed graph every element has the parent that its role asks for, and an instance has a
definition of its type and groups of its environment. While a model is declared its graph is typed,
because the frames of the scope fit the blocks that are open (`Typed.step`, `Typed.run`). -/

namespace SystemAtlas.Model

open Declaration (Details Named Instance InstanceKind)

/-- How far below a root the elements of a static type stand. -/
def StaticType.depth : StaticType → Nat
  | .plain | .person | .softwareSystem => 0
  | .container => 1
  | .component => 2

section
variable {e : Element}

theorem elementType_deployed (v : Text) (part : DeployedPart) :
    (Role.deployed v part).elementType.isDeployed = true := by
  cases part with
  | occurrence t _ _ _ => cases t <;> rfl
  | _ => rfl

theorem isA_static_iff {t : StaticType} (ht : t ≠ .plain) :
    e.isA t.elementType = true ↔ e.role = .static t := by
  have hisA : e.isA t.elementType = true ↔ e.role.elementType = t.elementType := by
    cases t with
    | plain => exact absurd rfl ht
    | _ => exact beq_iff_eq
  rw [hisA]
  constructor
  · intro h
    cases hr : e.role with
    | static u =>
      rw [hr] at h
      cases t <;> cases u <;> first | rfl | cases h
    | deployed v part =>
      have hd := elementType_deployed v part
      rw [← hr, h] at hd
      cases t <;> cases hd
  · intro h
    rw [h]
    rfl

theorem isGroup_iff : e.isGroup = true ↔ ∃ v, e.role = .deployed v .group := by
  have hisA : e.isGroup = true ↔ e.role.elementType = .deploymentGroup := beq_iff_eq
  rw [hisA]
  constructor
  · intro h
    cases hr : e.role with
    | static u =>
      rw [hr] at h
      cases u <;> cases h
    | deployed v part =>
      rw [hr] at h
      cases part with
      | group => exact ⟨v, rfl⟩
      | occurrence t _ _ _ => cases t <;> cases h
      | _ => cases h
  · rintro ⟨v, h⟩
    rw [h]
    rfl

end

namespace Graph

variable {g g' : Graph} {e p q : Element} {id root : Text}

/-- An element lies directly below another one of the graph. -/
structure Below (g : Graph) (p e : Element) : Prop where
  mem : p ∈ g.elements
  parent : e.parent = some p.id

/-- The role of the definitions of a type of instance. -/
def definitionRole : InstanceType → Role
  | .plain => .static .plain
  | .container => .static .container
  | .component => .static .component

/-- An element has the parent that its role asks for, and what its role refers to is there. -/
inductive Fits (g : Graph) (e : Element) : Prop where
  | person : e.role = .static .person → e.parent = none → Fits g e
  | system : e.role = .static .softwareSystem → e.parent = none → Fits g e
  | container {p : Element} : e.role = .static .container → g.Below p e →
    p.role = .static .softwareSystem → Fits g e
  | component {p : Element} : e.role = .static .component → g.Below p e →
    p.role = .static .container → Fits g e
  | group {v : Text} : e.role = .deployed v .group → e.parent = none → Fits g e
  | rootNode {v : Text} {n : Int} : e.role = .deployed v (.node n) → e.parent = none → Fits g e
  | node {p : Element} {v : Text} {n m : Int} : e.role = .deployed v (.node n) → g.Below p e →
    p.role = .deployed v (.node m) → Fits g e
  | infrastructure {p : Element} {v : Text} {m : Int} : e.role = .deployed v .infrastructure →
    g.Below p e → p.role = .deployed v (.node m) → Fits g e
  | occurrence {p q : Element} {v : Text} {t : InstanceType} {groups : List Text} {n m : Int} :
    e.role = .deployed v (.occurrence t q.id groups n) → g.Below p e →
    p.role = .deployed v (.node m) → q ∈ g.elements → q.role = definitionRole t →
    (∀ x ∈ groups, ∃ y ∈ g.elements, y.id = x ∧ y.role = .deployed v .group) → Fits g e

/-- A forest in which every element fits. -/
structure WellTyped (g : Graph) : Prop where
  forest : g.Forest
  fits : ∀ e ∈ g.elements, g.Fits e

theorem Below.eq_of_parent (h : g.Below q e) (hg : g.Forest) (hp : p ∈ g.elements)
    (hparent : e.parent = some p.id) : q = p :=
  hg.eq_of_id h.mem hp (Option.some.inj (h.parent.symm.trans hparent))

theorem Below.mono (h : g.Below p e) (hsub : g.elements ⊆ g'.elements) : g'.Below p e :=
  ⟨hsub h.mem, h.parent⟩

theorem Fits.mono (h : g.Fits e) (hsub : g.elements ⊆ g'.elements) : g'.Fits e := by
  cases h with
  | person hr hp => exact .person hr hp
  | system hr hp => exact .system hr hp
  | container hr hp ht => exact .container hr (hp.mono hsub) ht
  | component hr hp ht => exact .component hr (hp.mono hsub) ht
  | group hr hp => exact .group hr hp
  | rootNode hr hp => exact .rootNode hr hp
  | node hr hp ht => exact .node hr (hp.mono hsub) ht
  | infrastructure hr hp ht => exact .infrastructure hr (hp.mono hsub) ht
  | occurrence hr hp ht hq hqr hgroups =>
    refine .occurrence hr (hp.mono hsub) ht (hsub hq) hqr fun x hx => ?_
    obtain ⟨y, hy, hid, hrole⟩ := hgroups x hx
    exact ⟨y, hsub hy, hid, hrole⟩

theorem Fits.mem_of_parent (h : g.Fits e) (hid : e.parent = some id) :
    id ∈ g.elements.map (·.id) := by
  have hbelow : ∀ {p : Element}, g.Below p e → id ∈ g.elements.map (·.id) := by
    intro p hp
    rw [← Option.some.inj (hp.parent.symm.trans hid)]
    exact List.mem_map_of_mem hp.mem
  cases h with
  | person _ hnone | system _ hnone | group _ hnone | rootNode _ hnone =>
    cases hnone.symm.trans hid
  | container _ hp | component _ hp | node _ hp | infrastructure _ hp | occurrence _ hp =>
    exact hbelow hp

theorem WellTyped.empty : WellTyped {} := ⟨.empty, fun _ h => absurd h List.not_mem_nil⟩

theorem WellTyped.addElement (hg : g.WellTyped) (hfits : g.Fits e)
    (h : g.addElement e = .ok g') : g'.WellTyped := by
  obtain ⟨-, -, -, rfl⟩ := addElement_eq_ok_iff.mp h
  refine ⟨hg.forest.addElement h, fun q hq => ?_⟩
  have hsub : g.elements ⊆ g.elements ++ [e] := List.subset_append_left _ _
  rcases List.mem_append.mp hq with hq | hq
  · exact (hg.fits q hq).mono hsub
  · rw [List.mem_singleton.mp hq]
    exact hfits.mono hsub

theorem WellTyped.of_elements_eq (hg : g.WellTyped) (h : g'.elements = g.elements) :
    g'.WellTyped := by
  refine ⟨hg.forest.of_elements_eq h, fun e he => ?_⟩
  rw [h] at he
  exact (hg.fits e he).mono (h ▸ List.Subset.refl _)

/-! ## Static structure -/

/-- An element is static exactly if its parent is. -/
theorem Fits.isStatic_eq (h : g.Fits e) (hg : g.Forest) (hp : p ∈ g.elements)
    (hparent : e.parent = some p.id) : p.isStatic = e.isStatic := by
  have hsame : ∀ {q : Element}, g.Below q e → q = p := fun hq => hq.eq_of_parent hg hp hparent
  have hroot : e.parent ≠ none := by rw [hparent]; exact Option.some_ne_none _
  cases h with
  | person _ hn => exact absurd hn hroot
  | system _ hn => exact absurd hn hroot
  | group _ hn => exact absurd hn hroot
  | rootNode _ hn => exact absurd hn hroot
  | container hr hb ht => cases hsame hb; simp only [Element.isStatic, hr, ht]
  | component hr hb ht => cases hsame hb; simp only [Element.isStatic, hr, ht]
  | node hr hb ht => cases hsame hb; simp only [Element.isStatic, hr, ht]
  | infrastructure hr hb ht => cases hsame hb; simp only [Element.isStatic, hr, ht]
  | occurrence hr hb ht _ _ _ => cases hsame hb; simp only [Element.isStatic, hr, ht]

theorem Forest.isStatic_of_mem (hg : g.Forest) (he : e ∈ g.elements) :
    g.isStatic e.id = e.isStatic := by
  rw [isStatic, hg.find?_of_mem he, Option.any_some]

/-- The elements of a subtree are static exactly if its root is. -/
theorem WellTyped.isStatic_of_within (hg : g.WellTyped) (h : g.Within root id) :
    g.isStatic root = g.isStatic id := by
  induction h with
  | root => rfl
  | child he hp _ ih =>
    obtain ⟨q, hq, rfl⟩ := hg.forest.parent_mem he hp
    rw [ih, hg.forest.isStatic_of_mem hq, hg.forest.isStatic_of_mem he,
      (hg.fits _ he).isStatic_eq hg.forest hq hp]

/-- The parent of a static element is of a type less deep. -/
theorem Fits.depth_lt {t : StaticType} (h : g.Fits e) (hg : g.Forest) (hp : p ∈ g.elements)
    (hparent : e.parent = some p.id) (ht : e.role = .static t) :
    ∃ u, p.role = .static u ∧ u.depth < t.depth := by
  have hroot : e.parent ≠ none := by rw [hparent]; exact Option.some_ne_none _
  have hsame : ∀ {q : Element}, g.Below q e → q = p := fun hq => hq.eq_of_parent hg hp hparent
  cases h with
  | person _ hn => exact absurd hn hroot
  | system _ hn => exact absurd hn hroot
  | container hr hb hu =>
    cases hsame hb
    cases Role.static.inj (hr.symm.trans ht)
    exact ⟨_, hu, Nat.zero_lt_one⟩
  | component hr hb hu =>
    cases hsame hb
    cases Role.static.inj (hr.symm.trans ht)
    exact ⟨_, hu, Nat.lt_succ_self 1⟩
  | _ hr => cases hr.symm.trans ht

/-- The other elements of the subtree of a static element are of types deeper than its own. -/
theorem WellTyped.depth_lt_of_within {t u : StaticType} (hg : g.WellTyped) (hp : p ∈ g.elements)
    (hu : p.role = .static u) (he : e ∈ g.elements) (ht : e.role = .static t)
    (h : g.Within p.id e.id) : p = e ∨ u.depth < t.depth := by
  generalize hid : e.id = id at h
  induction h generalizing e t with
  | root => exact .inl (hg.forest.eq_of_id hp he hid.symm)
  | @child e' p' he' hp' _ ih =>
    cases hg.forest.eq_of_id he he' hid
    obtain ⟨q, hq, rfl⟩ := hg.forest.parent_mem he hp'
    obtain ⟨v, hv, hlt⟩ := (hg.fits _ he).depth_lt hg.forest hq hp' ht
    rcases ih hq hv rfl with rfl | hlt'
    · cases Role.static.inj (hu.symm.trans hv)
      exact .inr hlt
    · exact .inr (Nat.lt_trans hlt' hlt)

theorem WellTyped.isStatic_definition (hg : g.WellTyped) (he : e ∈ g.elements)
    (h : e.definition? = some id) : g.isStatic id = true := by
  cases hg.fits e he with
  | @occurrence _ q _ t _ _ _ hr _ _ hq hqr _ =>
    simp only [Element.definition?, hr, Option.some.injEq] at h
    rw [← h, hg.forest.isStatic_of_mem hq, Element.isStatic, hqr]
    cases t <;> rfl
  | _ hr => simp [Element.definition?, hr] at h

theorem isStatic_eq_false_of_definition (hg : g.Forest) (he : e ∈ g.elements)
    (h : e.definition?.isSome = true) : g.isStatic e.id = false := by
  rw [hg.isStatic_of_mem he, Element.isStatic]
  rw [Element.definition?] at h
  split at h
  · next hr => rw [hr]
  · cases h

/-! ## Frames -/

/-- The frames of a scope are those of the open blocks: the owner of each has the role that its
block makes, and the nodes of an environment are in it. -/
inductive Frames (g : Graph) : List Block → List Scope.Frame → Prop where
  | model : Frames g [] []
  | system {d : Details} {q : Element} {f : Scope.Frame} : q ∈ g.elements →
    q.role = .static .softwareSystem → f.element = some q.id → f.environment = none →
    Frames g [.system d] [f]
  | container {d : Details} {blocks : List Block} {q : Element} {f : Scope.Frame}
    {fs : List Scope.Frame} : Frames g blocks fs → q ∈ g.elements →
    q.role = .static .container → f.element = some q.id → f.environment = none →
    Frames g (.container d :: blocks) (f :: fs)
  | environment {n : Named} {v : Text} {f : Scope.Frame} : f.element = none →
    f.environment = some v → Frames g [.environment n] [f]
  | node {d : Details} {n m : Int} {blocks : List Block} {v : Text} {q : Element}
    {f : Scope.Frame} {fs : List Scope.Frame} : Frames g blocks fs →
    fs.findSome? (·.environment) = some v → q ∈ g.elements → q.role = .deployed v (.node m) →
    f.element = some q.id → f.environment = none → Frames g (.node d n :: blocks) (f :: fs)

theorem Frames.mono {blocks : List Block} {fs : List Scope.Frame} (h : g.Frames blocks fs)
    (hsub : g.elements ⊆ g'.elements) : g'.Frames blocks fs := by
  induction h with
  | model => exact .model
  | system hq hr he hv => exact .system (hsub hq) hr he hv
  | container _ hq hr he hv ih => exact .container ih (hsub hq) hr he hv
  | environment he hv => exact .environment he hv
  | node _ hv hq hr he hn ih => exact .node ih hv (hsub hq) hr he hn

theorem Frames.tail {block : Block} {blocks : List Block} {fs : List Scope.Frame}
    (h : g.Frames (block :: blocks) fs) : g.Frames blocks fs.tail := by
  cases h with
  | system => exact .model
  | environment => exact .model
  | container h => exact h
  | node h => exact h

theorem Frames.record {blocks : List Block} {f : Scope.Frame} {fs : List Scope.Frame}
    {declared : List Text} (h : g.Frames blocks (f :: fs)) :
    g.Frames blocks ({ f with declared } :: fs) := by
  cases h with
  | system hq hr he hv => exact .system hq hr he hv
  | container h hq hr he hv => exact .container h hq hr he hv
  | environment he hv => exact .environment he hv
  | node h hv hq hr he hn => exact .node h hv hq hr he hn

end Graph

/-! ## Assemblies -/

namespace Assembly

variable {a a' : Assembly} {blocks : List Block} {e : Event} {name id : Text}
  {make : Text → Element}

/-- An assembly whose graph is typed, with open blocks that its scope fits. -/
structure Typed (blocks : List Block) (a : Assembly) : Prop where
  graph : a.graph.WellTyped
  frames : a.graph.Frames blocks a.scope.blocks
  workspace : a.scope.workspace.element = none ∧ a.scope.workspace.environment = none

theorem Typed.initial (mode : Identifier.Mode) : Typed [] { registry := { mode } } :=
  ⟨.empty, .model, rfl, rfl⟩

theorem element_of_blocks {s : Scope} {f : Scope.Frame} {fs : List Scope.Frame}
    (h : s.blocks = f :: fs) : s.element = f.element := by
  rw [Scope.element, Scope.current, h, List.headD_cons]

theorem environment_of_blocks {s : Scope} {v : Text}
    (h : s.blocks.findSome? (·.environment) = some v) : s.environment = some v := by
  rw [Scope.environment, Scope.frames, List.findSome?_append, h, Option.some_or]

theorem Typed.node (ha : Typed (.node p n :: blocks) a) : ∃ q ∈ a.graph.elements, ∃ v m,
    q.role = .deployed v (.node m) ∧ a.scope.element = some q.id ∧
      a.scope.blocks.findSome? (·.environment) = some v := by
  have hframes := ha.frames
  generalize hfs : a.scope.blocks = fs at hframes ⊢
  cases hframes with
  | node h hv hq hr he hn =>
    exact ⟨_, hq, _, _, hr, (element_of_blocks hfs).trans he, by rw [List.findSome?_cons, hn, hv]⟩

/-- A deployment node is placed in the environment around it, below the node around it if there is
one. -/
theorem Typed.deploys (ha : Typed blocks a) (hb : Deploys blocks) : ∃ v,
    a.scope.blocks.findSome? (·.environment) = some v ∧
      (a.scope.element = none ∨ ∃ q ∈ a.graph.elements, ∃ m,
        q.role = .deployed v (.node m) ∧ a.scope.element = some q.id) := by
  cases hb with
  | environment n =>
    have hframes := ha.frames
    generalize hfs : a.scope.blocks = fs at hframes ⊢
    cases hframes with
    | environment he hv =>
      refine ⟨_, by rw [List.findSome?_cons, hv], .inl ((element_of_blocks hfs).trans he)⟩
  | node d n hb =>
    obtain ⟨q, hq, v, m, hr, he, hv⟩ := ha.node
    exact ⟨v, hv, .inr ⟨q, hq, m, hr, he⟩⟩

theorem Typed.system (ha : Typed [.system s] a) : ∃ q ∈ a.graph.elements,
    q.role = .static .softwareSystem ∧ a.scope.element = some q.id := by
  have hframes := ha.frames
  generalize hfs : a.scope.blocks = fs at hframes
  cases hframes with
  | system hq hr he _ => exact ⟨_, hq, hr, (element_of_blocks hfs).trans he⟩

theorem Typed.container (ha : Typed (.container c :: blocks) a) : ∃ q ∈ a.graph.elements,
    q.role = .static .container ∧ a.scope.element = some q.id := by
  have hframes := ha.frames
  generalize hfs : a.scope.blocks = fs at hframes
  cases hframes with
  | container _ hq hr he _ => exact ⟨_, hq, hr, (element_of_blocks hfs).trans he⟩

theorem environment_eq {v : Text} (h : a.scope.environment = some v) : a.environment = v := by
  rw [environment, h, Option.getD_some]

theorem definition_eq_ok {kind : InstanceKind} {reference : Text} {q : Element}
    (h : a.definition kind reference = .ok q) :
    q ∈ a.graph.elements ∧ q.role = Graph.definitionRole (instanceType kind) := by
  obtain ⟨id, hid, h⟩ := bind_eq_ok_iff.mp h
  have haccept := Identifier.Registry.accept_of_lookup hid
  have hfind := Graph.get_eq_ok_iff.mp h
  rw [hfind, Option.any_some] at haccept
  refine ⟨(Graph.mem_of_find? hfind).1, ?_⟩
  cases kind with
  | container => exact (isA_static_iff (t := .container) (by decide)).mp haccept
  | component => exact (isA_static_iff (t := .component) (by decide)).mp haccept

theorem group_eq_ok {reference x v : Text} (hv : a.scope.environment = some v)
    (h : a.group reference = .ok x) :
    ∃ y ∈ a.graph.elements, y.id = x ∧ y.role = .deployed v .group := by
  obtain ⟨id, -, h⟩ := bind_eq_ok_iff.mp h
  split at h
  · next hgroup =>
    cases Except.ok.inj h
    rw [isGroupHere, Option.any_eq_true] at hgroup
    obtain ⟨y, hfind, hy⟩ := hgroup
    obtain ⟨hisGroup, henv⟩ := Bool.and_eq_true_iff.mp hy
    obtain ⟨hmem, hid⟩ := Graph.mem_of_find? hfind
    obtain ⟨w, hrole⟩ := isGroup_iff.mp hisGroup
    rw [beq_iff_eq, Element.environment?, hrole, hv] at henv
    exact ⟨y, hmem, hid, by rw [hrole, Option.some.inj henv]⟩
  · cases h

/-- What an entry makes where it may stand fits the graph. -/
theorem Makes.fits (ha : Typed blocks a) (hs : Stands blocks e) (hm : Makes a e name make) :
    a.graph.Fits (make id) := by
  cases hm with
  | person d => exact .person rfl rfl
  | system d => exact .system rfl rfl
  | container d =>
    cases hs with
    | container s d =>
      obtain ⟨q, hq, hr, he⟩ := ha.system
      exact .container rfl ⟨hq, he⟩ hr
  | component d =>
    cases hs with
    | component s c d =>
      obtain ⟨q, hq, hr, he⟩ := ha.container
      exact .component rfl ⟨hq, he⟩ hr
  | node d n =>
    cases hs with
    | node _ _ hb =>
      obtain ⟨v, hv, he | ⟨q, hq, m, hr, he⟩⟩ := ha.deploys hb
      · exact .rootNode rfl he
      · rw [environment_eq (environment_of_blocks hv)]
        exact .node rfl ⟨hq, he⟩ hr
  | infrastructure d =>
    cases hs with
    | infrastructure p n d hb =>
      obtain ⟨q, hq, v, m, hr, he, hv⟩ := ha.node
      rw [environment_eq (environment_of_blocks hv)]
      exact .infrastructure rfl ⟨hq, he⟩ hr
  | group n => exact .group rfl rfl
  | @occurrence i q groups name hdef hgroups _ =>
    cases hs with
    | occurrence p n i hb =>
      obtain ⟨p, hp, v, m, hr, he, hv⟩ := ha.node
      have hv := environment_of_blocks hv
      obtain ⟨hq, hqr⟩ := definition_eq_ok hdef
      have hrole : (a.occurrence i q groups id).role = .deployed v
          (.occurrence (instanceType i.kind) q.id groups (a.instanceCount q.id + 1)) := by
        rw [← environment_eq hv]
        rfl
      refine .occurrence hrole ⟨hp, he⟩ hr hq hqr fun x hx => ?_
      obtain ⟨reference, -, hreference⟩ := exists_of_forall₂_mem (mapM_eq_ok_iff.mp hgroups) hx
      exact group_eq_ok hv hreference

/-! ## Steps -/

theorem Typed.named {d : Identifier.Declared} (ha : Typed blocks a) : Typed blocks (a.named d) := by
  have hframes := ha.frames
  refine ⟨ha.graph, ?_, ?_⟩
  · simp only [Assembly.named, Scope.record]
    cases hfs : a.scope.blocks with
    | nil => rwa [hfs] at hframes
    | cons f fs =>
      rw [hfs] at hframes
      exact hframes.record
  · simp only [Assembly.named, Scope.record]
    split <;> exact ha.workspace

theorem environment_named (d : Identifier.Declared) :
    (a.named d).environment = a.environment := by
  simp only [environment, Assembly.named, Scope.environment, Scope.record, Scope.frames]
  cases a.scope.blocks <;> rfl

theorem Makes.frames {block : Block} {b : Assembly} {f : Scope.Frame} {g : Graph}
    (hm : Makes a (.enter block) name make) (hb : Typed blocks b)
    (henv : b.environment = a.environment) (hs : Stands blocks (.enter block))
    (hsub : b.graph.elements ⊆ g.elements) (hq : make id ∈ g.elements)
    (hf : f.element = some id) (hv : f.environment = none) :
    g.Frames (block :: blocks) (f :: b.scope.blocks) := by
  have hframes := hb.frames.mono hsub
  cases hm with
  | system d =>
    cases hs with
    | system d =>
      generalize b.scope.blocks = fs at hframes ⊢
      cases hframes
      exact .system hq rfl hf hv
  | container d => exact .container hframes hq rfl hf hv
  | node d n =>
    cases hs with
    | node _ _ hdeploys =>
      obtain ⟨v, hv', -⟩ := hb.deploys hdeploys
      rw [environment_eq (environment_of_blocks hv')] at henv
      exact .node hframes hv' hq (by rw [henv]; rfl) hf hv

/-- A typed assembly stays typed, inside the blocks that are open after the step. -/
theorem Typed.step (ha : Typed blocks a) (hs : Stands blocks e) (h : Step a e a') :
    Typed (e.after blocks) a' := by
  cases h with
  | leave =>
    cases hs with
    | leave block blocks => exact ⟨ha.graph, ha.frames.tail, ha.workspace⟩
  | relate r => exact ⟨ha.graph, ha.frames, ha.workspace⟩
  | @environment n d id g hd hid hfree hg =>
    obtain ⟨-, -, rfl⟩ := Graph.addEnvironment_eq_ok_iff.mp hg
    have hnamed := ha.named (d := d)
    refine ⟨ha.graph.of_elements_eq rfl, ?_, hnamed.workspace⟩
    cases hs with
    | environment =>
      have hframes := hnamed.frames
      simp only [Event.after, Scope.enter]
      generalize (a.named d).scope.blocks = fs at hframes ⊢
      cases hframes
      exact .environment rfl rfl
  | @element e name make d id g hm hd hid hfree hg =>
    have hgraph := ha.graph.addElement (hm.fits ha hs) hg
    obtain ⟨-, -, -, rfl⟩ := Graph.addElement_eq_ok_iff.mp hg
    have hsub : a.graph.elements ⊆ a.graph.elements ++ [make id] := List.subset_append_left _ _
    have hnamed := ha.named (d := d)
    refine ⟨hgraph, ?_, ?_⟩
    · cases e with
      | enter block =>
        have hmem : make id ∈ a.graph.elements ++ [make id] :=
          List.mem_append_right _ (List.mem_singleton_self _)
        exact hm.frames hnamed (environment_named d) hs hsub hmem rfl rfl
      | add leaf => exact hnamed.frames.mono hsub
      | leave => cases hm
      | relate r => cases hm
    · cases e <;> exact hnamed.workspace

/-- A typed assembly stays typed along a nested script. -/
theorem Typed.run {events : List Event} (ha : Typed blocks a) (hn : Nested blocks events)
    (h : events.foldlM declare a = .ok a') : a'.graph.WellTyped := by
  induction hn generalizing a with
  | nil blocks => exact Except.ok.inj h ▸ ha.graph
  | cons hs _ ih =>
    obtain ⟨m, hm, h⟩ := foldlM_cons_eq_ok_iff.mp h
    exact ih (ha.step hs (declare_eq_ok_iff.mp hm)) h

end Assembly

end SystemAtlas.Model
