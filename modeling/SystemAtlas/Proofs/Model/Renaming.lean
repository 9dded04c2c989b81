import Mathlib.Data.List.Find
import SystemAtlas.Proofs.Model.Derived

/-! # Renaming the ids of a model

A renaming that keeps the ids of a graph apart changes nothing but the ids: elements are found,
walked upward from and connected as before, and the additions and derivations that succeed in the
graph succeed in the renamed one (`withImplied_rename`, `withInstanceRelationships_rename`). -/

namespace SystemAtlas.Model

/-- A part of an environment with the ids it mentions renamed. -/
def DeployedPart.rename (σ : Text → Text) : DeployedPart → DeployedPart
  | .occurrence t definition groups n => .occurrence t (σ definition) (groups.map σ) n
  | part => part

/-- A role with the ids it mentions renamed. -/
def Role.rename (σ : Text → Text) : Role → Role
  | .static t => .static t
  | .deployed v part => .deployed (σ v) (part.rename σ)

/-- An element with the ids it mentions renamed, its own among them. -/
def Element.rename (σ : Text → Text) (e : Element) : Element :=
  { e with id := σ e.id, parent := e.parent.map σ, role := e.role.rename σ }

/-- An environment with its id renamed. -/
def Environment.rename (σ : Text → Text) (v : Environment) : Environment := { v with id := σ v.id }

/-- A link with its ends renamed. -/
def Link.rename (σ : Text → Text) (l : Link) : Link :=
  { l with source := σ l.source, destination := σ l.destination }

/-- A relationship with its ends renamed. It keeps its id. -/
def Relationship.rename (σ : Text → Text) (r : Relationship) : Relationship :=
  { r.toLink.rename σ with id := r.id }

/-- A graph with the ids of its elements and environments renamed. -/
def Graph.rename (σ : Text → Text) (g : Graph) : Graph :=
  { g with
    elements := g.elements.map (·.rename σ)
    relationships := g.relationships.map (·.rename σ)
    environments := g.environments.map (·.rename σ) }

/-- A renaming keeps ids apart. -/
def Apart (σ : Text → Text) (S : Text → Prop) : Prop := ∀ x y, S x → S y → σ x = σ y → x = y

variable {σ : Text → Text} {S T : Text → Prop} {e : Element} {id x y : Text}

theorem Apart.beq_eq (hσ : Apart σ S) (hx : S x) (hy : S y) : (σ x == σ y) = (x == y) := by
  rw [Bool.eq_iff_iff, beq_iff_eq, beq_iff_eq]
  exact ⟨hσ x y hx hy, congrArg σ⟩

theorem Apart.optionBeq_eq (hσ : Apart σ S) {o : Option Text} (ho : ∀ x, o = some x → S x)
    (hy : S y) : (o.map σ == some (σ y)) = (o == some y) := by
  cases o with
  | none => rfl
  | some x => exact hσ.beq_eq (ho x rfl) hy

/-! ## Elements -/

namespace Element

/-- The ids that an element mentions are among the given ones. -/
structure Over (S : Text → Prop) (e : Element) : Prop where
  id : S e.id
  parent : ∀ p, e.parent = some p → S p
  environment : ∀ v, e.environment? = some v → S v
  definition : ∀ d, e.definition? = some d → S d
  groups : ∀ x ∈ e.groups, S x

theorem Over.mono (h : e.Over S) (hST : ∀ x, S x → T x) : e.Over T :=
  ⟨hST _ h.id, fun p hp => hST p (h.parent p hp), fun v hv => hST v (h.environment v hv),
    fun d hd => hST d (h.definition d hd), fun x hx => hST x (h.groups x hx)⟩

theorem type_rename : (e.rename σ).type = e.type := by
  simp only [type, rename]
  cases e.role with
  | static _ => rfl
  | deployed _ part => cases part <;> rfl

theorem isA_rename (t : ElementType) : (e.rename σ).isA t = e.isA t := by
  rw [isA, isA, type_rename]

theorem isStatic_rename : (e.rename σ).isStatic = e.isStatic := by
  simp only [isStatic, rename]
  cases e.role <;> rfl

theorem environment?_rename : (e.rename σ).environment? = e.environment?.map σ := by
  simp only [environment?, rename]
  cases e.role <;> rfl

theorem definition?_rename : (e.rename σ).definition? = e.definition?.map σ := by
  simp only [definition?, rename]
  cases e.role with
  | static _ => rfl
  | deployed _ part => cases part <;> rfl

theorem groups_rename : (e.rename σ).groups = e.groups.map σ := by
  simp only [groups, rename]
  cases e.role with
  | static _ => rfl
  | deployed _ part => cases part <;> rfl

theorem sharesGroupWith_rename {e' : Element} (hσ : Apart σ S) (he : e.Over S) (he' : e'.Over S) :
    (e.rename σ).sharesGroupWith (e'.rename σ) = e.sharesGroupWith e' := by
  have hany : (e.groups.map σ).any (e'.groups.map σ).contains =
      e.groups.any e'.groups.contains := by
    rw [Bool.eq_iff_iff]
    simp only [List.any_eq_true, List.contains_iff_mem, List.mem_map]
    constructor
    · rintro ⟨_, ⟨x, hx, rfl⟩, y, hy, hxy⟩
      exact ⟨x, hx, hσ y x (he'.groups y hy) (he.groups x hx) hxy ▸ hy⟩
    · rintro ⟨x, hx, hx'⟩
      exact ⟨σ x, ⟨x, hx, rfl⟩, x, hx', rfl⟩
  simp only [sharesGroupWith, groups_rename, List.isEmpty_map, hany]

end Element

/-! ## Graphs -/

namespace Graph

variable {g g' : Graph} {r : Relationship} {l : Link} {s d : Text}

/-- The ids that a graph mentions are among the given ones. -/
structure Over (S : Text → Prop) (g : Graph) : Prop where
  elements : ∀ e ∈ g.elements, e.Over S
  environments : ∀ v ∈ g.environments, S v.id
  relationships : ∀ r ∈ g.relationships, S r.source ∧ S r.destination

theorem Over.mono (h : g.Over S) (hST : ∀ x, S x → T x) : g.Over T :=
  ⟨fun e he => (h.elements e he).mono hST, fun v hv => hST _ (h.environments v hv),
    fun r hr => (h.relationships r hr).imp (hST _) (hST _)⟩

theorem Over.empty : Over S {} where
  elements _ h := absurd h List.not_mem_nil
  environments _ h := absurd h List.not_mem_nil
  relationships _ h := absurd h List.not_mem_nil

section
variable (hσ : Apart σ S) (hg : g.Over S)
include hσ hg

theorem find?_rename (hid : S id) :
    (g.rename σ).find? (σ id) = (g.find? id).map (·.rename σ) := by
  simp only [find?, rename, List.find?_map, Function.comp_def]
  congr 1
  exact List.find?_congr fun e he => hσ.beq_eq (hg.elements e he).id hid

theorem contains_rename (hid : S id) : (g.rename σ).contains (σ id) = g.contains id := by
  have hfind := congrArg Option.isSome (find?_rename hσ hg hid)
  rwa [Option.isSome_map, find?, find?, List.isSome_find?, List.isSome_find?] at hfind

theorem ancestors_rename (hid : S id) :
    (g.rename σ).ancestors (σ id) = (g.ancestors id).map (·.rename σ) := by
  have hup : ∀ n p, (∀ q, p = some q → S q) →
      (g.rename σ).ancestorsUpTo n (p.map σ) = (g.ancestorsUpTo n p).map (·.rename σ) := by
    intro n
    induction n with
    | zero => intro p _; cases p <;> rfl
    | succ n ih =>
      intro p hp
      cases p with
      | none => rfl
      | some p =>
        simp only [ancestorsUpTo, Option.map_some, find?_rename hσ hg (hp p rfl)]
        cases hfind : g.find? p with
        | none => rfl
        | some e =>
          simp only [Option.map_some, List.map_cons]
          rw [← ih e.parent (hg.elements e (mem_of_find? hfind).1).parent]
          rfl
  simp only [ancestors, find?_rename hσ hg hid]
  cases hfind : g.find? id with
  | none => rfl
  | some e =>
    simp only [Option.map_some]
    rw [← hup _ e.parent (hg.elements e (mem_of_find? hfind).1).parent]
    simp only [rename, List.length_map]
    rfl

end

section
variable (hσ : Apart σ S) (hg : g.Over S)
include hg

theorem over_of_mem_lineage (hid : S id) (h : x ∈ g.lineage id) : S x := by
  rcases List.mem_cons.mp h with rfl | h
  · exact hid
  · obtain ⟨e, he, rfl⟩ := List.mem_map.mp h
    exact (hg.elements e (mem_of_mem_ancestors he)).id

include hσ

theorem lineage_rename (hid : S id) : (g.rename σ).lineage (σ id) = (g.lineage id).map σ := by
  simp only [lineage, ancestors_rename hσ hg hid, List.map_map, List.map_cons]
  rfl

theorem isAncestor_rename (hx : S x) (hid : S id) :
    (g.rename σ).isAncestor (σ x) (σ id) = g.isAncestor x id := by
  rw [Bool.eq_iff_iff]
  simp only [isAncestor, ancestors_rename hσ hg hid, List.any_eq_true, List.mem_map, beq_iff_eq]
  constructor
  · rintro ⟨_, ⟨e, he, rfl⟩, h⟩
    exact ⟨e, he, hσ _ _ (hg.elements e (mem_of_mem_ancestors he)).id hx h⟩
  · rintro ⟨e, he, rfl⟩
    exact ⟨_, ⟨e, he, rfl⟩, rfl⟩

theorem isStatic_rename (hid : S id) : (g.rename σ).isStatic (σ id) = g.isStatic id := by
  rw [isStatic, isStatic, find?_rename hσ hg hid, Option.any_map]
  simp only [Element.isStatic_rename]

theorem instancesOf_rename (hid : S id) :
    (g.rename σ).instancesOf (σ id) = (g.instancesOf id).map (·.rename σ) := by
  simp only [instancesOf, rename, List.filter_map, Function.comp_def, Element.definition?_rename]
  congr 1
  refine List.filter_congr fun e he => ?_
  exact hσ.optionBeq_eq (hg.elements e he).definition hid

theorem connectsAs_rename {label : Option Text} (hs : S s) (hd : S d) :
    (g.rename σ).connectsAs (σ s) (σ d) label = g.connectsAs s d label := by
  rw [Bool.eq_iff_iff]
  simp only [connectsAs, rename, List.any_map, List.any_eq_true, Function.comp_apply,
    Relationship.rename, Link.rename, Bool.and_eq_true, beq_iff_eq]
  constructor
  · rintro ⟨r, hr, ⟨hsource, hdestination⟩, hlabel⟩
    obtain ⟨hrs, hrd⟩ := hg.relationships r hr
    exact ⟨r, hr, ⟨hσ _ _ hrs hs hsource, hσ _ _ hrd hd hdestination⟩, hlabel⟩
  · rintro ⟨r, hr, ⟨rfl, rfl⟩, hlabel⟩
    exact ⟨r, hr, ⟨rfl, rfl⟩, hlabel⟩

theorem connects_rename (hs : S s) (hd : S d) :
    (g.rename σ).connects (σ s) (σ d) = g.connects s d := by
  rw [Bool.eq_iff_iff]
  simp only [connects_iff, rename, List.mem_map, exists_exists_and_eq_and, Relationship.rename,
    Link.rename]
  constructor
  · rintro ⟨r, hr, hsource, hdestination⟩
    obtain ⟨hrs, hrd⟩ := hg.relationships r hr
    exact ⟨r, hr, hσ _ _ hrs hs hsource, hσ _ _ hrd hd hdestination⟩
  · rintro ⟨r, hr, rfl, rfl⟩
    exact ⟨r, hr, rfl, rfl⟩

theorem hasRelationship_rename {label : Option Text} (hs : S s) (hd : S d) :
    (g.rename σ).hasRelationship (σ s) (σ d) label = g.hasRelationship s d label := by
  cases label with
  | none => exact connects_rename hσ hg hs hd
  | some label => exact connectsAs_rename hσ hg hs hd

/-! ## Additions -/

theorem addElement_rename (he : e.Over S) (h : g.addElement e = .ok g') :
    (g.rename σ).addElement (e.rename σ) = .ok (g'.rename σ) ∧ g'.Over S := by
  obtain ⟨hf, hnew, hparent, rfl⟩ := addElement_eq_ok_iff.mp h
  refine ⟨addElement_eq_ok_iff.mpr ⟨hf, ?_, ?_, ?_⟩, ?_, hg.environments, hg.relationships⟩
  · exact (contains_rename hσ hg he.id).trans hnew
  · intro p hp
    obtain ⟨q, hq, rfl⟩ := Option.map_eq_some_iff.mp hp
    exact (contains_rename hσ hg (he.parent q hq)).trans (hparent q hq)
  · simp only [rename, List.map_append, List.map_cons, List.map_nil]
  · intro q hq
    rcases List.mem_append.mp hq with hq | hq
    · exact hg.elements q hq
    · exact List.mem_singleton.mp hq ▸ he

theorem addEnvironment_rename {v : Environment} (hv : S v.id) (h : g.addEnvironment v = .ok g') :
    (g.rename σ).addEnvironment (v.rename σ) = .ok (g'.rename σ) ∧ g'.Over S := by
  obtain ⟨hf, hnew, rfl⟩ := addEnvironment_eq_ok_iff.mp h
  refine ⟨addEnvironment_eq_ok_iff.mpr ⟨hf, ?_, ?_⟩, hg.elements, ?_, hg.relationships⟩
  · simp only [rename, List.map_map, List.mem_map, Function.comp_apply, Environment.rename]
    rintro ⟨w, hw, hid⟩
    exact hnew (List.mem_map.mpr ⟨w, hw, hσ _ _ (hg.environments w hw) hv hid⟩)
  · simp only [rename, List.map_append, List.map_cons, List.map_nil]
  · intro w hw
    rcases List.mem_append.mp hw with hw | hw
    · exact hg.environments w hw
    · exact List.mem_singleton.mp hw ▸ hv

theorem addRelationship_rename (hs : S l.source) (hd : S l.destination)
    (h : g.addRelationship l = .ok g') :
    (g.rename σ).addRelationship (l.rename σ) = .ok (g'.rename σ) ∧ g'.Over S := by
  obtain ⟨hf, hsource, hdestination, hnew, rfl⟩ := addRelationship_eq_ok_iff.mp h
  refine ⟨addRelationship_eq_ok_iff.mpr ⟨hf, ?_, ?_, ?_, ?_⟩, hg.elements, hg.environments, ?_⟩
  · exact (contains_rename hσ hg hs).trans hsource
  · exact (contains_rename hσ hg hd).trans hdestination
  · exact hnew.imp_right (connectsAs_rename hσ hg hs hd).trans
  · simp only [rename, appended, List.map_append, List.map_cons, List.map_nil, List.length_map]
    rfl
  · intro r hr
    rcases List.mem_append.mp hr with hr | hr
    · exact hg.relationships r hr
    · rw [List.mem_singleton.mp hr]
      exact ⟨hs, hd⟩

/-! ## Derivations -/

theorem isImplying_rename (hr : S r.source ∧ S r.destination) :
    (g.rename σ).isImplying (r.rename σ) = g.isImplying r := by
  have hs := isStatic_rename hσ hg hr.1
  have hd := isStatic_rename hσ hg hr.2
  simp only [isImplying, Relationship.rename, Link.rename, hs, hd]

theorem mayImply_rename (hs : S s) (hd : S d) :
    (g.rename σ).mayImply (σ s) (σ d) = g.mayImply s d := by
  simp only [mayImply, isAncestor_rename hσ hg hs hd, isAncestor_rename hσ hg hd hs, bne,
    hσ.beq_eq hs hd]

omit hσ in
/-- The pairs of what lies at or above two ends. -/
theorem over_of_mem_lineages (hr : S r.source ∧ S r.destination)
    (h : (s, d) ∈ (g.lineage r.source).flatMap fun s =>
      (g.lineage r.destination).map fun d => (s, d)) : S s ∧ S d := by
  obtain ⟨x, hx, h⟩ := List.mem_flatMap.mp h
  obtain ⟨y, hy, h⟩ := List.mem_map.mp h
  cases h
  exact ⟨over_of_mem_lineage hg hr.1 hx, over_of_mem_lineage hg hr.2 hy⟩

theorem impliedPairs_rename (hr : S r.source ∧ S r.destination) :
    (g.rename σ).impliedPairs (r.rename σ) = (g.impliedPairs r).map (Prod.map σ σ) := by
  have hlineages : ((g.rename σ).lineage (σ r.source)).flatMap (fun s =>
      ((g.rename σ).lineage (σ r.destination)).map fun d => (s, d)) =
      ((g.lineage r.source).flatMap fun s => (g.lineage r.destination).map fun d => (s, d)).map
        (Prod.map σ σ) := by
    simp only [lineage_rename hσ hg hr.1, lineage_rename hσ hg hr.2, List.map_flatMap,
      List.flatMap_map, List.map_map, Function.comp_def, Prod.map]
  simp only [impliedPairs]
  rw [show (r.rename σ).source = σ r.source from rfl,
    show (r.rename σ).destination = σ r.destination from rfl, hlineages, List.filter_map]
  congr 1
  refine List.filter_congr ?_
  rintro ⟨s, d⟩ hp
  obtain ⟨hs, hd⟩ := over_of_mem_lineages hg hr hp
  have hends : ((σ s, σ d) == (σ r.source, σ r.destination)) =
      ((s, d) == (r.source, r.destination)) :=
    congrArg₂ and (hσ.beq_eq hs hr.1) (hσ.beq_eq hd hr.2)
  simp only [Function.comp_apply, Prod.map, bne, hends, mayImply_rename hσ hg hs hd]

theorem imply_rename {p : Text × Text} (hs : S p.1) (hd : S p.2) (h : imply r g p = .ok g') :
    imply (r.rename σ) (g.rename σ) (Prod.map σ σ p) = .ok (g'.rename σ) ∧ g'.Over S := by
  rw [imply] at h ⊢
  rw [Prod.map_fst, Prod.map_snd, connects_rename hσ hg hs hd]
  split at h
  next hc =>
    cases Except.ok.inj h
    exact ⟨if_pos hc, hg⟩
  next hc =>
    rw [if_neg hc]
    exact addRelationship_rename hσ hg hs hd h

theorem implyAll_rename (hr : S r.source ∧ S r.destination) (h : g.implyAll r = .ok g') :
    (g.rename σ).implyAll (r.rename σ) = .ok (g'.rename σ) ∧ g'.Over S := by
  rw [implyAll] at h ⊢
  rw [isImplying_rename hσ hg hr]
  split at h
  next hi =>
    rw [if_pos hi, impliedPairs_rename hσ hg hr]
    refine foldlM_simulates (P := Over S) (fun m p m' hp hm hm' => ?_) hg h
    obtain ⟨hs, hd⟩ := over_of_mem_lineages hg hr (List.mem_filter.mp hp).1
    exact imply_rename hσ hm hs hd hm'
  next hi =>
    cases Except.ok.inj h
    exact ⟨if_neg hi, hg⟩

/-- What is implied in a graph is implied in the renamed one. -/
theorem withImplied_rename (h : g.withImplied = .ok g') :
    (g.rename σ).withImplied = .ok (g'.rename σ) ∧ g'.Over S :=
  foldlM_simulates (P := Over S)
    (fun _ r _ hr hm hm' => implyAll_rename hσ hm (hg.relationships r hr) hm') hg h

theorem reaches_rename {e e' : Element} (he : e ∈ g.elements) (he' : e' ∈ g.elements) :
    reaches (e.rename σ) (e'.rename σ) = reaches e e' := by
  have henv : ((e.rename σ).environment? == (e'.rename σ).environment?) =
      (e.environment? == e'.environment?) := by
    rw [Element.environment?_rename, Element.environment?_rename]
    cases hv : e'.environment? with
    | none => cases e.environment? <;> rfl
    | some v =>
      exact hσ.optionBeq_eq (hg.elements e he).environment ((hg.elements e' he').environment v hv)
  rw [reaches, reaches, henv,
    Element.sharesGroupWith_rename hσ (hg.elements e he) (hg.elements e' he')]

theorem instancePairs_rename (hr : S r.source ∧ S r.destination) :
    (g.rename σ).instancePairs (r.rename σ) = (g.instancePairs r).map (Prod.map σ σ) := by
  simp only [instancePairs]
  rw [show (r.rename σ).source = σ r.source from rfl,
    show (r.rename σ).destination = σ r.destination from rfl, instancesOf_rename hσ hg hr.1,
    instancesOf_rename hσ hg hr.2, List.flatMap_map, List.map_flatMap]
  refine List.flatMap_congr fun e he => ?_
  rw [List.filter_map, List.map_map, List.map_map]
  have hfilter : (g.instancesOf r.destination).filter (reaches (e.rename σ) ∘ (·.rename σ)) =
      (g.instancesOf r.destination).filter (reaches e) :=
    List.filter_congr fun e' he' => reaches_rename hσ hg (mem_instancesOf_iff.mp he).1
      (mem_instancesOf_iff.mp he').1
  rw [hfilter]
  rfl

omit hσ in
theorem over_of_mem_instancePairs (h : (s, d) ∈ g.instancePairs r) : S s ∧ S d := by
  obtain ⟨e, he, e', he', -, rfl, rfl⟩ := mem_instancePairs_iff.mp h
  exact ⟨(hg.elements e (mem_instancesOf_iff.mp he).1).id,
    (hg.elements e' (mem_instancesOf_iff.mp he').1).id⟩

theorem copyBetween_rename {p : Text × Text} (hs : S p.1) (hd : S p.2)
    (h : copyBetween r g p = .ok g') :
    copyBetween (r.rename σ) (g.rename σ) (Prod.map σ σ p) = .ok (g'.rename σ) ∧ g'.Over S := by
  rw [copyBetween] at h ⊢
  rw [Prod.map_fst, Prod.map_snd, hasRelationship_rename hσ hg hs hd]
  split at h
  next hc =>
    cases Except.ok.inj h
    exact ⟨if_pos hc, hg⟩
  next hc =>
    refine ⟨(if_neg hc).trans ?_, ?_⟩
    · exact (addRelationship_rename hσ hg hs hd h).1
    · exact (addRelationship_rename hσ hg hs hd h).2

theorem copyAll_rename (hr : S r.source ∧ S r.destination) (h : g.copyAll r = .ok g') :
    (g.rename σ).copyAll (r.rename σ) = .ok (g'.rename σ) ∧ g'.Over S := by
  have hs := isStatic_rename hσ hg hr.1
  have hd := isStatic_rename hσ hg hr.2
  rw [copyAll] at h ⊢
  rw [show (r.rename σ).source = σ r.source from rfl,
    show (r.rename σ).destination = σ r.destination from rfl, hs, hd]
  split at h
  next hi =>
    rw [if_pos hi, instancePairs_rename hσ hg hr]
    refine foldlM_simulates (P := Over S) (fun m p m' hp hm hm' => ?_) hg h
    obtain ⟨hs, hd⟩ := over_of_mem_instancePairs hg hp
    exact copyBetween_rename hσ hm hs hd hm'
  next hi =>
    cases Except.ok.inj h
    exact ⟨if_neg hi, hg⟩

/-- What is copied to instances in a graph is copied in the renamed one. -/
theorem withInstanceRelationships_rename (h : g.withInstanceRelationships = .ok g') :
    (g.rename σ).withInstanceRelationships = .ok (g'.rename σ) ∧ g'.Over S :=
  foldlM_simulates (P := Over S)
    (fun _ r _ hr hm hm' => copyAll_rename hσ hm (hg.relationships r hr) hm') hg h

end

end Graph

end SystemAtlas.Model
