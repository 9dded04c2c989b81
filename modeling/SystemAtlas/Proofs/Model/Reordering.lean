import SystemAtlas.Proofs.Model.Alike
import SystemAtlas.Proofs.Model.Entries

/-! # Reordering a model

Models are `Reordered` if they differ only in the order of their members and of the members of any
block. The scripts of such models have the same entries inside the same blocks, in another order
(`Reordered.entries`). With flat ids and identifiers everywhere, their graphs are alike
(`alike_of_reordered`). -/

namespace SystemAtlas.Model

open Declaration (Details Named ContainerMember SystemMember NodeMember EnvironmentMember
  ModelMember)

/-- Lists of members differ by what `R` allows of each member, and in the order of the members. -/
def ReorderedBy {α : Type} (R : α → α → Prop) (ms ms' : List α) : Prop :=
  ∃ mid, List.Forall₂ R ms mid ∧ mid.Perm ms'

/-- Members of a software system differ in the order of what is inside. -/
inductive SystemReordered : SystemMember → SystemMember → Prop where
  | refl (m : SystemMember) : SystemReordered m m
  | container (d : Details) {body body' : List ContainerMember} : body.Perm body' →
    SystemReordered (.container d body) (.container d body')

/-- Members of a deployment node differ in the order of what is inside, at any depth. -/
inductive NodeReordered : NodeMember → NodeMember → Prop where
  | refl (m : NodeMember) : NodeReordered m m
  | node (d : Details) (n : Int) {body mid body' : List NodeMember} :
    List.Forall₂ NodeReordered body mid → mid.Perm body' →
    NodeReordered (.node d n body) (.node d n body')

/-- Members of a deployment environment differ in the order of what is inside, at any depth. -/
inductive EnvironmentReordered : EnvironmentMember → EnvironmentMember → Prop where
  | refl (m : EnvironmentMember) : EnvironmentReordered m m
  | node (d : Details) (n : Int) {body body' : List NodeMember} :
    ReorderedBy NodeReordered body body' →
    EnvironmentReordered (.node d n body) (.node d n body')

/-- Members of a model differ in the order of what is inside, at any depth. -/
inductive MemberReordered : ModelMember → ModelMember → Prop where
  | refl (m : ModelMember) : MemberReordered m m
  | system (d : Details) {body body' : List SystemMember} : ReorderedBy SystemReordered body body' →
    MemberReordered (.system d body) (.system d body')
  | environment (n : Named) {body body' : List EnvironmentMember} :
    ReorderedBy EnvironmentReordered body body' →
    MemberReordered (.environment n body) (.environment n body')

/-- Models differ only in the order of their members and of the members of any block. -/
def Reordered (members members' : List ModelMember) : Prop :=
  ReorderedBy MemberReordered members members'

/-! ## Scripts that leave the blocks they open -/

/-- After some entries the same blocks are open as before. -/
def Closed (events : List Event) : Prop := ∀ blocks, events.foldl Event.after blocks = blocks

/-- Two scripts have the same entries inside the same blocks, in whatever order. -/
def Rearranged (events events' : List Event) : Prop :=
  ∀ blocks, (entriesIn blocks events).Perm (entriesIn blocks events')

variable {α : Type} {scriptOf : α → List Event} {ms mid ms' : List α} {blocks : List Block}
  {block : Block} {events events' inside inside' : List Event}

theorem entriesIn_append : entriesIn blocks (events ++ events') =
    entriesIn blocks events ++ entriesIn (events.foldl Event.after blocks) events' := by
  induction events generalizing blocks with
  | nil => rfl
  | cons e events ih => exact congrArg ((blocks, e) :: ·) ih

theorem Closed.around (h : Closed inside) : Closed (block.around inside) := by
  intro blocks
  rw [Block.around, List.cons_append, List.foldl_cons, List.foldl_append]
  simp only [Event.after, h (block :: blocks), List.foldl_cons, List.foldl_nil, List.tail_cons]

theorem Closed.flatMap (h : ∀ m, Closed (scriptOf m)) (ms : List α) :
    Closed (ms.flatMap scriptOf) := by
  intro blocks
  induction ms with
  | nil => rfl
  | cons m ms ih => rw [List.flatMap_cons, List.foldl_append, h m, ih]

theorem Rearranged.refl (events : List Event) : Rearranged events events := fun _ => .refl _

theorem Rearranged.around (hc : Closed inside) (hc' : Closed inside')
    (h : Rearranged inside inside') : Rearranged (block.around inside) (block.around inside') := by
  intro blocks
  simp only [Block.around, List.cons_append, entriesIn, entriesIn_append, Event.after,
    hc (block :: blocks), hc' (block :: blocks)]
  exact ((h (block :: blocks)).append_right _).cons _

/-- The order of members that leave the blocks they open does not matter. -/
theorem Rearranged.flatMap (hc : ∀ m, Closed (scriptOf m))
    (h : List.Forall₂ (fun m m' => Rearranged (scriptOf m) (scriptOf m')) ms mid)
    (hp : mid.Perm ms') : Rearranged (ms.flatMap scriptOf) (ms'.flatMap scriptOf) := by
  intro blocks
  have hflat : ∀ ms : List α, entriesIn blocks (ms.flatMap scriptOf) =
      ms.flatMap fun m => entriesIn blocks (scriptOf m) := by
    intro ms
    induction ms with
    | nil => rfl
    | cons m ms ih => rw [List.flatMap_cons, entriesIn_append, hc m, ih, List.flatMap_cons]
  rw [hflat, hflat]
  refine List.Perm.trans ?_ (hp.flatMap_right _)
  clear hp
  induction h with
  | nil => exact .refl _
  | cons hm _ ih =>
    rw [List.flatMap_cons, List.flatMap_cons]
    exact (hm blocks).append ih

/-! ## Scripts of members -/

theorem closed_container (m : ContainerMember) : Closed [containerEvent m] := by
  intro blocks
  cases m <;> rfl

theorem containerEvents_eq (body : List ContainerMember) :
    body.map containerEvent = body.flatMap fun m => [containerEvent m] :=
  List.map_eq_flatMap

theorem closed_containerBody (body : List ContainerMember) : Closed (body.map containerEvent) := by
  rw [containerEvents_eq]
  exact .flatMap closed_container body

theorem closed_system (m : SystemMember) : Closed (systemScript m) := by
  cases m with
  | container d body => exact .around (closed_containerBody body)
  | relationship r => exact fun _ => rfl

theorem bodyScript_eq (body : List NodeMember) : bodyScript body = body.flatMap nodeScript := by
  induction body with
  | nil => rfl
  | cons m body ih => rw [bodyScript, ih, List.flatMap_cons]

mutual

theorem closed_node : ∀ m : NodeMember, Closed (nodeScript m)
  | .node _ _ body => (closed_body body).around
  | .infrastructure _ | .occurrence _ | .relationship _ => fun _ => rfl

theorem closed_body : ∀ body : List NodeMember, Closed (bodyScript body)
  | [] => fun _ => rfl
  | m :: body => by
    intro blocks
    rw [bodyScript, List.foldl_append, closed_node m, closed_body body]

end

theorem closed_environment (m : EnvironmentMember) : Closed (environmentScript m) := by
  cases m with
  | group g => exact fun _ => rfl
  | node d n body => exact .around (closed_body body)
  | relationship r => exact fun _ => rfl

theorem closed_member (m : ModelMember) : Closed (memberScript m) := by
  cases m with
  | person d => exact fun _ => rfl
  | system d body => exact .around (.flatMap closed_system body)
  | environment n body => exact .around (.flatMap closed_environment body)
  | relationship r => exact fun _ => rfl

/-! ## Reordering scripts -/

theorem SystemReordered.rearranged {m m' : SystemMember} (h : SystemReordered m m') :
    Rearranged (systemScript m) (systemScript m') := by
  cases h with
  | refl => exact .refl _
  | container d hp =>
    refine .around (closed_containerBody _) (closed_containerBody _) ?_
    rw [containerEvents_eq, containerEvents_eq]
    exact .flatMap closed_container (List.forall₂_same.mpr fun _ _ => .refl _) hp

mutual

theorem NodeReordered.rearranged : ∀ {m m' : NodeMember}, NodeReordered m m' →
    Rearranged (nodeScript m) (nodeScript m')
  | _, _, .refl m => .refl (nodeScript m)
  | _, _, .node d n hbody hp => by
    refine .around (closed_body _) (closed_body _) ?_
    rw [bodyScript_eq, bodyScript_eq]
    exact .flatMap closed_node (NodeReordered.rearranged_body hbody) hp

theorem NodeReordered.rearranged_body : ∀ {body mid : List NodeMember},
    List.Forall₂ NodeReordered body mid →
      List.Forall₂ (fun m m' => Rearranged (nodeScript m) (nodeScript m')) body mid
  | _, _, .nil => .nil
  | _, _, .cons hm hbody => .cons hm.rearranged (NodeReordered.rearranged_body hbody)

end

theorem EnvironmentReordered.rearranged {m m' : EnvironmentMember}
    (h : EnvironmentReordered m m') :
    Rearranged (environmentScript m) (environmentScript m') := by
  cases h with
  | refl => exact .refl _
  | node d n hbody =>
    obtain ⟨mid, hmid, hp⟩ := hbody
    refine .around (closed_body _) (closed_body _) ?_
    rw [bodyScript_eq, bodyScript_eq]
    exact .flatMap closed_node (NodeReordered.rearranged_body hmid) hp

theorem MemberReordered.rearranged {m m' : ModelMember} (h : MemberReordered m m') :
    Rearranged (memberScript m) (memberScript m') := by
  cases h with
  | refl => exact .refl _
  | system d hbody =>
    obtain ⟨mid, hmid, hp⟩ := hbody
    refine .around (.flatMap closed_system _) (.flatMap closed_system _) ?_
    exact .flatMap closed_system (hmid.imp fun _ _ => SystemReordered.rearranged) hp
  | environment n hbody =>
    obtain ⟨mid, hmid, hp⟩ := hbody
    refine .around (.flatMap closed_environment _) (.flatMap closed_environment _) ?_
    exact .flatMap closed_environment (hmid.imp fun _ _ => EnvironmentReordered.rearranged) hp

/-- Reordered models declare the same inside the same blocks. -/
theorem Reordered.entries {members members' : List ModelMember} (h : Reordered members members') :
    (entriesIn [] (script members)).Perm (entriesIn [] (script members')) := by
  obtain ⟨mid, hmid, hp⟩ := h
  exact Rearranged.flatMap closed_member (hmid.imp fun _ _ => MemberReordered.rearranged) hp []

theorem Reordered.script_perm {members members' : List ModelMember}
    (h : Reordered members members') : (script members).Perm (script members') := by
  have hp := h.entries.map (·.2)
  rwa [map_entriesIn, map_entriesIn] at hp

theorem Reordered.identified {members members' : List ModelMember} (h : Reordered members members')
    (he : Identified (script members)) : Identified (script members') :=
  fun e hmem => he e (h.script_perm.mem_iff.mpr hmem)

/-! ## Graphs of reordered models -/

theorem Assembly.MadeOf.alike {entries entries' : List Entry} {a a' : Assembly}
    (h : a.MadeOf entries) (h' : a'.MadeOf entries') (hp : entries.Perm entries') :
    a.graph.Alike a'.graph := by
  refine ⟨?_, ?_, fun s d => Bool.eq_iff_iff.mpr ?_⟩
  · rw [h.elements, h'.elements, definitionIn_congr h.distinct hp]
    exact hp.filterMap _
  · rw [h.environments, h'.environments]
    exact hp.filterMap _
  · simp only [h.connects, h'.connects, (hp.filterMap entryRelationship).mem_iff]

/-- A complete model with flat ids, in which environments have different names. -/
structure Finished.Flat (f : Finished) : Prop where
  mode : f.registry.mode = .flat
  dotFree : f.registry.DotFree
  forest : f.graph.Forest
  numbered : f.graph.Numbered
  environmentIds : (f.graph.environments.map (·.id)).Nodup
  environmentNames : (f.graph.environments.map (·.name)).Nodup

variable {members members' : List ModelMember} {f f' : Finished}

section
variable (he : Identified (script members))
include he

theorem flat_of_assemble (hv : ((script members).filterMap (·.environmentName)).Nodup)
    (h : assemble .flat members = .ok f) : f.Flat := by
  obtain ⟨a, ha, hf⟩ := assemble_eq_ok_iff.mp h
  have hmade := linked_madeOf he ha
  have hregistry := Assembly.registry_of_finish hf
  have henvironments := Assembly.environments_of_finish hf
  refine ⟨hregistry ▸ hmade.mode, hregistry ▸ hmade.dotFree,
    (wellTyped_of_assemble h).forest, numbered_of_assemble h, ?_, ?_⟩
  · rw [henvironments, hmade.environments]
    exact hmade.distinct.sublist (keys_sublist fun _ _ => id_of_entryEnvironment)
  · rw [henvironments, hmade.environments]
    refine List.Nodup.sublist (keys_sublist fun _ _ => name_of_entryEnvironment) ?_
    rwa [map_entriesIn]

/-- Reordered models with flat ids have graphs that are alike. -/
theorem alike_of_reordered (hr : Reordered members members')
    (h : assemble .flat members = .ok f) (h' : assemble .flat members' = .ok f') :
    f.graph.Alike f'.graph := by
  obtain ⟨a, ha, hf⟩ := assemble_eq_ok_iff.mp h
  obtain ⟨a', ha', hf'⟩ := assemble_eq_ok_iff.mp h'
  obtain ⟨htyped, hdeclared⟩ := linked_spec ha
  obtain ⟨htyped', hdeclared'⟩ := linked_spec ha'
  have halike := (linked_madeOf he ha).alike (linked_madeOf (hr.identified he) ha') hr.entries
  exact alike_of_finish halike htyped.forest htyped'.forest hdeclared hdeclared' hf hf'

end

end SystemAtlas.Model
