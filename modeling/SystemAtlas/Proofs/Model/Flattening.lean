import SystemAtlas.Proofs.Model.Naming
import SystemAtlas.Proofs.Model.Renaming
import SystemAtlas.Proofs.Model.Traffic

/-! # Flat and hierarchical ids

A model with hierarchical ids, in which every declaration has an identifier of its own, is the same
with flat ids, each of which is the last name of the hierarchical one (`assemble_flat`). Every step
that succeeds with hierarchical ids succeeds with flat ones and leads to the flattened assembly
(`Step.flattened`, `link_flattened`), since a reference that resolves to a declaration resolves to
it in both. -/

namespace SystemAtlas

open Text (lastName)

/-! ## Registries -/

namespace Identifier.Registry

variable {r : Registry} {d : Declared} {id reference : Text} {scope : ScopePath}
  {accept accept' : Text → Bool}

/-- The registry with flat ids. -/
def flattened (r : Registry) : Registry := { r with mode := .flat }

/-- An id is that of a declaration, or the empty one that stands for no environment. -/
def Known (r : Registry) (id : Text) : Prop := id = "" ∨ r.contains id = true

theorem Known.add (h : r.Known id) : (r.add d).Known id := by
  refine h.imp_right fun hc => ?_
  obtain ⟨x, hx, hid⟩ := contains_iff.mp hc
  exact contains_iff.mpr ⟨x, List.mem_append_left _ hx, hid⟩

theorem known_add (d : Declared) : (r.add d).Known (d.id r.mode) :=
  .inr (contains_iff.mpr ⟨d, List.mem_append_right _ (List.mem_singleton_self d), rfl⟩)

theorem localName_eq_ok_iff : (∃ name, r.localName id = .ok name) ↔ r.contains id = true := by
  rw [contains_iff]
  constructor
  · rintro ⟨name, h⟩
    obtain ⟨d, hd, -⟩ := map_eq_ok_iff.mp h
    rw [get] at hd
    split at hd
    · next x hx => exact ⟨x, List.mem_of_find?_eq_some hx, by simpa using List.find?_some hx⟩
    · cases hd
  · rintro ⟨d, hd, rfl⟩
    have hfind : (r.find? (d.id r.mode)).isSome = true :=
      List.find?_isSome.mpr ⟨d, hd, beq_self_eq_true _⟩
    obtain ⟨x, hx⟩ := Option.isSome_iff_exists.mp hfind
    exact ⟨x.localName, by rw [localName, get, hx]; rfl⟩

/-- A registry of hierarchical ids of names without dots, of which none is empty and no two are the
same. -/
structure Hierarchical (r : Registry) : Prop where
  mode : r.mode = .hierarchical
  dotFree : r.DotFree
  nonempty : ∀ d ∈ r.declared, d.localName ≠ ""
  nodup : (r.declared.map (·.localName)).Nodup

namespace Hierarchical

variable (hr : r.Hierarchical)
include hr

theorem lastName_id (hd : d ∈ r.declared) : (d.id r.mode).lastName = d.localName := by
  rw [hr.mode]
  exact Registry.lastName_id (hr.dotFree d hd)

/-- The last names of ids keep them apart. -/
theorem apart : Model.Apart lastName r.Known := by
  have hempty : lastName "" = "" := by decide +kernel
  rintro x y (rfl | hx) (rfl | hy) h
  · rfl
  · obtain ⟨d, hd, rfl⟩ := contains_iff.mp hy
    rw [hempty, hr.lastName_id hd] at h
    exact absurd h.symm (hr.nonempty d hd)
  · obtain ⟨d, hd, rfl⟩ := contains_iff.mp hx
    rw [hempty, hr.lastName_id hd] at h
    exact absurd h (hr.nonempty d hd)
  · obtain ⟨d, hd, rfl⟩ := contains_iff.mp hx
    obtain ⟨d', hd', rfl⟩ := contains_iff.mp hy
    rw [hr.lastName_id hd, hr.lastName_id hd'] at h
    rw [List.inj_on_of_nodup_map hr.nodup hd hd' h]

/-- A reference that resolves with hierarchical ids resolves to the same with flat ones. -/
theorem resolve_flattened (hscope : ∀ s ∈ scope, s.DotFree)
    (h : r.resolve reference scope = .ok id) :
    r.flattened.resolve reference scope = .ok id.lastName ∧ r.Known id := by
  obtain ⟨d, hd, rfl, he, hat⟩ := resolve_eq_ok hr.dotFree hscope h
  refine ⟨?_, .inr (contains_iff.mpr ⟨d, hd, rfl⟩)⟩
  rw [hr.lastName_id hd, he.localName_eq]
  have hne := (resolve_eq_ok_iff.mp h).1
  exact resolve_of_flat (r := r.flattened) rfl hr.dotFree hscope hne hd (hat hr.mode)

/-- A reference that is looked up with hierarchical ids means the same with flat ones. -/
theorem lookup_flattened (haccept : ∀ x, r.Known x → accept' x.lastName = accept x)
    (h : r.lookup reference accept = .ok id) :
    r.flattened.lookup reference accept' = .ok id.lastName ∧ r.Known id := by
  obtain ⟨d, hd, rfl, he, ha⟩ := lookup_eq_ok hr.dotFree h
  have hknown : r.Known (d.id r.mode) := .inr (contains_iff.mpr ⟨d, hd, rfl⟩)
  refine ⟨?_, hknown⟩
  have ha' := haccept _ hknown
  rw [hr.lastName_id hd, ha] at ha'
  rw [hr.lastName_id hd, he.localName_eq]
  exact lookup_of_flat (r := r.flattened) rfl hr.dotFree hr.nodup hd he ha'

theorem contains_flattened (h : r.contains id = true) :
    r.flattened.contains id.lastName = true := by
  obtain ⟨d, hd, rfl⟩ := contains_iff.mp h
  exact contains_iff.mpr ⟨d, hd, (hr.lastName_id hd).symm⟩

theorem ids_flattened : r.flattened.ids = r.ids.map lastName := by
  simp only [ids, flattened, List.map_map]
  exact List.map_congr_left fun d hd => (hr.lastName_id hd).symm

theorem sequenceOf_flattened {n : Nat} (hid : r.Known id) (h : r.sequenceOf id = .ok n) :
    r.flattened.sequenceOf id.lastName = .ok n := by
  have hfind : r.flattened.ids.findIdx? (· == id.lastName) = r.ids.findIdx? (· == id) := by
    rw [hr.ids_flattened, List.findIdx?_map]
    refine findIdx?_congr fun x hx => hr.apart.beq_eq (.inr ?_) hid
    rwa [contains, List.contains_iff_mem]
  rw [sequenceOf] at h ⊢
  rw [hfind]
  split at h
  · exact h
  · cases h

end Hierarchical

end Identifier.Registry

/-! ## Scopes -/

namespace Scope

variable {s : Scope} {id : Text} {frame : Frame}

/-- A frame with flat ids. -/
def Frame.flattened (f : Frame) : Frame :=
  { f with
    element := f.element.map lastName
    environment := f.environment.map lastName
    declared := f.declared.map lastName }

/-- A scope with flat ids. Scope paths are the same in both modes. -/
def flattened (s : Scope) : Scope :=
  { blocks := s.blocks.map Frame.flattened, workspace := s.workspace.flattened }

theorem current_flattened : s.flattened.current = s.current.flattened := by
  simp only [current, flattened]
  cases s.blocks <;> rfl

theorem path_flattened : s.flattened.path = s.path := by
  rw [path, current_flattened]
  rfl

theorem element_flattened : s.flattened.element = s.element.map lastName := by
  rw [element, current_flattened]
  rfl

theorem frames_flattened : s.flattened.frames = s.frames.map Frame.flattened := by
  simp only [frames, flattened, List.map_append, List.map_cons, List.map_nil]

theorem environment_flattened : s.flattened.environment = s.environment.map lastName := by
  rw [environment, environment, frames_flattened, List.findSome?_map]
  induction s.frames with
  | nil => rfl
  | cons f fs ih =>
    simp only [List.findSome?_cons, Function.comp_apply, Frame.flattened]
    cases f.environment with
    | none => exact ih
    | some v => rfl

theorem record_flattened : s.flattened.record id.lastName = (s.record id).flattened := by
  simp only [record, flattened]
  cases s.blocks <;> simp [Frame.flattened]

theorem enter_flattened : s.flattened.enter frame.flattened = (s.enter frame).flattened := rfl

theorem leave_flattened : s.flattened.leave = s.leave.flattened := by
  simp only [leave, flattened, List.map_tail]

end Scope

namespace Model

open Identifier (Declared)
open Declaration (Instance InstanceKind)

/-- A relationship put aside with flat ids. -/
def Pending.flattened (p : Pending) : Pending := { p with owner := p.owner.map lastName }

namespace Assembly

variable {a a' : Assembly} {e : Event} {name : Text} {make : Text → Element} {id reference : Text}
  {p : Pending}

/-- An assembly with flat ids. -/
def flattened (a : Assembly) : Assembly where
  registry := a.registry.flattened
  graph := a.graph.rename lastName
  scope := a.scope.flattened
  pending := a.pending.map (·.flattened)

/-- The ids of an owner and an environment are known. -/
structure Owned (r : Identifier.Registry) (f : Scope.Frame) : Prop where
  element : ∀ x, f.element = some x → r.Known x
  environment : ∀ x, f.environment = some x → r.Known x

/-- An assembly with hierarchical ids, in which all ids are known to the registry. -/
structure Hierarchical (a : Assembly) : Prop where
  registry : a.registry.Hierarchical
  dotFree : a.DotFree
  graph : a.graph.Over a.registry.Known
  frames : ∀ f ∈ a.scope.frames, Owned a.registry f
  pending : ∀ p ∈ a.pending, ∀ x, p.owner = some x → a.registry.Known x

namespace Hierarchical

variable (ha : a.Hierarchical)
include ha

theorem find?_flattened (hid : a.registry.Known id) :
    a.flattened.graph.find? id.lastName = (a.graph.find? id).map (·.rename lastName) :=
  Graph.find?_rename ha.registry.apart ha.graph hid

theorem element_known {x : Text} (h : a.scope.element = some x) : a.registry.Known x :=
  (ha.frames _ (current_mem_frames a.scope)).element x h

theorem environment_known {x : Text} (h : a.scope.environment = some x) : a.registry.Known x := by
  obtain ⟨f, hf, h⟩ := List.exists_of_findSome?_eq_some h
  exact (ha.frames f hf).environment x h

omit ha in
theorem environment_flattened : a.flattened.environment = a.environment.lastName := by
  rw [environment, environment, show a.flattened.scope = a.scope.flattened from rfl,
    Scope.environment_flattened]
  cases a.scope.environment with
  | none => decide +kernel
  | some v => rfl

theorem definition_flattened {kind : InstanceKind} {q : Element}
    (h : a.definition kind reference = .ok q) :
    a.flattened.definition kind reference = .ok (q.rename lastName) ∧ q ∈ a.graph.elements := by
  obtain ⟨id, hid, h⟩ := bind_eq_ok_iff.mp h
  have hlookup : a.flattened.registry.lookup reference (fun id =>
      (a.flattened.graph.find? id).any (·.isA (definitionType kind))) = .ok id.lastName ∧
        a.registry.Known id := by
    refine ha.registry.lookup_flattened (fun x hx => ?_) hid
    simp only [ha.find?_flattened hx, Option.any_map, Element.isA_rename]
  have hfind := Graph.get_eq_ok_iff.mp h
  refine ⟨bind_eq_ok_iff.mpr ⟨_, hlookup.1, Graph.get_eq_ok_iff.mpr ?_⟩,
    (Graph.mem_of_find? hfind).1⟩
  rw [ha.find?_flattened hlookup.2, hfind]
  rfl

theorem group_flattened (h : a.group reference = .ok id) :
    a.flattened.group reference = .ok id.lastName ∧ a.registry.Known id := by
  obtain ⟨x, hx, h⟩ := bind_eq_ok_iff.mp h
  obtain ⟨hresolve, hknown⟩ := ha.registry.resolve_flattened ha.dotFree.path hx
  have hgroup : a.flattened.isGroupHere x.lastName = a.isGroupHere x := by
    rw [isGroupHere, isGroupHere, ha.find?_flattened hknown, Option.any_map,
      show a.flattened.scope = a.scope.flattened from rfl, Scope.environment_flattened]
    cases hfind : a.graph.find? x with
    | none => rfl
    | some e =>
      have hover := ha.graph.elements e (Graph.mem_of_find? hfind).1
      have henv : ((e.rename lastName).environment? == a.scope.environment.map lastName) =
          (e.environment? == a.scope.environment) := by
        rw [Element.environment?_rename]
        cases hv : a.scope.environment with
        | none => cases e.environment? <;> rfl
        | some v =>
          exact ha.registry.apart.optionBeq_eq hover.environment (ha.environment_known hv)
      simp only [Option.any_some, Element.isGroup, Element.isA_rename, henv]
  split at h
  · next hc =>
    cases Except.ok.inj h
    refine ⟨bind_eq_ok_iff.mpr ⟨id.lastName, ?_, ?_⟩, hknown⟩
    · rw [show a.flattened.scope = a.scope.flattened from rfl, Scope.path_flattened]
      exact hresolve
    · rw [hgroup, if_pos hc]
      rfl
  · cases h

theorem instanceCount_flattened (hid : a.registry.Known id) :
    a.flattened.instanceCount id.lastName = a.instanceCount id := by
  have henv : ∀ e ∈ a.graph.instancesOf id,
      ((e.rename lastName).environment? == some a.flattened.environment) =
        (e.environment? == some a.environment) := by
    intro e he
    have hover := ha.graph.elements e (Graph.mem_instancesOf_iff.mp he).1
    rw [Element.environment?_rename, environment_flattened]
    refine ha.registry.apart.optionBeq_eq hover.environment ?_
    cases hv : a.scope.environment with
    | none => exact .inl (by rw [environment, hv]; rfl)
    | some v => exact environment_eq hv ▸ ha.environment_known hv
  rw [instanceCount, instanceCount, show a.flattened.graph = a.graph.rename lastName from rfl,
    Graph.instancesOf_rename ha.registry.apart ha.graph hid, List.filter_map, List.length_map]
  exact congrArg List.length (List.filter_congr henv)

/-- What an entry makes, it makes with flat ids. -/
theorem makes_flattened (h : Makes a e name make) : ∃ name' make',
    Makes a.flattened e name' make' ∧
      ∀ id : Text, make' id.lastName = (make id).rename lastName := by
  have henv := environment_flattened (a := a)
  have helement : a.flattened.scope.element = a.scope.element.map lastName :=
    Scope.element_flattened
  cases h with
  | person d => exact ⟨_, _, .person d, fun _ => rfl⟩
  | system d => exact ⟨_, _, .system d, fun _ => rfl⟩
  | container d => exact ⟨_, _, .container d, fun _ => by rw [helement]; rfl⟩
  | component d => exact ⟨_, _, .component d, fun _ => by rw [helement]; rfl⟩
  | node d n => exact ⟨_, _, .node d n, fun _ => by rw [helement, henv]; rfl⟩
  | infrastructure d => exact ⟨_, _, .infrastructure d, fun _ => by rw [helement, henv]; rfl⟩
  | group n => exact ⟨_, _, .group n, fun _ => by rw [henv]; rfl⟩
  | @occurrence i q groups name hdef hgroups hname =>
    obtain ⟨hdef', hq⟩ := ha.definition_flattened hdef
    have hknown := (ha.graph.elements q hq).id
    have hgroups' : i.groups.mapM a.flattened.group = .ok (groups.map lastName) := by
      rw [mapM_eq_ok_iff] at hgroups ⊢
      rw [List.forall₂_map_right_iff]
      exact hgroups.imp fun x y hxy => (ha.group_flattened hxy).1
    obtain ⟨name', hname'⟩ := Identifier.Registry.localName_eq_ok_iff.mpr
      (ha.registry.contains_flattened (Identifier.Registry.localName_eq_ok_iff.mp ⟨name, hname⟩))
    refine ⟨_, _, .occurrence hdef' hgroups' hname', fun id => ?_⟩
    have hcount := ha.instanceCount_flattened hknown
    simp only [occurrence, Element.rename, helement, henv] at hcount ⊢
    rw [hcount]
    rfl

/-- What an entry makes mentions what is known and its own id. -/
theorem makes_over {S : Text → Prop} (hS : ∀ x, a.registry.Known x → S x) (hid : S id)
    (h : Makes a e name make) : (make id).Over S := by
  have helement : ∀ p, a.scope.element = some p → S p := fun p hp => hS p (ha.element_known hp)
  have henv : ∀ v, some a.environment = some v → S v := by
    intro v hv
    refine hS v ?_
    cases hs : a.scope.environment with
    | none => exact .inl (by rw [← Option.some.inj hv, environment, hs]; rfl)
    | some w =>
      rw [← Option.some.inj hv, environment_eq hs]
      exact ha.environment_known hs
  have hnone : ∀ p, none = some p → S p := by
    intro p hp
    cases hp
  have hnil : ∀ x ∈ [], S x := by
    intro x hx
    cases hx
  cases h with
  | person d => exact ⟨hid, hnone, hnone, hnone, hnil⟩
  | system d => exact ⟨hid, hnone, hnone, hnone, hnil⟩
  | container d => exact ⟨hid, helement, hnone, hnone, hnil⟩
  | component d => exact ⟨hid, helement, hnone, hnone, hnil⟩
  | node d n => exact ⟨hid, helement, henv, hnone, hnil⟩
  | infrastructure d => exact ⟨hid, helement, henv, hnone, hnil⟩
  | group n => exact ⟨hid, hnone, henv, hnone, hnil⟩
  | @occurrence i q groups name hdef hgroups _ =>
    refine ⟨hid, helement, henv, fun d hd => ?_, fun x hx => ?_⟩
    · cases Option.some.inj hd
      exact hS _ (ha.graph.elements q (ha.definition_flattened hdef).2).id
    · obtain ⟨_, -, hx⟩ := exists_of_forall₂_mem (mapM_eq_ok_iff.mp hgroups) hx
      exact hS _ (ha.group_flattened hx).2

/-- What is declared next is known afterwards. -/
theorem over_add {d : Declared} {g : Graph}
    (hm : Makes a e name make) (hg : a.graph.addElement (make (d.id a.registry.mode)) = .ok g) :
    g.Over (a.registry.add d).Known := by
  obtain ⟨-, -, -, rfl⟩ := Graph.addElement_eq_ok_iff.mp hg
  have hover := ha.graph.mono fun x (hx : a.registry.Known x) => hx.add (d := d)
  refine ⟨fun q hq => ?_, hover.environments, hover.relationships⟩
  rcases List.mem_append.mp hq with hq | hq
  · exact hover.elements q hq
  · rw [List.mem_singleton.mp hq]
    exact ha.makes_over (fun x hx => hx.add) (Identifier.Registry.known_add d) hm

theorem owned_named {d : Declared} {f : Scope.Frame} (hf : f ∈ (a.named d).scope.frames) :
    Owned (a.registry.add d) f := by
  obtain ⟨f', hf', _, rfl⟩ := exists_of_mem_record hf
  have h := ha.frames f' hf'
  exact ⟨fun x hx => (h.element x hx).add, fun x hx => (h.environment x hx).add⟩

theorem registry_add {d : Declared} (hd : d.scope = a.scope.path) (hfree : a.registry.Free d)
    (hn : (a.named d).localNames.Nodup) : (a.registry.add d).Hierarchical := by
  refine ⟨ha.registry.mode, (ha.dotFree.named hd hfree).registry, fun x hx => ?_, hn⟩
  rcases List.mem_append.mp hx with hx | hx
  · exact ha.registry.nonempty x hx
  · rw [List.mem_singleton.mp hx]
    intro hempty
    have := hfree.isLocalName
    rw [hempty] at this
    exact absurd this (by decide +kernel)

/-- A step keeps an assembly hierarchical as long as local names differ. -/
theorem step (hn : a'.localNames.Nodup) (h : Step a e a') : a'.Hierarchical := by
  have hdot := ha.dotFree.step h
  cases h with
  | leave =>
    refine ⟨ha.registry, hdot, ha.graph, fun f hf => ha.frames f ?_, ha.pending⟩
    simp only [Scope.frames, Scope.leave, List.mem_append] at hf ⊢
    exact hf.imp_left List.mem_of_mem_tail
  | relate r =>
    refine ⟨ha.registry, hdot, ha.graph, ha.frames, fun p hp => ?_⟩
    rcases List.mem_append.mp hp with hp | hp
    · exact ha.pending p hp
    · rw [List.mem_singleton.mp hp]
      exact fun x hx => ha.element_known hx
  | @element e name make d id g hm hd hid hfree hg =>
    subst hid
    refine ⟨ha.registry_add (hd ▸ rfl) hfree hn, hdot, ha.over_add hm hg, ?_,
      fun p hp x hx => (ha.pending p hp x hx).add⟩
    cases e with
    | enter block =>
      intro f hf
      rcases List.mem_cons.mp hf with rfl | hf
      · refine ⟨fun x hx => Option.some.inj hx ▸ Identifier.Registry.known_add d, ?_⟩
        intro x hx
        cases hx
      · exact ha.owned_named hf
    | _ => exact fun f hf => ha.owned_named hf
  | @environment n d id g hd hid hfree hg =>
    subst hid
    obtain ⟨-, -, rfl⟩ := Graph.addEnvironment_eq_ok_iff.mp hg
    have hover := ha.graph.mono fun x (hx : a.registry.Known x) => hx.add (d := d)
    refine ⟨ha.registry_add (hd ▸ rfl) hfree hn, hdot,
      ⟨hover.elements, fun v hv => ?_, hover.relationships⟩, fun f hf => ?_,
      fun p hp x hx => (ha.pending p hp x hx).add⟩
    · rcases List.mem_append.mp hv with hv | hv
      · exact hover.environments v hv
      · rw [List.mem_singleton.mp hv]
        exact Identifier.Registry.known_add d
    · rcases List.mem_cons.mp hf with rfl | hf
      · refine ⟨?_, fun x hx => Option.some.inj hx ▸ Identifier.Registry.known_add d⟩
        intro x hx
        cases hx
      · exact ha.owned_named hf

end Hierarchical

theorem free_flattened {d : Declared} (hfree : a.registry.Free d)
    (hn : (a.named d).localNames.Nodup) : a.flattened.registry.Free d := by
  refine ⟨hfree.isLocalName, Bool.eq_false_iff.mpr fun hc => ?_⟩
  obtain ⟨x, hx, hid⟩ := Identifier.Registry.contains_iff.mp hc
  have hmem : d.localName ∈ a.localNames := List.mem_map.mpr ⟨x, hx, hid⟩
  rw [localNames_named] at hn
  exact (List.nodup_append.mp hn).2.2 _ hmem _ (List.mem_singleton_self _) rfl

theorem naming_flattened {identifier : Option Identifier.LocalName} {name' : Text}
    (h : identifier.isSome = true) :
    a.flattened.naming identifier name' = a.naming identifier name := by
  obtain ⟨n, hn⟩ := Option.isSome_iff_exists.mp h
  rw [naming_of_identifier hn, naming_of_identifier hn]
  exact congrArg (Declared.mk · n.text) Scope.path_flattened

theorem named_flattened {d : Declared} (hid : (d.id a.registry.mode).lastName = d.localName) :
    a.flattened.named d = (a.named d).flattened := by
  have hscope : a.flattened.scope.record d.localName =
      (a.scope.record (d.id a.registry.mode)).flattened := by
    rw [← Scope.record_flattened, hid]
    rfl
  simp only [named, flattened] at hscope ⊢
  rw [← hscope]
  rfl

theorem scopeAfter_flattened {s : Scope} {frame : Scope.Frame} :
    e.scopeAfter s.flattened frame.flattened = (e.scopeAfter s frame).flattened := by
  cases e <;> rfl

theorem setAside_flattened (r : Declaration.Relationship) :
    a.flattened.setAside r = (a.setAside r).flattened := by
  simp only [setAside, flattened, Scope.path_flattened, Scope.element_flattened, List.map_append]
  rfl

/-- A step with hierarchical ids is one with flat ids. -/
theorem Step.flattened (ha : a.Hierarchical) (hn : a'.localNames.Nodup)
    (he : e.Declares → e.identifier.isSome = true) (h : Step a e a') :
    Step a.flattened e a'.flattened := by
  have ha' := ha.step hn h
  cases h with
  | leave =>
    have hstep := Step.leave (a := a.flattened)
    rwa [show a.flattened.scope.leave = a.scope.leave.flattened from Scope.leave_flattened] at hstep
  | relate r =>
    have hstep := Step.relate (a := a.flattened) r
    rwa [setAside_flattened] at hstep
  | @element e name make d id g hm hd hid hfree hg =>
    subst hid
    obtain ⟨name', make', hm', hmake⟩ := ha.makes_flattened hm
    have hlast : (d.id a.registry.mode).lastName = d.localName :=
      ha'.registry.lastName_id (List.mem_append_right _ (List.mem_singleton_self d))
    have hgraph : a.flattened.graph.addElement (make' d.localName) = .ok (g.rename lastName) := by
      rw [← hlast, hmake]
      refine (Graph.addElement_rename ha'.registry.apart ?_ ?_ hg).1
      · exact ha.graph.mono fun x hx => hx.add
      · exact ha.makes_over (fun x hx => hx.add) (Identifier.Registry.known_add d) hm
    have hframe : (⟨d.path, some d.localName, none, e.line, []⟩ : Scope.Frame) =
        Scope.Frame.flattened ⟨d.path, some (d.id a.registry.mode), none, e.line, []⟩ := by
      simp only [Scope.Frame.flattened, Option.map_some, hlast, Option.map_none, List.map_nil]
    have hstep := Step.element hm' (hd.trans (naming_flattened (he hm.declares)).symm) rfl
      (free_flattened hfree hn) hgraph
    rw [named_flattened hlast] at hstep
    simp only [Assembly.flattened, ← scopeAfter_flattened, ← hframe]
    exact hstep
  | @environment n d id g hd hid hfree hg =>
    subst hid
    have hlast : (d.id a.registry.mode).lastName = d.localName :=
      ha'.registry.lastName_id (List.mem_append_right _ (List.mem_singleton_self d))
    have hgraph : a.flattened.graph.addEnvironment ⟨d.localName, n.name⟩ =
        .ok (g.rename lastName) := by
      rw [← hlast]
      refine (Graph.addEnvironment_rename ha'.registry.apart ?_ ?_ hg).1
      · exact ha.graph.mono fun x hx => hx.add
      · exact Identifier.Registry.known_add d
    have hframe : (⟨d.path, none, some d.localName, n.line, []⟩ : Scope.Frame) =
        Scope.Frame.flattened ⟨d.path, none, some (d.id a.registry.mode), n.line, []⟩ := by
      simp only [Scope.Frame.flattened, Option.map_some, hlast, Option.map_none, List.map_nil]
    have hstep := Step.environment (hd.trans (naming_flattened (he trivial)).symm) rfl
      (free_flattened hfree hn) hgraph
    rw [named_flattened hlast] at hstep
    simp only [Assembly.flattened, ← Scope.enter_flattened, ← hframe]
    exact hstep

/-! ## Linking -/

/-- An end of a relationship means the same. -/
theorem Hierarchical.endpoint_flattened (ha : a.Hierarchical)
    (hp : ∀ x, p.owner = some x → a.registry.Known x) (hscope : ∀ s ∈ p.scope, s.DotFree)
    (h : a.endpoint p reference = .ok id) :
    a.flattened.endpoint p.flattened reference = .ok id.lastName ∧ a.registry.Known id := by
  rcases endpoint_eq_ok_iff.mp h with
    ⟨href, howner⟩ | ⟨href, hresolve, ⟨e, hfind, hgroup⟩, n, hn, hle⟩
  · refine ⟨endpoint_eq_ok_iff.mpr (.inl ⟨href, ?_⟩), hp id howner⟩
    rw [Pending.flattened, howner]
    rfl
  · obtain ⟨hresolve', hknown⟩ := ha.registry.resolve_flattened hscope hresolve
    refine ⟨endpoint_eq_ok_iff.mpr (.inr ⟨href, hresolve', ⟨e.rename lastName, ?_, ?_⟩, n,
      ha.registry.sequenceOf_flattened hknown hn, hle⟩), hknown⟩
    · rw [ha.find?_flattened hknown, hfind]
      rfl
    · rwa [Element.isGroup, Element.isA_rename]

/-- A relationship is linked between the same elements. -/
theorem Hierarchical.link_flattened (ha : a.Hierarchical) (hp : p ∈ a.pending)
    (h : a.link p = .ok a') :
    a.flattened.link p.flattened = .ok a'.flattened ∧ a'.Hierarchical := by
  obtain ⟨l, hl, g, hg, rfl⟩ := link_eq_ok_iff.mp h
  obtain ⟨s, hs, d, hd, rfl⟩ := resolveLink_eq_ok_iff.mp hl
  have howner := ha.pending p hp
  have hscope := ha.dotFree.pending p hp
  obtain ⟨hs', hsknown⟩ := ha.endpoint_flattened howner hscope hs
  obtain ⟨hd', hdknown⟩ := ha.endpoint_flattened howner hscope hd
  obtain ⟨hg', hover⟩ := Graph.addRelationship_rename ha.registry.apart ha.graph hsknown hdknown hg
  refine ⟨link_eq_ok_iff.mpr ⟨_, resolveLink_eq_ok_iff.mpr ⟨_, hs', _, hd', rfl⟩, _, hg', rfl⟩, ?_⟩
  exact ⟨ha.registry, ⟨ha.dotFree.registry, ha.dotFree.frames, ha.dotFree.pending⟩, hover,
    ha.frames, ha.pending⟩

/-! ## Runs -/

/-- A script that is taken with hierarchical ids is taken with flat ones. -/
theorem Hierarchical.declareAll_flattened {events : List Event} (ha : a.Hierarchical)
    (hn : (a.localNames ++ names events).Nodup)
    (he : Identified events)
    (h : events.foldlM declare a = .ok a') :
    events.foldlM declare a.flattened = .ok a'.flattened ∧ a'.Hierarchical := by
  induction events generalizing a with
  | nil =>
    cases Except.ok.inj h
    exact ⟨rfl, ha⟩
  | cons e events ih =>
    obtain ⟨m, hm, h⟩ := foldlM_cons_eq_ok_iff.mp h
    have hstep := declare_eq_ok_iff.mp hm
    have hne := he e List.mem_cons_self
    have hnames : m.localNames ++ names events = a.localNames ++ names (e :: events) := by
      rw [hstep.localNames_eq hne, List.append_assoc, names, names, names, ← List.filterMap_append]
      rfl
    rw [← hnames] at hn
    have hnm := (List.nodup_append.mp hn).1
    obtain ⟨hrest, ha'⟩ := ih (ha.step hnm hstep) hn
      (fun x hx => he x (List.mem_cons_of_mem _ hx)) h
    refine ⟨foldlM_cons_eq_ok_iff.mpr ⟨_, ?_, hrest⟩, ha'⟩
    exact declare_eq_ok_iff.mpr (hstep.flattened ha hnm hne)

/-- What is linked with hierarchical ids is linked with flat ones. -/
theorem Hierarchical.linkAll_flattened (ha : a.Hierarchical)
    (h : a.pending.foldlM link a = .ok a') :
    a.flattened.pending.foldlM link a.flattened = .ok a'.flattened ∧ a'.Hierarchical := by
  have hrun : a.flattened.pending.foldlM link a.flattened = .ok a'.flattened ∧
      a'.Hierarchical ∧ a'.pending = a.pending := by
    refine foldlM_simulates (P := fun b => b.Hierarchical ∧ b.pending = a.pending) ?_ ⟨ha, rfl⟩ h
    rintro b p b' hp ⟨hb, hpending⟩ hb'
    obtain ⟨hflat, hb''⟩ := hb.link_flattened (hpending ▸ hp) hb'
    obtain ⟨l, -, g, -, rfl⟩ := link_eq_ok_iff.mp hb'
    exact ⟨hflat, hb'', hpending⟩
  exact ⟨hrun.1, hrun.2.1⟩

/-- What can be finished with hierarchical ids can be finished with flat ones. -/
theorem Hierarchical.finish_flattened {f : Finished} (ha : a.Hierarchical) (h : a.finish = .ok f) :
    ∃ f', a.flattened.finish = .ok f' ∧ f'.graph = f.graph.rename lastName := by
  obtain ⟨g, hg, g', hg', rfl⟩ := finish_eq_ok_iff.mp h
  obtain ⟨hflat, hover⟩ := Graph.withImplied_rename ha.registry.apart ha.graph hg
  obtain ⟨hflat', -⟩ := Graph.withInstanceRelationships_rename ha.registry.apart hover hg'
  exact ⟨_, finish_eq_ok_iff.mpr ⟨_, hflat, _, hflat', rfl⟩, rfl⟩

theorem Hierarchical.initial : Hierarchical { registry := { mode := .hierarchical } } where
  registry :=
    { mode := rfl
      dotFree := fun _ h => absurd h List.not_mem_nil
      nonempty := fun _ h => absurd h List.not_mem_nil
      nodup := List.nodup_nil }
  dotFree := .initial .hierarchical
  graph := .empty
  frames f hf := by
    rw [List.mem_singleton.mp hf]
    constructor
    · intro x hx
      cases hx
    · intro x hx
      cases hx
  pending _ h := absurd h List.not_mem_nil

end Assembly

/-- Every declaration of a model has an identifier, and no two have the same. -/
structure DistinctlyNamed (members : List Declaration.ModelMember) : Prop where
  identified : Identified (script members)
  distinct : (names (script members)).Nodup

/-- The identifier mode only renames. A model whose declarations have identifiers of their own, if
it can be assembled with hierarchical ids, can be assembled with flat ones, and the graph is the
same but for its ids, each of which is the last name of the hierarchical one. -/
theorem assemble_flat {members : List Declaration.ModelMember} {f : Finished}
    (hnamed : DistinctlyNamed members) (h : assemble .hierarchical members = .ok f) :
    ∃ f', assemble .flat members = .ok f' ∧ f'.graph = f.graph.rename lastName := by
  obtain ⟨a, ha, hf⟩ := assemble_eq_ok_iff.mp h
  obtain ⟨b, hb, ha⟩ := linked_eq_ok_iff.mp ha
  obtain ⟨hdeclared, hb'⟩ := Assembly.Hierarchical.initial.declareAll_flattened hnamed.distinct
    hnamed.identified hb
  obtain ⟨hlinked, ha'⟩ := hb'.linkAll_flattened ha
  obtain ⟨f', hf', hgraph⟩ := ha'.finish_flattened hf
  exact ⟨f', assemble_eq_ok_iff.mpr ⟨_, linked_eq_ok_iff.mpr ⟨_, hdeclared, hlinked⟩, hf'⟩, hgraph⟩

/-- The shop with hierarchical ids. -/
def shopHierarchical : Finished := (assemble .hierarchical shop).toOption.getD default

theorem shop_assemble_flat :
    DistinctlyNamed shop ∧ assemble .hierarchical shop = .ok shopHierarchical ∧
      ∃ f', assemble .flat shop = .ok f' ∧ f'.graph = shopHierarchical.graph.rename lastName := by
  have hnamed : DistinctlyNamed shop := ⟨by decide +kernel, by decide +kernel⟩
  have h : assemble .hierarchical shop = .ok shopHierarchical := by rfl
  exact ⟨hnamed, h, assemble_flat hnamed h⟩

end Model

end SystemAtlas
