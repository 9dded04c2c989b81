import SystemAtlas.Proofs.Identifier.Allocating
import SystemAtlas.Proofs.Model.Flattening
import SystemAtlas.Proofs.Model.Implying
import SystemAtlas.Proofs.Refusal

/-! # How assembling a model fails

Declaring fails because of a reference or because an id is taken (`Going.declare_failsAs`): what is
named is new to the graph too, and the parent of an element is there. Linking fails because of an
end or because a relationship is there already (`Going.link_failsAs`), and deriving relationships
does not fail (`exists_finish`). So assembling a model fails with a build error only
(`assemble_failsAs`). -/

namespace SystemAtlas

open Failure (CausedBy IsBuild causedBy_of isBuild_of)

namespace Cause

variable {c : Cause}

/-- A reference means nothing, or more than one thing. -/
def IsReference : Cause → Prop
  | emptyReference | ambiguous .. | unresolved _ | undeclared _ => True
  | _ => False

/-- What can be wrong with a declaration: its id is taken, or what it refers to is not there. -/
def IsDeclaring : Cause → Prop
  | identifierTaken _ | notGroup _ => True
  | c => c.IsReference

/-- What can be wrong with a relationship: an end of it is not there, or it is there already. -/
def IsLinking : Cause → Prop
  | noOwner _ | notElement .. | notYetDeclared .. | laterDescendant ..
  | relationshipTaken .. => True
  | c => c.IsReference

theorem IsReference.isDeclaring (h : c.IsReference) : c.IsDeclaring := by
  cases c <;> trivial

theorem IsReference.isLinking (h : c.IsReference) : c.IsLinking := by
  cases c <;> trivial

end Cause

/-! ## Registries -/

namespace Identifier.Registry

variable {r : Registry} {id name reference : Text} {scope : ScopePath} {accept : Text → Bool}

theorem declare_failsAs (h : isLocalName name = true) :
    FailsAs (CausedBy Cause.IsDeclaring) (r.declare name scope) := by
  rw [declare, if_neg (by simp [h])]
  dsimp only
  split
  · exact .error (causedBy_of trivial)
  · exact .ok

theorem resolve_failsAs : FailsAs (CausedBy Cause.IsReference) (r.resolve reference scope) := by
  rw [resolve]
  split
  · exact .error (causedBy_of trivial)
  · split
    · exact .ok
    · split
      · exact .error (causedBy_of trivial)
      · exact .ok
      · exact .error (causedBy_of trivial)

theorem lookup_failsAs : FailsAs (CausedBy Cause.IsReference) (r.lookup reference accept) := by
  rw [lookup]
  split
  · exact .ok
  · split
    · exact .error (causedBy_of trivial)
    · exact .ok
    · exact .error (causedBy_of trivial)

end Identifier.Registry

namespace Model

open Declaration (Details Instance InstanceKind)
open Identifier (Registry)

/-! ## Graphs -/

namespace Graph

variable {g : Graph} {l : Link} {id : Text}

theorem get_failsAs : FailsAs IsBuild (g.get id) := by
  rw [get]
  split
  · exact .ok
  · exact .error (isBuild_of ..)

theorem getRelationship_failsAs : FailsAs IsBuild (g.getRelationship id) := by
  rw [getRelationship]
  split
  · exact .ok
  · exact .error (isBuild_of ..)

/-- Between elements that are there, a relationship fails only because one is there already. -/
theorem addRelationship_failsAs (hg : g.frozen = false) (hs : g.contains l.source = true)
    (hd : g.contains l.destination = true) :
    FailsAs (CausedBy Cause.IsLinking) (g.addRelationship l) := by
  rw [addRelationship]
  dsimp only
  rw [if_neg (by simp [hg]), if_neg (by simp [hs]), if_neg (by simp [hd])]
  split
  · exact .error (causedBy_of trivial)
  · exact .ok

end Graph

/-! ## Declaring -/

namespace Assembly

variable {a a' : Assembly} {blocks : List Block} {e : Event} {id name reference : Text}
  {identifier : Option Identifier.LocalName} {make : Text → Element} {d : Identifier.Declared}
  {p : Pending}

/-- An assembly under way: its graph takes more, and its ids are registered. -/
structure Going (a : Assembly) : Prop where
  unfrozen : a.graph.frozen = false
  registered : a.Registered

theorem Going.initial (mode : Identifier.Mode) : Going { registry := { mode } } :=
  ⟨rfl, .initial mode⟩

theorem Going.step (ha : a.Going) (h : Step a e a') : a'.Going := by
  refine ⟨?_, ha.registered.step h⟩
  cases h with
  | leave => exact ha.unfrozen
  | relate r => exact ha.unfrozen
  | element _ _ _ _ hg =>
    obtain ⟨hf, -, -, rfl⟩ := Graph.addElement_eq_ok_iff.mp hg
    exact hf
  | environment _ _ _ hg =>
    obtain ⟨hf, -, rfl⟩ := Graph.addEnvironment_eq_ok_iff.mp hg
    exact hf

/-- What is declared is a local name, whether it is given or allocated. -/
theorem isLocalName_naming (a : Assembly) (identifier : Option Identifier.LocalName)
    (name : Text) : Identifier.isLocalName (a.naming identifier name).localName = true := by
  cases identifier with
  | some n => exact n.plain
  | none => exact Registry.isLocalName_firstFree ..

theorem identify_failsAs : FailsAs (CausedBy Cause.IsDeclaring) (a.identify identifier name) := by
  rw [identify_eq]
  have hname := isLocalName_naming a identifier name
  exact (Registry.declare_failsAs hname).bind fun _ _ => .ok

theorem definition_failsAs {kind : InstanceKind} :
    FailsAs (CausedBy Cause.IsDeclaring) (a.definition kind reference) := by
  refine (Registry.lookup_failsAs.mono_cause fun _ => Cause.IsReference.isDeclaring).bind
    fun id hid => ?_
  -- an accepted id is that of an element
  obtain ⟨q, hq, -⟩ := (Option.any_eq_true _ _).mp (Registry.accept_of_lookup hid)
  exact .of_eq_ok (Graph.get_eq_ok_iff.mpr hq)

theorem group_failsAs : FailsAs (CausedBy Cause.IsDeclaring) (a.group reference) := by
  refine (Registry.resolve_failsAs.mono_cause fun _ => Cause.IsReference.isDeclaring).bind
    fun id _ => ?_
  split
  · exact .ok
  · exact .error (causedBy_of trivial)

theorem openElement_failsAs {d : Details} {role : Role} {parent : Option Text}
    (h : FailsAs (CausedBy Cause.IsDeclaring) (a.addDetails d role parent)) :
    FailsAs (CausedBy Cause.IsDeclaring) (a.openElement d role parent) := by
  refine h.bind fun ⟨id, b⟩ hb => ?_
  obtain ⟨g, hfree, rfl, -, rfl⟩ := addElement_eq_ok_iff.mp hb
  exact .of_eq_ok (openBlock_named hfree)

namespace Going

variable (ha : a.Going)
include ha

theorem not_mem_of_free (hfree : a.registry.Free d) : d.id a.registry.mode ∉
    a.graph.elements.map (·.id) ++ a.graph.environments.map (·.id) := by
  intro hmem
  have hnew := hfree.new
  rw [Registry.contains,
    List.contains_iff_mem.mpr (ha.registered.ids.mem_iff.mp hmem)] at hnew
  cases hnew

theorem exists_addEnvironment (hfree : a.registry.Free d) (name : Text) :
    ∃ g, a.graph.addEnvironment ⟨d.id a.registry.mode, name⟩ = .ok g := by
  have hnew := mt (List.mem_append_right _) (ha.not_mem_of_free hfree)
  exact ⟨_, Graph.addEnvironment_eq_ok_iff.mpr ⟨ha.unfrozen, hnew, rfl⟩⟩

theorem openEnvironment_failsAs {n : Declaration.Named} :
    FailsAs (CausedBy Cause.IsDeclaring) (a.openEnvironment n) := by
  refine identify_failsAs.bind fun ⟨id, b⟩ h => ?_
  obtain ⟨hfree, rfl, rfl⟩ := identify_eq_ok_iff.mp h
  obtain ⟨g, hg⟩ := ha.exists_addEnvironment hfree n.name
  exact (FailsAs.of_eq_ok hg).bind fun g _ => .of_eq_ok (openBlock_named hfree)

section
variable (ht : Typed blocks a) (hs : Stands blocks e)
include ht hs

/-- What an entry makes where it may stand can be added as soon as it is named. -/
theorem exists_addElement (hm : Makes a e name make) (hfree : a.registry.Free d) :
    ∃ g, a.graph.addElement (make (d.id a.registry.mode)) = .ok g := by
  have hnew : a.graph.contains (make (d.id a.registry.mode)).id = false := by
    rw [hm.id_eq, ← Bool.not_eq_true, Graph.contains_iff_mem]
    exact mt (List.mem_append_left _) (ha.not_mem_of_free hfree)
  have hparent : ∀ p, (make (d.id a.registry.mode)).parent = some p → a.graph.contains p = true :=
    fun p hp => Graph.contains_iff_mem.mpr ((hm.fits ht hs).mem_of_parent hp)
  exact ⟨_, Graph.addElement_eq_ok_iff.mpr ⟨ha.unfrozen, hnew, hparent, rfl⟩⟩

theorem addElement_failsAs (hm : Makes a e name make) :
    FailsAs (CausedBy Cause.IsDeclaring) (a.addElement e.identifier name make) := by
  refine identify_failsAs.bind fun ⟨id, b⟩ h => ?_
  obtain ⟨hfree, rfl, rfl⟩ := identify_eq_ok_iff.mp h
  obtain ⟨g, hg⟩ := ha.exists_addElement ht hs hm hfree
  exact (FailsAs.of_eq_ok hg).bind fun _ _ => .ok

end

theorem enter_failsAs {block : Block} (ht : Typed blocks a) (hs : Stands blocks (.enter block)) :
    FailsAs (CausedBy Cause.IsDeclaring) (a.enter block) := by
  cases block with
  | environment n => exact ha.openEnvironment_failsAs
  | system d => exact openElement_failsAs (ha.addElement_failsAs ht hs (.system d))
  | container d => exact openElement_failsAs (ha.addElement_failsAs ht hs (.container d))
  | node d n => exact openElement_failsAs (ha.addElement_failsAs ht hs (.node d n))

/-- The definition of an instance is an element and so has a local name. -/
theorem addInstance_failsAs {i : Instance} (ht : Typed blocks a)
    (hs : Stands blocks (.add (.occurrence i))) :
    FailsAs (CausedBy Cause.IsDeclaring) (a.addInstance i) := by
  refine definition_failsAs.bind fun q hq => ?_
  refine (FailsAs.mapM fun _ _ => group_failsAs).bind fun groups hgroups => ?_
  have hknown := ha.registered.contains_of_mem (definition_eq_ok hq).1
  obtain ⟨name, hname⟩ := Registry.localName_eq_ok_iff.mpr hknown
  refine (FailsAs.of_eq_ok hname).bind fun name hname => ?_
  exact (ha.addElement_failsAs ht hs (.occurrence hq hgroups hname)).map

theorem add_failsAs {leaf : Leaf} (ht : Typed blocks a) (hs : Stands blocks (.add leaf)) :
    FailsAs (CausedBy Cause.IsDeclaring) (a.add leaf) := by
  cases leaf with
  | occurrence i => exact ha.addInstance_failsAs ht hs
  | person d => exact (ha.addElement_failsAs ht hs (.person d)).map
  | component d => exact (ha.addElement_failsAs ht hs (.component d)).map
  | infrastructure d => exact (ha.addElement_failsAs ht hs (.infrastructure d)).map
  | group n => exact (ha.addElement_failsAs ht hs (.group n)).map

theorem declare_failsAs (ht : Typed blocks a) (hs : Stands blocks e) :
    FailsAs (CausedBy Cause.IsDeclaring) (a.declare e) := by
  refine FailsAs.mapError (P := CausedBy Cause.IsDeclaring) ?_ fun _ h => h.annotate
  cases e with
  | enter block => exact ha.enter_failsAs ht hs
  | add leaf => exact ha.add_failsAs ht hs
  | leave => exact .ok
  | relate r => exact .ok

theorem run_failsAs {events : List Event} (ht : Typed blocks a) (hn : Nested blocks events) :
    FailsAs (CausedBy Cause.IsDeclaring) (events.foldlM declare a) := by
  induction hn generalizing a with
  | nil => exact .ok
  | cons hs _ ih =>
    rw [List.foldlM_cons]
    refine (ha.declare_failsAs ht hs).bind fun b hb => ?_
    have hstep := declare_eq_ok_iff.mp hb
    exact ih (ha.step hstep) (ht.step hs hstep)

/-! ## Linking and finishing -/

/-- What a reference resolves to is declared if it is an element. -/
theorem endpoint_failsAs : FailsAs (CausedBy Cause.IsLinking) (a.endpoint p reference) := by
  rw [endpoint]
  split
  · cases p.owner with
    | none => exact .error (causedBy_of trivial)
    | some owner => exact .ok
  · refine (Registry.resolve_failsAs.mono_cause fun _ => Cause.IsReference.isLinking).bind
      fun id _ => ?_
    split
    · exact .error (causedBy_of trivial)
    · next q hfilter =>
      obtain ⟨hq, rfl⟩ := Graph.mem_of_find? (Option.filter_eq_some_iff.mp hfilter).1
      have hknown := ha.registered.contains_of_mem hq
      obtain ⟨n, hn⟩ := Registry.exists_sequenceOf hknown
      refine (FailsAs.of_eq_ok hn).bind fun _ _ => ?_
      split
      · exact .ok
      · rw [tooEarly]
        split <;> exact .error (causedBy_of trivial)

theorem link_failsAs (howner : ∀ id, p.owner = some id → a.graph.IsEnd id) :
    FailsAs (CausedBy Cause.IsLinking) (a.link p) := by
  refine FailsAs.mapError (P := CausedBy Cause.IsLinking) ?_ fun _ h => h.annotate
  have hlink : FailsAs (CausedBy Cause.IsLinking) (a.resolveLink p) :=
    ha.endpoint_failsAs.bind fun _ _ => ha.endpoint_failsAs.bind fun _ _ => .ok
  refine hlink.bind fun l hl => ?_
  obtain ⟨s, hs, d, hd, rfl⟩ := resolveLink_eq_ok_iff.mp hl
  have hsource := Graph.contains_iff_mem.mpr (isEnd_of_endpoint howner hs).mem
  have hdestination := Graph.contains_iff_mem.mpr (isEnd_of_endpoint howner hd).mem
  exact (Graph.addRelationship_failsAs ha.unfrozen hsource hdestination).bind fun _ _ => .ok

theorem of_link (h : a.link p = .ok a') : a'.Going := by
  obtain ⟨l, -, g, hg, rfl⟩ := link_eq_ok_iff.mp h
  obtain ⟨hf, -, -, -, rfl⟩ := Graph.addRelationship_eq_ok_iff.mp hg
  exact ⟨hf, ha.registered.nodup, ha.registered.ids⟩

theorem linkAll_failsAs (hk : a.Kept) :
    FailsAs (CausedBy Cause.IsLinking) (a.pending.foldlM link a) := by
  -- the owners of the blocks stay elements while relationships are added
  refine FailsAs.foldlM (I := fun c => c.Going ∧ c.graph.elements = a.graph.elements)
    (fun c p c' _ hc h => ⟨hc.1.of_link h, ?_⟩) (fun c p hp hc => hc.1.link_failsAs ?_) ⟨ha, rfl⟩
  · obtain ⟨l, -, g, hg, rfl⟩ := link_eq_ok_iff.mp h
    obtain ⟨-, -, -, -, rfl⟩ := Graph.addRelationship_eq_ok_iff.mp hg
    exact hc.2
  · exact fun id hid => (hk.owners p hp id hid).mono (hc.2 ▸ List.Subset.refl _)

end Going

theorem exists_finish (hg : a.graph.Grown) (hf : a.graph.frozen = false) :
    ∃ f, a.finish = .ok f := by
  obtain ⟨g, himplied, hadds⟩ := Graph.exists_withImplied hg.store hf
  obtain ⟨g', hcopied, -⟩ := Graph.exists_withInstanceRelationships (hadds.frozen_eq.trans hf)
  exact ⟨_, finish_eq_ok_iff.mpr ⟨g, himplied, g', hcopied, rfl⟩⟩

end Assembly

/-! ## Whole models -/

section
variable {mode : Identifier.Mode} {members : List Declaration.ModelMember} {a : Assembly}

theorem Assembly.going_of_declared {events : List Event}
    (h : events.foldlM declare { registry := { mode } } = .ok a) : a.Going :=
  foldlM_invariant (fun _ _ _ _ ha h => ha.step (declare_eq_ok_iff.mp h)) (.initial mode) h

theorem Assembly.going_of_linked (h : linked mode members = .ok a) : a.Going := by
  obtain ⟨b, hb, hlink⟩ := linked_eq_ok_iff.mp h
  exact foldlM_invariant (fun _ _ _ _ ha h => ha.of_link h) (going_of_declared hb) hlink

theorem exists_finish_of_linked (h : linked mode members = .ok a) : ∃ f, a.finish = .ok f :=
  Assembly.exists_finish (grown_of_linked h) (Assembly.going_of_linked h).unfrozen

end

/-- Assembling a model fails with a build error only. -/
theorem assemble_failsAs (mode : Identifier.Mode) (members : List Declaration.ModelMember) :
    FailsAs IsBuild (assemble mode members) := by
  have hnested := nested_script members
  rw [assemble, Assembly.declareAll_result]
  refine ((Assembly.Going.initial mode).run_failsAs (.initial mode) hnested).isBuild.bind
    fun b hb => ?_
  have hkept := (Assembly.Kept.initial mode).run (.initial mode) hnested hb
  rw [Assembly.linkAll_result]
  refine ((Assembly.going_of_declared hb).linkAll_failsAs hkept).isBuild.bind fun c hc => ?_
  obtain ⟨f, hf⟩ := exists_finish_of_linked (linked_eq_ok_iff.mpr ⟨b, hb, hc⟩)
  exact .of_eq_ok hf

end Model

end SystemAtlas
