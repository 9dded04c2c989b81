import SystemAtlas.Proofs.Model.Linking

/-! # Names in an assembly

The paths of an assembly consist of local names, which have no dots (`DotFree.step`). Declarations
that have an identifier are registered under it, in the order of the script
(`localNames_of_declared`), and with flat ids no two declarations have the same local name. -/

namespace SystemAtlas.Model

open Identifier (Declared)

/-- An entry declares something. -/
def Event.Declares : Event → Prop
  | .enter _ | .add _ => True
  | .leave | .relate _ => False

instance : DecidablePred Event.Declares
  | .enter _ | .add _ => isTrue trivial
  | .leave | .relate _ => isFalse id

/-- Every declaration of a script has an identifier. -/
def Identified (events : List Event) : Prop :=
  ∀ e ∈ events, e.Declares → e.identifier.isSome = true

instance (events : List Event) : Decidable (Identified events) :=
  inferInstanceAs (Decidable (∀ e ∈ events, e.Declares → e.identifier.isSome = true))

/-- The name that an entry gives to what it declares. -/
def Event.givenName (e : Event) : Option Text := e.identifier.map (·.text)

/-- The names that entries give to what they declare. -/
def names (events : List Event) : List Text := events.filterMap (·.givenName)

namespace Assembly

variable {a a' : Assembly} {e : Event} {p : Pending} {d : Declared}

/-- The local names of what is declared. -/
def localNames (a : Assembly) : List Text := a.registry.declared.map (·.localName)

theorem naming_of_identifier {n : Identifier.LocalName} {identifier : Option Identifier.LocalName}
    {name : Text} (h : identifier = some n) :
    a.naming identifier name = ⟨a.scope.path, n.text⟩ := by
  rw [h]
  rfl

theorem Makes.declares {name : Text} {make : Text → Element} (h : Makes a e name make) :
    e.Declares := by
  cases h <;> trivial

theorem Step.localNames_eq (h : Step a e a') (he : e.Declares → e.identifier.isSome = true) :
    a'.localNames = a.localNames ++ names [e] := by
  cases h with
  | leave => exact (List.append_nil _).symm
  | relate r => exact (List.append_nil _).symm
  | @element e name make d id g hm hd _ _ _ =>
    obtain ⟨n, hn⟩ := Option.isSome_iff_exists.mp (he hm.declares)
    rw [naming_of_identifier hn] at hd
    subst hd
    simp [localNames, named, Identifier.Registry.add, names, Event.givenName, hn]
  | @environment n d id g hd _ _ _ =>
    obtain ⟨n', hn⟩ := Option.isSome_iff_exists.mp (he trivial)
    have hn' : n.identifier = some n' := hn
    rw [naming_of_identifier hn'] at hd
    subst hd
    simp [localNames, named, Identifier.Registry.add, names, Event.givenName, hn]

theorem localNames_named : (a.named d).localNames = a.localNames ++ [d.localName] := by
  simp only [localNames, named, Identifier.Registry.add, List.map_append, List.map_cons,
    List.map_nil]

/-- A script whose declarations have identifiers adds all of them to the local names. -/
theorem localNames_of_declared {events : List Event} (he : Identified events)
    (h : events.foldlM declare a = .ok a') : a'.localNames = a.localNames ++ names events := by
  induction events generalizing a with
  | nil => exact Except.ok.inj h ▸ (List.append_nil _).symm
  | cons e events ih =>
    obtain ⟨m, hm, h⟩ := foldlM_cons_eq_ok_iff.mp h
    rw [ih (fun x hx => he x (List.mem_cons_of_mem _ hx)) h,
      (declare_eq_ok_iff.mp hm).localNames_eq (he e List.mem_cons_self), List.append_assoc, names,
      names, names, ← List.filterMap_append]
    rfl

theorem nodup_localNames_named (hm : a.registry.mode = .flat) (hn : a.localNames.Nodup)
    (hfree : a.registry.Free d) : (a.named d).localNames.Nodup := by
  rw [localNames_named]
  refine List.nodup_append.mpr ⟨hn, List.nodup_singleton _, fun x hx y hy => ?_⟩
  rw [List.mem_singleton.mp hy]
  rintro rfl
  obtain ⟨x, hx, hname⟩ := List.mem_map.mp hx
  have hnew := hfree.new
  rw [Identifier.Registry.contains_iff.mpr ⟨x, hx, by rw [hm]; exact hname⟩] at hnew
  cases hnew

/-- With flat ids no two declarations have the same local name. -/
theorem Step.nodup_localNames (hm : a.registry.mode = .flat) (hn : a.localNames.Nodup)
    (h : Step a e a') : a'.localNames.Nodup := by
  cases h with
  | leave => exact hn
  | relate r => exact hn
  | element _ _ _ hfree _ => exact nodup_localNames_named hm hn hfree
  | environment _ _ hfree _ => exact nodup_localNames_named hm hn hfree

theorem Step.mode_eq (h : Step a e a') : a'.registry.mode = a.registry.mode := by
  cases h <;> rfl

theorem mode_of_declared {events : List Event} (h : events.foldlM declare a = .ok a') :
    a'.registry.mode = a.registry.mode := by
  refine foldlM_invariant (P := fun b => b.registry.mode = a.registry.mode) ?_ rfl h
  intro s e t _ hs hstep
  rw [(declare_eq_ok_iff.mp hstep).mode_eq, hs]

/-! ## Names without dots -/

/-- The names in the paths of an assembly have no dots. -/
structure DotFree (a : Assembly) : Prop where
  registry : a.registry.DotFree
  frames : ∀ f ∈ a.scope.frames, ∀ s ∈ f.path, s.DotFree
  pending : ∀ p ∈ a.pending, ∀ s ∈ p.scope, s.DotFree

theorem DotFree.initial (mode : Identifier.Mode) : DotFree { registry := { mode } } where
  registry _ h := absurd h List.not_mem_nil
  frames f hf s hs := by
    rw [List.mem_singleton.mp hf] at hs
    cases hs
  pending _ h := absurd h List.not_mem_nil

theorem current_mem_frames (s : Scope) : s.current ∈ s.frames := by
  rw [Scope.current, Scope.frames]
  cases s.blocks with
  | nil => exact List.mem_singleton_self _
  | cons f fs => exact List.mem_cons_self

theorem DotFree.path (ha : a.DotFree) : ∀ s ∈ a.scope.path, s.DotFree :=
  ha.frames _ (current_mem_frames a.scope)

theorem exists_of_mem_record {s : Scope} {id : Text} {f : Scope.Frame}
    (hf : f ∈ (s.record id).frames) : ∃ f' ∈ s.frames, ∃ declared, f = { f' with declared } := by
  rw [Scope.record] at hf
  split at hf
  · next hnil =>
    simp only [Scope.frames, hnil, List.nil_append, List.mem_singleton] at hf ⊢
    exact ⟨_, rfl, _, hf⟩
  · next frame rest hcons =>
    simp only [Scope.frames, hcons, List.cons_append, List.mem_cons] at hf ⊢
    rcases hf with rfl | hf
    · exact ⟨frame, .inl rfl, _, rfl⟩
    · exact ⟨f, .inr hf, _, rfl⟩

theorem DotFree.named (ha : a.DotFree) (hd : d.scope = a.scope.path) (hfree : a.registry.Free d) :
    (a.named d).DotFree where
  registry := ha.registry.add (hd ▸ ha.path) hfree
  frames f hf := by
    obtain ⟨f', hf', _, rfl⟩ := exists_of_mem_record hf
    exact ha.frames f' hf'
  pending := ha.pending

theorem DotFree.enter {g : Graph} {frame : Scope.Frame} (ha : a.DotFree)
    (hframe : ∀ s ∈ frame.path, s.DotFree) :
    DotFree { a with graph := g, scope := a.scope.enter frame } where
  registry := ha.registry
  frames f hf := by
    rcases List.mem_cons.mp hf with rfl | hf
    · exact hframe
    · exact ha.frames f hf
  pending := ha.pending

theorem DotFree.step (ha : a.DotFree) (h : Step a e a') : a'.DotFree := by
  cases h with
  | leave =>
    refine ⟨ha.registry, fun f hf => ha.frames f ?_, ha.pending⟩
    simp only [Scope.frames, Scope.leave, List.mem_append] at hf ⊢
    exact hf.imp_left List.mem_of_mem_tail
  | relate r =>
    refine ⟨ha.registry, ha.frames, fun p hp => ?_⟩
    rcases List.mem_append.mp hp with hp | hp
    · exact ha.pending p hp
    · rw [List.mem_singleton.mp hp]
      exact ha.path
  | @element e name make d id g hm hd hid hfree hg =>
    have hnamed := ha.named (d := d) (hd ▸ rfl) hfree
    have hd' := hnamed.registry d (List.mem_append_right _ (List.mem_singleton_self d))
    cases e with
    | enter block => exact hnamed.enter hd'
    | _ => exact ⟨hnamed.registry, hnamed.frames, hnamed.pending⟩
  | @environment n d id g hd hid hfree hg =>
    have hnamed := ha.named (d := d) (hd ▸ rfl) hfree
    have hd' := hnamed.registry d (List.mem_append_right _ (List.mem_singleton_self d))
    exact hnamed.enter hd'

theorem DotFree.run {events : List Event} (ha : a.DotFree)
    (h : events.foldlM declare a = .ok a') : a'.DotFree :=
  foldlM_invariant (fun _ _ _ _ hs hstep => hs.step (declare_eq_ok_iff.mp hstep)) ha h

/-! ## References with flat ids -/

/-- What the end of a relationship means, given the owner of the block around it. -/
def meant (owner : Option Text) (reference : Text) : Option Text :=
  if reference = ownReference then owner else some reference.lastName

section
variable {reference id : Text} {q : Element} (hm : a.registry.mode = .flat) (ha : a.DotFree)
include hm ha

theorem definition_lastName {kind : Declaration.InstanceKind}
    (h : a.definition kind reference = .ok q) : q.id = reference.lastName := by
  obtain ⟨id, hid, h⟩ := bind_eq_ok_iff.mp h
  rw [← Identifier.Registry.lookup_eq_lastName hm ha.registry hid]
  exact (Graph.mem_of_find? (Graph.get_eq_ok_iff.mp h)).2

theorem group_lastName (h : a.group reference = .ok id) : id = reference.lastName := by
  obtain ⟨x, hx, h⟩ := bind_eq_ok_iff.mp h
  split at h
  · cases Except.ok.inj h
    exact Identifier.Registry.resolve_eq_lastName hm ha.registry ha.path hx
  · cases h

theorem meant_of_endpoint (hp : p ∈ a.pending) (h : a.endpoint p reference = .ok id) :
    meant p.owner reference = some id := by
  rw [meant]
  rcases endpoint_eq_ok_iff.mp h with ⟨href, howner⟩ | ⟨href, hresolve, -⟩
  · rw [if_pos href, howner]
  · rw [if_neg href]
    exact congrArg some (Identifier.Registry.resolve_eq_lastName hm ha.registry (ha.pending p hp)
      hresolve).symm

end

end Assembly

end SystemAtlas.Model
