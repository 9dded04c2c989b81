import SystemAtlas.Proofs.Identifier.Matching
import SystemAtlas.Proofs.Model.Beginning

/-! # What instances are bound to

An instance is bound to its definition when it is declared, among the declarations before it. In the
complete model its reference may mean the same definition still, but with hierarchical ids also
definitions that are declared later (`bound_of_assemble`). Then the lookup that found the definition
is ambiguous by now, as in `twins_ambiguous`. -/

namespace SystemAtlas.Model

open Identifier (Declared Mode Registry)
open Declaration (Instance InstanceKind)

/-- The instance that an entry declares. -/
def Event.occurrence? : Event → Option Instance
  | .add (.occurrence i) => some i
  | _ => none

/-- The instances that a script declares. -/
def occurrences (events : List Event) : List Instance := events.filterMap (·.occurrence?)

/-- Whether an id is that of an element which belongs to a type. -/
def Graph.isOf (g : Graph) (t : ElementType) (id : Text) : Bool := (g.find? id).any (·.isA t)

/-- The definitions that the reference of an instance may mean. -/
def meanings (r : Registry) (g : Graph) (i : Instance) : List Text :=
  r.matching i.element (g.isOf (definitionType i.kind))

/-- The definition that the reference of an instance means. -/
def meaning (r : Registry) (g : Graph) (i : Instance) : Except Failure Text :=
  r.lookup i.element (g.isOf (definitionType i.kind))

/-- An instance is bound to the first definition that its reference may mean. All others are
declared after the instance, and with flat ids there are none. The reference means the definition
still if there are none, and else it is ambiguous. -/
def Bound (r : Registry) (g : Graph) (i : Instance) (e : Element) : Prop :=
  ∃ q later, e.definition? = some q ∧ meanings r g i = q :: later ∧
    (∀ x ∈ later, r.Precedes e.id x) ∧ (r.mode = .flat → later = []) ∧
      (later = [] → meaning r g i = .ok q) ∧
        (later ≠ [] → meaning r g i = .error (.of (.ambiguous i.element (q :: later))))

namespace Assembly

variable {a b m : Assembly} {blocks : List Block} {e : Event} {events : List Event} {i : Instance}
  {q : Element} {id name : Text} {make : Text → Element}

/-! ## Looking up definitions -/

/-- The paths of definitions of a kind have one length. -/
theorem Lawful.path_length (ha : a.Lawful) (kind : InstanceKind) :
    ∃ k, ∀ d ∈ a.registry.declared,
      a.graph.isOf (definitionType kind) (d.id a.registry.mode) = true → d.path.length = k := by
  have hstatic : ∃ t : StaticType, t ≠ .plain ∧ definitionType kind = t.elementType := by
    cases kind with
    | container => exact ⟨.container, by decide, rfl⟩
    | component => exact ⟨.component, by decide, rfl⟩
  obtain ⟨t, ht, htype⟩ := hstatic
  refine ⟨t.depth + 1, fun d hd h => ?_⟩
  rw [Graph.isOf, Option.any_eq_true, htype] at h
  obtain ⟨q, hfind, hq⟩ := h
  obtain ⟨hmem, hid⟩ := Graph.mem_of_find? hfind
  exact ha.leveled.elements q hmem t ((isA_static_iff ht).mp hq) d hd hid.symm

theorem Lawful.meaning_eq (ha : a.Lawful) : meaning a.registry a.graph i =
    match meanings a.registry a.graph i with
    | [] => .error (.of (.undeclared i.element))
    | [id] => .ok id
    | ids => .error (.of (.ambiguous i.element ids)) :=
  Registry.lookup_eq ha.dotFree.registry ha.registered.nodup fun _ => ha.path_length i.kind

/-- The definition that an instance gets is the only one its reference may mean at the time. -/
theorem Lawful.meanings_of_definition (ha : a.Lawful)
    (h : a.definition i.kind i.element = .ok q) :
    meanings a.registry a.graph i = [q.id] := by
  obtain ⟨id, hid, h⟩ := bind_eq_ok_iff.mp h
  obtain rfl := (Graph.mem_of_find? (Graph.get_eq_ok_iff.mp h)).2
  exact Registry.matching_of_lookup ha.dotFree.registry ha.registered.nodup
    (fun _ => ha.path_length i.kind) hid

/-! ## Later declarations -/

theorem Begins.isOf_eq (hab : a.Begins b) (ha : a.Lawful) (hb : b.Lawful) {t : ElementType}
    (hc : a.registry.contains id = true) : b.graph.isOf t id = a.graph.isOf t id := by
  rw [Graph.isOf, Graph.isOf, hab.find?_eq ha hb hc]

/-- Later declarations add what a reference may mean behind what it may have meant already. -/
theorem Begins.meanings_eq (hab : a.Begins b) (ha : a.Lawful) (hb : b.Lawful) :
    meanings b.registry b.graph i = meanings a.registry a.graph i ++
      (b.registry.since a.registry.sequence).matching i.element
        (b.graph.isOf (definitionType i.kind)) := by
  rw [meanings, Registry.matching_eq_append a.registry.sequence, hab.upTo_eq, meanings,
    Registry.matching_congr fun id hc => hab.isOf_eq ha hb hc]

/-- With flat ids a reference may mean one thing only. -/
theorem Lawful.eq_nil_of_flat (hb : b.Lawful) (hm : b.registry.mode = .flat) {later : List Text}
    (h : meanings b.registry b.graph i = id :: later) : later = [] := by
  have hnodup : (id :: later).Nodup :=
    h ▸ hb.registered.nodup.sublist Registry.matching_sublist
  have hlast : ∀ x ∈ id :: later, x = i.element.lastName := by
    intro x hx
    obtain ⟨d, -, rfl, he, -⟩ := Registry.mem_matching_iff.mp (h ▸ hx)
    exact Registry.eq_lastName_of_flat hm he
  refine List.eq_nil_iff_forall_not_mem.mpr fun x hx => (List.nodup_cons.mp hnodup).1 ?_
  rwa [hlast id List.mem_cons_self, ← hlast x (List.mem_cons_of_mem _ hx)]

theorem isInstance_instanceType (kind : InstanceKind) :
    (instanceType kind).elementType.isInstance = true := by
  cases kind <;> rfl

/-- An element that an entry makes is an instance exactly if the entry declares one. -/
theorem Makes.isInstance_eq (hm : Makes a e name make) :
    (make id).isInstance = e.occurrence?.isSome := by
  cases hm with
  | @occurrence i _ _ _ _ _ _ => exact isInstance_instanceType i.kind
  | _ => rfl

theorem isA_definitionType_of_isInstance {t : ElementType} {kind : InstanceKind}
    (h : t.isInstance = true) : t.isA (definitionType kind) = false := by
  cases kind <;> cases t <;> first | rfl | cases h

/-- An instance adds nothing that a reference to a definition may mean. -/
theorem isOf_instance {kind : InstanceKind} (hg : a.graph.Forest) (he : q ∈ a.graph.elements)
    (h : q.isInstance = true) : a.graph.isOf (definitionType kind) q.id = false := by
  rw [Graph.isOf, hg.find?_of_mem he, Option.any_some]
  exact isA_definitionType_of_isInstance h

/-- What is declared as an instance is bound in every later assembly. -/
theorem Step.bound {d : Declared} {groups : List Text} (ha : a.Lawful) (hm : m.Lawful)
    (hb : b.Lawful) (ham : a.Begins m) (hmb : m.Begins b)
    (hdef : a.definition i.kind i.element = .ok q) (hregistry : m.registry = a.registry.add d)
    (hid : d.id a.registry.mode = id) (hmem : a.occurrence i q groups id ∈ m.graph.elements) :
    Bound b.registry b.graph i (a.occurrence i q groups id) := by
  have hnew : m.graph.isOf (definitionType i.kind) (d.id a.registry.mode) = false :=
    hid ▸ isOf_instance hm.typed.forest hmem (isInstance_instanceType i.kind)
  -- the instance itself is no candidate, so its definition is still the only one
  have hthen : meanings m.registry m.graph i = [q.id] := by
    rw [← ha.meanings_of_definition hdef, meanings, hregistry, Registry.matching_add hnew]
    exact Registry.matching_congr fun x hx => ham.isOf_eq ha hm hx
  have hall := hmb.meanings_eq (i := i) hm hb
  rw [hthen, List.singleton_append] at hall
  have hlookup := hb.meaning_eq (i := i)
  rw [hall] at hlookup
  refine ⟨q.id, _, rfl, hall, fun x hx => ?_, fun hf => hb.eq_nil_of_flat hf hall, fun hnil => ?_,
    fun hne => ?_⟩
  · refine Registry.precedes_of_since hb.registered.nodup ?_ (Registry.matching_sublist.subset hx)
    rw [hmb.upTo_eq]
    exact hm.registered.contains_of_mem hmem
  · rw [hlookup, hnil]
  · obtain ⟨x, rest, hcons⟩ := List.exists_cons_of_ne_nil hne
    rw [hlookup, hcons]

/-- What an entry declares as an instance is bound in every later assembly. -/
theorem Step.bound_of_begins (ha : a.Lawful) (hm : m.Lawful) (hb : b.Lawful) (h : Step a e m)
    (hmb : m.Begins b) : ∃ es, m.graph.ofType .anyInstance = a.graph.ofType .anyInstance ++ es ∧
      List.Forall₂ (Bound b.registry b.graph) (occurrences [e]) es := by
  have ham := h.begins
  cases h with
  | leave => exact ⟨[], (List.append_nil _).symm, .nil⟩
  | relate r => exact ⟨[], (List.append_nil _).symm, .nil⟩
  | environment _ _ _ hg =>
    obtain ⟨-, -, rfl⟩ := Graph.addEnvironment_eq_ok_iff.mp hg
    exact ⟨[], (List.append_nil _).symm, .nil⟩
  | @element e name make d id g hmakes hd hid hfree hg =>
    obtain ⟨-, -, -, rfl⟩ := Graph.addElement_eq_ok_iff.mp hg
    refine ⟨[make id].filter (·.isInstance), List.filter_append .., ?_⟩
    have hisInstance : (make id).isInstance = e.occurrence?.isSome := hmakes.isInstance_eq
    cases hmakes with
    | @occurrence i q groups name hdef _ _ =>
      rw [List.filter_cons_of_pos hisInstance]
      exact .cons (bound ha hm hb ham hmb hdef rfl hid.symm
        (List.mem_append_right _ (List.mem_singleton_self _))) .nil
    | _ =>
      rw [List.filter_cons_of_neg (ne_true_of_eq_false hisInstance)]
      exact .nil

/-- The instances that a script declares are bound in what it leads to. -/
theorem Lawful.bound (ha : a.Lawful) (ht : Typed blocks a) (hn : Nested blocks events)
    (h : events.foldlM declare a = .ok b) :
    ∃ es, b.graph.ofType .anyInstance = a.graph.ofType .anyInstance ++ es ∧
      List.Forall₂ (Bound b.registry b.graph) (occurrences events) es := by
  have hb := ha.run ht hn h
  induction hn generalizing a with
  | nil blocks =>
    cases Except.ok.inj h
    exact ⟨[], (List.append_nil _).symm, .nil⟩
  | cons hs _ ih =>
    obtain ⟨m, hm, h⟩ := foldlM_cons_eq_ok_iff.mp h
    have hstep := declare_eq_ok_iff.mp hm
    have hm := ha.step ht hs hstep
    obtain ⟨first, hfirst, hbound⟩ := hstep.bound_of_begins ha hm hb (.run h)
    obtain ⟨rest, hrest, hbound'⟩ := ih hm (ht.step hs hstep) h
    refine ⟨first ++ rest, by rw [hrest, hfirst, List.append_assoc], ?_⟩
    rw [occurrences, ← List.singleton_append, List.filterMap_append]
    exact List.rel_append hbound hbound'

end Assembly

variable {mode : Mode} {members : List Declaration.ModelMember} {f : Finished}

theorem Bound.of_elements_eq {r : Registry} {g g' : Graph} {i : Instance} {e : Element}
    (h : g'.elements = g.elements) (hbound : Bound r g i e) : Bound r g' i e := by
  have hisOf : ∀ t, g'.isOf t = g.isOf t := fun t => funext fun id => by
    rw [Graph.isOf, Graph.isOf, Graph.find?_of_elements_eq h]
  simpa only [Bound, meanings, meaning, hisOf] using hbound

/-- The instances of a complete model are bound to the first definitions that their references may
mean. What a reference may mean besides is declared after the instance. It is none with flat ids;
then, and with hierarchical ids if there is none, the reference means the recorded definition when
it is looked up in the complete model, and else it is ambiguous there. -/
theorem bound_of_assemble (h : assemble mode members = .ok f) : f.registry.mode = mode ∧
    List.Forall₂ (Bound f.registry f.graph) (occurrences (script members))
      (f.graph.ofType .anyInstance) := by
  obtain ⟨a, ha, hf⟩ := assemble_eq_ok_iff.mp h
  obtain ⟨b, hb, hlink⟩ := linked_eq_ok_iff.mp ha
  obtain ⟨rs, rfl, -⟩ := Assembly.appended_of_link hlink
  have helements : f.graph.elements = b.graph.elements :=
    (Assembly.elements_of_finish hf).trans rfl
  have hregistry : f.registry = b.registry := (Assembly.registry_of_finish hf).trans rfl
  obtain ⟨es, hes, hbound⟩ := (Assembly.Lawful.initial mode).bound (.initial mode)
    (nested_script members) hb
  rw [hregistry, Graph.ofType, helements]
  refine ⟨Assembly.mode_of_declared hb, ?_⟩
  have hall : b.graph.elements.filter (·.isA .anyInstance) = es := hes
  rw [hall]
  exact hbound.imp fun i e hi => hi.of_elements_eq helements

theorem shop_bound : assemble .flat shop = .ok shopModel ∧ shopModel.registry.mode = .flat ∧
    List.Forall₂ (Bound shopModel.registry shopModel.graph) (occurrences (script shop))
      (shopModel.graph.ofType .anyInstance) := by
  have h : assemble .flat shop = .ok shopModel := by rfl
  exact ⟨h, bound_of_assemble h⟩

/-- An instance of a container, between two systems that have a container of its name each. -/
def twins : List Declaration.ModelMember :=
  let details (id : Text) : Declaration.Details :=
    { identifier := Identifier.LocalName.ofText? id, name := id }
  [.system (details "a") [.container (details "web") []],
    .environment { identifier := Identifier.LocalName.ofText? "live", name := "live" }
      [.node (details "host") 1 [.occurrence { kind := .container, element := "web" }]],
    .system (details "b") [.container (details "web") []]]

/-- The twins, complete. -/
def twinsModel : Finished := (assemble .hierarchical twins).toOption.getD default

/-- The instance is bound to the first container, although its reference means neither of the two
in the complete model. -/
theorem twins_ambiguous : assemble .hierarchical twins = .ok twinsModel ∧
    occurrences (script twins) = [{ kind := .container, element := "web" }] ∧
    (twinsModel.graph.ofType .anyInstance).map (·.definition?) = [some ("a.web" : Text)] ∧
    meaning twinsModel.registry twinsModel.graph { kind := .container, element := "web" } =
      .error (.of (.ambiguous "web" ["a.web", "b.web"])) := by
  exact ⟨by rfl, by rfl, by decide +kernel, by rfl⟩

end SystemAtlas.Model
