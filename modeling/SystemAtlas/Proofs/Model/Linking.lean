import SystemAtlas.Proofs.Model.Derived
import SystemAtlas.Proofs.Model.Typing

/-! # Linking and finishing

A model is complete after three passes over what is declared: linking adds the declared
relationships in their order (`appended_of_link`), and the two derivations add to these
(`relationships_of_finish`). None of them touches an element. -/

namespace SystemAtlas.Model

namespace Assembly

variable {a a' : Assembly} {p : Pending} {l : Link} {e : Event} {reference id : Text} {f : Finished}

/-! ## Ends of relationships -/

/-- The link that a declaration makes between two ends. -/
def linkBetween (r : Declaration.Relationship) (source destination : Text) : Link :=
  { source, destination, label := r.label, technology := r.technology
    interaction := r.interaction, ownTags := r.tags, parallel := r.parallel }

/-- An end is the owner of the block around it, or an element declared before the relationship. -/
theorem endpoint_eq_ok_iff : a.endpoint p reference = .ok id ↔
    reference = ownReference ∧ p.owner = some id ∨
      reference ≠ ownReference ∧ a.registry.resolve reference p.scope = .ok id ∧
        (∃ e, a.graph.find? id = some e ∧ e.isGroup = false) ∧
          ∃ n, a.registry.sequenceOf id = .ok n ∧ n ≤ p.sequence := by
  rw [endpoint]
  by_cases href : reference = ownReference
  · rw [if_pos (beq_iff_eq.mpr href)]
    cases howner : p.owner <;> simp [href]
  rw [if_neg (mt beq_iff_eq.mp href), bind_eq_ok_iff]
  simp only [href, false_and, not_false_eq_true, true_and, false_or, ne_eq]
  constructor
  · rintro ⟨x, hx, h⟩
    split at h
    · cases h
    · next e hfind =>
      obtain ⟨n, hn, h⟩ := bind_eq_ok_iff.mp h
      split at h
      · next hle =>
        cases Except.ok.inj h
        obtain ⟨hfind, hgroup⟩ := Option.filter_eq_some_iff.mp hfind
        exact ⟨hx, ⟨e, hfind, by simpa using hgroup⟩, n, hn, hle⟩
      · cases h
  · rintro ⟨hx, ⟨e, hfind, hgroup⟩, n, hn, hle⟩
    refine ⟨id, hx, ?_⟩
    simp only [hfind, Option.filter_some, hgroup, hn]
    exact if_pos hle

/-- Relationships that are linked meanwhile do not matter for an end. -/
theorem endpoint_appended (rs : List Relationship) :
    Assembly.endpoint { a with graph := a.graph.appended rs } p reference =
      a.endpoint p reference := by
  have helements : (a.graph.appended rs).elements = a.graph.elements := rfl
  simp only [endpoint, tooEarly, Graph.find?_of_elements_eq helements,
    Graph.isAncestor_of_elements_eq helements]

theorem resolveLink_eq_ok_iff : a.resolveLink p = .ok l ↔
    ∃ s, a.endpoint p p.declaration.source = .ok s ∧
      ∃ d, a.endpoint p p.declaration.destination = .ok d ∧ l = linkBetween p.declaration s d := by
  simp only [resolveLink, linkBetween, bind_eq_ok_iff, pure_eq_ok_iff]

theorem resolveLink_appended (rs : List Relationship) :
    Assembly.resolveLink { a with graph := a.graph.appended rs } p = a.resolveLink p := by
  simp only [resolveLink, endpoint_appended]

/-- A declared relationship is neither implied nor derived from another one. -/
theorem declared_of_resolveLink (h : a.resolveLink p = .ok l) :
    l.implied = false ∧ l.linkedTo = none := by
  obtain ⟨s, -, d, -, rfl⟩ := resolveLink_eq_ok_iff.mp h
  exact ⟨rfl, rfl⟩

theorem link_eq_ok_iff : a.link p = .ok a' ↔
    ∃ l, a.resolveLink p = .ok l ∧ ∃ g, a.graph.addRelationship l = .ok g ∧
      a' = { a with graph := g } := by
  simp only [link, mapError_eq_ok_iff, bind_eq_ok_iff, pure_eq_ok_iff]

theorem linkAll_result : a.linkAll.result = a.pending.foldlM link a := Progress.result_run ..

/-! ## The whole of a pass -/

theorem Step.relationships_eq (h : Step a e a') :
    a'.graph.relationships = a.graph.relationships := by
  cases h with
  | leave => rfl
  | relate r => rfl
  | element _ _ _ _ hg =>
    obtain ⟨-, -, -, rfl⟩ := Graph.addElement_eq_ok_iff.mp hg
    rfl
  | environment _ _ _ hg =>
    obtain ⟨-, -, rfl⟩ := Graph.addEnvironment_eq_ok_iff.mp hg
    rfl

theorem relationships_of_declared {events : List Event} (h : events.foldlM declare a = .ok a') :
    a'.graph.relationships = a.graph.relationships := by
  refine foldlM_invariant (P := fun b => b.graph.relationships = a.graph.relationships) ?_ rfl h
  intro s e t _ hs hstep
  rw [(declare_eq_ok_iff.mp hstep).relationships_eq, hs]

/-- Linking adds the links of what is put aside, in their order. -/
theorem appended_of_link {pending : List Pending} (h : pending.foldlM link a = .ok a') :
    ∃ rs, a' = { a with graph := a.graph.appended rs } ∧
      List.Forall₂ (fun p r => a.resolveLink p = .ok r.toLink) pending rs := by
  -- the ends are resolved in an assembly to which some relationships are added already
  have hrun : ∀ before, pending.foldlM link { a with graph := a.graph.appended before } = .ok a' →
      ∃ rs, a' = { a with graph := a.graph.appended (before ++ rs) } ∧
        List.Forall₂ (fun p r => a.resolveLink p = .ok r.toLink) pending rs := by
    clear h
    induction pending with
    | nil =>
      intro before h
      cases Except.ok.inj h
      exact ⟨[], by rw [List.append_nil], .nil⟩
    | cons p pending ih =>
      intro before h
      obtain ⟨b, hb, h⟩ := foldlM_cons_eq_ok_iff.mp h
      obtain ⟨l, hl, g, hg, rfl⟩ := link_eq_ok_iff.mp hb
      obtain ⟨-, -, -, -, rfl⟩ := Graph.addRelationship_eq_ok_iff.mp hg
      rw [resolveLink_appended] at hl
      simp only [Graph.appended_appended] at h
      obtain ⟨rs, rfl, hrs⟩ := ih _ h
      exact ⟨_ :: rs, by rw [List.append_assoc, List.singleton_append], .cons hl hrs⟩
  exact hrun [] (by rw [Graph.appended_nil]; exact h)

theorem numbered_of_link {pending : List Pending} (ha : a.graph.Numbered)
    (h : pending.foldlM link a = .ok a') : a'.graph.Numbered := by
  refine foldlM_invariant (P := fun b => b.graph.Numbered) ?_ ha h
  intro b p b' _ hb hstep
  obtain ⟨l, -, g, hg, rfl⟩ := link_eq_ok_iff.mp hstep
  exact hb.addRelationship hg

theorem finish_eq_ok_iff : a.finish = .ok f ↔
    ∃ g, a.graph.withImplied = .ok g ∧ ∃ g', g.withInstanceRelationships = .ok g' ∧
      f = ⟨a.registry, g'.freeze⟩ := by
  simp only [finish, bind_eq_ok_iff, pure_eq_ok_iff]

theorem elements_of_finish (h : a.finish = .ok f) : f.graph.elements = a.graph.elements := by
  obtain ⟨g, hg, g', hg', rfl⟩ := finish_eq_ok_iff.mp h
  exact (Graph.withInstanceRelationships_adds hg').elements_eq.trans
    (Graph.withImplied_adds hg).elements_eq

theorem environments_of_finish (h : a.finish = .ok f) :
    f.graph.environments = a.graph.environments := by
  obtain ⟨g, hg, g', hg', rfl⟩ := finish_eq_ok_iff.mp h
  exact (Graph.withInstanceRelationships_adds hg').environments_eq.trans
    (Graph.withImplied_adds hg).environments_eq

theorem registry_of_finish (h : a.finish = .ok f) : f.registry = a.registry := by
  obtain ⟨g, -, g', -, rfl⟩ := finish_eq_ok_iff.mp h
  rfl

/-- The derived relationships stand behind the declared ones: first what these imply, then the
copies of both. -/
theorem relationships_of_finish (h : a.finish = .ok f) : ∃ implied copies,
    a.graph.withImplied = .ok (a.graph.appended implied) ∧
      (a.graph.appended implied).withInstanceRelationships =
        .ok ((a.graph.appended implied).appended copies) ∧
      f.graph = ((a.graph.appended implied).appended copies).freeze ∧
      (∀ x ∈ implied, ∃ r ∈ a.graph.relationships, a.graph.ImpliedBy r x) ∧
      ∀ x ∈ copies, ∃ r ∈ a.graph.relationships ++ implied, a.graph.CopyOf r x := by
  obtain ⟨g, hg, g', hg', rfl⟩ := finish_eq_ok_iff.mp h
  obtain ⟨implied, rfl, himplied⟩ := (Graph.withImplied_adds hg).grows
  obtain ⟨copies, rfl, hcopies⟩ := (Graph.withInstanceRelationships_adds hg').grows
  refine ⟨implied, copies, hg, hg', rfl, himplied, fun x hx => ?_⟩
  obtain ⟨r, hr, hcopy⟩ := hcopies x hx
  have helements : (a.graph.appended implied).elements = a.graph.elements := rfl
  exact ⟨r, hr, (Graph.copyOf_of_elements_eq helements).mp hcopy⟩

end Assembly

/-- The declared part of a model: everything declared, and the declared relationships linked. -/
def linked (mode : Identifier.Mode) (members : List Declaration.ModelMember) :
    Except Failure Assembly := do
  let declared ← (Assembly.declareAll { registry := { mode } } (script members)).result
  declared.linkAll.result

variable {mode : Identifier.Mode} {members : List Declaration.ModelMember} {a : Assembly}
  {f : Finished}

theorem linked_eq_ok_iff : linked mode members = .ok a ↔
    ∃ b, (script members).foldlM Assembly.declare { registry := { mode } } = .ok b ∧
      b.pending.foldlM Assembly.link b = .ok a := by
  simp only [linked, bind_eq_ok_iff, Assembly.declareAll_result, Assembly.linkAll_result]

/-- A model is its declared part, finished. -/
theorem assemble_eq_ok_iff : assemble mode members = .ok f ↔
    ∃ a, linked mode members = .ok a ∧ a.finish = .ok f := by
  rw [← bind_eq_ok_iff, assemble, linked, bind_assoc]

/-- The ids of the relationships of a model count them. -/
theorem numbered_of_assemble (h : assemble mode members = .ok f) : f.graph.Numbered := by
  obtain ⟨a, ha, hf⟩ := assemble_eq_ok_iff.mp h
  obtain ⟨b, hb, ha⟩ := linked_eq_ok_iff.mp ha
  obtain ⟨g, hg, g', hg', rfl⟩ := Assembly.finish_eq_ok_iff.mp hf
  have hnone : b.graph.relationships = [] := Assembly.relationships_of_declared hb
  have hlinked : a.graph.Numbered := by
    refine Assembly.numbered_of_link ?_ ha
    rw [Graph.Numbered, hnone]
    rfl
  exact (Graph.withInstanceRelationships_adds hg').numbered
    ((Graph.withImplied_adds hg).numbered hlinked)

/-- The declared part of a model is typed, and none of its relationships is implied. -/
theorem linked_spec (h : linked mode members = .ok a) :
    a.graph.WellTyped ∧ ∀ r ∈ a.graph.relationships, r.implied = false := by
  obtain ⟨b, hb, h⟩ := linked_eq_ok_iff.mp h
  have hgraph := (Assembly.Typed.initial mode).run (nested_script members) hb
  have hnone : b.graph.relationships = [] := Assembly.relationships_of_declared hb
  obtain ⟨rs, rfl, hrs⟩ := Assembly.appended_of_link h
  refine ⟨hgraph.of_elements_eq rfl, fun r hr => ?_⟩
  rw [Graph.relationships_appended, hnone, List.nil_append] at hr
  obtain ⟨p, -, hp⟩ := exists_of_forall₂_mem hrs hr
  exact (Assembly.declared_of_resolveLink hp).1

theorem wellTyped_of_assemble (h : assemble mode members = .ok f) : f.graph.WellTyped := by
  obtain ⟨a, ha, hf⟩ := assemble_eq_ok_iff.mp h
  exact (linked_spec ha).1.of_elements_eq (Assembly.elements_of_finish hf)

end SystemAtlas.Model
