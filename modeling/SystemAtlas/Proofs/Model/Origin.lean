import SystemAtlas.Proofs.Model.Declaring
import SystemAtlas.Proofs.Model.Tagging
import SystemAtlas.Proofs.Model.Traffic

/-! # Where relationships come from

The relationships of a complete model stand in three layers (`layered_of_assemble`): the declared
ones, in the order of the document, then what these imply, and then the copies of both between
instances. A derived relationship names the one it was derived from, which belongs to an earlier
layer and so stands before it (`chained_of_assemble`). Each derivation passes on the label, the
technology, the interaction and the tags, so those of any relationship are declared ones. -/

namespace SystemAtlas

/-! ## Relationships of a document -/

namespace Declaration

/-- The relationships in a container. -/
def ContainerMember.relationships : ContainerMember → List Relationship
  | .component _ => []
  | .relationship r => [r]

/-- The relationships in a software system, each where it stands. -/
def SystemMember.relationships : SystemMember → List Relationship
  | .container _ body => body.flatMap ContainerMember.relationships
  | .relationship r => [r]

mutual

/-- The relationships in a deployment node, each where it stands. -/
def NodeMember.relationships : NodeMember → List Relationship
  | .node _ _ body => bodyRelationships body
  | .infrastructure _ | .occurrence _ => []
  | .relationship r => [r]

/-- The relationships in the body of a deployment node, each where it stands. -/
def bodyRelationships : List NodeMember → List Relationship
  | [] => []
  | m :: rest => m.relationships ++ bodyRelationships rest

end

/-- The relationships in a deployment environment, each where it stands. -/
def EnvironmentMember.relationships : EnvironmentMember → List Relationship
  | .group _ => []
  | .node _ _ body => bodyRelationships body
  | .relationship r => [r]

/-- The relationships in a member of a model, each where it stands. -/
def ModelMember.relationships : ModelMember → List Relationship
  | .person _ => []
  | .system _ body => body.flatMap SystemMember.relationships
  | .environment _ body => body.flatMap EnvironmentMember.relationships
  | .relationship r => [r]

end Declaration

namespace Model

open Declaration (ContainerMember SystemMember NodeMember EnvironmentMember ModelMember
  bodyRelationships)

/-- The relationship that an entry puts aside. -/
def Event.relationship? : Event → Option Declaration.Relationship
  | .relate r => some r
  | .enter _ | .leave | .add _ => none

/-- The relationships that a script puts aside. -/
def relationships (events : List Event) : List Declaration.Relationship :=
  events.filterMap Event.relationship?

section
variable {xs ys : List Event}

theorem relationships_append : relationships (xs ++ ys) = relationships xs ++ relationships ys :=
  List.filterMap_append

theorem relationships_around (block : Block) :
    relationships (block.around xs) = relationships xs := by
  rw [Block.around, relationships_append]
  exact List.append_nil _

theorem relationships_flatMap {α : Type} {scriptOf : α → List Event}
    {listed : α → List Declaration.Relationship}
    (h : ∀ m, relationships (scriptOf m) = listed m) (ms : List α) :
    relationships (ms.flatMap scriptOf) = ms.flatMap listed := by
  induction ms with
  | nil => rfl
  | cons m ms ih => rw [List.flatMap_cons, List.flatMap_cons, relationships_append, h, ih]

theorem relationships_container (m : ContainerMember) :
    relationships [containerEvent m] = m.relationships := by
  cases m <;> rfl

theorem relationships_system (m : SystemMember) :
    relationships (systemScript m) = m.relationships := by
  cases m with
  | container d body =>
    rw [systemScript, relationships_around, List.map_eq_flatMap]
    exact relationships_flatMap relationships_container body
  | relationship r => rfl

mutual

theorem relationships_node : ∀ m : NodeMember, relationships (nodeScript m) = m.relationships
  | .node _ _ body => by
    rw [nodeScript, relationships_around, NodeMember.relationships, relationships_body body]
  | .infrastructure _ | .occurrence _ | .relationship _ => by
    rw [nodeScript, NodeMember.relationships]
    rfl

theorem relationships_body :
    ∀ body : List NodeMember, relationships (bodyScript body) = bodyRelationships body
  | [] => by
    rw [bodyScript, bodyRelationships]
    rfl
  | m :: rest => by
    rw [bodyScript, bodyRelationships, relationships_append, relationships_node m,
      relationships_body rest]

end

theorem relationships_environment (m : EnvironmentMember) :
    relationships (environmentScript m) = m.relationships := by
  cases m with
  | node d n body =>
    rw [environmentScript, relationships_around]
    exact relationships_body body
  | group | relationship => rfl

theorem relationships_member (m : ModelMember) :
    relationships (memberScript m) = m.relationships := by
  cases m with
  | system d body =>
    rw [memberScript, relationships_around]
    exact relationships_flatMap relationships_system body
  | environment n body =>
    rw [memberScript, relationships_around]
    exact relationships_flatMap relationships_environment body
  | person | relationship => rfl

theorem relationships_script (members : List ModelMember) :
    relationships (script members) = members.flatMap ModelMember.relationships :=
  relationships_flatMap relationships_member members

end

namespace Assembly

variable {a a' : Assembly} {e : Event}

theorem Step.pending_eq (h : Step a e a') :
    a'.pending.map (·.declaration) = a.pending.map (·.declaration) ++ relationships [e] := by
  cases h with
  | relate r => exact List.map_append
  | leave | environment => exact (List.append_nil _).symm
  | element hm =>
    have hnone : e.relationship? = none := by cases hm <;> rfl
    rw [relationships, List.filterMap_cons_none hnone]
    exact (List.append_nil _).symm

/-- A script puts its relationships aside in their order. -/
theorem pending_of_declared {events : List Event} (h : events.foldlM declare a = .ok a') :
    a'.pending.map (·.declaration) = a.pending.map (·.declaration) ++ relationships events := by
  induction events generalizing a with
  | nil => exact Except.ok.inj h ▸ (List.append_nil _).symm
  | cons e events ih =>
    obtain ⟨b, hb, h⟩ := foldlM_cons_eq_ok_iff.mp h
    rw [ih h, (declare_eq_ok_iff.mp hb).pending_eq, List.append_assoc, ← relationships_append]
    rfl

end Assembly

/-! ## Layers -/

/-- A link says the same of its ends as another one of its own. -/
structure Link.Repeats (l m : Link) : Prop where
  label : l.label = m.label
  technology : l.technology = m.technology
  interaction : l.interaction = m.interaction
  tags : l.tags = m.tags

namespace Link.Repeats

variable {l m k : Link}

theorem refl (l : Link) : l.Repeats l := ⟨rfl, rfl, rfl, rfl⟩

theorem trans (h : l.Repeats m) (h' : m.Repeats k) : l.Repeats k :=
  ⟨h.label.trans h'.label, h.technology.trans h'.technology, h.interaction.trans h'.interaction,
    h.tags.trans h'.tags⟩

end Link.Repeats

namespace Graph

variable {g : Graph} {r q x : Relationship} {declared implied copies : List Relationship}

/-- The relationship that another one was derived from. -/
def origin? (g : Graph) (r : Relationship) : Option Relationship :=
  r.linkedTo.bind fun id => (g.getRelationship id).toOption

/-- The relationship that at most `n` derivations made another one of. -/
def trace (g : Graph) : Nat → Relationship → Relationship
  | 0, r => r
  | n + 1, r => (g.origin? r).elim r (g.trace n)

/-- The relationships of a graph are in layers, and their ids count them. Those in the first layer
are declared and derived from none. Those in the second are implied by declared ones, between
elements at or above the ends of these. Those in the third are copies of the others, between
instances of their ends. -/
structure Layered (g : Graph) (declared implied copies : List Relationship) : Prop where
  order : g.relationships = declared ++ implied ++ copies
  numbered : g.Numbered
  unlinked : ∀ r ∈ g.relationships, r.linkedTo = none ↔ r ∈ declared
  lifted : ∀ r ∈ implied, r.implied = true ∧ ∃ q ∈ declared, g.origin? r = some q ∧
    r.source ∈ g.lineage q.source ∧ r.destination ∈ g.lineage q.destination
  copied : ∀ r ∈ copies, ∃ q ∈ declared ++ implied, g.origin? r = some q ∧
    ∃ s ∈ g.elements, ∃ d ∈ g.elements, s.id = r.source ∧ d.id = r.destination ∧
      s.definition? = some q.source ∧ d.definition? = some q.destination
  traced : ∀ r ∈ g.relationships,
    g.trace 2 r ∈ declared ∧ r.Repeats (g.trace 2 r).toLink

/-- The relationship that another one was derived from stands before it. -/
def Chained (g : Graph) : Prop :=
  ∀ before r after, g.relationships = before ++ r :: after →
    ∀ id, r.linkedTo = some id → id ∈ before.map (·.id)

theorem origin?_eq_some_iff (hg : g.Numbered) :
    g.origin? r = some q ↔ q ∈ g.relationships ∧ r.linkedTo = some q.id := by
  have hget : ∀ id, (g.getRelationship id).toOption = some q ↔
      q ∈ g.relationships ∧ q.id = id := by
    intro id
    rw [← hg.getRelationship_eq_ok_iff]
    cases g.getRelationship id <;> simp [Except.toOption]
  simp only [origin?, Option.bind_eq_some_iff, hget]
  constructor
  · rintro ⟨id, hid, hq, rfl⟩
    exact ⟨hq, hid⟩
  · rintro ⟨hq, hid⟩
    exact ⟨q.id, hid, hq, rfl⟩

theorem trace_of_unlinked (h : r.linkedTo = none) (n : Nat) : g.trace n r = r := by
  cases n with
  | zero => rfl
  | succ n =>
    rw [trace, origin?, h]
    rfl

theorem trace_of_origin (h : g.origin? r = some q) (n : Nat) : g.trace (n + 1) r = g.trace n q := by
  rw [trace, h]
  rfl

theorem repeats_derive (r : Relationship) (s d : Text) (implied parallel : Bool) :
    ({ r.derive s d with implied, parallel } : Link).Repeats r.toLink :=
  ⟨rfl, rfl, rfl, Link.tags_eq_of_tags rfl rfl⟩

theorem ImpliedBy.repeats (h : g.ImpliedBy q x) : x.Repeats q.toLink := by
  rw [h.link]
  exact repeats_derive q _ _ true false

theorem ImpliedBy.linkedTo_eq (h : g.ImpliedBy q x) : x.linkedTo = some q.id :=
  congrArg Link.linkedTo h.link

theorem CopyOf.repeats (h : g.CopyOf q x) : x.Repeats q.toLink := by
  rw [h.link]
  exact repeats_derive q _ _ q.implied q.parallel

theorem CopyOf.linkedTo_eq (h : g.CopyOf q x) : x.linkedTo = some q.id :=
  congrArg Link.linkedTo h.link

/-- A graph is in layers if what is in the later ones was made from the earlier ones. -/
theorem Layered.of_derived (hr : g.relationships = declared ++ implied ++ copies)
    (hg : g.Numbered) (hnone : ∀ r ∈ declared, r.linkedTo = none)
    (himplied : ∀ x ∈ implied, ∃ q ∈ declared, g.ImpliedBy q x)
    (hcopies : ∀ x ∈ copies, ∃ q ∈ declared ++ implied, g.CopyOf q x) :
    g.Layered declared implied copies := by
  have hsub : declared ++ implied ⊆ g.relationships := hr ▸ List.subset_append_left _ _
  have hlifted : ∀ x ∈ implied, ∃ q ∈ declared, g.origin? x = some q ∧ g.ImpliedBy q x := by
    intro x hx
    obtain ⟨q, hq, hxq⟩ := himplied x hx
    have hmem := hsub (List.mem_append_left _ hq)
    exact ⟨q, hq, (origin?_eq_some_iff hg).mpr ⟨hmem, hxq.linkedTo_eq⟩, hxq⟩
  have hcopied : ∀ x ∈ copies, ∃ q ∈ declared ++ implied, g.origin? x = some q ∧ g.CopyOf q x := by
    intro x hx
    obtain ⟨q, hq, hxq⟩ := hcopies x hx
    exact ⟨q, hq, (origin?_eq_some_iff hg).mpr ⟨hsub hq, hxq.linkedTo_eq⟩, hxq⟩
  -- one derivation at most made what the first two layers hold
  have htraced : ∀ n, ∀ r ∈ declared ++ implied,
      g.trace (n + 1) r ∈ declared ∧ r.Repeats (g.trace (n + 1) r).toLink := by
    intro n r hr
    rcases List.mem_append.mp hr with hr | hr
    · rw [trace_of_unlinked (hnone r hr)]
      exact ⟨hr, .refl _⟩
    · obtain ⟨q, hq, horigin, hrq⟩ := hlifted r hr
      rw [trace_of_origin horigin, trace_of_unlinked (hnone q hq)]
      exact ⟨hq, hrq.repeats⟩
  refine ⟨hr, hg, fun r hmem => ⟨fun hlinked => ?_, hnone r⟩, fun x hx => ?_, fun x hx => ?_,
    fun r hmem => ?_⟩
  · rw [hr, List.mem_append, List.mem_append] at hmem
    rcases hmem with (hmem | hmem) | hmem
    · exact hmem
    · obtain ⟨q, -, hq⟩ := himplied r hmem
      cases hlinked.symm.trans hq.linkedTo_eq
    · obtain ⟨q, -, hq⟩ := hcopies r hmem
      cases hlinked.symm.trans hq.linkedTo_eq
  · obtain ⟨q, hq, horigin, hxq⟩ := hlifted x hx
    exact ⟨hxq.implied, q, hq, horigin, hxq.mem_lineage⟩
  · obtain ⟨q, hq, horigin, hxq⟩ := hcopied x hx
    exact ⟨q, hq, horigin, hxq.exists_instances⟩
  · rcases List.mem_append.mp (hr ▸ hmem) with hmem | hmem
    · exact htraced 1 r hmem
    · obtain ⟨q, hq, horigin, hrq⟩ := hcopied r hmem
      obtain ⟨htrace, hrepeats⟩ := htraced 0 q hq
      rw [trace_of_origin horigin]
      exact ⟨htrace, hrq.repeats.trans hrepeats⟩

/-- What stands behind a layer has the whole layer before it. -/
theorem subset_of_notMem {xs ys before after : List Relationship}
    (h : xs ++ ys = before ++ r :: after) (hr : r ∉ xs) : xs ⊆ before := by
  obtain ⟨m, rfl, -⟩ | ⟨m, rfl, hm⟩ := List.append_eq_append_iff.mp h
  · exact List.subset_append_left _ _
  · rcases List.cons_eq_append_iff.mp hm with ⟨rfl, -⟩ | ⟨m', rfl, -⟩
    · rw [List.append_nil]
      exact List.Subset.refl _
    · exact absurd (List.mem_append_right _ List.mem_cons_self) hr

theorem Layered.chained (hg : g.Layered declared implied copies) : g.Chained := by
  intro before r after hsplit id hid
  have hmem : r ∈ declared ++ implied ++ copies := by
    rw [← hg.order, hsplit]
    exact List.mem_append_right _ List.mem_cons_self
  have hnew : r ∉ declared := fun hr => by
    have hr' := (hg.unlinked r (hg.order ▸ hmem)).mpr hr
    cases hid.symm.trans hr'
  -- an origin in an earlier layer stands before the relationship
  have hbefore : ∀ {xs ys q}, declared ++ implied ++ copies = xs ++ ys → r ∉ xs → q ∈ xs →
      g.origin? r = some q → id ∈ before.map (·.id) := by
    intro xs ys q hxs hr hq horigin
    rw [Option.some.inj (hid.symm.trans ((origin?_eq_some_iff hg.numbered).mp horigin).2)]
    have hsplit' : xs ++ ys = before ++ r :: after := by rw [← hxs, ← hg.order, hsplit]
    exact List.mem_map_of_mem (subset_of_notMem hsplit' hr hq)
  rcases List.mem_append.mp hmem with hmem' | hmem'
  · obtain ⟨-, q, hq, horigin, -⟩ := hg.lifted r ((List.mem_append.mp hmem').resolve_left hnew)
    exact hbefore (List.append_assoc _ _ _) hnew hq horigin
  · obtain ⟨q, hq, horigin, -⟩ := hg.copied r hmem'
    refine hbefore rfl (fun hr => ?_) hq horigin
    have hnodup : (declared ++ implied ++ copies).Nodup :=
      hg.order ▸ hg.numbered.nodup.of_map _
    exact (List.nodup_append.mp hnodup).2.2 r hr r hmem' rfl

end Graph

/-! ## The layers of a model -/

/-- What finishing adds to declared relationships are the other two layers. -/
theorem Assembly.layered_of_finish {a : Assembly} {f : Finished}
    (ha : ∀ r ∈ a.graph.relationships, r.linkedTo = none) (hn : f.graph.Numbered)
    (h : a.finish = .ok f) : ∃ implied copies,
      a.graph.withImplied = .ok (a.graph.appended implied) ∧
        (a.graph.appended implied).withInstanceRelationships =
          .ok ((a.graph.appended implied).appended copies) ∧
        f.graph = ((a.graph.appended implied).appended copies).freeze ∧
        f.graph.Layered a.graph.relationships implied copies := by
  obtain ⟨implied, copies, himply, hcopy, hgraph, himplied, hcopies⟩ := relationships_of_finish h
  have helements := elements_of_finish h
  refine ⟨implied, copies, himply, hcopy, hgraph, .of_derived ?_ hn ha ?_ ?_⟩
  · rw [hgraph]
    rfl
  · simpa only [Graph.impliedBy_of_elements_eq helements] using himplied
  · simpa only [Graph.copyOf_of_elements_eq helements] using hcopies

variable {mode : Identifier.Mode} {members : List Declaration.ModelMember} {a : Assembly}
  {f : Finished}

/-- The declared relationships are those of the document in their order, each with its ends
resolved. -/
theorem relationships_of_linked (h : linked mode members = .ok a) :
    ∃ b declared, (Assembly.declareAll { registry := { mode } } (script members)).result = .ok b ∧
      b.pending.map (·.declaration) = members.flatMap (·.relationships) ∧
      a.graph = b.graph.appended declared ∧ a.graph.relationships = declared ∧
      List.Forall₂ (fun p r => b.resolveLink p = .ok r.toLink) b.pending declared := by
  obtain ⟨b, hb, hlink⟩ := linked_eq_ok_iff.mp h
  obtain ⟨declared, rfl, hlinks⟩ := Assembly.appended_of_link hlink
  have hnone : b.graph.relationships = [] := Assembly.relationships_of_declared hb
  have hpending : b.pending.map (·.declaration) = relationships (script members) :=
    Assembly.pending_of_declared hb
  refine ⟨b, declared, by rw [Assembly.declareAll_result, hb],
    by rw [hpending, relationships_script], rfl, ?_, hlinks⟩
  rw [Graph.relationships_appended, hnone, List.nil_append]

theorem linkedTo_of_linked (h : linked mode members = .ok a) :
    ∀ r ∈ a.graph.relationships, r.linkedTo = none := by
  obtain ⟨b, declared, -, -, -, hdeclared, hlinks⟩ := relationships_of_linked h
  intro r hr
  obtain ⟨p, -, hp⟩ := exists_of_forall₂_mem hlinks (hdeclared ▸ hr)
  exact (Assembly.declared_of_resolveLink hp).2

/-- In a complete model, the relationship that another one was derived from stands before it. -/
theorem chained_of_assemble (h : assemble mode members = .ok f) : f.graph.Chained := by
  obtain ⟨a, ha, hf⟩ := assemble_eq_ok_iff.mp h
  obtain ⟨implied, copies, -, -, -, hlayered⟩ :=
    Assembly.layered_of_finish (linkedTo_of_linked ha) (numbered_of_assemble h) hf
  exact hlayered.chained

/-- The relationships of a complete model stand in layers. In the first are those of the document in
their order, each with its ends resolved. What implying adds to them makes the second, and what
copying adds to both the third. -/
theorem layered_of_assemble (h : assemble mode members = .ok f) :
    ∃ b, (Assembly.declareAll { registry := { mode } } (script members)).result = .ok b ∧
      b.pending.map (·.declaration) = members.flatMap (·.relationships) ∧
      ∃ declared implied copies,
        List.Forall₂ (fun p r => b.resolveLink p = .ok r.toLink) b.pending declared ∧
        (b.graph.appended declared).withImplied = .ok (b.graph.appended (declared ++ implied)) ∧
        (b.graph.appended (declared ++ implied)).withInstanceRelationships =
          .ok (b.graph.appended (declared ++ implied ++ copies)) ∧
        f.graph = (b.graph.appended (declared ++ implied ++ copies)).freeze ∧
        f.graph.Layered declared implied copies := by
  obtain ⟨a, ha, hf⟩ := assemble_eq_ok_iff.mp h
  obtain ⟨implied, copies, himplied, hcopied, hgraph, hlayered⟩ :=
    Assembly.layered_of_finish (linkedTo_of_linked ha) (numbered_of_assemble h) hf
  obtain ⟨b, declared, hb, hpending, hlinked, hdeclared, hlinks⟩ := relationships_of_linked ha
  rw [hdeclared] at hlayered
  simp only [hlinked, Graph.appended_appended] at himplied hcopied hgraph
  exact ⟨b, hb, hpending, declared, implied, copies, hlinks, himplied, hcopied, hgraph, hlayered⟩

theorem shop_layered : assemble .flat shop = .ok shopModel ∧
    shop.flatMap (·.relationships) =
      [{ source := "page", destination := "books.ledger" },
        { source := "customer", destination := "shop.web.page" }] ∧
    ∃ declared implied copies, shopModel.graph.Layered declared implied copies ∧
      declared.length = 2 := by
  have h : assemble .flat shop = .ok shopModel := by rfl
  have hshop : shop.flatMap (·.relationships) =
      [{ source := "page", destination := "books.ledger" },
        { source := "customer", destination := "shop.web.page" }] := by rfl
  obtain ⟨b, -, hb, declared, implied, copies, hlinks, -, -, -, hlayered⟩ := layered_of_assemble h
  refine ⟨h, hshop, declared, implied, copies, hlayered, ?_⟩
  rw [← hlinks.length_eq, ← List.length_map (·.declaration), hb, hshop]
  rfl

end Model

end SystemAtlas
