import SystemAtlas.Proofs.Model.Linking

/-! # Traffic

Which elements a finished model connects. Copying touches nothing static, so two static elements are
connected by what is declared between their subtrees (`connects_static_of_finish`). Implying touches
no instance, so two instances are connected by a declared relationship or by a copy, and what is
copied between them is what is declared between the subtrees of their definitions
(`connects_instances_iff`). -/

namespace SystemAtlas.Model

/-- Two instances have a deployment group in common, or one of them is in none. -/
def ShareGroup (s d : Element) : Prop :=
  s.groups = [] ∨ d.groups = [] ∨ ∃ x ∈ s.groups, x ∈ d.groups

theorem reaches_iff {s d : Element} :
    Graph.reaches s d = true ↔ s.environment? = d.environment? ∧ ShareGroup s d := by
  simp only [Graph.reaches, Element.sharesGroupWith, ShareGroup, Bool.and_eq_true, Bool.or_eq_true,
    List.isEmpty_iff, List.any_eq_true, List.contains_iff_mem, beq_iff_eq, or_assoc]

variable {a : Assembly} {f : Finished} {s d : Element} {p q : Text}

/-! ## Static structure -/

/-- A declared relationship between static elements leads from one subtree to another. -/
def Declares (g : Graph) (p q : Text) : Prop :=
  ∃ r ∈ g.relationships, r.implied = false ∧ g.isStatic r.source = true ∧
    g.isStatic r.destination = true ∧ g.Within p r.source ∧ g.Within q r.destination

theorem declares_of_finish (hg : a.graph.Forest) (h : a.finish = .ok f) :
    Declares f.graph p q ↔ Declares a.graph p q := by
  have helements := Assembly.elements_of_finish h
  obtain ⟨implied, copies, -, -, hgraph, himplied, hcopies⟩ := Assembly.relationships_of_finish h
  have hrs : f.graph.relationships = a.graph.relationships ++ implied ++ copies := by
    rw [hgraph]
    rfl
  simp only [Declares, Graph.isStatic_of_elements_eq helements,
    Graph.within_of_elements_eq helements, hrs]
  constructor
  · rintro ⟨r, hr, hi, hs, hrest⟩
    rcases List.mem_append.mp hr with hr | hr
    · rcases List.mem_append.mp hr with hr | hr
      · exact ⟨r, hr, hi, hs, hrest⟩
      · obtain ⟨q, -, hq⟩ := himplied r hr
        cases hq.implied.symm.trans hi
    · obtain ⟨q, -, hq⟩ := hcopies r hr
      obtain ⟨e, he, -, -, hid, -, hdef, -⟩ := hq.exists_instances
      rw [← hid, Graph.isStatic_eq_false_of_definition hg he (by rw [hdef]; rfl)] at hs
      cases hs
  · rintro ⟨r, hr, hrest⟩
    exact ⟨r, List.mem_append_left _ (List.mem_append_left _ hr), hrest⟩

/-- Two static elements, of which none lies above the other, are connected exactly if a relationship
between static elements is declared between their subtrees. -/
theorem connects_static_of_finish (ha : a.graph.WellTyped)
    (hdeclared : ∀ r ∈ a.graph.relationships, r.implied = false) (h : a.finish = .ok f)
    (hp : f.graph.isStatic p = true) (hq : f.graph.isStatic q = true)
    (hm : f.graph.mayImply p q = true) :
    f.graph.connects p q = true ↔ Declares f.graph p q := by
  rw [declares_of_finish ha.forest h]
  have hfinished := Assembly.elements_of_finish h
  rw [Graph.isStatic_of_elements_eq hfinished] at hp hq
  rw [Graph.mayImply_of_elements_eq hfinished] at hm
  obtain ⟨g, hg, g', hg', rfl⟩ := Assembly.finish_eq_ok_iff.mp h
  have helements := (Graph.withImplied_adds hg).elements_eq
  show g'.connects p q = true ↔ _
  rw [(Graph.withInstanceRelationships_adds hg').connects,
    Graph.connects_withImplied_iff ha.forest hg hm]
  constructor
  · rintro ((hc | ⟨r, hr, hi, hwithin⟩) | ⟨r, -, -, -, hmem⟩)
    · obtain ⟨r, hr, rfl, rfl⟩ := Graph.connects_iff.mp hc
      exact ⟨r, hr, hdeclared r hr, hp, hq, .root, .root⟩
    · simp only [Graph.isImplying, Bool.and_eq_true, Bool.not_eq_true'] at hi
      exact ⟨r, hr, hi.1.1, hi.1.2, hi.2, hwithin⟩
    · -- a copy leads from an instance
      obtain ⟨e, he, -, -, -, rfl, -⟩ := Graph.mem_instancePairs_iff.mp hmem
      obtain ⟨he, hdef⟩ := Graph.mem_instancesOf_iff.mp he
      have hnot := Graph.isStatic_eq_false_of_definition ha.forest (helements ▸ he)
        (by rw [hdef]; rfl)
      cases hnot.symm.trans hp
  · rintro ⟨r, hr, hi, hs, hd, hwithin⟩
    exact .inl (.inr ⟨r, hr, by simp only [Graph.isImplying, hi, hs, hd]; rfl, hwithin⟩)

/-! ## Instances -/

/-- Copies lead between two instances that traffic can reach whose definitions are connected. -/
theorem Graph.mem_instancePairs_of_mem {g : Graph} {r : Relationship} (hg : g.Forest)
    (hs : s ∈ g.elements) (hd : d ∈ g.elements) (hp : s.definition? = some p)
    (hq : d.definition? = some q) : (s.id, d.id) ∈ g.instancePairs r ↔
      r.source = p ∧ r.destination = q ∧ reaches s d = true := by
  simp only [mem_instancePairs_iff, mem_instancesOf_iff]
  constructor
  · rintro ⟨s', ⟨hs', hp'⟩, d', ⟨hd', hq'⟩, hr, hsid, hdid⟩
    cases hg.eq_of_id hs' hs hsid
    cases hg.eq_of_id hd' hd hdid
    exact ⟨Option.some.inj (hp'.symm.trans hp), Option.some.inj (hq'.symm.trans hq), hr⟩
  · rintro ⟨rfl, rfl, hr⟩
    exact ⟨s, ⟨hs, hp⟩, d, ⟨hd, hq⟩, hr, rfl, rfl⟩

theorem Graph.WellTyped.not_implied {g : Graph} {r : Relationship} {id : Text} (hg : g.WellTyped)
    (hs : s ∈ g.elements) (hp : s.definition? = some p) (hr : g.isImplying r = true) :
    (s.id, id) ∉ g.impliedPairs r := by
  intro hmem
  obtain ⟨hwithin, -⟩ := (mem_impliedPairs_iff hg.forest).mp hmem
  have hstatic := hg.isStatic_of_within hwithin
  rw [isStatic_eq_false_of_definition hg.forest hs (by rw [hp]; rfl)] at hstatic
  simp only [isImplying, Bool.and_eq_true] at hr
  rw [hr.1.2] at hstatic
  cases hstatic

/-- Two instances of different definitions, of which none lies above the other, are connected by a
declared relationship, or if traffic reaches from one to the other and is declared between the
subtrees of their definitions. -/
theorem connects_of_finish (ha : a.graph.WellTyped)
    (hdeclared : ∀ r ∈ a.graph.relationships, r.implied = false) (h : a.finish = .ok f)
    (hs : s ∈ a.graph.elements) (hd : d ∈ a.graph.elements) (hp : s.definition? = some p)
    (hq : d.definition? = some q) (hm : a.graph.mayImply p q = true) :
    f.graph.connects s.id d.id = true ↔ a.graph.connects s.id d.id = true ∨
      Graph.reaches s d = true ∧ ∃ r ∈ a.graph.relationships,
        a.graph.Within p r.source ∧ a.graph.Within q r.destination := by
  obtain ⟨g, hg, g', hg', rfl⟩ := Assembly.finish_eq_ok_iff.mp h
  have himplied := Graph.withImplied_adds hg
  have helements := himplied.elements_eq
  have hforest := ha.forest.of_elements_eq helements
  have hstaticp : g.isStatic p = true :=
    (Graph.isStatic_of_elements_eq helements p).trans (ha.isStatic_definition hs hp)
  have hstaticq : g.isStatic q = true :=
    (Graph.isStatic_of_elements_eq helements q).trans (ha.isStatic_definition hd hq)
  -- copies are made of what connects the two definitions
  have hcopied : (∃ r ∈ g.relationships, g.isStatic r.source = true ∧
      g.isStatic r.destination = true ∧ (s.id, d.id) ∈ g.instancePairs r) ↔
      Graph.reaches s d = true ∧ g.connects p q = true := by
    simp only [Graph.mem_instancePairs_of_mem hforest (helements ▸ hs) (helements ▸ hd) hp hq,
      Graph.connects_iff]
    constructor
    · rintro ⟨r, hr, -, -, hrp, hrq, hreach⟩
      exact ⟨hreach, r, hr, hrp, hrq⟩
    · rintro ⟨hreach, r, hr, rfl, rfl⟩
      exact ⟨r, hr, hstaticp, hstaticq, rfl, rfl, hreach⟩
  -- what connects these is declared between their subtrees, or implied by what is
  have hlifted : g.connects p q = true ↔ ∃ r ∈ a.graph.relationships,
      a.graph.Within p r.source ∧ a.graph.Within q r.destination := by
    rw [Graph.connects_withImplied_iff ha.forest hg hm]
    constructor
    · rintro (hc | ⟨r, hr, -, hwithin⟩)
      · obtain ⟨r, hr, rfl, rfl⟩ := Graph.connects_iff.mp hc
        exact ⟨r, hr, .root, .root⟩
      · exact ⟨r, hr, hwithin⟩
    · rintro ⟨r, hr, hsource, hdestination⟩
      refine .inr ⟨r, hr, ?_, hsource, hdestination⟩
      rw [Graph.isImplying, hdeclared r hr, ← ha.isStatic_of_within hsource,
        ← ha.isStatic_of_within hdestination, ha.isStatic_definition hs hp,
        ha.isStatic_definition hd hq]
      rfl
  show g'.connects s.id d.id = true ↔ _
  rw [(Graph.withInstanceRelationships_adds hg').connects, hcopied, hlifted, himplied.connects]
  refine or_congr_left ⟨fun hc => hc.resolve_right ?_, .inl⟩
  rintro ⟨r, -, hr, hmem⟩
  exact ha.not_implied hs hp hr hmem

/-- The traffic between instances is that between the subtrees of their definitions. Of a finished
model, two instances of different definitions, of which none lies above the other, are connected
exactly if a relationship between them is declared, or else if they are in one environment, share a
deployment group or have one without any, and some declared relationship leads from the subtree of
the one definition to that of the other. -/
theorem connects_instances_iff {mode : Identifier.Mode} {members : List Declaration.ModelMember}
    (h : assemble mode members = .ok f) : ∃ a, linked mode members = .ok a ∧ a.finish = .ok f ∧
      ∀ s ∈ f.graph.elements, ∀ d ∈ f.graph.elements, ∀ p q, s.definition? = some p →
        d.definition? = some q → p ≠ q → f.graph.isAncestor p q = false →
        f.graph.isAncestor q p = false →
        (f.graph.connects s.id d.id = true ↔ a.graph.connects s.id d.id = true ∨
          (s.environment? = d.environment? ∧ ShareGroup s d) ∧
            ∃ r ∈ a.graph.relationships,
              f.graph.Within p r.source ∧ f.graph.Within q r.destination) := by
  obtain ⟨a, ha, hf⟩ := assemble_eq_ok_iff.mp h
  obtain ⟨htyped, hdeclared⟩ := linked_spec ha
  have helements := Assembly.elements_of_finish hf
  refine ⟨a, ha, hf, fun s hs d hd p q hp hq hne hpq hqp => ?_⟩
  rw [Graph.isAncestor_of_elements_eq helements] at hpq hqp
  have hm : a.graph.mayImply p q = true := by
    simp only [Graph.mayImply, hpq, hqp, bne_iff_ne.mpr hne, Bool.not_false, Bool.and_self]
  rw [helements] at hs hd
  simp only [Graph.within_of_elements_eq helements, ← reaches_iff]
  exact connects_of_finish htyped hdeclared hf hs hd hp hq hm

/-- A customer, a page that reads a ledger of another container, and an instance of each container
on one host. -/
def shop : List Declaration.ModelMember :=
  let details (id : Text) : Declaration.Details :=
    { identifier := Identifier.LocalName.ofText? id, name := id }
  let container (id element : Text) : Declaration.NodeMember :=
    .occurrence { kind := .container, identifier := Identifier.LocalName.ofText? id, element }
  [.person (details "customer"),
    .system (details "shop") [.container (details "books") [.component (details "ledger")],
      .container (details "web")
        [.component (details "page"),
          .relationship { source := "page", destination := "books.ledger" }]],
    .relationship { source := "customer", destination := "shop.web.page" },
    .environment { identifier := Identifier.LocalName.ofText? "live", name := "Live" }
      [.node (details "host") 1 [container "web1" "web", container "books1" "books"]]]

/-- The shop, complete. -/
def shopModel : Finished := (assemble .flat shop).toOption.getD default

/-- The element of the shop with the given id. -/
def shopElement (id : Text) : Element := (shopModel.graph.find? id).getD default

theorem shop_connects_instances : assemble .flat shop = .ok shopModel ∧
    ∃ a, linked .flat shop = .ok a ∧
      (shopModel.graph.connects "web1" "books1" = true ↔
        a.graph.connects "web1" "books1" = true ∨
          ((shopElement "web1").environment? = (shopElement "books1").environment? ∧
            ShareGroup (shopElement "web1") (shopElement "books1")) ∧
            ∃ r ∈ a.graph.relationships, shopModel.graph.Within "web" r.source ∧
              shopModel.graph.Within "books" r.destination) := by
  have h : assemble .flat shop = .ok shopModel := by rfl
  obtain ⟨a, ha, -, hconnects⟩ := connects_instances_iff h
  refine ⟨h, a, ha, hconnects (shopElement "web1") ?_ (shopElement "books1") ?_ "web" "books" ?_ ?_
    ?_ ?_ ?_⟩ <;> decide +kernel

end SystemAtlas.Model
