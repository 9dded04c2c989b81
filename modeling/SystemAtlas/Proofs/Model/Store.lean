import SystemAtlas.Proofs.Model.Growth

/-! # What additions keep of a graph

Every graph that additions grow from the empty one keeps its store in order (`Grown.store`). Its
elements form a forest and the ids of its relationships count them. Relationships join elements of
the graph, and only a parallel one stands behind another with the same ends and label. -/

namespace SystemAtlas.Model.Graph

variable {g g' : Graph} {l : Link} {s d : Text} {label : Option Text}

/-- A graph that additions and freezing make of the empty one. -/
inductive Grown : Graph → Prop
  | empty : Grown {}
  | element {g g' : Graph} {e : Element} : Grown g → g.addElement e = .ok g' → Grown g'
  | environment {g g' : Graph} {v : Environment} : Grown g → g.addEnvironment v = .ok g' → Grown g'
  | relationship {g g' : Graph} {l : Link} : Grown g → g.addRelationship l = .ok g' → Grown g'
  | freeze {g : Graph} : Grown g → Grown g.freeze

/-- The elements and relationships of a graph are in order. -/
structure Store (g : Graph) : Prop where
  forest : g.Forest
  numbered : g.Numbered
  ends : ∀ r ∈ g.relationships, g.contains r.source = true ∧ g.contains r.destination = true
  parallel : g.relationships.Pairwise fun r q => r.sameKey q.toLink = true → q.parallel = true

theorem connectsAs_iff : g.connectsAs s d label = true ↔
    ∃ r ∈ g.relationships, r.source = s ∧ r.destination = d ∧ r.label = label := by
  simp only [connectsAs, List.any_eq_true, Bool.and_eq_true, beq_iff_eq, and_assoc]

theorem connectsAs_eq_false_iff : g.connectsAs s d label = false ↔
    ∀ r ∈ g.relationships, ¬(r.source = s ∧ r.destination = d ∧ r.label = label) := by
  simp only [connectsAs, List.any_eq_false, Bool.and_eq_true, beq_iff_eq, and_assoc]

theorem contains_mono (h : g.elements ⊆ g'.elements) (hs : g.contains s = true) :
    g'.contains s = true := by
  obtain ⟨e, he, rfl⟩ := contains_iff.mp hs
  exact contains_of_mem (h he)

namespace Store

/-- A store stays in order as long as its elements and relationships do. -/
theorem of_relationships_eq (hg : g.Store) (hf : g'.Forest) (he : g.elements ⊆ g'.elements)
    (hr : g'.relationships = g.relationships) : g'.Store where
  forest := hf
  numbered := by
    rw [Numbered, hr]
    exact hg.numbered
  ends := by
    intro r hmem
    rw [hr] at hmem
    exact ⟨contains_mono he (hg.ends r hmem).1, contains_mono he (hg.ends r hmem).2⟩
  parallel := hr ▸ hg.parallel

theorem addRelationship (hg : g.Store) (h : g.addRelationship l = .ok g') : g'.Store := by
  have hnumbered := hg.numbered.addRelationship h
  obtain ⟨-, hs, hd, hkey, rfl⟩ := addRelationship_eq_ok_iff.mp h
  refine ⟨.of_elements_eq (g := g) rfl hg.forest, hnumbered, ?_, ?_⟩
  · intro r hr
    rcases List.mem_append.mp hr with hr | hr
    · exact hg.ends r hr
    · rw [List.mem_singleton.mp hr]
      exact ⟨hs, hd⟩
  · rw [relationships_appended, List.pairwise_append]
    refine ⟨hg.parallel, List.pairwise_singleton _ _, fun r hr q hq hsame => ?_⟩
    rw [List.mem_singleton.mp hq] at hsame ⊢
    rcases hkey with hkey | hkey
    · exact hkey
    · -- without being parallel, the link would have been refused
      simp only [Link.sameKey, Bool.and_eq_true, beq_iff_eq, and_assoc] at hsame
      exact absurd hsame (connectsAs_eq_false_iff.mp hkey r hr)

end Store

/-- The store of every graph that additions grow is in order. -/
theorem Grown.store (h : g.Grown) : g.Store := by
  induction h with
  | empty =>
    refine ⟨.empty, rfl, ?_, .nil⟩
    intro r hr
    cases hr
  | element _ hadd ih =>
    have hforest := ih.forest.addElement hadd
    obtain ⟨-, -, -, rfl⟩ := addElement_eq_ok_iff.mp hadd
    exact ih.of_relationships_eq hforest (List.subset_append_left _ _) rfl
  | @environment g _ v _ hadd ih =>
    obtain ⟨-, -, rfl⟩ := addEnvironment_eq_ok_iff.mp hadd
    exact ih.of_relationships_eq (.of_elements_eq (g := g) rfl ih.forest) (List.Subset.refl _) rfl
  | relationship _ hadd ih => exact ih.addRelationship hadd
  | @freeze g _ ih =>
    exact ih.of_relationships_eq (.of_elements_eq (g := g) rfl ih.forest) (List.Subset.refl _) rfl

end SystemAtlas.Model.Graph
