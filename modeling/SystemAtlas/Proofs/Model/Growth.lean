import SystemAtlas.Proofs.Model.Forest
import SystemAtlas.Proofs.Outcome
import SystemAtlas.Proofs.Text.Dotted

/-! # Growth of a graph

When an addition to a graph succeeds, and what it makes of the graph. An added element keeps the
forest (`Forest.addElement`). Added relationships leave everything alone that depends on the
elements only, and connect just their ends (`connects_appended`). Their ids count them
(`Numbered.addRelationship`). -/

namespace SystemAtlas.Model

/-- A link as the `n`-th relationship of a graph. -/
def Link.numbered (l : Link) (n : Nat) : Relationship := { l with id := Graph.relationshipId n }

namespace Graph

variable {g g' : Graph} {e : Element} {l : Link} {id : Text}

/-- The graph with relationships added behind those it has. -/
def appended (g : Graph) (rs : List Relationship) : Graph :=
  { g with relationships := g.relationships ++ rs }

/-! ## Additions that succeed -/

theorem addElement_eq_ok_iff : g.addElement e = .ok g' ↔
    g.frozen = false ∧ g.contains e.id = false ∧ (∀ p, e.parent = some p → g.contains p = true) ∧
      g' = { g with elements := g.elements ++ [e] } := by
  rw [addElement]
  by_cases hf : g.frozen = true
  · simp [hf]
  by_cases hc : g.contains e.id = true
  · simp [hf, hc]
  rw [if_neg hf, if_neg hc]
  cases hp : e.parent with
  | none => simp [hf, hc, @eq_comm _ g']
  | some p =>
    rw [Option.filter_some]
    cases hpc : g.contains p <;> simp [hf, hc, hpc, @eq_comm _ g']

theorem addEnvironment_eq_ok_iff {v : Environment} : g.addEnvironment v = .ok g' ↔
    g.frozen = false ∧ v.id ∉ g.environments.map (·.id) ∧
      g' = { g with environments := g.environments ++ [v] } := by
  have htaken : g.environments.any (·.id == v.id) = true ↔ v.id ∈ g.environments.map (·.id) := by
    simp only [List.any_eq_true, beq_iff_eq, List.mem_map]
  rw [addEnvironment]
  by_cases hf : g.frozen = true
  · simp [hf]
  by_cases hc : v.id ∈ g.environments.map (·.id)
  · rw [if_neg hf, if_pos (htaken.mpr hc)]
    constructor
    · intro h
      cases h
    · intro h
      exact absurd hc h.2.1
  · rw [if_neg hf, if_neg (hc ∘ htaken.mp), Except.ok.injEq, eq_comm]
    exact ⟨fun h => ⟨eq_false_of_ne_true hf, hc, h⟩, fun h => h.2.2⟩

theorem addRelationship_eq_ok_iff : g.addRelationship l = .ok g' ↔
    g.frozen = false ∧ g.contains l.source = true ∧ g.contains l.destination = true ∧
      (l.parallel = true ∨ g.connectsAs l.source l.destination l.label = false) ∧
      g' = g.appended [l.numbered (g.relationships.length + 1)] := by
  simp only [addRelationship, appended, Link.numbered]
  by_cases hf : g.frozen = true
  · simp [hf]
  by_cases hs : g.contains l.source = true
  · by_cases hd : g.contains l.destination = true
    · cases hp : l.parallel <;> cases hc : g.connectsAs l.source l.destination l.label <;>
        simp [hf, hs, hd, @eq_comm _ g']
    · simp [hf, hs, hd]
  · simp [hf, hs]

/-! ## Elements -/

theorem place_append_of_contains {es : List Element} (h : g.contains id = true) :
    ({ g with elements := g.elements ++ es } : Graph).place id = g.place id := by
  have hlt := place_lt_length_iff.mpr h
  simp only [place] at hlt ⊢
  rw [List.findIdx_append, if_pos hlt]

/-- An element added to a forest stands behind all others. -/
theorem Forest.addElement (hg : g.Forest) (h : g.addElement e = .ok g') : g'.Forest := by
  obtain ⟨-, hnew, hparent, rfl⟩ := addElement_eq_ok_iff.mp h
  have hmem : e.id ∉ g.elements.map (·.id) := by
    rw [← contains_iff_mem, hnew]
    exact Bool.false_ne_true
  refine ⟨?_, ?_⟩
  · simp only [List.map_append, List.map_cons, List.map_nil]
    apply List.nodup_append.mpr
    refine ⟨hg.nodup, List.nodup_singleton _, ?_⟩
    intro x hx y hy he
    rw [List.mem_singleton.mp hy] at he
    exact hmem (he ▸ hx)
  · intro q hq p hp
    rcases List.mem_append.mp hq with hq | hq
    · obtain ⟨r, hr, rfl⟩ := hg.parent_mem hq hp
      rw [place_append_of_contains (contains_of_mem hr),
        place_append_of_contains (contains_of_mem hq)]
      exact hg.earlier q hq _ hp
    · rw [List.mem_singleton] at hq
      subst hq
      have hpc := hparent p hp
      rw [place_append_of_contains hpc]
      refine Nat.lt_of_lt_of_le (place_lt_length_iff.mpr hpc) ?_
      have hnot : ¬g.place q.id < g.elements.length := by
        intro hlt
        rw [place_lt_length_iff.mp hlt] at hnew
        cases hnew
      simp only [place] at hnot ⊢
      rw [List.findIdx_append, if_neg hnot]
      exact Nat.le_add_left _ _

/-! ## Relationships -/

@[simp] theorem appended_nil : g.appended [] = g := by simp [appended]

@[simp] theorem appended_appended {rs more : List Relationship} :
    (g.appended rs).appended more = g.appended (rs ++ more) := by simp [appended]

variable (rs : List Relationship)

@[simp] theorem relationships_appended :
    (g.appended rs).relationships = g.relationships ++ rs := rfl

theorem connects_iff {s d : Text} : g.connects s d = true ↔
    ∃ r ∈ g.relationships, r.source = s ∧ r.destination = d := by
  simp only [connects, List.any_eq_true, Bool.and_eq_true, beq_iff_eq]

theorem connects_appended {s d : Text} : (g.appended rs).connects s d = true ↔
    g.connects s d = true ∨ ∃ r ∈ rs, r.source = s ∧ r.destination = d := by
  simp only [connects, relationships_appended, List.any_append, Bool.or_eq_true, List.any_eq_true,
    Bool.and_eq_true, beq_iff_eq]

/-! ## Ids of relationships -/

theorem relationshipId_injective {n m : Nat} (h : relationshipId n = relationshipId m) : n = m :=
  Text.toString_injective (Text.append_right_injective h)

/-- The ids of relationships count them from one on. -/
def Numbered (g : Graph) : Prop :=
  g.relationships.map (·.id) =
    (List.range g.relationships.length).map fun n => relationshipId (n + 1)

theorem Numbered.addRelationship (hg : g.Numbered) (h : g.addRelationship l = .ok g') :
    g'.Numbered := by
  obtain ⟨-, -, -, -, rfl⟩ := addRelationship_eq_ok_iff.mp h
  rw [Numbered] at hg ⊢
  rw [relationships_appended, List.length_append, List.length_singleton, List.range_succ,
    List.map_append, List.map_append, hg]
  rfl

theorem Numbered.nodup (hg : g.Numbered) : (g.relationships.map (·.id)).Nodup := by
  rw [hg]
  apply List.nodup_range.map
  intro n m h
  exact Nat.succ.inj (relationshipId_injective h)

/-- A relationship is found by its id. -/
theorem Numbered.getRelationship_eq_ok_iff {r : Relationship} (hg : g.Numbered) :
    g.getRelationship id = .ok r ↔ r ∈ g.relationships ∧ r.id = id := by
  rw [← find?_key_eq_some_iff hg.nodup, getRelationship]
  cases g.relationships.find? (·.id == id) <;> simp

theorem Numbered.mapM_relationshipsBetween {ids : List Text} (hg : g.Numbered) :
    ((g.relationshipsBetween ids).map (·.id)).mapM g.getRelationship =
      .ok (g.relationshipsBetween ids) := by
  rw [mapM_eq_ok_iff, List.forall₂_map_left_iff, List.forall₂_same]
  intro r hr
  exact hg.getRelationship_eq_ok_iff.mpr ⟨List.mem_of_mem_filter hr, rfl⟩

/-- The relationships between elements lead along the connected pairs of them. -/
theorem mem_ends_relationshipsBetween_iff {ids : List Text} {x : Text × Text} :
    x ∈ (g.relationshipsBetween ids).map (fun r => (r.source, r.destination)) ↔
      g.connects x.1 x.2 = true ∧ x.1 ∈ ids ∧ x.2 ∈ ids := by
  simp only [relationshipsBetween, List.mem_map, List.mem_filter, Bool.and_eq_true,
    List.contains_iff_mem, connects_iff]
  constructor
  · rintro ⟨r, ⟨hr, hs, hd⟩, rfl⟩
    exact ⟨⟨r, hr, rfl, rfl⟩, hs, hd⟩
  · rintro ⟨⟨r, hr, hs, hd⟩, hs', hd'⟩
    exact ⟨r, ⟨hr, hs ▸ hs', hd ▸ hd'⟩, Prod.ext hs hd⟩

/-! ## What depends on the elements only -/

section
variable (h : g'.elements = g.elements)
include h

theorem find?_of_elements_eq : g'.find? id = g.find? id := by simp only [find?, h]

theorem ancestors_of_elements_eq : g'.ancestors id = g.ancestors id := by
  have hup : ∀ n p, g'.ancestorsUpTo n p = g.ancestorsUpTo n p := by
    intro n
    induction n with
    | zero => intro p; cases p <;> rfl
    | succ n ih =>
      intro p
      cases p with
      | none => rfl
      | some p => simp only [ancestorsUpTo, find?_of_elements_eq h, ih]
  simp only [ancestors, find?_of_elements_eq h, h, hup]

theorem lineage_of_elements_eq : g'.lineage id = g.lineage id := by
  simp only [lineage, ancestors_of_elements_eq h]

theorem isAncestor_of_elements_eq {root : Text} :
    g'.isAncestor root id = g.isAncestor root id := by
  simp only [isAncestor, ancestors_of_elements_eq h]

theorem Forest.of_elements_eq (hg : g.Forest) : g'.Forest := by
  refine ⟨h ▸ hg.nodup, ?_⟩
  simp only [place, h]
  exact hg.earlier

theorem within_of_elements_eq {root : Text} : g'.Within root id ↔ g.Within root id := by
  constructor
  · intro hw
    induction hw with
    | root => exact .root
    | child he hp _ ih => exact .child (h ▸ he) hp ih
  · intro hw
    induction hw with
    | root => exact .root
    | child he hp _ ih => exact .child (h.symm ▸ he) hp ih

end

end Graph

end SystemAtlas.Model
