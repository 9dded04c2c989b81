import SystemAtlas.Proofs.Model.Linking

/-! # Graphs that are alike

Two graphs are alike if they have the same elements in whatever order, but for the numbers of
instances, and connect the same pairs. Elements are found, walked upward from and told apart in both
in the same way, and the derivations keep graphs alike (`Alike.finish`). -/

namespace SystemAtlas.Model

/-- A part of an environment without the number of an instance. -/
def DeployedPart.unnumbered : DeployedPart → DeployedPart
  | .occurrence t definition groups _ => .occurrence t definition groups 0
  | part => part

/-- A role without the number of an instance. -/
def Role.unnumbered : Role → Role
  | .static t => .static t
  | .deployed v part => .deployed v part.unnumbered

/-- An element without the number of an instance. -/
def Element.unnumbered (e : Element) : Element := { e with role := e.role.unnumbered }

/-! ## Elements -/

namespace Element

variable {e e' : Element}

theorem type_unnumbered : e.unnumbered.type = e.type := by
  simp only [type, unnumbered]
  cases e.role with
  | static _ => rfl
  | deployed _ part => cases part <;> rfl

theorem isStatic_unnumbered : e.unnumbered.isStatic = e.isStatic := by
  simp only [isStatic, unnumbered]
  cases e.role <;> rfl

theorem environment?_unnumbered : e.unnumbered.environment? = e.environment? := by
  simp only [environment?, unnumbered]
  cases e.role <;> rfl

theorem definition?_unnumbered : e.unnumbered.definition? = e.definition? := by
  simp only [definition?, unnumbered]
  cases e.role with
  | static _ => rfl
  | deployed _ part => cases part <;> rfl

theorem groups_unnumbered : e.unnumbered.groups = e.groups := by
  simp only [groups, unnumbered]
  cases e.role with
  | static _ => rfl
  | deployed _ part => cases part <;> rfl

theorem unnumbered_of_isStatic (h : e.isStatic = true) : e.unnumbered = e := by
  rw [isStatic] at h
  split at h
  · next t hr => rw [unnumbered, hr, Role.unnumbered, ← hr]
  · cases h

/-- Two elements differ at most in the numbers of instances. -/
def Same (e e' : Element) : Prop := e.unnumbered = e'.unnumbered

namespace Same

theorem symm (h : Same e e') : Same e' e := Eq.symm h

variable (h : Same e e')
include h

theorem unnumbered_eq : e.unnumbered = e'.unnumbered := h

theorem id_eq : e.id = e'.id := by
  have hid := congrArg Element.id h.unnumbered_eq
  exact hid

theorem name_eq : e.name = e'.name := by
  have hname := congrArg Element.name h.unnumbered_eq
  exact hname

theorem description_eq : e.description = e'.description := by
  have hdescription := congrArg Element.description h.unnumbered_eq
  exact hdescription

theorem technology_eq : e.technology = e'.technology := by
  have htechnology := congrArg Element.technology h.unnumbered_eq
  exact htechnology

theorem parent_eq : e.parent = e'.parent := by
  have hparent := congrArg Element.parent h.unnumbered_eq
  exact hparent

theorem type_eq : e.type = e'.type := by rw [← type_unnumbered, h, type_unnumbered]

theorem tags_eq : e.tags = e'.tags := by
  have hown := congrArg Element.ownTags h.unnumbered_eq
  rw [tags, tags, h.type_eq]
  exact congrArg (fun own => mergeTags [defaultTags e'.type, own]) hown

theorem isA_eq (t : ElementType) : e.isA t = e'.isA t := by rw [isA, isA, h.type_eq]

theorem isStatic_eq : e.isStatic = e'.isStatic := by
  rw [← isStatic_unnumbered, h, isStatic_unnumbered]

theorem environment?_eq : e.environment? = e'.environment? := by
  rw [← environment?_unnumbered, h, environment?_unnumbered]

theorem definition?_eq : e.definition? = e'.definition? := by
  rw [← definition?_unnumbered, h, definition?_unnumbered]

theorem groups_eq : e.groups = e'.groups := by rw [← groups_unnumbered, h, groups_unnumbered]

theorem eq_of_isStatic (hs : e.isStatic = true) : e = e' := by
  have hs' := h.isStatic_eq.symm.trans hs
  rw [← unnumbered_of_isStatic hs, h, unnumbered_of_isStatic hs']

end Same

end Element

/-! ## Graphs -/

namespace Graph

/-- Two graphs have the same elements and environments in whatever order, but for the numbers of
instances, and connect the same pairs. -/
structure Alike (g g' : Graph) : Prop where
  elements : (g.elements.map (·.unnumbered)).Perm (g'.elements.map (·.unnumbered))
  environments : g.environments.Perm g'.environments
  connects : ∀ s d, g.connects s d = g'.connects s d

variable {g g' m m' : Graph} {e : Element} {id x s d : Text} {r : Relationship}

theorem reaches_congr {e₁ e₂ e₁' e₂' : Element} (h₁ : e₁.Same e₁') (h₂ : e₂.Same e₂') :
    reaches e₁ e₂ = reaches e₁' e₂' := by
  simp only [reaches, Element.sharesGroupWith, h₁.environment?_eq, h₂.environment?_eq,
    h₁.groups_eq, h₂.groups_eq]

namespace Alike

theorem symm (h : Alike g g') : Alike g' g :=
  ⟨h.elements.symm, h.environments.symm, fun s d => (h.connects s d).symm⟩

theorem exists_same (h : Alike g g') (he : e ∈ g.elements) : ∃ e' ∈ g'.elements, e.Same e' := by
  obtain ⟨e', he', hsame⟩ := List.mem_map.mp (h.elements.subset (List.mem_map_of_mem he))
  exact ⟨e', he', hsame.symm⟩

theorem length_eq (h : Alike g g') : g.elements.length = g'.elements.length := by
  have hlength := h.elements.length_eq
  rwa [List.length_map, List.length_map] at hlength

theorem exists_connecting (h : Alike g g') (hr : r ∈ g.relationships) :
    ∃ r' ∈ g'.relationships, r'.source = r.source ∧ r'.destination = r.destination := by
  have hc := h.connects r.source r.destination
  rw [connects_iff.mpr ⟨r, hr, rfl, rfl⟩] at hc
  exact connects_iff.mp hc.symm

section
variable (h : Alike g g') (hg : g.Forest) (hg' : g'.Forest)
include h hg hg'

/-- Both graphs find the same element, or none. -/
theorem find?_cases (id : Text) : g.find? id = none ∧ g'.find? id = none ∨
    ∃ e e', g.find? id = some e ∧ g'.find? id = some e' ∧ e.Same e' := by
  cases hfind : g.find? id with
  | some e =>
    obtain ⟨he, rfl⟩ := mem_of_find? hfind
    obtain ⟨e', he', hsame⟩ := h.exists_same he
    exact .inr ⟨e, e', rfl, hsame.id_eq ▸ hg'.find?_of_mem he', hsame⟩
  | none =>
    refine .inl ⟨rfl, ?_⟩
    cases hfind' : g'.find? id with
    | none => rfl
    | some e' =>
      obtain ⟨he', rfl⟩ := mem_of_find? hfind'
      obtain ⟨e, he, hsame⟩ := h.symm.exists_same he'
      rw [hsame.id_eq, hg.find?_of_mem he] at hfind
      cases hfind

theorem any_find?_eq {p : Element → Bool} (hp : ∀ e e' : Element, e.Same e' → p e = p e') :
    (g.find? id).any p = (g'.find? id).any p := by
  rcases h.find?_cases hg hg' id with ⟨hn, hn'⟩ | ⟨e, e', he, he', hsame⟩
  · rw [hn, hn']
  · rw [he, he', Option.any_some, Option.any_some, hp e e' hsame]

theorem isStatic_eq : g.isStatic id = g'.isStatic id :=
  h.any_find?_eq hg hg' fun _ _ hsame => hsame.isStatic_eq

theorem ancestors_eq :
    (g.ancestors id).map (·.unnumbered) = (g'.ancestors id).map (·.unnumbered) := by
  have hup : ∀ n p, (g.ancestorsUpTo n p).map (·.unnumbered) =
      (g'.ancestorsUpTo n p).map (·.unnumbered) := by
    intro n
    induction n with
    | zero => intro p; cases p <;> rfl
    | succ n ih =>
      intro p
      cases p with
      | none => rfl
      | some p =>
        simp only [ancestorsUpTo]
        rcases h.find?_cases hg hg' p with ⟨hn, hn'⟩ | ⟨e, e', he, he', hsame⟩
        · rw [hn, hn']
        · rw [he, he', List.map_cons, List.map_cons, hsame, hsame.parent_eq, ih]
  simp only [ancestors]
  rcases h.find?_cases hg hg' id with ⟨hn, hn'⟩ | ⟨e, e', he, he', hsame⟩
  · rw [hn, hn']
  · simp only [he, he', hsame.parent_eq, h.length_eq, hup]

theorem ids_ancestors_eq : (g.ancestors id).map (·.id) = (g'.ancestors id).map (·.id) := by
  have hids : ∀ es : List Element, es.map (·.id) = (es.map (·.unnumbered)).map (·.id) := by
    intro es
    rw [List.map_map]
    rfl
  rw [hids, h.ancestors_eq hg hg', ← hids]

theorem lineage_eq : g.lineage id = g'.lineage id := by
  rw [lineage, lineage, h.ids_ancestors_eq hg hg']

theorem isAncestor_eq : g.isAncestor x id = g'.isAncestor x id := by
  have hany : ∀ es : List Element, es.any (·.id == x) = (es.map (·.id)).any (· == x) := by
    intro es
    rw [List.any_map]
    rfl
  rw [isAncestor, isAncestor, hany, h.ids_ancestors_eq hg hg', ← hany]

/-! ### Derivations -/

theorem impliedPairs_eq {r' : Relationship} (hs : r'.source = r.source)
    (hd : r'.destination = r.destination) : g'.impliedPairs r' = g.impliedPairs r := by
  simp only [impliedPairs, mayImply, hs, hd, h.lineage_eq hg hg', h.isAncestor_eq hg hg']

/-- What a declared relationship of one graph implies, one of the other implies too. -/
theorem exists_implying (hdeclared : ∀ r ∈ g'.relationships, r.implied = false)
    (hr : ∃ r ∈ g.relationships, g.isImplying r = true ∧ (s, d) ∈ g.impliedPairs r) :
    ∃ r ∈ g'.relationships, g'.isImplying r = true ∧ (s, d) ∈ g'.impliedPairs r := by
  obtain ⟨r, hr, hi, hp⟩ := hr
  obtain ⟨r', hr', hs, hd⟩ := h.exists_connecting hr
  refine ⟨r', hr', ?_, by rwa [h.impliedPairs_eq hg hg' hs hd]⟩
  simp only [isImplying, Bool.and_eq_true] at hi ⊢
  rw [hdeclared r' hr', hs, hd, ← h.isStatic_eq hg hg', ← h.isStatic_eq hg hg']
  exact ⟨⟨rfl, hi.1.2⟩, hi.2⟩

/-- What a relationship of one graph is copied to, one of the other is copied to as well. -/
theorem exists_copied (hr : ∃ r ∈ g.relationships, g.isStatic r.source = true ∧
      g.isStatic r.destination = true ∧ (s, d) ∈ g.instancePairs r) :
    ∃ r ∈ g'.relationships, g'.isStatic r.source = true ∧
      g'.isStatic r.destination = true ∧ (s, d) ∈ g'.instancePairs r := by
  obtain ⟨r, hr, hrs, hrd, hp⟩ := hr
  obtain ⟨r', hr', hs, hd⟩ := h.exists_connecting hr
  rw [h.isStatic_eq hg hg'] at hrs hrd
  refine ⟨r', hr', by rwa [hs], by rwa [hd], ?_⟩
  simp only [mem_instancePairs_iff, mem_instancesOf_iff] at hp ⊢
  obtain ⟨e₁, ⟨he₁, hd₁⟩, e₂, ⟨he₂, hd₂⟩, hreach, rfl, rfl⟩ := hp
  obtain ⟨e₁', he₁', h₁⟩ := h.exists_same he₁
  obtain ⟨e₂', he₂', h₂⟩ := h.exists_same he₂
  refine ⟨e₁', ⟨he₁', ?_⟩, e₂', ⟨he₂', ?_⟩, ?_, h₁.id_eq.symm, h₂.id_eq.symm⟩
  · rw [← h₁.definition?_eq, hs, hd₁]
  · rw [← h₂.definition?_eq, hd, hd₂]
  · rwa [← reaches_congr h₁ h₂]

end

theorem of_adds {kind kind' : Relationship → Prop} {pairs pairs' : Text → Text → Prop}
    (h : Alike g g') (hm : Adds g kind pairs m) (hm' : Adds g' kind' pairs' m')
    (hpairs : ∀ s d, pairs s d ↔ pairs' s d) : Alike m m' := by
  refine ⟨by rw [hm.elements_eq, hm'.elements_eq]; exact h.elements,
    by rw [hm.environments_eq, hm'.environments_eq]; exact h.environments, fun s d => ?_⟩
  rw [Bool.eq_iff_iff, hm.connects, hm'.connects, h.connects, hpairs]

end Alike

end Graph

/-- Assemblies with graphs that are alike, finished, still have such graphs. -/
theorem alike_of_finish {a a' : Assembly} {f f' : Finished} (h : a.graph.Alike a'.graph)
    (ha : a.graph.Forest) (ha' : a'.graph.Forest)
    (hd : ∀ r ∈ a.graph.relationships, r.implied = false)
    (hd' : ∀ r ∈ a'.graph.relationships, r.implied = false) (hf : a.finish = .ok f)
    (hf' : a'.finish = .ok f') : f.graph.Alike f'.graph := by
  obtain ⟨g, hg, m, hm, rfl⟩ := Assembly.finish_eq_ok_iff.mp hf
  obtain ⟨g', hg', m', hm', rfl⟩ := Assembly.finish_eq_ok_iff.mp hf'
  have himplied := Graph.withImplied_adds hg
  have himplied' := Graph.withImplied_adds hg'
  have hforest := ha.of_elements_eq himplied.elements_eq
  have hforest' := ha'.of_elements_eq himplied'.elements_eq
  have hgraph : g.Alike g' := h.of_adds himplied himplied' fun s d =>
    ⟨h.exists_implying ha ha' hd', h.symm.exists_implying ha' ha hd⟩
  have hcopied := hgraph.of_adds (Graph.withInstanceRelationships_adds hm)
    (Graph.withInstanceRelationships_adds hm') fun s d =>
      ⟨hgraph.exists_copied hforest hforest', hgraph.symm.exists_copied hforest' hforest⟩
  exact ⟨hcopied.elements, hcopied.environments, hcopied.connects⟩

end SystemAtlas.Model
