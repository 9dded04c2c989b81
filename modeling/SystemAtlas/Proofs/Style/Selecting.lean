import SystemAtlas.Proofs.Model.Origin
import SystemAtlas.Proofs.Style.Cascade

/-! # Selection by declared tags

Merging strips the tags of a declaration, and a rule keeps its selector as it is written. So the
rules that select by a declared tag apply to what the declaration makes exactly if the tag has no
blanks at its ends, and those that select by the tag without its blanks always do
(`Model.selected_of_assemble`). A tag with blanks at its ends selects nothing, not even what was
declared with it (`Model.padded_unselected`). -/

namespace SystemAtlas

open Model (Graph Element Relationship)

namespace Style.Styled

variable {s : Styled} {graph : Option Graph} {r : Rule} {tags : List Text} {t tag : Text}

theorem strip_of_carries (h : s.Carries graph tag) : tag.strip = tag := by
  cases s with
  | relationship r => exact (Model.tidy_mergeTags _).stripped tag h
  | element e =>
    rcases h with h | ⟨id, g, q, -, -, -, h⟩
    · exact (Model.tidy_tags e).stripped tag h
    · exact (Model.tidy_tags q).stripped tag h

/-- Rules select a thing by the tags of its declaration: by a tag itself if it has no blanks at its
ends, and only then, and always by the tag without them. -/
def SelectedBy (s : Styled) (tags : List Text) : Prop :=
  ∀ t ∈ tags, t.strip ≠ "" → ∀ (graph : Option Graph) (r : Rule), r.target = s.target →
    (r.selector = t → (s.isStyledBy graph r = true ↔ t.strip = t)) ∧
      (r.selector = t.strip → s.isStyledBy graph r = true)

theorem selectedBy_of_carries
    (h : ∀ t ∈ tags, t.strip ≠ "" → ∀ graph, s.Carries graph t.strip) : s.SelectedBy tags := by
  intro t ht hne graph r htarget
  have hcarries := h t ht hne graph
  refine ⟨?_, ?_⟩
  · rintro rfl
    rw [isStyledBy_iff]
    refine ⟨fun htakes => strip_of_carries htakes.2, fun hstrip => ⟨htarget, ?_⟩⟩
    rwa [hstrip] at hcarries
  · intro hselector
    rw [isStyledBy_iff]
    exact ⟨htarget, hselector ▸ hcarries⟩

theorem selectedBy_element (e : Element) : (element e).SelectedBy e.ownTags := by
  refine selectedBy_of_carries fun t ht hne graph => .inl ?_
  rw [Element.tags, Model.mem_mergeTags_iff]
  exact ⟨hne, e.ownTags, by simp, t, ht, rfl⟩

/-- A relationship with the tags of a link is selected by what was declared of the link. -/
theorem selectedBy_relationship {r : Relationship} {l : Model.Link} (h : r.tags = l.tags) :
    (relationship r).SelectedBy l.ownTags := by
  refine selectedBy_of_carries fun t ht hne graph => ?_
  show t.strip ∈ r.tags
  rw [h, Model.Link.tags, Model.mem_mergeTags_iff]
  exact ⟨hne, l.ownTags, by simp, t, ht, rfl⟩

end Style.Styled

namespace Model

open Style (Styled)

/-- The tags that an entry gives to the element it declares. -/
def Event.elementTags? : Event → Option (List Text)
  | .enter (.system d) | .enter (.container d) | .enter (.node d _) => some d.tags
  | .add (.person d) | .add (.component d) | .add (.infrastructure d) => some d.tags
  | .add (.group _) => some []
  | .add (.occurrence i) => some i.tags
  | .enter (.environment _) | .leave | .relate _ => none

/-- The tags of every element that a script declares. -/
def elementTags (events : List Event) : List (List Text) := events.filterMap Event.elementTags?

namespace Assembly

variable {a a' b : Assembly} {e : Event} {events : List Event} {id name : Text}
  {make : Text → Element}

theorem Makes.elementTags?_eq (hm : Makes a e name make) :
    e.elementTags? = some (make id).ownTags := by
  cases hm <;> rfl

theorem Step.ownTags_eq (h : Step a e a') :
    a'.graph.elements.map (·.ownTags) = a.graph.elements.map (·.ownTags) ++ elementTags [e] := by
  cases h with
  | leave | relate => exact (List.append_nil _).symm
  | environment _ _ _ hg =>
    obtain ⟨-, -, rfl⟩ := Graph.addEnvironment_eq_ok_iff.mp hg
    exact (List.append_nil _).symm
  | @element _ _ _ _ id _ hm _ _ _ hg =>
    obtain ⟨-, -, -, rfl⟩ := Graph.addElement_eq_ok_iff.mp hg
    rw [elementTags, List.filterMap_cons_some hm.elementTags?_eq]
    exact List.map_append

theorem ownTags_of_declared (h : events.foldlM declare a = .ok b) :
    b.graph.elements.map (·.ownTags) = a.graph.elements.map (·.ownTags) ++ elementTags events := by
  induction events generalizing a with
  | nil => exact Except.ok.inj h ▸ (List.append_nil _).symm
  | cons e events ih =>
    obtain ⟨m, hm, h⟩ := foldlM_cons_eq_ok_iff.mp h
    rw [ih h, (declare_eq_ok_iff.mp hm).ownTags_eq, List.append_assoc, elementTags, elementTags,
      ← List.filterMap_append]
    rfl

theorem ownTags_of_resolveLink {p : Pending} {l : Link} (h : a.resolveLink p = .ok l) :
    l.ownTags = p.declaration.tags := by
  obtain ⟨source, -, destination, -, rfl⟩ := resolveLink_eq_ok_iff.mp h
  rfl

end Assembly

variable {mode : Identifier.Mode} {members : List Declaration.ModelMember} {f : Finished}

/-- In a complete model, rules select by declared tags. The elements are those that the script
declares, in its order, and the declared relationships those of the document in theirs; each is
selected by the tags of its declaration. The other relationships are selected by those of the
declared ones that they come from. -/
theorem selected_of_assemble (h : assemble mode members = .ok f) :
    List.Forall₂ (fun tags e => e.ownTags = tags ∧ (Styled.element e).SelectedBy tags)
        (elementTags (script members)) f.graph.elements ∧
      ∃ declared implied copies, f.graph.Layered declared implied copies ∧
        List.Forall₂ (fun r x => x.ownTags = r.tags ∧ (Styled.relationship x).SelectedBy r.tags)
          (members.flatMap (·.relationships)) declared ∧
        ∀ x ∈ f.graph.relationships,
          (Styled.relationship x).SelectedBy (f.graph.trace 2 x).ownTags := by
  obtain ⟨a, ha, hf⟩ := assemble_eq_ok_iff.mp h
  obtain ⟨implied, copies, -, -, -, hlayered⟩ :=
    Assembly.layered_of_finish (linkedTo_of_linked ha) (numbered_of_assemble h) hf
  obtain ⟨b, declared, hb, hpending, hgraph, hdeclared, hlinks⟩ := relationships_of_linked ha
  rw [Assembly.declareAll_result] at hb
  -- linking and finishing leave the elements as they were declared
  have helements : f.graph.elements = b.graph.elements := by
    rw [Assembly.elements_of_finish hf, hgraph]
    rfl
  have htags : elementTags (script members) = f.graph.elements.map (·.ownTags) := by
    rw [helements, Assembly.ownTags_of_declared hb]
    rfl
  refine ⟨?_, _, implied, copies, hlayered, ?_, fun x hx => ?_⟩
  · rw [htags, List.forall₂_map_left_iff, List.forall₂_same]
    exact fun e _ => ⟨rfl, Styled.selectedBy_element e⟩
  · rw [← hpending, List.forall₂_map_left_iff, hdeclared]
    refine hlinks.imp fun p x hp => ?_
    have hown : x.ownTags = p.declaration.tags := Assembly.ownTags_of_resolveLink hp
    exact ⟨hown, hown ▸ Styled.selectedBy_relationship rfl⟩
  · exact Styled.selectedBy_relationship (hlayered.traced x hx).2.tags

/-- Tags as they can be declared, one of them between blanks. -/
def paddedTags : List Text := [" Staff ", "Admin"]

/-- Somebody with these tags. -/
def padded : List Declaration.ModelMember :=
  [.person { identifier := Identifier.LocalName.ofText? "ann", name := "Ann", tags := paddedTags }]

/-- The complete model of that. -/
def paddedModel : Finished := (assemble .flat padded).toOption.getD default

open Style.Cascade (backgroundRule)

theorem padded_selected : assemble .flat padded = .ok paddedModel ∧
    ∃ e ∈ paddedModel.graph.elements, e.ownTags = paddedTags ∧
      (Styled.element e).isStyledBy none (backgroundRule "Admin" "#08F") = true ∧
      (Styled.element e).isStyledBy none (backgroundRule "Staff" "#08F") = true := by
  have h : assemble .flat padded = .ok paddedModel := by rfl
  have htags : elementTags (script padded) = [paddedTags] := by rfl
  have hall := (selected_of_assemble h).1
  rw [htags] at hall
  obtain ⟨e, rest, ⟨hown, hselected⟩, -, helements⟩ := List.forall₂_cons_left_iff.mp hall
  refine ⟨h, e, helements ▸ List.mem_cons_self, hown, ?_, ?_⟩
  · exact (hselected "Admin" (by decide) (by decide) none _ rfl).2 rfl
  · exact (hselected " Staff " (by decide) (by decide) none _ rfl).2 rfl

/-- A rule that selects by the first of these tags as it was declared does not apply. -/
theorem padded_unselected : assemble .flat padded = .ok paddedModel ∧
    elementTags (script padded) = [paddedTags] ∧ (" Staff " : Text) ∈ paddedTags ∧
    (backgroundRule " Staff " "#08F").selector = " Staff " ∧
    ∃ e, paddedModel.graph.elements = [e] ∧ e.ownTags = paddedTags ∧
      ∀ graph, (Styled.element e).isStyledBy graph (backgroundRule " Staff " "#08F") = false := by
  refine ⟨by rfl, by rfl, by decide, by rfl, _, by rfl, by rfl, fun graph => ?_⟩
  rw [← Bool.not_eq_true, Styled.isStyledBy_iff]
  intro htakes
  have hstrip : Text.strip " Staff " = " Staff " := Styled.strip_of_carries htakes.2
  exact absurd hstrip (by decide)

end Model

end SystemAtlas
