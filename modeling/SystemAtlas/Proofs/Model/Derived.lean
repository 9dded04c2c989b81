import SystemAtlas.Model.Replication
import SystemAtlas.Proofs.Model.Growth

/-! # Derived relationships

What the two passes that derive relationships add to a graph. `Adds` tells of a graph what
relationships a later one has more, and which pairs these connect. Implying adds the pairs at or
above the ends of a declared relationship (`withImplied_adds`), and copying adds the pairs of
instances whose definitions are connected (`withInstanceRelationships_adds`). -/

namespace SystemAtlas.Model.Graph

variable {g g' m : Graph} {r x : Relationship} {s d : Text} {kind kind' : Relationship → Prop}
  {pairs more : Text → Text → Prop}

/-- A graph `g'` is `g` with relationships of a kind behind the others, by which it connects just
the given pairs besides. -/
structure Adds (g : Graph) (kind : Relationship → Prop) (pairs : Text → Text → Prop)
    (g' : Graph) : Prop where
  grows : ∃ rs, g' = g.appended rs ∧ ∀ r ∈ rs, kind r
  connects : ∀ s d, g'.connects s d = true ↔ g.connects s d = true ∨ pairs s d
  numbered : g.Numbered → g'.Numbered

namespace Adds

theorem refl : Adds g kind (fun _ _ => False) g := by
  refine ⟨⟨[], appended_nil.symm, ?_⟩, fun s d => (or_false _).symm ▸ Iff.rfl, fun hn => hn⟩
  intro r hr
  cases hr

theorem trans (h : Adds g kind pairs m) (h' : Adds m kind more g') :
    Adds g kind (fun s d => pairs s d ∨ more s d) g' := by
  obtain ⟨rs, rfl, hrs⟩ := h.grows
  obtain ⟨rs', rfl, hrs'⟩ := h'.grows
  refine ⟨⟨rs ++ rs', appended_appended, fun r hr => ?_⟩, fun s d => ?_,
    fun hn => h'.numbered (h.numbered hn)⟩
  · exact (List.mem_append.mp hr).elim (hrs r) (hrs' r)
  · rw [h'.connects, h.connects, or_assoc]

theorem congr (h : Adds g kind pairs g') (he : ∀ s d, pairs s d ↔ more s d) :
    Adds g kind more g' :=
  ⟨h.grows, fun s d => by rw [h.connects, he], h.numbered⟩

theorem mono (h : Adds g kind pairs g') (hk : ∀ r, kind r → kind' r) : Adds g kind' pairs g' := by
  obtain ⟨rs, hg', hrs⟩ := h.grows
  exact ⟨⟨rs, hg', fun r hr => hk r (hrs r hr)⟩, h.connects, h.numbered⟩

theorem elements_eq (h : Adds g kind pairs g') : g'.elements = g.elements := by
  obtain ⟨rs, rfl, -⟩ := h.grows
  rfl

theorem environments_eq (h : Adds g kind pairs g') : g'.environments = g.environments := by
  obtain ⟨rs, rfl, -⟩ := h.grows
  rfl

/-- A link that connects a pair which may be connected already. -/
theorem of_addRelationship {l : Link} (hl : ∀ r : Relationship, r.toLink = l → kind r)
    (h : g.addRelationship l = .ok g') :
    Adds g kind (fun s d => (s, d) = (l.source, l.destination)) g' := by
  have hnumbered : g.Numbered → g'.Numbered := fun hn => hn.addRelationship h
  obtain ⟨-, -, -, -, rfl⟩ := addRelationship_eq_ok_iff.mp h
  refine ⟨⟨_, rfl, ?_⟩, fun s d => ?_, hnumbered⟩
  · intro r hr
    exact hl r (List.mem_singleton.mp hr ▸ rfl)
  · simp only [connects_appended, List.mem_singleton, exists_eq_left, Link.numbered, Prod.mk.injEq,
      @eq_comm _ s, @eq_comm _ d]

/-- A step that finds its pair connected adds nothing. -/
theorem of_connects {p : Text × Text} (h : g.connects p.1 p.2 = true) :
    Adds g kind (fun s d => (s, d) = p) g := by
  refine ⟨refl.grows, fun s d => ⟨.inl, ?_⟩, fun hn => hn⟩
  rintro (h' | rfl)
  · exact h'
  · exact h

/-- A run of steps adds what any of them adds. -/
theorem of_foldlM {α : Type} {step : Graph → α → Except Failure Graph}
    {adds : α → Text → Text → Prop} {xs : List α}
    (hstep : ∀ m x m', x ∈ xs → m.elements = g.elements → step m x = .ok m' →
      Adds m kind (adds x) m')
    (h : xs.foldlM step g = .ok g') : Adds g kind (fun s d => ∃ x ∈ xs, adds x s d) g' := by
  have hrun : ∀ (ys : List α) (m : Graph), (∀ y ∈ ys, y ∈ xs) → m.elements = g.elements →
      ys.foldlM step m = .ok g' → Adds m kind (fun s d => ∃ y ∈ ys, adds y s d) g' := by
    intro ys
    induction ys with
    | nil =>
      intro m _ _ h
      cases Except.ok.inj h
      apply refl.congr
      simp
    | cons y ys ih =>
      intro m hys hm h
      obtain ⟨m', hm', h⟩ := foldlM_cons_eq_ok_iff.mp h
      have hfirst := hstep m y m' (hys y List.mem_cons_self) hm hm'
      have hrest := ih m' (fun z hz => hys z (List.mem_cons_of_mem _ hz))
        (hfirst.elements_eq.trans hm) h
      apply (hfirst.trans hrest).congr
      simp
  exact hrun xs g (fun _ h => h) rfl h

end Adds

/-! ## Implied relationships -/

theorem isStatic_of_elements_eq (h : g'.elements = g.elements) (id : Text) :
    g'.isStatic id = g.isStatic id := by
  simp only [isStatic, find?_of_elements_eq h]

theorem isImplying_of_elements_eq (h : g'.elements = g.elements) (r : Relationship) :
    g'.isImplying r = g.isImplying r := by
  simp only [isImplying, isStatic_of_elements_eq h]

theorem mayImply_of_elements_eq (h : g'.elements = g.elements) :
    g'.mayImply s d = g.mayImply s d := by
  simp only [mayImply, isAncestor_of_elements_eq h]

theorem impliedPairs_of_elements_eq (h : g'.elements = g.elements) (r : Relationship) :
    g'.impliedPairs r = g.impliedPairs r := by
  simp only [impliedPairs, lineage_of_elements_eq h, mayImply_of_elements_eq h]

/-- A relationship that another one implies, at or above the ends of that. -/
@[mk_iff]
structure ImpliedBy (g : Graph) (r x : Relationship) : Prop where
  implying : g.isImplying r = true
  pair : (x.source, x.destination) ∈ g.impliedPairs r
  link : x.toLink = { r.derive x.source x.destination with implied := true, parallel := false }

theorem ImpliedBy.implied (h : g.ImpliedBy r x) : x.implied = true := congrArg Link.implied h.link

theorem ImpliedBy.mem_lineage (h : g.ImpliedBy r x) :
    x.source ∈ g.lineage r.source ∧ x.destination ∈ g.lineage r.destination := by
  have hpair := List.mem_of_mem_filter h.pair
  simpa using hpair

theorem impliedBy_of_elements_eq (h : g'.elements = g.elements) :
    g'.ImpliedBy r x ↔ g.ImpliedBy r x := by
  simp only [impliedBy_iff, isImplying_of_elements_eq h, impliedPairs_of_elements_eq h]

theorem imply_adds {p : Text × Text} (hp : ∀ x : Relationship,
    x.toLink = { r.derive p.1 p.2 with implied := true, parallel := false } → kind x)
    (h : imply r g p = .ok g') : Adds g kind (fun s d => (s, d) = p) g' := by
  rw [imply] at h
  split at h
  next hc =>
    cases Except.ok.inj h
    exact .of_connects hc
  next => exact .of_addRelationship hp h

theorem implyAll_adds (h : g.implyAll r = .ok g') :
    Adds g (g.ImpliedBy r) (fun s d => g.isImplying r = true ∧ (s, d) ∈ g.impliedPairs r) g' := by
  rw [implyAll] at h
  split at h
  next hr =>
    have hadds : Adds g (g.ImpliedBy r) (fun s d => ∃ p ∈ g.impliedPairs r, (s, d) = p) g' := by
      refine Adds.of_foldlM (fun m p m' hp _ hm' => imply_adds (fun x hx => ?_) hm') h
      obtain rfl : (x.source, x.destination) = p :=
        congrArg (fun l : Link => (l.source, l.destination)) hx
      exact ⟨hr, hp, hx⟩
    apply hadds.congr
    simp [hr]
  next hr =>
    cases Except.ok.inj h
    apply Adds.refl.congr
    simp [hr]

/-- Implying adds what relationships imply, and connects just the implied pairs besides. -/
theorem withImplied_adds (h : g.withImplied = .ok g') :
    Adds g (fun x => ∃ r ∈ g.relationships, g.ImpliedBy r x)
      (fun s d => ∃ r ∈ g.relationships, g.isImplying r = true ∧ (s, d) ∈ g.impliedPairs r) g' := by
  refine Adds.of_foldlM (fun m r m' hr hm hm' => ?_) h
  apply ((implyAll_adds hm').mono fun x hx => ?_).congr
  · intro s d
    rw [isImplying_of_elements_eq hm, impliedPairs_of_elements_eq hm]
  · exact ⟨r, hr, (impliedBy_of_elements_eq hm).mp hx⟩

theorem mem_impliedPairs_iff (hg : g.Forest) : (s, d) ∈ g.impliedPairs r ↔
    g.Within s r.source ∧ g.Within d r.destination ∧ (s, d) ≠ (r.source, r.destination) ∧
      g.mayImply s d = true := by
  rw [← mem_lineage_iff hg, ← mem_lineage_iff hg]
  simp only [impliedPairs, List.mem_filter, List.mem_flatMap, List.mem_map, Prod.mk.injEq,
    Bool.and_eq_true, bne_iff_ne]
  constructor
  · rintro ⟨⟨s', hs, d', hd, rfl, rfl⟩, hne, hm⟩
    exact ⟨hs, hd, hne, hm⟩
  · rintro ⟨hs, hd, hne, hm⟩
    exact ⟨⟨s, hs, d, hd, rfl, rfl⟩, hne, hm⟩

/-- Two different elements of which none lies above the other are connected, once relationships are
implied, if they were or if a relationship that implies others leads from one subtree to the
other. -/
theorem connects_withImplied_iff (hg : g.Forest) (h : g.withImplied = .ok g')
    (hm : g.mayImply s d = true) : g'.connects s d = true ↔
      g.connects s d = true ∨ ∃ r ∈ g.relationships, g.isImplying r = true ∧
        g.Within s r.source ∧ g.Within d r.destination := by
  rw [(withImplied_adds h).connects]
  constructor
  · rintro (hc | ⟨r, hr, hi, hp⟩)
    · exact .inl hc
    · obtain ⟨hs, hd, -, -⟩ := (mem_impliedPairs_iff hg).mp hp
      exact .inr ⟨r, hr, hi, hs, hd⟩
  · rintro (hc | ⟨r, hr, hi, hs, hd⟩)
    · exact .inl hc
    · by_cases hne : (s, d) = (r.source, r.destination)
      · -- the relationship itself connects the two
        cases hne
        exact .inl (connects_iff.mpr ⟨r, hr, rfl, rfl⟩)
      · exact .inr ⟨r, hr, hi, (mem_impliedPairs_iff hg).mpr ⟨hs, hd, hne, hm⟩⟩

/-! ## Relationships between instances -/

theorem instancesOf_of_elements_eq (h : g'.elements = g.elements) (id : Text) :
    g'.instancesOf id = g.instancesOf id := by
  simp only [instancesOf, h]

theorem mem_instancesOf_iff {e : Element} {definition : Text} :
    e ∈ g.instancesOf definition ↔ e ∈ g.elements ∧ e.definition? = some definition := by
  simp only [instancesOf, List.mem_filter, beq_iff_eq]

theorem mem_instancePairs_iff : (s, d) ∈ g.instancePairs r ↔
    ∃ e ∈ g.instancesOf r.source, ∃ e' ∈ g.instancesOf r.destination,
      reaches e e' = true ∧ e.id = s ∧ e'.id = d := by
  simp only [instancePairs, List.mem_flatMap, List.mem_map, List.mem_filter, Prod.mk.injEq,
    and_assoc]

theorem connects_of_hasRelationship {label : Option Text}
    (h : g.hasRelationship s d label = true) : g.connects s d = true := by
  cases label with
  | none => exact h
  | some label =>
    simp only [hasRelationship, connectsAs, List.any_eq_true, Bool.and_eq_true, beq_iff_eq] at h
    obtain ⟨r, hr, ⟨hs, hd⟩, -⟩ := h
    exact connects_iff.mpr ⟨r, hr, hs, hd⟩

/-- A relationship that copies another one to instances of its ends. -/
@[mk_iff]
structure CopyOf (g : Graph) (r x : Relationship) : Prop where
  static : g.isStatic r.source = true ∧ g.isStatic r.destination = true
  pair : (x.source, x.destination) ∈ g.instancePairs r
  link : x.toLink = r.derive x.source x.destination

/-- Copies lead from an instance of the one end to an instance of the other. -/
theorem CopyOf.exists_instances (h : g.CopyOf r x) : ∃ s ∈ g.elements, ∃ d ∈ g.elements,
    s.id = x.source ∧ d.id = x.destination ∧
      s.definition? = some r.source ∧ d.definition? = some r.destination := by
  obtain ⟨s, hs, d, hd, -, hsid, hdid⟩ := mem_instancePairs_iff.mp h.pair
  obtain ⟨hs, hsdef⟩ := mem_instancesOf_iff.mp hs
  obtain ⟨hd, hddef⟩ := mem_instancesOf_iff.mp hd
  exact ⟨s, hs, d, hd, hsid, hdid, hsdef, hddef⟩

theorem instancePairs_of_elements_eq (h : g'.elements = g.elements) (r : Relationship) :
    g'.instancePairs r = g.instancePairs r := by
  simp only [instancePairs, instancesOf_of_elements_eq h]

theorem copyOf_of_elements_eq (h : g'.elements = g.elements) :
    g'.CopyOf r x ↔ g.CopyOf r x := by
  simp only [copyOf_iff, isStatic_of_elements_eq h, instancePairs_of_elements_eq h]

theorem copyBetween_adds {p : Text × Text}
    (hp : ∀ x : Relationship, x.toLink = r.derive p.1 p.2 → kind x)
    (h : copyBetween r g p = .ok g') : Adds g kind (fun s d => (s, d) = p) g' := by
  rw [copyBetween] at h
  split at h
  next hc =>
    cases Except.ok.inj h
    exact .of_connects (connects_of_hasRelationship (Bool.and_eq_true_iff.mp hc).2)
  next => exact .of_addRelationship hp h

theorem copyAll_adds (h : g.copyAll r = .ok g') :
    Adds g (g.CopyOf r) (fun s d => g.isStatic r.source = true ∧
      g.isStatic r.destination = true ∧ (s, d) ∈ g.instancePairs r) g' := by
  rw [copyAll] at h
  split at h
  next hr =>
    rw [Bool.and_eq_true] at hr
    have hadds : Adds g (g.CopyOf r) (fun s d => ∃ p ∈ g.instancePairs r, (s, d) = p) g' := by
      refine Adds.of_foldlM (fun m p m' hp _ hm' => copyBetween_adds (fun x hx => ?_) hm') h
      obtain rfl : (x.source, x.destination) = p :=
        congrArg (fun l : Link => (l.source, l.destination)) hx
      exact ⟨hr, hp, hx⟩
    apply hadds.congr
    simp [hr]
  next hr =>
    cases Except.ok.inj h
    apply Adds.refl.congr
    intro s d
    simp only [false_iff, not_and]
    intro hs hd
    exact absurd (Bool.and_eq_true_iff.mpr ⟨hs, hd⟩) hr

/-- Copying adds copies between instances only, and connects just the instances of connected
definitions besides. -/
theorem withInstanceRelationships_adds (h : g.withInstanceRelationships = .ok g') :
    Adds g (fun x => ∃ r ∈ g.relationships, g.CopyOf r x) (fun s d => ∃ r ∈ g.relationships,
      g.isStatic r.source = true ∧ g.isStatic r.destination = true ∧
        (s, d) ∈ g.instancePairs r) g' := by
  refine Adds.of_foldlM (fun m r m' hr hm hm' => ?_) h
  apply ((copyAll_adds hm').mono fun x hx => ?_).congr
  · intro s d
    rw [isStatic_of_elements_eq hm, isStatic_of_elements_eq hm, instancePairs_of_elements_eq hm]
  · exact ⟨r, hr, (copyOf_of_elements_eq hm).mp hx⟩

end SystemAtlas.Model.Graph
