import SystemAtlas.Proofs.Model.Derived
import SystemAtlas.Proofs.Model.Store

/-! # Links that are offered

The passes that derive relationships offer links to a graph one after the other, and the graph takes
a link unless one that it has blocks it. What becomes of the links with the same ends, or with the
same ends and label, is told by these alone (`filter_foldl_offer`). A link that blocks itself is
blocked once it was offered (`any_foldl_offer`), so offering it again adds nothing. -/

namespace SystemAtlas.Model

namespace Link

variable {blocks : Link → Link → Bool} {p : Link → Bool} {l : Link} {ls offered : List Link}

/-- The links with one more, unless one of them blocks it. -/
def offer (blocks : Link → Link → Bool) (ls : List Link) (l : Link) : List Link :=
  if ls.any (blocks l) then ls else ls ++ [l]

/-- If links that `p` selects are blocked by such links only, these take no notice of others. -/
theorem filter_foldl_offer (h : ∀ l m, p l = true → blocks l m = true → p m = true) :
    (offered.foldl (offer blocks) ls).filter p =
      (offered.filter p).foldl (offer blocks) (ls.filter p) := by
  induction offered generalizing ls with
  | nil => rfl
  | cons l offered ih =>
    rw [List.foldl_cons, ih]
    by_cases hp : p l = true
    · have hany : (ls.filter p).any (blocks l) = ls.any (blocks l) := by
        rw [List.any_filter]
        apply List.any_congr rfl
        intro m
        cases hm : blocks l m with
        | false => exact Bool.and_false _
        | true => rw [h l m hp hm, Bool.and_self]
      rw [List.filter_cons_of_pos hp, List.foldl_cons, offer, offer, hany]
      split
      · rfl
      · rw [List.filter_append, List.filter_cons_of_pos hp, List.filter_nil]
    · rw [List.filter_cons_of_neg hp, offer]
      split
      · rfl
      · rw [List.filter_append, List.filter_cons_of_neg hp, List.filter_nil, List.append_nil]

/-- Links that are taken stand behind the others, and none of these blocked them. -/
theorem exists_foldl_offer (blocks : Link → Link → Bool) (ls offered : List Link) :
    ∃ taken, offered.foldl (offer blocks) ls = ls ++ taken ∧
      ∀ l ∈ taken, l ∈ offered ∧ ls.any (blocks l) = false := by
  induction offered generalizing ls with
  | nil => exact ⟨[], (List.append_nil ls).symm, List.forall_mem_nil _⟩
  | cons l offered ih =>
    obtain ⟨taken, heq, htaken⟩ := ih (offer blocks ls l)
    rw [List.foldl_cons, heq]
    rw [offer] at htaken ⊢
    split at htaken
    · next hany =>
      refine ⟨taken, by rw [if_pos hany], fun m hm => ?_⟩
      exact ⟨List.mem_cons_of_mem l (htaken m hm).1, (htaken m hm).2⟩
    · next hany =>
      refine ⟨l :: taken, by rw [if_neg hany, List.append_assoc, List.singleton_append],
        List.forall_mem_cons.mpr
          ⟨⟨List.mem_cons_self, eq_false_of_ne_true hany⟩, fun m hm => ?_⟩⟩
      have hnone := (htaken m hm).2
      rw [List.any_append, Bool.or_eq_false_iff] at hnone
      exact ⟨List.mem_cons_of_mem l (htaken m hm).1, hnone.1⟩

/-- After it was offered, a link that blocks itself is blocked. -/
theorem any_foldl_offer (hself : blocks l l = true) (hl : l ∈ offered) :
    (offered.foldl (offer blocks) ls).any (blocks l) = true := by
  induction offered generalizing ls with
  | nil => cases hl
  | cons m offered ih =>
    rw [List.foldl_cons]
    rcases List.mem_cons.mp hl with rfl | hl
    · obtain ⟨taken, heq, -⟩ := exists_foldl_offer blocks (offer blocks ls l) offered
      rw [heq, List.any_append, offer]
      split
      · next hany => rw [hany, Bool.true_or]
      · rw [List.any_append, List.any_cons, hself, Bool.true_or, Bool.or_true, Bool.true_or]
    · exact ih hl

theorem foldl_offer_of_blocked (h : ∀ l ∈ offered, ls.any (blocks l) = true) :
    offered.foldl (offer blocks) ls = ls := by
  induction offered with
  | nil => rfl
  | cons l offered ih =>
    obtain ⟨hl, hoffered⟩ := List.forall_mem_cons.mp h
    rw [List.foldl_cons, offer, if_pos hl, ih hoffered]

theorem foldl_offer_of_free (h : ∀ l ∈ offered, ∀ m, blocks l m = false) :
    offered.foldl (offer blocks) ls = ls ++ offered := by
  induction offered generalizing ls with
  | nil => exact (List.append_nil ls).symm
  | cons l offered ih =>
    obtain ⟨hl, hoffered⟩ := List.forall_mem_cons.mp h
    have hany : ls.any (blocks l) = false := by simp [hl]
    rw [List.foldl_cons, offer, hany, if_neg Bool.false_ne_true, ih hoffered, List.append_assoc,
      List.singleton_append]

/-- Two links have the same ends. -/
def sameEnds (l m : Link) : Bool := m.source == l.source && m.destination == l.destination

/-- A link that is not parallel repeats another one with the same ends. It has the same label, or
none. -/
def repeats (l m : Link) : Bool :=
  !l.parallel && l.sameEnds m && (l.label.isNone || m.label == l.label)

end Link

/-- The link that a relationship implies between two elements. -/
def Relationship.implication (r : Relationship) (p : Text × Text) : Link :=
  { r.derive p.1 p.2 with implied := true, parallel := false }

namespace Graph

variable {blocks : Link → Link → Bool} {g g' m : Graph} {l : Link} {offered more : List Link}
  {r : Relationship} {p : Text × Text} {s d : Text}

/-- The relationships of a graph without their ids. -/
def links (g : Graph) : List Link := g.relationships.map (·.toLink)

theorem links_appended (rs : List Relationship) :
    (g.appended rs).links = g.links ++ rs.map (·.toLink) := List.map_append

theorem connects_eq_any : g.connects l.source l.destination = g.links.any l.sameEnds := by
  rw [links, List.any_map]
  rfl

theorem repeats_eq_any : (!l.parallel && g.hasRelationship l.source l.destination l.label) =
    g.links.any l.repeats := by
  rw [links, List.any_map]
  cases hp : l.parallel with
  | true => simp [Link.repeats, hp, Function.comp_def]
  | false =>
    cases hl : l.label with
    | none =>
      simp [hasRelationship, connects, Link.repeats, Link.sameEnds, hp, hl, Function.comp_def]
    | some label =>
      simp [hasRelationship, connectsAs, Link.repeats, Link.sameEnds, hp, hl, Function.comp_def]

/-- The relationships from one element to another. -/
def fromTo (g : Graph) (s d : Text) : List Relationship :=
  g.relationships.filter fun r => r.source == s && r.destination == d

theorem map_fromTo : (g.fromTo s d).map (·.toLink) =
    g.links.filter fun m => m.source == s && m.destination == d := by
  rw [links, List.filter_map]
  rfl

theorem connects_iff_fromTo : g.connects s d = true ↔ g.fromTo s d ≠ [] := by
  rw [connects, fromTo, ne_eq, List.filter_eq_nil_iff]
  simp only [List.any_eq_true, not_forall, not_not, exists_prop]

/-! ## Graphs that take what is offered -/

/-- A graph `g'` is `g` after links were offered to it. -/
structure Takes (blocks : Link → Link → Bool) (g : Graph) (offered : List Link) (g' : Graph) :
    Prop where
  grows : ∃ rs, g' = g.appended rs
  links : g'.links = offered.foldl (Link.offer blocks) g.links
  grown : g.Grown → g'.Grown

namespace Takes

theorem refl : Takes blocks g [] g := ⟨⟨[], appended_nil.symm⟩, rfl, fun h => h⟩

theorem trans (h : Takes blocks g offered m) (h' : Takes blocks m more g') :
    Takes blocks g (offered ++ more) g' := by
  obtain ⟨rs, rfl⟩ := h.grows
  obtain ⟨rs', rfl⟩ := h'.grows
  refine ⟨⟨rs ++ rs', appended_appended⟩, ?_, fun hg => h'.grown (h.grown hg)⟩
  rw [List.foldl_append, ← h.links, h'.links]

theorem elements_eq (h : Takes blocks g offered g') : g'.elements = g.elements := by
  obtain ⟨rs, rfl⟩ := h.grows
  rfl

theorem frozen_eq (h : Takes blocks g offered g') : g'.frozen = g.frozen := by
  obtain ⟨rs, rfl⟩ := h.grows
  rfl

/-- A relationship that was taken had been offered, and nothing that was there blocked it. -/
theorem of_mem {rs : List Relationship} (h : Takes blocks g offered (g.appended rs)) :
    ∀ x ∈ rs, x.toLink ∈ offered ∧ g.links.any (blocks x.toLink) = false := by
  obtain ⟨taken, heq, htaken⟩ := Link.exists_foldl_offer blocks g.links offered
  have hlinks := h.links
  rw [heq, links_appended, List.append_cancel_left_eq] at hlinks
  intro x hx
  exact htaken x.toLink (hlinks ▸ List.mem_map_of_mem hx)

/-- A graph takes nothing if everything offered is blocked. -/
theorem eq_of_blocked (h : Takes blocks g offered g')
    (hblocked : ∀ l ∈ offered, g.links.any (blocks l) = true) : g' = g := by
  obtain ⟨rs, rfl⟩ := h.grows
  have hlinks := h.links
  rw [Link.foldl_offer_of_blocked hblocked, links_appended, List.append_right_eq_self,
    List.map_eq_nil_iff] at hlinks
  rw [hlinks, appended_nil]

/-- A link that is offered is taken or blocked, if the graph has its ends and it is blocked by those
that keep it from being added. -/
theorem exists_offer (hblocks : ∀ m : Link, m.source = l.source → m.destination = l.destination →
      m.label = l.label → l.parallel = true ∨ blocks l m = true)
    (hf : g.frozen = false) (hs : g.contains l.source = true)
    (hd : g.contains l.destination = true) :
    ∃ g', (if g.links.any (blocks l) then .ok g else g.addRelationship l) = .ok g' ∧
      Takes blocks g [l] g' := by
  split
  · next hany =>
    refine ⟨g, rfl, ⟨[], appended_nil.symm⟩, ?_, fun hg => hg⟩
    rw [List.foldl_cons, Link.offer, if_pos hany, List.foldl_nil]
  · next hany =>
    have hkey : l.parallel = true ∨ g.connectsAs l.source l.destination l.label = false := by
      rw [connectsAs_eq_false_iff, or_iff_not_imp_left]
      rintro hp r hr ⟨hrs, hrd, hrl⟩
      apply hany
      apply List.any_eq_true.mpr
      exact ⟨r.toLink, List.mem_map_of_mem hr, (hblocks r.toLink hrs hrd hrl).resolve_left hp⟩
    have hadd := addRelationship_eq_ok_iff.mpr ⟨hf, hs, hd, hkey, rfl⟩
    refine ⟨_, hadd, ⟨_, rfl⟩, ?_, fun hg => hg.relationship hadd⟩
    rw [links_appended, List.foldl_cons, Link.offer, if_neg hany]
    rfl

/-- A run of steps offers what its steps offer. -/
theorem exists_foldlM {α : Type} {step : Graph → α → Except Failure Graph}
    {offers : α → List Link} {xs : List α} (hf : g.frozen = false)
    (hstep : ∀ m : Graph, ∀ x ∈ xs, m.frozen = false → m.elements = g.elements →
      ∃ m', step m x = .ok m' ∧ Takes blocks m (offers x) m') :
    ∃ g', xs.foldlM step g = .ok g' ∧ Takes blocks g (xs.flatMap offers) g' := by
  have hrun : ∀ m : Graph, m.frozen = false → m.elements = g.elements →
      ∃ g', xs.foldlM step m = .ok g' ∧ Takes blocks m (xs.flatMap offers) g' := by
    induction xs with
    | nil => exact fun m _ _ => ⟨m, rfl, refl⟩
    | cons x xs ih =>
      intro m hmf hm
      obtain ⟨m', hm', hfirst⟩ := hstep m x List.mem_cons_self hmf hm
      obtain ⟨g', hg', hrest⟩ := ih (fun m y hy => hstep m y (List.mem_cons_of_mem x hy)) m'
        (hfirst.frozen_eq.trans hmf) (hfirst.elements_eq.trans hm)
      exact ⟨g', foldlM_cons_eq_ok_iff.mpr ⟨m', hm', hg'⟩, hfirst.trans hrest⟩
  exact hrun g hf rfl

end Takes

/-! ## What the passes offer -/

/-- The links that a relationship implies. -/
def implications (g : Graph) (r : Relationship) : List Link :=
  if g.isImplying r then (g.impliedPairs r).map r.implication else []

/-- The copies of a relationship between static elements. -/
def copies (g : Graph) (r : Relationship) : List Link :=
  if g.isStatic r.source && g.isStatic r.destination then
    (g.instancePairs r).map fun p => r.derive p.1 p.2
  else []

theorem implications_of_elements_eq (h : g'.elements = g.elements) (r : Relationship) :
    g'.implications r = g.implications r := by
  simp only [implications, isImplying_of_elements_eq h, impliedPairs_of_elements_eq h]

theorem copies_of_elements_eq (h : g'.elements = g.elements) (r : Relationship) :
    g'.copies r = g.copies r := by
  simp only [copies, isStatic_of_elements_eq h, instancePairs_of_elements_eq h]

theorem mem_implications_iff : l ∈ g.implications r ↔
    g.isImplying r = true ∧ ∃ p ∈ g.impliedPairs r, r.implication p = l := by
  rw [implications]
  split <;> simp_all

theorem mem_copies_iff : l ∈ g.copies r ↔
    (g.isStatic r.source = true ∧ g.isStatic r.destination = true) ∧
      ∃ p ∈ g.instancePairs r, r.derive p.1 p.2 = l := by
  rw [copies, ← Bool.and_eq_true]
  split <;> simp_all

theorem contains_of_mem_lineage (hg : g.Forest) (hd : g.contains d = true)
    (h : s ∈ g.lineage d) : g.contains s = true := by
  rw [mem_lineage_iff hg] at h
  induction h with
  | root => exact hd
  | child he hp _ ih =>
    obtain ⟨q, hq, rfl⟩ := hg.parent_mem he hp
    exact ih (contains_of_mem hq)

theorem contains_of_mem_impliedPairs (hg : g.Store) (hr : r ∈ g.relationships)
    (hp : p ∈ g.impliedPairs r) : g.contains p.1 = true ∧ g.contains p.2 = true := by
  obtain ⟨hs, hd, -⟩ := (mem_impliedPairs_iff hg.forest).mp hp
  obtain ⟨hsource, hdestination⟩ := hg.ends r hr
  exact ⟨contains_of_mem_lineage hg.forest hsource ((mem_lineage_iff hg.forest).mpr hs),
    contains_of_mem_lineage hg.forest hdestination ((mem_lineage_iff hg.forest).mpr hd)⟩

theorem contains_of_mem_instancePairs (hp : p ∈ g.instancePairs r) :
    g.contains p.1 = true ∧ g.contains p.2 = true := by
  obtain ⟨e, he, e', he', -, hs, hd⟩ := mem_instancePairs_iff.mp hp
  exact ⟨hs ▸ contains_of_mem (mem_instancesOf_iff.mp he).1,
    hd ▸ contains_of_mem (mem_instancesOf_iff.mp he').1⟩

theorem exists_imply (hf : g.frozen = false)
    (hp : g.contains p.1 = true ∧ g.contains p.2 = true) :
    ∃ g', imply r g p = .ok g' ∧ Takes Link.sameEnds g [r.implication p] g' := by
  have hany : g.connects p.1 p.2 = g.links.any (r.implication p).sameEnds :=
    connects_eq_any (l := r.implication p)
  rw [imply, hany]
  apply Takes.exists_offer _ hf hp.1 hp.2
  intro m hs hd _
  simp [Link.sameEnds, hs, hd]

theorem exists_copyBetween (hf : g.frozen = false)
    (hp : g.contains p.1 = true ∧ g.contains p.2 = true) :
    ∃ g', copyBetween r g p = .ok g' ∧ Takes Link.repeats g [r.derive p.1 p.2] g' := by
  have hany : (!r.parallel && g.hasRelationship p.1 p.2 r.label) =
      g.links.any (r.derive p.1 p.2).repeats := repeats_eq_any (l := r.derive p.1 p.2)
  rw [copyBetween, hany]
  apply Takes.exists_offer _ hf hp.1 hp.2
  intro m hs hd hl
  cases hparallel : (r.derive p.1 p.2).parallel with
  | true => exact .inl rfl
  | false => simp [Link.repeats, Link.sameEnds, hs, hd, hl, hparallel]

/-- Implying offers what the relationships imply, in their order. -/
theorem exists_withImplied (hg : g.Store) (hf : g.frozen = false) : ∃ g', g.withImplied = .ok g' ∧
    Takes Link.sameEnds g (g.relationships.flatMap g.implications) g' := by
  refine Takes.exists_foldlM hf fun m r hr hmf hm => ?_
  rw [implyAll, ← implications_of_elements_eq hm, implications]
  split
  · rw [← List.flatMap_pure_eq_map]
    refine Takes.exists_foldlM hmf fun m' p hp hmf' hm' => exists_imply hmf' ?_
    rw [impliedPairs_of_elements_eq hm] at hp
    have hends := contains_of_mem_impliedPairs hg hr hp
    have hsub : g.elements ⊆ m'.elements := hm' ▸ hm ▸ List.Subset.refl _
    exact ⟨contains_mono hsub hends.1, contains_mono hsub hends.2⟩
  · exact ⟨m, rfl, .refl⟩

/-- Copying offers the copies of the relationships, in their order. -/
theorem exists_withInstanceRelationships (hf : g.frozen = false) :
    ∃ g', g.withInstanceRelationships = .ok g' ∧
      Takes Link.repeats g (g.relationships.flatMap g.copies) g' := by
  refine Takes.exists_foldlM hf fun m r hr hmf hm => ?_
  rw [copyAll, ← copies_of_elements_eq hm, copies]
  split
  · rw [← List.flatMap_pure_eq_map]
    refine Takes.exists_foldlM hmf fun m' p hp hmf' hm' => exists_copyBetween hmf' ?_
    have hends := contains_of_mem_instancePairs hp
    have hsub : m.elements ⊆ m'.elements := hm' ▸ List.Subset.refl _
    exact ⟨contains_mono hsub hends.1, contains_mono hsub hends.2⟩
  · exact ⟨m, rfl, .refl⟩

end Graph

end SystemAtlas.Model
