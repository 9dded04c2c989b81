import SystemAtlas.Proofs.Model.Implying
import SystemAtlas.Proofs.Model.Traffic

/-! # How often relationships are copied

Between two instances that traffic can reach, copying adds every parallel relationship between their
definitions. It adds the one that is not parallel, if there is any with the label, unless the label
connects the two already (`length_foldl_offer`). So the number of relationships with a label is
told by the relationships with this label alone (`exact_copies`), and copying again copies what is
parallel (`parallel_of_copied_again`). -/

namespace SystemAtlas.Model

namespace Link

variable {ls offered : List Link}

/-- A link has the given ends and label. -/
def hasKey (s d label : Text) (m : Link) : Bool :=
  (m.source == s && m.destination == d) && m.label == some label

theorem hasKey_iff {s d label : Text} {m : Link} :
    m.hasKey s d label = true ↔ m.source = s ∧ m.destination = d ∧ m.label = some label := by
  simp only [hasKey, Bool.and_eq_true, beq_iff_eq, and_assoc]

/-- Copies with one key are offered to links with this key. Those that are parallel are all taken,
and one that is not is taken if there is no link. As it stands in front of the others, nothing was
taken before. -/
theorem length_foldl_offer (hfirst : offered.Pairwise fun _ m => m.parallel = true)
    (hkey : ∀ l ∈ offered, ∀ m ∈ ls, l.parallel = false → l.repeats m = true) :
    (offered.foldl (offer Link.repeats) ls).length = ls.length + offered.countP (·.parallel) +
      if (∃ l ∈ offered, l.parallel = false) ∧ ls = [] then 1 else 0 := by
  cases offered with
  | nil => simp
  | cons l rest =>
    obtain ⟨hrest, -⟩ := List.pairwise_cons.mp hfirst
    have hfree : ∀ m ∈ rest, ∀ k, m.repeats k = false := by
      intro m hm k
      simp [repeats, hrest m hm]
    have hcount : rest.countP (·.parallel) = rest.length := List.countP_eq_length.mpr hrest
    rw [List.foldl_cons, foldl_offer_of_free hfree, List.length_append, List.countP_cons, hcount]
    have hnone : ¬∃ m ∈ rest, m.parallel = false := by
      rintro ⟨m, hm, hp⟩
      cases (hrest m hm).symm.trans hp
    simp only [List.mem_cons, exists_eq_or_imp, hnone, or_false]
    cases hp : l.parallel with
    | true =>
      have hany : ls.any l.repeats = false := by simp [repeats, hp]
      rw [offer, hany]
      simp only [Bool.false_eq_true, if_false, if_true, List.length_append,
        List.length_singleton, Bool.true_eq_false, false_and]
      omega
    | false =>
      cases ls with
      | nil =>
        simp only [offer, List.any_nil, Bool.false_eq_true, if_false, if_true, List.nil_append,
          List.length_singleton, List.length_nil, and_self]
        omega
      | cons m ls =>
        have hany : (m :: ls).any l.repeats = true := by
          rw [List.any_cons, hkey l List.mem_cons_self m List.mem_cons_self hp, Bool.true_or]
        rw [offer, if_pos hany]
        simp

end Link

namespace Graph

variable {g g' : Graph} {r x : Relationship} {s d : Element} {p q label : Text}
  {copied more : List Relationship}

/-- The relationships from one element to another with a label. -/
def labelled (g : Graph) (s d label : Text) : List Relationship :=
  g.relationships.filter (·.hasKey s d label)

/-- The relationships with a label from one definition to another, if both are static elements. -/
def originals (g : Graph) (p q label : Text) : List Relationship :=
  (g.labelled p q label).filter fun r => g.isStatic r.source && g.isStatic r.destination

theorem map_labelled {s d : Text} :
    (g.labelled s d label).map (·.toLink) = g.links.filter (·.hasKey s d label) := by
  rw [links, List.filter_map]
  rfl

/-- Of the relationships with one label between two elements, all but the first are parallel. -/
theorem Store.pairwise_labelled (hg : g.Store) (s d label : Text) :
    (g.labelled s d label).Pairwise fun _ r => r.parallel = true := by
  refine (hg.parallel.sublist List.filter_sublist).imp_of_mem ?_
  intro r q hr hq h
  obtain ⟨hrs, hrd, hrl⟩ := Link.hasKey_iff.mp (List.mem_filter.mp hr).2
  obtain ⟨hqs, hqd, hql⟩ := Link.hasKey_iff.mp (List.mem_filter.mp hq).2
  apply h
  simp [Link.sameKey, hrs, hrd, hrl, hqs, hqd, hql]

theorem nodup_instancePairs (hg : g.Forest) (r : Relationship) : (g.instancePairs r).Nodup := by
  have hids : ∀ id, ((g.instancesOf id).map (·.id)).Nodup :=
    fun id => hg.nodup.sublist (List.filter_sublist.map _)
  refine List.nodup_flatMap.mpr ⟨fun s _ => ?_, ?_⟩
  · have hnodup : (((g.instancesOf r.destination).filter (reaches s)).map (·.id)).Nodup :=
      (hids r.destination).sublist (List.filter_sublist.map _)
    have hpairs := hnodup.map (f := fun id => (s.id, id)) fun _ _ h => congrArg Prod.snd h
    rwa [List.map_map] at hpairs
  · refine (List.pairwise_map.mp (hids r.source)).imp fun hne => ?_
    intro pair hpair hpair'
    obtain ⟨d, -, rfl⟩ := List.mem_map.mp hpair
    obtain ⟨d', -, heq⟩ := List.mem_map.mp hpair'
    exact hne (congrArg Prod.fst heq).symm

/-! ## What is offered to two instances -/

section
variable (hg : g.Forest) (hs : s ∈ g.elements) (hd : d ∈ g.elements)
  (hp : s.definition? = some p) (hq : d.definition? = some q)
include hg hs hd hp hq

/-- A relationship offers a copy with a label to two instances, if it is between their definitions,
has this label, and traffic reaches from the one to the other. -/
theorem filter_copies : (g.copies r).filter (·.hasKey s.id d.id label) =
    if reaches s d && ((g.isStatic r.source && g.isStatic r.destination) && r.hasKey p q label)
      then [r.derive s.id d.id] else [] := by
  have hkey : ∀ x : Text × Text, (r.derive x.1 x.2).hasKey s.id d.id label =
      (x == (s.id, d.id) && r.label == some label) := fun _ => rfl
  have hpair := mem_instancePairs_of_mem (r := r) hg hs hd hp hq
  rw [copies]
  split
  · next hstatic =>
    rw [List.filter_map, Function.comp_def]
    simp only [hkey, hstatic, Bool.true_and]
    by_cases hl : r.label = some label
    · simp only [hl, beq_self_eq_true, Bool.and_true]
      rw [List.filter_beq, (nodup_instancePairs hg r).count]
      by_cases hr : r.source = p ∧ r.destination = q ∧ reaches s d = true
      · rw [if_pos (hpair.mpr hr), if_pos]
        · rfl
        · simp [Link.hasKey, hr, hl]
      · rw [if_neg (mt hpair.mp hr), if_neg]
        · rfl
        · intro h
          rw [Bool.and_eq_true, Link.hasKey_iff] at h
          exact hr ⟨h.2.1, h.2.2.1, h.1⟩
    · simp [Link.hasKey, hl]
  · next hstatic => simp [hstatic]

/-- What is offered to two instances with a label are copies of the relationships with this label
between their definitions, if traffic reaches from the one to the other. -/
theorem filter_offered : (g.relationships.flatMap g.copies).filter (·.hasKey s.id d.id label) =
    if reaches s d then (g.originals p q label).map (·.derive s.id d.id) else [] := by
  rw [List.filter_flatMap, originals, labelled, List.filter_filter]
  simp only [filter_copies hg hs hd hp hq]
  induction g.relationships with
  | nil => simp
  | cons r rs ih =>
    rw [List.flatMap_cons, ih]
    cases reaches s d with
    | false => simp
    | true => simp only [Bool.true_and, if_true, List.filter_cons]; split <;> rfl

end

/-! ## What is copied -/

/-- A relationship is a copy of another one. It names that, leads between instances of its ends
which traffic can reach, and says the same. -/
structure Copies (g : Graph) (r x : Relationship) : Prop where
  linked : x.linkedTo = some r.id ∧ g.getRelationship r.id = .ok r
  static : g.isStatic r.source = true ∧ g.isStatic r.destination = true
  ends : ∃ s ∈ g.elements, ∃ d ∈ g.elements, s.id = x.source ∧ d.id = x.destination ∧
    s.definition? = some r.source ∧ d.definition? = some r.destination ∧
    s.environment? = d.environment? ∧ ShareGroup s d
  repeated : x.Repeats r.toLink
  flags : x.parallel = r.parallel ∧ x.implied = r.implied

theorem copies_of_mem (hg : g.Numbered) (hr : r ∈ g.relationships) (hx : x.toLink ∈ g.copies r) :
    g.Copies r x := by
  obtain ⟨hstatic, p, hp, hlink⟩ := mem_copies_iff.mp hx
  obtain ⟨s, hs, d, hd, hreach, hsid, hdid⟩ := mem_instancePairs_iff.mp hp
  obtain ⟨hs, hsdef⟩ := mem_instancesOf_iff.mp hs
  obtain ⟨hd, hddef⟩ := mem_instancesOf_iff.mp hd
  obtain ⟨henvironment, hgroup⟩ := reaches_iff.mp hreach
  refine ⟨⟨congrArg Link.linkedTo hlink.symm, hg.getRelationship_eq_ok_iff.mpr ⟨hr, rfl⟩⟩, hstatic,
    ⟨s, hs, d, hd, hsid.trans (congrArg Link.source hlink),
      hdid.trans (congrArg Link.destination hlink), hsdef, hddef, henvironment, hgroup⟩, ?_, ?_⟩
  · rw [← hlink]
    exact repeats_derive r p.1 p.2 r.implied r.parallel
  · rw [← hlink]
    exact ⟨rfl, rfl⟩

section
variable (h : Takes Link.repeats g (g.relationships.flatMap g.copies) (g.appended copied))
include h

theorem copies_of_taken (hg : g.Store) (hx : x ∈ copied) :
    ∃ r ∈ g.relationships, g.Copies r x := by
  obtain ⟨r, hr, hx⟩ := List.mem_flatMap.mp (h.of_mem x hx).1
  exact ⟨r, hr, copies_of_mem hg.numbered hr hx⟩

/-- The number of relationships with a label between two instances, after copying. -/
theorem length_labelled (hg : g.Store) (hs : s ∈ g.elements) (hd : d ∈ g.elements)
    (hp : s.definition? = some p) (hq : d.definition? = some q) :
    ((g.appended copied).labelled s.id d.id label).length =
      if reaches s d then
        (g.labelled s.id d.id label).length + (g.originals p q label).countP (·.parallel) +
          if (∃ r ∈ g.originals p q label, r.parallel = false) ∧ g.labelled s.id d.id label = []
            then 1 else 0
      else (g.labelled s.id d.id label).length := by
  have hkey : ∀ l m : Link, l.hasKey s.id d.id label = true → l.repeats m = true →
      m.hasKey s.id d.id label = true := by
    intro l m hl hm
    rw [Link.hasKey_iff] at hl ⊢
    simp only [Link.repeats, Link.sameEnds, hl.2.2, Option.isNone_some, Bool.false_or,
      Bool.and_eq_true, beq_iff_eq] at hm
    exact ⟨hm.1.2.1.trans hl.1, hm.1.2.2.trans hl.2.1, hm.2⟩
  have hafter : ((g.appended copied).labelled s.id d.id label).map (·.toLink) =
      (if reaches s d then (g.originals p q label).map (·.derive s.id d.id) else []).foldl
        (Link.offer Link.repeats) ((g.labelled s.id d.id label).map (·.toLink)) := by
    rw [map_labelled, h.links, Link.filter_foldl_offer hkey, map_labelled,
      filter_offered hg.forest hs hd hp hq]
  rw [← List.length_map (·.toLink), hafter]
  split
  · have hfirst : ((g.originals p q label).map (·.derive s.id d.id)).Pairwise
        fun _ m => m.parallel = true :=
      List.pairwise_map.mpr ((hg.pairwise_labelled p q label).sublist List.filter_sublist)
    rw [Link.length_foldl_offer hfirst]
    · simp only [List.length_map, List.countP_map, List.mem_map, List.map_eq_nil_iff,
        exists_exists_and_eq_and]
      rfl
    · -- what is there has the ends and the label of what is offered
      intro l hl m hm hparallel
      obtain ⟨r, hr, rfl⟩ := List.mem_map.mp hl
      obtain ⟨x, hx, rfl⟩ := List.mem_map.mp hm
      obtain ⟨-, -, hrl⟩ := Link.hasKey_iff.mp (List.mem_filter.mp (List.mem_filter.mp hr).1).2
      obtain ⟨hxs, hxd, hxl⟩ := Link.hasKey_iff.mp (List.mem_filter.mp hx).2
      have hr : r.parallel = false := hparallel
      simp [Link.repeats, Link.sameEnds, Relationship.derive, hr, hrl, hxs, hxd, hxl]
  · rw [List.foldl_nil, List.length_map]

/-- What is copied when copying again is parallel. -/
theorem parallel_of_copied_again (hg : g.Grown) (hagain : Takes Link.repeats (g.appended copied)
      ((g.appended copied).relationships.flatMap (g.appended copied).copies)
      ((g.appended copied).appended more)) (hx : x ∈ more) :
    ∃ r ∈ (g.appended copied).relationships, (g.appended copied).Copies r x ∧
      r.parallel = true := by
  obtain ⟨hoffered, hnone⟩ := hagain.of_mem x hx
  obtain ⟨r, hr, hxr⟩ := List.mem_flatMap.mp hoffered
  have hcopy := copies_of_mem (h.grown hg).store.numbered hr hxr
  refine ⟨r, hr, hcopy, ?_⟩
  -- copies lead between instances, so what is copied was there before
  have hold : r ∈ g.relationships := by
    rcases List.mem_append.mp hr with hr | hr
    · exact hr
    · obtain ⟨q, -, hq⟩ := copies_of_taken h hg.store hr
      obtain ⟨s, hs, -, -, hid, -, hdef, -⟩ := hq.ends
      have hstatic : g.isStatic r.source = true :=
        (isStatic_of_elements_eq h.elements_eq r.source).symm.trans hcopy.static.1
      rw [← hid, isStatic_eq_false_of_definition hg.store.forest hs (by rw [hdef]; rfl)] at hstatic
      cases hstatic
  by_contra hparallel
  have hself : x.toLink.repeats x.toLink = true := by
    have hxp : x.parallel = false := hcopy.flags.1.trans (eq_false_of_ne_true hparallel)
    simp [Link.repeats, Link.sameEnds, hxp]
  rw [copies_of_elements_eq h.elements_eq] at hxr
  rw [h.links, Link.any_foldl_offer hself (List.mem_flatMap.mpr ⟨r, hold, hxr⟩)] at hnone
  cases hnone

end

/-- Copying never fails and leaves the relationships of a graph in front of those it adds. Two
instances that are in one environment and share a deployment group, or of which one is in none, are
connected besides by each parallel relationship with a label between their definitions, and by the
one that is not parallel, if nothing with the label connected them. Between other instances nothing
is added. Whatever is added is a copy, and copying again copies only what is parallel. -/
theorem exact_copies (hg : g.Grown) (hf : g.frozen = false) :
    ∃ copied, g.withInstanceRelationships = .ok (g.appended copied) ∧
      (∀ s ∈ g.elements, ∀ d ∈ g.elements, ∀ p q, s.definition? = some p →
        d.definition? = some q → ∀ label,
          (s.environment? = d.environment? ∧ ShareGroup s d →
            ((g.appended copied).labelled s.id d.id label).length =
              (g.labelled s.id d.id label).length + (g.originals p q label).countP (·.parallel) +
                if (∃ r ∈ g.originals p q label, r.parallel = false) ∧
                  g.labelled s.id d.id label = [] then 1 else 0) ∧
          (¬(s.environment? = d.environment? ∧ ShareGroup s d) →
            ((g.appended copied).labelled s.id d.id label).length =
              (g.labelled s.id d.id label).length)) ∧
      (∀ x ∈ copied, ∃ r ∈ g.relationships, g.Copies r x) ∧
      ∃ more, (g.appended copied).withInstanceRelationships =
          .ok ((g.appended copied).appended more) ∧
        ∀ x ∈ more, ∃ r ∈ (g.appended copied).relationships, (g.appended copied).Copies r x ∧
          r.parallel = true := by
  obtain ⟨g', hg', htakes⟩ := exists_withInstanceRelationships hf
  obtain ⟨copied, rfl⟩ := htakes.grows
  obtain ⟨g'', hg'', hagain⟩ :=
    exists_withInstanceRelationships (g := g.appended copied) (htakes.frozen_eq.trans hf)
  obtain ⟨more, rfl⟩ := hagain.grows
  refine ⟨copied, hg', fun s hs d hd p q hp hq label => ?_, fun x hx => ?_, more, hg'',
    fun x hx => parallel_of_copied_again htakes hg hagain hx⟩
  · rw [length_labelled htakes hg.store hs hd hp hq, ← reaches_iff]
    exact ⟨fun hreach => if_pos hreach, fun hreach => if_neg hreach⟩
  · exact copies_of_taken htakes hg.store hx

end Graph

/-- The shop with two more relationships between its containers, the second of them parallel. -/
def busyShop : List Declaration.ModelMember :=
  let reading (parallel : Bool) : Declaration.Relationship :=
    { source := "shop.web", destination := "shop.books", label := "reads", parallel }
  shop ++ [.relationship (reading false), .relationship (reading true)]

/-- The declared part of the busy shop. -/
def busyLinked : Assembly := (linked .flat busyShop).toOption.getD default

/-- The instances of the busy shop are connected twice. -/
theorem busy_exact_copies : busyLinked.graph.Grown ∧ busyLinked.graph.frozen = false ∧
    ∃ copied, busyLinked.graph.withInstanceRelationships =
        .ok (busyLinked.graph.appended copied) ∧
      ((busyLinked.graph.appended copied).labelled "web1" "books1" "reads").length = 2 ∧
      ∃ more, (busyLinked.graph.appended copied).withInstanceRelationships =
          .ok ((busyLinked.graph.appended copied).appended more) ∧
        ∀ x ∈ more, ∃ r ∈ (busyLinked.graph.appended copied).relationships,
          (busyLinked.graph.appended copied).Copies r x ∧ r.parallel = true := by
  have h : linked .flat busyShop = .ok busyLinked := by rfl
  have hg := grown_of_linked h
  have hf : busyLinked.graph.frozen = false := by rfl
  obtain ⟨copied, hcopied, hcounts, -, hagain⟩ := Graph.exact_copies hg hf
  have hweb : shopElement "web1" ∈ busyLinked.graph.elements := by decide +kernel
  have hbooks : shopElement "books1" ∈ busyLinked.graph.elements := by decide +kernel
  have hdefinitions : (shopElement "web1").definition? = some "web" ∧
      (shopElement "books1").definition? = some "books" := by decide +kernel
  have hreach : Graph.reaches (shopElement "web1") (shopElement "books1") = true := by
    decide +kernel
  have hcount := (hcounts _ hweb _ hbooks _ _ hdefinitions.1 hdefinitions.2 "reads").1
    (reaches_iff.mp hreach)
  exact ⟨hg, hf, copied, hcopied, hcount.trans (by decide +kernel), hagain⟩

end SystemAtlas.Model
