import SystemAtlas.Proofs.Model.Beginning
import SystemAtlas.Proofs.Model.Offering
import SystemAtlas.Proofs.Model.Origin

/-! # The upward closure

Implying connects the pairs that some relationship implies, and no others. Between two elements that
it connects it puts one relationship, which says what the first relationship that implies it says
(`exists_first_of_new`). What it has connected is connected, so implying again adds nothing
(`upward_closure`). -/

namespace SystemAtlas.Model

namespace Graph

variable {g g' : Graph} {r x : Relationship} {s d : Text} {implied : List Relationship}

/-- A relationship that is not implied, between static elements, implies one between two elements.
These are the same as its ends or above them, and none is the other or above it. -/
structure Implies (g : Graph) (r : Relationship) (s d : Text) : Prop where
  declared : r.implied = false
  static : g.isStatic r.source = true ∧ g.isStatic r.destination = true
  lineage : s ∈ g.lineage r.source ∧ d ∈ g.lineage r.destination
  ne : s ≠ d
  apart : g.isAncestor s d = false ∧ g.isAncestor d s = false

/-- The first of the relationships that imply one between two elements. -/
structure FirstImplies (g : Graph) (r : Relationship) (s d : Text) : Prop where
  implies : g.Implies r s d
  first : ∃ before after, g.relationships = before ++ r :: after ∧ ∀ q ∈ before, ¬g.Implies q s d

/-- The ends of a relationship apart, what it implies are its implied pairs. -/
theorem mem_impliedPairs_iff_implies (hne : (s, d) ≠ (r.source, r.destination)) :
    g.isImplying r = true ∧ (s, d) ∈ g.impliedPairs r ↔ g.Implies r s d := by
  simp only [isImplying, impliedPairs, mayImply, List.mem_filter, List.mem_flatMap, List.mem_map,
    Prod.mk.injEq, Bool.and_eq_true, Bool.not_eq_true', bne_iff_ne]
  constructor
  · rintro ⟨⟨⟨hi, hsource⟩, hdestination⟩, ⟨s', hs, d', hd, rfl, rfl⟩, -, ⟨hsd, hup⟩, hdown⟩
    exact ⟨hi, ⟨hsource, hdestination⟩, ⟨hs, hd⟩, hsd, hup, hdown⟩
  · rintro ⟨hi, ⟨hsource, hdestination⟩, ⟨hs, hd⟩, hsd, hup, hdown⟩
    exact ⟨⟨⟨hi, hsource⟩, hdestination⟩, ⟨s, hs, d, hd, rfl, rfl⟩, hne, ⟨hsd, hup⟩, hdown⟩

theorem ne_ends_of_new (hr : r ∈ g.relationships) (h : g.connects s d = false) :
    (s, d) ≠ (r.source, r.destination) := by
  rintro heq
  cases heq
  rw [connects_iff.mpr ⟨r, hr, rfl, rfl⟩] at h
  cases h

/-- Of two elements that nothing connects, a relationship offers a link between them if it implies
one. -/
theorem mem_implications_iff_implies (hr : r ∈ g.relationships) (h : g.connects s d = false) :
    r.implication (s, d) ∈ g.implications r ↔ g.Implies r s d := by
  rw [← mem_impliedPairs_iff_implies (ne_ends_of_new hr h), mem_implications_iff]
  refine and_congr_right fun _ => ⟨?_, fun hp => ⟨(s, d), hp, rfl⟩⟩
  rintro ⟨p, hp, heq⟩
  obtain rfl : p = (s, d) := congrArg (fun l : Link => (l.source, l.destination)) heq
  exact hp

/-- The first link between two elements that is offered comes from the first relationship that
implies it. -/
theorem first_of_find? {l : Link} (hnew : g.connects s d = false)
    (h : (g.relationships.flatMap g.implications).find?
      (fun m => m.source == s && m.destination == d) = some l) :
    ∃ r, g.FirstImplies r s d ∧ l = r.implication (s, d) := by
  rw [List.find?_flatMap, List.findSome?_eq_some_iff] at h
  obtain ⟨before, r, after, hsplit, hr, hbefore⟩ := h
  have hmem : r ∈ g.relationships := hsplit ▸ List.mem_append_right _ List.mem_cons_self
  obtain ⟨p, hp, rfl⟩ := (mem_implications_iff.mp (List.mem_of_find?_eq_some hr)).2
  have hends : p = (s, d) := by
    have hfound := List.find?_some hr
    simp only [Bool.and_eq_true, beq_iff_eq] at hfound
    exact Prod.ext hfound.1 hfound.2
  subst hends
  have himplies := (mem_implications_iff_implies hmem hnew).mp (List.mem_of_find?_eq_some hr)
  refine ⟨r, ⟨himplies, before, after, hsplit, fun q hq hqi => ?_⟩, rfl⟩
  -- an earlier one would have been found
  have hqmem : q ∈ g.relationships := hsplit ▸ List.mem_append_left _ hq
  have hnone := List.find?_eq_none.mp (hbefore q hq) _
    ((mem_implications_iff_implies hqmem hnew).mpr hqi)
  simp [Relationship.implication, Relationship.derive] at hnone

section
variable (h : Takes Link.sameEnds g (g.relationships.flatMap g.implications) (g.appended implied))
include h

/-- Between two elements that become connected stands one relationship, made of the first one that
implies it. -/
theorem exists_first_of_new (hnew : g.connects s d = false)
    (hc : (g.appended implied).connects s d = true) :
    ∃ r x, g.FirstImplies r s d ∧ (g.appended implied).fromTo s d = [x] ∧
      x.toLink = r.implication (s, d) := by
  let ends : Link → Bool := fun m => m.source == s && m.destination == d
  have hends : ∀ l m : Link, ends l = true → l.sameEnds m = true → ends m = true := by
    intro l m hl hm
    simp only [ends, Link.sameEnds, Bool.and_eq_true, beq_iff_eq] at hl hm ⊢
    exact ⟨hm.1.trans hl.1, hm.2.trans hl.2⟩
  have hbefore : g.links.filter ends = [] := by
    have hnone : g.fromTo s d = [] := by
      by_contra hne
      rw [connects_iff_fromTo.mpr hne] at hnew
      cases hnew
    rw [← map_fromTo, hnone, List.map_nil]
  have hafter : ((g.appended implied).fromTo s d).map (·.toLink) =
      ((g.relationships.flatMap g.implications).filter ends).foldl
        (Link.offer Link.sameEnds) [] := by
    rw [map_fromTo, h.links, Link.filter_foldl_offer hends, hbefore]
  cases hoffered : (g.relationships.flatMap g.implications).filter ends with
  | nil =>
    rw [hoffered, List.foldl_nil, List.map_eq_nil_iff] at hafter
    exact absurd hafter (connects_iff_fromTo.mp hc)
  | cons l rest =>
    -- the first link blocks the rest
    have hblocked : ∀ m ∈ rest, [l].any m.sameEnds = true := by
      intro m hm
      have hall : ∀ k ∈ l :: rest, ends k = true := by
        intro k hk
        exact (List.mem_filter.mp (hoffered ▸ hk)).2
      have hl := hall l List.mem_cons_self
      have hm := hall m (List.mem_cons_of_mem l hm)
      simp only [ends, Bool.and_eq_true, beq_iff_eq] at hl hm
      simp [Link.sameEnds, hl, hm]
    have hone : Link.offer Link.sameEnds [] l = [l] := rfl
    rw [hoffered, List.foldl_cons, hone, Link.foldl_offer_of_blocked hblocked,
      List.map_eq_singleton_iff] at hafter
    obtain ⟨x, hx, hxl⟩ := hafter
    have hfind : (g.relationships.flatMap g.implications).find? ends = some l := by
      rw [← List.head?_filter, hoffered, List.head?_cons]
    obtain ⟨r, hr, rfl⟩ := first_of_find? hnew hfind
    exact ⟨r, x, hr, hx, hxl⟩

/-- Implying again adds nothing. -/
theorem withImplied_of_taken (hg : g.Grown) (hf : g.frozen = false) :
    (g.appended implied).withImplied = .ok (g.appended implied) := by
  obtain ⟨g', hg', htakes⟩ := exists_withImplied (h.grown hg).store (h.frozen_eq.trans hf)
  rw [hg', htakes.eq_of_blocked ?_]
  intro l hl
  obtain ⟨r, hr, hl⟩ := List.mem_flatMap.mp hl
  have hdeclared : r.implied = false := by
    have himplying := (mem_implications_iff.mp hl).1
    simp only [isImplying, Bool.and_eq_true, Bool.not_eq_true'] at himplying
    exact himplying.1.1
  -- what implies was there before, and all that it implies was offered
  have hold : r ∈ g.relationships := by
    rcases List.mem_append.mp hr with hr | hr
    · exact hr
    · obtain ⟨q, -, hq⟩ := List.mem_flatMap.mp (h.of_mem r hr).1
      obtain ⟨-, p, -, heq⟩ := mem_implications_iff.mp hq
      have himplied : r.implied = true := (congrArg Link.implied heq).symm
      cases himplied.symm.trans hdeclared
  rw [implications_of_elements_eq h.elements_eq] at hl
  rw [h.links]
  apply Link.any_foldl_offer
  · simp [Link.sameEnds]
  · exact List.mem_flatMap.mpr ⟨r, hold, hl⟩

end

/-- Implying never fails and leaves the relationships of a graph in front of those it adds. These
connect no pairs that were connected, and the pairs connected with them are those that some
relationship implies. Each new pair gets one relationship, which is implied and not parallel, is
derived from the first relationship that implies it, and says the same. Implying again adds
nothing. -/
theorem upward_closure (hg : g.Grown) (hf : g.frozen = false) :
    ∃ implied, g.withImplied = .ok (g.appended implied) ∧
      (∀ x ∈ implied, g.connects x.source x.destination = false) ∧
      (∀ s d, (g.appended implied).connects s d = true ↔
        g.connects s d = true ∨ ∃ r ∈ g.relationships, g.Implies r s d) ∧
      (∀ s d, g.connects s d = false → (g.appended implied).connects s d = true →
        ∃ r x, g.FirstImplies r s d ∧ (g.appended implied).fromTo s d = [x] ∧
          x.implied = true ∧ x.parallel = false ∧ x.Repeats r.toLink ∧ x.linkedTo = some r.id) ∧
      (g.appended implied).withImplied = .ok (g.appended implied) := by
  obtain ⟨g', hg', htakes⟩ := exists_withImplied hg.store hf
  obtain ⟨implied, rfl⟩ := htakes.grows
  refine ⟨implied, hg', fun x hx => ?_, fun s d => ?_, fun s d hnew hc => ?_,
    withImplied_of_taken htakes hg hf⟩
  · exact (connects_eq_any (l := x.toLink)).trans (htakes.of_mem x hx).2
  · rw [(withImplied_adds hg').connects]
    cases hc : g.connects s d with
    | true => simp only [true_or]
    | false =>
      simp only [Bool.false_eq_true, false_or]
      refine exists_congr fun r => and_congr_right fun hr => ?_
      exact mem_impliedPairs_iff_implies (ne_ends_of_new hr hc)
  · obtain ⟨r, x, hr, hx, hlink⟩ := exists_first_of_new htakes hnew hc
    refine ⟨r, x, hr, hx, congrArg Link.implied hlink, congrArg Link.parallel hlink, ?_,
      congrArg Link.linkedTo hlink⟩
    rw [hlink]
    exact repeats_derive r s d true false

end Graph

/-! ## Graphs of models -/

theorem Assembly.Step.grown {a a' : Assembly} {e : Event} (h : Step a e a')
    (hg : a.graph.Grown) : a'.graph.Grown := by
  cases h with
  | leave => exact hg
  | relate r => exact hg
  | element _ _ _ _ hadd => exact hg.element hadd
  | environment _ _ _ hadd => exact hg.environment hadd

/-- Additions grow the graph of a model whose relationships are linked. -/
theorem grown_of_linked {mode : Identifier.Mode} {members : List Declaration.ModelMember}
    {a : Assembly} (h : linked mode members = .ok a) : a.graph.Grown := by
  obtain ⟨b, hb, hlink⟩ := linked_eq_ok_iff.mp h
  have hdeclared : b.graph.Grown := by
    refine foldlM_invariant (P := fun b => b.graph.Grown) ?_ .empty hb
    intro a e a' _ ha hstep
    exact (Assembly.declare_eq_ok_iff.mp hstep).grown ha
  refine foldlM_invariant (P := fun b => b.graph.Grown) ?_ hdeclared hlink
  intro a p a' _ ha hstep
  obtain ⟨l, -, g, hadd, rfl⟩ := Assembly.link_eq_ok_iff.mp hstep
  exact ha.relationship hadd

/-- The relationship that the page of the shop has with the ledger. -/
def shopReading : Relationship := shopLinked.graph.relationships.head?.getD default

/-- The page reads the ledger, so the container of the page reads that of the ledger. -/
theorem shop_upward_closure : shopLinked.graph.Grown ∧ shopLinked.graph.frozen = false ∧
    shopLinked.graph.connects "web" "books" = false ∧
    ∃ implied, shopLinked.graph.withImplied = .ok (shopLinked.graph.appended implied) ∧
      ∃ r x, shopLinked.graph.FirstImplies r "web" "books" ∧
        (shopLinked.graph.appended implied).fromTo "web" "books" = [x] ∧
        x.linkedTo = some r.id := by
  have h : linked .flat shop = .ok shopLinked := by rfl
  have hg := grown_of_linked h
  have hf : shopLinked.graph.frozen = false := by rfl
  have hnew : shopLinked.graph.connects "web" "books" = false := by decide +kernel
  have hreading : shopLinked.graph.Implies shopReading "web" "books" := by
    constructor <;> decide +kernel
  obtain ⟨implied, himplied, -, hconnects, hfirst, -⟩ := Graph.upward_closure hg hf
  have hc := (hconnects "web" "books").mpr (.inr ⟨shopReading, by decide +kernel, hreading⟩)
  obtain ⟨r, x, hr, hx, -, -, -, hlinked⟩ := hfirst "web" "books" hnew hc
  exact ⟨hg, hf, hnew, implied, himplied, r, x, hr, hx, hlinked⟩

end SystemAtlas.Model
