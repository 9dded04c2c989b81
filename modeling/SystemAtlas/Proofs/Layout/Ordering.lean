import Mathlib.Data.List.Nodup
import SystemAtlas.Model.Element
import SystemAtlas.Model.Relationship
import SystemAtlas.Proofs.Keyed
import SystemAtlas.Proofs.Layout.Placement

/-! # What a layout depends on

A sorted list without repetition is told by its elements, so the diagram of a view depends only on
which ids it has and which pairs of different ids are connected (`Diagram.of_congr`). The placements
depend on nothing else but the parents of the ids (`place_congr`), so elements with different ids
are placed alike in any order, whatever else connects them (`place_of_same_pairs`). -/

namespace SystemAtlas.Layout

/-- Sorting makes one list of any two without repetition that have the same elements. -/
theorem mergeSort_congr {α : Type} {le : α → α → Bool} {xs ys : List α}
    (trans : ∀ a b c, le a b → le b c → le a c) (total : ∀ a b, le a b || le b a)
    (antisymm : ∀ a b, le a b → le b a → a = b) (hx : xs.Nodup) (hy : ys.Nodup)
    (h : ∀ x, x ∈ xs ↔ x ∈ ys) : xs.mergeSort le = ys.mergeSort le := by
  have hperm : (xs.mergeSort le).Perm (ys.mergeSort le) :=
    (List.mergeSort_perm xs le).trans
      (((List.perm_ext_iff_of_nodup hx hy).mpr h).trans (List.mergeSort_perm ys le).symm)
  exact hperm.eq_of_pairwise (fun a b _ _ => antisymm a b)
    (List.pairwise_mergeSort trans total xs) (List.pairwise_mergeSort trans total ys)

theorem sortIds_congr {ids ids' : List Text} (h : ∀ id, id ∈ ids ↔ id ∈ ids') :
    sortIds ids = sortIds ids' := by
  refine mergeSort_congr (fun _ _ _ => Text.le_trans) Text.le_total (fun _ _ => Text.le_antisymm)
    (nodup_distinct ids) (nodup_distinct ids') ?_
  intro id
  rw [mem_distinct, mem_distinct, h]

/-! ## Edges -/

namespace Edge

variable {a b c : Edge}

theorem le_iff : a.le b = true ↔
    (a.1 = b.1 ∧ a.2.le b.2 = true) ∨ (a.1 ≠ b.1 ∧ a.1.le b.1 = true) := by
  rw [le]
  by_cases h : a.1 = b.1 <;> simp [h]

theorem le_total (a b : Edge) : a.le b || b.le a := by
  rw [Bool.or_eq_true, le_iff, le_iff]
  by_cases h : a.1 = b.1
  · rcases Bool.or_eq_true_iff.mp (Text.le_total a.2 b.2) with hle | hle
    · exact .inl (.inl ⟨h, hle⟩)
    · exact .inr (.inl ⟨h.symm, hle⟩)
  · rcases Bool.or_eq_true_iff.mp (Text.le_total a.1 b.1) with hle | hle
    · exact .inl (.inr ⟨h, hle⟩)
    · exact .inr (.inr ⟨Ne.symm h, hle⟩)

theorem le_antisymm (h : a.le b = true) (h' : b.le a = true) : a = b := by
  rw [le_iff] at h h'
  rcases h with ⟨he, h⟩ | ⟨hne, h⟩
  · rcases h' with ⟨-, h'⟩ | ⟨hne', -⟩
    · exact Prod.ext he (Text.le_antisymm h h')
    · exact absurd he.symm hne'
  · rcases h' with ⟨he', -⟩ | ⟨-, h'⟩
    · exact absurd he'.symm hne
    · exact absurd (Text.le_antisymm h h') hne

theorem le_trans (h : a.le b = true) (h' : b.le c = true) : a.le c = true := by
  rw [le_iff] at h h' ⊢
  rcases h with ⟨he, h⟩ | ⟨hne, h⟩
  · rcases h' with ⟨he', h'⟩ | ⟨hne', h'⟩
    · exact .inl ⟨he.trans he', Text.le_trans h h'⟩
    · exact .inr ⟨he ▸ hne', he ▸ h'⟩
  · rcases h' with ⟨he', h'⟩ | ⟨hne', h'⟩
    · exact .inr ⟨he' ▸ hne, he' ▸ h⟩
    · refine .inr ⟨fun he => hne ?_, Text.le_trans h h'⟩
      exact Text.le_antisymm h (he ▸ h')

end Edge

theorem sortEdges_congr {edges edges' : List Edge} (h : ∀ e, e ∈ edges ↔ e ∈ edges') :
    sortEdges edges = sortEdges edges' := by
  refine mergeSort_congr (fun _ _ _ => Edge.le_trans) Edge.le_total (fun _ _ => Edge.le_antisymm)
    (nodup_distinct edges) (nodup_distinct edges') ?_
  intro e
  rw [mem_distinct, mem_distinct, h]

/-! ## Diagrams and placements -/

variable {directive : Directive} {nodes nodes' : List Node} {edges edges' : List Edge}

/-- A diagram is told by which ids it has and which pairs of different ids are connected. -/
theorem Diagram.of_congr {ids ids' : List Text} (hids : ∀ id, id ∈ ids ↔ id ∈ ids')
    (hedges : ∀ s ∈ ids, ∀ d ∈ ids, s ≠ d → ((s, d) ∈ edges ↔ (s, d) ∈ edges')) :
    Diagram.of ids edges = Diagram.of ids' edges' := by
  rw [of, of, sortIds_congr hids]
  congr 1
  apply sortEdges_congr
  intro e
  simp only [List.mem_filter, Bool.and_eq_true, List.contains_iff_mem, bne_iff_ne, ← hids]
  apply and_congr_left
  intro h
  exact hedges e.1 h.1.1 e.2 h.1.2 h.2

/-- The parent of an id among nodes that are told by their ids. -/
theorem parentOf_map {ids : List Text} {parent : Text → Option Text} {id : Text} :
    parentOf (ids.map fun id => ⟨id, parent id⟩) id = if id ∈ ids then parent id else none := by
  have hcomp : ((fun n : Node => n.id == id) ∘ fun id => ⟨id, parent id⟩) = (· == id) := rfl
  rw [parentOf, ← List.map_reverse, List.find?_map, hcomp]
  split
  · next hid =>
    have hfind : (ids.reverse.find? (· == id)).isSome = true :=
      List.find?_isSome.mpr ⟨id, List.mem_reverse.mpr hid, beq_self_eq_true id⟩
    obtain ⟨x, hx⟩ := Option.isSome_iff_exists.mp hfind
    have hxid : x = id := by simpa using List.find?_some hx
    rw [hx, hxid, Option.map_some, Option.bind_some]
  · next hid =>
    have hfind : ids.reverse.find? (· == id) = none :=
      List.find?_eq_none.mpr fun x hx he => hid (eq_of_beq he ▸ List.mem_reverse.mp hx)
    rw [hfind, Option.map_none, Option.bind_none]

/-- Of nodes with different ids, the parent of an id does not depend on their order. -/
theorem parentOf_perm (hn : (nodes.map (·.id)).Nodup) (h : nodes.Perm nodes') (id : Text) :
    parentOf nodes id = parentOf nodes' id := by
  have hn' : (nodes.reverse.map (·.id)).Nodup := by
    rw [List.map_reverse]
    exact List.nodup_reverse.mpr hn
  have hperm : nodes.reverse.Perm nodes'.reverse :=
    (List.reverse_perm nodes).trans (h.trans (List.reverse_perm nodes').symm)
  rw [parentOf, parentOf, find?_key_perm hn' hperm]

/-- Placements are told by which ids are placed, their parents, and which pairs of different ids are
connected. -/
theorem place_congr (hids : ∀ id, id ∈ nodes.map (·.id) ↔ id ∈ nodes'.map (·.id))
    (hparents : ∀ id, parentOf nodes id = parentOf nodes' id)
    (hedges : ∀ s ∈ nodes.map (·.id), ∀ d ∈ nodes.map (·.id), s ≠ d →
      ((s, d) ∈ edges ↔ (s, d) ∈ edges')) :
    place directive nodes edges = place directive nodes' edges' := by
  have hany : ∀ p : Text, nodes.any (·.id == p) = nodes'.any (·.id == p) := by
    intro p
    have hmem := hids p
    simp only [List.mem_map] at hmem
    rw [Bool.eq_iff_iff]
    simpa only [List.any_eq_true, beq_iff_eq] using hmem
  have hplacement : ∀ c : Cell, c.placement nodes = c.placement nodes' := by
    intro c
    simp only [Cell.placement, hparents, hany]
  rw [place, place, Diagram.of_congr hids hedges]
  simp only [hplacement]

/-! ## Elements and relationships -/

/-- Placements do not depend on the order of the elements. Nor do they depend on anything else about
the relationships than which pairs of different elements they connect. Every strategy places each
element once, except that a circle must not be too large to be measured. -/
theorem place_of_same_pairs {es es' : List Model.Element} {rs rs' : List Model.Relationship}
    (hn : (es.map (·.id)).Nodup) (hn' : (es'.map (·.id)).Nodup) (helements : ∀ e, e ∈ es ↔ e ∈ es')
    (hpairs : ∀ s ∈ es.map (·.id), ∀ d ∈ es.map (·.id), s ≠ d →
      ((∃ r ∈ rs, r.source = s ∧ r.destination = d) ↔
        ∃ r ∈ rs', r.source = s ∧ r.destination = d)) (directive : Directive) :
    place directive (es.map fun e => ⟨e.id, e.parent⟩)
        (rs.map fun r => (r.source, r.destination)) =
      place directive (es'.map fun e => ⟨e.id, e.parent⟩)
        (rs'.map fun r => (r.source, r.destination)) ∧
    ∀ strategy : Strategy, directive.strategy = some strategy.name →
      (strategy = .circular → (circleRadius? directive es.length).isSome = true) →
      ∃ ps, place directive (es.map fun e => ⟨e.id, e.parent⟩)
        (rs.map fun r => (r.source, r.destination)) = .ok ps ∧
          (ps.map (·.element)).Perm (es.map (·.id)) := by
  have hids : ∀ es : List Model.Element,
      (es.map fun e => (⟨e.id, e.parent⟩ : Node)).map (·.id) = es.map (·.id) :=
    fun es => List.map_map
  have hperm : es.Perm es' :=
    (List.perm_ext_iff_of_nodup hn.of_map hn'.of_map).mpr helements
  constructor
  · apply place_congr
    · intro id
      rw [hids, hids]
      exact (hperm.map (·.id)).mem_iff
    · apply parentOf_perm
      · rwa [hids]
      · exact hperm.map _
    · intro s hs d hd hne
      rw [hids] at hs hd
      simpa only [List.mem_map, Prod.mk.injEq] using hpairs s hs d hd hne
  · intro strategy hs hcircle
    have hnodes : ((es.map fun e => (⟨e.id, e.parent⟩ : Node)).map (·.id)).Nodup := by
      rwa [hids]
    obtain ⟨ps, hps⟩ := exists_place hnodes hs (by rwa [List.length_map])
    refine ⟨ps, hps, ?_⟩
    rw [← hids]
    exact perm_of_place hnodes hps

/-- Elements that relationships connect in a circle. -/
def ring : List Model.Element × List Model.Relationship :=
  let element (id : Text) : Model.Element := { id, name := id, role := .static .person }
  let relationship (id source destination : Text) : Model.Relationship :=
    { id, source, destination }
  ([element "a", element "b", element "c"],
    [relationship "r1" "a" "b", relationship "r2" "b" "c", relationship "r3" "c" "a"])

/-- The ring in another order, with a relationship twice, another one of an element with itself, and
another one that leaves the ring. -/
def shuffledRing : List Model.Element × List Model.Relationship :=
  let relationship (id source destination : Text) : Model.Relationship :=
    { id, source, destination }
  (ring.1.reverse, relationship "r4" "b" "b" :: relationship "r5" "a" "d" ::
    (ring.2.reverse ++ ring.2.take 1))

/-- The ring is placed alike in both orders, by every strategy. -/
theorem ring_place : (ring.1.map (·.id)).Nodup ∧ (shuffledRing.1.map (·.id)).Nodup ∧
    (∀ e, e ∈ ring.1 ↔ e ∈ shuffledRing.1) ∧ ∀ directive : Directive,
      place directive (ring.1.map fun e => ⟨e.id, e.parent⟩)
          (ring.2.map fun r => (r.source, r.destination)) =
        place directive (shuffledRing.1.map fun e => ⟨e.id, e.parent⟩)
          (shuffledRing.2.map fun r => (r.source, r.destination)) := by
  have hn : (ring.1.map (·.id)).Nodup := by decide +kernel
  have hn' : (shuffledRing.1.map (·.id)).Nodup := by decide +kernel
  have helements : ∀ e, e ∈ ring.1 ↔ e ∈ shuffledRing.1 := fun e => List.mem_reverse.symm
  refine ⟨hn, hn', helements, fun directive => ?_⟩
  exact (place_of_same_pairs hn hn' helements (by decide +kernel) directive).1

end SystemAtlas.Layout
