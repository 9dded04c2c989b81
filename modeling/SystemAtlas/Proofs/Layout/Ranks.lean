import Mathlib
import SystemAtlas.Proofs.Layout.Cycles
import SystemAtlas.Proofs.Layout.Ordering

/-! # Ranks are longest paths

Edges lead from a layer of a diagram to a later one (`layer_lt_of_edge`), and to each id of a layer
but the first an edge leads from the layer before (`exists_predecessor`). So the number of a layer
is the length of the longest path to each of its ids (`Layering.isGreatest`), and that is the rank
of their placements (`longest_of_place`). -/

namespace SystemAtlas.Layout

/-! ## Layers along edges -/

/-- Layers along edges. What edges lead from is in a layer, every edge leads to a later layer, and
to each id of a layer but the first an edge leads from the layer before. -/
structure Layering (edges : Set Edge) (layers : List (List Text)) : Prop where
  source : ∀ e ∈ edges, ∃ k, e.1 ∈ layers.getD k []
  upward : ∀ e ∈ edges, ∀ i j, e.1 ∈ layers.getD i [] → e.2 ∈ layers.getD j [] → i < j
  predecessor : ∀ k, ∀ id ∈ layers.getD (k + 1) [], ∃ p ∈ layers.getD k [], (p, id) ∈ edges

namespace Layering

variable {edges : Set Edge} {layers layers' : List (List Text)} {n k : Nat} {a b id : Text}

theorem congr (h : Layering edges layers)
    (hsame : ∀ k, (layers'.getD k []).Perm (layers.getD k [])) : Layering edges layers' where
  source e he := (h.source e he).imp fun k => (hsame k).mem_iff.mpr
  upward e he i j hi hj := h.upward e he i j ((hsame i).mem_iff.mp hi) ((hsame j).mem_iff.mp hj)
  predecessor k id hid := by
    obtain ⟨p, hp, hedge⟩ := h.predecessor k id ((hsame (k + 1)).mem_iff.mp hid)
    exact ⟨p, (hsame k).mem_iff.mpr hp, hedge⟩

/-- No path to an id is longer than the number of its layer. -/
theorem length_le (h : Layering edges layers) (hpath : Path edges n a b)
    (hb : b ∈ layers.getD k []) : n ≤ k := by
  induction hpath generalizing k with
  | nil id => exact Nat.zero_le k
  | concat _ he ih =>
    obtain ⟨i, hi⟩ := h.source _ he
    exact Nat.lt_of_le_of_lt (ih hi) (h.upward _ he i k hi hb)

/-- Some path to an id is as long as the number of its layer. -/
theorem exists_path (h : Layering edges layers) (hid : id ∈ layers.getD k []) :
    ∃ start, Path edges k start id := by
  induction k generalizing id with
  | zero => exact ⟨id, .nil id⟩
  | succ k ih =>
    obtain ⟨p, hp, hedge⟩ := h.predecessor k id hid
    obtain ⟨start, hpath⟩ := ih hp
    exact ⟨start, hpath.concat hedge⟩

theorem isGreatest (h : Layering edges layers) (hid : id ∈ layers.getD k []) :
    IsGreatest {n | ∃ start, Path edges n start id} k :=
  ⟨h.exists_path hid, fun _ ⟨_, hpath⟩ => h.length_le hpath hid⟩

end Layering

/-! ## Layers of a diagram -/

namespace Diagram

variable {d : Diagram} {e : Edge} {id : Text} {fuel i j k : Nat}

/-- The ids of a diagram that no edge leads to. -/
def first (d : Diagram) : List Text := d.nodes.filter fun n => !d.edges.any (·.2 == n)

/-- A diagram without the ids that no edge leads to. -/
def later (d : Diagram) : Diagram :=
  let nodes := d.nodes.filter fun n => d.edges.any (·.2 == n)
  ⟨nodes, d.edges.filter fun e => nodes.contains e.1⟩

theorem mem_first_iff : id ∈ d.first ↔ id ∈ d.nodes ∧ ∀ e ∈ d.edges, e.2 ≠ id := by
  simp [first]

theorem mem_nodes_later_iff : id ∈ d.later.nodes ↔ id ∈ d.nodes ∧ ∃ e ∈ d.edges, e.2 = id := by
  simp [later]

theorem mem_edges_later_iff : e ∈ d.later.edges ↔ e ∈ d.edges ∧ e.1 ∈ d.later.nodes := by
  simp [later]

theorem layersUpTo_of_empty (h : d.nodes = []) : d.layersUpTo fuel = [] := by
  cases fuel with
  | zero => rfl
  | succ fuel => simp [layersUpTo, h]

theorem layersUpTo_succ (h : d.nodes ≠ []) :
    d.layersUpTo (fuel + 1) = d.first :: d.later.layersUpTo fuel := by
  simp only [layersUpTo, List.isEmpty_iff, h, if_false, List.partition_eq_filter_filter]
  rfl

theorem mem_layer_zero_iff : id ∈ (d.layersUpTo (fuel + 1)).getD 0 [] ↔ id ∈ d.first := by
  by_cases h : d.nodes = []
  · simp [layersUpTo_of_empty h, first, h]
  · rw [layersUpTo_succ h, List.getD_cons_zero]

theorem mem_layer_succ_iff : id ∈ (d.layersUpTo (fuel + 1)).getD (k + 1) [] ↔
    id ∈ (d.later.layersUpTo fuel).getD k [] := by
  by_cases h : d.nodes = []
  · have hlater : d.later.nodes = [] := by simp [later, h]
    rw [layersUpTo_of_empty h, layersUpTo_of_empty hlater, List.getD_nil, List.getD_nil]
  · rw [layersUpTo_succ h, List.getD_cons_succ]

theorem mem_nodes_of_layer (h : id ∈ (d.layersUpTo fuel).getD k []) : id ∈ d.nodes := by
  induction fuel generalizing d k with
  | zero => cases h
  | succ fuel ih =>
    cases k with
    | zero => exact (mem_first_iff.mp (mem_layer_zero_iff.mp h)).1
    | succ k => exact (mem_nodes_later_iff.mp (ih (mem_layer_succ_iff.mp h))).1

/-- An edge leads to a later layer. -/
theorem layer_lt_of_edge (he : e ∈ d.edges) (hi : e.1 ∈ (d.layersUpTo fuel).getD i [])
    (hj : e.2 ∈ (d.layersUpTo fuel).getD j []) : i < j := by
  induction fuel generalizing d i j with
  | zero => cases hi
  | succ fuel ih =>
    cases j with
    | zero => exact absurd rfl ((mem_first_iff.mp (mem_layer_zero_iff.mp hj)).2 e he)
    | succ j =>
      cases i with
      | zero => exact Nat.succ_pos j
      | succ i =>
        have hi' := mem_layer_succ_iff.mp hi
        have he' : e ∈ d.later.edges := mem_edges_later_iff.mpr ⟨he, mem_nodes_of_layer hi'⟩
        exact Nat.succ_lt_succ (ih he' hi' (mem_layer_succ_iff.mp hj))

/-- To an id of a layer but the first, an edge leads from the layer before. -/
theorem exists_predecessor (hsource : ∀ e ∈ d.edges, e.1 ∈ d.nodes)
    (hid : id ∈ (d.layersUpTo fuel).getD (k + 1) []) :
    ∃ p ∈ (d.layersUpTo fuel).getD k [], (p, id) ∈ d.edges := by
  induction fuel generalizing d k with
  | zero => cases hid
  | succ fuel ih =>
    have hlater := mem_layer_succ_iff.mp hid
    cases k with
    | succ k =>
      obtain ⟨p, hp, hedge⟩ := ih (fun e he => (mem_edges_later_iff.mp he).2) hlater
      exact ⟨p, mem_layer_succ_iff.mpr hp, (mem_edges_later_iff.mp hedge).1⟩
    | zero =>
      cases fuel with
      | zero => cases hlater
      | succ fuel =>
        -- the edge to the id is gone with its start, so the start is in the first layer
        obtain ⟨hnode, hfree⟩ := mem_first_iff.mp (mem_layer_zero_iff.mp hlater)
        obtain ⟨-, e, he, rfl⟩ := mem_nodes_later_iff.mp hnode
        have hstart : ∀ x ∈ d.edges, x.2 ≠ e.1 := by
          intro x hx hxe
          have hlater := mem_nodes_later_iff.mpr ⟨hsource e he, x, hx, hxe⟩
          exact hfree e (mem_edges_later_iff.mpr ⟨he, hlater⟩) rfl
        exact ⟨e.1, mem_layer_zero_iff.mpr (mem_first_iff.mpr ⟨hsource e he, hstart⟩), he⟩

theorem getD_orderLayers_perm (edges : List Edge) (places : List (Text × Nat))
    (layers : List (List Text)) (k : Nat) :
    ((orderLayers edges places layers).getD k []).Perm (layers.getD k []) := by
  induction layers generalizing places k with
  | nil => exact .nil
  | cons layer rest ih =>
    cases k with
    | zero => exact orderLayer_perm edges places layer
    | succ k => exact ih _ k

/-- The layers of a diagram are layers along the edges that close no cycle. -/
theorem layering (hd : d.Whole) : Layering {e | e ∈ d.acyclic.edges} d.orderedLayers := by
  have hsource : ∀ e ∈ d.acyclic.edges, e.1 ∈ d.acyclic.nodes :=
    fun e he => (hd e (List.mem_of_mem_filter he)).1
  refine Layering.congr ?_ (getD_orderLayers_perm _ _ _)
  refine ⟨fun e he => ?_, fun e he i j => layer_lt_of_edge he,
    fun k id => exists_predecessor hsource⟩
  obtain ⟨layer, hlayer, hmem⟩ :=
    List.mem_flatten.mp ((layers_perm hd).mem_iff.mpr (hsource e he))
  obtain ⟨k, hk⟩ := List.mem_iff_getElem?.mp hlayer
  exact ⟨k, by rwa [List.getD_eq_getElem?_getD, hk]⟩

end Diagram

/-! ## Placements -/

variable {directive : Directive} {strategy : Strategy} {d : Diagram} {cells : List Cell}
  {id : Text} {k : Nat} {nodes : List Node} {edges : List Edge} {ps : List Placement}

/-- The strategies other than the grid and the circle make cells of layers. -/
theorem exists_layeredCells (hgrid : strategy ≠ .grid) (hcircle : strategy ≠ .circular)
    (h : strategy.cells? directive d = some cells) :
    ∃ reversed vertical, cells = layeredCells directive reversed vertical d.orderedLayers := by
  cases strategy with
  | grid => exact absurd rfl hgrid
  | circular => exact absurd rfl hcircle
  | _ => exact ⟨_, _, (Option.some.inj h).symm⟩

/-- An id is placed at a rank just if it is in the layer with that number. -/
theorem exists_rank_iff (hgrid : strategy ≠ .grid) (hcircle : strategy ≠ .circular)
    (hs : directive.strategy = some strategy.name) (h : place directive nodes edges = .ok ps) :
    (∃ p ∈ ps, p.element = id ∧ p.rank = k) ↔
      id ∈ (Diagram.of (nodes.map (·.id)) edges).orderedLayers.getD k [] := by
  obtain ⟨cells, hcells, rfl⟩ := exists_cells_of_place hs h
  obtain ⟨reversed, vertical, rfl⟩ := exists_layeredCells hgrid hcircle hcells
  simp only [List.mem_map, exists_exists_and_eq_and]
  constructor
  · rintro ⟨c, hc, rfl, rfl⟩
    exact List.mem_of_getElem? (mem_layeredCells_iff.mp hc).1
  · intro hid
    obtain ⟨order, horder⟩ := List.mem_iff_getElem?.mp hid
    obtain ⟨c, hc, hid, hrank, -⟩ := exists_layeredCell horder
    exact ⟨c, hc, hid, hrank⟩

/-- Placements by longest paths along edges without cycles. The rank of an element is the number of
edges of the longest path to it. So every edge leads to a greater rank, and to an element of a rank
above zero an edge leads from the rank before. -/
structure Longest (edges : Set Edge) (ps : List Placement) : Prop where
  acyclic : Acyclic edges
  rank : ∀ p ∈ ps, IsGreatest {n | ∃ start, Path edges n start p.element} p.rank
  upward : ∀ p ∈ ps, ∀ q ∈ ps, (p.element, q.element) ∈ edges → p.rank < q.rank
  predecessor : ∀ q ∈ ps, 0 < q.rank → ∃ p ∈ ps, (p.element, q.element) ∈ edges ∧
    q.rank = p.rank + 1

theorem longest_of_layers (hgrid : strategy ≠ .grid) (hcircle : strategy ≠ .circular)
    (hs : directive.strategy = some strategy.name) (h : place directive nodes edges = .ok ps) :
    Longest {e | e ∈ (Diagram.of (nodes.map (·.id)) edges).acyclic.edges} ps := by
  have hwhole := Diagram.Whole.of (nodes.map (·.id)) edges
  have hlayers := Diagram.layering hwhole
  have hrank : ∀ {id k}, (∃ p ∈ ps, p.element = id ∧ p.rank = k) ↔
      id ∈ (Diagram.of (nodes.map (·.id)) edges).orderedLayers.getD k [] :=
    exists_rank_iff hgrid hcircle hs h
  have hmem : ∀ p ∈ ps, p.element ∈
      (Diagram.of (nodes.map (·.id)) edges).orderedLayers.getD p.rank [] :=
    fun p hp => hrank.mp ⟨p, hp, rfl, rfl⟩
  refine ⟨Diagram.acyclic_edges hwhole, fun p hp => hlayers.isGreatest (hmem p hp),
    fun p hp q hq he => hlayers.upward _ he _ _ (hmem p hp) (hmem q hq), fun q hq hpos => ?_⟩
  obtain ⟨k, hk : q.rank = k + 1⟩ := Nat.exists_eq_succ_of_ne_zero (Nat.ne_of_gt hpos)
  have hq := hmem q hq
  rw [hk] at hq
  obtain ⟨id, hid, hedge⟩ := hlayers.predecessor k q.element hq
  obtain ⟨p, hp, rfl, rfl⟩ := hrank.mpr hid
  exact ⟨p, hp, hedge, hk⟩

/-- The pairs of different elements that relationships connect. -/
def connections (es : List Model.Element) (rs : List Model.Relationship) : Set Edge :=
  {e | (∃ r ∈ rs, (r.source, r.destination) = e) ∧ e.1 ∈ es.map (·.id) ∧ e.2 ∈ es.map (·.id) ∧
    e.1 ≠ e.2}

/-- The layered strategies place every element, whatever connects the elements. There are
connections without cycles, all of them if the connections close no cycle, such that the rank of
every element is the length of the longest path of these to it. -/
theorem longest_of_place {es : List Model.Element} {rs : List Model.Relationship}
    (hn : (es.map (·.id)).Nodup) {directive : Directive} {strategy : Strategy}
    (hs : directive.strategy = some strategy.name) (hgrid : strategy ≠ .grid)
    (hcircle : strategy ≠ .circular) :
    ∃ ps, place directive (es.map fun e => ⟨e.id, e.parent⟩)
        (rs.map fun r => (r.source, r.destination)) = .ok ps ∧
      (ps.map (·.element)).Perm (es.map (·.id)) ∧
      ∃ kept ⊆ connections es rs, Longest kept ps ∧
        (Acyclic (connections es rs) → kept = connections es rs ∧
          ∀ r ∈ rs, ∀ p ∈ ps, ∀ q ∈ ps, p.element = r.source → q.element = r.destination →
            r.source ≠ r.destination → p.rank < q.rank) := by
  have hids : (es.map fun e => (⟨e.id, e.parent⟩ : Node)).map (·.id) = es.map (·.id) :=
    List.map_map
  have hnodes : ((es.map fun e => (⟨e.id, e.parent⟩ : Node)).map (·.id)).Nodup := by rwa [hids]
  obtain ⟨ps, hps⟩ : ∃ ps, place directive (es.map fun e => ⟨e.id, e.parent⟩)
      (rs.map fun r => (r.source, r.destination)) = .ok ps :=
    exists_place hnodes hs fun h => absurd h hcircle
  have hperm := perm_of_place hnodes hps
  have hlongest := longest_of_layers hgrid hcircle hs hps
  rw [hids] at hperm hlongest
  generalize hd : Diagram.of (es.map (·.id)) (rs.map fun r => (r.source, r.destination)) = d
    at hlongest
  have hedges : {e | e ∈ d.edges} = connections es rs := by
    ext e
    rw [← hd, Set.mem_ofPred_eq, Diagram.mem_edges_of, List.mem_map]
    rfl
  have hwhole : d.Whole := hd ▸ .of _ _
  refine ⟨ps, hps, hperm, {e | e ∈ d.acyclic.edges}, ?_, hlongest, fun hacyclic => ?_⟩
  · rw [← hedges]
    exact fun e he => List.mem_of_mem_filter he
  · have hall : {e | e ∈ d.acyclic.edges} = connections es rs := by
      rw [Diagram.acyclic_eq hwhole (hedges ▸ hacyclic), hedges]
    refine ⟨hall, fun r hr p hp q hq hsource hend hne => hlongest.upward p hp q hq ?_⟩
    rw [hall, hsource, hend]
    refine ⟨⟨r, hr, rfl⟩, ?_, ?_, hne⟩
    · exact hperm.subset (hsource ▸ List.mem_map_of_mem hp)
    · exact hperm.subset (hend ▸ List.mem_map_of_mem hq)

/-- Layers from top to bottom. -/
def downward : Directive :=
  { strategy := some Strategy.topToBottom.name, rankSeparation := 300, nodeSeparation := 200 }

/-- The ring is placed in three ranks, along two of its three connections. -/
theorem ring_longest : (ring.1.map (·.id)).Nodup ∧ ∃ ps,
    place downward (ring.1.map fun e => ⟨e.id, e.parent⟩)
        (ring.2.map fun r => (r.source, r.destination)) = .ok ps ∧
      ps.map (·.rank) = [0, 1, 2] ∧ ∃ kept ⊆ connections ring.1 ring.2, Longest kept ps := by
  have hn : (ring.1.map (·.id)).Nodup := by decide +kernel
  have hranks : (place downward (ring.1.map fun e => ⟨e.id, e.parent⟩)
      (ring.2.map fun r => (r.source, r.destination))).toOption.map (·.map (·.rank)) =
        some [0, 1, 2] := by
    cbv
  have hs : downward.strategy = some Strategy.topToBottom.name := rfl
  obtain ⟨ps, hps, -, kept, hkept, hlongest, -⟩ :=
    @longest_of_place _ ring.2 hn _ _ hs (by decide) (by decide)
  rw [hps] at hranks
  exact ⟨hn, ps, hps, Option.some.inj hranks, kept, hkept, hlongest⟩

end SystemAtlas.Layout
