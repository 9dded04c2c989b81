import SystemAtlas.Layout.Placement
import SystemAtlas.Proofs.Layout.Acyclic

/-! # Every id is placed once

Without cycles some id is left that no edge leads to, as long as there are ids (`exists_source`), so
the layers of a diagram hold all of its ids (`layersUpTo_perm`). Whatever the strategy, the
placements are those of the nodes (`perm_of_place`). -/

namespace SystemAtlas.Layout

/-! ## Layers -/

namespace Diagram

variable {d : Diagram} {height : Text → Nat} {fuel : Nat}

section
variable (hsource : ∀ e ∈ d.edges, e.1 ∈ d.nodes)
  (hheight : ∀ e ∈ d.edges, height e.1 < height e.2)
include hsource hheight

/-- If edges lead upward, no edge leads to some of the ids. -/
theorem exists_source (hne : d.nodes ≠ []) :
    ∃ n ∈ d.nodes, d.edges.any (·.2 == n) = false := by
  obtain ⟨n, hn⟩ := List.exists_mem_of_ne_nil _ hne
  induction hk : height n using Nat.strongRecOn generalizing n with
  | ind k ih =>
    cases h : d.edges.any (·.2 == n) with
    | false => exact ⟨n, hn, h⟩
    | true =>
      obtain ⟨e, he, hen⟩ := List.any_eq_true.mp h
      have hlt := hheight e he
      rw [eq_of_beq hen, hk] at hlt
      exact ih _ hlt e.1 (hsource e he) rfl

/-- If edges lead upward, the layers hold every id. -/
theorem layersUpTo_perm (hfuel : d.nodes.length ≤ fuel) :
    (d.layersUpTo fuel).flatten.Perm d.nodes := by
  induction fuel generalizing d with
  | zero =>
    rw [List.length_eq_zero_iff.mp (Nat.le_zero.mp hfuel)]
    exact .nil
  | succ fuel ih =>
    rw [layersUpTo]
    split
    · next hempty =>
      rw [List.isEmpty_iff.mp hempty]
      exact .nil
    · next hempty =>
      simp only [List.partition_eq_filter_filter, List.flatten_cons]
      have hall := List.filter_append_perm (fun n => d.edges.any (·.2 == n)) d.nodes
      -- the first layer is not empty, so fewer ids are left
      obtain ⟨n, hn, hfirst⟩ := exists_source hsource hheight (by simpa using hempty)
      have hless : (d.nodes.filter fun n => d.edges.any (·.2 == n)).length < d.nodes.length :=
        List.length_filter_lt_length_iff_exists.mpr
          ⟨n, hn, by rw [hfirst]; exact Bool.false_ne_true⟩
      refine (List.Perm.append_left _ (ih ?_ ?_ ?_)).trans (List.perm_append_comm.trans hall)
      · intro e he
        exact List.contains_iff_mem.mp (List.mem_filter.mp he).2
      · intro e he
        exact hheight e (List.mem_filter.mp he).1
      · exact Nat.le_of_lt_succ (Nat.lt_of_lt_of_le hless hfuel)

end

/-- The layers of a diagram hold every id once the edges that close cycles are left out. -/
theorem layers_perm (hd : d.Whole) : d.acyclic.layers.flatten.Perm d.nodes := by
  obtain ⟨height, hheight⟩ := exists_height hd
  have hsource : ∀ e ∈ d.acyclic.edges, e.1 ∈ d.acyclic.nodes :=
    fun e he => (hd e (List.mem_filter.mp he).1).1
  exact layersUpTo_perm hsource hheight (Nat.le_refl _)

theorem orderLayer_perm (edges : List Edge) (places : List (Text × Nat)) (layer : List Text) :
    (orderLayer edges places layer).Perm layer := by
  have hsorted := (List.mergeSort_perm (layer.map fun id => (mean? edges places id, id))
    placeLe).map (·.2)
  rwa [List.map_map, show ((·.2) ∘ fun id => (mean? edges places id, id)) = id from rfl,
    List.map_id] at hsorted

theorem orderLayers_perm (edges : List Edge) (places : List (Text × Nat))
    (layers : List (List Text)) :
    (orderLayers edges places layers).flatten.Perm layers.flatten := by
  induction layers generalizing places with
  | nil => exact .nil
  | cons layer rest ih => exact (orderLayer_perm edges places layer).append (ih _)

theorem orderedLayers_perm (hd : d.Whole) : d.orderedLayers.flatten.Perm d.nodes :=
  (orderLayers_perm _ _ _).trans (layers_perm hd)

end Diagram

/-! ## Cells -/

variable {d : Diagram} {directive : Directive} {cells : List Cell} {nodes : List Node}
  {edges : List Edge} {ps : List Placement}

theorem ids_map_zipIdx {f : Text × Nat → Cell} (h : ∀ p, (f p).id = p.1) (ids : List Text) :
    (ids.zipIdx.map f).map (·.id) = ids := by
  have hf : (·.id) ∘ f = Prod.fst := funext h
  rw [List.map_map, hf, List.zipIdx_map_fst]

theorem ids_layeredCells (reversed vertical : Bool) (layers : List (List Text)) :
    (layeredCells directive reversed vertical layers).map (·.id) = layers.flatten := by
  have hlayers : layers.zipIdx.flatMap Prod.fst = layers.flatten := by
    rw [List.flatMap_def, List.zipIdx_map_fst]
  rw [layeredCells, List.map_flatMap, ← hlayers]
  refine List.flatMap_congr fun p _ => ids_map_zipIdx (fun q => ?_) p.1
  cases vertical <;> rfl

/-- The position in layers of the id at a place of a rank. -/
def layeredPosition (directive : Directive) (reversed vertical : Bool) (count rank order : Nat) :
    Int × Int :=
  let step : Nat := if reversed then count - 1 - rank else rank
  let along := (step : Int) * directive.rankSeparation
  let across := (order : Int) * directive.nodeSeparation
  if vertical then (across, along) else (along, across)

/-- The cells of layers have the number of the layer as rank and the place in the layer as order. -/
theorem mem_layeredCells_iff {reversed vertical : Bool} {layers : List (List Text)} {c : Cell} :
    c ∈ layeredCells directive reversed vertical layers ↔
      (layers.getD c.rank [])[c.order]? = some c.id ∧
        (c.x, c.y) = layeredPosition directive reversed vertical layers.length c.rank c.order := by
  have hlayer : (layers.getD c.rank [])[c.order]? = some c.id ↔
      ∃ layer, layers[c.rank]? = some layer ∧ layer[c.order]? = some c.id := by
    rw [List.getD_eq_getElem?_getD]
    cases layers[c.rank]? <;> simp
  rw [hlayer]
  simp only [layeredCells, List.mem_flatMap, List.mem_map, Prod.exists,
    List.mem_zipIdx_iff_getElem?]
  constructor
  · rintro ⟨layer, rank, hrank, id, order, horder, rfl⟩
    cases vertical <;> exact ⟨⟨layer, hrank, horder⟩, rfl⟩
  · rintro ⟨⟨layer, hrank, horder⟩, hposition⟩
    refine ⟨layer, c.rank, hrank, c.id, c.order, horder, ?_⟩
    have hcell := congrArg (fun p => Cell.mk c.id c.rank c.order p.1 p.2) hposition.symm
    cases vertical <;> exact hcell

theorem exists_layeredCell {reversed vertical : Bool} {layers : List (List Text)} {id : Text}
    {rank order : Nat} (h : (layers.getD rank [])[order]? = some id) :
    ∃ c ∈ layeredCells directive reversed vertical layers,
      c.id = id ∧ c.rank = rank ∧ c.order = order := by
  let position := layeredPosition directive reversed vertical layers.length rank order
  exact ⟨⟨id, rank, order, position.1, position.2⟩, mem_layeredCells_iff.mpr ⟨h, rfl⟩,
    rfl, rfl, rfl⟩

/-- Whatever the strategy, the cells are those of the ids. -/
theorem ids_cells {strategy : Strategy} (hd : d.Whole)
    (h : strategy.cells? directive d = some cells) : (cells.map (·.id)).Perm d.nodes := by
  cases strategy with
  | grid =>
    cases Option.some.inj h
    rw [gridCells, ids_map_zipIdx fun _ => rfl]
  | circular =>
    rw [Strategy.cells?, circleCells?, Option.map_eq_some_iff] at h
    obtain ⟨radius, -, rfl⟩ := h
    rw [ids_map_zipIdx fun _ => rfl]
  | _ =>
    cases Option.some.inj h
    rw [ids_layeredCells]
    exact d.orderedLayers_perm hd

theorem Strategy.ofName?_name (s : Strategy) : Strategy.ofName? s.name = some s := by
  cases s <;> rfl

/-- Only a circle may be impossible to measure. -/
theorem cells?_eq_none {s : Strategy} (h : s.cells? directive d = none) :
    s = .circular ∧ circleRadius? directive d.nodes.length = none := by
  cases s with
  | circular =>
    rw [Strategy.cells?, circleCells?, Option.map_eq_none_iff] at h
    exact ⟨rfl, h⟩
  | _ => cases h

/-! ## Placements -/

theorem place_eq_ok_iff : place directive nodes edges = .ok ps ↔ ∃ strategy,
    directive.strategy.bind Strategy.ofName? = some strategy ∧ ∃ cells,
      strategy.cells? directive (.of (nodes.map (·.id)) edges) = some cells ∧
        ps = cells.map (·.placement nodes) := by
  rw [place]
  split
  · next hnone => simp [hnone]
  · next strategy hsome =>
    simp only [hsome, Option.some.injEq, exists_eq_left']
    cases strategy.cells? directive (.of (nodes.map (·.id)) edges) with
    | none => simp
    | some cells => simp [@eq_comm _ ps]

/-- The placements that a strategy makes are its cells. -/
theorem place_of_name {strategy : Strategy} (hs : directive.strategy = some strategy.name) :
    place directive nodes edges =
      (strategy.cells? directive (.of (nodes.map (·.id)) edges)).elim (.error .unmeasurable)
        fun cells => .ok (cells.map (·.placement nodes)) := by
  simp only [place, hs, Option.bind_some, Strategy.ofName?_name]
  cases strategy.cells? directive (.of (nodes.map (·.id)) edges) <;> rfl

theorem exists_cells_of_place {strategy : Strategy} (hs : directive.strategy = some strategy.name)
    (h : place directive nodes edges = .ok ps) : ∃ cells,
      strategy.cells? directive (.of (nodes.map (·.id)) edges) = some cells ∧
        ps = cells.map (·.placement nodes) := by
  rw [place_of_name hs] at h
  cases hcells : strategy.cells? directive (.of (nodes.map (·.id)) edges) with
  | some cells =>
    rw [hcells] at h
    exact ⟨cells, rfl, (Except.ok.inj h).symm⟩
  | none =>
    rw [hcells] at h
    cases h

theorem perm_nodes (hn : (nodes.map (·.id)).Nodup) :
    (Diagram.of (nodes.map (·.id)) edges).nodes.Perm (nodes.map (·.id)) := by
  refine (List.mergeSort_perm _ _).trans ?_
  refine (List.perm_ext_iff_of_nodup (nodup_distinct _) hn).mpr fun id => ?_
  rw [mem_distinct]

/-- The nodes are placed, each once. -/
theorem perm_of_place (hn : (nodes.map (·.id)).Nodup) (h : place directive nodes edges = .ok ps) :
    (ps.map (·.element)).Perm (nodes.map (·.id)) := by
  obtain ⟨strategy, -, cells, hcells, rfl⟩ := place_eq_ok_iff.mp h
  rw [List.map_map]
  exact (ids_cells (.of _ _) hcells).trans (perm_nodes hn)

/-- Every strategy places nodes with different ids, the circular one if it can measure a circle of
them. -/
theorem exists_place {strategy : Strategy} (hn : (nodes.map (·.id)).Nodup)
    (hs : directive.strategy = some strategy.name)
    (hcircle : strategy = .circular → (circleRadius? directive nodes.length).isSome = true) :
    ∃ ps, place directive nodes edges = .ok ps := by
  have hlength : (Diagram.of (nodes.map (·.id)) edges).nodes.length = nodes.length :=
    (perm_nodes hn).length_eq.trans (List.length_map _)
  rw [place_of_name hs]
  cases hcells : strategy.cells? directive (.of (nodes.map (·.id)) edges) with
  | some cells => exact ⟨_, rfl⟩
  | none =>
    obtain ⟨hcircular, hradius⟩ := cells?_eq_none hcells
    have hsome := hcircle hcircular
    rw [← hlength, hradius] at hsome
    cases hsome

/-- A node is grouped under its parent if that is placed too. -/
theorem group_of_place (h : place directive nodes edges = .ok ps) : ∀ p ∈ ps,
    p.group = (parentOf nodes p.element).filter fun x => nodes.any (·.id == x) := by
  obtain ⟨strategy, -, cells, -, rfl⟩ := place_eq_ok_iff.mp h
  intro p hp
  obtain ⟨c, -, rfl⟩ := List.mem_map.mp hp
  rfl

end SystemAtlas.Layout
