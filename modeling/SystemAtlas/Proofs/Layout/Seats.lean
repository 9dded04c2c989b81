import SystemAtlas.Proofs.Layout.Ranks

/-! # Every seat is taken once

The seat of a placement is its rank and its order. Whatever the strategy, the placements come by
their seats, and the seats leave no gaps (`tight_of_cells`). Other than on a circle, what sits in
different seats stands at different positions (`seat_eq_of_position`). A circle may be too wide to
be measured (`circleRadius?_eq_none_iff`), and nothing else keeps elements from being placed
(`seated_of_place`). -/

namespace SystemAtlas.Layout

/-! ## Seats without gaps -/

/-- Ranks and orders in strictly increasing order. The ranks are all numbers below some number, and
so are the orders of every rank, each once. -/
structure Tight (seats : List (Nat × Nat)) : Prop where
  increasing : seats.Pairwise (Prod.Lex (· < ·) (· < ·))
  ranks : ∃ m, ∀ k, k < m ↔ ∃ s ∈ seats, s.1 = k
  orders : ∀ k, ∃ n, (seats.filter (·.1 == k)).map (·.2) = List.range n

section
variable {xs : List Nat}

/-- Numbers with all smaller ones are the numbers below some number. -/
theorem exists_bound_of_downward (h : ∀ a ∈ xs, ∀ k < a, k ∈ xs) : ∃ m, ∀ k, k < m ↔ k ∈ xs := by
  cases hmax : xs.max? with
  | none =>
    rw [List.max?_eq_none_iff.mp hmax]
    exact ⟨0, fun k => iff_of_false (Nat.not_lt_zero k) List.not_mem_nil⟩
  | some a =>
    obtain ⟨ha, hle⟩ := List.max?_eq_some_iff.mp hmax
    refine ⟨a + 1, fun k => ⟨fun hk => ?_, fun hk => Nat.lt_succ_of_le (hle k hk)⟩⟩
    rcases Nat.lt_succ_iff_lt_or_eq.mp hk with hk | rfl
    · exact h a ha k hk
    · exact ha

theorem exists_eq_range (hlt : xs.Pairwise (· < ·)) (h : ∀ a ∈ xs, ∀ k < a, k ∈ xs) :
    ∃ n, xs = List.range n := by
  obtain ⟨n, hn⟩ := exists_bound_of_downward h
  have hperm : xs.Perm (List.range n) :=
    (List.perm_ext_iff_of_nodup hlt.nodup List.nodup_range).mpr
      fun k => (hn k).symm.trans List.mem_range.symm
  refine ⟨n, hperm.eq_of_pairwise (fun a b _ _ hab hba => ?_) hlt List.pairwise_lt_range⟩
  exact absurd hab (Nat.lt_asymm hba)

end

/-- Seats in increasing order leave no gaps if there are all smaller ranks, and all smaller orders
of each rank. -/
theorem Tight.of_downward {seats : List (Nat × Nat)}
    (hlt : seats.Pairwise (Prod.Lex (· < ·) (· < ·)))
    (hranks : ∀ s ∈ seats, ∀ k < s.1, ∃ t ∈ seats, t.1 = k)
    (horders : ∀ s ∈ seats, ∀ k < s.2, (s.1, k) ∈ seats) : Tight seats where
  increasing := hlt
  ranks := by
    have hdown : ∀ a ∈ seats.map (·.1), ∀ k < a, k ∈ seats.map (·.1) := by
      intro a ha k hk
      obtain ⟨s, hs, rfl⟩ := List.mem_map.mp ha
      obtain ⟨t, ht, rfl⟩ := hranks s hs k hk
      exact List.mem_map_of_mem ht
    obtain ⟨m, hm⟩ := exists_bound_of_downward hdown
    exact ⟨m, fun k => (hm k).trans List.mem_map⟩
  orders k := by
    have hmem : ∀ {n}, n ∈ (seats.filter (·.1 == k)).map (·.2) ↔ (k, n) ∈ seats := by
      intro n
      simp only [List.mem_map, List.mem_filter, beq_iff_eq]
      constructor
      · rintro ⟨s, ⟨hs, rfl⟩, rfl⟩
        exact hs
      · intro h
        exact ⟨(k, n), ⟨h, rfl⟩, rfl⟩
    refine exists_eq_range ?_ fun a ha n hn => hmem.mpr (horders _ (hmem.mp ha) n hn)
    rw [List.pairwise_map]
    refine (hlt.filter _).imp_of_mem fun {s t} hs ht hst => ?_
    have hs : s.1 = k := eq_of_beq (List.mem_filter.mp hs).2
    have ht : t.1 = k := eq_of_beq (List.mem_filter.mp ht).2
    rcases Prod.lex_def.mp hst with hlt | ⟨-, hlt⟩
    · omega
    · exact hlt

/-! ## Seats of cells -/

/-- The rank and the order of a cell. -/
def Cell.seat (c : Cell) : Nat × Nat := (c.rank, c.order)

/-- The rank and the order of a placement. -/
def Placement.seat (p : Placement) : Nat × Nat := (p.rank, p.order)

variable {directive : Directive} {strategy : Strategy} {d : Diagram} {cells : List Cell}
  {c c' : Cell} {ids : List Text} {layers : List (List Text)} {reversed vertical : Bool}

theorem pairwise_zipIdx (xs : List α) : xs.zipIdx.Pairwise fun p q => p.2 < q.2 := by
  have hlt : (xs.zipIdx.map Prod.snd).Pairwise (· < ·) := by
    rw [List.zipIdx_map_snd]
    exact List.pairwise_lt_range'
  exact List.pairwise_map.mp hlt

theorem seats_layeredCells : (layeredCells directive reversed vertical layers).map (·.seat) =
    layers.zipIdx.flatMap fun p => p.1.zipIdx.map fun q => (p.2, q.2) := by
  rw [layeredCells, List.map_flatMap]
  refine List.flatMap_congr fun p _ => ?_
  rw [List.map_map]
  refine List.map_congr_left fun q _ => ?_
  cases vertical <;> rfl

theorem mem_seats_layeredCells_iff {s : Nat × Nat} :
    s ∈ (layeredCells directive reversed vertical layers).map (·.seat) ↔
      s.2 < (layers.getD s.1 []).length := by
  rw [List.mem_map]
  constructor
  · rintro ⟨c, hc, rfl⟩
    exact (List.getElem?_eq_some_iff.mp (mem_layeredCells_iff.mp hc).1).1
  · intro h
    obtain ⟨c, hc, -, hrank, horder⟩ := exists_layeredCell (List.getElem?_eq_getElem h)
    exact ⟨c, hc, Prod.ext hrank horder⟩

/-- Layers leave no gaps between seats if there is something in every layer before one in which
there is something. -/
theorem tight_layeredCells (h : ∀ k, layers.getD (k + 1) [] ≠ [] → layers.getD k [] ≠ []) :
    Tight ((layeredCells directive reversed vertical layers).map (·.seat)) := by
  refine .of_downward ?_ (fun s hs k hk => ?_) fun s hs k hk => ?_
  · rw [seats_layeredCells, List.pairwise_flatMap]
    constructor
    · intro p _
      rw [List.pairwise_map]
      refine (pairwise_zipIdx p.1).imp fun {a b} hlt => ?_
      exact Prod.lex_def.mpr (.inr ⟨rfl, hlt⟩)
    · refine (pairwise_zipIdx layers).imp fun {p q} hlt a ha b hb => ?_
      obtain ⟨x, -, rfl⟩ := List.mem_map.mp ha
      obtain ⟨y, -, rfl⟩ := List.mem_map.mp hb
      exact Prod.Lex.left _ _ hlt
  · have hne : layers.getD s.1 [] ≠ [] :=
      List.ne_nil_of_length_pos (Nat.zero_lt_of_lt (mem_seats_layeredCells_iff.mp hs))
    have hlower : layers.getD k [] ≠ [] :=
      Nat.decreasingInduction (motive := fun k _ => layers.getD k [] ≠ []) (fun k _ => h k) hne
        (Nat.le_of_lt hk)
    exact ⟨(k, 0), mem_seats_layeredCells_iff.mpr (List.length_pos_of_ne_nil hlower), rfl⟩
  · exact mem_seats_layeredCells_iff.mpr (Nat.lt_trans hk (mem_seats_layeredCells_iff.mp hs))

/-- The number of columns of a grid. -/
def columns (ids : List Text) : Nat := max 1 (squareSide ids.length)

theorem columns_pos (ids : List Text) : 0 < columns ids := Nat.le_max_left 1 _

theorem mem_gridCells (h : c ∈ gridCells directive ids) : c.x = c.order * directive.nodeSeparation ∧
    c.y = c.rank * directive.rankSeparation := by
  obtain ⟨p, -, rfl⟩ := List.mem_map.mp h
  exact ⟨rfl, rfl⟩

theorem seats_gridCells : (gridCells directive ids).map (·.seat) =
    (List.range ids.length).map fun i => (i / columns ids, i % columns ids) := by
  rw [gridCells, List.map_map, List.range_eq_range', ← List.zipIdx_map_snd, List.map_map]
  rfl

theorem mem_seats_gridCells_iff {s : Nat × Nat} : s ∈ (gridCells directive ids).map (·.seat) ↔
    s.2 < columns ids ∧ columns ids * s.1 + s.2 < ids.length := by
  rw [seats_gridCells, List.mem_map]
  constructor
  · rintro ⟨i, hi, rfl⟩
    refine ⟨Nat.mod_lt i (columns_pos ids), ?_⟩
    rw [Nat.div_add_mod]
    exact List.mem_range.mp hi
  · rintro ⟨hcolumn, hlt⟩
    refine ⟨columns ids * s.1 + s.2, List.mem_range.mpr hlt, ?_⟩
    rw [Nat.mul_add_div (columns_pos ids), Nat.div_eq_of_lt hcolumn, Nat.mul_add_mod,
      Nat.mod_eq_of_lt hcolumn]
    rfl

theorem tight_gridCells : Tight ((gridCells directive ids).map (·.seat)) := by
  refine .of_downward ?_ (fun s hs k hk => ?_) fun s hs k hk => ?_
  · rw [seats_gridCells, List.pairwise_map]
    refine List.pairwise_lt_range.imp fun {i j} hlt => Prod.lex_def.mpr ?_
    rcases Nat.lt_or_eq_of_le (Nat.div_le_div_right (Nat.le_of_lt hlt)) with hrow | hrow
    · exact .inl hrow
    · have hi := Nat.div_add_mod i (columns ids)
      have hj := Nat.div_add_mod j (columns ids)
      rw [hrow] at hi
      refine .inr ⟨hrow, ?_⟩
      dsimp only
      omega
  · obtain ⟨-, hlt⟩ := mem_seats_gridCells_iff.mp hs
    refine ⟨(k, 0), mem_seats_gridCells_iff.mpr ⟨columns_pos ids, ?_⟩, rfl⟩
    have hrows := Nat.mul_le_mul_left (columns ids) (Nat.le_of_lt hk)
    dsimp only
    omega
  · obtain ⟨hcolumn, hlt⟩ := mem_seats_gridCells_iff.mp hs
    refine mem_seats_gridCells_iff.mpr ⟨Nat.lt_trans hk hcolumn, ?_⟩
    dsimp only
    omega

theorem seats_circleCells (h : circleCells? directive ids = some cells) :
    cells.map (·.seat) = (List.range ids.length).map fun i => (0, i) := by
  rw [circleCells?, Option.map_eq_some_iff] at h
  obtain ⟨radius, -, rfl⟩ := h
  rw [List.map_map, List.range_eq_range', ← List.zipIdx_map_snd, List.map_map]
  rfl

theorem tight_circleCells (h : circleCells? directive ids = some cells) :
    Tight (cells.map (·.seat)) := by
  have hmem : ∀ s, s ∈ cells.map (·.seat) ↔ s.1 = 0 ∧ s.2 < ids.length := by
    intro s
    rw [seats_circleCells h, List.mem_map]
    constructor
    · rintro ⟨i, hi, rfl⟩
      exact ⟨rfl, List.mem_range.mp hi⟩
    · rintro ⟨hrank, hlt⟩
      exact ⟨s.2, List.mem_range.mpr hlt, Prod.ext hrank.symm rfl⟩
  refine .of_downward ?_ (fun s hs k hk => ?_) fun s hs k hk => ?_
  · rw [seats_circleCells h, List.pairwise_map]
    refine List.pairwise_lt_range.imp fun {i j} hlt => ?_
    exact Prod.lex_def.mpr (.inr ⟨rfl, hlt⟩)
  · rw [((hmem s).mp hs).1] at hk
    exact absurd hk (Nat.not_lt_zero k)
  · obtain ⟨hrank, hlt⟩ := (hmem s).mp hs
    exact (hmem _).mpr ⟨hrank, Nat.lt_trans hk hlt⟩

/-- Whatever the strategy, the seats of the cells come in order and leave no gaps. -/
theorem tight_of_cells (hd : d.Whole) (h : strategy.cells? directive d = some cells) :
    Tight (cells.map (·.seat)) := by
  have hlayers : ∀ k, d.orderedLayers.getD (k + 1) [] ≠ [] → d.orderedLayers.getD k [] ≠ [] := by
    intro k hne
    obtain ⟨id, hid⟩ := List.exists_mem_of_ne_nil _ hne
    obtain ⟨p, hp, -⟩ := (Diagram.layering hd).predecessor k id hid
    exact List.ne_nil_of_mem hp
  cases strategy with
  | grid => exact Option.some.inj h ▸ tight_gridCells
  | circular => exact tight_circleCells h
  | _ => exact Option.some.inj h ▸ tight_layeredCells hlayers

/-! ## Positions of cells -/

/-- With distances between ranks and neighbours, the positions in layers tell the seats. -/
theorem eq_of_layeredPosition {count rank rank' order order' : Nat} (hrank : rank < count)
    (hrank' : rank' < count) (hranks : directive.rankSeparation ≠ 0)
    (hneighbours : directive.nodeSeparation ≠ 0)
    (h : layeredPosition directive reversed vertical count rank order =
      layeredPosition directive reversed vertical count rank' order') :
    rank = rank' ∧ order = order' := by
  have hsame : ∀ step step' : Nat,
      (step : Int) * directive.rankSeparation = step' * directive.rankSeparation →
      (order : Int) * directive.nodeSeparation = order' * directive.nodeSeparation →
      step = step' ∧ order = order' := by
    intro step step' hstep horder
    exact ⟨Int.ofNat.inj (Int.eq_of_mul_eq_mul_right hranks hstep),
      Int.ofNat.inj (Int.eq_of_mul_eq_mul_right hneighbours horder)⟩
  have hstep : (if reversed then count - 1 - rank else rank) =
      (if reversed then count - 1 - rank' else rank') ∧ order = order' := by
    cases vertical with
    | true => exact hsame _ _ (Prod.mk.inj h).2 (Prod.mk.inj h).1
    | false => exact hsame _ _ (Prod.mk.inj h).1 (Prod.mk.inj h).2
  refine ⟨?_, hstep.2⟩
  cases reversed with
  | true =>
    have hlast : count - 1 - rank = count - 1 - rank' := hstep.1
    omega
  | false => exact hstep.1

/-- With distances between ranks and neighbours, cells at one position have one seat, except on a
circle. -/
theorem seat_eq_of_position (hcircle : strategy ≠ .circular)
    (hranks : directive.rankSeparation ≠ 0) (hneighbours : directive.nodeSeparation ≠ 0)
    (h : strategy.cells? directive d = some cells) (hc : c ∈ cells) (hc' : c' ∈ cells)
    (hposition : (c.x, c.y) = (c'.x, c'.y)) : c.seat = c'.seat := by
  by_cases hgrid : strategy = .grid
  · cases hgrid
    cases Option.some.inj h
    obtain ⟨hx, hy⟩ := Prod.mk.inj hposition
    rw [(mem_gridCells hc).1, (mem_gridCells hc').1] at hx
    rw [(mem_gridCells hc).2, (mem_gridCells hc').2] at hy
    exact Prod.ext (Int.ofNat.inj (Int.eq_of_mul_eq_mul_right hranks hy))
      (Int.ofNat.inj (Int.eq_of_mul_eq_mul_right hneighbours hx))
  · obtain ⟨reversed, vertical, rfl⟩ := exists_layeredCells hgrid hcircle h
    have hrank : ∀ {c}, c ∈ layeredCells directive reversed vertical d.orderedLayers →
        c.rank < d.orderedLayers.length := by
      intro c hc
      by_contra hle
      have hseat := (mem_layeredCells_iff.mp hc).1
      rw [List.getD_eq_getElem?_getD, List.getElem?_eq_none (Nat.le_of_not_lt hle)] at hseat
      cases hseat
    rw [(mem_layeredCells_iff.mp hc).2, (mem_layeredCells_iff.mp hc').2] at hposition
    obtain ⟨hsame, hsame'⟩ :=
      eq_of_layeredPosition (hrank hc) (hrank hc') hranks hneighbours hposition
    exact Prod.ext hsame hsame'

/-- Cells with different seats have different positions, except on a circle. -/
theorem nodup_positions (hcircle : strategy ≠ .circular) (hranks : directive.rankSeparation ≠ 0)
    (hneighbours : directive.nodeSeparation ≠ 0) (h : strategy.cells? directive d = some cells)
    (htight : Tight (cells.map (·.seat))) : (cells.map fun c => (c.x, c.y)).Nodup := by
  have hincreasing := List.pairwise_map.mp htight.increasing
  refine List.pairwise_map.mpr (hincreasing.imp_of_mem fun {a b} ha hb hlt hposition => ?_)
  rw [seat_eq_of_position hcircle hranks hneighbours h ha hb hposition, Prod.lex_def] at hlt
  omega

/-! ## Circles that cannot be measured -/

/-- The least whole number that is too large to be near a finite double. -/
def measureLimit : Nat := Nat.pow 2 1024 - Nat.pow 2 970

theorem measure?_eq_none_iff {i : Int} : measure? i = none ↔ measureLimit ≤ i.natAbs := by
  rw [measure?, measureLimit]
  split
  · next hlt => exact iff_of_false (Option.some_ne_none _) (Nat.not_le_of_lt hlt)
  · next hle => exact iff_of_true rfl (Nat.le_of_not_lt hle)

/-- A circle is too wide to be measured: all the distances between its neighbours together are too
large, or the distance between ranks is, and there is something to place. -/
def TooWide (directive : Directive) (count : Nat) : Prop :=
  measureLimit ≤ (count * directive.nodeSeparation).natAbs ∨
    count ≠ 0 ∧ measureLimit ≤ directive.rankSeparation

theorem circleRadius?_eq_none_iff {count : Nat} :
    circleRadius? directive count = none ↔ TooWide directive count := by
  rw [TooWide, ← measure?_eq_none_iff, circleRadius?]
  cases hneeded : measure? (count * directive.nodeSeparation) with
  | none => exact iff_of_true rfl (.inl rfl)
  | some needed =>
    cases hleast : measure? directive.rankSeparation with
    | none =>
      have hlarge := measure?_eq_none_iff.mp hleast
      simp only [Option.bind_eq_bind, Option.bind_some, ite_eq_right_iff, reduceCtorEq, imp_false,
        Bool.or_eq_true, decide_eq_true_eq, false_or]
      omega
    | some least =>
      have hsmall : ¬ measureLimit ≤ directive.rankSeparation.natAbs := by
        rw [← measure?_eq_none_iff, hleast]
        exact Option.some_ne_none least
      simp only [Option.bind_eq_bind, Option.bind_some, reduceCtorEq, false_or, false_iff]
      omega

theorem cells?_eq_none_iff : strategy.cells? directive d = none ↔
    strategy = .circular ∧ TooWide directive d.nodes.length := by
  rw [← circleRadius?_eq_none_iff]
  constructor
  · exact cells?_eq_none
  · rintro ⟨rfl, h⟩
    rw [Strategy.cells?, circleCells?, h, Option.map_none]

/-- Nodes with different ids are placed, unless they are to form a circle that is too wide. -/
theorem place_eq_unmeasurable_iff {nodes : List Node} {edges : List Edge}
    (hn : (nodes.map (·.id)).Nodup) (hs : directive.strategy = some strategy.name) :
    place directive nodes edges = .error .unmeasurable ↔
      strategy = .circular ∧ TooWide directive nodes.length := by
  have hlength : (Diagram.of (nodes.map (·.id)) edges).nodes.length = nodes.length :=
    (perm_nodes hn).length_eq.trans (List.length_map _)
  rw [← hlength, ← cells?_eq_none_iff, place_of_name hs]
  cases strategy.cells? directive (Diagram.of (nodes.map (·.id)) edges) <;> simp

/-! ## Elements -/

/-- Elements cannot be placed on a circle that is too wide to be measured. Otherwise every strategy
places each of them once, in increasing order of the seats and without gaps between them. Other than
on a circle, no two of them are at one position if neither of the distances is zero. -/
theorem seated_of_place {es : List Model.Element} {rs : List Model.Relationship}
    (hn : (es.map (·.id)).Nodup) {directive : Directive} {strategy : Strategy}
    (hs : directive.strategy = some strategy.name) :
    let placed := place directive (es.map fun e => ⟨e.id, e.parent⟩)
      (rs.map fun r => (r.source, r.destination))
    (placed = .error .unmeasurable ↔ strategy = .circular ∧ TooWide directive es.length) ∧
      (¬ (strategy = .circular ∧ TooWide directive es.length) →
        ∃ ps, placed = .ok ps ∧ (ps.map (·.element)).Perm (es.map (·.id)) ∧
          Tight (ps.map (·.seat)) ∧
          (strategy ≠ .circular → directive.rankSeparation ≠ 0 → directive.nodeSeparation ≠ 0 →
            (ps.map fun p => (p.x, p.y)).Nodup)) := by
  have hids : (es.map fun e => (⟨e.id, e.parent⟩ : Node)).map (·.id) = es.map (·.id) :=
    List.map_map
  have hwhole := Diagram.Whole.of (es.map (·.id)) (rs.map fun r => (r.source, r.destination))
  have hperm : (Diagram.of (es.map (·.id)) (rs.map fun r => (r.source, r.destination))).nodes.Perm
      (es.map (·.id)) := hids ▸ perm_nodes (hids ▸ hn)
  dsimp only
  rw [place_of_name hs, hids]
  generalize Diagram.of (es.map (·.id)) (rs.map fun r => (r.source, r.destination)) = d
    at hwhole hperm ⊢
  have hnone : strategy.cells? directive d = none ↔
      strategy = .circular ∧ TooWide directive es.length := by
    rw [cells?_eq_none_iff, hperm.length_eq, List.length_map]
  cases hcells : strategy.cells? directive d with
  | none =>
    have hwide := hnone.mp hcells
    exact ⟨iff_of_true rfl hwide, fun h => absurd hwide h⟩
  | some cells =>
    have hplaced : ¬ (strategy = .circular ∧ TooWide directive es.length) := by
      rw [← hnone, hcells]
      exact Option.some_ne_none cells
    have htight := tight_of_cells hwhole hcells
    refine ⟨iff_of_false (fun h => by cases h) hplaced, fun _ => ⟨_, rfl, ?_, ?_, ?_⟩⟩
    · rw [List.map_map]
      exact (ids_cells hwhole hcells).trans hperm
    · rw [List.map_map]
      exact htight
    · intro hcircle hranks hneighbours
      rw [List.map_map]
      exact nodup_positions hcircle hranks hneighbours hcells htight

/-- A grid. -/
def square : Directive :=
  { strategy := some Strategy.grid.name, rankSeparation := 300, nodeSeparation := 200 }

/-- The ring fills the first row of a square and half of the second. -/
theorem ring_seated : (ring.1.map (·.id)).Nodup ∧ ∃ ps,
    place square (ring.1.map fun e => ⟨e.id, e.parent⟩)
        (ring.2.map fun r => (r.source, r.destination)) = .ok ps ∧
      ps.map (·.seat) = [(0, 0), (0, 1), (1, 0)] ∧ Tight (ps.map (·.seat)) ∧
      (ps.map fun p => (p.x, p.y)).Nodup := by
  have hn : (ring.1.map (·.id)).Nodup := by decide +kernel
  have hseats : (place square (ring.1.map fun e => ⟨e.id, e.parent⟩)
      (ring.2.map fun r => (r.source, r.destination))).toOption.map (·.map (·.seat)) =
        some [(0, 0), (0, 1), (1, 0)] := by
    cbv
  have hs : square.strategy = some Strategy.grid.name := rfl
  obtain ⟨ps, hps, -, htight, hpositions⟩ :=
    (@seated_of_place _ ring.2 hn _ _ hs).2 fun h => absurd h.1 (by decide)
  rw [hps] at hseats
  exact ⟨hn, ps, hps, Option.some.inj hseats, htight,
    hpositions (by decide) (by decide) (by decide)⟩

/-- A circle with a distance between ranks that no finite double is near to. -/
def wideCircle : Directive :=
  { strategy := some Strategy.circular.name
    rankSeparation := Int.ofNat (Nat.pow 10 400)
    nodeSeparation := 1 }

/-- Not even one element can be placed on this circle. -/
theorem wide_circle_unplaced : ¬ ∃ ps, place wideCircle [⟨"a", none⟩] [] = .ok ps := by
  have h : (place wideCircle [⟨"a", none⟩] []).isOk = false := by decide +kernel
  rintro ⟨ps, hps⟩
  rw [hps] at h
  cases h

end SystemAtlas.Layout
