import Mathlib
import SystemAtlas.Proofs.Layout.Cycles
import SystemAtlas.Proofs.Layout.Ordering

/-! # The search for cycles step by step

A walk goes down a path by recursion. Written out, it is a search that keeps the path as a stack, of
ids with the successors it has still to look at, and moves by one successor at a time
(`Search.Step`). The search has only one way to go and comes to the end of the walk
(`Search.steps_walk`), so it always ends. It keeps no edge twice (`Search.Once`), hence the edges it
has kept, once sorted, are those that are left of the diagram (`Diagram.cycles_broken`). -/

namespace SystemAtlas.Layout

theorem Diagram.nodup_successors {d : Diagram} (h : d.edges.Nodup) (id : Text) :
    (d.successors id).Nodup := by
  refine (h.filter _).map_on fun e he f hf heq => ?_
  have hid : e.1 = id := by simpa using List.of_mem_filter he
  have hid' : f.1 = id := by simpa using List.of_mem_filter hf
  exact Prod.ext (hid.trans hid'.symm) heq

/-- A search on its way: the ids it has still to start from, the path it stands on, latest first,
each id with the successors it has still to look at, and what it has found. -/
structure Search where
  starts : List Text
  path : List (Text × List Text)
  found : Walk

namespace Search

/-- The ids on the path of a search. -/
def ids (s : Search) : List Text := s.path.map (·.1)

/-- The search through a diagram before its first step. -/
def start (d : Diagram) : Search := ⟨d.nodes, [], {}⟩

/-- One step of a search. With no path it takes the next id to start from. On a path it looks at the
next successor of the latest id: the edge there is dropped if it leads back to the path, else kept,
and followed unless the search is done with its end. Without a successor it is done with the id. -/
inductive Step (d : Diagram) : Search → Search → Prop where
  | pass {id : Text} {starts : List Text} {w : Walk} : id ∈ w.finished →
    Step d ⟨id :: starts, [], w⟩ ⟨starts, [], w⟩
  | begin {id : Text} {starts : List Text} {w : Walk} : id ∉ w.finished →
    Step d ⟨id :: starts, [], w⟩ ⟨starts, [(id, d.successors id)], w⟩
  | drop {id child : Text} {starts later : List Text} {path : List (Text × List Text)}
      {w : Walk} :
    child ∈ id :: path.map (·.1) →
    Step d ⟨starts, (id, child :: later) :: path, w⟩ ⟨starts, (id, later) :: path, w⟩
  | keep {id child : Text} {starts later : List Text} {path : List (Text × List Text)}
      {w : Walk} :
    child ∉ id :: path.map (·.1) → child ∈ w.finished →
    Step d ⟨starts, (id, child :: later) :: path, w⟩
      ⟨starts, (id, later) :: path, { w with kept := (id, child) :: w.kept }⟩
  | follow {id child : Text} {starts later : List Text} {path : List (Text × List Text)}
      {w : Walk} :
    child ∉ id :: path.map (·.1) → child ∉ w.finished →
    Step d ⟨starts, (id, child :: later) :: path, w⟩
      ⟨starts, (child, d.successors child) :: (id, later) :: path,
        { w with kept := (id, child) :: w.kept }⟩
  | finish {id : Text} {starts : List Text} {path : List (Text × List Text)} {w : Walk} :
    Step d ⟨starts, (id, []) :: path, w⟩ ⟨starts, path, { w with finished := id :: w.finished }⟩

/-- A search gets from one state to another in some number of steps. -/
abbrev Steps (d : Diagram) : Search → Search → Prop := Relation.ReflTransGen (Step d)

variable {d : Diagram} {s t u : Search} {starts children later : List Text}
  {path : List (Text × List Text)} {w : Walk} {id child : Text} {fuel : Nat}

/-! ## A search ends -/

theorem Step.unique (h : Step d s t) (h' : Step d s u) : t = u := by
  cases h with
  | pass hdone => cases h' with
    | pass => rfl
    | begin hnew => exact absurd hdone hnew
  | begin hnew => cases h' with
    | pass hdone => exact absurd hdone hnew
    | begin => rfl
  | drop hback => cases h' with
    | drop => rfl
    | keep hahead | follow hahead => exact absurd hback hahead
  | keep hahead hdone => cases h' with
    | drop hback => exact absurd hback hahead
    | keep => rfl
    | follow _ hnew => exact absurd hdone hnew
  | follow hahead hnew => cases h' with
    | drop hback => exact absurd hback hahead
    | keep _ hdone => exact absurd hdone hnew
    | follow => rfl
  | finish => cases h' with
    | finish => rfl

theorem rightUnique_step (d : Diagram) : Relator.RightUnique (Step d) := fun _ _ _ => Step.unique

/-- A search that can get to where no step is left cannot go on forever. -/
theorem Steps.acc (h : Steps d s t) (ht : ∀ u, ¬ Step d t u) : Acc (fun u s => Step d s u) s := by
  induction h using Relation.ReflTransGen.head_induction_on with
  | refl => exact ⟨_, fun u hu => absurd hu (ht u)⟩
  | head hstep _ ih => exact ⟨_, fun u hu => hstep.unique hu ▸ ih⟩

/-- A search can only be over in one state. -/
theorem Steps.eq_of_done (h : Steps d s t) (ht : ∀ u, ¬ Step d t u) (h' : Steps d s u)
    (hu : ∀ t, ¬ Step d u t) : u = t := by
  rcases Relation.ReflTransGen.total_of_right_unique (rightUnique_step d) h h' with h | h
  · rcases h.cases_head with heq | ⟨_, hstep, -⟩
    · exact heq.symm
    · exact absurd hstep (ht _)
  · rcases h.cases_head with heq | ⟨_, hstep, -⟩
    · exact heq
    · exact absurd hstep (hu _)

/-! ## A search is a walk -/

/-- What the search does with one successor, done for several one after the other. -/
theorem steps_foldl {step : Walk → Text → Walk}
    (hstep : ∀ w, ∀ child ∈ children, ∀ later, Steps d ⟨starts, (id, child :: later) :: path, w⟩
      ⟨starts, (id, later) :: path, step w child⟩) (w : Walk) :
    Steps d ⟨starts, (id, children) :: path, w⟩
      ⟨starts, (id, []) :: path, children.foldl step w⟩ := by
  induction children generalizing w with
  | nil => exact .refl
  | cons child children ih =>
    have hrest := ih (fun w x hx => hstep w x (List.mem_cons_of_mem child hx)) (step w child)
    exact (hstep w child List.mem_cons_self children).trans hrest

/-- From an id that it stands on, the search gets to where the visit of that id ends, as there is
fuel for every id that the path can still get to. -/
theorem steps_visit (hd : d.Whole) (hpath : (id :: path.map (·.1)).Nodup)
    (hnodes : id :: path.map (·.1) ⊆ d.nodes) (hfuel : path.length + fuel = d.nodes.length) :
    Steps d ⟨starts, (id, d.successors id) :: path, w⟩
      ⟨starts, path, Walk.visit d.successors fuel (path.map (·.1)) w id⟩ := by
  induction fuel generalizing path w id with
  | zero =>
    -- a path of different ids is no longer than the list of all of them
    have hlength := (List.subperm_of_subset hpath hnodes).length_le
    rw [List.length_cons, List.length_map] at hlength
    omega
  | succ fuel ih =>
    have hstep : ∀ w, ∀ child ∈ d.successors id, ∀ later,
        Steps d ⟨starts, (id, child :: later) :: path, w⟩ ⟨starts, (id, later) :: path,
          Walk.visit.step d.successors fuel (id :: path.map (·.1)) id w child⟩ := by
      intro w child hchild later
      rw [Walk.visit.step]
      split
      · next hback => exact .single (.drop (List.contains_iff_mem.mp hback))
      · next hahead =>
        have hahead : child ∉ id :: path.map (·.1) := by simpa using hahead
        dsimp only
        split
        · next hdone => exact .single (.keep hahead (List.contains_iff_mem.mp hdone))
        · next hnew =>
          have hchild := (hd _ (Diagram.mem_successors_iff.mp hchild)).2
          refine .head (.follow hahead (by simpa using hnew)) (ih ?_ ?_ ?_)
          · exact List.nodup_cons.mpr ⟨hahead, hpath⟩
          · exact List.cons_subset.mpr ⟨hchild, hnodes⟩
          · rw [List.length_cons]
            omega
    rw [Walk.visit]
    exact (steps_foldl hstep w).tail .finish

/-- The search through a diagram gets to where the walk over it ends. -/
theorem steps_walk (hd : d.Whole) : Steps d (start d) ⟨[], [], d.walk⟩ := by
  have hall : ∀ ids ⊆ d.nodes, ∀ w, Steps d ⟨ids, [], w⟩ ⟨[], [], ids.foldl (fun w id =>
      if w.finished.contains id then w
      else Walk.visit d.successors d.nodes.length [] w id) w⟩ := by
    intro ids hids
    induction ids with
    | nil => exact fun w => .refl
    | cons id ids ih =>
      intro w
      obtain ⟨hid, hids⟩ := List.cons_subset.mp hids
      refine .trans ?_ (ih hids _)
      dsimp only
      split
      · next hdone => exact .single (.pass (List.contains_iff_mem.mp hdone))
      · next hnew =>
        have hnodes : [id] ⊆ d.nodes := List.cons_subset.mpr ⟨hid, List.nil_subset _⟩
        refine .head (.begin (by simpa using hnew)) (steps_visit hd ?_ hnodes (Nat.zero_add _))
        exact List.nodup_singleton id
  exact hall d.nodes (List.Subset.refl _) {}

/-! ## A search keeps no edge twice -/

/-- A search has kept no edge twice. The edges it has kept start from ids that it is done with or
that are on its path, and those it has still to look at are others. -/
structure Once (s : Search) : Prop where
  kept : s.found.kept.Nodup
  started : ∀ e ∈ s.found.kept, e.1 ∈ s.found.finished ∨ e.1 ∈ s.ids
  path : s.ids.Nodup
  apart : ∀ id ∈ s.ids, id ∉ s.found.finished
  ahead : ∀ p ∈ s.path, p.2.Nodup ∧ ∀ child ∈ p.2, (p.1, child) ∉ s.found.kept

theorem Once.start (d : Diagram) : Once (start d) := by
  constructor <;> simp [Search.start, ids]

/-- The search goes to an id that it has not met. -/
theorem Once.go (hs : Once ⟨starts, path, w⟩) (hid : id ∉ w.finished) (hpath : id ∉ path.map (·.1))
    (hchildren : children.Nodup) (starts' : List Text) :
    Once ⟨starts', (id, children) :: path, w⟩ where
  kept := hs.kept
  started e he := (hs.started e he).imp_right (List.mem_cons_of_mem id)
  path := List.nodup_cons.mpr ⟨hpath, hs.path⟩
  apart x hx := by
    rcases List.mem_cons.mp hx with rfl | hx
    · exact hid
    · exact hs.apart x hx
  ahead p hp := by
    rcases List.mem_cons.mp hp with rfl | hp
    · refine ⟨hchildren, fun child _ hkept => ?_⟩
      exact (hs.started _ hkept).elim hid hpath
    · exact hs.ahead p hp

/-- The search passes over an edge. -/
theorem Once.drop (hs : Once ⟨starts, (id, child :: later) :: path, w⟩) :
    Once ⟨starts, (id, later) :: path, w⟩ where
  kept := hs.kept
  started := hs.started
  path := hs.path
  apart := hs.apart
  ahead p hp := by
    rcases List.mem_cons.mp hp with rfl | hp
    · obtain ⟨hnodup, hnew⟩ := hs.ahead _ List.mem_cons_self
      exact ⟨(List.nodup_cons.mp hnodup).2, fun x hx => hnew x (List.mem_cons_of_mem child hx)⟩
    · exact hs.ahead p (List.mem_cons_of_mem _ hp)

/-- The search keeps an edge. -/
theorem Once.keep (hs : Once ⟨starts, (id, child :: later) :: path, w⟩) :
    Once ⟨starts, (id, later) :: path, { w with kept := (id, child) :: w.kept }⟩ where
  kept := List.nodup_cons.mpr ⟨(hs.ahead _ List.mem_cons_self).2 child List.mem_cons_self, hs.kept⟩
  started e he := by
    rcases List.mem_cons.mp he with rfl | he
    · exact .inr List.mem_cons_self
    · exact hs.started e he
  path := hs.path
  apart := hs.apart
  ahead p hp := by
    obtain ⟨hnodup, hnew⟩ := hs.drop.ahead p hp
    refine ⟨hnodup, fun x hx hkept => ?_⟩
    rcases List.mem_cons.mp hkept with heq | hkept
    · obtain ⟨hid, hx'⟩ := Prod.mk.inj heq
      rcases List.mem_cons.mp hp with rfl | hp
      · -- the same successor is not looked at again
        exact (List.nodup_cons.mp (hs.ahead _ List.mem_cons_self).1).1 (hx' ▸ hx)
      · -- no other id of the path is the start of the edge
        have hmem : p.1 ∈ path.map (·.1) := List.mem_map_of_mem hp
        exact (List.nodup_cons.mp hs.path).1 (hid ▸ hmem)
    · exact hnew x hx hkept

/-- The search is done with an id. -/
theorem Once.finish (hs : Once ⟨starts, (id, children) :: path, w⟩) :
    Once ⟨starts, path, { w with finished := id :: w.finished }⟩ where
  kept := hs.kept
  started e he := by
    rcases hs.started e he with he | he
    · exact .inl (List.mem_cons_of_mem id he)
    · rcases List.mem_cons.mp he with he | he
      · exact .inl (List.mem_cons.mpr (.inl he))
      · exact .inr he
  path := (List.nodup_cons.mp hs.path).2
  apart x hx hmem := by
    rcases List.mem_cons.mp hmem with rfl | hmem
    · exact (List.nodup_cons.mp hs.path).1 hx
    · exact hs.apart x (List.mem_cons_of_mem id hx) hmem
  ahead p hp := hs.ahead p (List.mem_cons_of_mem _ hp)

/-- Every step of a search keeps it so. -/
theorem Once.step (hd : d.edges.Nodup) (hs : Once s) (h : Step d s t) : Once t := by
  cases h with
  | pass => exact ⟨hs.kept, hs.started, hs.path, hs.apart, hs.ahead⟩
  | begin hnew => exact hs.go hnew List.not_mem_nil (Diagram.nodup_successors hd _) _
  | drop => exact hs.drop
  | keep => exact hs.keep
  | follow hahead hnew => exact hs.keep.go hnew hahead (Diagram.nodup_successors hd _) _
  | finish => exact hs.finish

/-- Wherever a search is, it has kept no edge twice. -/
theorem Once.steps (hd : d.edges.Nodup) (h : Steps d (Search.start d) s) : Once s := by
  induction h with
  | refl => exact .start d
  | tail _ hstep ih => exact ih.step hd hstep

/-- A search always ends, and where it is over it has found what the walk finds. -/
theorem ends (hd : d.Whole) : Acc (fun t s => Step d s t) (start d) ∧
    ∀ s, Steps d (start d) s → (∀ t, ¬ Step d s t) → s = ⟨[], [], d.walk⟩ := by
  have hover : ∀ t, ¬ Step d ⟨[], [], d.walk⟩ t := nofun
  exact ⟨(steps_walk hd).acc hover, fun s hs hdone => (steps_walk hd).eq_of_done hover hs hdone⟩

end Search

namespace Diagram

variable {d : Diagram} {s : Search}

/-- The edges that a search has kept, once sorted, are those that are left of the diagram. -/
theorem mergeSort_kept (hsorted : d.edges.Pairwise fun e f => e.le f = true) (hn : d.edges.Nodup)
    (hd : d.Whole) : d.walk.kept.mergeSort Edge.le = d.acyclic.edges := by
  have honce : d.walk.kept.Nodup := (Search.Once.steps hn (Search.steps_walk hd)).kept
  have hleft : d.acyclic.edges.Pairwise fun e f => e.le f = true := hsorted.filter _
  rw [← List.mergeSort_of_pairwise hleft]
  exact mergeSort_congr (fun _ _ _ => Edge.le_trans) Edge.le_total (fun _ _ => Edge.le_antisymm)
    honce (hn.filter _) fun _ => mem_acyclic_iff.symm

/-- Breaking the cycles of a diagram with sorted edges. The search for them always ends, and what it
has kept then, once sorted, is what is left of the edges. That is a part of them in their order,
without cycles. Of the edges that are dropped, each closes a cycle with what is left; so none is
dropped if there are no cycles. -/
theorem cycles_broken (hd : d.Whole)
    (hsorted : d.edges.Pairwise fun e f => e.le f = true ∧ e ≠ f) :
    Acc (fun t s => Search.Step d s t) (Search.start d) ∧
    (∀ s, Search.Steps d (Search.start d) s → (∀ t, ¬ Search.Step d s t) →
      s.found.kept.mergeSort Edge.le = d.acyclic.edges) ∧
    (d.acyclic.edges.Pairwise fun e f => e.le f = true ∧ e ≠ f) ∧
    d.acyclic.edges ⊆ d.edges ∧
    Acyclic {e | e ∈ d.acyclic.edges} ∧
    (∀ e ∈ d.edges, e ∉ d.acyclic.edges → ∃ n, Path {e | e ∈ d.acyclic.edges} n e.2 e.1) ∧
    (Acyclic {e | e ∈ d.edges} → d.acyclic = d) := by
  obtain ⟨hends, hover⟩ := Search.ends hd
  refine ⟨hends, fun s hs hdone => ?_, hsorted.filter _, List.filter_subset_self _,
    acyclic_edges hd, fun e => path_of_dropped hd, acyclic_eq hd⟩
  rw [hover s hs hdone]
  exact mergeSort_kept (hsorted.imp And.left) (hsorted.imp And.right) hd

/-- The edges of a diagram that is made from any are sorted, and none is there twice. -/
theorem pairwise_edges_of (ids : List Text) (edges : List Edge) :
    (Diagram.of ids edges).edges.Pairwise fun e f => e.le f = true ∧ e ≠ f := by
  have hsorted := @List.pairwise_mergeSort _ Edge.le (fun _ _ _ => Edge.le_trans) Edge.le_total
  exact (hsorted _).and ((List.mergeSort_perm _ _).nodup_iff.mpr (nodup_distinct _))

/-- Two circles that share an edge, and an edge that leaves them. -/
def knot : Diagram :=
  .of ["d", "c", "a", "b", "e"]
    [("d", "e"), ("d", "a"), ("c", "a"), ("b", "d"), ("b", "c"), ("a", "b")]

theorem knot_broken : knot.Whole ∧
    (knot.edges.Pairwise fun e f => e.le f = true ∧ e ≠ f) ∧
    knot.acyclic.edges = ([("a", "b"), ("b", "c"), ("b", "d"), ("d", "e")] : List Edge) ∧
    (∀ s, Search.Steps knot (Search.start knot) s → (∀ t, ¬ Search.Step knot s t) →
      s.found.kept.mergeSort Edge.le = knot.acyclic.edges) ∧
    ∃ n, Path {e | e ∈ knot.acyclic.edges} n "a" "d" := by
  have hd : knot.Whole := .of _ _
  have hsorted : knot.edges.Pairwise fun e f => e.le f = true ∧ e ≠ f := pairwise_edges_of _ _
  obtain ⟨-, hkept, -, -, -, hdropped, -⟩ := cycles_broken hd hsorted
  have hleft : knot.acyclic.edges =
      ([("a", "b"), ("b", "c"), ("b", "d"), ("d", "e")] : List Edge) := by
    cbv
  refine ⟨hd, hsorted, hleft, hkept, hdropped ("d", "a") ?_ ?_⟩
  · exact mem_edges_of.mpr (by decide +kernel)
  · rw [hleft]
    decide +kernel

end Diagram

end SystemAtlas.Layout
