import Mathlib.Data.List.Nodup
import Mathlib.Data.List.Perm.Subperm
import SystemAtlas.Layout.Acyclic

/-! # Diagrams without cycles

A depth-first walk is done with the end of every edge it keeps before it is done with its start
(`Walk.visit_leads`). So the ids of a diagram can be numbered such that every edge it keeps leads to
a greater number (`Diagram.exists_height`), and no cycle is left. -/

namespace SystemAtlas.Layout

namespace Walk

variable {next : Text → List Text} {nodes path : List Text} {w w' w'' : Walk} {id child : Text}
  {fuel : Nat}

/-- What part of a walk does, on a path with the latest id first. It is done with more ids, once
each and none on the path. It is done with the end of every edge that it keeps before it is done
with the start, except that the start may be the latest id of the path. -/
structure Leads (path : List Text) (w w' : Walk) : Prop where
  finished : w.finished <:+ w'.finished
  nodup : w.finished.Nodup → w'.finished.Nodup
  apart : ∀ x ∈ path, x ∈ w'.finished → x ∈ w.finished
  kept : ∀ e ∈ w'.kept, e ∈ w.kept ∨ [e.1, e.2].Sublist w'.finished ∨
    path.head? = some e.1 ∧ e.2 ∈ w'.finished

theorem Leads.refl (path : List Text) (w : Walk) : Leads path w w :=
  ⟨List.suffix_rfl, fun h => h, fun _ _ h => h, fun _ h => .inl h⟩

theorem Leads.trans (h : Leads path w w') (h' : Leads path w' w'') : Leads path w w'' where
  finished := h.finished.trans h'.finished
  nodup hn := h'.nodup (h.nodup hn)
  apart x hx hmem := h.apart x hx (h'.apart x hx hmem)
  kept e he := by
    rcases h'.kept e he with he | he
    · refine (h.kept e he).imp_right (Or.imp (·.trans h'.finished.sublist) ?_)
      exact fun ⟨hhead, hmem⟩ => ⟨hhead, h'.finished.subset hmem⟩
    · exact .inr he

theorem Leads.foldl {step : Walk → Text → Walk} {ids : List Text}
    (h : ∀ w, ∀ x ∈ ids, Leads path w (step w x)) (w : Walk) :
    Leads path w (ids.foldl step w) := by
  induction ids generalizing w with
  | nil => exact .refl path w
  | cons x ids ih =>
    exact (h w x List.mem_cons_self).trans
      (ih (fun w y hy => h w y (List.mem_cons_of_mem x hy)) (step w x))

/-- An edge to an id that the walk is done with may be kept. -/
theorem Leads.keep (h : Leads (id :: path) { w with kept := (id, child) :: w.kept } w')
    (hchild : child ∈ w'.finished) : Leads (id :: path) w w' where
  finished := h.finished
  nodup := h.nodup
  apart := h.apart
  kept e he := by
    rcases h.kept e he with he | he
    · rcases List.mem_cons.mp he with rfl | he
      · exact .inr (.inr ⟨rfl, hchild⟩)
      · exact .inl he
    · exact .inr he

/-- When the walk is done with an id, the edges it keeps from it lead to ids it was done with
before. -/
theorem Leads.finish (h : Leads (id :: path) w w') (hid : id ∉ w.finished) (hpath : id ∉ path) :
    Leads path w { w' with finished := id :: w'.finished } where
  finished := h.finished.trans (List.suffix_cons id _)
  nodup hn := by
    refine List.nodup_cons.mpr ⟨fun hmem => hid ?_, h.nodup hn⟩
    exact h.apart id List.mem_cons_self hmem
  apart x hx hmem := by
    rcases List.mem_cons.mp hmem with rfl | hmem
    · exact absurd hx hpath
    · exact h.apart x (List.mem_cons_of_mem id hx) hmem
  kept e he := by
    rcases h.kept e he with he | he | ⟨hhead, hmem⟩
    · exact .inl he
    · exact .inr (.inl (he.cons id))
    · cases Option.some.inj hhead
      exact .inr (.inl ((List.singleton_sublist.mpr hmem).cons_cons _))

section
variable (hnext : ∀ id, next id ⊆ nodes)
include hnext

/-- The walk is done with an id that it visits, as there is fuel for every id that the path can
still get to. -/
theorem visit_leads (hpath : (id :: path).Nodup) (hnodes : id :: path ⊆ nodes)
    (hfuel : path.length + fuel = nodes.length) (hid : id ∉ w.finished) :
    Leads path w (visit next fuel path w id) ∧ id ∈ (visit next fuel path w id).finished := by
  induction fuel generalizing path w id with
  | zero =>
    -- a path of different ids is no longer than the list of all of them
    have hlength := (List.subperm_of_subset hpath hnodes).length_le
    rw [List.length_cons] at hlength
    omega
  | succ fuel ih =>
    -- the child is visited with one id more on the path and less fuel
    have hstep : ∀ w, ∀ child ∈ next id,
        Leads (id :: path) w (visit.step next fuel (id :: path) id w child) := by
      intro w child hchild
      rw [visit.step]
      split
      · exact .refl _ w
      · next hnew =>
        dsimp only
        split
        · next hdone => exact (Leads.refl _ _).keep (List.contains_iff_mem.mp hdone)
        · next hdone =>
          have hpath' : (child :: id :: path).Nodup :=
            List.nodup_cons.mpr ⟨by simpa using hnew, hpath⟩
          have hnodes' : child :: id :: path ⊆ nodes :=
            List.cons_subset.mpr ⟨hnext id hchild, hnodes⟩
          have hfuel' : (id :: path).length + fuel = nodes.length := by
            rw [List.length_cons]
            omega
          have hchild' : child ∉ ({ w with kept := (id, child) :: w.kept } : Walk).finished := by
            simpa using hdone
          obtain ⟨hleads, hmem⟩ := ih hpath' hnodes' hfuel' hchild'
          exact hleads.keep hmem
    rw [visit]
    exact ⟨(Leads.foldl hstep w).finish hid (List.nodup_cons.mp hpath).1, List.mem_cons_self⟩

end

end Walk

namespace Diagram

variable {d : Diagram}

/-- The edges of a diagram lead between its ids. -/
def Whole (d : Diagram) : Prop := ∀ e ∈ d.edges, e.1 ∈ d.nodes ∧ e.2 ∈ d.nodes

theorem mem_nodes_of {ids : List Text} {edges : List Edge} {id : Text} :
    id ∈ (Diagram.of ids edges).nodes ↔ id ∈ ids :=
  (List.mergeSort_perm _ _).mem_iff.trans mem_distinct

theorem mem_edges_of {ids : List Text} {edges : List Edge} {e : Edge} :
    e ∈ (Diagram.of ids edges).edges ↔ e ∈ edges ∧ e.1 ∈ ids ∧ e.2 ∈ ids ∧ e.1 ≠ e.2 := by
  rw [of, sortEdges, (List.mergeSort_perm _ _).mem_iff, mem_distinct]
  simp only [List.mem_filter, Bool.and_eq_true, List.contains_iff_mem, bne_iff_ne, and_assoc]

theorem Whole.of (ids : List Text) (edges : List Edge) : (Diagram.of ids edges).Whole := by
  intro e he
  obtain ⟨-, hsource, hend, -⟩ := mem_edges_of.mp he
  exact ⟨mem_nodes_of.mpr hsource, mem_nodes_of.mpr hend⟩

theorem mem_successors_iff {id child : Text} : child ∈ d.successors id ↔ (id, child) ∈ d.edges := by
  simp only [successors, List.mem_map, List.mem_filter, beq_iff_eq]
  constructor
  · rintro ⟨e, ⟨he, rfl⟩, rfl⟩
    exact he
  · intro h
    exact ⟨(id, child), ⟨h, rfl⟩, rfl⟩

/-- The walk is done with an id of a diagram that it starts from, unless it was before. -/
theorem start_leads {id : Text} (hd : d.Whole) (hid : id ∈ d.nodes) (w : Walk) :
    let w' := if w.finished.contains id then w else Walk.visit d.successors d.nodes.length [] w id
    Walk.Leads [] w w' ∧ id ∈ w'.finished := by
  have hnext : ∀ id, d.successors id ⊆ d.nodes :=
    fun id child hchild => (hd _ (mem_successors_iff.mp hchild)).2
  dsimp only
  split
  · next hdone => exact ⟨.refl [] w, List.contains_iff_mem.mp hdone⟩
  · next hnew =>
    have hnodes : [id] ⊆ d.nodes := List.cons_subset.mpr ⟨hid, List.nil_subset _⟩
    exact Walk.visit_leads hnext (List.nodup_singleton id) hnodes (Nat.zero_add _)
      (by simpa using hnew)

/-- The walk over a diagram is done with the end of an edge that it keeps before its start. -/
theorem walk_leads (hd : d.Whole) : Walk.Leads [] {} d.walk :=
  Walk.Leads.foldl (fun w _ hid => (start_leads hd hid w).1) {}

/-- The ids of a diagram can be numbered such that the edges which close no cycles lead to greater
numbers. -/
theorem exists_height (hd : d.Whole) :
    ∃ height : Text → Nat, ∀ e ∈ d.acyclic.edges, height e.1 < height e.2 := by
  have hwalk := walk_leads hd
  have hnodup : d.walk.finished.Nodup := hwalk.nodup List.nodup_nil
  refine ⟨(d.walk.finished.idxOf ·), fun e he => ?_⟩
  have hkept : e ∈ d.walk.kept := List.contains_iff_mem.mp (List.mem_filter.mp he).2
  rcases hwalk.kept e hkept with he | he | ⟨he, -⟩
  · cases he
  · obtain ⟨first, rest, hsplit, hsource, hend⟩ := List.cons_sublist_iff.mp he
    have htarget : e.2 ∈ rest := List.singleton_sublist.mp hend
    simp only [hsplit] at hnodup ⊢
    have hnot : e.2 ∉ first := fun hmem =>
      (List.nodup_append.mp hnodup).2.2 _ hmem _ htarget rfl
    rw [List.idxOf_append_of_mem hsource, List.idxOf_append_of_notMem hnot]
    exact Nat.lt_add_right _ (List.idxOf_lt_length_of_mem hsource)
  · cases he

end Diagram

end SystemAtlas.Layout
