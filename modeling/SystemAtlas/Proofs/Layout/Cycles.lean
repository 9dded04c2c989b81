import Mathlib.Data.Set.Basic
import SystemAtlas.Proofs.Layout.Acyclic

/-! # Edges that close cycles

Of every edge from an id that a walk is done with, it keeps the edge itself or a path from its end
back to its start (`Walk.visit_settled`), because the ids on the path of the walk lead to each
other. So the edges that are left of a diagram close no cycle (`Diagram.acyclic_edges`), each edge
that is dropped closes one with them (`Diagram.path_of_dropped`), and nothing is dropped from a
diagram without cycles (`Diagram.acyclic_eq`). -/

namespace SystemAtlas.Layout

/-! ## Paths -/

/-- A path along edges from one id to another, with its number of edges. -/
inductive Path (edges : Set Edge) : Nat → Text → Text → Prop where
  | nil (id : Text) : Path edges 0 id id
  | concat {n : Nat} {a b c : Text} : Path edges n a b → (b, c) ∈ edges → Path edges (n + 1) a c

/-- No edges lead from an id back to it. -/
def Acyclic (edges : Set Edge) : Prop := ∀ n id, ¬ Path edges (n + 1) id id

variable {edges edges' : Set Edge} {n : Nat} {a b : Text}

theorem Path.mono (h : Path edges n a b) (hsub : edges ⊆ edges') : Path edges' n a b := by
  induction h with
  | nil id => exact .nil id
  | concat _ he ih => exact .concat ih (hsub he)

/-- Along edges that lead upward, a path rises by at least one with every edge. -/
theorem Path.height_le {height : Text → Nat} (hheight : ∀ e ∈ edges, height e.1 < height e.2)
    (h : Path edges n a b) : height a + n ≤ height b := by
  induction h with
  | nil id => exact Nat.le_refl _
  | concat _ he ih =>
    have hlt := hheight _ he
    dsimp only at hlt
    omega

theorem Acyclic.of_height {height : Text → Nat}
    (hheight : ∀ e ∈ edges, height e.1 < height e.2) : Acyclic edges := by
  intro n id h
  have hle := h.height_le hheight
  omega

/-! ## Walks -/

namespace Walk

variable {next : Text → List Text} {path ids : List Text} {w w' : Walk} {id child : Text}
  {e : Edge} {fuel : Nat}

/-- The edges that a walk keeps lead from one id to another. -/
def Reaches (w : Walk) (a b : Text) : Prop := ∃ n, Path {e | e ∈ w.kept} n a b

/-- A walk keeps an edge, or a path from its end back to its start. -/
def Covers (w : Walk) (e : Edge) : Prop := e ∈ w.kept ∨ w.Reaches e.2 e.1

/-- A walk keeps only edges that there are, and covers the edges from the ids that it is done
with. -/
structure Settled (next : Text → List Text) (w : Walk) : Prop where
  kept : ∀ e ∈ w.kept, e.2 ∈ next e.1
  covered : ∀ id ∈ w.finished, ∀ child ∈ next id, w.Covers (id, child)

theorem Reaches.mono (h : w.Reaches a b) (hkept : w.kept ⊆ w'.kept) : w'.Reaches a b :=
  h.imp fun _ hpath => hpath.mono fun _ he => hkept he

theorem Covers.mono (h : w.Covers e) (hkept : w.kept ⊆ w'.kept) : w'.Covers e :=
  h.imp (fun he => hkept he) (·.mono hkept)

theorem Settled.keep (hw : w.Settled next) (hchild : child ∈ next id) :
    ({ w with kept := (id, child) :: w.kept } : Walk).Settled next where
  kept e he := by
    rcases List.mem_cons.mp he with rfl | he
    · exact hchild
    · exact hw.kept e he
  covered x hx c hc := (hw.covered x hx c hc).mono (List.subset_cons_self _ _)

theorem Settled.finish (hw : w.Settled next) (hid : ∀ child ∈ next id, w.Covers (id, child)) :
    ({ w with finished := id :: w.finished } : Walk).Settled next where
  kept := hw.kept
  covered x hx c hc := by
    rcases List.mem_cons.mp hx with rfl | hx
    · exact hid c hc
    · exact hw.covered x hx c hc

/-- What the walk after an edge does, done for several edges from an id one after the other. -/
theorem Settled.foldl {step : Walk → Text → Walk}
    (hstep : ∀ w, ∀ child ∈ ids, w.Settled next → (∀ x ∈ path, w.Reaches x id) →
      (step w child).Settled next ∧ w.kept ⊆ (step w child).kept ∧
        (step w child).Covers (id, child))
    (hw : w.Settled next) (hpath : ∀ x ∈ path, w.Reaches x id) :
    (ids.foldl step w).Settled next ∧ w.kept ⊆ (ids.foldl step w).kept ∧
      ∀ child ∈ ids, (ids.foldl step w).Covers (id, child) := by
  induction ids generalizing w with
  | nil => exact ⟨hw, List.Subset.refl _, fun _ h => absurd h List.not_mem_nil⟩
  | cons c ids ih =>
    obtain ⟨hsettled, hkept, hcovers⟩ := hstep w c List.mem_cons_self hw hpath
    obtain ⟨hsettled', hkept', hcovers'⟩ :=
      ih (fun w x hx => hstep w x (List.mem_cons_of_mem c hx)) hsettled
        fun x hx => (hpath x hx).mono hkept
    refine ⟨hsettled', List.Subset.trans hkept hkept', fun x hx => ?_⟩
    rcases List.mem_cons.mp hx with rfl | hx
    · exact hcovers.mono hkept'
    · exact hcovers' x hx

/-- A visit settles the edges from the ids that it is done with, if what is kept leads from every
id of the path to the id it visits. -/
theorem visit_settled (hw : w.Settled next) (hpath : ∀ x ∈ path, w.Reaches x id) :
    (visit next fuel path w id).Settled next ∧ w.kept ⊆ (visit next fuel path w id).kept := by
  induction fuel generalizing path w id with
  | zero =>
    rw [visit]
    exact ⟨hw, List.Subset.refl _⟩
  | succ fuel ih =>
    have hstep : ∀ w, ∀ child ∈ next id, w.Settled next → (∀ x ∈ id :: path, w.Reaches x id) →
        (visit.step next fuel (id :: path) id w child).Settled next ∧
          w.kept ⊆ (visit.step next fuel (id :: path) id w child).kept ∧
          (visit.step next fuel (id :: path) id w child).Covers (id, child) := by
      intro w child hchild hw hpath
      rw [visit.step]
      split
      · next hmem =>
        -- an edge to an id of the path is dropped, and that id leads to the start of the edge
        have hback := hpath child (List.contains_iff_mem.mp hmem)
        exact ⟨hw, List.Subset.refl _, .inr hback⟩
      · have hkept : w.kept ⊆ (id, child) :: w.kept := List.subset_cons_self _ _
        have hkeep := hw.keep hchild
        dsimp only
        split
        · exact ⟨hkeep, hkept, .inl List.mem_cons_self⟩
        · have hpath' : ∀ x ∈ id :: path,
              Reaches { w with kept := (id, child) :: w.kept } x child := by
            intro x hx
            have hreaches : Reaches { w with kept := (id, child) :: w.kept } x id :=
              (hpath x hx).mono hkept
            obtain ⟨n, hx⟩ := hreaches
            exact ⟨n + 1, hx.concat List.mem_cons_self⟩
          obtain ⟨hsettled, hgrown⟩ := ih hkeep hpath'
          exact ⟨hsettled, List.Subset.trans hkept hgrown, .inl (hgrown List.mem_cons_self)⟩
    have hself : ∀ x ∈ id :: path, w.Reaches x id := by
      intro x hx
      rcases List.mem_cons.mp hx with rfl | hx
      · exact ⟨0, .nil x⟩
      · exact hpath x hx
    obtain ⟨hsettled, hkept, hcovers⟩ := Settled.foldl hstep hw hself
    rw [visit]
    exact ⟨hsettled.finish hcovers, hkept⟩

/-- A walk that starts from ids one after the other is done with each of them. -/
theorem Leads.mem_foldl {step : Walk → Text → Walk}
    (h : ∀ w, ∀ x ∈ ids, Leads path w (step w x) ∧ x ∈ (step w x).finished) :
    ∀ x ∈ ids, x ∈ (ids.foldl step w).finished := by
  induction ids generalizing w with
  | nil => exact fun _ hx => absurd hx List.not_mem_nil
  | cons y ids ih =>
    have hrest : ∀ w, ∀ x ∈ ids, Leads path w (step w x) ∧ x ∈ (step w x).finished :=
      fun w x hx => h w x (List.mem_cons_of_mem y hx)
    intro x hx
    rcases List.mem_cons.mp hx with rfl | hx
    · have hgrown := Leads.foldl (fun w x hx => (hrest w x hx).1) (step w x)
      exact hgrown.finished.subset (h w x List.mem_cons_self).2
    · exact ih hrest x hx

end Walk

/-! ## Diagrams -/

namespace Diagram

variable {d : Diagram} {e : Edge} {id : Text}

theorem walk_settled : d.walk.Settled d.successors := by
  have hempty : Walk.Settled d.successors {} :=
    ⟨fun _ h => absurd h List.not_mem_nil, fun _ h => absurd h List.not_mem_nil⟩
  refine List.foldlRecOn d.nodes _ hempty fun w hw id _ => ?_
  split
  · exact hw
  · exact (Walk.visit_settled hw fun _ h => absurd h List.not_mem_nil).1

theorem mem_finished (hd : d.Whole) (hid : id ∈ d.nodes) : id ∈ d.walk.finished :=
  Walk.Leads.mem_foldl (fun w _ hid => start_leads hd hid w) id hid

theorem mem_acyclic_iff : e ∈ d.acyclic.edges ↔ e ∈ d.walk.kept := by
  simp only [acyclic, List.mem_filter, List.contains_iff_mem]
  exact and_iff_right_of_imp fun he => mem_successors_iff.mp (walk_settled.kept e he)

/-- What is left of the edges of a diagram closes no cycle. -/
theorem acyclic_edges (hd : d.Whole) : Acyclic {e | e ∈ d.acyclic.edges} := by
  obtain ⟨height, hheight⟩ := exists_height hd
  exact .of_height hheight

/-- From the end of an edge that is dropped, the edges that are left lead back to its start. -/
theorem path_of_dropped (hd : d.Whole) (he : e ∈ d.edges) (hdropped : e ∉ d.acyclic.edges) :
    ∃ n, Path {e | e ∈ d.acyclic.edges} n e.2 e.1 := by
  have hcovers := walk_settled.covered e.1 (mem_finished hd (hd e he).1) e.2
    (mem_successors_iff.mpr he)
  obtain ⟨n, hpath⟩ := hcovers.resolve_left fun hkept => hdropped (mem_acyclic_iff.mpr hkept)
  exact ⟨n, hpath.mono fun _ => mem_acyclic_iff.mpr⟩

/-- Nothing is dropped from a diagram without cycles. -/
theorem acyclic_eq (hd : d.Whole) (h : Acyclic {e | e ∈ d.edges}) : d.acyclic = d := by
  have hall : ∀ e ∈ d.edges, e ∈ d.acyclic.edges := by
    intro e he
    by_contra hdropped
    obtain ⟨n, hpath⟩ := path_of_dropped hd he hdropped
    exact h n e.2 ((hpath.mono fun _ h => List.mem_of_mem_filter h).concat he)
  rw [acyclic, List.filter_eq_self.mpr fun e he => (List.mem_filter.mp (hall e he)).2]

end Diagram

end SystemAtlas.Layout
