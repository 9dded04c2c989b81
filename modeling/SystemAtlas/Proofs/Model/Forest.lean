import SystemAtlas.Model.Graph
import SystemAtlas.Proofs.Keyed

/-! # The forest of elements

Elements with different ids, every one behind its parent, form a forest. The walk upward from an
element then meets its parent and whatever the parent meets (`ancestors_of_parent`), so the elements
at or above it are those in whose subtree it lies (`mem_lineage_iff`), and no element lies above
itself (`isAncestor_iff`). -/

namespace SystemAtlas.Model.Graph

variable {g : Graph} {e : Element} {id : Text}

/-! ## Finding elements -/

theorem contains_iff : g.contains id = true ↔ ∃ e ∈ g.elements, e.id = id := by
  simp only [contains, List.any_eq_true, beq_iff_eq]

theorem contains_iff_mem : g.contains id = true ↔ id ∈ g.elements.map (·.id) := by
  rw [contains_iff, List.mem_map]

theorem contains_of_mem (he : e ∈ g.elements) : g.contains e.id = true :=
  contains_iff.mpr ⟨e, he, rfl⟩

theorem mem_of_find? (h : g.find? id = some e) : e ∈ g.elements ∧ e.id = id :=
  ⟨List.mem_of_find?_eq_some h, by simpa using List.find?_some h⟩

theorem find?_isSome_iff : (∃ e, g.find? id = some e) ↔ g.contains id = true := by
  rw [contains_iff]
  constructor
  · rintro ⟨e, h⟩
    exact ⟨e, mem_of_find? h⟩
  · rintro ⟨e, he, rfl⟩
    exact Option.isSome_iff_exists.mp (List.find?_isSome.mpr ⟨e, he, beq_self_eq_true _⟩)

theorem get_eq_ok_iff : g.get id = .ok e ↔ g.find? id = some e := by
  rw [get]
  split
  · next hfind => rw [hfind, Except.ok.injEq, Option.some.injEq]
  · next hfind => simp only [hfind, reduceCtorEq]

/-- The number of elements in front of the first one with the given id. -/
def place (g : Graph) (id : Text) : Nat := g.elements.findIdx (·.id == id)

theorem place_lt_length_iff : g.place id < g.elements.length ↔ g.contains id = true := by
  simp only [place, List.findIdx_lt_length, contains_iff, beq_iff_eq]

theorem mem_children_iff {parent : Option Text} :
    e ∈ g.children parent ↔ e ∈ g.elements ∧ e.parent = parent := by
  simp only [children, List.mem_filter, beq_iff_eq]

/-! ## Forests -/

/-- The elements have different ids, and the parent of each stands before it. -/
structure Forest (g : Graph) : Prop where
  nodup : (g.elements.map (·.id)).Nodup
  earlier : ∀ e ∈ g.elements, ∀ p, e.parent = some p → g.place p < g.place e.id

theorem Forest.empty : Forest {} := ⟨List.nodup_nil, fun _ h => absurd h List.not_mem_nil⟩

/-- An element lies in the subtree of a root: it is the root, or its parent lies there. -/
inductive Within (g : Graph) (root : Text) : Text → Prop where
  | root : Within g root root
  | child {e : Element} {p : Text} : e ∈ g.elements → e.parent = some p → Within g root p →
    Within g root e.id

section
variable {e q : Element} {id p root : Text} (hg : g.Forest)
include hg

/-- An id belongs to one element. -/
theorem Forest.eq_of_id (he : e ∈ g.elements) (hq : q ∈ g.elements) (h : e.id = q.id) : e = q :=
  List.inj_on_of_nodup_map hg.nodup he hq h

theorem Forest.find?_eq_some_iff : g.find? id = some e ↔ e ∈ g.elements ∧ e.id = id :=
  find?_key_eq_some_iff hg.nodup

theorem Forest.find?_of_mem (he : e ∈ g.elements) : g.find? e.id = some e :=
  hg.find?_eq_some_iff.mpr ⟨he, rfl⟩

theorem Forest.parent_mem (he : e ∈ g.elements) (hp : e.parent = some p) :
    ∃ q ∈ g.elements, q.id = p := by
  have hplace := hg.earlier e he p hp
  have he' := place_lt_length_iff.mpr (contains_of_mem he)
  exact contains_iff.mp (place_lt_length_iff.mp (Nat.lt_trans hplace he'))

/-- What holds of the elements without a parent, and of an element if it holds of its parent, holds
of every element. -/
theorem Forest.induct {motive : Element → Prop}
    (root : ∀ e ∈ g.elements, e.parent = none → motive e)
    (child : ∀ e ∈ g.elements, ∀ q ∈ g.elements, e.parent = some q.id → motive q → motive e)
    (e : Element) (he : e ∈ g.elements) : motive e := by
  induction hn : g.place e.id using Nat.strongRecOn generalizing e with
  | ind n ih =>
    cases hp : e.parent with
    | none => exact root e he hp
    | some p =>
      obtain ⟨q, hq, rfl⟩ := hg.parent_mem he hp
      exact child e he q hq hp (ih _ (hn ▸ hg.earlier e he _ hp) q hq rfl)

/-! ## Walking upward -/

omit hg in
/-- What lies above an element is an element. -/
theorem mem_of_mem_ancestors (h : e ∈ g.ancestors id) : e ∈ g.elements := by
  have hup : ∀ n p, e ∈ g.ancestorsUpTo n p → e ∈ g.elements := by
    intro n
    induction n with
    | zero => intro p h; cases p <;> cases h
    | succ n ih =>
      intro p h
      cases p with
      | none => cases h
      | some p =>
        rw [ancestorsUpTo] at h
        split at h
        · next q hfind =>
          rcases List.mem_cons.mp h with rfl | h
          · exact (mem_of_find? hfind).1
          · exact ih _ h
        · cases h
  rw [ancestors] at h
  split at h
  · exact hup _ _ h
  · cases h

omit hg in
theorem ancestorsUpTo_none (n : Nat) : g.ancestorsUpTo n none = [] := by cases n <;> rfl

/-- Steps beyond the place of a parent change nothing. -/
theorem ancestorsUpTo_eq {n m : Nat} (hn : g.place p < n) (hm : g.place p < m) :
    g.ancestorsUpTo n (some p) = g.ancestorsUpTo m (some p) := by
  induction n generalizing m p with
  | zero => omega
  | succ n ih =>
    obtain ⟨m, rfl⟩ := Nat.exists_eq_succ_of_ne_zero (Nat.ne_zero_of_lt hm)
    simp only [ancestorsUpTo]
    cases hfind : g.find? p with
    | none => rfl
    | some e =>
      obtain ⟨he, rfl⟩ := mem_of_find? hfind
      cases hp : e.parent with
      | none => simp only [hp, ancestorsUpTo_none]
      | some r =>
        have hr := hg.earlier e he r hp
        have hrest := ih (p := r) (m := m) (by omega) (by omega)
        simp only [hp, hrest]

theorem ancestors_of_root (he : e ∈ g.elements) (hp : e.parent = none) :
    g.ancestors e.id = [] := by
  simp only [ancestors, hg.find?_of_mem he, hp, ancestorsUpTo_none]

theorem ancestors_of_parent (he : e ∈ g.elements) (hq : q ∈ g.elements)
    (hp : e.parent = some q.id) : g.ancestors e.id = q :: g.ancestors q.id := by
  have hplace := hg.earlier e he _ hp
  have hlength := place_lt_length_iff.mpr (contains_of_mem he)
  obtain ⟨n, hn⟩ := Nat.exists_eq_succ_of_ne_zero (Nat.ne_zero_of_lt hlength)
  simp only [ancestors, hg.find?_of_mem he, hg.find?_of_mem hq, hp, hn, ancestorsUpTo]
  cases hr : q.parent with
  | none => simp only [ancestorsUpTo_none]
  | some r =>
    have := hg.earlier q hq r hr
    rw [ancestorsUpTo_eq hg (n := n) (m := n + 1) (by omega) (by omega)]

omit hg in
theorem ancestors_of_missing (h : g.contains id = false) : g.ancestors id = [] := by
  cases hfind : g.find? id with
  | none => simp only [ancestors, hfind]
  | some e => simp [find?_isSome_iff.mp ⟨e, hfind⟩] at h

omit hg in
theorem lineage_of_missing (h : g.contains id = false) : g.lineage id = [id] := by
  rw [lineage, ancestors_of_missing h, List.map_nil]

theorem lineage_of_root (he : e ∈ g.elements) (hp : e.parent = none) :
    g.lineage e.id = [e.id] := by
  simp [lineage, ancestors_of_root hg he hp]

theorem lineage_of_parent (he : e ∈ g.elements) (hp : e.parent = some p) :
    g.lineage e.id = e.id :: g.lineage p := by
  obtain ⟨q, hq, rfl⟩ := hg.parent_mem he hp
  simp [lineage, ancestors_of_parent hg he hq hp]

end

/-! ## Subtrees -/

theorem Within.trans {root mid : Text} (h : g.Within root mid) (h' : g.Within mid id) :
    g.Within root id := by
  induction h' with
  | root => exact h
  | child he hp _ ih => exact .child he hp ih

section
variable {root : Text} (hg : g.Forest)
include hg

theorem mem_lineage_iff : root ∈ g.lineage id ↔ g.Within root id := by
  constructor
  · intro h
    cases hc : g.contains id with
    | false =>
      rw [lineage_of_missing hc, List.mem_singleton] at h
      exact h ▸ .root
    | true =>
      obtain ⟨e, he, rfl⟩ := contains_iff.mp hc
      revert h
      refine hg.induct (motive := fun e => root ∈ g.lineage e.id → g.Within root e.id) ?_ ?_ e he
      · intro e he hp h
        rw [lineage_of_root hg he hp, List.mem_singleton] at h
        exact h ▸ .root
      · intro e he q _ hp ih h
        rw [lineage_of_parent hg he hp, List.mem_cons] at h
        rcases h with rfl | h
        · exact .root
        · exact .child he hp (ih h)
  · intro h
    induction h with
    | root => exact List.mem_cons_self
    | child he hp _ ih => rw [lineage_of_parent hg he hp]; exact List.mem_cons_of_mem _ ih

theorem Within.place_le (h : g.Within root id) : g.place root ≤ g.place id := by
  induction h with
  | root => exact Nat.le_refl _
  | child he hp _ ih => exact Nat.le_trans ih (Nat.le_of_lt (hg.earlier _ he _ hp))

/-- An element lies above those of its subtree other than itself. -/
theorem isAncestor_iff : g.isAncestor root id = true ↔ g.Within root id ∧ root ≠ id := by
  have hmem : g.isAncestor root id = true ↔ root ∈ (g.ancestors id).map (·.id) := by
    simp only [isAncestor, List.any_eq_true, List.mem_map, beq_iff_eq]
  rw [hmem, ← mem_lineage_iff hg]
  constructor
  · intro h
    refine ⟨List.mem_cons_of_mem _ h, ?_⟩
    rintro rfl
    cases hc : g.contains root with
    | false => simp [ancestors_of_missing hc] at h
    | true =>
      obtain ⟨e, he, rfl⟩ := contains_iff.mp hc
      cases hp : e.parent with
      | none => simp [ancestors_of_root hg he hp] at h
      | some p =>
        obtain ⟨q, hq, rfl⟩ := hg.parent_mem he hp
        rw [ancestors_of_parent hg he hq hp] at h
        have hw : g.Within e.id q.id := (mem_lineage_iff hg).mp (by simpa [lineage] using h)
        have hle := Within.place_le hg hw
        have hlt := hg.earlier e he _ hp
        omega
  · rintro ⟨h, hne⟩
    exact (List.mem_cons.mp h).resolve_left hne

end

end SystemAtlas.Model.Graph
