import SystemAtlas.Proofs.Model.Forest

/-! # Walking downward

What a walk downward from an element meets is its subtree without the element itself
(`mem_descendants_iff`), so it is what the element lies above. Of two elements with a common
descendant one lies in the subtree of the other (`Within.total`), so the subtrees of elements
without a parent are apart (`Within.eq_of_roots`). -/

namespace SystemAtlas.Model.Graph

variable {g : Graph} {e p q : Element} {id root x : Text}

theorem mem_ids_descendantsUpTo_succ {n : Nat} :
    x ∈ (g.descendantsUpTo (n + 1) id).map (·.id) ↔ ∃ c ∈ (g.children (some id)).map (·.id),
      x = c ∨ x ∈ (g.descendantsUpTo n c).map (·.id) := by
  simp only [descendantsUpTo, List.map_flatMap, List.mem_flatMap, List.map_cons, List.mem_cons,
    List.mem_map, exists_exists_and_eq_and]

/-- What lies below an element lies in the subtree of one of its children. -/
theorem Within.exists_child (h : g.Within root id) (hne : root ≠ id) :
    ∃ c ∈ g.children (some root), g.Within c.id id := by
  induction h with
  | root => exact absurd rfl hne
  | @child e p he hp h ih =>
    by_cases hroot : root = p
    · exact ⟨e, mem_children_iff.mpr ⟨he, hroot ▸ hp⟩, .root⟩
    · obtain ⟨c, hc, hwithin⟩ := ih hroot
      exact ⟨c, hc, .child he hp hwithin⟩

section
variable (hg : g.Forest)
include hg

theorem place_lt_of_child (h : e ∈ g.children (some id)) : g.place id < g.place e.id := by
  obtain ⟨he, hp⟩ := mem_children_iff.mp h
  exact hg.earlier e he id hp

/-- A walk downward stays in the subtree and leaves the element it starts from. -/
theorem within_of_mem_descendantsUpTo {n : Nat} (h : x ∈ (g.descendantsUpTo n id).map (·.id)) :
    g.Within id x ∧ g.place id < g.place x := by
  induction n generalizing id with
  | zero => cases h
  | succ n ih =>
    obtain ⟨_, hid, hx⟩ := mem_ids_descendantsUpTo_succ.mp h
    obtain ⟨c, hc, rfl⟩ := List.mem_map.mp hid
    obtain ⟨hmem, hp⟩ := mem_children_iff.mp hc
    have hchild : g.Within id c.id := .child hmem hp .root
    have hlt := place_lt_of_child hg hc
    rcases hx with rfl | hx
    · exact ⟨hchild, hlt⟩
    · obtain ⟨hwithin, hplace⟩ := ih hx
      exact ⟨hchild.trans hwithin, Nat.lt_trans hlt hplace⟩

/-- A walk downward meets what stands in the subtree at most so many places behind the element it
starts from as it has steps. -/
theorem mem_descendantsUpTo_of_within {n : Nat} (h : g.Within id x) (hne : id ≠ x)
    (hn : g.place x ≤ g.place id + n) : x ∈ (g.descendantsUpTo n id).map (·.id) := by
  induction n generalizing id with
  | zero =>
    obtain ⟨c, hc, hwithin⟩ := h.exists_child hne
    have hlt := place_lt_of_child hg hc
    have hle := hwithin.place_le hg
    omega
  | succ n ih =>
    obtain ⟨c, hc, hwithin⟩ := h.exists_child hne
    refine mem_ids_descendantsUpTo_succ.mpr ⟨c.id, List.mem_map_of_mem hc, ?_⟩
    by_cases hx : x = c.id
    · exact .inl hx
    · have hlt := place_lt_of_child hg hc
      exact .inr (ih hwithin (Ne.symm hx) (by omega))

/-- The descendants of an element are its subtree without the element itself. -/
theorem mem_descendants_iff :
    x ∈ (g.descendants id).map (·.id) ↔ g.Within id x ∧ id ≠ x := by
  constructor
  · intro h
    obtain ⟨hwithin, hlt⟩ := within_of_mem_descendantsUpTo hg h
    refine ⟨hwithin, ?_⟩
    rintro rfl
    exact Nat.lt_irrefl _ hlt
  · rintro ⟨h, hne⟩
    apply mem_descendantsUpTo_of_within hg h hne
    cases h with
    | root => exact absurd rfl hne
    | child he _ _ =>
      have hlt := place_lt_length_iff.mpr (contains_of_mem he)
      omega

/-- An element and its descendants are its subtree. -/
theorem mem_cons_descendants_iff :
    x ∈ id :: (g.descendants id).map (·.id) ↔ g.Within id x := by
  rw [List.mem_cons, mem_descendants_iff hg]
  constructor
  · rintro (rfl | h)
    · exact .root
    · exact h.1
  · intro h
    by_cases hx : x = id
    · exact .inl hx
    · exact .inr ⟨h, Ne.symm hx⟩

/-- An element lies in the subtrees of itself and of the elements above it. -/
theorem within_iff_ancestor : g.Within x id ↔ x = id ∨ ∃ a ∈ g.ancestors id, a.id = x := by
  rw [← mem_lineage_iff hg, lineage, List.mem_cons, List.mem_map]

theorem within_iff_isAncestor : g.Within x id ↔ x = id ∨ g.isAncestor x id = true := by
  rw [within_iff_ancestor hg, isAncestor, List.any_eq_true]
  simp only [beq_iff_eq]

theorem within_of_ancestor (h : p ∈ g.ancestors id) : g.Within p.id id :=
  (within_iff_ancestor hg).mpr (.inr ⟨p, h, rfl⟩)

/-- Of two elements above a third, or at it, one lies in the subtree of the other. -/
theorem Within.total {a b : Text} (ha : g.Within a x) (hb : g.Within b x) :
    g.Within a b ∨ g.Within b a := by
  induction ha with
  | root => exact .inr hb
  | child he hp ha ih =>
    generalize hx : (_ : Element).id = y at hb
    cases hb with
    | root => exact .inl (hx ▸ .child he hp ha)
    | child he' hp' hb =>
      cases hg.eq_of_id he he' hx
      cases Option.some.inj (hp.symm.trans hp')
      exact ih hb

/-- An element without a parent lies in no subtree but its own. -/
theorem Within.eq_of_root (hq : q ∈ g.elements) (hp : q.parent = none) (h : g.Within id q.id) :
    id = q.id := by
  generalize hx : q.id = y at h
  cases h with
  | root => rfl
  | child he hparent _ =>
    cases hg.eq_of_id hq he hx
    cases hp.symm.trans hparent

/-- The subtrees of elements without a parent are apart. -/
theorem Within.eq_of_roots (hp : p ∈ g.elements) (hpp : p.parent = none) (hq : q ∈ g.elements)
    (hqp : q.parent = none) (h : g.Within p.id x) (h' : g.Within q.id x) : p.id = q.id := by
  rcases h.total hg h' with h | h
  · exact h.eq_of_root hg hq hqp
  · exact (h.eq_of_root hg hp hpp).symm

end

end SystemAtlas.Model.Graph
