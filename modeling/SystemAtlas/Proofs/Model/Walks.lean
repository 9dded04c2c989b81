import SystemAtlas.Proofs.Model.Descent
import SystemAtlas.Proofs.Model.Indexed

/-! # Walks over elements

The walks of an indexed graph end, and they meet what those of the graph that it keeps meet
(`ancestors_of`, `descendants_of`). That they may only take so many steps does not matter
(`climb_of_over`, `descend_of_over`). The walk upward comes to an element without a parent, and the
walk downward meets every element of the subtree once, behind its parent (`Walks`). -/

namespace SystemAtlas.Model

/-- What stands in a list made of others stands in one of them, and what is in front of it there is
in front of it in the whole. -/
theorem exists_split_of_flatMap {α β : Type} {f : α → List β} {xs : List α} {y : β}
    {before rest : List β} (h : xs.flatMap f = before ++ y :: rest) :
    ∃ x ∈ xs, ∃ front back, front ⊆ before ∧ f x = front ++ y :: back := by
  induction xs generalizing before with
  | nil => simp at h
  | cons x xs ih =>
    rw [List.flatMap_cons] at h
    rcases List.append_eq_append_iff.mp h with ⟨more, rfl, hrest⟩ | ⟨more, hx, hmore⟩
    · obtain ⟨z, hz, front, back, hfront, hsplit⟩ := ih hrest
      exact ⟨z, List.mem_cons_of_mem _ hz, front, back,
        List.Subset.trans hfront (List.subset_append_right _ _), hsplit⟩
    · rcases List.cons_eq_append_iff.mp hmore with ⟨rfl, hrest⟩ | ⟨back, rfl, -⟩
      · obtain ⟨z, hz, front, back, hfront, hsplit⟩ := @ih [] hrest
        exact ⟨z, List.mem_cons_of_mem _ hz, front, back,
          List.Subset.trans hfront (List.nil_subset _), hsplit⟩
      · exact ⟨x, List.mem_cons_self, before, back, List.Subset.refl _, hx⟩

namespace Graph

variable {g : Graph} {a c d e y : Element} {id x : Text}

section
variable (hg : g.Forest)
include hg

theorem place_of_child (h : c ∈ g.children (some id)) :
    g.place id < g.place c.id ∧ g.place c.id < g.elements.length :=
  ⟨place_lt_of_child hg h, place_lt_length_iff.mpr (contains_of_mem (mem_children_iff.mp h).1)⟩

/-- What holds of an id if it holds of those of its children, holds of every id. -/
theorem Forest.induct_down {motive : Text → Prop}
    (parent : ∀ id, (∀ c ∈ g.children (some id), motive c.id) → motive id) (id : Text) :
    motive id := by
  induction hn : g.elements.length - g.place id using Nat.strongRecOn generalizing id with
  | ind n ih =>
    refine parent id fun c hc => ih _ ?_ c.id rfl
    have := place_of_child hg hc
    omega

/-! ## Walking upward -/

/-- Those above an element have different ids. -/
theorem nodup_ancestors (he : e ∈ g.elements) : ((g.ancestors e.id).map (·.id)).Nodup := by
  refine hg.induct (motive := fun e => ((g.ancestors e.id).map (·.id)).Nodup) ?_ ?_ e he
  · intro e he hp
    rw [ancestors_of_root hg he hp]
    exact .nil
  · intro e he q hq hp ih
    rw [ancestors_of_parent hg he hq hp, List.map_cons, List.nodup_cons]
    refine ⟨fun h => ?_, ih⟩
    have habove : g.isAncestor q.id q.id = true := by
      simpa only [isAncestor, List.any_eq_true, List.mem_map, beq_iff_eq] using h
    exact ((isAncestor_iff hg).mp habove).2 rfl

/-- The last one at or above an element has no parent. -/
theorem parent_of_last (he : e ∈ g.elements) (h : (e :: g.ancestors e.id).getLast? = some a) :
    a.parent = none := by
  revert h
  refine hg.induct (motive := fun e => (e :: g.ancestors e.id).getLast? = some a → a.parent = none)
    ?_ ?_ e he
  · intro e he hp h
    rw [ancestors_of_root hg he hp] at h
    exact Option.some.inj h ▸ hp
  · intro e he q hq hp ih h
    rw [ancestors_of_parent hg he hq hp] at h
    exact ih h

theorem mem_ancestors_iff (he : e ∈ g.elements) :
    e ∈ g.ancestors id ↔ g.isAncestor e.id id = true := by
  rw [isAncestor, List.any_eq_true]
  constructor
  · intro h
    exact ⟨e, h, beq_self_eq_true _⟩
  · rintro ⟨q, hq, hid⟩
    exact hg.eq_of_id (mem_of_mem_ancestors hq) he (eq_of_beq hid) ▸ hq

/-! ## Walking downward -/

/-- A level beyond that of the last place changes nothing. -/
theorem descendantsUpTo_succ {n : Nat} (hn : g.elements.length ≤ g.place id + n) :
    g.descendantsUpTo (n + 1) id = g.descendantsUpTo n id := by
  induction n generalizing id with
  | zero =>
    rw [descendantsUpTo, descendantsUpTo, List.flatMap_eq_nil_iff]
    intro c hc
    have := place_of_child hg hc
    omega
  | succ n ih =>
    rw [descendantsUpTo, descendantsUpTo]
    refine List.flatMap_congr fun c hc => congrArg (c :: ·) (ih ?_)
    have := place_of_child hg hc
    omega

/-- The walk downward meets each child and what the walk downward from there meets. -/
theorem descendants_eq : g.descendants id =
    (g.children (some id)).flatMap fun c => c :: g.descendants c.id :=
  (descendantsUpTo_succ hg (Nat.le_add_left _ _)).symm

theorem mem_of_mem_descendants (h : y ∈ g.descendants id) : y ∈ g.elements := by
  induction id using hg.induct_down with
  | parent id ih =>
    rw [descendants_eq hg] at h
    obtain ⟨c, hc, h⟩ := List.mem_flatMap.mp h
    rcases List.mem_cons.mp h with rfl | h
    · exact (mem_children_iff.mp hc).1
    · exact ih c hc h

/-- The walk downward meets those elements that the one it starts from lies above. -/
theorem mem_descendants_iff_isAncestor :
    y ∈ g.descendants id ↔ y ∈ g.elements ∧ g.isAncestor id y.id = true := by
  rw [isAncestor_iff hg, ← mem_descendants_iff hg]
  constructor
  · intro h
    exact ⟨mem_of_mem_descendants hg h, List.mem_map_of_mem h⟩
  · rintro ⟨hy, h⟩
    obtain ⟨q, hq, hid⟩ := List.mem_map.mp h
    exact hg.eq_of_id (mem_of_mem_descendants hg hq) hy hid ▸ hq

/-- The subtrees of two children of an element are apart. -/
theorem Within.eq_of_siblings (hc : c ∈ g.children (some id)) (hd : d ∈ g.children (some id))
    (h : g.Within c.id x) (h' : g.Within d.id x) : c.id = d.id := by
  -- above a child there is nothing that is not above its parent
  have hbelow : ∀ {c d : Element}, c ∈ g.children (some id) → d ∈ g.children (some id) →
      g.Within c.id d.id → c.id = d.id := by
    intro c d hc hd h
    obtain ⟨hmem, hp⟩ := mem_children_iff.mp hd
    generalize hx : d.id = y at h
    cases h with
    | root => rfl
    | child he hparent h =>
      cases hg.eq_of_id hmem he hx
      cases Option.some.inj (hp.symm.trans hparent)
      exact absurd (h.place_le hg) (Nat.not_le.mpr (place_lt_of_child hg hc))
  rcases h.total hg h' with h | h
  · exact hbelow hc hd h
  · exact (hbelow hd hc h).symm

/-- The walk downward meets elements with different ids. -/
theorem nodup_descendants (id : Text) : ((g.descendants id).map (·.id)).Nodup := by
  induction id using hg.induct_down with
  | parent id ih =>
    rw [descendants_eq hg, List.map_flatMap, List.nodup_flatMap]
    constructor
    · intro c hc
      rw [List.map_cons, List.nodup_cons]
      exact ⟨fun h => ((mem_descendants_iff hg).mp h).2 rfl, ih c hc⟩
    · have hchildren : ((g.children (some id)).map (·.id)).Nodup :=
        (List.filter_sublist.map _).nodup hg.nodup
      refine (List.pairwise_map.mp hchildren).imp_of_mem fun hc hd hne x hx hx' => hne ?_
      exact Within.eq_of_siblings hg hc hd ((mem_cons_descendants_iff hg).mp hx)
        ((mem_cons_descendants_iff hg).mp hx')

/-- The walk downward meets an element behind its parent, if that is not where it starts. -/
theorem parent_before {before rest : List Element} (h : g.descendants id = before ++ y :: rest) :
    y.parent = some id ∨ ∃ p ∈ before, y.parent = some p.id := by
  induction id using hg.induct_down generalizing before rest with
  | parent id ih =>
    rw [descendants_eq hg] at h
    obtain ⟨c, hc, front, back, hfront, hsplit⟩ := exists_split_of_flatMap h
    rcases front with _ | ⟨c', front⟩
    · cases hsplit
      exact .inl (mem_children_iff.mp hc).2
    · rw [List.cons_append, List.cons.injEq] at hsplit
      obtain ⟨rfl, hsplit⟩ := hsplit
      rcases ih c hc hsplit with hp | ⟨p, hp, hparent⟩
      · exact .inr ⟨c, hfront List.mem_cons_self, hp⟩
      · exact .inr ⟨p, hfront (List.mem_cons_of_mem _ hp), hparent⟩

omit hg in
theorem place_le_of_split {before rest : List Element} (h : g.elements = before ++ e :: rest) :
    g.place e.id ≤ before.length := by
  have hhere : (e :: rest).findIdx (·.id == e.id) = 0 := by
    rw [List.findIdx_cons, beq_self_eq_true, cond_true]
  rw [place, h, List.findIdx_append, hhere]
  split <;> omega

/-- An element stands behind its parent. -/
theorem parent_added_before {before rest : List Element} {p : Text}
    (h : g.elements = before ++ e :: rest) (hp : e.parent = some p) : ∃ q ∈ before, q.id = p := by
  have hearlier := hg.earlier e (h ▸ List.mem_append_cons_self) p hp
  have hlt := Nat.lt_of_lt_of_le hearlier (place_le_of_split h)
  rw [place, h, List.findIdx_append] at hlt
  split at hlt
  · next hfront =>
    obtain ⟨q, hq, hid⟩ := List.findIdx_lt_length.mp hfront
    exact ⟨q, hq, eq_of_beq hid⟩
  · omega

end

end Graph

namespace Indexed

/-! ## Walks that are over

A walk that is over is the same whatever more steps it may take, so the steps that `ancestors` and
`descendants` may take only decide whether a walk is over, and not where it leads. -/

section
variable {α β : Type} {x : Walk α} {k k' : α → Walk β} {f f' : α → Walk β} {xs : List α}

/-- A walk is over: it has come to an answer or to a refusal. -/
def Walk.Over (x : Walk α) : Prop := x.run ≠ none

theorem Walk.Over.of_bind (h : Over (x >>= k)) : Over x := by
  intro hx
  apply h
  rw [ExceptT.run_bind, hx]
  rfl

theorem Walk.Over.bind_congr (h : Over (x >>= k)) (hk : ∀ a, Over (k a) → k' a = k a) :
    x >>= k' = x >>= k := by
  apply ExceptT.ext
  have hover := h
  rw [Over, ExceptT.run_bind] at hover
  rw [ExceptT.run_bind, ExceptT.run_bind]
  cases hx : x.run with
  | none => rfl
  | some result =>
    cases result with
    | error failure => rfl
    | ok a =>
      rw [hx] at hover
      exact congrArg ExceptT.run (hk a hover)

theorem Walk.Over.mapM_congr (h : Over (xs.mapM f)) (hf : ∀ a, Over (f a) → f' a = f a) :
    xs.mapM f' = xs.mapM f := by
  induction xs with
  | nil => rw [List.mapM_nil, List.mapM_nil]
  | cons a xs ih =>
    rw [List.mapM_cons] at h
    rw [List.mapM_cons, List.mapM_cons, hf a h.of_bind]
    exact h.bind_congr fun b hb => by rw [ih hb.of_bind]

theorem climb_of_over {s : Indexed} {n m : Nat} {met : List Element} {parent : Option Text}
    (h : (s.climb n met parent).Over) (hle : n ≤ m) :
    s.climb m met parent = s.climb n met parent := by
  induction n generalizing m met parent with
  | zero =>
    cases parent with
    | none => rw [climb, climb]
    | some id => exact absurd rfl h
  | succ n ih =>
    obtain ⟨m, rfl⟩ := Nat.exists_eq_succ_of_ne_zero (Nat.ne_zero_of_lt hle)
    cases parent with
    | none => rw [climb, climb]
    | some id =>
      rw [climb] at h
      rw [climb, climb]
      exact h.bind_congr fun e he => ih he (Nat.le_of_succ_le_succ hle)

theorem descend_of_over {s : Indexed} {n m : Nat} {id : Text} (h : (s.descend n id).Over)
    (hle : n ≤ m) : s.descend m id = s.descend n id := by
  induction n generalizing m id with
  | zero => exact absurd rfl h
  | succ n ih =>
    obtain ⟨m, rfl⟩ := Nat.exists_eq_succ_of_ne_zero (Nat.ne_zero_of_lt hle)
    rw [descend] at h
    rw [descend, descend]
    refine h.bind_congr fun children hchildren => ?_
    refine congrArg (bind · _) (hchildren.of_bind.mapM_congr fun c hc => ?_)
    rw [ih hc.of_bind (Nat.le_of_succ_le_succ hle)]

end

variable {g : Graph} {e : Element} {id : Text}

section
variable (hg : g.Forest)
include hg

/-! ## What the walks of an indexed graph come to -/

theorem known_of_mem (he : e ∈ g.elements) : (of g).known e.id = .ok e := by
  rw [known, toGraph_of, hg.find?_of_mem he]

theorem children_of (parent : Option Text) : (of g).children parent = .ok (g.children parent) := by
  have hids : ((of g).childIds.get? parent).getD [] = (g.children parent).map (·.id) :=
    Table.getD_foldl_push g.elements {}
  rw [children, hids, mapM_eq_ok_iff, List.forall₂_map_left_iff, List.forall₂_same]
  exact fun c hc => known_of_mem hg (Graph.mem_children_iff.mp hc).1

/-- The walk upward takes at most as many steps as there are elements in front of the one it starts
from. -/
theorem climb_of (he : e ∈ g.elements) (met : List Element) {n : Nat} (hn : g.place e.id ≤ n) :
    (of g).climb n met e.parent = pure (met ++ g.ancestors e.id) := by
  refine hg.induct (motive := fun e => ∀ met n, g.place e.id ≤ n → (of g).climb n met e.parent =
    pure (met ++ g.ancestors e.id)) ?_ ?_ e he met n hn
  · intro e he hp met n hn
    rw [hp, climb, Graph.ancestors_of_root hg he hp, List.append_nil]
  · intro e he q hq hp ih met n hn
    have hplace := hg.earlier e he _ hp
    obtain ⟨n, rfl⟩ := Nat.exists_eq_succ_of_ne_zero
      (Nat.ne_zero_of_lt (Nat.lt_of_lt_of_le hplace hn))
    rw [hp, climb, known_of_mem hg hq, Graph.ancestors_of_parent hg he hq hp]
    exact (ih (met ++ [q]) n (by omega)).trans (by rw [List.append_assoc]; rfl)

/-- The walk upward ends with the elements above the one it starts from. -/
theorem ancestors_of (he : e ∈ g.elements) :
    (of g).ancestors e.id = pure (g.ancestors e.id) := by
  have hget : (of g).get e.id = .ok e := Graph.get_eq_ok_iff.mpr (hg.find?_of_mem he)
  rw [ancestors, hget]
  exact climb_of hg he [] (Nat.le_of_lt (Graph.place_lt_length_iff.mpr (Graph.contains_of_mem he)))

/-- The walk downward goes through at most as many levels as there are elements behind the one it
starts from. -/
theorem descend_of {n : Nat} (hn : g.elements.length < g.place id + n) :
    (of g).descend n id = pure (g.descendants id) := by
  induction n generalizing id with
  | zero => exact absurd List.findIdx_le_length (Nat.not_le.mpr hn)
  | succ n ih =>
    have hbelow : (g.children (some id)).mapM
        (fun c => return c :: (← (of g).descend n c.id) : Element → Walk (List Element)) =
          pure ((g.children (some id)).map fun c => c :: g.descendants c.id) := by
      refine mapM_eq_pure_of_forall fun c hc => ?_
      have := Graph.place_of_child hg hc
      rw [ih (by omega), pure_bind]
    rw [descend, children_of hg, Graph.descendants_eq hg, List.flatMap_def]
    exact (congrArg (· >>= fun below => pure below.flatten) hbelow).trans (pure_bind _ _)

/-- The walk downward ends with the elements below the one it starts from. -/
theorem descendants_of (id : Text) : (of g).descendants id = pure (g.descendants id) :=
  descend_of hg (Nat.lt_of_lt_of_le (Nat.lt_succ_self _) (Nat.le_add_left _ _))

end

/-! ## Walks after any calls -/

/-- The walks from an element end, the one upward with the elements `up` and the one downward with
the elements `down`. -/
structure Walks (s : Indexed) (x : Element) (up down : List Element) : Prop where
  upward : (s.ancestors x.id).run = some (.ok up)
  /-- The walk upward never comes to an element twice or back to where it starts. -/
  nodup_upward : (x.id :: up.map (·.id)).Nodup
  /-- The walk upward ends where there is no parent. -/
  last : ∀ a, up.getLast? = some a → a.parent = none
  downward : (s.descendants x.id).run = some (.ok down)
  /-- The walk downward meets those elements from which the walk upward comes to this one. -/
  mem_downward : ∀ y, y ∈ down ↔ y ∈ s.elements ∧
    ∃ above, (s.ancestors y.id).run = some (.ok above) ∧ x ∈ above
  nodup_downward : (down.map (·.id)).Nodup
  /-- The walk downward comes to an element after its parent. -/
  parent_before : ∀ before y rest, down = before ++ y :: rest →
    y.parent = some x.id ∨ ∃ p ∈ before, y.parent = some p.id

theorem walks_of (hg : g.Forest) {x : Element} (hx : x ∈ g.elements) :
    (of g).Walks x (g.ancestors x.id) (g.descendants x.id) where
  upward := by
    rw [ancestors_of hg hx]
    rfl
  nodup_upward := by
    refine List.nodup_cons.mpr ⟨fun h => ?_, Graph.nodup_ancestors hg hx⟩
    obtain ⟨a, ha, hid⟩ := List.mem_map.mp h
    have habove := (Graph.mem_ancestors_iff hg (Graph.mem_of_mem_ancestors ha)).mp ha
    exact ((Graph.isAncestor_iff hg).mp habove).2 hid
  last a ha := Graph.parent_of_last hg hx (by rw [List.getLast?_cons, ha]; rfl)
  downward := by
    rw [descendants_of hg]
    rfl
  mem_downward y := by
    rw [Graph.mem_descendants_iff_isAncestor hg, ← Graph.mem_ancestors_iff hg hx]
    refine and_congr_right fun hy => ?_
    rw [ancestors_of hg hy]
    constructor
    · intro h
      exact ⟨_, rfl, h⟩
    · rintro ⟨_, ⟨⟩, h⟩
      exact h
  nodup_downward := Graph.nodup_descendants hg x.id
  parent_before _ _ _ h := Graph.parent_before hg h

/-- Let an indexed graph be left by any calls, refused ones among them. The walks from each of its
elements end and agree. The children of a parent are those elements that have it, in the order in
which they were added: an element comes behind all others, and stands behind its parent. -/
theorem walks_after (calls : List Call) :
    (∀ x ∈ (after calls).elements, ∃ up down, (after calls).Walks x up down) ∧
      (∀ parent, (after calls).children parent =
        .ok ((after calls).elements.filter (·.parent == parent))) ∧
      (∀ e added s, (addElement e).run (after calls) = .ok added s →
        s.elements = (after calls).elements ++ [e]) ∧
      ∀ before e rest p, (after calls).elements = before ++ e :: rest → e.parent = some p →
        ∃ q ∈ before, q.id = p := by
  obtain ⟨g, hgrown, hafter⟩ := exists_grown calls
  have hg := hgrown.store.forest
  rw [hafter]
  refine ⟨fun x hx => ⟨_, _, walks_of hg hx⟩, children_of hg, fun e added s h => ?_,
    fun before e rest p => Graph.parent_added_before hg⟩
  obtain ⟨g', hadd, -, rfl⟩ := outcome_eq_ok ((addElement_of g e).symm.trans h)
  obtain ⟨-, -, -, rfl⟩ := Graph.addElement_eq_ok_iff.mp hadd
  rfl

end Indexed

end SystemAtlas.Model
