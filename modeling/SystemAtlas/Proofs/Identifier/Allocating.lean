import Mathlib.Data.List.Perm.Subperm
import Mathlib.Data.Nat.Find
import SystemAtlas.Proofs.Identifier.Registry

/-! # Names made of display names

A slug is a local name (`isLocalName_slug`), and so are the candidates made of one. Of these one is
allocated, so a display name is never refused as a name (`Registry.isLocalName_firstFree`). The
candidates have different ids, so one of the first is free (`Registry.exists_leastFree`), and the
one allocated is the first that is (`Registry.LeastFree.firstFree_eq`). -/

namespace SystemAtlas.Identifier

open Text (DotFree)

variable {base : Text} {ps : List CodePoint} {c : Char} {inRun : Bool}

/-! ## Slugs -/

theorem mem_collapse (h : c ∈ collapse inRun ps) : c = '_' ∨ isSlugChar c = true := by
  induction ps generalizing inRun with
  | nil => cases h
  | cons p ps ih =>
    rw [collapse] at h
    split at h
    · next d hkept =>
      rcases List.mem_cons.mp h with rfl | h
      · exact .inr (Option.filter_eq_some_iff.mp hkept).2
      · exact ih h
    · split at h
      · exact ih h
      · rcases List.mem_cons.mp h with rfl | h
        · exact .inl rfl
        · exact ih h

theorem mem_of_mem_trimBoth {α : Type} {drop : α → Bool} {xs : List α} {x : α}
    (h : x ∈ Text.trimBoth drop xs) : x ∈ xs := by
  have hfront := (List.dropWhile_sublist drop).subset (List.mem_reverse.mp h)
  exact (List.dropWhile_sublist drop).subset (List.mem_reverse.mp hfront)

theorem dotFree_slug (name : Text) : (slug name).DotFree := by
  rw [slug]
  split
  · show CodePoint.char '.' ∉ ("element" : Text).points
    decide +kernel
  · intro h
    obtain ⟨c, hc, hdot⟩ := List.mem_map.mp h
    have hmem := mem_of_mem_trimBoth hc
    rw [CodePoint.char.inj hdot] at hmem
    rcases mem_collapse hmem with h | h <;> exact absurd h (by decide)

theorem isLocalName_slug (name : Text) : isLocalName (slug name) = true := by
  refine isLocalName_iff.mpr ⟨?_, dotFree_slug name⟩
  rw [slug]
  split
  · decide
  · next hne =>
    intro h
    rw [Text.ext_iff] at h
    exact hne (List.isEmpty_iff.mpr (List.map_eq_nil_iff.mp h))

/-! ## Candidates -/

namespace Registry

theorem isLocalName_candidate (h : isLocalName base = true) (k : Nat) :
    isLocalName (candidate base k) = true := by
  rw [candidate]
  split
  · exact h
  · obtain ⟨hne, hdot⟩ := isLocalName_iff.mp h
    refine isLocalName_iff.mpr ⟨fun he => ?_, fun hmem => ?_⟩
    · have hpoints := congrArg Text.points he
      exact hne (Text.ext (List.append_eq_nil_iff.mp (List.append_eq_nil_iff.mp hpoints).1).1)
    · rcases List.mem_append.mp hmem with hmem | hmem
      · rcases List.mem_append.mp hmem with hmem | hmem
        · exact hdot hmem
        · exact absurd hmem (by decide)
      · exact Text.dotFree_toString k hmem

/-- Whatever is taken, the search ends at a candidate. -/
theorem exists_firstFree (taken : Text → Bool) (base : Text) (fuel k : Nat) :
    ∃ i, firstFree taken base fuel k = candidate base i := by
  induction fuel generalizing k with
  | zero => exact ⟨k, rfl⟩
  | succ fuel ih =>
    rw [firstFree]
    split
    · exact ih (k + 1)
    · exact ⟨k, rfl⟩

theorem isLocalName_firstFree (taken : Text → Bool) (name : Text) (fuel k : Nat) :
    isLocalName (firstFree taken (slug name) fuel k) = true := by
  obtain ⟨i, hi⟩ := exists_firstFree taken (slug name) fuel k
  rw [hi]
  exact isLocalName_candidate (isLocalName_slug name) i

/-! ## The first free candidate -/

/-- The `k`-th candidate is the first that is not taken. -/
structure LeastFree (taken : Text → Bool) (base : Text) (k : Nat) : Prop where
  pos : 1 ≤ k
  free : taken (candidate base k) = false
  least : ∀ j, 1 ≤ j → j < k → taken (candidate base j) = true

variable {taken : Text → Bool} {r : Registry} {scope : ScopePath} {k : Nat}

theorem LeastFree.firstFree_eq_of_le (h : LeastFree taken base k) {fuel n : Nat} (hn : 1 ≤ n)
    (hle : n ≤ k) (hfuel : k ≤ n + fuel) : firstFree taken base fuel n = candidate base k := by
  induction fuel generalizing n with
  | zero =>
    obtain rfl : n = k := by omega
    rfl
  | succ fuel ih =>
    rw [firstFree]
    by_cases hk : n = k
    · subst hk
      rw [h.free, if_neg Bool.false_ne_true]
    · rw [if_pos (h.least n hn (by omega)), ih (by omega) (by omega) (by omega)]

theorem LeastFree.firstFree_eq (h : LeastFree taken base k) {fuel : Nat} (hk : k ≤ fuel + 1) :
    firstFree taken base fuel 1 = candidate base k :=
  h.firstFree_eq_of_le (Nat.le_refl 1) h.pos (by omega)

theorem candidate_injective {i j : Nat} (hi : 1 ≤ i) (hj : 1 ≤ j)
    (h : candidate base i = candidate base j) : i = j := by
  -- a number behind the name makes it longer
  have hne : ∀ n : Nat, base ≠ base ++ "_" ++ toString n := by
    intro n he
    have hlength := congrArg (fun s => s.points.length) he
    have hpoints : (base ++ "_" ++ (toString n : String) : Text).points =
        base.points ++ [.char '_'] ++ (Text.ofString (toString n)).points := rfl
    simp only [hpoints, List.length_append, List.length_singleton] at hlength
    omega
  rw [candidate, candidate] at h
  split at h <;> split at h
  · omega
  · exact absurd h (hne j)
  · exact absurd h.symm (hne i)
  · exact Text.toString_injective (Text.append_right_injective h)

theorem id_injective {mode : Mode} {name name' : Text}
    (h : Declared.id mode ⟨scope, name⟩ = Declared.id mode ⟨scope, name'⟩) : name = name' := by
  cases mode with
  | flat => exact h
  | hierarchical =>
    have hpoints := congrArg Text.points h
    simp only [Declared.id, Declared.path, Text.intercalate, List.map_append, List.map_singleton]
      at hpoints
    apply Text.ext
    generalize scope.map (·.points) = front at hpoints
    induction front with
    | nil => simpa using hpoints
    | cons ps front ih =>
      apply ih
      rw [List.cons_append, List.cons_append, List.intercalate_cons_of_ne_nil (by simp),
        List.intercalate_cons_of_ne_nil (by simp)] at hpoints
      exact List.append_cancel_left hpoints

/-- Of one candidate more than there are declarations not all are taken. -/
theorem exists_free (r : Registry) (base : Text) (scope : ScopePath) :
    ∃ k, 1 ≤ k ∧ k ≤ r.sequence + 1 ∧
      r.contains (Declared.id r.mode ⟨scope, candidate base k⟩) = false := by
  by_contra hnone
  push Not at hnone
  let id k := Declared.id r.mode ⟨scope, candidate base (k + 1)⟩
  have hnodup : ((List.range (r.sequence + 1)).map id).Nodup := by
    apply List.nodup_range.map
    intro i j h
    exact Nat.succ.inj (candidate_injective (by omega) (by omega) (id_injective h))
  have hsubset : (List.range (r.sequence + 1)).map id ⊆ r.ids := by
    intro x hx
    obtain ⟨k, hk, rfl⟩ := List.mem_map.mp hx
    have hk := List.mem_range.mp hk
    exact List.contains_iff_mem.mp
      (eq_true_of_ne_false (hnone (k + 1) (by omega) (by omega)))
  have hlength := (hnodup.subperm hsubset).length_le
  rw [List.length_map, List.length_range, ids, List.length_map, sequence] at hlength
  omega

theorem exists_leastFree (r : Registry) (base : Text) (scope : ScopePath) :
    ∃ k ≤ r.sequence + 1,
      LeastFree (fun name => r.contains (Declared.id r.mode ⟨scope, name⟩)) base k := by
  have hfree := r.exists_free base scope
  obtain ⟨hpos, hle, hnew⟩ := Nat.find_spec hfree
  refine ⟨Nat.find hfree, hle, hpos, hnew, fun j hj hlt => ?_⟩
  have hmin := Nat.find_min hfree hlt
  exact eq_true_of_ne_false fun hj' => hmin ⟨hj, by omega, hj'⟩

end Registry

end SystemAtlas.Identifier
