import Mathlib.Order.Bounds.Basic
import SystemAtlas.Proofs.Identifier.Ledger
import SystemAtlas.Proofs.Identifier.Slug

/-! # Allocating a free name

Whatever a ledger has, a name is allocated for every display name (`allocate_eq_ok`): the slug of
the display name, if it is free in the scope, or else the slug with the least number behind it that
makes it free (`LeastName`). -/

namespace SystemAtlas.Identifier

namespace Ledger

variable {l : Ledger} {base name : Text} {scope : ScopePath} {k : Nat}

/-- A name can be declared in a scope: it gives no id that is declared already. -/
def IsFree (l : Ledger) (name : Text) (scope : ScopePath) : Prop :=
  l.contains (l.compose name scope) = false

/-- The name that is allocated for a base: the base itself if it is free, or else the base with the
least number behind it, counting from two, that makes it free. -/
structure LeastName (l : Ledger) (base : Text) (scope : ScopePath) (name : Text) : Prop where
  itself : l.IsFree base scope → name = base
  numbered : ¬l.IsFree base scope →
    ∃ k, IsLeast {k | 2 ≤ k ∧ l.IsFree (numbered base k) scope} k ∧ name = numbered base k

theorem candidate_eq_numbered (hk : 2 ≤ k) : Registry.candidate base k = numbered base k := by
  rw [Registry.candidate, if_neg (by omega), numbered]

theorem leastName_of_leastFree
    (h : Registry.LeastFree (fun name => l.contains (l.compose name scope)) base k) :
    l.LeastName base scope (Registry.candidate base k) where
  itself hbase := by
    -- the base is the first candidate
    have hk : ¬1 < k := fun hlt => by
      have htaken := h.least 1 (Nat.le_refl 1) hlt
      exact absurd (htaken.symm.trans hbase) Bool.false_ne_true.symm
    rw [Registry.candidate, if_pos (Nat.le_of_not_lt hk)]
  numbered hbase := by
    have hk : 2 ≤ k := by
      refine Nat.lt_of_le_of_ne h.pos ?_
      rintro rfl
      exact hbase h.free
    refine ⟨k, ⟨⟨hk, ?_⟩, ?_⟩, candidate_eq_numbered hk⟩
    · rw [IsFree, ← candidate_eq_numbered hk]
      exact h.free
    · rintro j ⟨hj, hfree⟩
      by_contra hlt
      have htaken := h.least j (by omega) (by omega)
      rw [candidate_eq_numbered hj] at htaken
      exact absurd (htaken.symm.trans hfree) Bool.false_ne_true.symm

/-- Allocating never fails. It adds a free name behind the declarations there are. -/
theorem allocate_eq_ok (r : Registry) (displayName : Option Text) (scope : ScopePath) :
    ∃ name, (of r).LeastName (slug (displayName.getD "")) scope name ∧ r.Free ⟨scope, name⟩ ∧
      (of r).allocate displayName scope =
        some (.ok ((of r).compose name scope) (of (r.add ⟨scope, name⟩))) := by
  obtain ⟨k, hk, hleast⟩ := r.exists_leastFree (slug (displayName.getD "")) scope
  have hfree : r.Free ⟨scope, Registry.candidate (slug (displayName.getD "")) k⟩ :=
    ⟨Registry.isLocalName_candidate (isLocalName_slug _) k, hleast.free⟩
  refine ⟨_, leastName_of_leastFree ?_, hfree, ?_⟩
  · simp only [contains_of]
    exact hleast
  · rw [allocate_of, Registry.allocate, hleast.firstFree_eq hk,
      Registry.declare_eq_ok_iff.mpr ⟨hfree, rfl, rfl⟩]
    rfl

/-- Let a ledger be left by any calls, and let there be any display name or none. Its slug is made
of letters `a` to `z`, digits and single underscores between them, and is its own slug. To allocate
a name in a scope comes to an end and gives the id of a name that was free: of the slug if it was
free, and else of the slug with the least number behind it, from two on, that made it free. This
declaration and no other is added. -/
theorem allocate_least (mode : Mode) (cs : List Call) :
    ∃ answers l, calls { mode } cs = some (answers, l) ∧
      ∀ (displayName : Option Text) (scope : ScopePath),
        let base := slug (displayName.getD "")
        IsSlug base ∧ slug base = base ∧
          ∃ name l', l.LeastName base scope name ∧ l.IsFree name scope ∧
            l.allocate displayName scope = some (.ok (l.compose name scope) l') ∧
            l'.entries.values =
              l.entries.values ++ [⟨l.compose name scope, ⟨scope, name⟩, l.sequence + 1⟩] := by
  obtain ⟨answers, hcalls, -⟩ := calls_of { mode } cs
  refine ⟨answers, _, hcalls, fun displayName scope => ?_⟩
  have hslug := isSlug_slug (displayName.getD "")
  obtain ⟨name, hleast, hfree, hallocate⟩ := allocate_eq_ok _ displayName scope
  refine ⟨hslug, slug_eq_self_iff.mpr hslug, name, _, hleast, ?_, hallocate, ?_⟩
  · rw [IsFree, contains_of]
    exact hfree.new
  · rw [of_add, Table.values, List.map_append]
    rfl

end Ledger

end SystemAtlas.Identifier
