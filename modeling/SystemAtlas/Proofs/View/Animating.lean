import SystemAtlas.Proofs.Outcome
import SystemAtlas.View.Animation

/-! # What the steps of an animation name

A step is refused if it would reveal what its view does not show, and what appears with it is taken
from the relationships of the view. So animating a view keeps its steps inside it
(`Animation.enclosed_of_addStep`) and changes nothing else of it (`Animation.view_of_addStep`). -/

namespace SystemAtlas

open Model (Graph)

/-- The steps of a view name its own elements and relationships only. -/
def View.Enclosed (v : View) : Prop :=
  ∀ s ∈ v.animation, s.elements ⊆ v.elements ∧ s.relationships ⊆ v.relationships

namespace Animation

variable {g : Graph} {a a' : Animation} {ids revealed rs : List Text} {s : View.Step}

theorem addStep_eq_ok_iff : a.addStep g ids = .ok (s, a') ↔
    a.obstacle? (distinct ids) = none ∧
      ∃ rs, a.appearing g (a.revealed ++ distinct ids) = .ok rs ∧
        a.append (distinct ids) rs = (s, a') := by
  rw [addStep]
  cases a.obstacle? (distinct ids) with
  | some cause => simp
  | none => simp only [map_eq_ok_iff, true_and]

/-- A step has no obstacle if it reveals something, and only what the view has and no earlier step
reveals. -/
theorem obstacle?_eq_none_iff : a.obstacle? ids = none ↔
    ids ≠ [] ∧ ids ⊆ a.view.elements ∧ ∀ x ∈ ids, x ∉ a.revealed := by
  have hinside : (ids.filter (!a.view.elements.contains ·)).isEmpty = true ↔
      ids ⊆ a.view.elements := by
    simp [List.isEmpty_iff, List.filter_eq_nil_iff, List.subset_def]
  have hnew : (ids.filter a.revealed.contains).isEmpty = true ↔ ∀ x ∈ ids, x ∉ a.revealed := by
    simp [List.isEmpty_iff, List.filter_eq_nil_iff]
  rw [← hinside, ← hnew, ne_eq, ← List.isEmpty_iff]
  simp only [obstacle?]
  cases ids.isEmpty <;> cases (ids.filter (!a.view.elements.contains ·)).isEmpty <;>
    cases (ids.filter a.revealed.contains).isEmpty <;> simp

/-- What appears with a step is taken from the relationships of the view. -/
theorem subset_of_appearing (h : a.appearing g revealed = .ok rs) :
    rs ⊆ a.view.relationships := by
  obtain ⟨keep, -, rfl⟩ := exists_filter_of_filterM h
  exact List.Subset.trans (List.filter_subset_self _) (List.filter_subset_self _)

/-- A step keeps everything of a view but its animation. -/
theorem view_of_addStep (h : a.addStep g ids = .ok (s, a')) :
    ∃ steps, a'.view = { a.view with animation := steps } := by
  obtain ⟨-, rs, -, heq⟩ := addStep_eq_ok_iff.mp h
  cases heq
  exact ⟨_, rfl⟩

/-- A step names elements and relationships of its view. -/
theorem enclosed_of_addStep (ha : a.view.Enclosed) (h : a.addStep g ids = .ok (s, a')) :
    a'.view.Enclosed := by
  obtain ⟨hids, rs, hrs, heq⟩ := addStep_eq_ok_iff.mp h
  have helements := (obstacle?_eq_none_iff.mp hids).2.1
  have hrelationships := subset_of_appearing hrs
  cases heq
  intro x hx
  rcases List.mem_append.mp hx with hx | hx
  · exact ha x hx
  · rw [List.mem_singleton.mp hx]
    exact ⟨helements, hrelationships⟩

end Animation

end SystemAtlas
