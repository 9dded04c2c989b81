/-! # Lists without repetition

`distinct` keeps the first occurrence of every element of a list: the result has the same elements
(`mem_distinct`) and none of them twice (`nodup_distinct`).
-/

namespace SystemAtlas

/-- A list with `x` added at its end unless it is there. -/
def addNew [BEq α] (seen : List α) (x : α) : List α :=
  if seen.contains x then seen else seen ++ [x]

/-- The elements of a list in the order of their first occurrence, each once. -/
def distinct [BEq α] (xs : List α) : List α := xs.foldl addNew []

theorem mem_addNew [BEq α] [LawfulBEq α] {seen : List α} {x y : α} :
    y ∈ addNew seen x ↔ y ∈ seen ∨ y = x := by
  unfold addNew
  split <;> simp_all

theorem nodup_addNew [BEq α] [LawfulBEq α] {seen : List α} (h : seen.Nodup) (x : α) :
    (addNew seen x).Nodup := by
  unfold addNew
  split
  · exact h
  · have hx : x ∉ seen := by simp_all
    refine List.nodup_append.2 ⟨h, by simp, fun y hy z hz => ?_⟩
    rw [List.mem_singleton.1 hz]
    exact fun e => hx (e ▸ hy)

theorem mem_foldl_addNew [BEq α] [LawfulBEq α] {xs seen : List α} {y : α} :
    y ∈ xs.foldl addNew seen ↔ y ∈ seen ∨ y ∈ xs := by
  induction xs generalizing seen with
  | nil => simp
  | cons x xs ih => simp [ih, mem_addNew, or_assoc]

theorem nodup_foldl_addNew [BEq α] [LawfulBEq α] {seen : List α} (h : seen.Nodup) (xs : List α) :
    (xs.foldl addNew seen).Nodup := by
  induction xs generalizing seen with
  | nil => exact h
  | cons x xs ih => exact ih (nodup_addNew h x)

theorem prefix_foldl_addNew [BEq α] (seen xs : List α) : seen <+: xs.foldl addNew seen := by
  induction xs generalizing seen with
  | nil => exact List.prefix_rfl
  | cons x xs ih =>
    refine List.IsPrefix.trans ?_ (ih (addNew seen x))
    rw [addNew]
    split
    · exact List.prefix_rfl
    · exact List.prefix_append seen [x]

theorem mem_distinct [BEq α] [LawfulBEq α] {xs : List α} {y : α} : y ∈ distinct xs ↔ y ∈ xs := by
  simp [distinct, mem_foldl_addNew]

theorem distinct_eq_nil [BEq α] [LawfulBEq α] {xs : List α} : distinct xs = [] ↔ xs = [] := by
  simp only [List.eq_nil_iff_forall_not_mem, mem_distinct]

theorem nodup_distinct [BEq α] [LawfulBEq α] (xs : List α) : (distinct xs).Nodup :=
  nodup_foldl_addNew List.nodup_nil xs

theorem foldl_addNew_of_nodup [BEq α] [LawfulBEq α] {seen xs : List α} (h : (seen ++ xs).Nodup) :
    xs.foldl addNew seen = seen ++ xs := by
  induction xs generalizing seen with
  | nil => simp
  | cons x xs ih =>
    have hx : x ∉ seen := fun hmem => (List.nodup_append.1 h).2.2 x hmem x List.mem_cons_self rfl
    have hnew : addNew seen x = seen ++ [x] := by simp [addNew, hx]
    rw [List.foldl_cons, hnew, ih (by simpa using h), List.append_assoc, List.singleton_append]

theorem distinct_of_nodup [BEq α] [LawfulBEq α] {xs : List α} (h : xs.Nodup) : distinct xs = xs :=
  foldl_addNew_of_nodup h

end SystemAtlas
