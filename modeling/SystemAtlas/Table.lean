/-! # Tables

A table holds values under keys, in the order in which the keys were first set. What stands under a
key after a run of `push` or of `setDefault` over a list can be told from the list
(`getD_foldl_push`, `get?_foldl_setDefault`).
-/

namespace SystemAtlas

/-- Values under keys, in the order in which the keys were first set. -/
structure Table (κ ν : Type) where
  entries : List (κ × ν) := []
  deriving DecidableEq, Inhabited

namespace Table

variable {κ ν α β : Type} [BEq κ]

/-- The value under a key. -/
def get? (t : Table κ ν) (key : κ) : Option ν := (t.entries.find? (·.1 == key)).map (·.2)

/-- Whether there is a value under a key. -/
def contains (t : Table κ ν) (key : κ) : Bool := t.entries.any (·.1 == key)

/-- The values, in the order of their keys. -/
def values (t : Table κ ν) : List ν := t.entries.map (·.2)

/-- Entries with a value under a key: a key keeps its place, and a new one goes last. -/
def setEntries (key : κ) (value : ν) : List (κ × ν) → List (κ × ν)
  | [] => [(key, value)]
  | (k, v) :: rest => if k == key then (k, value) :: rest else (k, v) :: setEntries key value rest

/-- The table with a value under a key. -/
def set (t : Table κ ν) (key : κ) (value : ν) : Table κ ν := ⟨setEntries key value t.entries⟩

/-- The table with a value under a key that had none. -/
def setDefault (t : Table κ ν) (key : κ) (value : ν) : Table κ ν :=
  if t.contains key then t else t.set key value

/-- The table with one more item at the end of the list under a key. -/
def push (t : Table κ (List α)) (key : κ) (item : α) : Table κ (List α) :=
  t.set key ((t.get? key).getD [] ++ [item])

/-! ## What stands under a key -/

theorem contains_eq_isSome (t : Table κ ν) (key : κ) : t.contains key = (t.get? key).isSome := by
  simp only [contains, get?, Option.isSome_map, List.isSome_find?]

theorem set_of_new {t : Table κ ν} {key : κ} (value : ν) (h : t.contains key = false) :
    t.set key value = ⟨t.entries ++ [(key, value)]⟩ := by
  obtain ⟨entries⟩ := t
  simp only [contains, set] at h ⊢
  congr 1
  induction entries with
  | nil => rfl
  | cons e entries ih =>
    rw [List.any_cons, Bool.or_eq_false_iff] at h
    rw [setEntries, if_neg (by simp [h.1]), ih h.2, List.cons_append]

variable [LawfulBEq κ] {t : Table κ ν} {key k : κ} {value : ν}

theorem get?_set : (t.set key value).get? k = if key == k then some value else t.get? k := by
  obtain ⟨entries⟩ := t
  simp only [get?, set]
  induction entries with
  | nil => cases h : key == k <;> simp [setEntries, h]
  | cons e entries ih =>
    obtain ⟨x, v⟩ := e
    rw [setEntries]
    by_cases hx : x = key
    · subst hx
      cases h : x == k <;> simp [h]
    · rw [if_neg (by simpa using hx), List.find?_cons, List.find?_cons]
      by_cases hk : x = k
      · subst hk
        simp [Ne.symm hx]
      · have hne : (x == k) = false := by simpa using hk
        simp only [hne, ih]

theorem get?_setDefault :
    (t.setDefault key value).get? k = (t.get? k).or (if key == k then some value else none) := by
  rw [setDefault, contains_eq_isSome]
  cases h : key == k with
  | false => cases t.get? key <;> simp [get?_set, h]
  | true =>
    obtain rfl := eq_of_beq h
    cases hget : t.get? key <;> simp [get?_set, hget]

theorem getD_push {t : Table κ (List α)} {item : α} :
    ((t.push key item).get? k).getD [] =
      (t.get? k).getD [] ++ if key == k then [item] else [] := by
  rw [push, get?_set]
  cases h : key == k with
  | false => simp
  | true => simp [eq_of_beq h]

/-- Under a key stands what was pushed there, one after the other. -/
theorem getD_foldl_push {key : β → κ} {item : β → α} (xs : List β) (t : Table κ (List α)) :
    ((xs.foldl (fun t x => t.push (key x) (item x)) t).get? k).getD [] =
      (t.get? k).getD [] ++ (xs.filter (key · == k)).map item := by
  induction xs generalizing t with
  | nil => simp
  | cons x xs ih =>
    rw [List.foldl_cons, ih, getD_push]
    cases h : key x == k <;> simp [h]

/-- Under a key stands what was there before, or else the first of what was put there. -/
theorem get?_foldl_setDefault {key : ν → κ} (xs : List ν) (t : Table κ ν) :
    (xs.foldl (fun t x => t.setDefault (key x) x) t).get? k =
      (t.get? k).or (xs.find? (key · == k)) := by
  induction xs generalizing t with
  | nil => simp
  | cons x xs ih =>
    rw [List.foldl_cons, ih, get?_setDefault, Option.or_assoc]
    cases h : key x == k <;> simp [h]

end Table

end SystemAtlas
