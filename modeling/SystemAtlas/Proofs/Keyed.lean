import Mathlib.Data.List.Nodup
import SystemAtlas.Distinct

/-! # Lists with keys

A list whose elements have different keys has at most one element for a key, and finding it by the
key finds that one (`find?_key_eq_some_iff`). What stands in a list with one more at its end is that
one or stood there before (`cons_of_concat`). -/

namespace SystemAtlas

theorem cons_of_concat {xs before after : List α} {x y : α}
    (h : xs ++ [y] = before ++ x :: after) :
    before = xs ∧ x = y ∨ ∃ rest, xs = before ++ x :: rest := by
  rcases after.eq_nil_or_concat' with rfl | ⟨rest, last, rfl⟩
  · obtain ⟨rfl, hx⟩ := List.append_inj' h rfl
    exact .inl ⟨rfl, (List.singleton_inj.mp hx).symm⟩
  · rw [← List.cons_append, ← List.append_assoc] at h
    exact .inr ⟨rest, (List.append_inj' h rfl).1⟩

variable [BEq κ] [LawfulBEq κ] {key : α → κ} {xs : List α} {x : α} {k : κ}

theorem findIdx?_congr {p q : α → Bool} (h : ∀ x ∈ xs, p x = q x) :
    xs.findIdx? p = xs.findIdx? q := by
  induction xs with
  | nil => rfl
  | cons x xs ih =>
    rw [List.findIdx?_cons, List.findIdx?_cons, h x List.mem_cons_self,
      ih fun y hy => h y (List.mem_cons_of_mem _ hy)]

theorem find?_key_of_mem (hn : (xs.map key).Nodup) (hx : x ∈ xs) :
    xs.find? (fun y => key y == key x) = some x := by
  cases hfind : xs.find? (fun y => key y == key x) with
  | none => exact absurd (beq_self_eq_true (key x)) (List.find?_eq_none.mp hfind x hx)
  | some y =>
    have hkey : key y = key x := by simpa using List.find?_some hfind
    rw [List.inj_on_of_nodup_map hn (List.mem_of_find?_eq_some hfind) hx hkey]

theorem find?_key_eq_some_iff (hn : (xs.map key).Nodup) :
    xs.find? (fun y => key y == k) = some x ↔ x ∈ xs ∧ key x = k := by
  constructor
  · intro h
    exact ⟨List.mem_of_find?_eq_some h, by simpa using List.find?_some h⟩
  · rintro ⟨hx, rfl⟩
    exact find?_key_of_mem hn hx

/-- Among things with different keys, finding one by its key does not depend on their order. -/
theorem find?_key_perm {ys : List α} (hn : (xs.map key).Nodup) (h : xs.Perm ys) :
    xs.find? (fun y => key y == k) = ys.find? (fun y => key y == k) := by
  have hn' : (ys.map key).Nodup := (h.map key).nodup hn
  refine Option.ext fun x => ?_
  rw [find?_key_eq_some_iff hn, find?_key_eq_some_iff hn', h.mem_iff]

end SystemAtlas
