import SystemAtlas.Identifier.LocalName

/-! # Dotted paths

A path of names without dots is told by the text that joins them (`dotted_intercalate`), so two such
paths with one text are the same path (`intercalate_injective`). `lastName` is what stands behind
the last dot of a text. -/

namespace SystemAtlas

namespace Text

/-- A text has no dot. -/
def DotFree (s : Text) : Prop := CodePoint.char '.' ∉ s.points

/-- What stands behind the last dot of a text, or the text itself if it has no dot. -/
def lastName (s : Text) : Text := s.dotted.getLastD s

theorem dotted_ne_nil (s : Text) : s.dotted ≠ [] := by
  simp [dotted, pieces, List.splitOn_ne_nil]

theorem dotted_eq_of_dotFree {s : Text} (h : s.DotFree) : s.dotted = [s] := by
  simp only [dotted, pieces, List.splitOn_eq_singleton h, List.map_cons, List.map_nil]

private theorem not_mem_of_mem_splitOn [BEq α] [LawfulBEq α] {x : α} {xs l : List α}
    (h : l ∈ xs.splitOn x) : x ∉ l := by
  induction xs generalizing l with
  | nil =>
    rw [List.splitOn_nil, List.mem_singleton] at h
    exact h ▸ List.not_mem_nil
  | cons y ys ih =>
    obtain ⟨first, rest, hys⟩ := List.exists_cons_of_ne_nil (List.splitOn_ne_nil x ys)
    rw [List.splitOn_cons_eq_if_modifyHead, hys] at h
    by_cases hxy : (y == x) = true
    · rw [if_pos hxy] at h
      rcases List.mem_cons.mp h with rfl | h
      · exact List.not_mem_nil
      · exact ih (hys ▸ h)
    · rw [if_neg hxy, List.modifyHead_cons] at h
      rcases List.mem_cons.mp h with rfl | h
      · have hfirst : x ∉ first := ih (hys ▸ List.mem_cons_self)
        have hne : x ≠ y := fun e => hxy (by simp [e])
        simp [hfirst, hne]
      · exact ih (hys ▸ List.mem_cons_of_mem _ h)

/-- The names of a dotted path have no dots. -/
theorem dotFree_of_mem_dotted {s t : Text} (h : t ∈ s.dotted) : t.DotFree := by
  obtain ⟨ps, hps, rfl⟩ := List.mem_map.mp h
  exact not_mem_of_mem_splitOn hps

/-- The names that a text joins can be read off it. -/
theorem dotted_intercalate {path : List Text} (hne : path ≠ []) (h : ∀ s ∈ path, s.DotFree) :
    (intercalate "." path).dotted = path := by
  have hdot : (Text.ofString ".").points = [CodePoint.char '.'] := by decide +kernel
  have hpoints : ∀ ps ∈ path.map (·.points), CodePoint.char '.' ∉ ps := by
    intro ps hps
    obtain ⟨s, hs, rfl⟩ := List.mem_map.mp hps
    exact h s hs
  simp only [dotted, pieces, intercalate, hdot]
  rw [List.splitOn_intercalate _ hpoints (by simpa using hne), List.map_map]
  exact List.map_id path

theorem intercalate_injective {path path' : List Text} (hne : path ≠ []) (hne' : path' ≠ [])
    (h : ∀ s ∈ path, s.DotFree) (h' : ∀ s ∈ path', s.DotFree)
    (he : intercalate "." path = intercalate "." path') : path = path' := by
  rw [← dotted_intercalate hne h, ← dotted_intercalate hne' h', he]

theorem lastName_eq_of_dotFree {s : Text} (h : s.DotFree) : s.lastName = s := by
  rw [lastName, dotted_eq_of_dotFree h, List.getLastD_cons, List.getLastD_nil]

theorem lastName_intercalate {scope : List Text} {name : Text}
    (h : ∀ s ∈ scope ++ [name], s.DotFree) :
    (intercalate "." (scope ++ [name])).lastName = name := by
  rw [lastName, dotted_intercalate (by simp) h, List.getLastD_concat]

/-- A path that ends with a dotted reference ends with its last name. -/
theorem eq_lastName_of_append_dotted {scope outer : List Text} {name reference : Text}
    (h : scope ++ [name] = outer ++ reference.dotted) : name = reference.lastName := by
  obtain ⟨rest, last, hd⟩ := (List.eq_nil_or_concat reference.dotted).resolve_left
    (dotted_ne_nil reference)
  rw [List.concat_eq_append] at hd
  have hlast := congrArg (fun l => l.getLastD reference) h
  rw [hd] at hlast
  simp only [← List.append_assoc, List.getLastD_concat] at hlast
  rw [lastName, hd, List.getLastD_concat, hlast]

/-! ## Numbers -/

theorem points_toString (n : Nat) :
    Text.points (toString n : String) = (Nat.toDigits 10 n).map .char := by
  show (Nat.repr n).toList.map CodePoint.char = _
  rw [Nat.toList_repr]

theorem dotFree_toString (n : Nat) : DotFree (toString n : String) := by
  rw [DotFree, points_toString]
  intro h
  obtain ⟨c, hc, hdot⟩ := List.mem_map.mp h
  have hdigit := Nat.isDigit_of_mem_toDigits (by decide) (by decide) hc
  rw [CodePoint.char.inj hdot] at hdigit
  exact absurd hdigit (by decide)

theorem toString_injective {n m : Nat}
    (h : ((toString n : String) : Text) = (toString m : String)) : n = m := by
  have hpoints := congrArg Text.points h
  rw [points_toString, points_toString] at hpoints
  have hdigits := (List.map_inj_right fun _ _ => CodePoint.char.inj).mp hpoints
  rw [← Nat.ofDigitChars_toDigits (b := 10) (n := n) (by decide) (by decide), hdigits,
    Nat.ofDigitChars_toDigits (by decide) (by decide)]

theorem append_right_injective {s t u : Text} (h : s ++ t = s ++ u) : t = u :=
  Text.ext (List.append_cancel_left (congrArg Text.points h))

end Text

namespace Identifier

theorem isLocalName_iff {s : Text} : isLocalName s = true ↔ s ≠ "" ∧ s.DotFree := by
  simp only [isLocalName, Bool.and_eq_true, Bool.not_eq_true', List.contains_eq_mem,
    decide_eq_false_iff_not, Text.DotFree]
  refine and_congr_left fun _ => ?_
  cases s with
  | mk ps => cases ps <;> simp [Text.isEmpty, Text.ext_iff, Text.ofString, Text.ofChars]

/-- A local name has no dot. -/
theorem LocalName.dotFree_of_isLocalName {s : Text} (h : isLocalName s = true) : s.DotFree :=
  (isLocalName_iff.mp h).2

end Identifier

end SystemAtlas
