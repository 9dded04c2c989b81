import Mathlib.Data.List.DropRight
import SystemAtlas.Text.Blank

/-! # Trimmed lists

What has been trimmed at both ends neither starts nor ends with something to be dropped, so trimming
it once more changes nothing (`trimBoth_trimBoth`). -/

namespace SystemAtlas.Text

variable {p : α → Bool} {xs : List α} {x : α}

theorem dropWhile_trimBoth : (trimBoth p xs).dropWhile p = trimBoth p xs := by
  have hp : trimBoth p xs <+: xs.dropWhile p := List.rdropWhile_prefix p (xs.dropWhile p)
  refine List.dropWhile_eq_self_iff.mpr fun hl => ?_
  have hpos : 0 < (xs.dropWhile p).length := Nat.lt_of_lt_of_le hl hp.length_le
  rw [hp.getElem hl]
  exact List.dropWhile_get_zero_not p xs hpos

theorem trimBoth_trimBoth : trimBoth p (trimBoth p xs) = trimBoth p xs := by
  have hdrop : trimBoth p (trimBoth p xs) = (trimBoth p xs).rdropWhile p :=
    congrArg (List.rdropWhile p) dropWhile_trimBoth
  rw [hdrop]
  exact List.rdropWhile_idempotent p (xs.dropWhile p)

theorem strip_strip (s : Text) : s.strip.strip = s.strip := Text.ext trimBoth_trimBoth

/-- What is trimmed is a piece of the list. -/
theorem trimBoth_isInfix (p : α → Bool) (xs : List α) : trimBoth p xs <:+: xs :=
  (List.rdropWhile_prefix p (xs.dropWhile p)).isInfix.trans (List.dropWhile_suffix p).isInfix

theorem eq_false_of_mem_head?_dropWhile (h : x ∈ (xs.dropWhile p).head?) : p x = false := by
  have hnot := List.head?_dropWhile_not p xs
  rwa [Option.mem_def.mp h] at hnot

theorem eq_false_of_mem_head?_trimBoth (h : x ∈ (trimBoth p xs).head?) : p x = false := by
  rw [← dropWhile_trimBoth] at h
  exact eq_false_of_mem_head?_dropWhile h

theorem eq_false_of_mem_getLast?_trimBoth (h : x ∈ (trimBoth p xs).getLast?) : p x = false := by
  rw [trimBoth, List.getLast?_reverse] at h
  exact eq_false_of_mem_head?_dropWhile h

end SystemAtlas.Text
