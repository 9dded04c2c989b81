import Mathlib.Data.List.Chain
import SystemAtlas.Identifier.Slug
import SystemAtlas.Proofs.Text.Trimming

/-! # The form of slugs

Every slug consists of letters `a` to `z` and digits, with single underscores between them
(`isSlug_slug`). The texts of this form are those of which `slug` makes nothing else
(`slug_eq_self_iff`), so that a slug is the slug of itself. -/

namespace SystemAtlas.Identifier

variable {c : Char} {cs : List Char} {ps : List CodePoint}

/-- Letters `a` to `z` and digits, with single underscores between them. -/
structure Slugged (cs : List Char) : Prop where
  ne_nil : cs ≠ []
  chars : ∀ c ∈ cs, c = '_' ∨ isSlugChar c = true
  single : cs.IsChain fun c d => ¬(c = '_' ∧ d = '_')
  head : cs.head? ≠ some '_'
  last : cs.getLast? ≠ some '_'

/-- A text of letters `a` to `z` and digits, with single underscores between them. -/
def IsSlug (s : Text) : Prop := ∃ cs, s = .ofChars cs ∧ Slugged cs

/-! ## Characters of slugs -/

theorem toNat_of_isSlugChar (h : isSlugChar c = true) :
    97 ≤ c.toNat ∧ c.toNat ≤ 122 ∨ 48 ≤ c.toNat ∧ c.toNat ≤ 57 := by
  simp only [isSlugChar, Bool.or_eq_true, Bool.and_eq_true, decide_eq_true_eq] at h
  exact h

theorem toNat_of_slugged (h : c = '_' ∨ isSlugChar c = true) :
    95 ≤ c.toNat ∧ c.toNat ≤ 122 ∨ 48 ≤ c.toNat ∧ c.toNat ≤ 57 := by
  rcases h with rfl | h
  · decide
  · have := toNat_of_isSlugChar h
    omega

theorem not_isBlank_of_slugged (h : c = '_' ∨ isSlugChar c = true) : Text.isBlank c = false := by
  have := toNat_of_slugged h
  simp only [Text.isBlank, Text.isWhite, Bool.or_eq_false_iff, Bool.and_eq_false_iff,
    decide_eq_false_iff_not, beq_eq_false_iff_ne]
  omega

theorem toLower_of_slugged (h : c = '_' ∨ isSlugChar c = true) : c.toLower = c := by
  have := toNat_of_slugged h
  refine dif_neg ?_
  rintro ⟨h₁, h₂⟩
  have h₁ : 65 ≤ c.toNat := h₁
  have h₂ : c.toNat ≤ 90 := h₂
  omega

theorem lowerPoint_of_slugged (h : c = '_' ∨ isSlugChar c = true) (before rest : List CodePoint) :
    Text.lowerPoint before (.char c) rest = [.char c] := by
  have hcode := toNat_of_slugged h
  have hsigma : c ≠ 'Σ' := by
    rintro rfl
    revert hcode
    decide
  rw [Text.lowerPoint, if_neg hsigma, Text.lowerChar, if_pos (by omega), toLower_of_slugged h,
    List.map_singleton]

/-! ## What the steps to a slug leave alone -/

theorem trimBoth_eq_self {α : Type} {drop : α → Bool} {xs : List α}
    (hhead : ∀ x ∈ xs.head?, drop x = false) (hlast : ∀ x ∈ xs.getLast?, drop x = false) :
    Text.trimBoth drop xs = xs := by
  have hdrop : ∀ ys : List α, (∀ x ∈ ys.head?, drop x = false) → ys.dropWhile drop = ys := by
    rintro (_ | ⟨y, ys⟩) h
    · rfl
    · rw [List.dropWhile_cons_of_neg (by simp [h y rfl])]
  rw [Text.trimBoth, hdrop xs hhead, hdrop xs.reverse (by rwa [List.head?_reverse]),
    List.reverse_reverse]

theorem lowerPoints_of_slugged (h : ∀ c ∈ cs, c = '_' ∨ isSlugChar c = true)
    (before : List CodePoint) : Text.lowerPoints before (cs.map .char) = cs.map .char := by
  induction cs generalizing before with
  | nil => rfl
  | cons c cs ih =>
    obtain ⟨hc, hcs⟩ := List.forall_mem_cons.mp h
    rw [List.map_cons, Text.lowerPoints, lowerPoint_of_slugged hc, ih hcs, List.singleton_append]

/-- Single underscores are kept: behind another character one is written for itself. -/
theorem collapse_of_slugged (h : ∀ c ∈ cs, c = '_' ∨ isSlugChar c = true)
    (hsingle : cs.IsChain fun c d => ¬(c = '_' ∧ d = '_')) {inRun : Bool}
    (hrun : inRun = true → cs.head? ≠ some '_') : collapse inRun (cs.map .char) = cs := by
  induction cs generalizing inRun with
  | nil => rfl
  | cons c cs ih =>
    obtain ⟨hc, hcs⟩ := List.forall_mem_cons.mp h
    rw [List.map_cons, collapse]
    rcases hc with rfl | hc
    · -- the underscore is not in a run and starts one
      have hin : inRun = false := Bool.eq_false_iff.mpr fun hin => hrun hin rfl
      have hkept : kept? (.char '_') = none := by decide
      have hnext : cs.head? ≠ some '_' := by
        intro hhead
        obtain ⟨rest, rfl⟩ := List.head?_eq_some_iff.mp hhead
        exact (List.isChain_cons_cons.mp hsingle).1 ⟨rfl, rfl⟩
      simp only [hkept, hin, Bool.false_eq_true, if_false, ih hcs hsingle.of_cons fun _ => hnext]
    · have hkept : kept? (.char c) = some c := by simp [kept?, CodePoint.char?, hc]
      have hrest : collapse false (cs.map .char) = cs :=
        ih hcs hsingle.of_cons fun hfalse => absurd hfalse Bool.false_ne_true
      simp only [hkept, hrest]

theorem slug_of_slugged (h : Slugged cs) : slug (.ofChars cs) = .ofChars cs := by
  have hblank : ∀ p ∈ cs.map CodePoint.char, p.satisfies Text.isBlank = false := by
    intro p hp
    obtain ⟨c, hc, rfl⟩ := List.mem_map.mp hp
    exact not_isBlank_of_slugged (h.chars c hc)
  have hstrip : Text.strip (.ofChars cs) = .ofChars cs :=
    congrArg Text.mk <| trimBoth_eq_self
      (fun p hp => hblank p (List.mem_of_mem_head? hp))
      (fun p hp => hblank p (List.mem_of_mem_getLast? hp))
  have hlower : Text.lower (.ofChars cs) = .ofChars cs :=
    congrArg Text.mk (lowerPoints_of_slugged h.chars [])
  have hcollapse : collapse false (Text.ofChars cs).points = cs :=
    collapse_of_slugged h.chars h.single fun hfalse => absurd hfalse Bool.false_ne_true
  have hends : Text.trimBoth (· == '_') cs = cs := by
    apply trimBoth_eq_self
    · intro c hc
      exact beq_eq_false_iff_ne.mpr fun he => h.head (he ▸ hc)
    · intro c hc
      exact beq_eq_false_iff_ne.mpr fun he => h.last (he ▸ hc)
  rw [slug, hstrip, hlower, hcollapse, hends, if_neg]
  rw [List.isEmpty_iff]
  exact h.ne_nil

/-! ## What the steps to a slug make -/

theorem chars_collapse (inRun : Bool) (ps : List CodePoint) :
    ∀ c ∈ collapse inRun ps, c = '_' ∨ isSlugChar c = true := by
  fun_induction collapse inRun ps with
  | case1 => exact fun _ h => absurd h List.not_mem_nil
  | case2 _ p ps d hkept ih =>
    exact List.forall_mem_cons.mpr ⟨.inr (Option.filter_eq_some_iff.mp hkept).2, ih⟩
  | case3 p ps _ ih => exact ih
  | case4 _ p ps _ _ ih => exact List.forall_mem_cons.mpr ⟨.inl rfl, ih⟩

/-- In a run no underscore is written again. -/
theorem single_collapse (inRun : Bool) (ps : List CodePoint) :
    (collapse inRun ps).IsChain (fun c d => ¬(c = '_' ∧ d = '_')) ∧
      (inRun = true → (collapse inRun ps).head? ≠ some '_') := by
  fun_induction collapse inRun ps with
  | case1 => exact ⟨.nil, fun _ => by simp⟩
  | case2 _ p ps d hkept ih =>
    have hd : d ≠ '_' := by
      rintro rfl
      exact absurd (Option.filter_eq_some_iff.mp hkept).2 (by decide)
    refine ⟨List.isChain_cons.mpr ⟨fun _ _ h => hd h.1, ih.1⟩, fun _ h => hd ?_⟩
    exact Option.some.inj h
  | case3 p ps _ ih => exact ih
  | case4 _ p ps _ hin ih =>
    refine ⟨List.isChain_cons.mpr ⟨fun d hd h => ih.2 rfl (h.2 ▸ hd), ih.1⟩, fun h => ?_⟩
    exact absurd h hin

theorem isSlug_slug (name : Text) : IsSlug (slug name) := by
  rw [slug]
  split
  · exact ⟨['e', 'l', 'e', 'm', 'e', 'n', 't'], by decide +kernel, by simp,
      by simp [isSlugChar], by decide, by decide, by decide⟩
  · next hne =>
    have hpart := Text.trimBoth_isInfix (· == '_') (collapse false name.strip.lower.points)
    refine ⟨_, rfl, ?_, fun c hc => chars_collapse _ _ c (hpart.subset hc),
      List.IsChain.infix (single_collapse _ _).1 hpart, fun h => ?_, fun h => ?_⟩
    · rwa [List.isEmpty_iff] at hne
    · exact absurd (Text.eq_false_of_mem_head?_trimBoth h) (by simp)
    · exact absurd (Text.eq_false_of_mem_getLast?_trimBoth h) (by simp)

/-- The slugs are the texts that are their own slug. -/
theorem slug_eq_self_iff {s : Text} : slug s = s ↔ IsSlug s := by
  constructor
  · intro h
    exact h ▸ isSlug_slug s
  · rintro ⟨cs, rfl, h⟩
    exact slug_of_slugged h

end SystemAtlas.Identifier
