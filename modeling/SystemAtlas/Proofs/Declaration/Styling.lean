import SystemAtlas.Proofs.Declaration.Parts

/-! # Rules of declared styles

Shapes, borders and routings of a declared style are known ones, and its colours are in normal form,
which is its own normal form (`Color.ofJson_of_ofJson`). Only an empty tag keeps such a style from
becoming a rule (`Styles.rules_failsAs`). -/

namespace SystemAtlas

/-! ## Colours -/

namespace Style.Color

variable {cs digits : List Char} {c : Char}

theorem isHexDigit_lt (h : isHexDigit c = true) : c.toNat < 128 := by
  simp only [isHexDigit, Char.isDigit, Bool.or_eq_true, Bool.and_eq_true, decide_eq_true_eq,
    Char.le_def, UInt32.le_iff_toNat_le] at h
  rcases h with (h | h) | h <;> exact Nat.lt_of_le_of_lt h.2 (by decide)

/-- What holds of the digits among the first characters holds of all. -/
theorem of_isHexDigit {P : Char → Prop}
    (hall : ∀ n < 128, isHexDigit (Char.ofNat n) = true → P (Char.ofNat n))
    (h : isHexDigit c = true) : P c := by
  simpa using hall c.toNat (isHexDigit_lt h) (by simpa using h)

theorem isHexDigit_toLower (h : isHexDigit c = true) : isHexDigit c.toLower = true :=
  of_isHexDigit (P := fun c => isHexDigit c.toLower = true) (by decide) h

theorem dropLineEnd_of_digits (h : ∀ c ∈ digits, isHexDigit c = true) :
    dropLineEnd ('#' :: digits) = '#' :: digits := by
  refine if_neg fun hlast => ?_
  rcases List.mem_cons.mp (List.mem_of_getLast? hlast) with heq | hmem
  · cases heq
  · cases h _ hmem

/-- A colour is a mark and its digits, with a line feed or not. -/
theorem isColor_iff : isColor cs = true ↔ ∃ digits,
    (cs = '#' :: digits ∨ cs = '#' :: digits ++ ['\n']) ∧
      (digits.length = 3 ∨ digits.length = 6) ∧ ∀ c ∈ digits, isHexDigit c = true := by
  constructor
  · intro h
    rw [isColor] at h
    split at h
    · next digits hdrop =>
      simp only [Bool.and_eq_true, Bool.or_eq_true, decide_eq_true_eq, List.all_eq_true] at h
      refine ⟨digits, ?_, h⟩
      rw [dropLineEnd] at hdrop
      split at hdrop
      · next hlast =>
        rw [← hdrop]
        exact .inr (List.dropLast_append_getLast? _ hlast).symm
      · exact .inl hdrop
    · cases h
  · rintro ⟨digits, rfl | rfl, hlength, hdigits⟩
    · rw [isColor, dropLineEnd_of_digits hdigits]
      simpa using ⟨hlength, hdigits⟩
    · have hdrop : dropLineEnd ('#' :: digits ++ ['\n']) = '#' :: digits := by
        rw [dropLineEnd, List.getLast?_concat, if_pos rfl, List.dropLast_concat]
      rw [isColor, hdrop]
      simpa using ⟨hlength, hdigits⟩

theorem normalChars_of_length (h : cs.length ≠ 4) : normalChars cs = cs.map Char.toLower := by
  rw [normalChars.eq_def]
  split
  · next hmap => exact absurd (by simpa using congrArg List.length hmap) h
  · rfl

/-- The normal form of a colour is a colour. -/
theorem isColor_normalChars (h : isColor cs = true) : isColor (normalChars cs) = true := by
  obtain ⟨digits, hcs, hlength, hdigits⟩ := isColor_iff.mp h
  have hlower : ∀ c ∈ digits.map Char.toLower, isHexDigit c = true := by
    intro c hc
    obtain ⟨d, hd, rfl⟩ := List.mem_map.mp hc
    exact isHexDigit_toLower (hdigits d hd)
  refine isColor_iff.mpr ?_
  rcases hcs with rfl | rfl
  · rcases hlength with hlength | hlength
    · obtain ⟨r, g, b, rfl⟩ := List.length_eq_three.mp hlength
      refine ⟨_, .inl rfl, .inr rfl, ?_⟩
      simp only [List.map_cons, List.map_nil, List.forall_mem_cons] at hlower
      simpa using hlower
    · rw [normalChars_of_length (by simp [hlength])]
      exact ⟨_, .inl rfl, .inr (by simpa using hlength), hlower⟩
  · rw [normalChars_of_length (by simp; omega), List.map_append]
    exact ⟨_, .inr rfl, by simpa using hlength, hlower⟩

theorem toLower_toLower (c : Char) : c.toLower.toLower = c.toLower := by
  have hlower : ∀ d : Char, ¬ (d.toLower.val ≥ 'A'.val ∧ d.toLower.val ≤ 'Z'.val) := by
    intro d
    by_cases h : d.val ≥ 'A'.val ∧ d.val ≤ 'Z'.val
    · rw [show d.toLower.val = d.val + 32 from congrArg Char.val (dif_pos h)]
      have hadd := UInt32.toNat_add d.val 32
      simp [UInt32.le_iff_toNat_le] at h hadd ⊢
      omega
    · rwa [show d.toLower = d from dif_neg h]
  exact dif_neg (hlower c)

/-- A normal form has a normal form, which is itself. -/
theorem normalChars_normalChars (cs : List Char) :
    normalChars (normalChars cs) = normalChars cs := by
  have hlower : ∀ c ∈ cs.map Char.toLower, c.toLower = c := by
    intro c hc
    obtain ⟨d, -, rfl⟩ := List.mem_map.mp hc
    exact toLower_toLower d
  have hnormal : (normalChars cs).length ≠ 4 ∧ ∀ c ∈ normalChars cs, c.toLower = c := by
    rw [normalChars.eq_def]
    split
    · next mark r g b hmap =>
      rw [hmap] at hlower
      exact ⟨by simp, by simpa using hlower⟩
    · next hshort =>
      refine ⟨fun hlength => ?_, hlower⟩
      obtain ⟨mark, r, g, b, hmap⟩ := List.length_eq_four.mp hlength
      exact hshort mark r g b hmap
  rw [normalChars_of_length hnormal.1, List.map_congr_left hnormal.2, List.map_id']

/-- The colour that a text was taken for is taken for itself. -/
theorem ofJson_of_ofJson {s c : Text} (h : ofJson (.string s) = .ok c) :
    ofJson (.string c) = .ok c := by
  rw [ofJson] at h
  cases hcs : s.chars?.filter isColor with
  | none =>
    rw [hcs] at h
    cases h
  | some cs =>
    rw [hcs] at h
    cases h
    have hcolor := isColor_normalChars (Option.filter_eq_some_iff.mp hcs).2
    rw [ofJson, Text.chars?_ofChars, Option.filter_some, if_pos hcolor, Option.elim_some,
      normalChars_normalChars]

/-- A text is taken for a colour. -/
def Taken (s : Text) : Prop := ∃ c, ofJson (.string s) = .ok c

theorem taken_of_ofJson {s c : Text} (h : ofJson (.string s) = .ok c) : Taken c :=
  ⟨c, ofJson_of_ofJson h⟩

end Style.Color

/-! ## Rules -/

namespace Style

variable {target : Target} {source : Option Text} {tag : Text} {a : Appearance}

/-- A value is null or can be kept for a property. -/
def Kept (p : Property) (value : Json) : Prop := value = .null ∨ ∃ v, Rule.normalise p value = .ok v

theorem Property.ofKey?_name (p : Property) : ofKey? p.name = some p := by
  cases p <;> rfl

theorem Rule.readField_failsAs {s : Appearance} {p : Property} {value : Json} (h : Kept p value) :
    FailsAs (fun _ => False) (readField target s (p.name, value)) := by
  rw [readField, Target.property?, Property.ofKey?_name, Option.filter_some]
  split
  · exact .ok
  · exact .ok
  · next q value hq hvalue =>
    split at hq
    · cases hq
      obtain rfl | ⟨v, hv⟩ := h
      · cases hvalue rfl
      · exact (FailsAs.of_eq_ok hv).map
    · cases hq

/-- Only an empty tag keeps a style with values that are kept from becoming a rule. -/
theorem Rule.ofFields_failsAs (h : ∀ x ∈ a, Kept x.1 x.2) :
    FailsAs (fun e => e = .noSelector ∧ tag = "")
      (ofFields target source (Declaration.styleFields tag a)) := by
  have hfold : ∀ s, FailsAs (fun _ => False)
      ((a.map fun x => (x.1.name, x.2)).foldlM (readField target) s) := by
    intro s
    refine .foldlM_of_forall fun s x hx => ?_
    obtain ⟨y, hy, rfl⟩ := List.mem_map.mp hx
    exact readField_failsAs (h y hy)
  have htag : readField target [] ("tag", .string tag) = .ok [] := by
    cases target <;> rfl
  rw [ofFields, show Json.find? (Declaration.styleFields tag a) "tag" = some (.string tag) from rfl]
  dsimp only
  split
  · next hempty => exact .error ⟨rfl, eq_of_beq hempty⟩
  · rw [Declaration.styleFields, List.foldlM_cons, htag]
    exact ((hfold []).mono fun _ => False.elim).bind fun _ _ => .ok

/-! ## Values that are kept -/

variable {p : Property} {x : Option Text}

theorem kept_name {α : Type} {name : α → Text} (h : ∀ a, Kept p (.string (name a)))
    (x : Option α) : Kept p (.ofText? (x.map name)) := by
  cases x with
  | none => exact .inl rfl
  | some a => exact h a

theorem Shape.ofText?_name (shape : Shape) : ofText? shape.name = some shape := by
  cases shape <;> decide +kernel

theorem kept_shape : (shape : Option Shape) → Kept .shape (.ofText? (shape.map (·.name))) :=
  kept_name fun shape =>
    .inr ⟨.string shape.name, by rw [Rule.normalise, Shape.ofJson, shape.ofText?_name]; rfl⟩

theorem kept_color (hp : Rule.normalise p = fun v => .string <$> Color.ofJson v)
    (h : ∀ c, x = some c → Color.Taken c) : Kept p (.ofText? x) := by
  cases x with
  | none => exact .inl rfl
  | some s =>
    obtain ⟨c, hc⟩ := h s rfl
    refine .inr ⟨.string c, ?_⟩
    simp only [hp, Json.ofText?, hc]
    rfl

end Style

/-! ## Declared styles -/

namespace Declaration

open Checked
open Style (Color.Taken Kept kept_name kept_shape kept_color)

/-- The colours of a style for elements are colours. -/
def ElementStyle.Colored (s : ElementStyle) : Prop :=
  ∀ c, some c ∈ [s.background, s.color, s.stroke] → Color.Taken c

/-- The colour of a style for relationships is one. -/
def RelationshipStyle.Colored (s : RelationshipStyle) : Prop :=
  ∀ c, s.color = some c → Color.Taken c

/-- All colours of styles are colours. -/
structure Styles.Colored (s : Styles) : Prop where
  elements : ∀ e ∈ s.elements, e.Colored
  relationships : ∀ r ∈ s.relationships, r.Colored

/-- A style has an empty tag. -/
def Styles.HasEmptyTag (s : Styles) : Prop :=
  (∃ e ∈ s.elements, e.tag = "") ∨ ∃ r ∈ s.relationships, r.tag = ""

theorem ElementStyle.kept {s : ElementStyle} (h : s.Colored) :
    ∀ x ∈ s.appearance, Kept x.1 x.2 := by
  simp only [appearance, List.forall_mem_cons]
  exact ⟨kept_shape _, kept_color rfl fun c hc => h c (by simp [hc]),
    kept_color rfl fun c hc => h c (by simp [hc]), kept_color rfl fun c hc => h c (by simp [hc]),
    kept_name (fun _ => .inr ⟨_, rfl⟩) _, .inr ⟨_, rfl⟩, .inr ⟨_, rfl⟩, .inr ⟨_, rfl⟩,
    .inr ⟨_, rfl⟩, .inr ⟨_, rfl⟩, .inr ⟨_, rfl⟩, .inr ⟨_, rfl⟩,
    List.forall_mem_nil _⟩

theorem RelationshipStyle.kept {s : RelationshipStyle} (h : s.Colored) :
    ∀ x ∈ s.appearance, Kept x.1 x.2 := by
  simp only [appearance, List.forall_mem_cons]
  exact ⟨.inr ⟨_, rfl⟩, kept_color rfl h, .inr ⟨_, rfl⟩, kept_name (fun _ => .inr ⟨_, rfl⟩) _,
    .inr ⟨_, rfl⟩, .inr ⟨_, rfl⟩, .inr ⟨_, rfl⟩,
    List.forall_mem_nil _⟩

/-- Only an empty tag keeps styles from becoming rules. -/
theorem Styles.rules_failsAs {s : Styles} {source : Text} (h : s.Colored) :
    FailsAs (fun e => e = .noSelector ∧ s.HasEmptyTag) (s.rules source) := by
  have helements : ∀ e ∈ s.elements, FailsAs (fun e => e = .noSelector ∧ s.HasEmptyTag)
      (Style.Rule.ofFields .element source (styleFields e.tag e.appearance)) := fun e he =>
    (Style.Rule.ofFields_failsAs (ElementStyle.kept (h.elements e he))).mono fun _ hf =>
      ⟨hf.1, .inl ⟨e, he, hf.2⟩⟩
  have hrelationships : ∀ r ∈ s.relationships, FailsAs (fun e => e = .noSelector ∧ s.HasEmptyTag)
      (Style.Rule.ofFields .relationship source (styleFields r.tag r.appearance)) := fun r hr =>
    (Style.Rule.ofFields_failsAs (RelationshipStyle.kept (h.relationships r hr))).mono fun _ hf =>
      ⟨hf.1, .inr ⟨r, hr, hf.2⟩⟩
  exact (FailsAs.mapM helements).bind fun _ _ => (FailsAs.mapM hrelationships).bind fun _ _ => .ok

/-- Styles that become rules have no empty tag. -/
theorem Styles.not_hasEmptyTag_of_rules {s : Styles} {source : Text} {rules : List Style.Rule}
    (h : s.rules source = .ok rules) : ¬s.HasEmptyTag := by
  have hempty : ∀ target appearance,
      Style.Rule.ofFields target source (styleFields "" appearance) = .error .noSelector :=
    fun _ _ => rfl
  obtain ⟨es, hes, h⟩ := bind_eq_ok_iff.mp h
  obtain ⟨rs, hrs, -⟩ := bind_eq_ok_iff.mp h
  rintro (⟨e, he, htag⟩ | ⟨r, hr, htag⟩)
  · obtain ⟨rule, hrule⟩ := exists_mapM_eq_ok_iff.mp ⟨es, hes⟩ e he
    cases (htag ▸ hempty .element e.appearance).symm.trans hrule
  · obtain ⟨rule, hrule⟩ := exists_mapM_eq_ok_iff.mp ⟨rs, hrs⟩ r hr
    cases (htag ▸ hempty .relationship r.appearance).symm.trans hrule

/-! ## Styles that are read -/

variable {j : Json} {fields : Json.Fields} {key : Text}

theorem taken_of_colorOf {c : Text} (h : colorOf j = .ok c) : Color.Taken c := by
  obtain ⟨s, -, h⟩ := andThen_ok_iff.mp h
  exact Style.Color.taken_of_ofJson (mapError_eq_ok_iff.mp h)

theorem taken_of_field {x : Option Text} (h : optionalField fields key colorOf = .ok x) (c : Text)
    (hx : x = some c) : Color.Taken c := by
  subst hx
  obtain ⟨j, hj⟩ := optionalField_ok h
  exact taken_of_colorOf hj

theorem ElementStyle.colored_of_ofJson {s : ElementStyle} (h : ElementStyle.ofJson j = .ok s) :
    s.Colored := by
  obtain ⟨fields, h⟩ := form_ok h
  obtain ⟨-, -, -, hbackground, hcolor, hstroke, -⟩ := ElementStyle.ofJson_ok_iff.mp h
  simp only [Colored, List.mem_cons, List.not_mem_nil, or_false]
  rintro c (hc | hc | hc)
  · exact taken_of_field hbackground c hc.symm
  · exact taken_of_field hcolor c hc.symm
  · exact taken_of_field hstroke c hc.symm

theorem RelationshipStyle.colored_of_ofJson {s : RelationshipStyle}
    (h : RelationshipStyle.ofJson j = .ok s) : s.Colored := by
  obtain ⟨fields, h⟩ := form_ok h
  obtain ⟨-, -, -, hcolor, -⟩ := RelationshipStyle.ofJson_ok_iff.mp h
  exact taken_of_field hcolor

theorem Styles.colored_empty : ({} : Styles).Colored :=
  ⟨List.forall_mem_nil _, List.forall_mem_nil _⟩

theorem Styles.colored_of_ofJson {s : Styles} (h : Styles.ofJson j = .ok s) : s.Colored := by
  obtain ⟨fields, h⟩ := form_ok h
  obtain ⟨-, helements, hrelationships, -⟩ := Styles.ofJson_ok_iff.mp h
  constructor
  · intro e he
    obtain ⟨i, hi⟩ := listField_ok helements e he
    exact ElementStyle.colored_of_ofJson hi
  · intro r hr
    obtain ⟨i, hi⟩ := listField_ok hrelationships r hr
    exact RelationshipStyle.colored_of_ofJson hi

theorem colored_of_field {s : Styles} (h : field fields key {} Styles.ofJson = .ok s) :
    s.Colored := by
  obtain rfl | ⟨j, hj⟩ := field_ok h
  · exact Styles.colored_empty
  · exact Styles.colored_of_ofJson hj

theorem View.colored_of_ofJson {v : View} (h : View.ofJson j = .ok v) : v.styles.Colored := by
  obtain ⟨fields, h⟩ := object_of_ofJson h
  obtain ⟨-, -, -, -, -, -, -, -, -, -, -, hstyles, -⟩ := View.ofJson_ok_iff.mp h
  exact colored_of_field hstyles

/-- All colours of the styles of views are colours. -/
structure Views.Colored (vs : Views) : Prop where
  styles : vs.styles.Colored
  views : ∀ v ∈ vs.views, v.styles.Colored

theorem Views.colored_of_ofJson {vs : Views} (h : Views.ofJson j = .ok vs) : vs.Colored := by
  obtain ⟨fields, h⟩ := form_ok h
  obtain ⟨-, hviews, hstyles, -⟩ := Views.ofJson_ok_iff.mp h
  refine ⟨colored_of_field hstyles, fun v hv => ?_⟩
  obtain ⟨i, hi⟩ := listField_ok hviews v hv
  exact View.colored_of_ofJson hi

namespace Workspace

variable {w : Workspace}

theorem colored_of_checked (h : checked j = .ok w) : w.views.Colored := by
  obtain ⟨fields, h⟩ := form_ok h
  obtain ⟨-, -, -, -, -, hviews, -⟩ := checked_ok_iff.mp h
  obtain hempty | ⟨i, hi⟩ := field_ok hviews
  · rw [hempty]
    exact ⟨Styles.colored_empty, List.forall_mem_nil _⟩
  · exact Views.colored_of_ofJson hi

theorem colored_of_ofJson (h : ofJson j = .ok w) : w.views.Colored := by
  cases j with
  | object fields => exact colored_of_checked (ofJson_ok_iff.mp h)
  | _ => cases h

/-- All colours of the styles of a declared workspace are colours. -/
theorem colored_of_ofSource (h : ofSource j = .ok w) : w.views.Colored := by
  rw [ofSource.eq_def] at h
  split at h
  · rw [ofText] at h
    split at h
    · exact colored_of_ofJson h
    · cases h
  · exact colored_of_ofJson h

end Workspace

end Declaration

end SystemAtlas
