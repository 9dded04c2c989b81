import SystemAtlas.Proofs.Build.Independence
import SystemAtlas.Proofs.Declaration.Styling
import SystemAtlas.Proofs.Style.Cascade

/-! # Colours of payloads

All rules that style a payload were made of fields (`Build.made_of_loadAll`, `Build.made_of_alone`),
so every colour in it was put in normal form. That is `#` and six digits in lower case, except that
a text with a line feed at its end is taken for a colour too and keeps the line feed, and its digits
are not doubled then (`Color.ofJson_eq_ok_iff`, `Build.colors_of_run`). -/

namespace SystemAtlas

/-! ## Normal forms of colours -/

namespace Style.Color

variable {s t : Text} {c : Char}

/-- Whether a character is a hexadecimal digit in lower case. -/
def isLowerDigit (c : Char) : Bool := c.isDigit || ('a' ≤ c && c ≤ 'f')

/-- A text is `#` and six hexadecimal digits in lower case. -/
def Canonical (t : Text) : Prop :=
  ∃ digits, t = .ofChars ('#' :: digits) ∧ digits.length = 6 ∧ ∀ c ∈ digits, isLowerDigit c = true

/-- A text is `#`, three or six hexadecimal digits in lower case, and a line feed. -/
def Fed (t : Text) : Prop :=
  ∃ digits, t = .ofChars ('#' :: digits ++ ['\n']) ∧ (digits.length = 3 ∨ digits.length = 6) ∧
    ∀ c ∈ digits, isLowerDigit c = true

/-- The second text is the normal form of the colour that the first one is. -/
inductive Normal : Text → Text → Prop where
  | short {r g b : Char} : (∀ c ∈ [r, g, b], isHexDigit c = true) →
    Normal (.ofChars ['#', r, g, b]) (.ofChars ['#', r.toLower, r.toLower, g.toLower, g.toLower,
      b.toLower, b.toLower])
  | long {digits : List Char} : digits.length = 6 → (∀ c ∈ digits, isHexDigit c = true) →
    Normal (.ofChars ('#' :: digits)) (.ofChars ('#' :: digits.map Char.toLower))
  | fed {digits : List Char} : digits.length = 3 ∨ digits.length = 6 →
    (∀ c ∈ digits, isHexDigit c = true) →
    Normal (.ofChars ('#' :: digits ++ ['\n']))
      (.ofChars ('#' :: digits.map Char.toLower ++ ['\n']))

theorem isLowerDigit_toLower (h : isHexDigit c = true) : isLowerDigit c.toLower = true :=
  of_isHexDigit (P := fun c => isLowerDigit c.toLower = true) (by decide) h

theorem lower_digits {digits : List Char} (h : ∀ c ∈ digits, isHexDigit c = true) :
    ∀ c ∈ digits.map Char.toLower, isLowerDigit c = true := by
  intro c hc
  obtain ⟨d, hd, rfl⟩ := List.mem_map.mp hc
  exact isLowerDigit_toLower (h d hd)

theorem Normal.form (h : Normal s t) : Canonical t ∨ Fed t := by
  cases h with
  | @short r g b hdigits =>
    have hlower := lower_digits hdigits
    simp only [List.map_cons, List.map_nil, List.forall_mem_cons] at hlower
    exact .inl ⟨_, rfl, rfl, by simpa using hlower⟩
  | long hlength hdigits =>
    exact .inl ⟨_, rfl, by rw [List.length_map, hlength], lower_digits hdigits⟩
  | fed hlength hdigits =>
    exact .inr ⟨_, rfl, by rwa [List.length_map], lower_digits hdigits⟩

theorem normal_iff_isColor : Normal s t ↔
    ∃ cs, s = .ofChars cs ∧ isColor cs = true ∧ t = .ofChars (normalChars cs) := by
  constructor
  · intro h
    cases h with
    | @short r g b hdigits =>
      exact ⟨_, rfl, isColor_iff.mpr ⟨_, .inl rfl, .inl rfl, hdigits⟩, rfl⟩
    | long hlength hdigits =>
      refine ⟨_, rfl, isColor_iff.mpr ⟨_, .inl rfl, .inr hlength, hdigits⟩, ?_⟩
      rw [normalChars_of_length (by simp [hlength])]
      rfl
    | fed hlength hdigits =>
      refine ⟨_, rfl, isColor_iff.mpr ⟨_, .inr rfl, hlength, hdigits⟩, ?_⟩
      rw [normalChars_of_length (by simp; omega), List.map_append]
      rfl
  · rintro ⟨cs, rfl, hcolor, rfl⟩
    obtain ⟨digits, rfl | rfl, hlength, hdigits⟩ := isColor_iff.mp hcolor
    · rcases hlength with hlength | hlength
      · obtain ⟨r, g, b, rfl⟩ := List.length_eq_three.mp hlength
        exact .short hdigits
      · rw [normalChars_of_length (by simp [hlength])]
        exact .long hlength hdigits
    · rw [normalChars_of_length (by simp; omega), List.map_append]
      exact .fed hlength hdigits

/-- Which texts are taken for colours, and in which form they are kept. -/
theorem ofJson_eq_ok_iff : ofJson (.string s) = .ok t ↔ Normal s t := by
  have hchars : Normal s t ↔
      ∃ cs, s.chars? = some cs ∧ isColor cs = true ∧ t = .ofChars (normalChars cs) := by
    rw [normal_iff_isColor]
    simp only [Text.chars?_eq_some_iff]
  rw [hchars, ofJson]
  cases s.chars? with
  | none => simp
  | some cs => cases hcolor : isColor cs <;> simp [Option.filter, hcolor, @eq_comm _ t]

end Style.Color

/-! ## Colours of styles -/

namespace Style

variable {target : Target} {a : Appearance} {p : Property} {v : Json} {s : Styled}
  {graph : Option Model.Graph} {rules : List Rule}

/-- The properties of a target that are colours. -/
def Target.colors : Target → List Property
  | .element => [.background, .color, .stroke]
  | .relationship => [.color]

/-- A property is a colour in normal form. -/
def Appearance.Colors (a : Appearance) (p : Property) : Prop :=
  ∃ t, a.value? p = some (.string t) ∧ (Color.Canonical t ∨ Color.Fed t)

theorem Appearance.mem_of_value? (h : a.value? p = some v) : (p, v) ∈ a := by
  obtain ⟨⟨q, w⟩, hfind, rfl⟩ := Option.map_eq_some_iff.mp h
  have hq : q = p := by simpa using List.find?_some hfind
  exact hq ▸ List.mem_of_find?_eq_some hfind

/-- The built-in colours are canonical. -/
theorem canonical_defaults (hp : p ∈ target.colors) :
    ∃ t, (defaults target).value? p = some (.string t) ∧ Color.Canonical t := by
  have hcanonical : ∀ digits : List Char, digits.length = 6 →
      digits.all Color.isLowerDigit = true → Color.Canonical (.ofChars ('#' :: digits)) :=
    fun digits hlength hdigits => ⟨digits, rfl, hlength, List.all_eq_true.mp hdigits⟩
  cases target with
  | element =>
    simp only [Target.colors, List.mem_cons, List.not_mem_nil, or_false] at hp
    rcases hp with rfl | rfl | rfl
    · exact ⟨_, rfl, hcanonical "dddddd".toList rfl rfl⟩
    · exact ⟨_, rfl, hcanonical "000000".toList rfl rfl⟩
    · exact ⟨_, rfl, hcanonical "9a9a9a".toList rfl rfl⟩
  | relationship =>
    cases List.mem_singleton.mp hp
    exact ⟨_, rfl, hcanonical "707070".toList rfl rfl⟩

/-- A colour that a rule sets is in normal form. -/
theorem Rule.Sound.color (h : Sound target a) (hp : p ∈ target.colors) (hv : a.value? p = some v) :
    ∃ t, v = .string t ∧ (Color.Canonical t ∨ Color.Fed t) := by
  obtain ⟨value, -, hvalue⟩ := h.values _ (Appearance.mem_of_value? hv)
  have hcolor : Rule.normalise p = fun value => .string <$> Color.ofJson value := by
    cases target <;> simp [Target.colors] at hp
    · rcases hp with rfl | rfl | rfl <;> rfl
    · cases hp
      rfl
  rw [hcolor] at hvalue
  obtain ⟨t, ht, rfl⟩ := map_eq_ok_iff.mp hvalue
  cases value with
  | string s => exact ⟨t, rfl, (Color.ofJson_eq_ok_iff.mp ht).form⟩
  | _ => cases ht

/-- The colours of a style are in normal form. -/
theorem Styled.colors_style (h : ∀ r ∈ rules, r.Made) (hp : p ∈ s.target.colors) :
    (s.style graph rules).Colors p := by
  have hsound : ∀ r ∈ rules, Rule.Sound r.target r.appearance := fun r hr => (h r hr).sound
  obtain ⟨t, hdefault, hcanonical⟩ := canonical_defaults hp
  cases hv : (s.style graph rules).value? p with
  | none =>
    rw [Appearance.value?_eq_none_iff, properties_style hsound, ← Appearance.value?_eq_none_iff,
      hdefault] at hv
    cases hv
  | some v =>
    rcases (value?_style_iff hsound).mp hv with ⟨before, r, after, rfl, hr, hset, -⟩ | ⟨-, hbuiltin⟩
    · have hmem : r ∈ before ++ r :: after := List.mem_append_right _ List.mem_cons_self
      obtain ⟨u, rfl, hu⟩ := (hsound r hmem).color (hr.1 ▸ hp) hset
      exact ⟨u, hv, hu⟩
    · cases hdefault.symm.trans hbuiltin
      exact ⟨t, hv, .inl hcanonical⟩

end Style

/-! ## Rules of a build -/

namespace Build

open Style (Rule Cascade)

variable {settings : Settings} {load : Style.Loader} {asked : Option Text} {c : Cascade}
  {source : Except Failure Declaration.Workspace} {p : Payload} {m : Model.Finished}
  {declared : Declaration.View} {v : View} {r : RenderedView} {rules : List Rule}

theorem made_of_rules {styles : Declaration.Styles} {from? : Text}
    (h : styles.rules from? = .ok rules) : ∀ r ∈ rules, r.Made := by
  obtain ⟨elements, helements, h⟩ := bind_eq_ok_iff.mp h
  obtain ⟨relationships, hrelationships, h⟩ := bind_eq_ok_iff.mp h
  cases Except.ok.inj h
  refine List.forall_mem_append.mpr ⟨fun r hr => ?_, fun r hr => ?_⟩
  · obtain ⟨e, -, hr⟩ := exists_of_forall₂_mem (mapM_eq_ok_iff.mp helements) hr
    exact Rule.made_of_ofFields hr
  · obtain ⟨e, -, hr⟩ := exists_of_forall₂_mem (mapM_eq_ok_iff.mp hrelationships) hr
    exact Rule.made_of_ofFields hr

theorem made_of_alone (h : alone settings m declared = .ok v) : ∀ r ∈ v.rules, r.Made :=
  made_of_rules (rules_of_alone h)

/-- A loader gives rules that were made of fields. -/
def LoadsMade (load : Style.Loader) : Prop :=
  ∀ url rules, load url = .ok rules → ∀ r ∈ rules, r.Made

theorem made_of_loadAll (hload : LoadsMade load) (hc : c.Made) (urls : List Text) :
    (c.loadAll load urls).2.Made := by
  induction urls generalizing c with
  | nil => exact hc
  | cons url urls ih =>
    have hloaded := hc.loadTheme (hload url)
    rw [Cascade.loadAll]
    split
    · next hstep =>
      rw [hstep] at hloaded
      exact ih hloaded
    · next hstep =>
      rw [hstep] at hloaded
      exact hloaded

theorem made_of_addOwn (hc : c.Made) (h : ∀ r ∈ rules, r.Made) :
    (rules.foldl Cascade.addOwn c).Made := by
  induction rules generalizing c with
  | nil => exact hc
  | cons r rules ih =>
    obtain ⟨hr, hrules⟩ := List.forall_mem_cons.mp h
    exact ih (hc.addOwn hr) hrules

/-! ## Colours of a build -/

/-- The colours of a rendered view are in normal form. -/
structure Colored (r : RenderedView) : Prop where
  elements : ∀ x ∈ r.elements, ∀ q ∈ Style.Target.element.colors, x.style.Colors q
  relationships : ∀ x ∈ r.relationships, ∀ q ∈ Style.Target.relationship.colors, x.style.Colors q

theorem colored_of_renderView {g : Model.Graph} (hc : c.Made) (hv : ∀ r ∈ v.rules, r.Made)
    (h : renderView g c v = .ok r) : Colored r := by
  have hrules := hc.rules hv
  simp only [renderView, bind_eq_ok_iff, pure_eq_ok_iff] at h
  obtain ⟨es, -, rs, -, ps, -, xs, hxs, rfl⟩ := h
  constructor
  · intro x hx q hq
    obtain ⟨placed, -, hx⟩ := exists_of_forall₂_mem (mapM_eq_ok_iff.mp hxs) hx
    obtain ⟨e, -, hx⟩ := bind_eq_ok_iff.mp hx
    cases Except.ok.inj hx
    exact Style.Styled.colors_style hrules hq
  · intro x hx q hq
    obtain ⟨e, -, rfl⟩ := List.mem_map.mp hx
    exact Style.Styled.colors_style hrules hq

theorem colored_of_run (hload : LoadsMade load)
    (h : (run settings load asked source).result = .ok p) : ∀ v ∈ p.views, Colored v := by
  cases source with
  | error e => cases h
  | ok w =>
    obtain ⟨mode, -, d, hd, hp⟩ := ofWorkspace_eq_ok_iff.mp h
    obtain ⟨f, -, vs, hvs, -, rfl⟩ := catalogue_eq_ok_iff_alone.mp hd
    obtain ⟨-, hp⟩ := finish_eq_ok_iff.mp hp
    obtain ⟨rules, hrules, rs, hrs, rfl⟩ := payload_eq_ok_iff.mp hp
    have hthemes := made_of_loadAll hload .initial w.views.themes
    have hcascade := made_of_addOwn hthemes (made_of_rules hrules)
    intro r hr
    obtain ⟨v, hv, hr⟩ := exists_of_forall₂_mem (mapM_eq_ok_iff.mp hrs) hr
    obtain ⟨declared, -, halone⟩ := exists_of_forall₂_mem (mapM_eq_ok_iff.mp hvs) hv
    exact colored_of_renderView hcascade (made_of_alone halone) hr

/-- A text is taken for a colour if it is `#` and three or six hexadecimal digits, with a line feed
or not, and kept in its normal form. So are all colours in what is built with themes. -/
theorem colors_of_run (world : Resource.World) :
    (∀ s t, Style.Color.ofJson (.string s) = .ok t ↔ Style.Color.Normal s t) ∧
      ∀ settings asked source p,
        (run settings (Style.Theme.load world) asked source).result = .ok p →
          ∀ v ∈ p.views, Colored v :=
  ⟨fun _ _ => Style.Color.ofJson_eq_ok_iff,
    fun _ _ _ _ h => colored_of_run (fun _ _ hload => Style.Theme.made_of_load hload) h⟩

/-- A document with a style that gives software systems a background. -/
def paintedDocument (background : Text) : Json :=
  .object
    [("model", .array [.object [("kind", .string "software_system"), ("name", .string "shop")]]),
      ("views", .object
        [("views", .array
          [.object
            [("kind", .string "system_context"), ("subject", .string "shop"),
              ("include", .array [.string everything])]]),
        ("themes", .array [.string "default"]),
        ("styles", .object
          [("elements", .array
            [.object
              [("tag", .string "Software System"), ("background", .string background)]])])])]

/-- The build of this document. -/
def paintedBuild (background : Text) : Build :=
  run {} (Style.Theme.load {}) none (Declaration.Workspace.ofSource (paintedDocument background))

/-- The payload of this document. -/
def paintedPayload (background : Text) : Payload :=
  (paintedBuild background).result.toOption.getD default

/-- The backgrounds in the payload of this document. -/
def paintedBackgrounds (background : Text) : List (List (Option Json)) :=
  (paintedPayload background).views.map (·.elements.map (·.style.value? .background))

theorem painted_colors : (paintedBuild "#F80").result = .ok (paintedPayload "#F80") ∧
    paintedBackgrounds "#F80" = [[some (.string "#ff8800")]] ∧
    ∀ v ∈ (paintedPayload "#F80").views, Colored v := by
  have h : (paintedBuild "#F80").result = .ok (paintedPayload "#F80") :=
    eq_ok_of_isOk (by decide +kernel)
  exact ⟨h, by with_unfolding_all rfl, (colors_of_run {}).2 {} none _ _ h⟩

/-- A colour with a line feed at its end reaches a payload, with the line feed and without its
digits doubled. -/
theorem painted_with_line_feed : Style.Color.ofJson (.string "#FFF\n") = .ok "#fff\n" ∧
    (paintedBuild "#FFF\n").result = .ok (paintedPayload "#FFF\n") ∧
    paintedBackgrounds "#FFF\n" = [[some (.string "#fff\n")]] ∧
    ¬ Style.Color.Canonical "#fff\n" := by
  refine ⟨by rfl, eq_ok_of_isOk (by decide +kernel), by with_unfolding_all rfl, ?_⟩
  rintro ⟨digits, heq, hlength, -⟩
  have hpoints : ("#fff\n" : Text).points.length = digits.length + 1 := by
    rw [heq]
    simp [Text.ofChars]
  rw [hlength] at hpoints
  revert hpoints
  decide

end Build

end SystemAtlas
