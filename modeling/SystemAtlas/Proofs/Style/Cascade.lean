import Mathlib.Data.List.Induction
import SystemAtlas.Proofs.Keyed
import SystemAtlas.Proofs.Model.Tagging
import SystemAtlas.Proofs.Outcome
import SystemAtlas.Style.Theme

/-! # The last rule wins

A rule made of fields sets some properties of its target, each once and none to null
(`Rule.Made.sound`). Laying such rules over a style one after the other leaves it the properties it
has, each with the value of the last rule that sets it (`Styled.value?_style_iff`). The rules of a
cascade are those of its themes in the order of their first loads, its own and the given ones
(`Cascade.layers_of_calls`). -/

namespace SystemAtlas.Style

open Model (Graph)

/-! ## Appearances -/

namespace Appearance

variable {s t : Appearance} {p q : Property} {v : Json} {x : Property × Json}

/-- The properties that an appearance sets. -/
def properties (s : Appearance) : List Property := s.map (·.1)

theorem value?_cons : value? ((q, v) :: s) p = if q = p then some v else value? s p := by
  by_cases h : q = p
  · simp [value?, h]
  · simp [value?, List.find?_cons_of_neg, h]

theorem value?_eq_none_iff : s.value? p = none ↔ p ∉ s.properties := by
  rw [value?, Option.map_eq_none_iff, List.find?_eq_none, properties, List.mem_map]
  simp only [beq_iff_eq, not_exists, not_and]

theorem value?_set : (s.set q v).value? p = if q = p then some v else s.value? p := by
  induction s with
  | nil => exact value?_cons
  | cons x s ih =>
    obtain ⟨r, w⟩ := x
    rw [set]
    split
    · next h =>
      subst h
      rw [value?_cons, value?_cons]
      split <;> rfl
    · next h =>
      rw [value?_cons, value?_cons, ih]
      split
      · next hr => rw [if_neg fun hq => h (hr.trans hq.symm)]
      · rfl

theorem properties_set : (s.set p v).properties = addNew s.properties p := by
  induction s with
  | nil => rfl
  | cons x s ih =>
    obtain ⟨r, w⟩ := x
    rw [set]
    split
    · next h => simp [properties, addNew, h]
    · next h =>
      have hcontains : (r :: properties s).contains p = (properties s).contains p := by
        rw [List.contains_cons, beq_false_of_ne (Ne.symm h), Bool.false_or]
      show r :: properties (set s p v) = addNew (r :: properties s) p
      rw [ih, addNew, addNew, hcontains]
      split <;> rfl

theorem mem_set (h : x ∈ s.set p v) : x ∈ s ∨ x = (p, v) := by
  induction s with
  | nil => exact .inr (List.mem_singleton.mp h)
  | cons y s ih =>
    obtain ⟨r, w⟩ := y
    rw [set] at h
    split at h
    · next hr =>
      rcases List.mem_cons.mp h with rfl | h
      · exact .inr (by rw [hr])
      · exact .inl (List.mem_cons_of_mem _ h)
    · rcases List.mem_cons.mp h with rfl | h
      · exact .inl List.mem_cons_self
      · exact (ih h).imp_left (List.mem_cons_of_mem _)

theorem value?_update (ht : t.properties.Nodup) :
    (s.update t).value? p = (t.value? p).or (s.value? p) := by
  induction t generalizing s with
  | nil => rfl
  | cons x t ih =>
    obtain ⟨q, v⟩ := x
    obtain ⟨hq, ht⟩ := List.nodup_cons.mp ht
    have hstep : (s.update ((q, v) :: t)).value? p = (value? t p).or ((s.set q v).value? p) :=
      ih ht
    rw [hstep, value?_set, value?_cons]
    by_cases h : q = p
    · rw [if_pos h, if_pos h, value?_eq_none_iff.mpr (h ▸ hq)]
      rfl
    · rw [if_neg h, if_neg h]

theorem properties_update (h : t.properties ⊆ s.properties) :
    (s.update t).properties = s.properties := by
  induction t generalizing s with
  | nil => rfl
  | cons x t ih =>
    obtain ⟨hx, ht⟩ := List.cons_subset.mp h
    have hset : (s.set x.1 x.2).properties = s.properties := by
      rw [properties_set, addNew, if_pos (List.contains_iff_mem.mpr hx)]
    have hstep : (s.update (x :: t)).properties = (s.set x.1 x.2).properties :=
      ih (hset.symm ▸ ht)
    rw [hstep, hset]

end Appearance

/-! ## Rules -/

namespace Rule

variable {r : Rule} {target : Target} {a b : Appearance} {field : Text × Json} {p : Property}
  {value v : Json}

/-- A rule that was made of fields. -/
def Made (r : Rule) : Prop := ∃ fields, ofFields r.target r.source fields = .ok r

/-- What a rule for a target sets: properties of that, each once, to a value kept for it. -/
structure Sound (target : Target) (a : Appearance) : Prop where
  nodup : a.properties.Nodup
  subset : a.properties ⊆ target.properties
  values : ∀ x ∈ a, ∃ value, value ≠ .null ∧ normalise x.1 value = .ok x.2

theorem Sound.nil : Sound target [] :=
  ⟨List.nodup_nil, List.nil_subset _, List.forall_mem_nil _⟩

theorem Sound.set (h : Sound target a) (hp : p ∈ target.properties) (hvalue : value ≠ .null)
    (hv : normalise p value = .ok v) : Sound target (a.set p v) where
  nodup := Appearance.properties_set ▸ nodup_addNew h.nodup p
  subset q hq := by
    rw [Appearance.properties_set] at hq
    rcases mem_addNew.mp hq with hq | rfl
    · exact h.subset hq
    · exact hp
  values x hx := by
    rcases Appearance.mem_set hx with hx | rfl
    · exact h.values x hx
    · exact ⟨value, hvalue, hv⟩

theorem ne_null_of_normalise (hvalue : value ≠ .null) (h : normalise p value = .ok v) :
    v ≠ .null := by
  cases p with
  | shape | background | color | stroke =>
    obtain ⟨s, -, rfl⟩ := map_eq_ok_iff.mp h
    exact nofun
  | border | routing =>
    cases value with
    | string s =>
      cases h
      exact nofun
    | _ => cases h
  | _ => exact Except.ok.inj h ▸ hvalue

theorem Sound.ne_null (h : Sound target a) : ∀ x ∈ a, x.2 ≠ .null := by
  intro x hx
  obtain ⟨value, hvalue, hv⟩ := h.values x hx
  exact ne_null_of_normalise hvalue hv

theorem Sound.readField (h : Sound target a) (hb : readField target a field = .ok b) :
    Sound target b := by
  rw [Rule.readField.eq_def] at hb
  split at hb
  · exact Except.ok.inj hb ▸ h
  · exact Except.ok.inj hb ▸ h
  · next q value hq hvalue =>
    obtain ⟨v, hv, rfl⟩ := map_eq_ok_iff.mp hb
    refine h.set ?_ hvalue hv
    exact List.contains_iff_mem.mp (Option.filter_eq_some_iff.mp hq).2

theorem ofFields_eq_ok {source : Option Text} {fields : Json.Fields}
    (h : ofFields target source fields = .ok r) :
    r.target = target ∧ r.source = source ∧
      fields.foldlM (readField target) [] = .ok r.appearance := by
  rw [ofFields] at h
  split at h
  · split at h
    · cases h
    · obtain ⟨a, ha, h⟩ := bind_eq_ok_iff.mp h
      cases Except.ok.inj h
      exact ⟨rfl, rfl, ha⟩
  · cases h

theorem made_of_ofFields {source : Option Text} {fields : Json.Fields}
    (h : ofFields target source fields = .ok r) : r.Made := by
  obtain ⟨rfl, rfl, -⟩ := ofFields_eq_ok h
  exact ⟨fields, h⟩

theorem Made.sound (h : r.Made) : Sound r.target r.appearance := by
  obtain ⟨fields, h⟩ := h
  obtain ⟨-, -, h⟩ := ofFields_eq_ok h
  exact foldlM_invariant (fun _ _ _ _ hs hstep => hs.readField hstep) .nil h

end Rule

/-- The rules of a loaded theme were made of its fields. -/
theorem Theme.made_of_load {world : Resource.World} {url : Text} {rules : List Rule}
    (h : load world url = .ok rules) : ∀ r ∈ rules, r.Made := by
  obtain ⟨document, -, h⟩ := bind_eq_ok_iff.mp h
  obtain ⟨parsed, -, h⟩ := bind_eq_ok_iff.mp h
  obtain ⟨elements, helements, h⟩ := bind_eq_ok_iff.mp h
  obtain ⟨relationships, hrelationships, h⟩ := bind_eq_ok_iff.mp h
  cases Except.ok.inj h
  intro r hr
  rcases List.mem_append.mp hr with hr | hr
  · obtain ⟨fields, -, hr⟩ := exists_of_forall₂_mem (mapM_eq_ok_iff.mp helements) hr
    obtain ⟨fields, -, hr⟩ := bind_eq_ok_iff.mp hr
    exact Rule.made_of_ofFields (mapError_eq_ok_iff.mp hr)
  · obtain ⟨fields, -, hr⟩ := exists_of_forall₂_mem (mapM_eq_ok_iff.mp hrelationships) hr
    exact Rule.made_of_ofFields (mapError_eq_ok_iff.mp hr)

/-! ## Styles -/

/-- The last one of the rules that apply and set a property sets it to a value. -/
def LastSets (applies : Rule → Prop) (rules : List Rule) (p : Property) (v : Json) : Prop :=
  ∃ before r after, rules = before ++ r :: after ∧ applies r ∧ r.appearance.value? p = some v ∧
    ∀ x ∈ after, applies x → x.appearance.value? p = none

/-- None of the rules that apply sets a property. -/
def NoneSets (applies : Rule → Prop) (rules : List Rule) (p : Property) : Prop :=
  ∀ r ∈ rules, applies r → r.appearance.value? p = none

section
variable {applies : Rule → Prop} {rules : List Rule} {r : Rule} {p : Property} {v : Json}

theorem lastSets_nil : ¬ LastSets applies [] p v := by
  rintro ⟨before, r, after, h, -⟩
  cases List.append_eq_nil_iff.mp h.symm |>.2

theorem lastSets_concat : LastSets applies (rules ++ [r]) p v ↔
    applies r ∧ r.appearance.value? p = some v ∨
      (applies r → r.appearance.value? p = none) ∧ LastSets applies rules p v := by
  constructor
  · rintro ⟨before, x, after, h, hx, hv, hafter⟩
    obtain ⟨rfl, rfl⟩ | ⟨rest, rfl⟩ := cons_of_concat h
    · exact .inl ⟨hx, hv⟩
    · rw [List.append_assoc, List.append_cancel_left_eq, List.cons_append, List.cons.injEq] at h
      obtain ⟨-, rfl⟩ := h
      refine .inr ⟨hafter r (List.mem_append_right _ List.mem_cons_self), before, x, rest, rfl, hx,
        hv, fun y hy => hafter y (List.mem_append_left _ hy)⟩
  · rintro (⟨hr, hv⟩ | ⟨hr, before, x, after, rfl, hx, hv, hafter⟩)
    · exact ⟨rules, r, [], rfl, hr, hv, List.forall_mem_nil _⟩
    · refine ⟨before, x, after ++ [r], by rw [List.append_assoc, List.cons_append], hx, hv, ?_⟩
      exact List.forall_mem_append.mpr ⟨hafter, List.forall_mem_singleton.mpr hr⟩

theorem noneSets_concat : NoneSets applies (rules ++ [r]) p ↔
    NoneSets applies rules p ∧ (applies r → r.appearance.value? p = none) := by
  rw [NoneSets, List.forall_mem_append, List.forall_mem_singleton, NoneSets]

end

namespace Styled

variable {s : Styled} {graph : Option Graph} {rules : List Rule} {r : Rule} {p : Property}
  {v : Json} {tag : Text}

/-- The tags that a thing is styled by: its own, and for an instance also those of its definition,
if the graph has it. -/
def Carries (s : Styled) (graph : Option Graph) (tag : Text) : Prop :=
  match s with
  | relationship r => tag ∈ r.tags
  | element e => tag ∈ e.tags ∨ ∃ id g q,
      e.definition? = some id ∧ graph = some g ∧ g.find? id = some q ∧ tag ∈ q.tags

/-- A rule applies to a thing. -/
def Takes (s : Styled) (graph : Option Graph) (r : Rule) : Prop :=
  r.target = s.target ∧ s.Carries graph r.selector

theorem mem_tags_iff : tag ∈ s.tags graph ↔ s.Carries graph tag := by
  cases s with
  | relationship r => rfl
  | element e =>
    rw [tags, Carries]
    split
    · next q hq =>
      obtain ⟨id, hid, hfind⟩ := Option.bind_eq_some_iff.mp hq
      obtain ⟨g, rfl, hfind⟩ := Option.bind_eq_some_iff.mp hfind
      have hfind : g.find? id = some q := hfind
      rw [Model.mem_mergeTags_of_tidy (by simp [Model.tidy_tags])]
      simp [hid, hfind, or_comm]
    · next hnone =>
      refine ⟨.inl, ?_⟩
      rintro (h | ⟨id, g, q, hid, rfl, hfind, -⟩)
      · exact h
      · rw [hid] at hnone
        cases hfind.symm.trans hnone

theorem isStyledBy_iff : s.isStyledBy graph r = true ↔ s.Takes graph r := by
  rw [isStyledBy, Takes, Bool.and_eq_true, decide_eq_true_eq, Rule.selects, List.contains_iff_mem,
    mem_tags_iff]

theorem style_concat : s.style graph (rules ++ [r]) =
    if s.isStyledBy graph r then (s.style graph rules).update r.appearance
    else s.style graph rules := by
  rw [style, List.filter_append, List.foldl_append, List.filter_singleton]
  cases s.isStyledBy graph r <;> rfl

/-- A style has the properties of the built-in one. -/
theorem properties_style (h : ∀ r ∈ rules, Rule.Sound r.target r.appearance) :
    (s.style graph rules).properties = (defaults s.target).properties := by
  induction rules using List.reverseRecOn with
  | nil => rfl
  | append_singleton rules r ih =>
    obtain ⟨hrules, hr⟩ := List.forall_mem_append.mp h
    rw [style_concat]
    split
    · next hs =>
      have hdefaults : (defaults s.target).properties = s.target.properties := by
        cases s.target <;> rfl
      have hsub : r.appearance.properties ⊆ (s.style graph rules).properties := by
        rw [ih hrules, hdefaults, ← (isStyledBy_iff.mp hs).1]
        exact (hr r List.mem_cons_self).subset
      rw [Appearance.properties_update hsub, ih hrules]
    · exact ih hrules

/-- A property has the value that the last rule gives it, or else the built-in one. -/
theorem value?_style_iff (h : ∀ r ∈ rules, Rule.Sound r.target r.appearance) :
    (s.style graph rules).value? p = some v ↔ LastSets (s.Takes graph) rules p v ∨
      NoneSets (s.Takes graph) rules p ∧ (defaults s.target).value? p = some v := by
  induction rules using List.reverseRecOn with
  | nil => simp [style, lastSets_nil, NoneSets]
  | append_singleton rules r ih =>
    obtain ⟨hrules, hr⟩ := List.forall_mem_append.mp h
    rw [style_concat, lastSets_concat, noneSets_concat, ← isStyledBy_iff]
    cases hs : s.isStyledBy graph r with
    | false => simpa using ih hrules
    | true =>
      rw [if_pos rfl, Appearance.value?_update (hr r List.mem_cons_self).nodup]
      cases hp : r.appearance.value? p with
      | some w => simp
      | none => simpa using ih hrules

end Styled

/-! ## Cascades -/

namespace Cascade

variable {c : Cascade}

/-- What can be asked of a cascade: to load a theme, or to add a rule of the workspace. -/
inductive Call where
  | theme (load : Loader) (url : Text)
  | own (rule : Rule)

/-- The cascade after a call. -/
def after (c : Cascade) : Call → Cascade
  | .theme load url => (c.loadTheme load url).2
  | .own rule => c.addOwn rule

/-- The theme that a call would load, with its rules. -/
def Call.loaded? : Call → Option (Text × List Rule)
  | .theme load url => (load url).toOption.map (url, ·)
  | .own _ => none

/-- The rule that a call adds. -/
def Call.own? : Call → Option Rule
  | .theme .. => none
  | .own rule => some rule

/-- The rules of a call were made of fields. -/
def Call.Made : Call → Prop
  | .theme load url => ∀ rules, load url = .ok rules → ∀ r ∈ rules, r.Made
  | .own rule => rule.Made

/-- The rules of a cascade were made of fields. -/
structure Made (c : Cascade) : Prop where
  themes : ∀ x ∈ c.themes, ∀ r ∈ x.2, r.Made
  own : ∀ r ∈ c.own, r.Made

/-- The first of several loads of a theme, for each theme. -/
def firstLoads : List (Text × List Rule) → List (Text × List Rule)
  | [] => []
  | x :: loads => x :: (firstLoads loads).filter (·.1 != x.1)

namespace Made

variable {load : Loader} {url : Text} {overrides : List Rule}

theorem initial : Made {} := ⟨List.forall_mem_nil _, List.forall_mem_nil _⟩

theorem loadTheme (hc : c.Made) (h : ∀ rules, load url = .ok rules → ∀ r ∈ rules, r.Made) :
    (c.loadTheme load url).2.Made := by
  rw [Cascade.loadTheme]
  split
  · exact hc
  · dsimp only
    split
    · next rules hload =>
      exact ⟨List.forall_mem_append.mpr ⟨hc.themes, List.forall_mem_singleton.mpr (h rules hload)⟩,
        hc.own⟩
    · exact ⟨hc.themes, hc.own⟩

theorem addOwn {r : Rule} (hc : c.Made) (hr : r.Made) : (c.addOwn r).Made :=
  ⟨hc.themes, List.forall_mem_append.mpr ⟨hc.own, List.forall_mem_singleton.mpr hr⟩⟩

theorem after {call : Call} (hc : c.Made) (h : call.Made) : (c.after call).Made := by
  cases call with
  | theme load url => exact hc.loadTheme h
  | own rule => exact hc.addOwn h

theorem calls {calls : List Call} (hc : c.Made) (h : ∀ call ∈ calls, call.Made) :
    (calls.foldl Cascade.after c).Made := by
  induction calls generalizing c with
  | nil => exact hc
  | cons call calls ih =>
    obtain ⟨hcall, hcalls⟩ := List.forall_mem_cons.mp h
    exact ih (hc.after hcall) hcalls

theorem rules (hc : c.Made) (h : ∀ r ∈ overrides, r.Made) : ∀ r ∈ c.rules overrides, r.Made := by
  refine List.forall_mem_append.mpr ⟨List.forall_mem_append.mpr ⟨fun r hr => ?_, hc.own⟩, h⟩
  obtain ⟨x, hx, hr⟩ := List.mem_flatMap.mp hr
  exact hc.themes x hx r hr

end Made

variable {loads : List (Text × List Rule)} {x : Text × List Rule} {url : Text}

theorem mem_urls_firstLoads_iff :
    url ∈ (firstLoads loads).map (·.1) ↔ url ∈ loads.map (·.1) := by
  induction loads with
  | nil => rfl
  | cons y loads ih =>
    simp only [firstLoads, List.map_cons, List.mem_cons, ← ih]
    refine or_congr_right' fun hne => ?_
    simp only [List.mem_map, List.mem_filter, bne_iff_ne]
    constructor
    · rintro ⟨z, ⟨hz, -⟩, hurl⟩
      exact ⟨z, hz, hurl⟩
    · rintro ⟨z, hz, rfl⟩
      exact ⟨z, ⟨hz, hne⟩, rfl⟩

theorem firstLoads_concat : firstLoads (loads ++ [x]) =
    if x.1 ∈ loads.map (·.1) then firstLoads loads else firstLoads loads ++ [x] := by
  induction loads with
  | nil => rfl
  | cons y loads ih =>
    rw [List.cons_append, firstLoads, ih, firstLoads, List.map_cons]
    by_cases hx : x.1 ∈ loads.map (·.1)
    · rw [if_pos hx, if_pos (List.mem_cons_of_mem _ hx)]
    · rw [if_neg hx, List.filter_append]
      by_cases hy : x.1 = y.1
      · rw [if_pos (by rw [hy]; exact List.mem_cons_self)]
        simp [hy]
      · rw [if_neg (by simpa [hy] using hx)]
        simp [hy]

theorem themeRules?_eq_none_iff : c.themeRules? url = none ↔ url ∉ c.themeUrls := by
  rw [themeRules?, Option.map_eq_none_iff, List.find?_eq_none, themeUrls, List.mem_map]
  simp only [beq_iff_eq, not_exists, not_and]

/-- Asking for a theme loads it, or not if it is loaded already. -/
theorem themes_after (hc : c.themes = firstLoads loads) (call : Call) :
    (c.after call).themes = firstLoads (loads ++ call.loaded?.toList) := by
  cases call with
  | own rule => rw [Call.loaded?, Option.toList_none, List.append_nil, ← hc, after, addOwn]
  | theme load url =>
    have hloaded : c.themeRules? url = none ↔ url ∉ loads.map (·.1) := by
      rw [← mem_urls_firstLoads_iff, ← hc]
      exact themeRules?_eq_none_iff
    rw [Call.loaded?, after, loadTheme]
    cases hrules : c.themeRules? url with
    | some rules =>
      have hmem : url ∈ loads.map (·.1) := by
        by_contra hmem
        cases hrules.symm.trans (hloaded.mpr hmem)
      cases load url with
      | ok rules => exact hc.trans (firstLoads_concat.trans (if_pos hmem)).symm
      | error failure => exact hc.trans (congrArg firstLoads (List.append_nil loads)).symm
    | none =>
      have hnew := hloaded.mp hrules
      cases load url with
      | ok rules =>
        refine (congrArg (· ++ [(url, rules)]) hc).trans ?_
        exact (firstLoads_concat.trans (if_neg hnew)).symm
      | error failure => exact hc.trans (congrArg firstLoads (List.append_nil loads)).symm

theorem own_after (call : Call) : (c.after call).own = c.own ++ call.own?.toList := by
  cases call with
  | own rule => rfl
  | theme load url =>
    rw [Call.own?, Option.toList_none, List.append_nil, after, loadTheme]
    cases c.themeRules? url with
    | some rules => rfl
    | none => cases load url <;> rfl

/-- What the calls have made of a cascade: the themes in the order of their first loads, and the
rules of the workspace in theirs. -/
theorem layers_of_calls (calls : List Call) :
    (calls.foldl after {}).themes = firstLoads (calls.filterMap Call.loaded?) ∧
      (calls.foldl after {}).own = calls.filterMap Call.own? := by
  induction calls using List.reverseRecOn with
  | nil => exact ⟨rfl, rfl⟩
  | append_singleton calls call ih =>
    have hlast : ∀ {β : Type} (f : Call → Option β), [call].filterMap f = (f call).toList := by
      intro β f
      cases hf : f call <;> simp [hf]
    rw [List.foldl_append, List.filterMap_append, List.filterMap_append, hlast, hlast]
    exact ⟨themes_after ih.1 call, (own_after call).trans (congrArg (· ++ _) ih.2)⟩

/-- Styles after any calls. The rules apply in the order of the layers, and none sets a property to
null. A style has the properties of the built-in one, each with the value that the last rule gives
it that applies and sets it, or else the built-in one. Of several things with different ids, each
gets the style it gets alone. -/
theorem resolved_of_calls (calls : List Call) (overrides : List Rule) (graph : Option Graph)
    (hcalls : ∀ call ∈ calls, call.Made) (hoverrides : ∀ r ∈ overrides, r.Made) :
    let c := calls.foldl after {}
    c.rules overrides = (firstLoads (calls.filterMap Call.loaded?)).flatMap (·.2) ++
        calls.filterMap Call.own? ++ overrides ∧
      (∀ r ∈ c.rules overrides, ∀ x ∈ r.appearance, x.2 ≠ .null) ∧
      (∀ s : Styled, (c.resolve graph overrides s).properties = (defaults s.target).properties ∧
        ∀ p v, (c.resolve graph overrides s).value? p = some v ↔
          LastSets (s.Takes graph) (c.rules overrides) p v ∨
            NoneSets (s.Takes graph) (c.rules overrides) p ∧
              (defaults s.target).value? p = some v) ∧
      ∀ targets : List Styled, (targets.map (·.id)).Nodup →
        (c.resolveMany graph overrides targets).map (·.1) = targets.map (·.id) ∧
          ∀ s ∈ targets, (c.resolveMany graph overrides targets).find? (·.1 == s.id) =
            some (s.id, c.resolve graph overrides s) := by
  intro c
  obtain ⟨hthemes, hown⟩ := layers_of_calls calls
  have hmade := (Made.initial.calls hcalls).rules hoverrides
  have hsound : ∀ r ∈ c.rules overrides, Rule.Sound r.target r.appearance :=
    fun r hr => (hmade r hr).sound
  refine ⟨by rw [rules, hthemes, hown], fun r hr => (hsound r hr).ne_null,
    fun s => ⟨Styled.properties_style hsound, fun p v => Styled.value?_style_iff hsound⟩, ?_⟩
  intro targets hn
  have hids : (c.resolveMany graph overrides targets).map (·.1) = targets.map (·.id) := by
    rw [resolveMany, List.map_map]
    rfl
  refine ⟨hids, fun s hs => ?_⟩
  exact find?_key_of_mem (hids ▸ hn) (List.mem_map_of_mem hs)

/-- The rule that sets the background of elements with a tag. -/
def backgroundRule (tag color : Text) : Rule :=
  let fields : Json.Fields :=
    [("tag", .string tag), ("icon", .null), ("background", .string color)]
  (Rule.ofFields .element none fields).toOption.getD default

/-- Calls with a theme that cannot be loaded at first, and is asked for again when it is loaded. -/
def brandCalls : List Call :=
  [.theme (fun url => .error (Theme.failure url (.status 404))) "brand",
    .own (backgroundRule "Person" "#08F"), .theme (Theme.load {}) "default",
    .theme (fun _ => .ok [backgroundRule "Element" "#FC0"]) "brand",
    .theme (fun _ => .ok []) "brand"]

/-- A user, styled by these calls. -/
def brandUser : Styled := .element { id := "user", name := "User", role := .static .person }

theorem brand_resolved : (∀ call ∈ brandCalls, call.Made) ∧
    let c := brandCalls.foldl after {}
    c.themeUrls = ["default", "brand"] ∧
      (c.resolve none [] brandUser).value? .background = some (.string "#0088ff") ∧
      LastSets (brandUser.Takes none) (c.rules []) .background (.string "#0088ff") := by
  have hmade : ∀ tag color : Text, (Rule.ofFields .element none
      [("tag", .string tag), ("icon", .null), ("background", .string color)]).isOk = true →
      (backgroundRule tag color).Made := fun tag color h => Rule.made_of_ofFields (eq_ok_of_isOk h)
  have hcalls : ∀ call ∈ brandCalls, call.Made := by
    simp only [brandCalls, List.forall_mem_cons]
    refine ⟨?_, hmade _ _ rfl, fun rules h => Theme.made_of_load h, ?_, ?_, List.forall_mem_nil _⟩
    · intro rules h
      cases h
    · intro rules h
      cases h
      exact List.forall_mem_singleton.mpr (hmade _ _ rfl)
    · intro rules h
      cases h
      exact List.forall_mem_nil _
  have hvalue : ((brandCalls.foldl after {}).resolve none [] brandUser).value? .background =
      some (.string "#0088ff") := by rfl
  have hstyles := (resolved_of_calls brandCalls [] none hcalls (List.forall_mem_nil _)).2.2.1
  refine ⟨hcalls, by rfl, hvalue, (((hstyles brandUser).2 _ _).mp hvalue).resolve_right ?_⟩
  rintro ⟨-, hdefault⟩
  have hsame : ("#dddddd" : Text) = "#0088ff" := Json.string.inj (Option.some.inj hdefault)
  exact absurd hsame (by decide)

end Cascade

end SystemAtlas.Style
