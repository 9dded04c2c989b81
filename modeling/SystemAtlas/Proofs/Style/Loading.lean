import SystemAtlas.Proofs.Style.Cascade

/-! # Loading themes

A cascade into which only themes were loaded has those that the loader was asked for, each once and
with the rules that the loader gives (`Cascade.Loaded`). One theme more keeps it so, or cannot be
loaded. So the loader is asked for the themes of a list in their order, each once, up to the first
that cannot be loaded (`Cascade.Loaded.fetches`). -/

namespace SystemAtlas

namespace Style

variable {load : Loader} {url : Text}

/-- A loader gives the rules of a theme. -/
def Loads (load : Loader) (url : Text) : Prop := ∃ rules, load url = .ok rules

/-- Of a list of themes, a loader is asked for the given ones. These are all of them, or those up to
the first that cannot be loaded. -/
inductive Fetches (load : Loader) : List Text → List Text → Option Failure → Prop where
  | all {urls : List Text} : (∀ url ∈ urls, Loads load url) → Fetches load urls urls none
  | failed {before after : List Text} {url : Text} {e : Failure} :
    (∀ url ∈ before, Loads load url) → load url = .error e →
    Fetches load (before ++ url :: after) (before ++ [url]) (some e)

/-- A loader that gives every theme is asked for all of them. -/
theorem Fetches.eq_of_none {urls asked : List Text} (h : Fetches load urls asked none) :
    asked = urls := by
  cases h
  rfl

namespace Cascade

variable {c : Cascade} {rules : List Rule} {e : Failure}

/-- Only themes were loaded into a cascade, and each could be. -/
structure Loaded (load : Loader) (c : Cascade) : Prop where
  requested : c.requested = c.themeUrls
  themes : ∀ x ∈ c.themes, load x.1 = .ok x.2
  own : c.own = []

theorem foldl_addOwn : rules.foldl addOwn c = { c with own := c.own ++ rules } := by
  induction rules generalizing c with
  | nil => rw [List.foldl_nil, List.append_nil]
  | cons r rules ih => rw [List.foldl_cons, ih, addOwn, List.append_assoc, List.singleton_append]

namespace Loaded

theorem initial : Loaded load {} := ⟨rfl, List.forall_mem_nil _, rfl⟩

theorem loads (hc : c.Loaded load) : ∀ url ∈ c.requested, Loads load url := by
  intro url hurl
  rw [hc.requested] at hurl
  obtain ⟨x, hx, rfl⟩ := List.mem_map.mp hurl
  exact ⟨x.2, hc.themes x hx⟩

/-- A theme that can be loaded is, unless it is loaded already. -/
theorem loadTheme (hc : c.Loaded load) (h : load url = .ok rules) :
    ∃ rules c', c.loadTheme load url = (.ok rules, c') ∧ c'.Loaded load ∧
      c'.requested = addNew c.requested url := by
  have hnew : c.themeRules? url = none ↔ url ∉ c.requested := by
    rw [hc.requested]
    exact themeRules?_eq_none_iff
  rw [Cascade.loadTheme, addNew]
  cases hrules : c.themeRules? url with
  | some known =>
    have hmem : url ∈ c.requested := by
      by_contra hmem
      cases hrules.symm.trans (hnew.mpr hmem)
    rw [if_pos (List.contains_iff_mem.mpr hmem)]
    exact ⟨known, c, rfl, hc, rfl⟩
  | none =>
    rw [if_neg (mt List.contains_iff_mem.mp (hnew.mp hrules)), h]
    refine ⟨rules, _, rfl, ⟨?_, ?_, hc.own⟩, rfl⟩
    · rw [themeUrls, List.map_append, hc.requested]
      rfl
    · exact List.forall_mem_append.mpr ⟨hc.themes, List.forall_mem_singleton.mpr h⟩

/-- A theme that cannot be loaded is not loaded already, so the loader is asked for it. -/
theorem loadTheme_of_error (hc : c.Loaded load) (h : load url = .error e) :
    url ∉ c.requested ∧
      c.loadTheme load url = (.error e, { c with requested := c.requested ++ [url] }) := by
  have hnew : url ∉ c.requested := by
    intro hmem
    obtain ⟨rules, hrules⟩ := hc.loads url hmem
    cases hrules.symm.trans h
  have hrules : c.themeRules? url = none := by
    rw [themeRules?_eq_none_iff, ← hc.requested]
    exact hnew
  refine ⟨hnew, ?_⟩
  rw [Cascade.loadTheme, hrules]
  simp only [h]

/-- Loading themes one after the other, the loader is asked for each once, up to the first that
cannot be loaded. -/
theorem fetches (hc : c.Loaded load) (urls : List Text) :
    Fetches load (urls.foldl addNew c.requested) (c.loadAll load urls).2.requested
        (c.loadAll load urls).1 ∧
      ((c.loadAll load urls).1 = none → (c.loadAll load urls).2.Loaded load) := by
  induction urls generalizing c with
  | nil => exact ⟨.all hc.loads, fun _ => hc⟩
  | cons url urls ih =>
    rw [List.foldl_cons, loadAll]
    cases h : load url with
    | ok rules =>
      obtain ⟨known, c', hstep, hc', hrequested⟩ := hc.loadTheme h
      rw [hstep, ← hrequested]
      exact ih hc'
    | error e =>
      obtain ⟨hnew, hstep⟩ := hc.loadTheme_of_error h
      rw [hstep, addNew, if_neg (mt List.contains_iff_mem.mp hnew)]
      -- the themes after it are behind it in the list without repetition
      obtain ⟨after, hafter⟩ := prefix_foldl_addNew (c.requested ++ [url]) urls
      rw [← hafter, List.append_assoc, List.singleton_append]
      refine ⟨.failed hc.loads h, ?_⟩
      intro hnone
      cases hnone

/-- The rules of the workspace do not change which themes are loaded. -/
theorem themeUrls_foldl_addOwn (hc : c.Loaded load) (own : List Rule) :
    (own.foldl addOwn c).themeUrls = c.requested := by
  rw [foldl_addOwn, hc.requested]
  rfl

/-- The rules of the themes stand in the order in which the themes were asked for. -/
theorem rules_foldl_addOwn (hc : c.Loaded load) {given : Text → List Rule}
    (hgiven : ∀ url ∈ c.requested, load url = .ok (given url)) (own overrides : List Rule) :
    (own.foldl addOwn c).rules overrides = c.requested.flatMap given ++ own ++ overrides := by
  rw [hc.requested] at hgiven ⊢
  have hthemes : c.themeUrls.flatMap given = c.themes.flatMap (·.2) := by
    rw [themeUrls, List.flatMap_map]
    apply List.flatMap_congr
    intro x hx
    have hx' := hgiven x.1 (List.mem_map_of_mem hx)
    exact Except.ok.inj (hx'.symm.trans (hc.themes x hx))
  rw [foldl_addOwn, rules, hthemes, hc.own, List.nil_append]

end Loaded

end Cascade

end Style

end SystemAtlas
