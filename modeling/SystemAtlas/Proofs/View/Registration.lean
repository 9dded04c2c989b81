import SystemAtlas.Proofs.Model.Soundness
import SystemAtlas.Proofs.View.Alike
import SystemAtlas.Proofs.View.Reach

/-! # Registered views

What holds of the views of a catalogue, whatever is attempted on it (`sound_of_attempts`). Their
keys differ. Each of them shows something, nothing twice and nothing out of reach of its focus, and
just the relationships between what it shows. An attempt that fails leaves the catalogue as it
is. -/

namespace SystemAtlas

open Model (Element Finished Graph)

/-- What holds of a registered view. It shows something, nothing twice and only what a focus of its
kind, subject and environment can show: a view of containers or components not its subject, and a
deployment nothing outside its environment and no groups. With that it shows all relationships
between what it shows, each once and in their order. -/
structure View.Sound (g : Graph) (v : View) : Prop where
  nonempty : v.elements ≠ []
  nodup : v.elements.Nodup
  reach : ∃ f : Focus, f.Of g ∧ v.kind = f.kind ∧ v.subject = f.subject.map (·.id) ∧
    v.environment = f.environment.map (·.id) ∧ v.elements ⊆ f.reach g
  subject : v.kind = .container ∨ v.kind = .component →
    ∀ s, v.subject = some s → s ∉ v.elements
  environment : v.kind = .deployment → ∀ x ∈ v.elements, ∃ e ∈ g.elements,
    e.id = x ∧ e.environment?.isSome = true ∧ e.environment? = v.environment ∧ e.isGroup = false
  relationships : v.relationships = (g.relationships.filter fun r =>
    v.elements.contains r.source && v.elements.contains r.destination).map (·.id)
  once : v.relationships.Nodup

namespace Catalogue

variable {c d : Catalogue} {f : Focus} {r : View.Request} {v : View} {e : Element}
  {reference key : Text} {accept : Element → Bool} {ids xs : List Text}

/-! ## References -/

theorem mem_of_lookup (h : c.lookup reference accept = .ok e) :
    e ∈ c.model.graph.elements ∧ accept e = true := by
  obtain ⟨id, hid, hget⟩ := bind_eq_ok_iff.mp h
  have hfind := Graph.get_eq_ok_iff.mp hget
  have haccept := Identifier.Registry.accept_of_lookup hid
  rw [hfind] at haccept
  exact ⟨(Graph.mem_of_find? hfind).1, haccept⟩

theorem mem_of_environment {reference : Option Text} {v : Model.Environment}
    (h : c.environment reference = .ok v) : v ∈ c.model.graph.environments := by
  rw [environment] at h
  split at h
  · next hfind =>
    cases Except.ok.inj h
    rw [Graph.findEnvironment?, Option.orElse_eq_orElse, Option.orElse_eq_or,
      Option.or_eq_some_iff] at hfind
    rcases hfind with hfind | ⟨-, hfind⟩ <;> exact List.mem_of_find?_eq_some hfind
  · cases h

theorem mem_of_subject {kind : ViewKind} (h : c.subject kind reference = .ok e) :
    e ∈ c.model.graph.elements ∧ e.isA (subjectType kind) = true :=
  mem_of_lookup (lookup_of_subject h)

theorem of_subject {kind : ViewKind} (hk : f.kind = kind) (hs : f.subject = some e)
    (hv : f.environment = none) (h : c.subject kind reference = .ok e) :
    f.Of c.model.graph := by
  refine ⟨fun e' he' => ?_, fun v hv' => by cases hv.symm.trans hv'⟩
  cases Option.some.inj (hs.symm.trans he')
  exact hk ▸ mem_of_subject h

theorem of_environment {system : Option Element} {reference : Option Text}
    (hs : ∀ e, system = some e → e ∈ c.model.graph.elements ∧ e.isA .softwareSystem = true)
    (h : (do return Focus.deployment system (← c.environment reference)) = .ok f) :
    f.Of c.model.graph ∧ f.kind = .deployment := by
  obtain ⟨v, hv, h⟩ := bind_eq_ok_iff.mp h
  cases Except.ok.inj h
  refine ⟨⟨hs, fun w hw => ?_⟩, rfl⟩
  cases Option.some.inj hw
  exact mem_of_environment hv

/-- What a request asks for a view of is of the kind it asks for, and there. -/
theorem of_focus (h : c.focus r = .ok f) : f.Of c.model.graph ∧ f.kind = r.kind := by
  simp only [focus] at h
  cases hk : r.kind with
  | deployment =>
    simp only [hk] at h
    split at h
    · refine of_environment (fun e he => ?_) h
      cases he
    · obtain ⟨system, hs, h⟩ := bind_eq_ok_iff.mp h
      obtain ⟨e, he, rfl⟩ := map_eq_ok_iff.mp hs
      refine of_environment (fun e' he' => ?_) h
      exact Option.some.inj he' ▸ mem_of_subject he
  | _ =>
    simp only [hk] at h
    obtain ⟨e, he, rfl⟩ := map_eq_ok_iff.mp h
    exact ⟨of_subject rfl rfl rfl he, rfl⟩

/-! ## Elements -/

theorem exists_elements_iff {included excluded : List Text} :
    (∃ xs, c.elements f key included excluded = .ok xs) ↔
      (∀ reference ∈ included, ∃ ys, c.expand f key reference = .ok ys) ∧
        ∀ reference ∈ excluded, ∃ ys, c.exclude f key reference = .ok ys := by
  simp only [elements, bind_eq_ok_iff, ← exists_mapM_eq_ok_iff]
  constructor
  · rintro ⟨xs, inside, hin, outside, hout, -⟩
    exact ⟨⟨inside, hin⟩, ⟨outside, hout⟩⟩
  · rintro ⟨⟨inside, hin⟩, ⟨outside, hout⟩⟩
    exact ⟨_, inside, hin, outside, hout, rfl⟩

/-- What a view shows is brought in by a reference, and no reference keeps it out. -/
theorem mem_iff_of_elements {included excluded : List Text} {x : Text}
    (h : c.elements f key included excluded = .ok xs) : x ∈ xs ↔
      (∃ reference ∈ included, ∃ ys, c.expand f key reference = .ok ys ∧ x ∈ ys) ∧
        ∀ reference ∈ excluded, ∀ ys, c.exclude f key reference = .ok ys → x ∉ ys := by
  obtain ⟨inside, hin, h⟩ := bind_eq_ok_iff.mp h
  obtain ⟨outside, hout, h⟩ := bind_eq_ok_iff.mp h
  cases Except.ok.inj h
  rw [List.mem_filter, mem_distinct, mem_flatten_of_mapM hin, Bool.not_eq_true',
    List.contains_eq_mem, decide_eq_false_iff_not, mem_flatten_of_mapM hout]
  simp only [not_exists, not_and]

section
variable (hg : c.model.graph.WellTyped) (hf : f.Of c.model.graph)
include hg hf

/-- An included reference brings in what is in reach. -/
theorem subset_reach_of_expand (h : c.expand f key reference = .ok xs) :
    xs ⊆ f.reach c.model.graph := by
  rw [expand] at h
  split at h
  · cases Except.ok.inj h
    exact Focus.shown_subset_reach hg.forest hf
  · obtain ⟨e, he, h⟩ := bind_eq_ok_iff.mp h
    obtain ⟨hmem, hadmits⟩ := mem_of_lookup (lookup_of_reachable he)
    cases Except.ok.inj h
    intro x hx
    rcases List.mem_append.mp hx with hx | hx
    · obtain ⟨p, hp, rfl⟩ := List.mem_map.mp hx
      split at hp
      · next hk => exact Focus.mem_reach_of_ancestor hg hk hmem hadmits (List.mem_reverse.mp hp)
      · cases hp
    · exact Focus.mem_reach_iff_exists.mpr ⟨e, hmem, hadmits, (List.mem_singleton.mp hx).symm⟩

/-- The elements of a view are in reach, and none comes twice. -/
theorem elements_spec {included excluded : List Text}
    (h : c.elements f key included excluded = .ok xs) :
    xs ⊆ f.reach c.model.graph ∧ xs.Nodup := by
  refine ⟨fun x hx => ?_, ?_⟩
  · obtain ⟨⟨reference, -, ys, hr, hx⟩, -⟩ := (mem_iff_of_elements h).mp hx
    exact subset_reach_of_expand hg hf hr hx
  · obtain ⟨inside, -, h⟩ := bind_eq_ok_iff.mp h
    obtain ⟨outside, -, h⟩ := bind_eq_ok_iff.mp h
    cases Except.ok.inj h
    exact (nodup_distinct _).filter _

end

/-! ## Attempts -/

/-- A view that is defined is sound, and its key is new. -/
theorem sound_of_define (hg : c.model.graph.WellTyped) (hn : c.model.graph.Numbered)
    (h : c.define r = .ok (v, d)) : v.Sound c.model.graph ∧ v.key ∉ c.keys := by
  obtain ⟨f, hfocus, key, -, hkey, xs, hxs, hempty, rfl, -⟩ := define_eq_ok_iff.mp h
  obtain ⟨hf, hk⟩ := of_focus hfocus
  obtain ⟨hreach, hnodup⟩ := elements_spec hg hf hxs
  have hnew : key ∉ c.keys := fun hmem => by
    cases hkey.symm.trans (List.contains_iff_mem.mpr hmem)
  refine ⟨?_, hnew⟩
  exact
    { nonempty := by rintro rfl; cases hempty
      nodup := hnodup
      reach := ⟨f, hf, hk.symm, rfl, rfl, hreach⟩
      subject := fun hkind s hs hmem => by
        obtain ⟨e, he, rfl⟩ := Option.map_eq_some_iff.mp hs
        exact Focus.subject_notMem_reach hg.forest hf he (hk ▸ hkind) (hreach hmem)
      environment := fun hkind x hx =>
        Focus.environment_of_mem_reach (hk.trans hkind) (hreach hx)
      relationships := rfl
      once := hn.nodup.sublist (List.filter_sublist.map _) }

/-- Whatever a request is refused for, it is refused before the catalogue changes. -/
theorem run_register (c : Catalogue) (r : View.Request) :
    (register r).run c = Edit.atOnce c (c.define r) := by
  rw [register, define, Edit.run_ask_bind, Edit.atOnce_bind]
  cases c.focus r with
  | error failure => rfl
  | ok f =>
    dsimp only
    rw [Edit.run_refuseIf_bind, Edit.atOnce_ite, Edit.run_ask_bind, Edit.atOnce_bind]
    refine ite_congr rfl (fun _ => rfl) fun _ => ?_
    cases c.elements f (orDefault (r.key.getD "") (defaultKey f)) r.included r.excluded with
    | error failure => rfl
    | ok xs =>
      dsimp only
      rw [Edit.run_refuseIf_bind, Edit.atOnce_ite]
      exact ite_congr rfl (fun _ => rfl) fun _ => rfl

/-- The catalogue after a request is met or refused. -/
def attempt (c : Catalogue) (r : View.Request) : Catalogue :=
  (Edit.answered ((register r).run c)).2

/-- A request adds a view behind the others, or leaves the catalogue alone if it fails. -/
theorem attempt_cases (c : Catalogue) (r : View.Request) :
    (∃ failure, c.define r = .error failure ∧ c.attempt r = c) ∨
      ∃ v d, c.define r = .ok (v, d) ∧ c.attempt r = { c with views := c.views ++ [v] } := by
  rw [attempt, run_register]
  cases h : c.define r with
  | error failure => exact .inl ⟨failure, rfl, rfl⟩
  | ok p => exact .inr ⟨p.1, p.2, rfl, catalogue_of_define h⟩

/-- The views of a catalogue are sound, and their keys differ. -/
structure Sound (m : Finished) (c : Catalogue) : Prop where
  model : c.model = m
  views : ∀ v ∈ c.views, v.Sound m.graph
  keys : c.keys.Nodup

/-- An attempt keeps a catalogue sound. -/
theorem Sound.attempt {m : Finished} (hc : c.Sound m) (hg : m.graph.WellTyped)
    (hn : m.graph.Numbered) (r : View.Request) : (c.attempt r).Sound m := by
  obtain ⟨-, -, heq⟩ | ⟨v, d, hd, heq⟩ := c.attempt_cases r
  · rw [heq]
    exact hc
  · obtain rfl := hc.model
    obtain ⟨hv, hkey⟩ := sound_of_define hg hn hd
    rw [heq]
    refine ⟨rfl, fun w hw => ?_, ?_⟩
    · rcases List.mem_append.mp hw with hw | hw
      · exact hc.views w hw
      · exact List.mem_singleton.mp hw ▸ hv
    · simp only [Catalogue.keys, List.map_append, List.map_cons, List.map_nil]
      refine List.nodup_append.mpr ⟨hc.keys, List.nodup_singleton _, fun x hx y hy => ?_⟩
      rintro rfl
      exact hkey (List.mem_singleton.mp hy ▸ hx)

/-- A catalogue of a complete model after any requests is sound, and a further request adds one view
behind the others or, if it fails, leaves it as it is. -/
theorem sound_of_attempts {mode : Identifier.Mode} {members : List Declaration.ModelMember}
    {m : Finished} (h : Model.assemble mode members = .ok m) (requests : List View.Request) :
    let c := requests.foldl attempt { model := m }
    c.Sound m ∧ ∀ r, (∃ failure, c.define r = .error failure ∧ c.attempt r = c) ∨
      ∃ v d, c.define r = .ok (v, d) ∧ c.attempt r = { c with views := c.views ++ [v] } := by
  have hg := Model.wellTyped_of_assemble h
  have hn := Model.numbered_of_assemble h
  have hrun : ∀ c : Catalogue, c.Sound m → (requests.foldl attempt c).Sound m := by
    induction requests with
    | nil => exact fun c hc => hc
    | cons r requests ih => exact fun c hc => ih _ (hc.attempt hg hn r)
  refine ⟨hrun _ ⟨rfl, fun v hv => absurd hv List.not_mem_nil, List.nodup_nil⟩, ?_⟩
  exact attempt_cases _

/-- Requests for views of the shop: the second takes the key of the first, and the last shows
nothing. -/
def shopRequests : List View.Request :=
  let request (kind : ViewKind) (included excluded : List Text) : View.Request :=
    { kind, subject := "shop", environment := some "live", included, excluded, layout := default }
  [request .container [everything] [], request .container ["customer"] [],
    request .deployment ["web1"] [], request .systemContext ["shop"] ["shop"]]

/-- The catalogue of the shop after these requests. -/
def shopCatalogue : Catalogue := shopRequests.foldl attempt { model := Model.shopModel }

theorem shop_catalogue_sound : Model.assemble .flat Model.shop = .ok Model.shopModel ∧
    shopCatalogue.keys = ["shop-Container", "shop-Live-Deployment"] ∧
    shopCatalogue.Sound Model.shopModel := by
  have h : Model.assemble .flat Model.shop = .ok Model.shopModel := by rfl
  have hkeys : shopCatalogue.keys = ["shop-Container", "shop-Live-Deployment"] := by
    decide +kernel
  exact ⟨h, hkeys, (sound_of_attempts h shopRequests).1⟩

end Catalogue

end SystemAtlas
