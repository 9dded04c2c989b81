import SystemAtlas.Proofs.View.Hosting

/-! # Filters of views

The references that a view includes and excludes are two sets: their order and their repetitions
decide neither whether the view is defined nor what it shows (`Catalogue.define_filter`). A larger
set of excluded references shows no more, a larger set of included ones no less, and what is
excluded is not shown, however it is included. -/

namespace SystemAtlas

open Model (Element)

namespace View.Request

/-- Requests for views of one kind, subject and environment. -/
structure OfSame (r s : View.Request) : Prop where
  kind : r.kind = s.kind
  subject : r.subject = s.subject
  environment : r.environment = s.environment

/-- Requests that include the same references and exclude the same ones. -/
structure SameFilter (r s : View.Request) : Prop where
  included : ∀ reference, reference ∈ r.included ↔ reference ∈ s.included
  excluded : ∀ reference, reference ∈ r.excluded ↔ reference ∈ s.excluded

/-- A request includes what another one includes, and excludes no more than that does. -/
structure Widens (s r : View.Request) : Prop where
  included : r.included ⊆ s.included
  excluded : s.excluded ⊆ r.excluded

variable {r s : View.Request}

theorem OfSame.symm (h : r.OfSame s) : s.OfSame r :=
  ⟨h.kind.symm, h.subject.symm, h.environment.symm⟩

theorem SameFilter.symm (h : r.SameFilter s) : s.SameFilter r :=
  ⟨fun reference => (h.included reference).symm, fun reference => (h.excluded reference).symm⟩

theorem SameFilter.widens (h : r.SameFilter s) : s.Widens r :=
  ⟨fun reference => (h.included reference).mp, fun reference => (h.excluded reference).mpr⟩

end View.Request

namespace Catalogue

variable {c d c' d' : Catalogue} {f : Focus} {r s : View.Request} {v w : View} {e : Element}
  {reference key key' : Text} {xs ys : List Text}

/-- No view has the key of the view that a request asks for. -/
def Fresh (c : Catalogue) (r : View.Request) : Prop :=
  ∀ f, c.focus r = .ok f → orDefault (r.key.getD "") (defaultKey f) ∉ c.keys

/-! ## References -/

section
variable (hm : c.model = d.model)
include hm

theorem lookup_congr (accept : Element → Bool) :
    c.lookup reference accept = d.lookup reference accept := by
  rw [lookup, lookup, hm]

theorem focus_congr (h : r.OfSame s) : c.focus r = d.focus s := by
  simp only [focus, subject, environment, lookup_congr hm, hm, h.kind, h.subject, h.environment]

/-- What a reference brings in does not depend on the key of the view, nor on the other views. -/
theorem expand_eq_ok_congr :
    c.expand f key reference = .ok xs ↔ d.expand f key' reference = .ok xs := by
  rw [expand, expand, hm]
  split
  · rfl
  · simp only [bind_eq_ok_iff, reachable_eq_ok_iff, lookup_congr hm]

theorem exclude_eq_ok_congr :
    c.exclude f key reference = .ok xs ↔ d.exclude f key' reference = .ok xs := by
  simp only [exclude, bind_eq_ok_iff, reachable_eq_ok_iff, lookup_congr hm, hm]

/-! ## Elements -/

theorem exists_elements_of_sameFilter (h : r.SameFilter s)
    (hr : c.elements f key r.included r.excluded = .ok xs) :
    ∃ ys, d.elements f key' s.included s.excluded = .ok ys := by
  obtain ⟨hin, hout⟩ := exists_elements_iff.mp ⟨xs, hr⟩
  refine exists_elements_iff.mpr ⟨fun reference hs => ?_, fun reference hs => ?_⟩
  · obtain ⟨ys, hys⟩ := hin reference ((h.included reference).mpr hs)
    exact ⟨ys, (expand_eq_ok_congr hm).mp hys⟩
  · obtain ⟨ys, hys⟩ := hout reference ((h.excluded reference).mpr hs)
    exact ⟨ys, (exclude_eq_ok_congr hm).mp hys⟩

theorem subset_of_widens (h : s.Widens r)
    (hr : c.elements f key r.included r.excluded = .ok xs)
    (hs : d.elements f key' s.included s.excluded = .ok ys) : xs ⊆ ys := by
  intro x hx
  obtain ⟨⟨reference, hmem, zs, hzs, hx⟩, hkept⟩ := (mem_iff_of_elements hr).mp hx
  refine (mem_iff_of_elements hs).mpr
    ⟨⟨reference, h.included hmem, zs, (expand_eq_ok_congr hm).mp hzs, hx⟩, ?_⟩
  intro reference hmem zs hzs
  exact hkept reference (h.excluded hmem) zs ((exclude_eq_ok_congr hm).mpr hzs)

/-! ## Definition -/

theorem exists_define_of_sameFilter (hrs : r.OfSame s) (h : r.SameFilter s) (hd : d.Fresh s)
    (hr : c.define r = .ok (v, c')) : ∃ w d', d.define s = .ok (w, d') := by
  obtain ⟨f, hf, key, -, -, xs, hxs, hne, -, -⟩ := define_eq_ok_iff.mp hr
  rw [focus_congr hm hrs] at hf
  obtain ⟨ys, hys⟩ := exists_elements_of_sameFilter hm h hxs
  refine ⟨_, _, define_eq_ok_iff.mpr ⟨f, hf, _, rfl, ?_, ys, hys, ?_, rfl, rfl⟩⟩
  · rw [List.contains_eq_mem, decide_eq_false_iff_not]
    exact hd f hf
  · -- what the one request shows the other shows too, so neither view is empty
    rw [List.isEmpty_eq_false_iff_exists_mem] at hne ⊢
    obtain ⟨x, hx⟩ := hne
    exact ⟨x, subset_of_widens hm h.widens hxs hys hx⟩

theorem subset_of_define (hrs : r.OfSame s) (h : s.Widens r) (hr : c.define r = .ok (v, c'))
    (hs : d.define s = .ok (w, d')) : v.elements ⊆ w.elements := by
  obtain ⟨f, hf, key, -, -, xs, hxs, -, rfl, -⟩ := define_eq_ok_iff.mp hr
  obtain ⟨f', hf', key', -, -, ys, hys, -, rfl, -⟩ := define_eq_ok_iff.mp hs
  cases Except.ok.inj ((focus_congr hm hrs ▸ hf).symm.trans hf')
  exact subset_of_widens hm h hxs hys

end

theorem relationships_of_define (h : c.define r = .ok (v, c')) :
    v.relationships = (c.model.graph.relationshipsBetween v.elements).map (·.id) := by
  obtain ⟨f, -, key, -, -, xs, -, -, rfl, -⟩ := define_eq_ok_iff.mp h
  rfl

theorem notMem_of_define (h : c.define r = .ok (v, c')) : ∃ f, c.focus r = .ok f ∧
    ∀ reference ∈ r.excluded, ∃ e, c.lookup reference f.admits = .ok e ∧ e.id ∉ v.elements ∧
      (f.kind = .deployment → ∀ x ∈ c.model.graph.descendants e.id, x.id ∉ v.elements) := by
  obtain ⟨f, hf, key, -, -, xs, hxs, -, rfl, -⟩ := define_eq_ok_iff.mp h
  refine ⟨f, hf, fun reference hr => ?_⟩
  obtain ⟨ys, hys⟩ := (exists_elements_iff.mp ⟨xs, hxs⟩).2 reference hr
  obtain ⟨e, he, hbelow⟩ := bind_eq_ok_iff.mp hys
  cases Except.ok.inj hbelow
  have hkept : ∀ id ∈ e.id :: _, id ∉ xs := fun id hid hmem =>
    ((mem_iff_of_elements hxs).mp hmem).2 reference hr _ hys hid
  refine ⟨e, lookup_of_reachable he, hkept e.id List.mem_cons_self, fun hkind x hx => ?_⟩
  apply hkept x.id
  rw [if_pos hkind]
  exact List.mem_cons_of_mem _ (List.mem_map_of_mem hx)

/-- Filters know no order, and exclusion wins. Of two requests, for views of the same under new
keys, that include the same references and exclude the same ones, both are met or neither, with the
same elements and the same relationships. A request that includes more references and excludes
fewer shows no less. Every excluded reference names an element, which is not shown, nor is anything
below it in a deployment view. -/
theorem define_filter (hm : c.model = d.model) (hrs : r.OfSame s) (hc : c.Fresh r)
    (hd : d.Fresh s) :
    (r.SameFilter s →
      ((∃ v c', c.define r = .ok (v, c')) ↔ ∃ w d', d.define s = .ok (w, d')) ∧
      ∀ v c' w d', c.define r = .ok (v, c') → d.define s = .ok (w, d') →
        (∀ id, id ∈ v.elements ↔ id ∈ w.elements) ∧ v.relationships = w.relationships) ∧
    (∀ v c' w d', c.define r = .ok (v, c') → d.define s = .ok (w, d') →
      s.Widens r → v.elements ⊆ w.elements) ∧
    ∀ v c', c.define r = .ok (v, c') → ∃ f, c.focus r = .ok f ∧ ∀ reference ∈ r.excluded,
      ∃ e, c.lookup reference f.admits = .ok e ∧ e.id ∉ v.elements ∧
        (f.kind = .deployment → ∀ x ∈ c.model.graph.descendants e.id, x.id ∉ v.elements) := by
  refine ⟨fun h => ⟨⟨?_, ?_⟩, fun v c' w d' hv hw => ?_⟩,
    fun v c' w d' hv hw h => subset_of_define hm hrs h hv hw, fun v c' => notMem_of_define⟩
  · rintro ⟨v, c', hv⟩
    exact exists_define_of_sameFilter hm hrs h hd hv
  · rintro ⟨w, d', hw⟩
    exact exists_define_of_sameFilter hm.symm hrs.symm h.symm hc hw
  · have hmem : ∀ id, id ∈ v.elements ↔ id ∈ w.elements := fun id =>
      ⟨fun hv' => subset_of_define hm hrs h.widens hv hw hv',
        fun hw' => subset_of_define hm.symm hrs.symm h.symm.widens hw hv hw'⟩
    refine ⟨hmem, ?_⟩
    rw [relationships_of_define hv, relationships_of_define hw, hm,
      Model.Graph.relationshipsBetween, Model.Graph.relationshipsBetween]
    simp only [List.contains_eq_mem, hmem]

/-- A request for a view of all that is deployed in the market, but for the rack. -/
def marketRequest (key : Text) (included : List Text) : View.Request :=
  { kind := .deployment, subject := everything, environment := some "live", key := some key,
    included, excluded := ["rack"], layout := default }

/-- The market, with no views. -/
def marketCatalogue : Catalogue := { model := Model.marketModel }

/-- The view of the market that a request asks for, and the catalogue with it. -/
def marketView (r : View.Request) : View × Catalogue :=
  (marketCatalogue.define r).toOption.getD default

theorem market_filtered : Model.assemble .flat Model.market = .ok Model.marketModel ∧
    let r := marketRequest "one" ["web1", "mail1"]
    let s := marketRequest "two" ["mail1", "web1", "mail1"]
    marketCatalogue.define r = .ok (marketView r) ∧
      (marketView r).1.elements = ["hall", "desk", "mail1"] ∧
      ∃ w d, marketCatalogue.define s = .ok (w, d) ∧
        ∀ id, id ∈ (marketView r).1.elements ↔ id ∈ w.elements := by
  have h : Model.assemble .flat Model.market = .ok Model.marketModel := by rfl
  refine ⟨h, ?_⟩
  intro r s
  have hr : marketCatalogue.define r = .ok (marketView r) := eq_ok_of_isOk (by decide +kernel)
  have helements : (marketView r).1.elements = ["hall", "desk", "mail1"] := by decide +kernel
  have hof : r.OfSame s := ⟨rfl, rfl, rfl⟩
  have hsame : r.SameFilter s := by
    refine ⟨fun reference => ?_, fun reference => Iff.rfl⟩
    simp [r, s, marketRequest, or_comm]
  have hfresh : ∀ q, marketCatalogue.Fresh q := fun q f _ => List.not_mem_nil
  obtain ⟨hiff, hmem⟩ := (define_filter rfl hof (hfresh r) (hfresh s)).1 hsame
  obtain ⟨w, d, hw⟩ := hiff.mp ⟨_, _, hr⟩
  exact ⟨hr, helements, w, d, hw, (hmem _ _ w d hr hw).1⟩

end Catalogue

end SystemAtlas
