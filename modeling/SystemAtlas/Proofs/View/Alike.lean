import SystemAtlas.Proofs.Model.Descent
import SystemAtlas.Proofs.Model.Reordering
import SystemAtlas.Proofs.View.Expansion

/-! # Views of models that are alike

What a view shows depends only on which elements a model has and which of them are connected. Models
with flat ids whose graphs are alike therefore define views of the same elements
(`Catalogue.view_of_define`). -/

namespace SystemAtlas

open Model (Element Environment Finished Graph)
open Text (lastName)

/-! ## Sets of elements -/

namespace Model.Graph.Alike

variable {g g' : Graph} {e : Element} {x id : Text} (h : g.Alike g') (hg : g.Forest)
  (hg' : g'.Forest)
include h

/-- A property that does not tell instances by their numbers picks elements with the same ids. -/
theorem mem_ids_filter_iff {p p' : Element → Bool}
    (hp : ∀ e e' : Element, e.Same e' → p e = p' e') :
    x ∈ (g.elements.filter p).map (·.id) ↔ x ∈ (g'.elements.filter p').map (·.id) := by
  simp only [List.mem_map, List.mem_filter]
  constructor
  · rintro ⟨e, ⟨he, hpe⟩, rfl⟩
    obtain ⟨e', he', hsame⟩ := h.exists_same he
    exact ⟨e', ⟨he', hp e e' hsame ▸ hpe⟩, hsame.id_eq.symm⟩
  · rintro ⟨e', ⟨he', hpe⟩, rfl⟩
    obtain ⟨e, he, hsame⟩ := h.symm.exists_same he'
    exact ⟨e, ⟨he, hp e e' hsame.symm ▸ hpe⟩, hsame.id_eq.symm⟩

theorem mem_children_iff {parent : Option Text} :
    x ∈ (g.children parent).map (·.id) ↔ x ∈ (g'.children parent).map (·.id) :=
  h.mem_ids_filter_iff fun _ _ hsame => congrArg (· == parent) hsame.parent_eq

theorem mem_descendantsUpTo_iff (n : Nat) : x ∈ (g.descendantsUpTo n id).map (·.id) ↔
    x ∈ (g'.descendantsUpTo n id).map (·.id) := by
  induction n generalizing id with
  | zero => exact Iff.rfl
  | succ n ih => simp only [mem_ids_descendantsUpTo_succ, h.mem_children_iff, ih]

theorem mem_descendants_iff :
    x ∈ (g.descendants id).map (·.id) ↔ x ∈ (g'.descendants id).map (·.id) := by
  rw [descendants, descendants, h.length_eq]
  exact h.mem_descendantsUpTo_iff _

theorem mem_neighbours_iff (hne : x ≠ id) : x ∈ g.neighbours id ↔ x ∈ g'.neighbours id := by
  rw [Graph.mem_neighbours_iff hne, Graph.mem_neighbours_iff hne, h.connects, h.connects]

end Model.Graph.Alike

/-! ## What a focus shows -/

namespace Focus

variable {f : Focus} {g g' : Graph} {e e' : Element} {x : Text}

theorem isOutline_eq (h : e.Same e') : isOutline e = isOutline e' := by
  simp only [isOutline, h.isA_eq]

theorem admits_eq (h : e.Same e') : f.admits e = f.admits e' := by
  cases f <;> simp only [admits, isOutline_eq h, h.isA_eq, h.id_eq, h.parent_eq,
    h.environment?_eq, Element.isGroup]

section
variable (h : g.Alike g')
include h

theorem mem_reach_iff : x ∈ f.reach g ↔ x ∈ f.reach g' :=
  h.mem_ids_filter_iff fun _ _ => admits_eq

theorem mem_core_iff : x ∈ f.core g ↔ x ∈ f.core g' := by
  cases f with
  | context system => exact Iff.rfl
  | containers system | components system =>
    simp only [core, Graph.children, List.filter_filter]
    apply h.mem_ids_filter_iff
    intro e e' hsame
    rw [hsame.isA_eq, hsame.parent_eq]
  | deployment => exact Iff.rfl

variable (hg : g.Forest) (hg' : g'.Forest)
include hg hg'

theorem isNeeded_eq {system : Element} (hsame : e.Same e') :
    isNeeded g system e = isNeeded g' system e' := by
  simp only [isNeeded, isInstanceOf, hsame.isA_eq, hsame.definition?_eq,
    h.isAncestor_eq hg hg']

theorem mem_deployed_iff {system : Element} :
    x ∈ (deployed g system (f.members g)).map (·.id) ↔
      x ∈ (deployed g' system (f.members g')).map (·.id) := by
  have hneeded : ∀ id, id ∈ ((f.members g).filter (isNeeded g system)).map (·.id) ↔
      id ∈ ((f.members g').filter (isNeeded g' system)).map (·.id) := by
    intro id
    simp only [members, List.filter_filter]
    apply h.mem_ids_filter_iff
    intro e e' hsame
    rw [isNeeded_eq h hg hg' hsame, admits_eq hsame]
  simp only [deployed, members, List.filter_filter]
  apply h.mem_ids_filter_iff
  intro e e' hsame
  rw [admits_eq hsame, hsame.id_eq]
  congr 1
  simp only [members, List.filter_filter] at hneeded
  rw [Bool.eq_iff_iff]
  simp only [Bool.or_eq_true, List.contains_iff_mem, List.mem_flatMap, hneeded,
    h.ids_ancestors_eq hg hg']

/-- A view of either model shows the same by itself. -/
theorem mem_shown_iff : x ∈ f.shown g ↔ x ∈ f.shown g' := by
  have hstatic : x ∈ withNeighbours g (f.reach g) (f.core g) ↔
      x ∈ withNeighbours g' (f.reach g') (f.core g') := by
    by_cases hx : x ∈ f.core g
    · simp only [mem_withNeighbours_iff, hx, (mem_core_iff h).mp hx, true_or]
    · simp only [mem_withNeighbours_iff, ← mem_core_iff h, ← mem_reach_iff h, hx, false_or]
      refine and_congr_right fun _ => exists_congr fun c => and_congr_right fun hc => ?_
      exact h.mem_neighbours_iff fun he => hx (he ▸ hc)
  cases f with
  | context | containers | components => exact hstatic
  | deployment system environment =>
    cases system with
    | none => exact mem_reach_iff h
    | some system => exact mem_deployed_iff h hg hg'

end

end Focus

/-! ## Definition of views -/

/-- Views, each of its own graph, show the same elements in the same way, and all relationships
between them. -/
structure View.Alike (g g' : Graph) (v v' : View) : Prop where
  key : v.key = v'.key
  layout : v.layout = v'.layout
  rules : v.rules = v'.rules
  elements : ∀ id, id ∈ v.elements ↔ id ∈ v'.elements
  relationships : v.relationships = (g.relationshipsBetween v.elements).map (·.id)
  relationships' : v'.relationships = (g'.relationshipsBetween v'.elements).map (·.id)

namespace Catalogue

variable {c c' d d' : Catalogue} {reference key : Text} {accept accept' : Element → Bool}
  {e e' : Element} {f f' : Focus} {r : View.Request} {v v' : View} {xs xs' : List Text}

theorem find?_of_lookup (hm : c.model.Flat) (h : c.lookup reference accept = .ok e) :
    c.model.graph.find? reference.lastName = some e ∧ accept e = true := by
  obtain ⟨id, hid, hget⟩ := bind_eq_ok_iff.mp h
  have hfind := Graph.get_eq_ok_iff.mp hget
  have haccept := Identifier.Registry.accept_of_lookup hid
  rw [hfind] at haccept
  rw [← Identifier.Registry.lookup_eq_lastName hm.mode hm.dotFree hid]
  exact ⟨hfind, haccept⟩

theorem lookup_of_subject {kind : ViewKind} (h : c.subject kind reference = .ok e) :
    c.lookup reference (·.isA (subjectType kind)) = .ok e := mapError_eq_ok_iff.mp h

theorem reachable_eq_ok_iff :
    c.reachable f key reference = .ok e ↔ c.lookup reference f.admits = .ok e :=
  mapError_eq_ok_iff

theorem lookup_of_reachable (h : c.reachable f key reference = .ok e) :
    c.lookup reference f.admits = .ok e := reachable_eq_ok_iff.mp h

theorem isStatic_of_subjectType {kind : ViewKind} (h : e.isA (subjectType kind) = true) :
    e.isStatic = true := by
  have hrole : ∃ t, e.role = .static t := by
    cases kind with
    | component => exact ⟨_, (Model.isA_static_iff (t := .container) (by decide)).mp h⟩
    | _ => exact ⟨_, (Model.isA_static_iff (t := .softwareSystem) (by decide)).mp h⟩
  obtain ⟨t, hrole⟩ := hrole
  rw [Element.isStatic, hrole]

theorem define_eq_ok_iff : c.define r = .ok (v, d) ↔ ∃ f, c.focus r = .ok f ∧
    ∃ key, key = orDefault (r.key.getD "") (defaultKey f) ∧ c.keys.contains key = false ∧
      ∃ xs, c.elements f key r.included r.excluded = .ok xs ∧ xs.isEmpty = false ∧
        v = view c.model.graph r f key xs ∧ d = { c with views := c.views ++ [v] } := by
  simp only [define, bind_eq_ok_iff]
  refine exists_congr fun f => and_congr_right fun _ => ?_
  rw [exists_eq_left]
  by_cases hk : c.keys.contains (orDefault (r.key.getD "") (defaultKey f)) = true
  · rw [if_pos hk, hk]
    constructor
    · intro h
      cases h
    · intro h
      cases h.1
  · rw [if_neg hk, bind_eq_ok_iff]
    rw [Bool.not_eq_true] at hk
    simp only [hk, true_and]
    refine exists_congr fun xs => and_congr_right fun _ => ?_
    cases hxs : xs.isEmpty with
    | true =>
      constructor
      · intro h
        cases h
      · intro h
        cases h.1
    | false =>
      constructor
      · intro h
        cases Except.ok.inj h
        exact ⟨rfl, rfl, rfl⟩
      · rintro ⟨-, rfl, rfl⟩
        rfl

theorem catalogue_of_define (h : c.define r = .ok (v, d)) :
    d = { c with views := c.views ++ [v] } := by
  obtain ⟨f, -, key, -, -, xs, -, -, -, hd⟩ := define_eq_ok_iff.mp h
  exact hd

section
variable (h : c.model.graph.Alike c'.model.graph) (hm : c.model.Flat)
include h hm

theorem findEnvironment?_eq (name : Text) :
    c.model.graph.findEnvironment? name = c'.model.graph.findEnvironment? name := by
  simp only [Graph.findEnvironment?, find?_key_perm hm.environmentIds h.environments,
    find?_key_perm hm.environmentNames h.environments]

theorem environment_eq {name : Option Text} : c.environment name = c'.environment name := by
  rw [environment, environment, findEnvironment?_eq h hm]

variable (hm' : c'.model.Flat)
include hm'

theorem same_of_lookup (he : c.lookup reference accept = .ok e)
    (he' : c'.lookup reference accept' = .ok e') : e.Same e' := by
  have hfind := (find?_of_lookup hm he).1
  have hfind' := (find?_of_lookup hm' he').1
  rcases h.find?_cases hm.forest hm'.forest reference.lastName with
    ⟨hn, -⟩ | ⟨x, x', hx, hx', hsame⟩
  · cases hfind.symm.trans hn
  · cases Option.some.inj (hfind.symm.trans hx)
    cases Option.some.inj (hfind'.symm.trans hx')
    exact hsame

theorem subject_eq {kind : ViewKind} (he : c.subject kind reference = .ok e)
    (he' : c'.subject kind reference = .ok e') : e = e' := by
  have hlookup := lookup_of_subject he
  refine (same_of_lookup h hm hm' hlookup (lookup_of_subject he')).eq_of_isStatic ?_
  exact isStatic_of_subjectType (find?_of_lookup hm hlookup).2

/-- A request asks for a view of the same. -/
theorem focus_eq (hf : c.focus r = .ok f) (hf' : c'.focus r = .ok f') : f = f' := by
  simp only [focus] at hf hf'
  cases hk : r.kind with
  | systemContext | container | component =>
    simp only [hk] at hf hf'
    obtain ⟨e, he, rfl⟩ := map_eq_ok_iff.mp hf
    obtain ⟨e', he', rfl⟩ := map_eq_ok_iff.mp hf'
    rw [subject_eq h hm hm' he he']
  | deployment =>
    simp only [hk, environment_eq h hm] at hf hf'
    split at hf
    · next hall =>
      rw [if_pos hall] at hf'
      exact Except.ok.inj (hf.symm.trans hf')
    · next hall =>
      rw [if_neg hall] at hf'
      obtain ⟨s, hs, hf⟩ := bind_eq_ok_iff.mp hf
      obtain ⟨s', hs', hf'⟩ := bind_eq_ok_iff.mp hf'
      obtain ⟨e, he, rfl⟩ := map_eq_ok_iff.mp hs
      obtain ⟨e', he', rfl⟩ := map_eq_ok_iff.mp hs'
      rw [subject_eq h hm hm' he he'] at hf
      exact Except.ok.inj (hf.symm.trans hf')

theorem mem_expand_iff {x : Text} (hx : c.expand f key reference = .ok xs)
    (hx' : c'.expand f key reference = .ok xs') : x ∈ xs ↔ x ∈ xs' := by
  rw [expand] at hx hx'
  split at hx
  · next hall =>
    rw [if_pos hall] at hx'
    cases Except.ok.inj hx
    cases Except.ok.inj hx'
    exact Focus.mem_shown_iff h hm.forest hm'.forest
  · next hall =>
    rw [if_neg hall] at hx'
    obtain ⟨e, he, hx⟩ := bind_eq_ok_iff.mp hx
    obtain ⟨e', he', hx'⟩ := bind_eq_ok_iff.mp hx'
    have hsame := same_of_lookup h hm hm' (lookup_of_reachable he) (lookup_of_reachable he')
    cases Except.ok.inj hx
    cases Except.ok.inj hx'
    rw [hsame.id_eq]
    split
    · simp only [List.map_reverse, h.ids_ancestors_eq hm.forest hm'.forest]
    · rfl

theorem mem_exclude_iff {x : Text} (hx : c.exclude f key reference = .ok xs)
    (hx' : c'.exclude f key reference = .ok xs') : x ∈ xs ↔ x ∈ xs' := by
  obtain ⟨e, he, hx⟩ := bind_eq_ok_iff.mp hx
  obtain ⟨e', he', hx'⟩ := bind_eq_ok_iff.mp hx'
  have hsame := same_of_lookup h hm hm' (lookup_of_reachable he) (lookup_of_reachable he')
  cases Except.ok.inj hx
  cases Except.ok.inj hx'
  rw [hsame.id_eq, List.mem_cons, List.mem_cons]
  split
  · rw [h.mem_descendants_iff]
  · rfl

theorem mem_elements_iff {included excluded : List Text} {x : Text}
    (hx : c.elements f key included excluded = .ok xs)
    (hx' : c'.elements f key included excluded = .ok xs') : x ∈ xs ↔ x ∈ xs' := by
  obtain ⟨inside, hin, hx⟩ := bind_eq_ok_iff.mp hx
  obtain ⟨outside, hout, hx⟩ := bind_eq_ok_iff.mp hx
  obtain ⟨inside', hin', hx'⟩ := bind_eq_ok_iff.mp hx'
  obtain ⟨outside', hout', hx'⟩ := bind_eq_ok_iff.mp hx'
  cases Except.ok.inj hx
  cases Except.ok.inj hx'
  have hinside := mem_flatten_congr hin hin'
    (fun _ _ _ hr hr' _ => mem_expand_iff h hm hm' hr hr') x
  have houtside := mem_flatten_congr hout hout'
    (fun _ _ _ hr hr' _ => mem_exclude_iff h hm hm' hr hr') x
  simp only [List.mem_filter, mem_distinct, hinside, Bool.not_eq_true', ← Bool.not_eq_true,
    List.contains_iff_mem, houtside]

/-- A request defines views that are alike. -/
theorem view_of_define (hd : c.define r = .ok (v, d)) (hd' : c'.define r = .ok (v', d')) :
    View.Alike c.model.graph c'.model.graph v v' := by
  obtain ⟨f, hf, key, rfl, -, xs, hxs, -, rfl, -⟩ := define_eq_ok_iff.mp hd
  obtain ⟨f', hf', key', rfl, -, xs', hxs', -, rfl, -⟩ := define_eq_ok_iff.mp hd'
  cases focus_eq h hm hm' hf hf'
  exact ⟨rfl, rfl, rfl, fun _ => mem_elements_iff h hm hm' hxs hxs', rfl, rfl⟩

end

end Catalogue

end SystemAtlas
