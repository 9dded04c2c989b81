import SystemAtlas.Proofs.Model.Deferring
import SystemAtlas.Proofs.Model.Lawful
import SystemAtlas.Proofs.Model.Soundness

/-! # The beginning of a model

A script only adds to an assembly, so every assembly begins those that come after it
(`Begins.run`). What is declared later does not help to link what was put aside before
(`Begins.link`), because an end must be declared before its relationship. So the first declarations
of a model make a model themselves, and the whole model begins with it (`linked_begins`). -/

namespace SystemAtlas.Model

open Identifier (Mode Registry)

namespace Assembly

variable {a b c : Assembly} {e : Event} {p : Pending} {reference id : Text}

/-- One assembly begins another: all that it holds stands first there, unchanged. -/
structure Begins (a b : Assembly) : Prop where
  mode : b.registry.mode = a.registry.mode
  frozen : b.graph.frozen = a.graph.frozen
  declared : a.registry.declared <+: b.registry.declared
  elements : a.graph.elements <+: b.graph.elements
  environments : a.graph.environments <+: b.graph.environments
  relationships : a.graph.relationships <+: b.graph.relationships
  pending : a.pending <+: b.pending

theorem Begins.refl (a : Assembly) : a.Begins a :=
  ⟨rfl, rfl, List.prefix_rfl, List.prefix_rfl, List.prefix_rfl, List.prefix_rfl, List.prefix_rfl⟩

theorem Begins.trans (hab : a.Begins b) (hbc : b.Begins c) : a.Begins c where
  mode := hbc.mode.trans hab.mode
  frozen := hbc.frozen.trans hab.frozen
  declared := hab.declared.trans hbc.declared
  elements := hab.elements.trans hbc.elements
  environments := hab.environments.trans hbc.environments
  relationships := hab.relationships.trans hbc.relationships
  pending := hab.pending.trans hbc.pending

/-! ## Declaring more -/

theorem Step.begins (h : Step a e b) : a.Begins b := by
  cases h with
  | leave => exact { Begins.refl a with }
  | relate r => exact { Begins.refl a with pending := List.prefix_append _ _ }
  | element _ _ _ _ hg =>
    obtain ⟨-, -, -, rfl⟩ := Graph.addElement_eq_ok_iff.mp hg
    exact { Begins.refl a with
      declared := List.prefix_append _ _
      elements := List.prefix_append _ _ }
  | environment _ _ _ hg =>
    obtain ⟨-, -, rfl⟩ := Graph.addEnvironment_eq_ok_iff.mp hg
    exact { Begins.refl a with
      declared := List.prefix_append _ _
      environments := List.prefix_append _ _ }

theorem Begins.run {events : List Event} (h : events.foldlM declare a = .ok b) : a.Begins b :=
  foldlM_invariant (P := a.Begins)
    (fun _ _ _ _ hs hstep => hs.trans (declare_eq_ok_iff.mp hstep).begins) (.refl a) h

/-! ## What was there already -/

/-- The registry of an assembly is the later one, cut off at its last declaration. -/
theorem Begins.upTo_eq (hab : a.Begins b) : b.registry.upTo a.registry.sequence = a.registry := by
  rw [Registry.upTo, Registry.sequence, hab.mode, ← List.prefix_iff_eq_take.mp hab.declared]

section
variable (hab : a.Begins b) (ha : a.Lawful) (hb : b.Lawful)
include hab ha hb

/-- An element with an id that was declared already was there already. -/
theorem Begins.mem_of_contains {q : Element} (hq : q ∈ b.graph.elements)
    (hc : a.registry.contains q.id = true) : q ∈ a.graph.elements := by
  obtain ⟨helements, -, happart⟩ :=
    List.nodup_append.mp (hb.registered.ids.nodup_iff.mpr hb.registered.nodup)
  rw [Registry.contains, List.contains_iff_mem, ← ha.registered.ids.mem_iff, List.mem_append] at hc
  rcases hc with hc | hc
  · obtain ⟨x, hx, hid⟩ := List.mem_map.mp hc
    exact List.inj_on_of_nodup_map helements (hab.elements.subset hx) hq hid ▸ hx
  · obtain ⟨v, hv, hid⟩ := List.mem_map.mp hc
    have hne := happart _ (List.mem_map_of_mem hq) _
      (List.mem_map_of_mem (hab.environments.subset hv))
    exact absurd hid.symm hne

/-- What was declared already is found as it was. -/
theorem Begins.find?_eq (hc : a.registry.contains id = true) :
    b.graph.find? id = a.graph.find? id := by
  cases h : b.graph.find? id with
  | some q =>
    obtain ⟨hq, rfl⟩ := Graph.mem_of_find? h
    exact (ha.typed.forest.find?_of_mem (hab.mem_of_contains ha hb hq hc)).symm
  | none =>
    cases h' : a.graph.find? id with
    | none => rfl
    | some q =>
      obtain ⟨hq, rfl⟩ := Graph.mem_of_find? h'
      exact h.symm.trans (hb.typed.forest.find?_of_mem (hab.elements.subset hq))

/-! ## Linking before and after -/

/-- An end that is found at last was found before the later declarations. -/
theorem Begins.endpoint (hp : p ∈ a.pending) (h : b.endpoint p reference = .ok id) :
    a.endpoint p reference = .ok id := by
  rw [endpoint_eq_ok_iff] at h ⊢
  refine h.imp_right ?_
  rintro ⟨hreference, hresolve, ⟨q, hfind, hgroup⟩, n, hn, hle⟩
  have hearly : n ≤ a.registry.sequence := Nat.le_trans hle (ha.dated p hp)
  have hc : a.registry.contains id = true := by
    rw [← hab.upTo_eq]
    exact Registry.contains_upTo_iff.mpr ⟨n, hn, hearly⟩
  rw [hab.find?_eq ha hb hc] at hfind
  refine ⟨hreference, ?_, ⟨q, hfind, hgroup⟩, n, ?_, hle⟩
  · have hscope := hb.dotFree.pending p (hab.pending.subset hp)
    rw [← hab.upTo_eq] at hc ⊢
    exact Registry.resolve_upTo hb.dotFree.registry hscope hb.registered.nodup hc hresolve
  · rw [← hab.upTo_eq]
    exact Registry.sequenceOf_upTo hearly hn

/-- A link that is made at last was made before the later declarations. -/
theorem Begins.link (hsame : b.graph.relationships = a.graph.relationships) (hp : p ∈ a.pending)
    {rs : List Relationship} (h : Assembly.link { b with graph := b.graph.appended rs } p = .ok c) :
    ∃ more, c = { b with graph := b.graph.appended more } ∧
      Assembly.link { a with graph := a.graph.appended rs } p =
        .ok { a with graph := a.graph.appended more } := by
  obtain ⟨l, hl, g, hg', rfl⟩ := link_eq_ok_iff.mp h
  obtain ⟨s, hs, d, hd, rfl⟩ := resolveLink_eq_ok_iff.mp hl
  obtain ⟨hfrozen, -, -, hnew, rfl⟩ := Graph.addRelationship_eq_ok_iff.mp hg'
  rw [endpoint_appended] at hs hd
  have hs' := hab.endpoint ha hb hp hs
  have hd' := hab.endpoint ha hb hp hd
  have hends : ∀ {reference id}, a.endpoint p reference = .ok id → a.graph.contains id = true := by
    intro reference id hid
    obtain ⟨q, hq, rfl, -⟩ := isEnd_of_endpoint (ha.kept.owners p hp) hid
    exact Graph.contains_of_mem hq
  have hlink : Assembly.resolveLink { a with graph := a.graph.appended rs } p =
      .ok (linkBetween p.declaration s d) := by
    refine resolveLink_eq_ok_iff.mpr ⟨s, ?_, d, ?_, rfl⟩
    · rw [endpoint_appended, hs']
    · rw [endpoint_appended, hd']
  refine ⟨_, by rw [Graph.appended_appended], link_eq_ok_iff.mpr ⟨_, hlink, _, ?_, rfl⟩⟩
  refine Graph.addRelationship_eq_ok_iff.mpr
    ⟨hab.frozen.symm.trans hfrozen, hends hs', hends hd', ?_, ?_⟩
  · simpa only [Graph.connectsAs, Graph.relationships_appended, hsame] using hnew
  · rw [Graph.appended_appended, Graph.relationships_appended, Graph.relationships_appended, hsame]

/-- Whatever of it is linked after the later declarations is linked before them as well. -/
theorem Begins.linkAll (hsame : b.graph.relationships = a.graph.relationships) {ps : List Pending}
    (hps : ps ⊆ a.pending) {rs : List Relationship}
    (h : ps.foldlM Assembly.link { b with graph := b.graph.appended rs } = .ok c) :
    ∃ more, c = { b with graph := b.graph.appended more } ∧
      ps.foldlM Assembly.link { a with graph := a.graph.appended rs } =
        .ok { a with graph := a.graph.appended more } := by
  induction ps generalizing rs with
  | nil => exact ⟨rs, (Except.ok.inj h).symm, rfl⟩
  | cons p ps ih =>
    obtain ⟨m, hm, h⟩ := foldlM_cons_eq_ok_iff.mp h
    obtain ⟨hp, hps⟩ := List.cons_subset.mp hps
    obtain ⟨more, rfl, hm'⟩ := hab.link ha hb hsame hp hm
    obtain ⟨all, rfl, h'⟩ := ih hps h
    exact ⟨all, rfl, foldlM_cons_eq_ok_iff.mpr ⟨_, hm', h'⟩⟩

end

end Assembly

variable {mode : Mode} {members more : List Declaration.ModelMember} {b : Assembly}

/-- The first declarations of a model make a model. If declarations followed by others are declared
and linked, then the former are declared and linked on their own, and what they make stands first in
the whole: the declarations of the registry, the elements, the environments and the
relationships. -/
theorem linked_begins (h : linked mode (members ++ more) = .ok b) :
    ∃ a, linked mode members = .ok a ∧ a.Begins b := by
  obtain ⟨b, hb, hlink⟩ := linked_eq_ok_iff.mp h
  have hb' := Assembly.lawful_of_declared hb
  rw [script_append, List.foldlM_append] at hb
  obtain ⟨a, ha, hb⟩ := bind_eq_ok_iff.mp hb
  have hab := Assembly.Begins.run hb
  have ha' := Assembly.lawful_of_declared ha
  have hsame := Assembly.relationships_of_declared hb
  -- the relationships of the first declarations are linked first
  obtain ⟨ps, hps⟩ := hab.pending
  rw [← hps, List.foldlM_append] at hlink
  obtain ⟨c, hfirst, hrest⟩ := bind_eq_ok_iff.mp hlink
  have hfirst' : a.pending.foldlM Assembly.link { b with graph := b.graph.appended [] } =
      .ok c := by
    rw [Graph.appended_nil]
    exact hfirst
  obtain ⟨rs, rfl, halone⟩ := hab.linkAll ha' hb' hsame (List.Subset.refl _) hfirst'
  obtain ⟨rest, rfl, -⟩ := Assembly.appended_of_link hrest
  rw [Graph.appended_nil] at halone
  refine ⟨{ a with graph := a.graph.appended rs }, linked_eq_ok_iff.mpr ⟨a, ha, halone⟩,
    { hab with relationships := ?_ }⟩
  rw [Graph.appended_appended, Graph.relationships_appended, Graph.relationships_appended, hsame,
    ← List.append_assoc]
  exact List.prefix_append _ _

/-- The declared part of the shop. -/
def shopLinked : Assembly := (linked .flat shop).toOption.getD default

/-- The shop begins with what it is without its environment. -/
theorem shop_begins : linked .flat (shop.take 3 ++ shop.drop 3) = .ok shopLinked ∧
    ∃ a, linked .flat (shop.take 3) = .ok a ∧ a.Begins shopLinked := by
  have h : linked .flat (shop.take 3 ++ shop.drop 3) = .ok shopLinked := by rfl
  exact ⟨h, linked_begins h⟩

end SystemAtlas.Model
