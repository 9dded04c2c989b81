import SystemAtlas.Proofs.Identifier.Earlier
import SystemAtlas.Proofs.Model.Registered

/-! # References that are resolved later

The ends of a relationship are resolved when everything is declared, although only what stands
before the relationship counts. Putting it aside redirects none of them (`endpoint_of_declared`): an
end is what its reference meant when the relationship was put aside, and what it meant then it still
is, or in hierarchical mode has become ambiguous. -/

namespace SystemAtlas.Model

namespace Assembly

variable {a : Assembly} {p : Pending} {reference id : Text} {mode : Identifier.Mode}
  {members : List Declaration.ModelMember}

section
variable (ha : a.DotFree) (hp : p ∈ a.pending) (hreference : reference ≠ ownReference)
include ha hp hreference

/-- The end that a reference leads to is what it meant when the relationship was put aside. -/
theorem resolve_of_endpoint (hr : a.registry.ids.Nodup) (h : a.endpoint p reference = .ok id) :
    (a.registry.upTo p.sequence).resolve reference p.scope = .ok id := by
  obtain ⟨hown, -⟩ | ⟨-, hresolve, -, hsequence⟩ := endpoint_eq_ok_iff.mp h
  · exact absurd hown hreference
  · have hearlier := Identifier.Registry.contains_upTo_iff.mpr hsequence
    exact Identifier.Registry.resolve_upTo ha.registry (ha.pending p hp) hr hearlier hresolve

/-- What a reference meant when the relationship was put aside is the end it leads to, unless it has
become ambiguous. -/
theorem endpoint_of_resolve (hg : a.graph.Forest)
    (h : (a.registry.upTo p.sequence).resolve reference p.scope = .ok id)
    (hend : ∃ e ∈ a.graph.elements, e.id = id ∧ e.isGroup = false) :
    a.endpoint p reference = .ok id ∨ a.registry.mode = .hierarchical ∧ ∃ ids, id ∈ ids ∧
      a.endpoint p reference = .error (.of (.ambiguous reference ids) p.scope) := by
  have hearlier : (a.registry.upTo p.sequence).contains id = true := by
    obtain ⟨d, hd, hid, -⟩ := Identifier.Registry.resolve_eq_ok ha.registry.upTo (ha.pending p hp) h
    exact Identifier.Registry.contains_iff.mpr ⟨d, hd, hid⟩
  have hsequence := Identifier.Registry.contains_upTo_iff.mp hearlier
  obtain ⟨e, he, rfl, hgroup⟩ := hend
  have hkept : a.registry.resolve reference p.scope = .ok e.id →
      a.endpoint p reference = .ok e.id := fun hresolve => endpoint_eq_ok_iff.mpr
    (.inr ⟨hreference, hresolve, ⟨e, hg.find?_of_mem he, hgroup⟩, hsequence⟩)
  have hscope := ha.pending p hp
  cases hm : a.registry.mode with
  | flat => exact .inl (hkept (Identifier.Registry.resolve_of_upTo ha.registry hscope hm h))
  | hierarchical =>
    refine (Identifier.Registry.resolve_or_ambiguous_of_upTo ha.registry hscope hm h).imp hkept ?_
    rintro ⟨ids, hid, hambiguous⟩
    refine ⟨rfl, ids, hid, ?_⟩
    rw [endpoint, if_neg (mt beq_iff_eq.mp hreference), hambiguous]
    rfl

end

/-- Putting relationships aside redirects no reference. Let everything be declared, and let `rs` be
what is linked so far. An end of a relationship is what its reference meant among the declarations
before it, and if it meant an element there, other than a group, then it leads to that element, or
in hierarchical mode it is ambiguous by now. -/
theorem endpoint_of_declared
    (h : (declareAll { registry := { mode } } (script members)).result = .ok a) (hp : p ∈ a.pending)
    (hreference : reference ≠ ownReference) (rs : List Relationship) :
    (∀ id, Assembly.endpoint { a with graph := a.graph.appended rs } p reference = .ok id →
      (a.registry.upTo p.sequence).resolve reference p.scope = .ok id) ∧
    ∀ id, (a.registry.upTo p.sequence).resolve reference p.scope = .ok id →
      (∃ e ∈ a.graph.elements, e.id = id ∧ e.isGroup = false) →
        Assembly.endpoint { a with graph := a.graph.appended rs } p reference = .ok id ∨
          mode = .hierarchical ∧ ∃ ids, id ∈ ids ∧
            Assembly.endpoint { a with graph := a.graph.appended rs } p reference =
              .error (.of (.ambiguous reference ids) p.scope) := by
  rw [declareAll_result] at h
  have hdot := (DotFree.initial mode).run h
  have hregistered := (Registered.initial mode).run h
  have htyped := (Typed.initial mode).run (nested_script members) h
  have hmode : a.registry.mode = mode := mode_of_declared h
  rw [endpoint_appended]
  refine ⟨fun id => resolve_of_endpoint hdot hp hreference hregistered.nodup, fun id hid hend => ?_⟩
  rw [← hmode]
  exact endpoint_of_resolve hdot hp hreference htyped.forest hid hend

end Assembly

/-- A clerk who is referred to in an office that gets a clerk of its own later. -/
def office : List Declaration.ModelMember :=
  let details (id : Text) : Declaration.Details :=
    { identifier := Identifier.LocalName.ofText? id, name := id }
  [.person (details "clerk"),
    .system (details "office")
      [.relationship { source := "clerk", destination := "office" },
        .container (details "clerk") []]]

/-- The office, declared. -/
def officeDeclared : Assembly :=
  (Assembly.declareAll { registry := { mode := .hierarchical } } (script office)).state

/-- The relationship of the office. -/
def officeRelationship : Pending := officeDeclared.pending.headD default

/-- The end at the office is found, while the clerk that was meant may be either by now. -/
theorem office_endpoints :
    (Assembly.declareAll { registry := { mode := .hierarchical } } (script office)).result =
        .ok officeDeclared ∧
      officeRelationship ∈ officeDeclared.pending ∧
      ("office" ≠ ownReference ∧
        officeDeclared.endpoint officeRelationship "office" = .ok "office" ∧
        (officeDeclared.registry.upTo officeRelationship.sequence).resolve "office"
          officeRelationship.scope = .ok "office") ∧
      "clerk" ≠ ownReference ∧
      (officeDeclared.registry.upTo officeRelationship.sequence).resolve "clerk"
        officeRelationship.scope = .ok "clerk" ∧
      (officeDeclared.endpoint officeRelationship "clerk" = .ok "clerk" ∨
        Identifier.Mode.hierarchical = .hierarchical ∧ ∃ ids, ("clerk" : Text) ∈ ids ∧
          officeDeclared.endpoint officeRelationship "clerk" =
            .error (.of (.ambiguous "clerk" ids) officeRelationship.scope)) := by
  have h : (Assembly.declareAll { registry := { mode := .hierarchical } } (script office)).result =
      .ok officeDeclared := by rfl
  have hp : officeRelationship ∈ officeDeclared.pending := by decide +kernel
  have hoffice : "office" ≠ ownReference := by decide +kernel
  have hclerk : "clerk" ≠ ownReference := by decide +kernel
  have hfound : officeDeclared.endpoint officeRelationship "office" = .ok "office" := by rfl
  have hmeant : (officeDeclared.registry.upTo officeRelationship.sequence).resolve "clerk"
      officeRelationship.scope = .ok "clerk" := by rfl
  have hend : ∃ e ∈ officeDeclared.graph.elements, e.id = "clerk" ∧ e.isGroup = false := by
    decide +kernel
  have hfound' := (Assembly.endpoint_of_declared h hp hoffice []).1 "office" hfound
  have hkept := (Assembly.endpoint_of_declared h hp hclerk []).2 "clerk" hmeant hend
  exact ⟨h, hp, ⟨hoffice, hfound, hfound'⟩, hclerk, hmeant, hkept⟩

end SystemAtlas.Model
