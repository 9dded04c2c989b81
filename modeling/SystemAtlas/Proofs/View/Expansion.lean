import SystemAtlas.Proofs.Model.Traffic
import SystemAtlas.View.Catalogue

/-! # What a view shows by itself

A view of static structure shows its core and what is directly connected to it. What is directly
connected to the core is what a relationship is declared with, between the subtrees
(`shown_iff_declares`), because relationships are implied upward and the core is never above
anything else that the view can show. -/

namespace SystemAtlas

open Model (Element Graph Finished StaticType Declares)

namespace Model.Graph

variable {g : Graph} {x id : Text}

/-- The other elements that an element is directly connected to. -/
theorem mem_neighbours_iff (hne : x ≠ id) :
    x ∈ g.neighbours id ↔ g.connects id x = true ∨ g.connects x id = true := by
  simp only [neighbours, mem_distinct, List.mem_filterMap, otherEnd?, connects_iff]
  constructor
  · rintro ⟨r, hr, h⟩
    split at h
    · next hs => exact .inl ⟨r, hr, eq_of_beq hs, Option.some.inj h⟩
    · split at h
      · next hd => exact .inr ⟨r, hr, Option.some.inj h, eq_of_beq hd⟩
      · cases h
  · rintro (⟨r, hr, rfl, rfl⟩ | ⟨r, hr, rfl, rfl⟩)
    · exact ⟨r, hr, by simp⟩
    · exact ⟨r, hr, by simp [hne]⟩

end Model.Graph

namespace Focus

variable {f : Focus} {g : Graph} {subject e : Element} {x c : Text}

theorem mem_withNeighbours_iff {reach core : List Text} : x ∈ withNeighbours g reach core ↔
    x ∈ core ∨ x ∈ reach ∧ ∃ c ∈ core, x ∈ g.neighbours c := by
  simp only [withNeighbours, mem_foldl_addNew, List.mem_flatMap, List.mem_filter,
    List.contains_iff_mem]
  constructor
  · rintro (h | ⟨c, hc, hx, hr⟩)
    · exact .inl h
    · exact .inr ⟨hr, c, hc, hx⟩
  · rintro (h | ⟨hr, c, hc, hx⟩)
    · exact .inl h
    · exact .inr ⟨c, hc, hx, hr⟩

theorem shown_eq (hf : f.kind ≠ .deployment) :
    f.shown g = withNeighbours g (f.reach g) (f.core g) := by
  cases f with
  | deployment => exact absurd rfl hf
  | _ => rfl

/-- The type of the elements of a core. -/
def coreType : Focus → StaticType
  | context _ => .softwareSystem
  | containers _ => .container
  | components _ => .component
  | deployment .. => .plain

/-- A view of static structure has a subject of the graph, of the type that its kind asks for. -/
structure Fits (f : Focus) (g : Graph) : Prop where
  static : f.kind ≠ .deployment
  subject : ∃ e ∈ g.elements, f.subject = some e ∧
    e.isA (Catalogue.subjectType f.kind) = true

theorem nodup_core (hg : g.Forest) : (f.core g).Nodup := by
  have hids : ∀ p q : Element → Bool, (((g.elements.filter p).filter q).map (·.id)).Nodup :=
    fun p q => hg.nodup.sublist ((List.filter_sublist.trans List.filter_sublist).map _)
  cases f with
  | context system => exact List.nodup_singleton _
  | containers system => exact hids _ _
  | components container => exact hids _ _
  | deployment => exact List.nodup_nil

/-- The elements of a core. -/
theorem core_role (hf : f.Fits g) (hc : c ∈ f.core g) :
    ∃ e ∈ g.elements, e.id = c ∧ e.role = .static f.coreType := by
  obtain ⟨subject, hmem, hsubject, htype⟩ := hf.subject
  cases f with
  | context system =>
    cases Option.some.inj hsubject
    refine ⟨subject, hmem, (List.mem_singleton.mp hc).symm, ?_⟩
    exact (Model.isA_static_iff (t := .softwareSystem) (by decide)).mp htype
  | containers system =>
    obtain ⟨e, he, rfl⟩ := List.mem_map.mp hc
    obtain ⟨he, hisA⟩ := List.mem_filter.mp he
    exact ⟨e, (Graph.mem_children_iff.mp he).1, rfl,
      (Model.isA_static_iff (t := .container) (by decide)).mp hisA⟩
  | components container =>
    obtain ⟨e, he, rfl⟩ := List.mem_map.mp hc
    obtain ⟨he, hisA⟩ := List.mem_filter.mp he
    exact ⟨e, (Graph.mem_children_iff.mp he).1, rfl,
      (Model.isA_static_iff (t := .component) (by decide)).mp hisA⟩
  | deployment => exact absurd rfl hf.static

theorem role_of_isOutline (h : isOutline e = true) :
    e.role = .static .person ∨ e.role = .static .softwareSystem := by
  rw [isOutline, Bool.or_eq_true] at h
  exact h.imp (Model.isA_static_iff (t := .person) (by decide)).mp
    (Model.isA_static_iff (t := .softwareSystem) (by decide)).mp

/-- What a view can show outside its core is static, and of a type no deeper than the core. -/
theorem reach_role (hf : f.Fits g) (hx : x ∈ f.reach g) (hc : x ∉ f.core g) : ∃ e ∈ g.elements,
    e.id = x ∧ ∃ t : StaticType, e.role = .static t ∧ t.depth ≤ f.coreType.depth := by
  obtain ⟨e, hreach, rfl⟩ := List.mem_map.mp hx
  obtain ⟨hmem, hadmits⟩ := List.mem_filter.mp hreach
  refine ⟨e, hmem, rfl, ?_⟩
  have houtline : ∀ n, isOutline e = true → ∃ t : StaticType, e.role = .static t ∧ t.depth ≤ n := by
    intro n h
    rcases role_of_isOutline h with h | h
    · exact ⟨_, h, Nat.zero_le n⟩
    · exact ⟨_, h, Nat.zero_le n⟩
  cases f with
  | context system => exact houtline _ hadmits
  | containers system =>
    simp only [admits, Bool.and_eq_true, Bool.or_eq_true] at hadmits
    rcases hadmits.1 with h | h
    · exact houtline _ h
    · exact ⟨_, (Model.isA_static_iff (t := .container) (by decide)).mp h, Nat.le_refl _⟩
  | components container =>
    simp only [admits, Bool.and_eq_true, Bool.or_eq_true, beq_iff_eq] at hadmits
    rcases hadmits with ⟨h | h, -⟩ | ⟨h, hparent⟩
    · exact houtline _ h
    · exact ⟨_, (Model.isA_static_iff (t := .container) (by decide)).mp h, Nat.le_succ 1⟩
    · -- a component of the subject is in the core
      refine absurd (List.mem_map.mpr ⟨e, List.mem_filter.mpr ⟨?_, h⟩, rfl⟩) hc
      exact Graph.mem_children_iff.mpr ⟨hmem, hparent⟩
  | deployment => exact absurd rfl hf.static

theorem isStatic_core (hg : g.Forest) (hf : f.Fits g) (hc : c ∈ f.core g) :
    g.isStatic c = true := by
  obtain ⟨e, he, rfl, hr⟩ := core_role hf hc
  rw [hg.isStatic_of_mem he, Element.isStatic, hr]

theorem isStatic_reach (hg : g.Forest) (hf : f.Fits g) (hx : x ∈ f.reach g)
    (hc : x ∉ f.core g) : g.isStatic x = true := by
  obtain ⟨e, he, rfl, t, hr, -⟩ := reach_role hf hx hc
  rw [hg.isStatic_of_mem he, Element.isStatic, hr]

/-- Nothing of a core lies above anything else that the view can show. -/
theorem isAncestor_core_eq_false (hg : g.WellTyped) (hf : f.Fits g) (hc : c ∈ f.core g)
    (hx : x ∈ f.reach g) (hxc : x ∉ f.core g) : g.isAncestor c x = false := by
  obtain ⟨p, hp, rfl, hpr⟩ := core_role hf hc
  obtain ⟨e, he, rfl, t, ht, hle⟩ := reach_role hf hx hxc
  rw [Bool.eq_false_iff]
  intro h
  obtain ⟨hwithin, hne⟩ := (Graph.isAncestor_iff hg.forest).mp h
  rcases hg.depth_lt_of_within hp hpr he ht hwithin with rfl | hlt
  · exact hne rfl
  · exact absurd hlt (Nat.not_lt.mpr hle)

/-- What can be shown beside a core element, and is not above it, is connected to it just if a
relationship between their subtrees is declared. -/
theorem mem_neighbours_iff_declares {a : Model.Assembly} {m : Finished} (ha : a.graph.WellTyped)
    (hdeclared : ∀ r ∈ a.graph.relationships, r.implied = false) (h : a.finish = .ok m)
    (hf : f.Fits m.graph) (hc : c ∈ f.core m.graph) (hx : x ∈ f.reach m.graph)
    (hxc : x ∉ f.core m.graph) (habove : m.graph.isAncestor x c = false) :
    x ∈ m.graph.neighbours c ↔ Declares m.graph x c ∨ Declares m.graph c x := by
  have hg := ha.of_elements_eq (Model.Assembly.elements_of_finish h)
  have hne : x ≠ c := fun he => hxc (he ▸ hc)
  have hbelow := isAncestor_core_eq_false hg hf hc hx hxc
  have hcstatic := isStatic_core hg.forest hf hc
  have hxstatic := isStatic_reach hg.forest hf hx hxc
  have hxc : m.graph.mayImply x c = true := by
    simp only [Graph.mayImply, habove, hbelow, bne_iff_ne.mpr hne, Bool.not_false, Bool.and_self]
  have hcx : m.graph.mayImply c x = true := by
    simp only [Graph.mayImply, habove, hbelow, bne_iff_ne.mpr hne.symm, Bool.not_false,
      Bool.and_self]
  rw [Graph.mem_neighbours_iff hne, or_comm,
    Model.connects_static_of_finish ha hdeclared h hxstatic hcstatic hxc,
    Model.connects_static_of_finish ha hdeclared h hcstatic hxstatic hcx]

/-- A view of static structure shows by itself its core, and of what else it can show and is not
above the core, just what a relationship between static elements is declared with, from subtree to
subtree in one direction or the other. -/
theorem shown_iff_declares {mode : Identifier.Mode} {members : List Declaration.ModelMember}
    {m : Finished} (h : Model.assemble mode members = .ok m) (hf : f.Fits m.graph) :
    f.core m.graph ⊆ f.shown m.graph ∧
      (∀ x ∈ f.reach m.graph, x ∉ f.core m.graph →
        (∀ c ∈ f.core m.graph, m.graph.isAncestor x c = false) →
        (x ∈ f.shown m.graph ↔
          ∃ c ∈ f.core m.graph, Declares m.graph x c ∨ Declares m.graph c x)) ∧
      (∀ x ∈ f.shown m.graph, x ∈ f.core m.graph ∨ x ∈ f.reach m.graph) ∧
      (f.shown m.graph).Nodup := by
  obtain ⟨a, ha, hm⟩ := Model.assemble_eq_ok_iff.mp h
  obtain ⟨htyped, hdeclared⟩ := Model.linked_spec ha
  have hg := htyped.of_elements_eq (Model.Assembly.elements_of_finish hm)
  rw [shown_eq hf.static]
  refine ⟨fun c hc => mem_withNeighbours_iff.mpr (.inl hc), fun x hx hxc habove => ?_,
    fun x hx => (mem_withNeighbours_iff.mp hx).imp_right (·.1),
    nodup_foldl_addNew (nodup_core hg.forest) _⟩
  have hneighbour : ∀ c ∈ f.core m.graph,
      (x ∈ m.graph.neighbours c ↔ Declares m.graph x c ∨ Declares m.graph c x) :=
    fun c hc => mem_neighbours_iff_declares htyped hdeclared hm hf hc hx hxc (habove c hc)
  rw [mem_withNeighbours_iff]
  constructor
  · rintro (h | ⟨-, c, hc, hn⟩)
    · exact absurd h hxc
    · exact ⟨c, hc, (hneighbour c hc).mp hn⟩
  · rintro ⟨c, hc, hd⟩
    exact .inr ⟨hx, c, hc, (hneighbour c hc).mpr hd⟩

theorem shop_context_shows_customer :
    Model.assemble .flat Model.shop = .ok Model.shopModel ∧
      (context (Model.shopElement "shop")).Fits Model.shopModel.graph ∧
      (("customer" : Text) ∈ (context (Model.shopElement "shop")).shown Model.shopModel.graph ↔
        ∃ c ∈ (context (Model.shopElement "shop")).core Model.shopModel.graph,
          Declares Model.shopModel.graph "customer" c ∨
            Declares Model.shopModel.graph c "customer") := by
  have h : Model.assemble .flat Model.shop = .ok Model.shopModel := by rfl
  have hf : (context (Model.shopElement "shop")).Fits Model.shopModel.graph :=
    ⟨by decide, Model.shopElement "shop", by decide +kernel, rfl, by decide +kernel⟩
  refine ⟨h, hf, (shown_iff_declares h hf).2.1 "customer" ?_ ?_ ?_⟩ <;> decide +kernel

end Focus

end SystemAtlas
