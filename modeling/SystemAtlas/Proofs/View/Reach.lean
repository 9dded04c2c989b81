import SystemAtlas.Proofs.View.Expansion

/-! # What a view can show

Whatever enters a view is in reach of its focus: what it shows by itself (`shown_subset_reach`),
what a reference names, and in a deployment the hosts of that, which are nodes of the same
environment (`mem_reach_of_ancestor`). -/

namespace SystemAtlas

open Model (Element Environment Graph)

namespace Model.Graph

variable {g : Graph} {e p q : Element} {v : Text}

/-- What lives in an environment lies below nodes of that environment only. -/
theorem Fits.role_parent (h : g.Fits e) (hg : g.Forest) (hp : p ∈ g.elements)
    (hparent : e.parent = some p.id) (hv : e.environment? = some v) :
    ∃ n, p.role = .deployed v (.node n) := by
  have hroot : e.parent ≠ none := by rw [hparent]; exact Option.some_ne_none _
  have hsame : ∀ {q : Element}, g.Below q e → q = p := fun hq => hq.eq_of_parent hg hp hparent
  have henvironment : ∀ {w : Text} {part : DeployedPart}, e.role = .deployed w part → w = v := by
    intro w part hr
    rw [Element.environment?, hr] at hv
    exact Option.some.inj hv
  cases h with
  | person _ hn => exact absurd hn hroot
  | system _ hn => exact absurd hn hroot
  | group _ hn => exact absurd hn hroot
  | rootNode _ hn => exact absurd hn hroot
  | container hr => rw [Element.environment?, hr] at hv; cases hv
  | component hr => rw [Element.environment?, hr] at hv; cases hv
  | node hr hb ht => cases hsame hb; cases henvironment hr; exact ⟨_, ht⟩
  | infrastructure hr hb ht => cases hsame hb; cases henvironment hr; exact ⟨_, ht⟩
  | occurrence hr hb ht => cases hsame hb; cases henvironment hr; exact ⟨_, ht⟩

/-- The hosts of what lives in an environment are nodes of it. -/
theorem WellTyped.role_of_ancestor (hg : g.WellTyped) (he : e ∈ g.elements)
    (hv : e.environment? = some v) (hq : q ∈ g.ancestors e.id) :
    q ∈ g.elements ∧ ∃ n, q.role = .deployed v (.node n) := by
  revert hv hq
  refine hg.forest.induct (motive := fun e => e.environment? = some v → q ∈ g.ancestors e.id →
    q ∈ g.elements ∧ ∃ n, q.role = .deployed v (.node n)) ?_ ?_ e he
  · intro e he hp _ hq
    rw [ancestors_of_root hg.forest he hp] at hq
    cases hq
  · intro e he p hp hparent ih hv hq
    obtain ⟨n, hr⟩ := (hg.fits e he).role_parent hg.forest hp hparent hv
    rw [ancestors_of_parent hg.forest he hp hparent] at hq
    rcases List.mem_cons.mp hq with rfl | hq
    · exact ⟨hp, n, hr⟩
    · exact ih (by rw [Element.environment?, hr]) hq

end Model.Graph

namespace Focus

variable {f : Focus} {g : Graph} {e p s : Element} {x : Text}

theorem mem_reach_iff_exists : x ∈ f.reach g ↔ ∃ e ∈ g.elements, f.admits e = true ∧ e.id = x := by
  simp only [reach, members, List.mem_map, List.mem_filter, and_assoc]

/-- A focus is of what the graph has, and its subject is of the type that its kind asks for. -/
structure Of (g : Graph) (f : Focus) : Prop where
  subject : ∀ e, f.subject = some e → e ∈ g.elements ∧
    e.isA (Catalogue.subjectType f.kind) = true
  environment : ∀ v, f.environment = some v → v ∈ g.environments

/-- Elements of different types have different ids. -/
theorem id_ne_of_role (hg : g.Forest) (he : e ∈ g.elements) (hp : p ∈ g.elements)
    (h : e.role ≠ p.role) : e.id ≠ p.id :=
  fun hid => h (congrArg (·.role) (hg.eq_of_id he hp hid))

/-- The core of a view is in reach. -/
theorem core_subset_reach (hg : g.Forest) (hf : f.Of g) : f.core g ⊆ f.reach g := by
  intro x hx
  cases f with
  | context system =>
    obtain ⟨hmem, htype⟩ := hf.subject system rfl
    have hisA : system.isA .softwareSystem = true := htype
    refine mem_reach_iff_exists.mpr ⟨system, hmem, ?_, (List.mem_singleton.mp hx).symm⟩
    simp only [admits, isOutline, hisA, Bool.or_true]
  | containers system =>
    obtain ⟨hmem, htype⟩ := hf.subject system rfl
    obtain ⟨e, he, rfl⟩ := List.mem_map.mp hx
    obtain ⟨he, hisA⟩ := List.mem_filter.mp he
    have hmem' := (Graph.mem_children_iff.mp he).1
    have hrole := (Model.isA_static_iff (t := .container) (by decide)).mp hisA
    have hsystem := (Model.isA_static_iff (t := .softwareSystem) (by decide)).mp htype
    have hne : e.id ≠ system.id := id_ne_of_role hg hmem' hmem (by simp [hrole, hsystem])
    refine mem_reach_iff_exists.mpr ⟨e, hmem', ?_, rfl⟩
    simp only [admits, hisA, Bool.or_true, Bool.true_and, bne_iff_ne]
    exact hne
  | components container =>
    obtain ⟨e, he, rfl⟩ := List.mem_map.mp hx
    obtain ⟨he, hisA⟩ := List.mem_filter.mp he
    obtain ⟨hmem, hparent⟩ := Graph.mem_children_iff.mp he
    refine mem_reach_iff_exists.mpr ⟨e, hmem, ?_, rfl⟩
    simp only [admits, hisA, hparent, beq_self_eq_true, Bool.and_self, Bool.or_true]
  | deployment => cases hx

/-- What a view shows by itself is in reach. -/
theorem shown_subset_reach (hg : g.Forest) (hf : f.Of g) : f.shown g ⊆ f.reach g := by
  intro x hx
  have hstatic : x ∈ withNeighbours g (f.reach g) (f.core g) → x ∈ f.reach g := fun h =>
    (mem_withNeighbours_iff.mp h).elim (fun hc => core_subset_reach hg hf hc) (·.1)
  cases f with
  | context | containers | components => exact hstatic hx
  | deployment system environment =>
    cases system with
    | none => exact hx
    | some system =>
      obtain ⟨e, he, rfl⟩ := List.mem_map.mp hx
      exact List.mem_map_of_mem (List.mem_filter.mp he).1

/-- The hosts of what a deployment can show are in reach. -/
theorem mem_reach_of_ancestor (hg : g.WellTyped) (hk : f.kind = .deployment) (he : e ∈ g.elements)
    (ha : f.admits e = true) (hp : p ∈ g.ancestors e.id) : p.id ∈ f.reach g := by
  cases f with
  | deployment system environment =>
    simp only [admits, Bool.and_eq_true, beq_iff_eq] at ha
    obtain ⟨hmem, n, hr⟩ := hg.role_of_ancestor he ha.1 hp
    refine mem_reach_iff_exists.mpr ⟨p, hmem, ?_, rfl⟩
    simp only [admits, Element.environment?, Element.isGroup, Element.isA, Element.type, hr,
      beq_self_eq_true, Bool.true_and]
    rfl
  | _ => cases hk

/-- A view of containers or components cannot show its subject. -/
theorem subject_notMem_reach (hg : g.Forest) (hf : f.Of g) (hs : f.subject = some s)
    (hk : f.kind = .container ∨ f.kind = .component) : s.id ∉ f.reach g := by
  intro h
  obtain ⟨e, he, ha, hid⟩ := mem_reach_iff_exists.mp h
  obtain ⟨hmem, htype⟩ := hf.subject s hs
  cases f with
  | containers system =>
    cases Option.some.inj hs
    simp only [admits, hid, bne_self_eq_false, Bool.and_false] at ha
    cases ha
  | components container =>
    cases Option.some.inj hs
    simp only [admits, hid, bne_self_eq_false, Bool.and_false, Bool.false_or,
      Bool.and_eq_true] at ha
    have hrole := (Model.isA_static_iff (t := .component) (by decide)).mp ha.1
    have hcontainer := (Model.isA_static_iff (t := .container) (by decide)).mp htype
    exact id_ne_of_role hg he hmem (by simp [hrole, hcontainer]) hid
  | context => rcases hk with hk | hk <;> cases hk
  | deployment => rcases hk with hk | hk <;> cases hk

/-- A deployment can show what lives in its environment, but no groups. -/
theorem environment_of_mem_reach (hk : f.kind = .deployment) (hx : x ∈ f.reach g) :
    ∃ e ∈ g.elements, e.id = x ∧ e.environment?.isSome = true ∧
      e.environment? = f.environment.map (·.id) ∧ e.isGroup = false := by
  obtain ⟨e, he, ha, hid⟩ := mem_reach_iff_exists.mp hx
  cases f with
  | deployment system environment =>
    simp only [admits, Bool.and_eq_true, beq_iff_eq, Bool.not_eq_true'] at ha
    exact ⟨e, he, hid, by rw [ha.1]; rfl, ha.1, ha.2⟩
  | _ => cases hk

end Focus

end SystemAtlas
