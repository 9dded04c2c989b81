import SystemAtlas.Proofs.Model.Linking
import SystemAtlas.Proofs.Model.Registered

/-! # What declaring keeps

While a model is declared, every element fits what stands before it, the instances of a definition
in an environment count up from one, and an element is only placed in an environment that is there
(`Kept.step`). A relationship is put aside in the block of an element that may be one of its
ends. -/

namespace SystemAtlas.Model

/-- The number of an instance. -/
def Element.number? (e : Element) : Option Int :=
  match e.role with
  | .deployed _ (.occurrence _ _ _ number) => some number
  | _ => none

namespace Graph

variable {g g' : Graph} {e : Element} {id definition v : Text}

/-! ## Order -/

/-- Every element fits what stands before it. -/
def Ordered (g : Graph) : Prop :=
  ∀ before e after, g.elements = before ++ e :: after → Fits { elements := before } e

theorem Ordered.append (hg : g.Ordered) (he : g.Fits e) :
    Ordered { g with elements := g.elements ++ [e] } := by
  intro before x after h
  rcases cons_of_concat h with ⟨rfl, rfl⟩ | ⟨rest, hrest⟩
  · exact he.mono (List.Subset.refl _)
  · exact hg before x rest hrest

/-! ## Numbers of instances -/

/-- The instances of a definition in an environment. -/
def instancesIn (g : Graph) (definition v : Text) : List Element :=
  (g.instancesOf definition).filter (·.environment? == some v)

/-- The instances of every definition in every environment have the numbers from one on. -/
def Counted (g : Graph) : Prop := ∀ definition v,
  (g.instancesIn definition v).map (·.number?) =
    (List.range (g.instancesIn definition v).length).map fun (n : Nat) => some ((n : Int) + 1)

theorem instancesIn_append (h : e.definition? = some definition ∧ e.environment? = some v) :
    ({ g with elements := g.elements ++ [e] } : Graph).instancesIn definition v =
      g.instancesIn definition v ++ [e] := by
  simp [instancesIn, instancesOf, h.1, h.2]

theorem instancesIn_append_of_not
    (h : ¬(e.definition? = some definition ∧ e.environment? = some v)) :
    ({ g with elements := g.elements ++ [e] } : Graph).instancesIn definition v =
      g.instancesIn definition v := by
  simp only [instancesIn, instancesOf, List.filter_append, List.filter_filter]
  rw [List.append_right_eq_self, List.filter_eq_nil_iff]
  intro x hx
  rw [List.mem_singleton.mp hx, Bool.and_eq_true, beq_iff_eq, beq_iff_eq, and_comm]
  exact h

theorem Counted.append (hg : g.Counted) (he : ∀ definition v, e.definition? = some definition →
      e.environment? = some v →
        e.number? = some (((g.instancesIn definition v).length : Int) + 1)) :
    Counted { g with elements := g.elements ++ [e] } := by
  intro definition v
  by_cases h : e.definition? = some definition ∧ e.environment? = some v
  · rw [instancesIn_append h, List.map_append, List.length_append, List.length_singleton,
      List.range_succ, List.map_append, hg]
    exact congrArg (_ ++ [·]) (he definition v h.1 h.2)
  · rw [instancesIn_append_of_not h]
    exact hg definition v

/-! ## Environments -/

/-- An id is that of an environment. -/
def IsEnvironment (g : Graph) (v : Text) : Prop := ∃ x ∈ g.environments, x.id = v

/-- Every element that lives in an environment lives in one of the graph. -/
def Situated (g : Graph) : Prop :=
  ∀ e ∈ g.elements, ∀ v, e.environment? = some v → g.IsEnvironment v

theorem Situated.append (hg : g.Situated)
    (he : ∀ v, e.environment? = some v → g.IsEnvironment v) :
    Situated { g with elements := g.elements ++ [e] } := by
  intro x hx
  rcases List.mem_append.mp hx with hx | hx
  · exact hg x hx
  · rw [List.mem_singleton.mp hx]
    exact he

/-! ## Ends -/

/-- An id is that of an element which relationships may lead to. -/
def IsEnd (g : Graph) (id : Text) : Prop := ∃ e ∈ g.elements, e.id = id ∧ e.isGroup = false

theorem IsEnd.mem (h : g.IsEnd id) : id ∈ g.elements.map (·.id) := by
  obtain ⟨e, he, rfl, -⟩ := h
  exact List.mem_map_of_mem he

theorem IsEnd.mono (h : g.IsEnd id) (hsub : g.elements ⊆ g'.elements) : g'.IsEnd id := by
  obtain ⟨e, he, h⟩ := h
  exact ⟨e, hsub he, h⟩

end Graph

namespace Assembly

variable {a a' : Assembly} {blocks : List Block} {e : Event} {name id v : Text}
  {make : Text → Element}

/-- What declaring keeps. -/
structure Kept (a : Assembly) : Prop where
  ordered : a.graph.Ordered
  counted : a.graph.Counted
  situated : a.graph.Situated
  environments : ∀ f ∈ a.scope.frames, ∀ v, f.environment = some v → a.graph.IsEnvironment v
  owners : ∀ p ∈ a.pending, ∀ id, p.owner = some id → a.graph.IsEnd id

theorem Kept.initial (mode : Identifier.Mode) : Kept { registry := { mode } } where
  ordered before e after h := absurd h.symm (by simp)
  counted _ _ := rfl
  situated _ h := absurd h List.not_mem_nil
  environments f hf v hv := by
    rw [List.mem_singleton.mp hf] at hv
    cases hv
  owners _ h := absurd h List.not_mem_nil

/-! ## What an entry makes -/

theorem isGroup_of_static {q : Element} {t : StaticType} (h : q.role = .static t) :
    q.isGroup = false := by
  rw [← Bool.not_eq_true, isGroup_iff, h]
  rintro ⟨_, hr⟩
  cases hr

theorem isGroup_of_node {q : Element} {n : Int} (h : q.role = .deployed v (.node n)) :
    q.isGroup = false := by
  rw [← Bool.not_eq_true, isGroup_iff, h]
  rintro ⟨_, hr⟩
  cases hr

/-- The element of a block may be an end of the relationships in it. -/
theorem Typed.isEnd (ha : Typed blocks a) (h : a.scope.element = some id) : a.graph.IsEnd id := by
  have hframes := ha.frames
  generalize hfs : a.scope.blocks = fs at hframes
  have hhead : ∀ {f fs'} {q : Element}, fs = f :: fs' → f.element = some q.id → q.id = id :=
    fun hcons he => Option.some.inj
      (he.symm.trans ((element_of_blocks (hfs.trans hcons)).symm.trans h))
  cases hframes with
  | model =>
    rw [Scope.element, Scope.current, hfs, List.headD_nil, ha.workspace.1] at h
    cases h
  | system hq hr he _ => exact ⟨_, hq, hhead rfl he, isGroup_of_static hr⟩
  | container _ hq hr he _ => exact ⟨_, hq, hhead rfl he, isGroup_of_static hr⟩
  | environment he _ =>
    rw [element_of_blocks hfs, he] at h
    cases h
  | node _ _ hq hr he _ => exact ⟨_, hq, hhead rfl he, isGroup_of_node hr⟩

/-- What an entry places in an environment is placed in that of the blocks around it. -/
theorem Makes.environment_eq (ha : Typed blocks a) (hs : Stands blocks e)
    (hm : Makes a e name make) (h : (make id).environment? = some v) :
    a.scope.environment = some v := by
  have haround : ∀ w, a.scope.blocks.findSome? (·.environment) = some w →
      some a.environment = some v → a.scope.environment = some v := by
    intro w hw hv
    have hw' := environment_of_blocks hw
    rw [← hv, Assembly.environment_eq hw']
    exact hw'
  cases hm with
  | person d => cases h
  | system d => cases h
  | container d => cases h
  | component d => cases h
  | node d n =>
    cases hs with
    | node _ _ hb =>
      obtain ⟨w, hw, -⟩ := ha.deploys hb
      exact haround w hw h
  | infrastructure d =>
    cases hs with
    | infrastructure _ _ _ _ =>
      obtain ⟨_, _, w, _, -, -, hw⟩ := ha.node
      exact haround w hw h
  | group n =>
    cases hs with
    | group _ _ =>
      obtain ⟨w, hw, -⟩ := ha.deploys (.environment _)
      exact haround w hw h
  | occurrence =>
    cases hs with
    | occurrence _ _ _ _ =>
      obtain ⟨_, _, w, _, -, -, hw⟩ := ha.node
      exact haround w hw h

/-- An instance has the number after those of its definition in the same environment. -/
theorem Makes.number_eq {definition : Text} (hm : Makes a e name make)
    (hd : (make id).definition? = some definition) (hv : (make id).environment? = some v) :
    (make id).number? = some (((a.graph.instancesIn definition v).length : Int) + 1) := by
  cases hm with
  | occurrence =>
    cases Option.some.inj hd
    cases Option.some.inj hv
    rfl
  | _ => cases hd

/-! ## Steps -/

theorem exists_of_environment (h : a.scope.environment = some v) :
    ∃ f ∈ a.scope.frames, f.environment = some v := List.exists_of_findSome?_eq_some h

theorem Kept.frames_named {d : Identifier.Declared} (ha : a.Kept) {f : Scope.Frame}
    (hf : f ∈ (a.named d).scope.frames) (hv : f.environment = some v) :
    a.graph.IsEnvironment v := by
  obtain ⟨f', hf', declared, rfl⟩ := exists_of_mem_record hf
  exact ha.environments f' hf' v hv

theorem Kept.step (ha : a.Kept) (ht : Typed blocks a) (hs : Stands blocks e) (h : Step a e a') :
    a'.Kept := by
  cases h with
  | leave =>
    refine ⟨ha.ordered, ha.counted, ha.situated, fun f hf => ha.environments f ?_, ha.owners⟩
    simp only [Scope.frames, Scope.leave, List.mem_append] at hf ⊢
    exact hf.imp_left List.mem_of_mem_tail
  | relate r =>
    refine ⟨ha.ordered, ha.counted, ha.situated, ha.environments, fun p hp id hid => ?_⟩
    rcases List.mem_append.mp hp with hp | hp
    · exact ha.owners p hp id hid
    · rw [List.mem_singleton.mp hp] at hid
      exact ht.isEnd hid
  | @element e name make d id g hm hd hid hfree hg =>
    obtain ⟨-, -, -, rfl⟩ := Graph.addElement_eq_ok_iff.mp hg
    refine ⟨ha.ordered.append (hm.fits ht hs), ha.counted.append fun _ _ => hm.number_eq,
      ha.situated.append fun v hv => ?_, fun f hf v hv => ?_, fun p hp id hid =>
        (ha.owners p hp id hid).mono (List.subset_append_left _ _)⟩
    · obtain ⟨f, hf, hfv⟩ := exists_of_environment (hm.environment_eq ht hs hv)
      exact ha.environments f hf v hfv
    · cases e with
      | enter block =>
        rcases List.mem_cons.mp hf with rfl | hf
        · cases hv
        · exact ha.frames_named hf hv
      | _ => exact ha.frames_named hf hv
  | @environment n d id g hd hid hfree hg =>
    obtain ⟨-, -, rfl⟩ := Graph.addEnvironment_eq_ok_iff.mp hg
    have hmono : ∀ v, a.graph.IsEnvironment v → Graph.IsEnvironment
        { a.graph with environments := a.graph.environments ++ [⟨id, n.name⟩] } v := by
      rintro v ⟨x, hx, hv⟩
      exact ⟨x, List.mem_append_left _ hx, hv⟩
    refine ⟨ha.ordered, ha.counted, fun x hx v hv => hmono v (ha.situated x hx v hv),
      fun f hf v hv => ?_, ha.owners⟩
    rcases List.mem_cons.mp hf with rfl | hf
    · cases hv
      exact ⟨_, List.mem_append_right _ (List.mem_singleton_self _), rfl⟩
    · exact hmono v (ha.frames_named hf hv)

/-- What declaring keeps, it keeps along a nested script. -/
theorem Kept.run {events : List Event} (ha : a.Kept) (ht : Typed blocks a)
    (hn : Nested blocks events) (h : events.foldlM declare a = .ok a') : a'.Kept := by
  induction hn generalizing a with
  | nil blocks => exact Except.ok.inj h ▸ ha
  | cons hs _ ih =>
    obtain ⟨m, hm, h⟩ := foldlM_cons_eq_ok_iff.mp h
    have hstep := declare_eq_ok_iff.mp hm
    exact ih (ha.step ht hs hstep) (ht.step hs hstep) h

end Assembly

end SystemAtlas.Model
