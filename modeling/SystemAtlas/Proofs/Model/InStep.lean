import SystemAtlas.Proofs.Model.Refusal

/-! # Registry and graph in step

A declaration is named in the registry and what it makes is added to the graph, one after the other.
The second never fails after the first (`exists_declare_of_names`), so a failure leaves neither of
them ahead of the other. -/

namespace SystemAtlas.Model

open Failure (CausedBy)
open Identifier (Registry)

/-- The ids of a registry are those of the elements and those of the environments of a graph, and
none is both. -/
structure InStep (r : Registry) (g : Graph) : Prop where
  ids : ∀ id, r.contains id = true ↔ g.contains id = true ∨ g.IsEnvironment id
  apart : ∀ id, ¬(g.contains id = true ∧ g.IsEnvironment id)

namespace Assembly

variable {a b : Assembly} {blocks : List Block} {e : Event}

theorem Registered.inStep {g : Graph} (ha : a.Registered) (he : g.elements = a.graph.elements)
    (hv : g.environments = a.graph.environments) : InStep a.registry g := by
  have henvironment : ∀ id, g.IsEnvironment id ↔ id ∈ a.graph.environments.map (·.id) :=
    fun id => by rw [Graph.IsEnvironment, List.mem_map, hv]
  refine ⟨fun id => ?_, fun id => ?_⟩
  · rw [Registry.contains, List.contains_iff_mem, ← ha.ids.mem_iff, List.mem_append, henvironment,
      Graph.contains_iff_mem, he]
  · rw [Graph.contains_iff_mem, he, henvironment]
    rintro ⟨hfirst, hsecond⟩
    exact (List.nodup_append.mp (ha.ids.nodup_iff.mpr ha.nodup)).2.2 id hfirst id hsecond rfl

/-- An entry gets as far as naming what it declares: all it refers to is there, and `b` is `a` with
the name in its registry and scope. -/
inductive Names (a : Assembly) : Event → Assembly → Prop where
  | element {e : Event} {name id : Text} {make : Text → Element} {b : Assembly} :
    Makes a e name make → a.identify e.identifier name = .ok (id, b) → Names a e b
  | environment {n : Declaration.Named} {id : Text} {b : Assembly} :
    a.identify n.identifier n.name = .ok (id, b) → Names a (.enter (.environment n)) b

/-- An entry that names what it declares is taken, and does nothing else to the registry. -/
theorem Going.exists_declare_of_names (ha : a.Going) (ht : Typed blocks a) (hs : Stands blocks e)
    (h : Names a e b) : ∃ a', a.declare e = .ok a' ∧ a'.registry = b.registry := by
  cases h with
  | element hm hb =>
    obtain ⟨hfree, -, rfl⟩ := identify_eq_ok_iff.mp hb
    obtain ⟨g, hg⟩ := ha.exists_addElement ht hs hm hfree
    exact ⟨_, declare_eq_ok_iff.mpr (.element hm rfl rfl hfree hg), rfl⟩
  | @environment n _ _ hb =>
    obtain ⟨hfree, -, rfl⟩ := identify_eq_ok_iff.mp hb
    obtain ⟨g, hg⟩ := ha.exists_addEnvironment hfree n.name
    exact ⟨_, declare_eq_ok_iff.mpr (.environment rfl rfl hfree hg), rfl⟩

theorem Typed.exists_stands {before after : List Event} (ha : Typed blocks a)
    (hn : Nested blocks (before ++ e :: after)) (h : before.foldlM declare a = .ok b) :
    ∃ blocks', Typed blocks' b ∧ Stands blocks' e := by
  induction before generalizing a blocks with
  | nil =>
    cases Except.ok.inj h
    cases hn with
    | cons hs _ => exact ⟨blocks, ha, hs⟩
  | cons x before ih =>
    obtain ⟨m, hm, h⟩ := foldlM_cons_eq_ok_iff.mp h
    cases hn with
    | cons hs hn => exact ih (ha.step hs (declare_eq_ok_iff.mp hm)) hn h

theorem Going.state_declareAll (ha : a.Going) (events : List Event) :
    (a.declareAll events).state.Going :=
  Progress.state_run (fun _ _ _ ha h => ha.step (declare_eq_ok_iff.mp h)) ha

end Assembly

/-- Registry and graph are in step after every entry of a script, whether it was taken or failed,
because an entry that gets as far as naming something is taken. So declaring fails because of a
reference or a taken id only, not because of a name or of what the graph has. Linking fails because
of an end or a relationship that is there already only, so everything is found in the registry. What
is linked can always be finished, and then registry and graph are in step still. -/
theorem registry_in_step (mode : Identifier.Mode) (members : List Declaration.ModelMember) :
    (∀ n, let p := Assembly.declareAll { registry := { mode } } ((script members).take n)
      InStep p.state.registry p.state.graph ∧
      ∀ e b, p.failure = none → (script members)[n]? = some e → p.state.Names e b →
        ∃ a, p.state.declare e = .ok a ∧ a.registry = b.registry) ∧
    let declared := Assembly.declareAll { registry := { mode } } (script members)
    FailsAs (CausedBy Cause.IsDeclaring) declared.result ∧
    ∀ a, declared.result = .ok a → FailsAs (CausedBy Cause.IsLinking) a.linkAll.result ∧
      ∀ b, a.linkAll.result = .ok b → ∃ f, b.finish = .ok f ∧ InStep f.registry f.graph := by
  have hnested := nested_script members
  have hinitial := Assembly.Going.initial mode
  refine ⟨fun n => ⟨?_, fun e b hnone he hb => ?_⟩, ?_, fun a ha => ⟨?_, fun b hb => ?_⟩⟩
  · exact (hinitial.state_declareAll _).registered.inStep rfl rfl
  · have hgoing := hinitial.state_declareAll ((script members).take n)
    -- everything before the entry was taken, so the entry stands where it may
    have hrun := Progress.result_eq_ok hnone
    rw [Assembly.declareAll_result] at hrun
    obtain ⟨hlt, rfl⟩ := List.getElem?_eq_some_iff.mp he
    rw [← List.take_append_drop n (script members), List.drop_eq_getElem_cons hlt] at hnested
    obtain ⟨blocks, ht, hs⟩ := (Assembly.Typed.initial mode).exists_stands hnested hrun
    exact hgoing.exists_declare_of_names ht hs hb
  · rw [Assembly.declareAll_result]
    exact hinitial.run_failsAs (.initial mode) hnested
  · rw [Assembly.declareAll_result] at ha
    rw [Assembly.linkAll_result]
    exact (Assembly.going_of_declared ha).linkAll_failsAs
      ((Assembly.Kept.initial mode).run (.initial mode) hnested ha)
  · rw [Assembly.declareAll_result] at ha
    rw [Assembly.linkAll_result] at hb
    have hlinked := linked_eq_ok_iff.mpr ⟨a, ha, hb⟩
    obtain ⟨f, hf⟩ := exists_finish_of_linked hlinked
    refine ⟨f, hf, ?_⟩
    rw [Assembly.registry_of_finish hf]
    exact (Assembly.going_of_linked hlinked).registered.inStep (Assembly.elements_of_finish hf)
      (Assembly.environments_of_finish hf)

end SystemAtlas.Model
