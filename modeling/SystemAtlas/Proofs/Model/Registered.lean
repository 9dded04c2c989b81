import SystemAtlas.Proofs.Model.Naming

/-! # Declarations and what they make

Every declaration makes one element or one environment, which has its id. So the ids of elements and
environments are those of the registry, and all of them differ (`Registered.step`). -/

namespace SystemAtlas.Model

open Identifier (Declared Registry)

namespace Assembly

variable {a a' : Assembly} {e : Event} {name id : Text} {make : Text → Element} {d : Declared}

/-- The element that an entry makes has the id it is made with. -/
theorem Makes.id_eq (h : Makes a e name make) : (make id).id = id := by
  cases h <;> rfl

/-- The ids of the registry are those of the elements and environments, and no two are the same. -/
structure Registered (a : Assembly) : Prop where
  nodup : a.registry.ids.Nodup
  ids : (a.graph.elements.map (·.id) ++ a.graph.environments.map (·.id)).Perm a.registry.ids

theorem Registered.initial (mode : Identifier.Mode) : Registered { registry := { mode } } :=
  ⟨List.nodup_nil, .nil⟩

theorem Registered.step (ha : a.Registered) (h : Step a e a') : a'.Registered := by
  cases h with
  | leave => exact ⟨ha.nodup, ha.ids⟩
  | relate r => exact ⟨ha.nodup, ha.ids⟩
  | @element e name make d id g hm hd hid hfree hg =>
    obtain ⟨-, -, -, rfl⟩ := Graph.addElement_eq_ok_iff.mp hg
    refine ⟨hfree.nodup_ids ha.nodup, ?_⟩
    simp only [named, Registry.ids_add, List.map_append, List.map_cons, List.map_nil, hm.id_eq, hid]
    -- the new id goes behind those of the environments
    rw [List.append_assoc]
    refine (List.perm_append_comm.append_left _).trans ?_
    rw [← List.append_assoc]
    exact ha.ids.append_right _
  | @environment n d id g hd hid hfree hg =>
    obtain ⟨-, -, rfl⟩ := Graph.addEnvironment_eq_ok_iff.mp hg
    refine ⟨hfree.nodup_ids ha.nodup, ?_⟩
    simp only [named, Registry.ids_add, List.map_append, List.map_cons, List.map_nil, hid,
      ← List.append_assoc]
    exact ha.ids.append_right _

theorem Registered.run {events : List Event} (ha : a.Registered)
    (h : events.foldlM declare a = .ok a') : a'.Registered :=
  foldlM_invariant (fun _ _ _ _ hs hstep => hs.step (declare_eq_ok_iff.mp hstep)) ha h

theorem Registered.contains_of_mem {q : Element} (ha : a.Registered)
    (hq : q ∈ a.graph.elements) : a.registry.contains q.id = true := by
  rw [Registry.contains, List.contains_iff_mem, ← ha.ids.mem_iff]
  exact List.mem_append_left _ (List.mem_map_of_mem hq)

end Assembly

end SystemAtlas.Model
