import Mathlib.Data.List.Induction
import SystemAtlas.Model.Indexed
import SystemAtlas.Proofs.Model.Store

/-! # What an indexed graph keeps

An indexed graph that calls have left keeps a graph that additions have grown, with indexes as they
follow from it (`exists_grown`). So a call comes to the same on both, and one that is refused leaves
the indexed graph as it was (`edit_of`). Its relationships are stored in order (`Stored`). -/

namespace SystemAtlas.Model

namespace Indexed

variable {α : Type} {a b : α} {g : Graph} {x : Except Failure Graph} {f : Failure} {s : Indexed}

/-- The indexed graph that keeps a graph: every id under its parent, and the first relationship
under its key. -/
def of (g : Graph) : Indexed :=
  { g with
    childIds := g.elements.foldl (fun t e => t.push e.parent e.id) {}
    byKey := g.relationships.foldl (fun t r => t.setDefault r.key r) {} }

@[simp] theorem toGraph_of (g : Graph) : (of g).toGraph = g := rfl

theorem of_addElement (g : Graph) (e : Element) :
    of { g with elements := g.elements ++ [e] } =
      { of g with
        elements := g.elements ++ [e]
        childIds := (of g).childIds.push e.parent e.id } := by
  simp only [of, List.foldl_append, List.foldl_cons, List.foldl_nil]

theorem of_addRelationship (g : Graph) (r : Relationship) :
    of { g with relationships := g.relationships ++ [r] } =
      { of g with
        relationships := g.relationships ++ [r]
        byKey := (of g).byKey.setDefault r.key r } := by
  simp only [of, List.foldl_append, List.foldl_cons, List.foldl_nil]

/-! ## Additions -/

/-- What an edit of an indexed graph comes to, if it gives `a` and makes of the graph `g` what an
addition does. One that is refused has changed nothing. -/
def outcome (g : Graph) (a : α) : Except Failure Graph → EStateM.Result Failure Indexed α
  | .ok g' => .ok a (of g')
  | .error f => .error f (of g)

/-- The same is refused on both sides. -/
theorem ite_outcome {refused : Bool} {r : EStateM.Result Failure Indexed α}
    (h : r = outcome g a x) :
    (if refused then .error f (of g) else r) = outcome g a (if refused then .error f else x) := by
  cases refused with
  | true => rfl
  | false => exact h

theorem outcome_eq_ok (h : outcome g a x = .ok b s) : ∃ g', x = .ok g' ∧ b = a ∧ s = of g' := by
  cases x with
  | ok g' =>
    cases h
    exact ⟨g', rfl, rfl, rfl⟩
  | error f => cases h

theorem outcome_eq_error (h : outcome g a x = .error f s) : s = of g := by
  cases x with
  | ok g' => cases h
  | error f =>
    cases h
    rfl

theorem addEnvironment_of (g : Graph) (v : Environment) :
    (addEnvironment v).run (of g) = outcome g v (g.addEnvironment v) := by
  rw [addEnvironment, checkMutable, Edit.run_refuseIf_bind, Edit.run_refuseIf_bind,
    Graph.addEnvironment]
  exact ite_outcome (ite_outcome rfl)

theorem addElement_of (g : Graph) (e : Element) :
    (addElement e).run (of g) = outcome g e (g.addElement e) := by
  have hadded := congrArg (@EStateM.Result.ok Failure Indexed Element e) (of_addElement g e).symm
  rw [addElement, checkMutable, Edit.run_refuseIf_bind, Edit.run_refuseIf_bind, Graph.addElement]
  refine ite_outcome (ite_outcome ?_)
  cases hp : e.parent with
  | none =>
    rw [hp] at hadded
    exact hadded
  | some p =>
    rw [hp] at hadded
    dsimp only
    rw [Edit.run_refuseIf_bind, Option.filter_some]
    by_cases hmissing : (!g.contains p) = true
    · rw [if_pos hmissing, toGraph_of, if_pos hmissing, outcome]
    · rw [if_neg hmissing, toGraph_of, if_neg hmissing]
      exact hadded

/-- Some relationship has a key if there is a first one under it. -/
theorem contains_byKey_of (g : Graph) (l : Link) :
    (of g).byKey.contains l.key = g.connectsAs l.source l.destination l.label := by
  have hget : (of g).byKey.get? l.key = g.relationships.find? (·.key == l.key) :=
    Table.get?_foldl_setDefault g.relationships {}
  rw [Table.contains_eq_isSome, hget, List.isSome_find?, Graph.connectsAs]
  refine congrArg g.relationships.any (funext fun r => ?_)
  exact (Bool.and_assoc ..).symm

theorem addRelationship_of (g : Graph) (l : Link) : (addRelationship l).run (of g) =
    outcome g (l.numbered (g.relationships.length + 1)) (g.addRelationship l) := by
  rw [addRelationship, checkMutable, Edit.run_refuseIf_bind, List.forM_cons, List.forM_cons,
    List.forM_nil, bind_assoc, Edit.run_refuseIf_bind, bind_assoc, Edit.run_refuseIf_bind,
    pure_bind, Edit.run_refuseIf_bind, contains_byKey_of, Bool.and_comm, Graph.addRelationship]
  exact ite_outcome (ite_outcome (ite_outcome (ite_outcome
    (congrArg (EStateM.Result.ok _) (of_addRelationship g _).symm))))

theorem hasRelationship_of (g : Graph) (source destination : Text) (label : Option Text) :
    (of g).hasRelationship source destination label =
      g.hasRelationship source destination label := by
  cases label with
  | none => rfl
  | some label => exact contains_byKey_of g { source, destination, label := some label }

/-! ## Runs -/

/-- What is asked of an indexed graph: to add something, or to take nothing more. -/
inductive Call where
  | environment (v : Environment)
  | element (e : Element)
  | relationship (l : Link)
  | freeze

/-- Something is to be added. -/
def Call.Adds (c : Call) : Prop := c ≠ freeze

/-- The edit that a call makes. -/
def Call.edit : Call → Edit Indexed Unit
  | environment v => discard (addEnvironment v)
  | element e => discard (addElement e)
  | relationship l => discard (addRelationship l)
  | freeze => Indexed.freeze

/-- The graph that a call makes of another one. -/
def Call.make : Call → Graph → Except Failure Graph
  | environment v, g => g.addEnvironment v
  | element e, g => g.addElement e
  | relationship l, g => g.addRelationship l
  | freeze, g => .ok g.freeze

/-- The indexed graph that calls leave, made one after the other, whether they are refused or
not. -/
def after (calls : List Call) : Indexed :=
  calls.foldl (fun s c => (Edit.answered (c.edit.run s)).2) {}

theorem after_concat (calls : List Call) (c : Call) :
    after (calls ++ [c]) = (Edit.answered (c.edit.run (after calls))).2 := by
  simp only [after, List.foldl_append, List.foldl_cons, List.foldl_nil]

theorem edit_of (g : Graph) (c : Call) : c.edit.run (of g) = outcome g () (c.make g) := by
  cases c with
  | environment v =>
    rw [Call.edit, Call.make, Edit.run_discard, addEnvironment_of]
    cases g.addEnvironment v <;> rfl
  | element e =>
    rw [Call.edit, Call.make, Edit.run_discard, addElement_of]
    cases g.addElement e <;> rfl
  | relationship l =>
    rw [Call.edit, Call.make, Edit.run_discard, addRelationship_of]
    cases g.addRelationship l <;> rfl
  | freeze => rfl

theorem make_of_frozen {c : Call} (hc : c.Adds) (h : g.frozen = true) :
    c.make g = .error .frozen := by
  cases c with
  | environment v => rw [Call.make, Graph.addEnvironment, if_pos h]
  | element e => rw [Call.make, Graph.addElement, if_pos h]
  | relationship l => rw [Call.make, Graph.addRelationship, if_pos h]
  | freeze => exact absurd rfl hc

theorem Call.grown {g' : Graph} {c : Call} (hg : g.Grown) (h : c.make g = .ok g') : g'.Grown := by
  cases c with
  | environment v => exact hg.environment h
  | element e => exact hg.element h
  | relationship l => exact hg.relationship h
  | freeze => exact Except.ok.inj h ▸ hg.freeze

/-- What calls leave keeps a graph that additions have grown. -/
theorem exists_grown (calls : List Call) : ∃ g : Graph, g.Grown ∧ after calls = of g := by
  induction calls using List.reverseRecOn with
  | nil => exact ⟨{}, .empty, rfl⟩
  | append_singleton calls c ih =>
    obtain ⟨g, hg, hafter⟩ := ih
    rw [after_concat, hafter, edit_of]
    cases hmake : c.make g with
    | ok g' => exact ⟨g', Call.grown hg hmake, rfl⟩
    | error f => exact ⟨g, hg, rfl⟩

/-- Once frozen, an indexed graph stays so. -/
theorem frozen_after {calls : List Call} (h : Call.freeze ∈ calls) :
    (after calls).frozen = true := by
  induction calls using List.reverseRecOn with
  | nil => cases h
  | append_singleton calls c ih =>
    obtain ⟨g, -, hafter⟩ := exists_grown calls
    rw [after_concat, hafter, edit_of]
    by_cases hc : c.Adds
    · have hmem : Call.freeze ∈ calls := by simpa [Ne.symm hc] using h
      have hfrozen := ih hmem
      rw [hafter, toGraph_of] at hfrozen
      rw [make_of_frozen hc hfrozen]
      exact hfrozen
    · rw [not_not.mp hc]
      rfl

/-! ## Relationships -/

/-- The relationships of an indexed graph are stored in order. -/
structure Stored (s : Indexed) : Prop where
  /-- The ids of the relationships count them. -/
  ids : s.relationships.map (·.id) =
    (List.range s.relationships.length).map fun n => Graph.relationshipId (n + 1)
  /-- A relationship is found by its id. -/
  found : ∀ r ∈ s.relationships, s.getRelationship r.id = .ok r
  /-- Of two relationships with the same ends and label the later one is parallel. -/
  parallel : s.relationships.Pairwise fun r later => r.sameKey later.toLink = true →
    later.parallel = true
  /-- Relationships join elements. -/
  ends : ∀ r ∈ s.relationships, s.contains r.source = true ∧ s.contains r.destination = true
  /-- What has been indexed under both ends and a label is what is there. -/
  labelled : ∀ source destination label, s.hasRelationship source destination (some label) = true ↔
    ∃ r ∈ s.relationships, r.source = source ∧ r.destination = destination ∧ r.label = some label

theorem stored_of (hg : g.Store) : (of g).Stored where
  ids := hg.numbered
  found _ hr := hg.numbered.getRelationship_eq_ok_iff.mpr ⟨hr, rfl⟩
  parallel := hg.parallel
  ends := hg.ends
  labelled source destination label := by
    rw [hasRelationship_of]
    exact Graph.connectsAs_iff

/-- Let an indexed graph be left by any calls, refused ones among them. Its relationships are stored
in order, and a further one comes behind them with the next id. A call that is refused leaves the
whole of it as it is. If the calls have frozen it, whatever is to be added is refused. -/
theorem stored_after (calls : List Call) :
    (after calls).Stored ∧
      (∀ l r s, (addRelationship l).run (after calls) = .ok r s →
        r = l.numbered ((after calls).relationships.length + 1) ∧
          s.relationships = (after calls).relationships ++ [r]) ∧
      (∀ c f s, (Call.edit c).run (after calls) = .error f s → s = after calls) ∧
      (.freeze ∈ calls → ∀ c, Call.Adds c →
        c.edit.run (after calls) = .error .frozen (after calls)) := by
  have hfrozen : Call.freeze ∈ calls → (after calls).frozen = true := frozen_after
  obtain ⟨g, hg, hafter⟩ := exists_grown calls
  rw [hafter] at hfrozen ⊢
  refine ⟨stored_of hg.store, fun l r s h => ?_, fun c f s h => ?_, fun hmem c hc => ?_⟩
  · obtain ⟨g', hadd, rfl, rfl⟩ := outcome_eq_ok ((addRelationship_of g l).symm.trans h)
    obtain ⟨-, -, -, -, rfl⟩ := Graph.addRelationship_eq_ok_iff.mp hadd
    exact ⟨rfl, rfl⟩
  · exact outcome_eq_error ((edit_of g c).symm.trans h)
  · rw [edit_of, make_of_frozen (g := g) hc (hfrozen hmem)]
    rfl

/-- A shop with a database that it reads from, once too often and once more in parallel. -/
def shopCalls : List Call :=
  let reads : Link := { source := "shop", destination := "db", label := some "reads" }
  [.element { id := "shop", name := "Shop", role := .static .softwareSystem },
    .element { id := "db", name := "Db", parent := some "shop", role := .static .container },
    .relationship reads, .relationship reads, .relationship { reads with parallel := true },
    .freeze]

/-- The shop reads its database twice, and takes no environment any more. -/
theorem shopCalls_stored :
    (after shopCalls).relationships.map (·.id) = ["r1", "r2"] ∧
      (after shopCalls).hasRelationship "shop" "db" (some "reads") = true ∧
      (Call.environment ⟨"live", "Live"⟩).edit.run (after shopCalls) =
        .error .frozen (after shopCalls) := by
  obtain ⟨hstored, -, -, hfrozen⟩ := stored_after shopCalls
  have hlength : (after shopCalls).relationships.length = 2 := by decide +kernel
  refine ⟨?_, ?_, hfrozen (by simp [shopCalls]) _ (by simp [Call.Adds])⟩
  · rw [hstored.ids, hlength]
    rfl
  · decide +kernel

end Indexed

end SystemAtlas.Model
