import SystemAtlas.Proofs.Model.Declaring

/-! # Lawful assemblies

What every assembly has that a script leads to (`lawful_of_declared`). Beside the laws of its graph
and its names there are two: the declarations of static elements have paths that are as long as
their type is deep (`Leveled.step`), and no relationship put aside is ahead of the declarations
(`Dated.step`). -/

namespace SystemAtlas.Model

open Identifier (Declared Registry)

theorem Graph.Frames.length_eq {g : Graph} {blocks : List Block} {fs : List Scope.Frame}
    (h : g.Frames blocks fs) : fs.length = blocks.length := by
  induction h with
  | model | system | environment => rfl
  | container _ _ _ _ _ ih => exact congrArg Nat.succ ih
  | node _ _ _ _ _ _ ih => exact congrArg Nat.succ ih

namespace Assembly

/-! ## Paths of static elements -/

variable {a a' : Assembly} {blocks : List Block} {e : Event} {name id : Text}
  {make : Text → Element} {d : Declared} {t : StaticType}

/-- The path of every block has one name more than that of the block around it. -/
def Stacked : List Scope.Frame → Prop
  | [] => True
  | f :: fs => f.path.length = fs.length + 1 ∧ Stacked fs

theorem Stacked.tail {fs : List Scope.Frame} (h : Stacked fs) : Stacked fs.tail := by
  cases fs with
  | nil => exact h
  | cons f fs => exact h.2

/-- The blocks are stacked, and the declaration of a static element has a path as long as its type
is deep. -/
structure Leveled (a : Assembly) : Prop where
  workspace : a.scope.workspace.path = []
  blocks : Stacked a.scope.blocks
  elements : ∀ q ∈ a.graph.elements, ∀ t, q.role = .static t → ∀ d ∈ a.registry.declared,
    d.id a.registry.mode = q.id → d.path.length = t.depth + 1

theorem Leveled.initial (mode : Identifier.Mode) : Leveled { registry := { mode } } where
  workspace := rfl
  blocks := trivial
  elements _ h := absurd h List.not_mem_nil

theorem Leveled.path_length (ha : a.Leveled) : a.scope.path.length = a.scope.blocks.length := by
  have hblocks := ha.blocks
  rw [Scope.path, Scope.current]
  cases hb : a.scope.blocks with
  | nil =>
    rw [List.headD_nil, ha.workspace]
    rfl
  | cons f fs =>
    rw [hb] at hblocks
    exact hblocks.1

theorem blocks_length_named : (a.named d).scope.blocks.length = a.scope.blocks.length := by
  simp only [named, Scope.record]
  split
  · next h => simp only [h]
  · next h => simp only [h, List.length_cons]

theorem Leveled.stacked_named (ha : a.Leveled) : Stacked (a.named d).scope.blocks := by
  have hblocks := ha.blocks
  simp only [named, Scope.record]
  split
  · exact hblocks
  · next h =>
    rw [h] at hblocks
    exact hblocks

theorem Leveled.workspace_named (ha : a.Leveled) : (a.named d).scope.workspace.path = [] := by
  simp only [named, Scope.record]
  split <;> exact ha.workspace

/-- The blocks around what an entry makes tell the type of a static element. -/
theorem Makes.length_eq (hm : Makes a e name make) (hs : Stands blocks e)
    (ht : (make id).role = .static t) : blocks.length = t.depth := by
  cases hm with
  | person | system | container | component =>
    cases hs
    cases ht
    rfl
  | node | infrastructure | group | occurrence => cases ht

/-- A new declaration is not that of an element which was there. -/
theorem Leveled.elements_named (ha : a.Leveled) (hr : a.Registered) (hfree : a.registry.Free d) :
    ∀ q ∈ a.graph.elements, ∀ t, q.role = .static t → ∀ x ∈ (a.named d).registry.declared,
      x.id a.registry.mode = q.id → x.path.length = t.depth + 1 := by
  intro q hq t ht x hx hid
  rcases List.mem_append.mp hx with hx | hx
  · exact ha.elements q hq t ht x hx hid
  · have hc := hfree.new
    rw [← List.mem_singleton.mp hx, hid, hr.contains_of_mem hq] at hc
    cases hc

theorem Leveled.step (ha : a.Leveled) (hr : a.Registered) (ht : Typed blocks a)
    (hs : Stands blocks e) (h : Step a e a') : a'.Leveled := by
  have hpath : ∀ {d : Declared}, d.scope = a.scope.path →
      d.path.length = a.scope.blocks.length + 1 := by
    intro d hd
    rw [Declared.path, hd, List.length_append, ha.path_length, List.length_singleton]
  cases h with
  | leave => exact ⟨ha.workspace, ha.blocks.tail, ha.elements⟩
  | relate r => exact ⟨ha.workspace, ha.blocks, ha.elements⟩
  | @environment n d id g hd hid hfree hg =>
    obtain ⟨-, -, rfl⟩ := Graph.addEnvironment_eq_ok_iff.mp hg
    refine ⟨ha.workspace_named, ⟨?_, ha.stacked_named⟩, ha.elements_named hr hfree⟩
    rw [blocks_length_named]
    exact hpath (hd ▸ rfl)
  | @element e name make d id g hm hd hid hfree hg =>
    obtain ⟨-, -, -, rfl⟩ := Graph.addElement_eq_ok_iff.mp hg
    have hlength := hpath (d := d) (hd ▸ rfl)
    refine ⟨?_, ?_, fun q hq t hqt x hx hxid => ?_⟩
    · cases e <;> exact ha.workspace_named
    · cases e with
      | enter block => exact ⟨by rw [blocks_length_named, hlength], ha.stacked_named⟩
      | _ => exact ha.stacked_named
    -- an old declaration makes an old element, and the new one the new
    · rcases List.mem_append.mp hq with hq | hq
      · exact ha.elements_named hr hfree q hq t hqt x hx hxid
      · rw [List.mem_singleton.mp hq] at hqt hxid
        rw [hm.id_eq, hid] at hxid
        rcases List.mem_append.mp hx with hx | hx
        · have hc := hfree.new
          rw [Registry.contains_iff.mpr ⟨x, hx, hxid⟩] at hc
          cases hc
        · rw [List.mem_singleton.mp hx, hlength, ht.frames.length_eq, hm.length_eq hs hqt]

/-! ## Relationships put aside -/

/-- No relationship put aside follows a declaration that is not made yet. -/
def Dated (a : Assembly) : Prop := ∀ p ∈ a.pending, p.sequence ≤ a.registry.sequence

theorem Dated.named (ha : a.Dated) :
    ∀ p ∈ a.pending, p.sequence ≤ (a.named d).registry.sequence := by
  intro p hp
  have hlength : (a.named d).registry.sequence = a.registry.sequence + 1 := List.length_append
  exact hlength ▸ Nat.le_succ_of_le (ha p hp)

theorem Dated.step (ha : a.Dated) (h : Step a e a') : a'.Dated := by
  cases h with
  | leave => exact ha
  | relate r =>
    intro p hp
    rcases List.mem_append.mp hp with hp | hp
    · exact ha p hp
    · rw [List.mem_singleton.mp hp]
      exact Nat.le_refl _
  | element => exact ha.named
  | environment => exact ha.named

/-! ## All laws -/

/-- What every assembly has that a script leads to. -/
structure Lawful (a : Assembly) : Prop where
  typed : a.graph.WellTyped
  dotFree : a.DotFree
  registered : a.Registered
  kept : a.Kept
  leveled : a.Leveled
  dated : a.Dated

theorem Lawful.initial (mode : Identifier.Mode) : Lawful { registry := { mode } } where
  typed := .empty
  dotFree := .initial mode
  registered := .initial mode
  kept := .initial mode
  leveled := .initial mode
  dated _ h := absurd h List.not_mem_nil

theorem Lawful.step (ha : a.Lawful) (ht : Typed blocks a) (hs : Stands blocks e)
    (h : Step a e a') : a'.Lawful where
  typed := (ht.step hs h).graph
  dotFree := ha.dotFree.step h
  registered := ha.registered.step h
  kept := ha.kept.step ht hs h
  leveled := ha.leveled.step ha.registered ht hs h
  dated := ha.dated.step h

theorem Lawful.run {events : List Event} (ha : a.Lawful) (ht : Typed blocks a)
    (hn : Nested blocks events) (h : events.foldlM declare a = .ok a') : a'.Lawful := by
  induction hn generalizing a with
  | nil blocks => exact Except.ok.inj h ▸ ha
  | cons hs _ ih =>
    obtain ⟨m, hm, h⟩ := foldlM_cons_eq_ok_iff.mp h
    have hstep := declare_eq_ok_iff.mp hm
    exact ih (ha.step ht hs hstep) (ht.step hs hstep) h

/-- What the script of a model leads to is lawful. -/
theorem lawful_of_declared {mode : Identifier.Mode} {members : List Declaration.ModelMember}
    (h : (script members).foldlM declare { registry := { mode } } = .ok a) : a.Lawful :=
  (Lawful.initial mode).run (.initial mode) (nested_script members) h

end Assembly

end SystemAtlas.Model
