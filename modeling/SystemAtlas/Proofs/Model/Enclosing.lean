import SystemAtlas.Proofs.Identifier.Allocating
import SystemAtlas.Proofs.Model.Naming

/-! # Blocks around an entry

The blocks around an entry of a script are those that the entries before it open and do not leave.
Each of them has a number among the declarations, under which the registry knows its local name. The
scope of an assembly has a frame for each (`Encloses.step`), so its path consists of these local
names (`Encloses.exists_path`), and its line is that of the nearest block that has one
(`Encloses.line_eq`). -/

namespace SystemAtlas.Model

open Identifier (Declared Registry)

/-- The display name of a declaration that opens a block. -/
def Block.name : Block → Text
  | system d | container d | node d _ => d.name
  | environment n => n.name

/-- The blocks around what comes after an entry, which is preceded by `n` declarations. -/
def Event.opens (n : Nat) (blocks : List (Block × Nat)) : Event → List (Block × Nat)
  | .enter block => (block, n) :: blocks
  | .leave => blocks.tail
  | .add _ | .relate _ => blocks

/-- The blocks around what comes after some entries, which are preceded by `n` declarations. -/
def openBehind (n : Nat) (blocks : List (Block × Nat)) : List Event → List (Block × Nat)
  | [] => blocks
  | e :: events => openBehind (if e.Declares then n + 1 else n) (e.opens n blocks) events

/-- The blocks around what comes after the first entries of a script, innermost first, each with the
number of declarations before its own. -/
def enclosing (before : List Event) : List (Block × Nat) := openBehind 0 [] before

/-- A block is locally called a name in a registry: it has this name as its identifier, or the name
was made of its display name. -/
structure IsCalled (r : Registry) (x : Block × Nat) (name : Text) : Prop where
  declared : ∃ scope, r.declared[x.2]? = some ⟨scope, name⟩
  given : ∀ n, (Event.enter x.1).identifier = some n → name = n.text
  allocated : (Event.enter x.1).identifier = none →
    ∃ k, name = Registry.candidate (Identifier.slug x.1.name) k

theorem IsCalled.mono {r r' : Registry} {x : Block × Nat} {name : Text} (h : IsCalled r x name)
    (hle : r.declared <+: r'.declared) : IsCalled r' x name := by
  refine ⟨?_, h.given, h.allocated⟩
  obtain ⟨scope, hscope⟩ := h.declared
  obtain ⟨rest, hrest⟩ := hle
  obtain ⟨hlt, -⟩ := List.getElem?_eq_some_iff.mp hscope
  exact ⟨scope, by rw [← hrest, List.getElem?_append_left hlt, hscope]⟩

/-- The frames of blocks: each continues the path of the one around it by the local name of its
block. -/
inductive Framed (r : Registry) : List (Block × Nat) → List Scope.Frame → Prop where
  | nil : Framed r [] []
  | cons {x : Block × Nat} {blocks : List (Block × Nat)} {f : Scope.Frame}
    {frames : List Scope.Frame} {name : Text} : IsCalled r x name →
    f.path = (frames.headD {}).path ++ [name] → f.line = x.1.line → Framed r blocks frames →
    Framed r (x :: blocks) (f :: frames)

namespace Framed

variable {r r' : Registry} {blocks : List (Block × Nat)} {f : Scope.Frame}
  {frames : List Scope.Frame}

theorem mono (h : Framed r blocks frames) (hle : r.declared <+: r'.declared) :
    Framed r' blocks frames := by
  induction h with
  | nil => exact .nil
  | cons hcalled hpath hline _ ih => exact .cons (hcalled.mono hle) hpath hline ih

theorem tail (h : Framed r blocks frames) : Framed r blocks.tail frames.tail := by
  cases h with
  | nil => exact .nil
  | cons _ _ _ h => exact h

theorem record {declared : List Text} (h : Framed r blocks (f :: frames)) :
    Framed r blocks ({ f with declared } :: frames) := by
  cases h with
  | cons hcalled hpath hline h => exact .cons hcalled hpath hline h

/-- The innermost frame has the path that the local names of the blocks make, outermost first. -/
theorem exists_path (h : Framed r blocks frames) :
    ∃ names, List.Forall₂ (IsCalled r) blocks.reverse names ∧ (frames.headD {}).path = names := by
  induction h with
  | nil => exact ⟨[], .nil, rfl⟩
  | @cons x blocks f frames name hcalled hpath hline _ ih =>
    obtain ⟨names, hnames, hframes⟩ := ih
    refine ⟨names ++ [name], ?_, by rw [List.headD_cons, hpath, hframes]⟩
    rw [List.reverse_cons]
    exact List.rel_append hnames (.cons hcalled .nil)

theorem line_eq (h : Framed r blocks frames) :
    frames.findSome? (·.line) = blocks.findSome? (·.1.line) := by
  induction h with
  | nil => rfl
  | cons _ _ hline _ ih => rw [List.findSome?_cons, List.findSome?_cons, hline, ih]

end Framed

namespace Assembly

variable {a a' : Assembly} {blocks : List (Block × Nat)} {e : Event} {events : List Event}
  {d : Declared}

/-- Blocks enclose what an assembly declares next. -/
structure Encloses (blocks : List (Block × Nat)) (a : Assembly) : Prop where
  framed : Framed a.registry blocks a.scope.blocks
  workspace : a.scope.workspace.path = [] ∧ a.scope.workspace.line = none

namespace Encloses

theorem initial (mode : Identifier.Mode) : Encloses [] { registry := { mode } } :=
  ⟨.nil, rfl, rfl⟩

theorem path_eq (h : Encloses blocks a) : a.scope.path = (a.scope.blocks.headD {}).path := by
  rw [Scope.path, Scope.current]
  cases a.scope.blocks with
  | nil => exact h.workspace.1
  | cons f frames => rfl

theorem exists_path (h : Encloses blocks a) :
    ∃ names, List.Forall₂ (IsCalled a.registry) blocks.reverse names ∧ a.scope.path = names :=
  h.path_eq ▸ h.framed.exists_path

theorem line_eq (h : Encloses blocks a) : a.scope.line = blocks.findSome? (·.1.line) := by
  rw [Scope.line, Scope.frames, List.findSome?_append, h.framed.line_eq, List.findSome?_cons,
    h.workspace.2, List.findSome?_nil, Option.or_none]

theorem named (h : Encloses blocks a) (d : Declared) : Encloses blocks (a.named d) := by
  have hframed : Framed (a.registry.add d) blocks a.scope.blocks :=
    h.framed.mono (List.prefix_append _ _)
  constructor
  · simp only [Assembly.named, Scope.record]
    cases hfs : a.scope.blocks with
    | nil =>
      rw [hfs] at hframed
      exact hframed
    | cons f fs =>
      rw [hfs] at hframed
      exact hframed.record
  · simp only [Assembly.named, Scope.record]
    split <;> exact h.workspace

/-- What is called in a registry is the latest declaration. -/
theorem called {block : Block}
    (hd : d = a.naming (Event.enter block).identifier block.name) :
    IsCalled (a.named d).registry (block, a.registry.sequence) d.localName := by
  refine ⟨⟨d.scope, List.getElem?_concat_length⟩, fun n hn => ?_, fun hnone => ?_⟩
  · rw [hd, naming_of_identifier hn]
  · simp only [hd, naming, hnone]
    apply Registry.exists_firstFree

theorem enter {block : Block} {g : Graph} {element environment : Option Text}
    (h : Encloses blocks a)
    (hd : d = a.naming (Event.enter block).identifier block.name) :
    Encloses ((block, a.registry.sequence) :: blocks) { a.named d with
      graph := g
      scope := (a.named d).scope.enter
        { path := d.path, element, environment, line := block.line } } where
  framed := by
    have hnamed := h.named d
    refine .cons (called hd) ?_ rfl hnamed.framed
    have hpath : (a.named d).scope.path = a.scope.path := by
      simp only [Assembly.named, Scope.path, Scope.current, Scope.record]
      cases a.scope.blocks <;> rfl
    rw [← hnamed.path_eq, hpath, hd]
    rfl
  workspace := (h.named d).workspace

theorem name_eq {block : Block} {name : Text} {make : Text → Element}
    (hm : Makes a (.enter block) name make) : name = block.name := by
  cases hm <;> rfl

/-- An entry opens and leaves blocks, and whatever it declares takes the next number. -/
theorem step (h : Encloses blocks a) (hstep : Step a e a') :
    Encloses (e.opens a.registry.sequence blocks) a' ∧
      a'.registry.sequence =
        if e.Declares then a.registry.sequence + 1 else a.registry.sequence := by
  cases hstep with
  | leave => exact ⟨⟨h.framed.tail, h.workspace⟩, rfl⟩
  | relate r => exact ⟨⟨h.framed, h.workspace⟩, rfl⟩
  | @element e name make d id g hm hd hid _ hg =>
    constructor
    · cases e with
      | enter block =>
        obtain rfl := name_eq hm
        exact h.enter hd
      | add leaf => exact ⟨(h.named d).framed, (h.named d).workspace⟩
      | leave => cases hm
      | relate r => cases hm
    · rw [if_pos hm.declares]
      exact List.length_append
  | environment hd hid _ hg =>
    constructor
    · exact h.enter hd
    · exact List.length_append

theorem run (h : Encloses blocks a) (hrun : events.foldlM declare a = .ok a') :
    Encloses (openBehind a.registry.sequence blocks events) a' := by
  induction events generalizing a blocks with
  | nil => exact Except.ok.inj hrun ▸ h
  | cons e events ih =>
    obtain ⟨m, hm, hrun⟩ := foldlM_cons_eq_ok_iff.mp hrun
    obtain ⟨hnext, hsequence⟩ := h.step (declare_eq_ok_iff.mp hm)
    have hrest := ih hnext hrun
    rwa [hsequence] at hrest

end Encloses

/-- The blocks around what a model declares next are those opened by the entries before. -/
theorem encloses_of_declared {mode : Identifier.Mode}
    (h : events.foldlM declare { registry := { mode } } = .ok a) : Encloses (enclosing events) a :=
  (Encloses.initial mode).run h

end Assembly

end SystemAtlas.Model
