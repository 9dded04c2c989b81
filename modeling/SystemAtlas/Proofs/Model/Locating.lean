import SystemAtlas.Proofs.Model.Beginning
import SystemAtlas.Proofs.Model.Enclosing
import SystemAtlas.Proofs.Model.Origin
import SystemAtlas.Proofs.Model.Refusal
import SystemAtlas.Proofs.Model.Unwinding

/-! # Where failures point

What an operation refuses tells no line, and either no scope or the one that the operation was given
(`Failure.IsBare`). So whatever handles a declaration, the annotation decides where its failure
points: to the blocks around the declaration, and to the nearest line. A relationship that is put
aside remembers where it stands, and its failure points there. -/

namespace SystemAtlas

open Failure (IsBuild)

namespace Failure

variable {f : Failure} {scope : List Text} {line : Option Int}

/-- A failure tells nothing of where it arose but a scope, if any. -/
def IsBare (scope : List Text) (f : Failure) : Prop :=
  ∀ e, f = .build e → (e.scope = [] ∨ e.scope = scope) ∧ e.line = none ∧ e.phase = none

theorem isBare_of (cause : Cause) : (Failure.of cause).IsBare scope := by
  intro e he
  cases he
  exact ⟨.inl rfl, rfl, rfl⟩

theorem isBare_of_scope (cause : Cause) : (Failure.of cause scope).IsBare scope := by
  intro e he
  cases he
  exact ⟨.inr rfl, rfl, rfl⟩

theorem isBare_missingKey (key : Text) : (missingKey key).IsBare scope := by
  intro e he
  cases he

theorem isBare_frozen : frozen.IsBare scope := by
  intro e he
  cases he

/-- A bare failure points to where it is annotated. -/
theorem IsBare.exists_annotate (h : f.IsBare scope) (hb : (f.annotate scope line).IsBuild) :
    ∃ cause, f.annotate scope line = .build { cause, scope, line } := by
  obtain ⟨e, he⟩ := hb
  cases f with
  | build x =>
    obtain ⟨hscope, hline, hphase⟩ := h x rfl
    refine ⟨x.cause, congrArg Failure.build ?_⟩
    rcases hscope with hscope | hscope
    · simp [hscope, hline, hphase]
    · cases scope <;> simp [hscope, hline, hphase]
  | _ => cases he

/-- What an annotation makes of bare failures. -/
theorem isBare_annotated {x : Except Failure α} (hx : FailsAs (IsBare scope) x) :
    FailsAs (fun f => ∃ y : Failure, y.IsBare scope ∧ f = y.annotate scope line)
      (x.mapError (·.annotate scope line)) :=
  hx.mapError fun y hy => ⟨y, hy, rfl⟩

end Failure

open Failure (IsBare isBare_of isBare_of_scope isBare_missingKey isBare_frozen isBare_annotated)

/-! ## Registries and graphs -/

namespace Identifier.Registry

variable {r : Registry} {id name reference : Text} {scope : ScopePath} {accept : Text → Bool}

theorem declare_isBare : FailsAs (IsBare scope) (r.declare name scope) := by
  rw [declare]
  split
  · exact .error (isBare_of_scope _)
  · dsimp only
    split
    · exact .error (isBare_of_scope _)
    · exact .ok

theorem get_isBare : FailsAs (IsBare scope) (r.get id) := by
  rw [get]
  split
  · exact .ok
  · exact .error (isBare_missingKey _)

theorem sequenceOf_isBare : FailsAs (IsBare scope) (r.sequenceOf id) := by
  rw [sequenceOf]
  split
  · exact .ok
  · exact .error (isBare_missingKey _)

theorem resolve_isBare : FailsAs (IsBare scope) (r.resolve reference scope) := by
  rw [resolve]
  split
  · exact .error (isBare_of_scope _)
  · split
    · exact .ok
    · split
      · exact .error (isBare_of_scope _)
      · exact .ok
      · exact .error (isBare_of_scope _)

theorem lookup_isBare : FailsAs (IsBare scope) (r.lookup reference accept) := by
  rw [lookup]
  split
  · exact .ok
  · split
    · exact .error (isBare_of _)
    · exact .ok
    · exact .error (isBare_of _)

end Identifier.Registry

namespace Model

open Declaration (Details Instance InstanceKind Named)
open Identifier (Registry)

namespace Graph

variable {g : Graph} {e : Element} {l : Link} {id : Text} {scope : List Text}

theorem get_isBare : FailsAs (IsBare scope) (g.get id) := by
  rw [get]
  split
  · exact .ok
  · exact .error (isBare_of _)

theorem addElement_isBare : FailsAs (IsBare scope) (g.addElement e) := by
  rw [addElement]
  split
  · exact .error isBare_frozen
  · split
    · exact .error (isBare_of _)
    · split
      · exact .error (isBare_of _)
      · exact .ok

theorem addEnvironment_isBare {v : Environment} :
    FailsAs (IsBare scope) (g.addEnvironment v) := by
  rw [addEnvironment]
  split
  · exact .error isBare_frozen
  · split
    · exact .error (isBare_of _)
    · exact .ok

theorem addRelationship_isBare : FailsAs (IsBare scope) (g.addRelationship l) := by
  rw [addRelationship]
  dsimp only
  split
  · exact .error isBare_frozen
  · split
    · exact .error (isBare_of _)
    · split
      · exact .error (isBare_of _)
      · split
        · exact .error (isBare_of _)
        · exact .ok

end Graph

/-! ## Declaring -/

namespace Assembly

variable {a b m : Assembly} {e : Event} {events : List Event} {id name reference : Text}
  {identifier : Option Identifier.LocalName} {make : Text → Element} {p : Pending} {f : Failure}

theorem identify_isBare : FailsAs (IsBare a.scope.path) (a.identify identifier name) := by
  rw [identify_eq]
  exact Registry.declare_isBare.bind fun _ _ => .ok

theorem addElement_isBare : FailsAs (IsBare a.scope.path) (a.addElement identifier name make) :=
  identify_isBare.bind fun _ _ => Graph.addElement_isBare.bind fun _ _ => .ok

theorem openBlock_isBare {element environment : Option Text} {line : Option Int}
    {scope : List Text} : FailsAs (IsBare scope) (a.openBlock id element environment line) :=
  Registry.get_isBare.map.bind fun _ _ => .ok

theorem openElement_isBare {d : Details} {role : Role} {parent : Option Text} :
    FailsAs (IsBare a.scope.path) (a.openElement d role parent) :=
  addElement_isBare.bind fun _ _ => openBlock_isBare

theorem openEnvironment_isBare {n : Named} :
    FailsAs (IsBare a.scope.path) (a.openEnvironment n) :=
  identify_isBare.bind fun _ _ => Graph.addEnvironment_isBare.bind fun _ _ => openBlock_isBare

theorem definition_isBare {kind : InstanceKind} {scope : List Text} :
    FailsAs (IsBare scope) (a.definition kind reference) :=
  Registry.lookup_isBare.bind fun _ _ => Graph.get_isBare

theorem group_isBare : FailsAs (IsBare a.scope.path) (a.group reference) := by
  refine Registry.resolve_isBare.bind fun id _ => ?_
  split
  · exact .ok
  · exact .error (isBare_of _)

theorem addInstance_isBare {i : Instance} : FailsAs (IsBare a.scope.path) (a.addInstance i) :=
  definition_isBare.bind fun _ _ => (FailsAs.mapM fun _ _ => group_isBare).bind fun _ _ =>
    Registry.get_isBare.map.bind fun _ _ => addElement_isBare.map

theorem enter_isBare {block : Block} : FailsAs (IsBare a.scope.path) (a.enter block) := by
  cases block with
  | environment n => exact openEnvironment_isBare
  | system | container | node => exact openElement_isBare

theorem add_isBare {leaf : Leaf} : FailsAs (IsBare a.scope.path) (a.add leaf) := by
  cases leaf with
  | occurrence i => exact addInstance_isBare
  | person | component | infrastructure | group => exact addElement_isBare.map

/-- What fails is an entry that declares something, and it fails bare but for its annotation. -/
theorem exists_of_declare (h : a.declare e = .error f) : e.Declares ∧
    ∃ x : Failure, x.IsBare a.scope.path ∧
      f = x.annotate a.scope.path (e.line <|> a.scope.line) := by
  cases e with
  | enter block => exact ⟨trivial, isBare_annotated enter_isBare f h⟩
  | add leaf => exact ⟨trivial, isBare_annotated add_isBare f h⟩
  | leave => cases h
  | relate r => cases h

/-! ## Linking -/

theorem endpoint_isBare : FailsAs (IsBare p.scope) (a.endpoint p reference) := by
  rw [endpoint]
  split
  · cases p.owner with
    | none => exact .error (isBare_of _)
    | some owner => exact .ok
  · refine Registry.resolve_isBare.bind fun id _ => ?_
    split
    · exact .error (isBare_of _)
    · refine Registry.sequenceOf_isBare.bind fun n _ => ?_
      split
      · exact .ok
      · exact .error (isBare_of _)

theorem exists_of_link (h : a.link p = .error f) :
    ∃ x : Failure, x.IsBare p.scope ∧ f = x.annotate p.scope p.declaration.line := by
  have hbare : FailsAs (IsBare p.scope)
      (do return { a with graph := ← a.graph.addRelationship (← a.resolveLink p) } :
        Except Failure Assembly) := by
    refine FailsAs.bind ?_ fun l _ => Graph.addRelationship_isBare.bind fun _ _ => .ok
    exact endpoint_isBare.bind fun _ _ => endpoint_isBare.bind fun _ _ => .ok
  exact isBare_annotated hbare f h

theorem Step.pending_cases (h : Step a e b) : b.pending = a.pending ∨
    ∃ r, e = .relate r ∧
      b.pending = a.pending ++ [⟨r, a.scope.path, a.scope.element, a.registry.sequence⟩] := by
  cases h with
  | relate r => exact .inr ⟨r, rfl, rfl⟩
  | leave | element | environment => exact .inl rfl

/-- What is put aside along a script was put aside by one of its entries. -/
theorem exists_setAside {before rest : List Pending} (h : events.foldlM declare a = .ok b)
    (hle : a.pending.length ≤ before.length) (hp : b.pending = before ++ p :: rest) :
    ∃ es r es' m, events = es ++ .relate r :: es' ∧ es.foldlM declare a = .ok m ∧
      m.pending = before ∧ p = ⟨r, m.scope.path, m.scope.element, m.registry.sequence⟩ ∧
      m.Begins b := by
  induction events generalizing a with
  | nil =>
    cases Except.ok.inj h
    rw [hp, List.length_append, List.length_cons] at hle
    omega
  | cons e events ih =>
    obtain ⟨c, hc, hrun⟩ := foldlM_cons_eq_ok_iff.mp h
    have hstep := declare_eq_ok_iff.mp hc
    by_cases hmore : c.pending.length ≤ before.length
    · obtain ⟨es, r, es', m, rfl, hm, hrest⟩ := ih hrun hmore
      exact ⟨e :: es, r, es', m, rfl, foldlM_cons_eq_ok_iff.mpr ⟨c, hc, hm⟩, hrest⟩
    · obtain hsame | ⟨r, rfl, hnew⟩ := hstep.pending_cases
      · exact absurd (hsame ▸ hle) hmore
      · -- the entry puts aside just what is asked for
        have hbegins := Begins.run hrun
        obtain ⟨more, hmore'⟩ := hbegins.pending
        rw [hnew, hp, List.append_assoc, List.singleton_append] at hmore'
        have hlength : a.pending.length = before.length := by
          rw [hnew, List.length_append, List.length_singleton] at hmore
          omega
        obtain ⟨hbefore, hcons⟩ := List.append_inj hmore' hlength
        exact ⟨[], r, events, a, rfl, rfl, hbefore, (List.cons.inj hcons).1.symm,
          hstep.begins.trans hbegins⟩

end Assembly

/-! ## Places in a script -/

/-- A failure points to a place behind some entries of a script: its scope consists of the local
names that the blocks around this place have in a registry, outermost first. -/
def PointsTo (r : Registry) (before : List Event) (line : Option Int) (f : Failure) : Prop :=
  ∃ cause names, List.Forall₂ (IsCalled r) (enclosing before).reverse names ∧
    f = .build { cause, scope := names, line }

section
variable {mode : Identifier.Mode} {members : List Declaration.ModelMember} {a : Assembly}
  {f : Failure}

/-- If declaring fails, then at a declaration whose own handling fails, and the failure points to
it. -/
theorem points_to_of_declaring {p : Progress Failure Assembly}
    (hp : p = Assembly.declareAll { registry := { mode } } (script members))
    (hf : p.failure = some f) : ∃ before n after, script members = before ++ n :: after ∧
      n.Declares ∧ before.foldlM Assembly.declare { registry := { mode } } = .ok p.state ∧
      p.state.declare n = .error f ∧
      PointsTo p.state.registry before (n.line <|> (enclosing before).findSome? (·.1.line)) f := by
  subst hp
  obtain ⟨before, n, after, hsplit, hbefore, hn⟩ := Progress.exists_of_failure hf
  have hbuild : f.IsBuild := by
    have hfails := (Assembly.Going.initial mode).run_failsAs (.initial mode) (nested_script members)
    apply hfails.isBuild
    rw [← Assembly.declareAll_result]
    exact Progress.result_eq_error hf
  obtain ⟨hdeclares, x, hx, rfl⟩ := Assembly.exists_of_declare hn
  have hencloses := Assembly.encloses_of_declared hbefore
  obtain ⟨names, hnames, hpath⟩ := hencloses.exists_path
  obtain ⟨cause, hcause⟩ := hx.exists_annotate hbuild
  refine ⟨before, n, after, hsplit, hdeclares, hbefore, hn, cause, names, hnames, ?_⟩
  rw [← hencloses.line_eq, ← hpath]
  exact hcause

section
variable (ha : (script members).foldlM Assembly.declare { registry := { mode } } = .ok a)
  (hf : a.linkAll.failure = some f)
include ha hf

theorem isBuild_of_linking : f.IsBuild := by
  have hkept := (Assembly.Kept.initial mode).run (.initial mode) (nested_script members) ha
  apply ((Assembly.going_of_declared ha).linkAll_failsAs hkept).isBuild
  rw [← Assembly.linkAll_result]
  exact Progress.result_eq_error hf

/-- If linking fails, then at a relationship that is put aside, and the failure points to it. -/
theorem points_to_of_linking : ∃ before n after ps p rest,
    script members = before ++ .relate n :: after ∧ a.pending = ps ++ p :: rest ∧
      p.declaration = n ∧ ps.map (·.declaration) = relationships before ∧
      ps.foldlM Assembly.link a = .ok a.linkAll.state ∧ a.linkAll.state.link p = .error f ∧
      PointsTo a.registry before n.line f := by
  obtain ⟨ps, p, rest, hpending, hps, hp⟩ := Progress.exists_of_failure hf
  obtain ⟨before, n, after, m, hsplit, hm, hmpending, hplace, hbegins⟩ :=
    Assembly.exists_setAside ha (Nat.zero_le _) hpending
  obtain ⟨names, hnames, hpath⟩ := (Assembly.encloses_of_declared hm).exists_path
  obtain ⟨x, hx, hfx⟩ := Assembly.exists_of_link hp
  obtain ⟨cause, hcause⟩ := hx.exists_annotate (hfx ▸ isBuild_of_linking ha hf)
  refine ⟨before, n, after, ps, p, rest, hsplit, hpending, by rw [hplace], ?_, hps, hp, cause,
    names, hnames.imp fun _ _ h => h.mono hbegins.declared, ?_⟩
  · rw [← hmpending]
    exact Assembly.pending_of_declared hm
  · rw [hfx, hcause, hplace, hpath]

end

/-- Whatever of it is linked has given the graph its relationships, numbered in their order. -/
theorem relationships_of_linking {b : Assembly} {ps : List Pending}
    (ha : (script members).foldlM Assembly.declare { registry := { mode } } = .ok a)
    (hps : ps.foldlM Assembly.link a = .ok b) : ∃ rs,
      b = { a with graph := a.graph.appended rs } ∧ b.graph.relationships = rs ∧
      b.graph.Numbered ∧ List.Forall₂ (fun p r => a.resolveLink p = .ok r.toLink) ps rs := by
  obtain ⟨rs, rfl, hlinks⟩ := Assembly.appended_of_link hps
  have hnone : a.graph.relationships = [] := Assembly.relationships_of_declared ha
  have hnumbered : a.graph.Numbered := by
    rw [Graph.Numbered, hnone]
    rfl
  refine ⟨rs, rfl, ?_, Assembly.numbered_of_link hnumbered hps, hlinks⟩
  rw [Graph.relationships_appended, hnone, List.nil_append]

end

/-- A failure of a model points to the declaration it arises in, however deep this is nested, and
whether or not it is annotated once more by every block that it leaves. If declaring fails, then at
a declaration `n` whose own handling fails, after that of all before it: the scope consists of the
local names of the blocks around `n`, and the line is that of `n` or else of the nearest block that
has one. If linking fails, then at a relationship `n`: the scope is that of the block it stands in,
the line is its own, and the graph has everything declared and the links of the relationships before
`n`, numbered in their order. -/
theorem failure_points_to_declaration (mode : Identifier.Mode)
    (members : List Declaration.ModelMember) :
    let p := Assembly.declareAll { registry := { mode } } (script members)
    p.result = Assembly.handleAll members { registry := { mode } } ∧
    (∀ f, p.failure = some f → ∃ before n after, script members = before ++ n :: after ∧
      n.Declares ∧ before.foldlM Assembly.declare { registry := { mode } } = .ok p.state ∧
      p.state.declare n = .error f ∧
      PointsTo p.state.registry before (n.line <|> (enclosing before).findSome? (·.1.line)) f) ∧
    ∀ a f, p.result = .ok a → a.linkAll.failure = some f →
      ∃ before n after ps q rest rs, script members = before ++ .relate n :: after ∧
        a.pending = ps ++ q :: rest ∧ q.declaration = n ∧
        ps.map (·.declaration) = relationships before ∧ a.linkAll.state.link q = .error f ∧
        PointsTo a.registry before n.line f ∧
        a.linkAll.state = { a with graph := a.graph.appended rs } ∧
        a.linkAll.state.graph.relationships = rs ∧ a.linkAll.state.graph.Numbered ∧
        List.Forall₂ (fun p r => a.resolveLink p = .ok r.toLink) ps rs := by
  refine ⟨Assembly.declareAll_eq_handleAll mode members, fun f => points_to_of_declaring rfl,
    fun a f ha hf => ?_⟩
  rw [Assembly.declareAll_result] at ha
  obtain ⟨before, n, after, ps, q, rest, hsplit, hpending, hn, hbefore, hps, hq, hpoints⟩ :=
    points_to_of_linking ha hf
  obtain ⟨rs, hstate, hrelationships, hnumbered, hlinks⟩ := relationships_of_linking ha hps
  exact ⟨before, n, after, ps, q, rest, rs, hsplit, hpending, hn, hbefore, hq, hpoints, hstate,
    hrelationships, hnumbered, hlinks⟩

/-- A shop with two pages of one name. Only the shop has a line. -/
def twoPages : List Declaration.ModelMember :=
  let page : Declaration.Details :=
    { identifier := Identifier.LocalName.ofText? "page", name := "Page" }
  [.person { name := "Customer", line := some 1 },
    .system { name := "Web Shop", line := some 3 }
      [.container { identifier := Identifier.LocalName.ofText? "web", name := "Web" }
        [.component page, .relationship { source := "this", destination := "page" },
          .component page]]]

/-- A shop that refers to something unknown in its second relationship. -/
def unknownPage : List Declaration.ModelMember :=
  [.person { name := "Customer", line := some 1 },
    .system { name := "Web Shop", line := some 3 }
      [.relationship { source := "customer", destination := "this" },
        .relationship { source := "this", destination := "page", line := some 5 },
        .relationship { source := "this", destination := "customer" }]]

/-- The shop that refers to something unknown, declared. -/
def unknownPageDeclared : Assembly :=
  (Assembly.declareAll { registry := { mode := .flat } } (script unknownPage)).state

/-- The second page is refused in the container, on the line of the shop, and the unknown page in
the shop, on the line of the relationship. -/
theorem shop_failures_point :
    (∃ before n after, script twoPages = before ++ n :: after ∧ n.Declares ∧
      ∃ r, PointsTo r before (n.line <|> (enclosing before).findSome? (·.1.line))
        (.build { cause := .identifierTaken "page", scope := ["web_shop", "web"],
                  line := some 3 })) ∧
    ∃ before n after rs, script unknownPage = before ++ .relate n :: after ∧
      PointsTo unknownPageDeclared.registry before n.line
        (.build { cause := .unresolved "page", scope := ["web_shop"], line := some 5 }) ∧
      unknownPageDeclared.linkAll.state.graph.relationships = rs ∧ rs.length = 1 := by
  have hpages : (Assembly.declareAll { registry := { mode := .flat } } (script twoPages)).failure =
      some (.build { cause := .identifierTaken "page", scope := ["web_shop", "web"],
                     line := some 3 }) := by rfl
  have hdeclared : (Assembly.declareAll { registry := { mode := .flat } }
      (script unknownPage)).result = .ok unknownPageDeclared := by rfl
  have hunknown : unknownPageDeclared.linkAll.failure = some (.build
      { cause := .unresolved "page", scope := ["web_shop"], line := some 5 }) := by rfl
  obtain ⟨-, hdeclaring, -⟩ := failure_points_to_declaration .flat twoPages
  obtain ⟨-, -, hlinking⟩ := failure_points_to_declaration .flat unknownPage
  constructor
  · obtain ⟨before, n, after, hsplit, hn, -, -, hpoints⟩ := hdeclaring _ hpages
    exact ⟨before, n, after, hsplit, hn, _, hpoints⟩
  · obtain ⟨before, n, after, _, _, _, rs, hsplit, -, -, -, -, hpoints, -, hrs, -⟩ :=
      hlinking _ _ hdeclared hunknown
    have hlength : unknownPageDeclared.linkAll.state.graph.relationships.length = 1 := by rfl
    exact ⟨before, n, after, rs, hsplit, hpoints, hrs, hrs ▸ hlength⟩

end Model

end SystemAtlas
