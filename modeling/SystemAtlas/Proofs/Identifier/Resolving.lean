import SystemAtlas.Proofs.Identifier.Earlier

/-! # What a reference means in a scope

A registry is what requests to declare something have made of it, whether they were met or refused.
Its ids differ (`nodup_ids_made`), and if no scope has dots its paths have none (`dotFree_made`).
Then a reference means the only declaration at which it stands seen from the scope, although ids are
compared as joined texts (`candidates_eq`). With flat ids there is never more than one of them
(`Reachable.length_le_of_flat`). -/

namespace SystemAtlas.Identifier.Registry

/-! ## Requests -/

/-- Something to be declared: under the name given, or under one that is made of a display name. -/
inductive Request where
  | declare (name : Text) (scope : ScopePath)
  | allocate (displayName : Text) (scope : ScopePath)

/-- The scope that something is to be declared in. -/
def Request.scope : Request → ScopePath
  | declare _ scope | allocate _ scope => scope

/-- What comes of a request: an id and the registry that has it, or a refusal. -/
def meet (r : Registry) : Request → Except Failure (Text × Registry)
  | .declare name scope => r.declare name scope
  | .allocate displayName scope => r.allocate displayName scope

/-- The registry after a request is met or refused. -/
def attempt (r : Registry) (q : Request) : Registry :=
  match r.meet q with
  | .ok (_, next) => next
  | .error _ => r

/-- The registry that requests make. -/
def made (mode : Mode) (requests : List Request) : Registry := requests.foldl attempt { mode }

variable {r : Registry} {d : Declared} {reference : Text} {scope : ScopePath} {mode : Mode}

theorem meet_eq_ok {id : Text} {next : Registry} {q : Request} (h : r.meet q = .ok (id, next)) :
    ∃ d, r.Free d ∧ d.scope = q.scope ∧ id = d.id r.mode ∧ next = r.add d := by
  cases q with
  | declare name scope =>
    obtain ⟨hfree, hid, hnext⟩ := declare_eq_ok_iff.mp h
    exact ⟨_, hfree, rfl, hid, hnext⟩
  | allocate displayName scope =>
    obtain ⟨hfree, hid, hnext⟩ := declare_eq_ok_iff.mp h
    exact ⟨_, hfree, rfl, hid, hnext⟩

theorem attempt_cases (r : Registry) (q : Request) :
    r.attempt q = r ∨ ∃ d, r.Free d ∧ d.scope = q.scope ∧ r.attempt q = r.add d := by
  rw [attempt]
  split
  · next id next h =>
    obtain ⟨d, hfree, hscope, -, hnext⟩ := meet_eq_ok h
    exact .inr ⟨d, hfree, hscope, hnext⟩
  · exact .inl rfl

/-- What a registry has, and keeps when a declaration is added that a request asks for, it has after
all requests. -/
theorem foldl_attempt_induction {P : Registry → Prop} {requests : List Request} (hr : P r)
    (hadd : ∀ q ∈ requests, ∀ r d, P r → r.Free d → d.scope = q.scope → P (r.add d)) :
    P (requests.foldl attempt r) := by
  induction requests generalizing r with
  | nil => exact hr
  | cons q requests ih =>
    apply ih _ fun q hq => hadd q (List.mem_cons_of_mem _ hq)
    obtain h | ⟨d, hfree, hscope, h⟩ := r.attempt_cases q
    · rwa [h]
    · rw [h]
      exact hadd q List.mem_cons_self r d hr hfree hscope

/-- What a registry has at first, and keeps when a declaration is added that a request asks for,
it has after all requests. -/
theorem made_induction {P : Registry → Prop} {requests : List Request} (hinitial : P { mode })
    (hadd : ∀ q ∈ requests, ∀ r d, P r → r.Free d → d.scope = q.scope → P (r.add d)) :
    P (made mode requests) :=
  foldl_attempt_induction hinitial hadd

theorem mode_made (mode : Mode) (requests : List Request) : (made mode requests).mode = mode :=
  made_induction (P := fun r => r.mode = mode) rfl fun _ _ _ _ hr _ _ => hr

theorem nodup_ids_made (mode : Mode) (requests : List Request) : (made mode requests).ids.Nodup :=
  made_induction (P := fun r => r.ids.Nodup) List.nodup_nil
    fun _ _ _ _ hr hfree _ => hfree.nodup_ids hr

theorem dotFree_made {requests : List Request} (h : ∀ q ∈ requests, ∀ s ∈ q.scope, s.DotFree) :
    (made mode requests).DotFree := by
  apply made_induction (P := DotFree)
  · exact fun d hd => absurd hd List.not_mem_nil
  · intro q hq r d hr hfree hscope
    exact hr.add (hscope ▸ h q hq) hfree

/-! ## Declarations in reach -/

/-- The declarations at which a reference stands seen from a scope, innermost first. -/
structure Reachable (r : Registry) (reference : Text) (scope : ScopePath)
    (ds : List Declared) : Prop where
  mem : ∀ d, d ∈ ds ↔ d ∈ r.declared ∧ At reference scope d
  innermost : ds.Pairwise fun x y => y.path.length < x.path.length

theorem pairwise_outward (scope : ScopePath) :
    (outward scope).Pairwise fun x y => y.length < x.length := by
  rw [outward, List.pairwise_map, List.pairwise_reverse]
  refine List.pairwise_lt_range.imp_of_mem fun {m n} hm hn hlt => ?_
  rw [List.mem_range] at hm hn
  simp only [List.length_take]
  omega

theorem find?_path_eq_some_iff {path : List Text} :
    r.declared.find? (·.path == path) = some d ↔ d ∈ r.declared ∧ d.path = path := by
  constructor
  · intro h
    exact ⟨List.mem_of_find?_eq_some h, by simpa using List.find?_some h⟩
  · rintro ⟨hd, rfl⟩
    have hfind : (r.declared.find? (·.path == d.path)).isSome = true :=
      List.find?_isSome.mpr ⟨d, hd, beq_self_eq_true _⟩
    obtain ⟨x, hx⟩ := Option.isSome_iff_exists.mp hfind
    rw [hx, eq_of_path (x := x) (y := d) (by simpa using List.find?_some hx)]

/-- The declarations in reach, found outward scope by scope. -/
def reachable (r : Registry) (reference : Text) (scope : ScopePath) : List Declared :=
  (outward scope).filterMap fun outer => r.declared.find? (·.path == outer ++ reference.dotted)

theorem reachable_spec (r : Registry) (reference : Text) (scope : ScopePath) :
    r.Reachable reference scope (r.reachable reference scope) where
  mem d := by
    simp only [reachable, List.mem_filterMap, find?_path_eq_some_iff, mem_outward_iff, At]
    constructor
    · rintro ⟨outer, houter, hd, hpath⟩
      exact ⟨hd, outer, houter, hpath⟩
    · rintro ⟨hd, outer, houter, hpath⟩
      exact ⟨outer, houter, hd, hpath⟩
  innermost := by
    rw [reachable, List.pairwise_filterMap]
    refine (pairwise_outward scope).imp fun hlt x hx y hy => ?_
    rw [(find?_path_eq_some_iff.mp hx).2, (find?_path_eq_some_iff.mp hy).2, List.length_append,
      List.length_append]
    exact Nat.add_lt_add_right hlt _

namespace Reachable

variable {ds : List Declared}

theorem subset (h : r.Reachable reference scope ds) : ds ⊆ r.declared :=
  fun d hd => ((h.mem d).mp hd).1

theorem nodup (h : r.Reachable reference scope ds) : ds.Nodup :=
  h.innermost.imp fun hlt heq => absurd (heq ▸ hlt) (Nat.lt_irrefl _)

theorem nodup_ids (h : r.Reachable reference scope ds) (hn : r.ids.Nodup) :
    (ds.map (·.id r.mode)).Nodup :=
  List.Nodup.map_on (fun _ hx _ hy => List.inj_on_of_nodup_map hn (h.subset hx) (h.subset hy))
    h.nodup

/-- With flat ids a reference stands at one declaration at most, because all at which it stands
have the last of its names. -/
theorem length_le_of_flat (h : r.Reachable reference scope ds) (hn : r.ids.Nodup)
    (hm : r.mode = .flat) : ds.length ≤ 1 := by
  have hname : ∀ d ∈ ds, d.id r.mode = reference.lastName := fun d hd =>
    eq_lastName_of_flat hm ((h.mem d).mp hd).2.endsWith
  have hids := h.nodup_ids hn
  match ds, hname, hids with
  | [], _, _ => exact Nat.zero_le 1
  | [_], _, _ => exact Nat.le_refl 1
  | x :: y :: ds, hname, hids =>
    have heq : x.id r.mode = y.id r.mode :=
      (hname x List.mem_cons_self).trans (hname y (by simp)).symm
    exact absurd (by simp [heq]) (List.nodup_cons.mp hids).1

end Reachable

/-- The joined texts at which a reference is looked up are ids of the paths that they join. -/
theorem atPath?_eq {path : List Text} (hr : r.DotFree) (hne : path ≠ [])
    (hpath : ∀ s ∈ path, s.DotFree) :
    r.atPath? path = (r.declared.find? (·.path == path)).map (·.id r.mode) := by
  cases hfind : r.declared.find? (·.path == path) with
  | some d =>
    obtain ⟨hd, rfl⟩ := find?_path_eq_some_iff.mp hfind
    obtain ⟨id, hid⟩ := atPath?_path hd
    obtain ⟨x, -, hx, rfl⟩ := atPath?_eq_some hr hne hpath hid
    rw [hid, eq_of_path hx, Option.map_some]
  | none =>
    rw [Option.map_none, Option.eq_none_iff_forall_ne_some]
    intro id hid
    obtain ⟨x, hx, rfl, -⟩ := atPath?_eq_some hr hne hpath hid
    rw [find?_path_eq_some_iff.mpr ⟨hx, rfl⟩] at hfind
    cases hfind

theorem candidates_eq (hr : r.DotFree) (hn : r.ids.Nodup) (hscope : ∀ s ∈ scope, s.DotFree) :
    r.candidates reference scope = (r.reachable reference scope).map (·.id r.mode) := by
  have hat : (outward scope).filterMap (fun outer => r.atPath? (outer ++ reference.dotted)) =
      (r.reachable reference scope).map (·.id r.mode) := by
    rw [reachable, List.map_filterMap]
    apply List.filterMap_congr
    intro outer houter
    refine atPath?_eq hr (by simp [Text.dotted_ne_nil]) fun s hs => ?_
    rcases List.mem_append.mp hs with hs | hs
    · exact hscope s ((mem_outward_iff.mp houter).subset hs)
    · exact Text.dotFree_of_mem_dotted hs
  rw [candidates, hat, distinct_of_nodup ((reachable_spec r reference scope).nodup_ids hn)]

/-! ## Meanings -/

/-- What is in reach decides what a reference means that is no flat id. -/
theorem resolve_eq_reachable (hr : r.DotFree) (hn : r.ids.Nodup) (hscope : ∀ s ∈ scope, s.DotFree)
    (hne : reference ≠ "") (hnot : ¬(r.mode = .flat ∧ r.contains reference = true)) :
    r.resolve reference scope =
      match r.reachable reference scope with
      | [] => .error (.of (.unresolved reference) scope)
      | [d] => .ok (d.id r.mode)
      | ds => .error (.of (.ambiguous reference (ds.map (·.id r.mode))) scope) := by
  rw [resolve, if_neg (by simpa using hne), if_neg (by simpa using hnot),
    candidates_eq hr hn hscope]
  rcases r.reachable reference scope with _ | ⟨x, _ | ⟨y, ds⟩⟩ <;> rfl

/-- A reference means what it reaches. Let a registry be made by any requests, with scopes without
dots. Seen from a scope without dots, a reference reaches the declarations whose path is some outer
part of the scope and then the names of the reference. In hierarchical mode the reference means the
only declaration that it reaches; it is ambiguous between those that it reaches, innermost first, if
there are two or more of them, and unresolved if there are none. In flat mode an id means itself;
any other reference means the only declaration that it reaches, and is unresolved if there is
none. -/
theorem resolve_means {requests : List Request}
    (hrequests : ∀ q ∈ requests, ∀ s ∈ q.scope, s.DotFree) (hscope : ∀ s ∈ scope, s.DotFree)
    (hne : reference ≠ "") :
    let r := made mode requests
    ∃ ds, r.Reachable reference scope ds ∧
      (mode = .hierarchical →
        (∀ id, r.resolve reference scope = .ok id ↔ ∃ d, ds = [d] ∧ id = d.id mode) ∧
        ∀ f, r.resolve reference scope = .error f ↔
          2 ≤ ds.length ∧ f = .of (.ambiguous reference (ds.map (·.id mode))) scope ∨
            ds = [] ∧ f = .of (.unresolved reference) scope) ∧
      (mode = .flat →
        (r.contains reference = true → r.resolve reference scope = .ok reference) ∧
        (r.contains reference = false →
          (∀ id, r.resolve reference scope = .ok id ↔ ∃ d, ds = [d] ∧ id = d.id mode) ∧
          ∀ f, r.resolve reference scope = .error f ↔
            ds = [] ∧ f = .of (.unresolved reference) scope)) := by
  intro r
  have hmode : r.mode = mode := mode_made mode requests
  have hn : r.ids.Nodup := nodup_ids_made mode requests
  have hr : r.DotFree := dotFree_made hrequests
  have hspec := reachable_spec r reference scope
  have hmeans := @resolve_eq_reachable r reference scope hr hn hscope hne
  rw [hmode] at hmeans
  generalize r.reachable reference scope = ds at hspec hmeans
  refine ⟨ds, hspec, fun hm => ?_, fun hm => ⟨fun hc => ?_, fun hc => ?_⟩⟩
  · rw [hmeans (by simp [hm])]
    rcases ds with _ | ⟨x, _ | ⟨y, ds⟩⟩
    · simp [@eq_comm _ (Failure.of _ _)]
    · simp [@eq_comm _ _ (Declared.id _ _)]
    · simp [@eq_comm _ (Failure.of _ _)]
  · rw [resolve, if_neg (by simpa using hne), if_pos (by simp [hmode, hm, hc])]
  · have hlength := hspec.length_le_of_flat hn (hmode.trans hm)
    rw [hmeans (by simp [hc])]
    rcases ds with _ | ⟨x, _ | ⟨y, ds⟩⟩
    · simp [@eq_comm _ (Failure.of _ _)]
    · simp [@eq_comm _ _ (Declared.id _ _)]
    · simp at hlength

/-- A database of the workspace and one of the shop in it, which is declared twice. -/
def databases : List Request :=
  [.declare "db" [], .allocate "Shop" [], .declare "db" ["shop"], .declare "db" ["shop"]]

/-- In the shop both databases are in reach, that of the shop first. -/
theorem databases_ambiguous :
    (∀ q ∈ databases, ∀ s ∈ q.scope, s.DotFree) ∧ (∀ s ∈ (["shop"] : ScopePath), s.DotFree) ∧
      "db" ≠ ("" : Text) ∧
      (made .hierarchical databases).resolve "db" ["shop"] =
        .error (.of (.ambiguous "db" ["shop.db", "db"]) ["shop"]) ∧
      ∃ ds, (made .hierarchical databases).Reachable "db" ["shop"] ds ∧ 2 ≤ ds.length ∧
        ds.map (·.id .hierarchical) = ["shop.db", "db"] := by
  have hshop : Text.DotFree "shop" := by
    rw [Text.DotFree]
    decide +kernel
  have hrequests : ∀ q ∈ databases, ∀ s ∈ q.scope, s.DotFree := by
    simp [databases, Request.scope, hshop]
  have hscope : ∀ s ∈ (["shop"] : ScopePath), s.DotFree := by simp [hshop]
  have hne : "db" ≠ ("" : Text) := by decide +kernel
  have hresolve : (made .hierarchical databases).resolve "db" ["shop"] =
      .error (.of (.ambiguous "db" ["shop.db", "db"]) ["shop"]) := by rfl
  obtain ⟨ds, hds, hmeans, -⟩ :=
    @resolve_means "db" ["shop"] .hierarchical databases hrequests hscope hne
  rcases ((hmeans rfl).2 _).mp hresolve with ⟨hlength, hf⟩ | ⟨-, hf⟩
  · have hids : (["shop.db", "db"] : List Text) = ds.map (·.id .hierarchical) := by
      simpa [Failure.of] using hf
    exact ⟨hrequests, hscope, hne, hresolve, ds, hds, hlength, hids.symm⟩
  · cases hf

end SystemAtlas.Identifier.Registry
