import SystemAtlas.Identifier.Ledger
import SystemAtlas.Proofs.Identifier.Allocating
import SystemAtlas.Proofs.Identifier.Resolving

/-! # What a ledger keeps

A ledger that calls have made keeps the registry that the same requests make, with ids and numbers
as they follow from it (`calls_of`). So both answer alike, a refused call leaves the ledger as it
was (`declare_of`), and the search for a free name ends (`allocate_of`). A declaration keeps its
place ever after (`Registry.Holds`), and so its id and its number. -/

namespace SystemAtlas.Identifier

variable {r : Registry} {d : Declared} {id name reference : Text} {scope : ScopePath}

namespace Ledger

/-- A declaration as the `n`-th entry. -/
def entry (mode : Mode) (d : Declared) (n : Nat) : Entry := ⟨d.id mode, d, n⟩

/-- The ledger that keeps a registry: the declarations under their ids, numbered from one on. -/
def of (r : Registry) : Ledger where
  mode := r.mode
  entries := ⟨(r.declared.zipIdx 1).map fun x => (x.1.id r.mode, entry r.mode x.1 x.2)⟩
  sequence := r.sequence

/-! ## Numbered lists -/

theorem map_fst_zipIdx {α β : Type} (f : α → β) (xs : List α) (k : Nat) :
    (xs.zipIdx k).map (fun x => f x.1) = xs.map f := by
  have h := congrArg (List.map f) (List.zipIdx_map_fst k xs)
  rwa [List.map_map] at h

theorem map_filter_zipIdx {α β : Type} (p : α → Bool) (f : α → β) (xs : List α) (k : Nat) :
    ((xs.zipIdx k).filter fun x => p x.1).map (fun x => f x.1) = (xs.filter p).map f := by
  have h := congrArg (fun ys => (ys.filter p).map f) (List.zipIdx_map_fst k xs)
  rwa [List.filter_map, List.map_map] at h

theorem find?_zipIdx {α : Type} (p : α → Bool) (xs : List α) (k : Nat) :
    (xs.zipIdx k).find? (fun x => p x.1) =
      (xs.findIdx? p).bind fun i => xs[i]?.map fun x => (x, i + k) := by
  induction xs generalizing k with
  | nil => rfl
  | cons x xs ih =>
    rw [List.zipIdx_cons, List.find?_cons, List.findIdx?_cons]
    cases p x with
    | true => simp
    | false => cases hfind : xs.findIdx? p <;> simp [ih, hfind, Nat.add_assoc, Nat.add_comm 1]

/-! ## Answers of a ledger -/

theorem values_of (r : Registry) :
    (of r).entries.values = (r.declared.zipIdx 1).map fun x => entry r.mode x.1 x.2 :=
  List.map_map

theorem ids_of (r : Registry) : (of r).entries.values.map (·.id) = r.ids := by
  rw [values_of, List.map_map]
  exact map_fst_zipIdx (·.id r.mode) r.declared 1

theorem contains_of (r : Registry) (id : Text) : (of r).contains id = r.contains id := by
  have hkeys : (of r).entries.entries.map (·.1) = r.ids := by
    rw [of, List.map_map]
    exact map_fst_zipIdx (·.id r.mode) r.declared 1
  rw [contains, Table.contains, Registry.contains, ← hkeys, List.contains_eq_any_beq, List.any_map]
  simp only [Function.comp_def, Bool.beq_comm]

theorem get?_of (r : Registry) (id : Text) : (of r).entries.get? id =
    (r.ids.findIdx? (· == id)).bind fun i =>
      r.declared[i]?.map fun d => entry r.mode d (i + 1) := by
  have hfind : (r.declared.zipIdx 1).find? (fun x => x.1.id r.mode == id) =
      (r.declared.findIdx? (·.id r.mode == id)).bind fun i =>
        r.declared[i]?.map fun d => (d, i + 1) :=
    find?_zipIdx (·.id r.mode == id) r.declared 1
  rw [Table.get?, of, List.find?_map, Function.comp_def, hfind, Registry.ids, List.findIdx?_map]
  simp only [Function.comp_def, Option.map_bind, Option.map_map]

theorem map_declared_get?_of (r : Registry) (id : Text) :
    ((of r).entries.get? id).map (·.declared) = r.find? id := by
  rw [get?_of, Registry.find?, List.find?_eq_bind_findIdx?_getElem?, Registry.ids,
    List.findIdx?_map]
  simp [Function.comp_def, Option.map_bind, entry]

theorem map_get_of {β : Type} (f : Declared → β) (r : Registry) (id : Text) :
    (fun e => f e.declared) <$> (of r).get id = f <$> r.get id := by
  rw [get, Registry.get, ← map_declared_get?_of]
  cases (of r).entries.get? id <;> rfl

theorem localName_of (r : Registry) (id : Text) : (of r).localName id = r.localName id :=
  map_get_of (·.localName) r id

theorem framePath_of (r : Registry) (id : Text) : (of r).framePath id = r.framePath id :=
  map_get_of (·.path) r id

theorem sequenceOf_of (r : Registry) (id : Text) : (of r).sequenceOf id = r.sequenceOf id := by
  rw [sequenceOf, get, get?_of, Registry.sequenceOf]
  cases hfind : r.ids.findIdx? (· == id) with
  | none => rfl
  | some i =>
    obtain ⟨hlt, -⟩ := List.findIdx?_eq_some_iff_getElem.mp hfind
    rw [Registry.ids, List.length_map] at hlt
    rw [Option.bind_some, List.getElem?_eq_getElem hlt]
    rfl

theorem matching_of (r : Registry) (reference : Text) (accept : Text → Bool) :
    (of r).matching reference accept = r.matching reference accept := by
  rw [matching, values_of, List.filter_map, List.map_map]
  exact map_filter_zipIdx (fun d => reference.dotted.isSuffixOf d.path && accept (d.id r.mode))
    (·.id r.mode) r.declared 1

theorem lookup_of (r : Registry) (reference : Text) (accept : Text → Bool) :
    (of r).lookup reference accept = r.lookup reference accept := by
  rw [lookup, contains_of, matching_of]
  rcases hm : r.matching reference accept with _ | ⟨x, _ | ⟨y, ids⟩⟩ <;>
    rw [Registry.lookup, hm]

/-! ## Calls -/

theorem of_add (r : Registry) (d : Declared) : of (r.add d) =
    { of r with
      entries := ⟨(of r).entries.entries ++ [(d.id r.mode, entry r.mode d (r.sequence + 1))]⟩
      sequence := r.sequence + 1 } := by
  simp [of, Registry.add, Registry.sequence, List.zipIdx_append, Nat.add_comm 1]

/-- A declaration is entered if the registry takes it, and else nothing is. -/
theorem declare_of (r : Registry) (name : Text) (scope : ScopePath) :
    (declare name scope).run (of r) =
      match r.declare name scope with
      | .ok (id, r') => .ok id (of r')
      | .error f => .error f (of r) := by
  have hid : (of r).compose name scope = Declared.id r.mode ⟨scope, name⟩ := rfl
  rw [declare, Edit.run_refuseIf_bind, Edit.run_get_bind, Edit.run_refuseIf_bind, hid, contains_of,
    Registry.declare]
  by_cases hname : (!isLocalName name) = true
  · rw [if_pos hname, if_pos hname]
  rw [if_neg hname, if_neg hname]
  by_cases hnew : r.contains (Declared.id r.mode ⟨scope, name⟩) = true
  · rw [if_pos hnew, if_pos hnew]
  rw [if_neg hnew, if_neg hnew]
  have hset := Table.set_of_new (t := (of r).entries) (entry r.mode ⟨scope, name⟩ (r.sequence + 1))
    ((contains_of r _).trans (eq_false_of_ne_true hnew))
  refine congrArg (EStateM.Result.ok _) (Eq.trans ?_ (of_add r ⟨scope, name⟩).symm)
  rw [← hset]
  rfl

/-- The search tries the candidates in order, so it ends at the first that is free. -/
theorem search_of_leastFree {taken : Text → Bool} {base : Text} {k n rounds : Nat}
    (h : Registry.LeastFree taken base k) (hn : 1 ≤ n) (hle : n ≤ k) (hrounds : k < n + rounds) :
    search taken base rounds (Registry.candidate base n) (n + 1) =
      some (Registry.candidate base k) := by
  induction rounds generalizing n with
  | zero => omega
  | succ rounds ih =>
    rw [search]
    by_cases hk : n = k
    · subst hk
      rw [h.free, if_neg Bool.false_ne_true]
    · have hnext : numbered base (n + 1) = Registry.candidate base (n + 1) := by
        rw [Registry.candidate, if_neg (by omega), numbered]
      rw [if_pos (h.least n hn (by omega)), hnext, ih (by omega) (by omega) (by omega)]

/-- A name is allocated as in the registry, after a search that ends. -/
theorem allocate_of (r : Registry) (displayName : Option Text) (scope : ScopePath) :
    (of r).allocate displayName scope = some (
      match r.allocate (displayName.getD "") scope with
      | .ok (id, r') => .ok id (of r')
      | .error f => .error f (of r)) := by
  obtain ⟨k, hk, hleast⟩ := r.exists_leastFree (slug (displayName.getD "")) scope
  have htaken : (fun name => (of r).contains ((of r).compose name scope)) =
      fun name => r.contains (Declared.id r.mode ⟨scope, name⟩) :=
    funext fun name => contains_of r _
  have hlength : (of r).entries.values.length = r.sequence := by
    rw [values_of, List.length_map, List.length_zipIdx, Registry.sequence]
  have hrounds : k < 1 + (r.sequence + 1) := by omega
  have hsearch := search_of_leastFree hleast (Nat.le_refl 1) hleast.pos hrounds
  rw [allocate, htaken, hlength]
  refine (congrArg _ hsearch).trans ?_
  rw [Option.map_some, declare_of, Registry.allocate, hleast.firstFree_eq hk]

/-! ## Runs -/

/-- Something to be declared: under the name given, or under one that is made of a display name, of
which there may be none. -/
inductive Call where
  | declare (name : Text) (scope : ScopePath)
  | allocate (displayName : Option Text) (scope : ScopePath)

/-- What a call asks of a registry. No display name is as good as an empty one. -/
def Call.request : Call → Registry.Request
  | declare name scope => .declare name scope
  | allocate displayName scope => .allocate (displayName.getD "") scope

/-- What a call comes to; `none` if it does not end. -/
def call (l : Ledger) : Call → Option (EStateM.Result Failure Ledger Text)
  | .declare name scope => some ((declare name scope).run l)
  | .allocate displayName scope => l.allocate displayName scope

/-- The answers of calls made one after the other and the ledger they leave, whether they are
refused or not; `none` if one of them does not end. -/
def calls (l : Ledger) : List Call → Option (List (Except Failure Text) × Ledger)
  | [] => some ([], l)
  | c :: rest => do
    let (answer, l) := Edit.answered (← l.call c)
    let (answers, l) ← l.calls rest
    return (answer :: answers, l)

/-- The ids among answers. -/
def idsAmong (answers : List (Except Failure Text)) : List Text := answers.filterMap (·.toOption)

theorem call_of (r : Registry) (c : Call) : (of r).call c = some (
    match r.meet c.request with
    | .ok (id, r') => .ok id (of r')
    | .error f => .error f (of r)) := by
  cases c with
  | declare name scope => exact congrArg some (declare_of r name scope)
  | allocate displayName scope => exact allocate_of r displayName scope

/-- Every run of calls ends, in the ledger of what the requests make of the registry, and the ids
among its answers are the new ids. -/
theorem calls_of (r : Registry) (cs : List Call) : ∃ answers,
    (of r).calls cs = some (answers, of ((cs.map Call.request).foldl Registry.attempt r)) ∧
      ((cs.map Call.request).foldl Registry.attempt r).ids = r.ids ++ idsAmong answers := by
  induction cs generalizing r with
  | nil => exact ⟨[], rfl, (List.append_nil _).symm⟩
  | cons c cs ih =>
    rw [List.map_cons, List.foldl_cons, calls, call_of, Registry.attempt]
    cases hmeet : r.meet c.request with
    | error f =>
      obtain ⟨answers, hcalls, hids⟩ := ih r
      refine ⟨.error f :: answers, ?_, hids⟩
      simp [Edit.answered, hcalls]
    | ok x =>
      obtain ⟨id, r'⟩ := x
      obtain ⟨answers, hcalls, hids⟩ := ih r'
      refine ⟨.ok id :: answers, by simp [Edit.answered, hcalls], ?_⟩
      obtain ⟨d, -, -, rfl, rfl⟩ := Registry.meet_eq_ok hmeet
      rw [hids, Registry.ids_add, List.append_assoc]
      rfl

end Ledger

/-! ## Ids ever after -/

namespace Registry

variable {i : Nat}

/-- The ids of a registry differ, and behind `i` others stands a declaration. -/
structure Holds (r : Registry) (i : Nat) (d : Declared) : Prop where
  nodup : r.ids.Nodup
  declared : r.declared[i]? = some d

theorem Holds.add {x : Declared} (h : r.Holds i d) (hfree : r.Free x) : (r.add x).Holds i d where
  nodup := hfree.nodup_ids h.nodup
  declared := by
    obtain ⟨hlt, hd⟩ := List.getElem?_eq_some_iff.mp h.declared
    rw [Registry.add, List.getElem?_append_left hlt, h.declared]

theorem Free.holds (h : r.Free d) (hn : r.ids.Nodup) : (r.add d).Holds r.sequence d where
  nodup := h.nodup_ids hn
  declared := List.getElem?_concat_length

theorem Holds.attempts (h : r.Holds i d) (requests : List Request) :
    (requests.foldl attempt r).Holds i d :=
  foldl_attempt_induction (P := fun r => r.Holds i d) h fun _ _ _ _ h hfree _ => h.add hfree

theorem mode_foldl_attempt (r : Registry) (requests : List Request) :
    (requests.foldl attempt r).mode = r.mode :=
  foldl_attempt_induction (P := fun next => next.mode = r.mode) rfl fun _ _ _ _ hr _ _ => hr

theorem Holds.mem (h : r.Holds i d) : d ∈ r.declared := List.mem_of_getElem? h.declared

theorem Holds.find? (h : r.Holds i d) : r.find? (d.id r.mode) = some d :=
  find?_key_of_mem h.nodup h.mem

theorem Holds.localName (h : r.Holds i d) : r.localName (d.id r.mode) = .ok d.localName := by
  rw [Registry.localName, get, h.find?]
  rfl

theorem Holds.framePath (h : r.Holds i d) : r.framePath (d.id r.mode) = .ok d.path := by
  rw [Registry.framePath, get, h.find?]
  rfl

theorem Holds.sequenceOf (h : r.Holds i d) : r.sequenceOf (d.id r.mode) = .ok (i + 1) := by
  obtain ⟨hlt, hd⟩ := List.getElem?_eq_some_iff.mp h.declared
  have hlt' : i < r.ids.length := by rwa [ids, List.length_map]
  have hid : r.ids[i] = d.id r.mode := by simp only [ids, List.getElem_map, hd]
  refine sequenceOf_eq_ok_iff.mpr ⟨i, List.findIdx?_eq_some_iff_getElem.mpr ?_, rfl⟩
  refine ⟨hlt', by simp [hid], fun j hj hsame => ?_⟩
  have heq : r.ids[j] = r.ids[i] := by simpa [hid] using hsame
  exact absurd (h.nodup.getElem_inj_iff.mp heq) (Nat.ne_of_lt hj)

theorem Holds.lookup (h : r.Holds i d) :
    r.lookup (d.id r.mode) (fun _ => true) = .ok (d.id r.mode) := by
  rw [Registry.lookup, contains_iff.mpr ⟨d, h.mem, rfl⟩]
  rfl

end Registry

namespace Ledger

/-- A declaration is one that a call asks for: it stands in the scope given, and has the name given
if there is one. -/
def Call.AsksFor : Call → Declared → Prop
  | declare name scope, d => d = ⟨scope, name⟩
  | allocate _ scope, d => d.scope = scope

theorem asksFor_of_meet {c : Call} {next : Registry} (h : r.meet c.request = .ok (id, next)) :
    ∃ d, r.Free d ∧ c.AsksFor d ∧ id = d.id r.mode ∧ next = r.add d := by
  cases c with
  | declare name scope =>
    obtain ⟨hfree, hid, hnext⟩ := Registry.declare_eq_ok_iff.mp h
    exact ⟨_, hfree, rfl, hid, hnext⟩
  | allocate displayName scope =>
    obtain ⟨hfree, hid, hnext⟩ := Registry.declare_eq_ok_iff.mp h
    exact ⟨_, hfree, rfl, hid, hnext⟩

/-- Whatever calls come later, a declaration keeps its number, its names and its id. -/
theorem kept_by_later (hnodup : r.ids.Nodup) (hfree : r.Free d) {later : List Call}
    {answers : List (Except Failure Text)} {l : Ledger}
    (hlater : calls (of (r.add d)) later = some (answers, l)) :
    l.sequenceOf (d.id r.mode) = .ok (r.sequence + 1) ∧
      l.localName (d.id r.mode) = .ok d.localName ∧ l.framePath (d.id r.mode) = .ok d.path ∧
      l.lookup (d.id r.mode) = .ok (d.id r.mode) := by
  obtain ⟨_, hrun, -⟩ := calls_of (r.add d) later
  have hkept := (hfree.holds hnodup).attempts (later.map Call.request)
  have hmode := Registry.mode_foldl_attempt (r.add d) (later.map Call.request)
  generalize (later.map Call.request).foldl Registry.attempt (r.add d) = next at hrun hkept hmode
  cases hrun.symm.trans hlater
  have hid : d.id r.mode = d.id next.mode := by rw [hmode, Registry.add]
  rw [sequenceOf_of, localName_of, framePath_of, lookup_of, hid]
  exact ⟨hkept.sequenceOf, hkept.localName, hkept.framePath, hkept.lookup⟩

/-- Let a ledger be left by any calls, refused ones among them. All of them came to an end, and the
ids they gave differ. The ledger counts these ids. A further call that is refused leaves the ledger
as it is. One that gives an id makes a declaration that it asks for, with the next number. After
whatever calls come later, the id has this number still, is that of the same local name and the same
path, and means itself. -/
theorem ids_kept_by_calls (mode : Mode) (cs : List Call) :
    ∃ answers l, calls { mode } cs = some (answers, l) ∧ (idsAmong answers).Nodup ∧
      l.sequence = (idsAmong answers).length ∧
      l.entries.values.map (·.id) = idsAmong answers ∧
      ∀ c, (∀ f l', l.call c = some (.error f l') → l' = l) ∧
        ∀ id l', l.call c = some (.ok id l') → ∃ d, c.AsksFor d ∧ id = d.id mode ∧
          ∀ later answers' l'', l'.calls later = some (answers', l'') →
            l''.sequenceOf id = .ok ((idsAmong answers).length + 1) ∧
              l''.localName id = .ok d.localName ∧ l''.framePath id = .ok d.path ∧
              l''.lookup id = .ok id := by
  obtain ⟨answers, hcalls, hids⟩ := calls_of { mode } cs
  change Registry.ids (Registry.made mode _) = _ at hids
  change calls (of { mode }) cs = some (answers, of (Registry.made mode _)) at hcalls
  have hmode := Registry.mode_made mode (cs.map Call.request)
  have hnodup := Registry.nodup_ids_made mode (cs.map Call.request)
  generalize Registry.made mode (cs.map Call.request) = r at hcalls hids hmode hnodup
  rw [show Registry.ids { mode } = [] from rfl, List.nil_append] at hids
  have hsequence : r.sequence = (idsAmong answers).length := by
    rw [← hids, Registry.ids, List.length_map, Registry.sequence]
  refine ⟨answers, of r, hcalls, hids ▸ hnodup, hsequence, (ids_of r).trans hids, fun c => ?_⟩
  rw [call_of]
  cases hmeet : r.meet c.request with
  | error f =>
    constructor
    · rintro _ _ ⟨⟩
      rfl
    · rintro _ _ ⟨⟩
  | ok x =>
    obtain ⟨id, next⟩ := x
    obtain ⟨d, hfree, hasks, rfl, rfl⟩ := asksFor_of_meet hmeet
    constructor
    · rintro _ _ ⟨⟩
    · rintro _ _ ⟨⟩
      refine ⟨d, hasks, hmode ▸ rfl, fun later answers' l'' hlater => ?_⟩
      rw [← hsequence]
      exact kept_by_later hnodup hfree hlater

/-- A shop with a database, which is declared twice, and something without a name. -/
def shopCalls : List Call :=
  [.allocate (some "Shop") [], .declare "db" ["shop"], .declare "db" ["shop"],
    .allocate none ["shop"]]

/-- The database of the shop is not declared once more, while one of the workspace is: it gets the
number behind the three ids there are and is meant by its id, although the path of the other one
ends with it too. -/
theorem shopCalls_kept : ∃ answers l l',
    calls { mode := .hierarchical } shopCalls = some (answers, l) ∧
    idsAmong answers = ["shop", "shop.db", "shop.element"] ∧
    l.call (.declare "db" ["shop"]) =
      some (.error (.of (.identifierTaken "shop.db") ["shop"]) l) ∧
    l.call (.declare "db" []) = some (.ok "db" l') ∧ l'.sequenceOf "db" = .ok 4 ∧
    l'.localName "db" = .ok "db" ∧ l'.framePath "db" = .ok ["db"] ∧ l'.lookup "db" = .ok "db" := by
  obtain ⟨answers, l, hcalls, -, -, -, hcall⟩ := ids_kept_by_calls .hierarchical shopCalls
  obtain ⟨_, hrun, hids⟩ := calls_of { mode := .hierarchical } shopCalls
  cases hcalls.symm.trans hrun
  have hanswers : idsAmong answers = ["shop", "shop.db", "shop.element"] := hids.symm
  have hrefused := call_of ((shopCalls.map Call.request).foldl Registry.attempt
    { mode := .hierarchical }) (.declare "db" ["shop"])
  have hmade := call_of ((shopCalls.map Call.request).foldl Registry.attempt
    { mode := .hierarchical }) (.declare "db" [])
  obtain ⟨d, rfl, -, hkept⟩ := (hcall (.declare "db" [])).2 _ _ hmade
  obtain ⟨hsequence, hlocalName, hframePath, hlookup⟩ := hkept [] [] _ rfl
  rw [hanswers] at hsequence
  exact ⟨answers, _, _, hcalls, hanswers, hrefused, hmade, hsequence, hlocalName, hframePath,
    hlookup⟩

end Ledger

end SystemAtlas.Identifier
