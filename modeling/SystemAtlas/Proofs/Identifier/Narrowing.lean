import SystemAtlas.Proofs.Identifier.Matching
import SystemAtlas.Proofs.Identifier.Resolving

/-! # Narrower lookups and other orders

What a reference may mean to those who accept less is what it may mean to those who accept more, as
far as it is accepted (`matching_narrowed`). So a lookup keeps its answer when less is accepted,
unless the answer itself is rejected. Registries that hold the same declarations in two orders agree
on what is declared at a path, so that references mean the same in them; only an ambiguity lists its
ids in the order in which they were declared (`SameDeclared.lookup`, `SameDeclared.resolve`). -/

namespace SystemAtlas.Identifier.Registry

variable {r r' : Registry} {id reference : Text} {scope : ScopePath} {mode : Mode}
  {accept accept' : Text → Bool}

/-! ## Less accepted -/

section
variable (hnarrow : ∀ id, accept' id = true → accept id = true)
include hnarrow

theorem matching_narrowed (r : Registry) (reference : Text) :
    r.matching reference accept' = (r.matching reference accept).filter accept' := by
  rw [matching, matching, List.filter_map, List.filter_filter]
  refine congrArg (List.map _) (List.filter_congr fun d _ => ?_)
  cases h : accept' (d.id r.mode) with
  | false => simp [h]
  | true => simp [h, hnarrow _ h]

/-- An id that is not declared or not accepted is not accepted by those who accept less. -/
theorem not_accepted_narrowed (h : ¬(r.contains reference = true ∧ accept reference = true)) :
    ¬(r.contains reference = true ∧ accept' reference = true) :=
  fun ⟨hc, ha⟩ => h ⟨hc, hnarrow _ ha⟩

theorem lookup_narrowed_ok (h : r.lookup reference accept = .ok id) (ha : accept' id = true) :
    r.lookup reference accept' = .ok id := by
  obtain ⟨⟨hc, -⟩, rfl⟩ | ⟨hnot, hids⟩ := lookup_eq_ok_iff.mp h
  · exact lookup_eq_ok_iff.mpr (.inl ⟨⟨hc, ha⟩, rfl⟩)
  · refine lookup_eq_ok_iff.mpr (.inr ⟨not_accepted_narrowed hnarrow hnot, ?_⟩)
    rw [matching_narrowed hnarrow, hids, List.filter_cons_of_pos ha, List.filter_nil]

end

/-- A lookup is refused because nothing is meant, or because more than one thing is. -/
theorem lookup_eq_error_iff {f : Failure} : r.lookup reference accept = .error f ↔
    ¬(r.contains reference = true ∧ accept reference = true) ∧
      (r.matching reference accept = [] ∧ f = .of (.undeclared reference) ∨
        2 ≤ (r.matching reference accept).length ∧
          f = .of (.ambiguous reference (r.matching reference accept))) := by
  rw [lookup]
  by_cases hc : r.contains reference = true ∧ accept reference = true
  · simp [hc]
  · rw [if_neg (by simpa using hc)]
    rcases r.matching reference accept with _ | ⟨x, _ | ⟨y, ids⟩⟩
    · simp [hc, @eq_comm _ f]
    · simp
    · simp [hc, @eq_comm _ f]

theorem lookup_narrowed_error {e : BuildError}
    (hnarrow : ∀ id, accept' id = true → accept id = true)
    (h : r.lookup reference accept = .error (.build e))
    (hkind : e.cause.kind = .unresolvedElement) :
    r.lookup reference accept' = .error (.build e) := by
  obtain ⟨hnot, ⟨hnil, hf⟩ | ⟨-, hf⟩⟩ := lookup_eq_error_iff.mp h
  · refine lookup_eq_error_iff.mpr ⟨not_accepted_narrowed hnarrow hnot, .inl ⟨?_, hf⟩⟩
    rw [matching_narrowed hnarrow, hnil, List.filter_nil]
  · cases hf
    cases hkind

/-! ## Another order -/

/-- Two registries form ids in one way and hold the same declarations. -/
structure SameDeclared (r r' : Registry) : Prop where
  mode : r.mode = r'.mode
  mem : ∀ d, d ∈ r.declared ↔ d ∈ r'.declared

/-- Two outcomes are the same, except that an ambiguity may list its ids in another order. -/
inductive SameOutcome : Except Failure Text → Except Failure Text → Prop
  | same (x : Except Failure Text) : SameOutcome x x
  | ambiguous (reference : Text) (scope : ScopePath) {ids ids' : List Text} (h : ids.Perm ids') :
    SameOutcome (.error (.of (.ambiguous reference ids) scope))
      (.error (.of (.ambiguous reference ids') scope))

namespace SameDeclared

theorem contains (h : r.SameDeclared r') (id : Text) : r.contains id = r'.contains id := by
  rw [Bool.eq_iff_iff, contains_iff, contains_iff]
  simp only [h.mem, h.mode]

theorem atPath? (h : r.SameDeclared r') (path : List Text) : r.atPath? path = r'.atPath? path := by
  have hfind : r.declared.find? (·.path == path) = r'.declared.find? (·.path == path) := by
    apply Option.ext
    intro d
    rw [find?_path_eq_some_iff, find?_path_eq_some_iff, h.mem]
  simp only [Registry.atPath?, h.mode, h.contains, hfind]

/-- A reference is resolved by what is declared at some paths, in whatever order it was. -/
theorem resolve (h : r.SameDeclared r') (reference : Text) (scope : ScopePath) :
    r.resolve reference scope = r'.resolve reference scope := by
  simp only [Registry.resolve, candidates, h.mode, h.contains, h.atPath?]

theorem perm_matching (h : r.SameDeclared r') (hn : r.ids.Nodup) (hn' : r'.ids.Nodup)
    (reference : Text) (accept : Text → Bool) :
    (r.matching reference accept).Perm (r'.matching reference accept) := by
  have hperm : r.declared.Perm r'.declared :=
    (List.perm_ext_iff_of_nodup (List.Nodup.of_map _ hn) (List.Nodup.of_map _ hn')).mpr h.mem
  rw [matching, matching, h.mode]
  exact (hperm.filter _).map _

theorem lookup (h : r.SameDeclared r') (hn : r.ids.Nodup) (hn' : r'.ids.Nodup)
    (reference : Text) (accept : Text → Bool) :
    SameOutcome (r.lookup reference accept) (r'.lookup reference accept) := by
  have hperm := h.perm_matching hn hn' reference accept
  rw [Registry.lookup, Registry.lookup, h.contains]
  split
  · apply SameOutcome.same
  generalize r.matching reference accept = ids at hperm
  generalize r'.matching reference accept = ids' at hperm
  rcases ids with _ | ⟨x, _ | ⟨y, ids⟩⟩
  · rw [hperm.nil_eq.symm]
    apply SameOutcome.same
  · rw [List.singleton_perm.mp hperm]
    apply SameOutcome.same
  · have hlength := hperm.length_eq
    rcases ids' with _ | ⟨x', _ | ⟨y', ids'⟩⟩
    · cases hlength
    · cases hlength
    · exact .ambiguous reference [] hperm

end SameDeclared

/-! ## Any lookup -/

/-- Accepting less never redirects a lookup: in a registry made by any requests, it leaves the
answer that is still accepted, and what was unresolved stays so. In two registries that requests
made in one mode, and that hold the same declarations, every lookup and every resolution has the
same outcome. -/
theorem lookup_keeps_answer (mode : Mode) (requests : List Request) :
    (∀ reference (accept accept' : Text → Bool), (∀ id, accept' id = true → accept id = true) →
      (∀ id, (made mode requests).lookup reference accept = .ok id → accept' id = true →
        (made mode requests).lookup reference accept' = .ok id) ∧
      ∀ e : BuildError, (made mode requests).lookup reference accept = .error (.build e) →
        e.cause.kind = .unresolvedElement →
        (made mode requests).lookup reference accept' = .error (.build e)) ∧
    ∀ requests' : List Request,
      (∀ d, d ∈ (made mode requests).declared ↔ d ∈ (made mode requests').declared) →
      (∀ reference accept, SameOutcome ((made mode requests).lookup reference accept)
        ((made mode requests').lookup reference accept)) ∧
      ∀ reference scope, (made mode requests).resolve reference scope =
        (made mode requests').resolve reference scope := by
  constructor
  · intro reference accept accept' hnarrow
    constructor
    · intro id h ha
      exact lookup_narrowed_ok hnarrow h ha
    · intro e h hkind
      exact lookup_narrowed_error hnarrow h hkind
  · intro requests' hmem
    have hsame : (made mode requests).SameDeclared (made mode requests') := by
      refine ⟨?_, hmem⟩
      rw [mode_made, mode_made]
    constructor
    · apply hsame.lookup <;> apply nodup_ids_made
    · exact hsame.resolve

/-- A database of the workspace, of the shop and of the bank. -/
def threeDatabases : List Request :=
  [.declare "db" [], .declare "db" ["shop"], .declare "db" ["bank"]]

/-- The database of the workspace is meant by its id if that is accepted. If it is not, those of the
shop and the bank are meant, in the order in which they were declared, and either of them if the
other is not accepted. -/
theorem threeDatabases_lookup :
    (made .hierarchical threeDatabases).lookup "db" (fun id => id == "bank.db") = .ok "bank.db" ∧
      (made .hierarchical threeDatabases).lookup "cache" (fun id => id == "bank.db") =
        .error (.of (.undeclared "cache")) ∧
      (made .hierarchical threeDatabases).lookup "db" (fun id => id != "db") =
        .error (.of (.ambiguous "db" ["shop.db", "bank.db"])) ∧
      (made .hierarchical threeDatabases.reverse).lookup "db" (fun id => id != "db") =
        .error (.of (.ambiguous "db" ["bank.db", "shop.db"])) ∧
      SameOutcome ((made .hierarchical threeDatabases).lookup "db" (fun id => id != "db"))
        ((made .hierarchical threeDatabases.reverse).lookup "db" (fun id => id != "db")) := by
  obtain ⟨hnarrow, horder⟩ := lookup_keeps_answer .hierarchical threeDatabases
  have hbank : ∀ id : Text, (id == "bank.db") = true →
      (fun id : Text => id != "db" && id != "shop.db") id = true := by
    intro id h
    rw [eq_of_beq h]
    decide +kernel
  have hmem : ∀ d, d ∈ (made .hierarchical threeDatabases).declared ↔
      d ∈ (made .hierarchical threeDatabases.reverse).declared := by
    intro d
    have hreverse : (made .hierarchical threeDatabases.reverse).declared =
        (made .hierarchical threeDatabases).declared.reverse := by rfl
    rw [hreverse, List.mem_reverse]
  refine ⟨?_, ?_, by rfl, by rfl, (horder _ hmem).1 _ _⟩
  · exact (hnarrow "db" _ _ hbank).1 _ (by rfl) (by rfl)
  · exact (hnarrow "cache" _ _ hbank).2 ⟨.undeclared "cache", [], none, none⟩ (by rfl) (by rfl)

end SystemAtlas.Identifier.Registry
