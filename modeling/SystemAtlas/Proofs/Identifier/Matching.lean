import SystemAtlas.Proofs.Identifier.Earlier

/-! # What a reference may mean anywhere

A reference that is looked up means the only accepted declaration whose path ends with it
(`lookup_eq`): one that has it as its id is no exception as long as the accepted paths have one
length. Such declarations keep their order when others are made, and the new ones stand behind
(`matching_eq_append`). -/

namespace SystemAtlas.Identifier.Registry

variable {r : Registry} {d : Declared} {n : Nat} {id other reference : Text}
  {accept accept' : Text → Bool}

theorem mem_matching_iff : id ∈ r.matching reference accept ↔
    ∃ d ∈ r.declared, d.id r.mode = id ∧ EndsWith reference d ∧ accept id = true := by
  simp only [matching, List.mem_map, List.mem_filter, Bool.and_eq_true,
    List.isSuffixOf_iff_suffix, EndsWith]
  constructor
  · rintro ⟨d, ⟨hd, he, ha⟩, rfl⟩
    exact ⟨d, hd, rfl, he, ha⟩
  · rintro ⟨d, hd, rfl, he, ha⟩
    exact ⟨d, ⟨hd, he, ha⟩, rfl⟩

theorem matching_sublist : (r.matching reference accept).Sublist r.ids :=
  List.filter_sublist.map _

/-! ## Later declarations -/

/-- The registry of all but the first `n` declarations. -/
def since (r : Registry) (n : Nat) : Registry := { r with declared := r.declared.drop n }

theorem ids_eq_append (n : Nat) : r.ids = (r.upTo n).ids ++ (r.since n).ids := by
  rw [ids_upTo, ids, since, ids, List.map_drop, List.take_append_drop]

/-- One id is declared before another. -/
def Precedes (r : Registry) (id other : Text) : Prop :=
  ∃ m n, r.sequenceOf id = .ok m ∧ r.sequenceOf other = .ok n ∧ m < n

/-- What was declared first precedes what was not. -/
theorem precedes_of_since (hn : r.ids.Nodup) (hid : (r.upTo n).contains id = true)
    (hother : other ∈ (r.since n).ids) : r.Precedes id other := by
  obtain ⟨k, hk, hle⟩ := contains_upTo_iff.mp hid
  have hc : r.contains other = true := by
    rw [contains, List.contains_iff_mem, ids_eq_append n]
    exact List.mem_append_right _ hother
  obtain ⟨m, hm⟩ := exists_sequenceOf hc
  refine ⟨k, m, hk, hm, Nat.lt_of_not_le fun hle' => ?_⟩
  have hearly := contains_upTo_iff.mpr ⟨m, hm, Nat.le_trans hle' hle⟩
  rw [contains, List.contains_iff_mem] at hearly
  rw [ids_eq_append n] at hn
  exact (List.nodup_append.mp hn).2.2 _ hearly _ hother rfl

/-- What a reference may mean among all declarations is what it may mean among the first ones, and
then among the others. -/
theorem matching_eq_append (n : Nat) : r.matching reference accept =
    (r.upTo n).matching reference accept ++ (r.since n).matching reference accept := by
  simp only [matching, upTo, since, ← List.map_append, ← List.filter_append,
    List.take_append_drop]

theorem matching_congr (h : ∀ id, r.contains id = true → accept id = accept' id) :
    r.matching reference accept = r.matching reference accept' := by
  rw [matching, matching]
  refine congrArg (List.map _) (List.filter_congr fun d hd => ?_)
  rw [h _ (contains_iff.mpr ⟨d, hd, rfl⟩)]

/-- A declaration that is not accepted adds no meaning. -/
theorem matching_add (h : accept (d.id r.mode) = false) :
    (r.add d).matching reference accept = r.matching reference accept := by
  have hnot : (reference.dotted.isSuffixOf d.path && accept (d.id r.mode)) = false := by
    rw [h, Bool.and_false]
  rw [matching, matching, add, List.filter_append, List.filter_cons_of_neg (by simpa using hnot),
    List.filter_nil, List.append_nil]

/-! ## Looking up -/

section
variable (hr : r.DotFree) (hn : r.ids.Nodup)
  (hlength : r.mode = .hierarchical →
    ∃ k, ∀ d ∈ r.declared, accept (d.id r.mode) = true → d.path.length = k)
include hr hn hlength

/-- An accepted id may mean nothing but itself. -/
theorem matching_self (hc : r.contains reference = true) (ha : accept reference = true) :
    r.matching reference accept = [reference] := by
  obtain ⟨d, hd, hid⟩ := contains_iff.mp hc
  have he : EndsWith reference d := endsWith_id (hr d hd) hid
  refine eq_singleton_of_nodup (hn.sublist matching_sublist)
    (mem_matching_iff.mpr ⟨d, hd, hid, he, ha⟩) fun id hmem => ?_
  obtain ⟨x, hx, rfl, hxe, hxa⟩ := mem_matching_iff.mp hmem
  rw [← hid]
  cases hm : r.mode with
  | flat => exact hxe.localName_eq.trans he.localName_eq.symm
  | hierarchical =>
    obtain ⟨k, hk⟩ := hlength hm
    -- a path that ends with another one of its length is that one
    rw [hm] at hid
    have hdotted : reference.dotted = d.path := by
      rw [← hid]
      exact Text.dotted_intercalate (by simp [Declared.path]) (hr d hd)
    rw [EndsWith, hdotted] at hxe
    have hpath : d.path = x.path := hxe.eq_of_length
      ((hk d hd (by rwa [hm, hid])).trans (hk x hx hxa).symm)
    exact congrArg (Text.intercalate ".") hpath.symm

/-- A lookup is decided by what the reference may mean. -/
theorem lookup_eq : r.lookup reference accept =
    match r.matching reference accept with
    | [] => .error (.of (.undeclared reference))
    | [id] => .ok id
    | ids => .error (.of (.ambiguous reference ids)) := by
  rw [lookup]
  split
  · next h =>
    obtain ⟨hc, ha⟩ := Bool.and_eq_true_iff.mp h
    rw [matching_self hr hn hlength hc ha]
  · rfl

theorem matching_of_lookup (h : r.lookup reference accept = .ok id) :
    r.matching reference accept = [id] := by
  rw [lookup_eq hr hn hlength] at h
  split at h
  · cases h
  · next hids => rw [hids, Except.ok.inj h]
  · cases h

end

end SystemAtlas.Identifier.Registry
