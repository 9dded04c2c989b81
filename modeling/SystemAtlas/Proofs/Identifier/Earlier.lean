import SystemAtlas.Proofs.Identifier.Registry

/-! # Earlier registries

A registry as it was after its first declarations. What a reference means in the whole registry it
meant there already, if that is one of these declarations (`resolve_upTo`). What it meant there it
still means in flat mode (`resolve_of_upTo`), while in hierarchical mode a later declaration may
stand at the reference too and make it ambiguous (`resolve_or_ambiguous_of_upTo`). -/

namespace SystemAtlas.Identifier.Registry

variable {r : Registry} {d : Declared} {n : Nat} {id reference : Text} {scope : ScopePath}

/-- The registry of the first `n` declarations. -/
def upTo (r : Registry) (n : Nat) : Registry := { r with declared := r.declared.take n }

theorem ids_upTo : (r.upTo n).ids = r.ids.take n := List.map_take

theorem mem_of_mem_upTo (hd : d ∈ (r.upTo n).declared) : d ∈ r.declared := List.mem_of_mem_take hd

theorem contains_of_upTo (h : (r.upTo n).contains id = true) : r.contains id = true := by
  obtain ⟨d, hd, hid⟩ := contains_iff.mp h
  exact contains_iff.mpr ⟨d, mem_of_mem_upTo hd, hid⟩

theorem DotFree.upTo (hr : r.DotFree) : (r.upTo n).DotFree :=
  fun d hd => hr d (mem_of_mem_upTo hd)

theorem sequenceOf_eq_ok_iff :
    r.sequenceOf id = .ok n ↔ ∃ i, r.ids.findIdx? (· == id) = some i ∧ n = i + 1 := by
  rw [sequenceOf]
  cases r.ids.findIdx? (· == id) with
  | none => simp
  | some i => simp [@eq_comm _ n]

theorem contains_eq_isSome (r : Registry) (id : Text) :
    r.contains id = (r.ids.findIdx? (· == id)).isSome := by
  rw [contains, List.findIdx?_isSome, List.contains_eq_any_beq]
  simp only [Bool.beq_comm]

theorem exists_sequenceOf (h : r.contains id = true) : ∃ n, r.sequenceOf id = .ok n := by
  rw [contains_eq_isSome] at h
  obtain ⟨i, hi⟩ := Option.isSome_iff_exists.mp h
  exact ⟨i + 1, sequenceOf_eq_ok_iff.mpr ⟨i, hi, rfl⟩⟩

/-- The first `n` declarations are those whose sequence number is at most `n`. -/
theorem contains_upTo_iff :
    (r.upTo n).contains id = true ↔ ∃ k, r.sequenceOf id = .ok k ∧ k ≤ n := by
  rw [contains_eq_isSome, ids_upTo, List.findIdx?_take, Option.isSome_iff_exists]
  simp only [sequenceOf_eq_ok_iff, Option.bind_eq_some_iff, Option.guard_eq_some_iff,
    decide_eq_true_eq]
  constructor
  · rintro ⟨_, i, hi, rfl, hlt⟩
    exact ⟨i + 1, ⟨i, hi, rfl⟩, hlt⟩
  · rintro ⟨_, ⟨i, hi, rfl⟩, hlt⟩
    exact ⟨i, i, hi, rfl, hlt⟩

/-- The first declarations keep their sequence numbers. -/
theorem sequenceOf_upTo {k : Nat} (hk : k ≤ n) (h : r.sequenceOf id = .ok k) :
    (r.upTo n).sequenceOf id = .ok k := by
  obtain ⟨i, hi, rfl⟩ := sequenceOf_eq_ok_iff.mp h
  refine sequenceOf_eq_ok_iff.mpr ⟨i, ?_, rfl⟩
  rw [ids_upTo, List.findIdx?_take, hi, Option.bind_some, Option.guard_eq_some_iff]
  exact ⟨rfl, decide_eq_true hk⟩

/-- A declaration whose id was declared already was made already. -/
theorem mem_upTo (hn : r.ids.Nodup) (hd : d ∈ r.declared)
    (h : (r.upTo n).contains (d.id r.mode) = true) : d ∈ (r.upTo n).declared := by
  obtain ⟨x, hx, hid⟩ := contains_iff.mp h
  exact List.inj_on_of_nodup_map hn (mem_of_mem_upTo hx) hd hid ▸ hx

/-! ## Candidates -/

section
variable (hr : r.DotFree) (hscope : ∀ s ∈ scope, s.DotFree)
include hr hscope

/-- The candidates for a reference are the declarations that stand at it. -/
theorem mem_candidates_iff : id ∈ r.candidates reference scope ↔
    ∃ d ∈ r.declared, At reference scope d ∧ d.id r.mode = id := by
  refine ⟨mem_candidates hr hscope, ?_⟩
  rintro ⟨d, hd, ⟨outer, houter, hpath⟩, rfl⟩
  obtain ⟨id, hid⟩ := atPath?_path hd
  obtain ⟨x, -, hx, rfl⟩ := atPath?_eq_some hr (by simp [Declared.path]) (hr d hd) hid
  obtain rfl : x = d := eq_of_path hx
  refine mem_distinct.mpr (List.mem_filterMap.mpr ⟨outer, mem_outward_iff.mpr houter, ?_⟩)
  rw [← hpath, hid]

theorem mem_candidates_of_upTo (h : id ∈ (r.upTo n).candidates reference scope) :
    id ∈ r.candidates reference scope := by
  obtain ⟨d, hd, hat, hid⟩ := mem_candidates hr.upTo hscope h
  exact (mem_candidates_iff hr hscope).mpr ⟨d, mem_of_mem_upTo hd, hat, hid⟩

theorem mem_candidates_upTo (hn : r.ids.Nodup) (hc : (r.upTo n).contains id = true)
    (h : id ∈ r.candidates reference scope) : id ∈ (r.upTo n).candidates reference scope := by
  obtain ⟨d, hd, hat, rfl⟩ := mem_candidates hr hscope h
  exact (mem_candidates_iff hr.upTo hscope).mpr ⟨d, mem_upTo hn hd hc, hat, rfl⟩

/-! ## Resolving -/

/-- What a reference means was meant already, if it was declared already. -/
theorem resolve_upTo (hn : r.ids.Nodup) (hc : (r.upTo n).contains id = true)
    (h : r.resolve reference scope = .ok id) : (r.upTo n).resolve reference scope = .ok id := by
  obtain ⟨hne, ⟨⟨hm, -⟩, rfl⟩ | ⟨hnot, hids⟩⟩ := resolve_eq_ok_iff.mp h
  · exact resolve_eq_ok_iff.mpr ⟨hne, .inl ⟨⟨hm, hc⟩, rfl⟩⟩
  · refine resolve_eq_ok_iff.mpr ⟨hne, .inr ⟨fun h => hnot ⟨h.1, contains_of_upTo h.2⟩, ?_⟩⟩
    refine eq_singleton_of_nodup (nodup_distinct _) ?_ fun x hx => ?_
    · exact mem_candidates_upTo hr hscope hn hc (hids ▸ List.mem_singleton_self id)
    · have hmem := mem_candidates_of_upTo hr hscope hx
      rw [hids] at hmem
      exact List.mem_singleton.mp hmem

/-- With flat ids later declarations do not change what a reference means. -/
theorem resolve_of_upTo (hm : r.mode = .flat)
    (h : (r.upTo n).resolve reference scope = .ok id) : r.resolve reference scope = .ok id := by
  obtain ⟨hne, ⟨⟨-, hc⟩, rfl⟩ | ⟨-, hids⟩⟩ := resolve_eq_ok_iff.mp h
  · exact resolve_eq_ok_iff.mpr ⟨hne, .inl ⟨⟨hm, contains_of_upTo hc⟩, rfl⟩⟩
  · obtain ⟨d, hd, hat, rfl⟩ := mem_candidates hr.upTo hscope (hids ▸ List.mem_singleton_self id)
    rw [eq_lastName_of_flat (r := r.upTo n) hm hat.endsWith]
    exact resolve_of_flat hm hr hscope hne (mem_of_mem_upTo hd) hat

/-- Later declarations leave the meaning of a reference or make it ambiguous. -/
theorem resolve_or_ambiguous_of_upTo (hm : r.mode = .hierarchical)
    (h : (r.upTo n).resolve reference scope = .ok id) : r.resolve reference scope = .ok id ∨
      ∃ ids, id ∈ ids ∧
        r.resolve reference scope = .error (.of (.ambiguous reference ids) scope) := by
  obtain ⟨hne, ⟨⟨hflat, -⟩, -⟩ | ⟨-, hids⟩⟩ := resolve_eq_ok_iff.mp h
  · cases hflat.symm.trans hm
  · have hmem := mem_candidates_of_upTo hr hscope (hids ▸ List.mem_singleton_self id)
    rw [resolve, if_neg (by simpa using hne), if_neg (by simp [hm])]
    rcases hall : r.candidates reference scope with _ | ⟨x, _ | ⟨y, ids⟩⟩
    · rw [hall] at hmem
      cases hmem
    · rw [hall] at hmem
      exact .inl (congrArg Except.ok (List.mem_singleton.mp hmem).symm)
    · exact .inr ⟨_, hall ▸ hmem, rfl⟩

end

end SystemAtlas.Identifier.Registry
