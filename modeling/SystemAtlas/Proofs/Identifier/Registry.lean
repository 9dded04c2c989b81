import SystemAtlas.Identifier.Registry
import SystemAtlas.Proofs.Keyed
import SystemAtlas.Proofs.Text.Dotted

/-! # Declaring and resolving

When a declaration is added to a registry, and what a reference means in one. A reference means a
declaration whose path ends with it (`resolve_eq_ok`, `lookup_eq_ok`). In flat mode this makes it
mean the last of its names, and if local names differ it does so as soon as there is such a
declaration (`resolve_of_flat`, `lookup_of_flat`). -/

namespace SystemAtlas.Identifier.Registry

variable {r r' : Registry} {d : Declared} {id name reference : Text} {scope : ScopePath}
  {accept : Text → Bool}

/-! ## Declaring -/

/-- The registry with a declaration added behind the others. -/
def add (r : Registry) (d : Declared) : Registry := { r with declared := r.declared ++ [d] }

/-- A declaration can be added: its name is a local name, and its id is new. -/
structure Free (r : Registry) (d : Declared) : Prop where
  isLocalName : isLocalName d.localName = true
  new : r.contains (d.id r.mode) = false

theorem contains_iff : r.contains id = true ↔ ∃ d ∈ r.declared, d.id r.mode = id := by
  simp only [contains, ids, List.contains_eq_mem, List.mem_map, decide_eq_true_eq]

theorem declare_eq_ok_iff : r.declare name scope = .ok (id, r') ↔
    r.Free ⟨scope, name⟩ ∧ id = Declared.id r.mode ⟨scope, name⟩ ∧ r' = r.add ⟨scope, name⟩ := by
  rw [declare]
  cases hname : Identifier.isLocalName name with
  | false =>
    constructor
    · intro h
      cases h
    · rintro ⟨hfree, -, -⟩
      cases hname.symm.trans hfree.isLocalName
  | true =>
    cases hnew : r.contains (Declared.id r.mode ⟨scope, name⟩) with
    | true =>
      constructor
      · intro h
        simp only [hnew] at h
        cases h
      · rintro ⟨hfree, -, -⟩
        cases hnew.symm.trans hfree.new
    | false =>
      simp only [hnew]
      constructor
      · intro h
        cases Except.ok.inj h
        exact ⟨⟨hname, hnew⟩, rfl, rfl⟩
      · rintro ⟨-, rfl, rfl⟩
        rfl

theorem framePath_add (h : r.Free d) : (r.add d).framePath (d.id r.mode) = .ok d.path := by
  have hnone : r.declared.find? (fun x => x.id r.mode == d.id r.mode) = none := by
    rw [List.find?_eq_none]
    intro x hx he
    have := contains_iff.mpr ⟨x, hx, eq_of_beq he⟩
    rw [h.new] at this
    cases this
  simp [framePath, get, find?, add, hnone]

theorem ids_add : (r.add d).ids = r.ids ++ [d.id r.mode] := List.map_append

theorem Free.nodup_ids (h : r.Free d) (hn : r.ids.Nodup) : (r.add d).ids.Nodup := by
  rw [ids_add]
  refine List.nodup_append.mpr ⟨hn, List.nodup_singleton _, fun x hx y hy => ?_⟩
  rw [List.mem_singleton.mp hy]
  rintro rfl
  have hnew := h.new
  rw [contains, List.contains_iff_mem.mpr hx] at hnew
  cases hnew

/-! ## Names without dots -/

/-- The names in the path of every declaration have no dots. -/
def DotFree (r : Registry) : Prop := ∀ d ∈ r.declared, ∀ s ∈ d.path, s.DotFree

theorem DotFree.add (hr : r.DotFree) (hscope : ∀ s ∈ d.scope, s.DotFree) (h : r.Free d) :
    (r.add d).DotFree := by
  intro x hx s hs
  rcases List.mem_append.mp hx with hx | hx
  · exact hr x hx s hs
  · rw [List.mem_singleton.mp hx] at hs
    rcases List.mem_append.mp hs with hs | hs
    · exact hscope s hs
    · rw [List.mem_singleton.mp hs]
      exact LocalName.dotFree_of_isLocalName h.isLocalName

theorem mem_outward_iff {outer : ScopePath} : outer ∈ outward scope ↔ outer <+: scope := by
  simp only [outward, List.mem_map, List.mem_reverse, List.mem_range]
  constructor
  · rintro ⟨n, -, rfl⟩
    exact List.take_prefix n scope
  · intro h
    exact ⟨outer.length, Nat.lt_succ_of_le h.length_le, (List.prefix_iff_eq_take.mp h).symm⟩

theorem eq_of_path {x y : Declared} (h : x.path = y.path) : x = y := by
  obtain ⟨hscope, hname⟩ := List.append_inj' h rfl
  cases x
  cases y
  cases hscope
  cases hname
  rfl

theorem lastName_id (h : ∀ s ∈ d.path, s.DotFree) :
    (d.id .hierarchical).lastName = d.localName :=
  Text.lastName_intercalate h

/-! ## Resolving -/

/-- A declaration stands at a dotted reference seen from a scope. -/
def At (reference : Text) (scope : ScopePath) (d : Declared) : Prop :=
  ∃ outer, outer <+: scope ∧ d.path = outer ++ reference.dotted

/-- The path of a declaration ends with a dotted reference. -/
def EndsWith (reference : Text) (d : Declared) : Prop := reference.dotted <:+ d.path

theorem At.endsWith (h : At reference scope d) : EndsWith reference d := by
  obtain ⟨outer, -, h⟩ := h
  exact ⟨outer, h.symm⟩

theorem EndsWith.localName_eq (h : EndsWith reference d) : d.localName = reference.lastName := by
  obtain ⟨outer, h⟩ := h
  exact Text.eq_lastName_of_append_dotted h.symm

/-- A declaration is at the path that its id is found at. -/
theorem atPath?_eq_some {path : List Text} (hr : r.DotFree) (hne : path ≠ [])
    (hpath : ∀ s ∈ path, s.DotFree) (h : r.atPath? path = some id) :
    ∃ d ∈ r.declared, d.path = path ∧ d.id r.mode = id := by
  rw [atPath?] at h
  split at h
  next hm =>
    obtain ⟨hc, h⟩ := Option.ite_none_right_eq_some.mp h
    cases Option.some.inj h
    obtain ⟨d, hd, hid⟩ := contains_iff.mp hc
    refine ⟨d, hd, ?_, hid⟩
    rw [hm] at hid
    exact Text.intercalate_injective (by simp [Declared.path]) hne (hr d hd) hpath hid
  next hm =>
    obtain ⟨d, hfind, rfl⟩ := Option.map_eq_some_iff.mp h
    exact ⟨d, List.mem_of_find?_eq_some hfind, by simpa using List.find?_some hfind, rfl⟩

theorem atPath?_path (hd : d ∈ r.declared) : ∃ id, r.atPath? d.path = some id := by
  rw [atPath?]
  split
  next hm =>
    have hc : r.contains (Text.intercalate "." d.path) = true :=
      contains_iff.mpr ⟨d, hd, by rw [hm]; rfl⟩
    exact ⟨_, if_pos hc⟩
  next =>
    have hfind : (r.declared.find? (·.path == d.path)).isSome = true :=
      List.find?_isSome.mpr ⟨d, hd, beq_self_eq_true _⟩
    obtain ⟨x, hx⟩ := Option.isSome_iff_exists.mp hfind
    exact ⟨_, by rw [hx]; rfl⟩

theorem mem_candidates (hr : r.DotFree) (hscope : ∀ s ∈ scope, s.DotFree)
    (h : id ∈ r.candidates reference scope) :
    ∃ d ∈ r.declared, At reference scope d ∧ d.id r.mode = id := by
  obtain ⟨outer, houter, hat⟩ := List.mem_filterMap.mp (mem_distinct.mp h)
  have houter' := mem_outward_iff.mp houter
  have hdot : ∀ s ∈ outer ++ reference.dotted, s.DotFree := by
    intro s hs
    rcases List.mem_append.mp hs with hs | hs
    · exact hscope s (houter'.subset hs)
    · exact Text.dotFree_of_mem_dotted hs
  obtain ⟨d, hd, hpath, hid⟩ := atPath?_eq_some hr (by simp [Text.dotted_ne_nil]) hdot hat
  exact ⟨d, hd, ⟨outer, houter', hpath⟩, hid⟩

theorem resolve_eq_ok_iff : r.resolve reference scope = .ok id ↔ reference ≠ "" ∧
    (((r.mode = .flat ∧ r.contains reference = true) ∧ id = reference) ∨
      ¬(r.mode = .flat ∧ r.contains reference = true) ∧
        r.candidates reference scope = [id]) := by
  rw [resolve]
  by_cases hne : reference = ""
  · simp [hne]
  rw [if_neg (by simpa using hne)]
  by_cases hc : r.mode = .flat ∧ r.contains reference = true
  · simp [hne, hc, @eq_comm _ id]
  · rw [if_neg (by simpa using hc)]
    rcases r.candidates reference scope with _ | ⟨x, _ | ⟨y, ids⟩⟩
    · simp [hne, hc]
    · simp [hne, hc, @eq_comm _ id]
    · simp [hne, hc]

theorem lookup_eq_ok_iff : r.lookup reference accept = .ok id ↔
    ((r.contains reference = true ∧ accept reference = true) ∧ id = reference) ∨
      ¬(r.contains reference = true ∧ accept reference = true) ∧
        r.matching reference accept = [id] := by
  rw [lookup]
  by_cases hc : r.contains reference = true ∧ accept reference = true
  · simp [hc, @eq_comm _ id]
  · rw [if_neg (by simpa using hc)]
    rcases r.matching reference accept with _ | ⟨x, _ | ⟨y, ids⟩⟩
    · simp [hc]
    · simp [hc, @eq_comm _ id]
    · simp [hc]

theorem accept_of_lookup (h : r.lookup reference accept = .ok id) : accept id = true := by
  obtain ⟨⟨-, ha⟩, rfl⟩ | ⟨-, hids⟩ := lookup_eq_ok_iff.mp h
  · exact ha
  · have hmem : id ∈ r.matching reference accept := hids ▸ List.mem_singleton_self id
    obtain ⟨d, hd, rfl⟩ := List.mem_map.mp hmem
    exact (Bool.and_eq_true_iff.mp (List.mem_filter.mp hd).2).2

theorem endsWith_of_localName (h : d.localName = reference) (hd : ∀ s ∈ d.path, s.DotFree) :
    EndsWith reference d := by
  have hdot : reference.DotFree := h ▸ hd d.localName (by simp [Declared.path])
  rw [EndsWith, Text.dotted_eq_of_dotFree hdot, ← h]
  exact List.suffix_append _ _

/-- The path of a declaration ends with its id. -/
theorem endsWith_id (hd : ∀ s ∈ d.path, s.DotFree) (h : d.id r.mode = reference) :
    EndsWith reference d := by
  cases hm : r.mode with
  | flat => exact endsWith_of_localName (by rwa [hm] at h) hd
  | hierarchical =>
    rw [hm] at h
    rw [EndsWith, ← h]
    exact (Text.dotted_intercalate (by simp [Declared.path]) hd).symm ▸ List.suffix_rfl

/-- A resolved reference means a declaration whose path ends with it, and one that stands at it if
ids are paths. -/
theorem resolve_eq_ok (hr : r.DotFree) (hscope : ∀ s ∈ scope, s.DotFree)
    (h : r.resolve reference scope = .ok id) :
    ∃ d ∈ r.declared, d.id r.mode = id ∧ EndsWith reference d ∧
      (r.mode = .hierarchical → At reference scope d) := by
  obtain ⟨-, ⟨⟨hm, hc⟩, rfl⟩ | ⟨-, hids⟩⟩ := resolve_eq_ok_iff.mp h
  · obtain ⟨d, hd, hid⟩ := contains_iff.mp hc
    refine ⟨d, hd, hid, endsWith_of_localName (by rwa [hm] at hid) (hr d hd), ?_⟩
    intro hm'
    cases hm.symm.trans hm'
  · obtain ⟨d, hd, hat, hid⟩ := mem_candidates hr hscope (hids ▸ List.mem_singleton_self id)
    exact ⟨d, hd, hid, hat.endsWith, fun _ => hat⟩

/-- A reference that is looked up means an accepted declaration whose path ends with it. -/
theorem lookup_eq_ok (hr : r.DotFree) (h : r.lookup reference accept = .ok id) :
    ∃ d ∈ r.declared, d.id r.mode = id ∧ EndsWith reference d ∧ accept id = true := by
  obtain ⟨⟨⟨hc, ha⟩, rfl⟩⟩ | ⟨-, hids⟩ := lookup_eq_ok_iff.mp h
  · obtain ⟨d, hd, hid⟩ := contains_iff.mp hc
    exact ⟨d, hd, hid, endsWith_id (hr d hd) hid, ha⟩
  · have hmem : id ∈ r.matching reference accept := hids ▸ List.mem_singleton_self id
    obtain ⟨d, hd, hid⟩ := List.mem_map.mp hmem
    obtain ⟨hd, hp⟩ := List.mem_filter.mp hd
    rw [Bool.and_eq_true, List.isSuffixOf_iff_suffix] at hp
    exact ⟨d, hd, hid, hp.1, accept_of_lookup h⟩

/-! ## Flat mode -/

theorem eq_lastName_of_flat (hm : r.mode = .flat) (h : EndsWith reference d) :
    d.id r.mode = reference.lastName := by
  rw [hm]
  exact h.localName_eq

theorem resolve_eq_lastName (hm : r.mode = .flat) (hr : r.DotFree)
    (hscope : ∀ s ∈ scope, s.DotFree) (h : r.resolve reference scope = .ok id) :
    id = reference.lastName := by
  obtain ⟨d, -, rfl, hd, -⟩ := resolve_eq_ok hr hscope h
  exact eq_lastName_of_flat hm hd

theorem lookup_eq_lastName (hm : r.mode = .flat) (hr : r.DotFree)
    (h : r.lookup reference accept = .ok id) : id = reference.lastName := by
  obtain ⟨d, -, rfl, hd, -⟩ := lookup_eq_ok hr h
  exact eq_lastName_of_flat hm hd

theorem eq_singleton_of_nodup {xs : List Text} (hn : xs.Nodup) (hid : id ∈ xs)
    (h : ∀ x ∈ xs, x = id) : xs = [id] := by
  obtain ⟨x, rest, rfl⟩ := List.exists_cons_of_ne_nil (List.ne_nil_of_mem hid)
  cases h x List.mem_cons_self
  cases rest with
  | nil => rfl
  | cons y rest =>
    have hy := h y (by simp)
    exact absurd (by simp [hy]) (List.nodup_cons.mp hn).1

/-- A reference at which a declaration stands means its last name. -/
theorem resolve_of_flat (hm : r.mode = .flat) (hr : r.DotFree)
    (hscope : ∀ s ∈ scope, s.DotFree) (hne : reference ≠ "") (hd : d ∈ r.declared)
    (hat : At reference scope d) : r.resolve reference scope = .ok reference.lastName := by
  refine resolve_eq_ok_iff.mpr ⟨hne, ?_⟩
  by_cases hc : r.contains reference = true
  · refine .inl ⟨⟨hm, hc⟩, ?_⟩
    obtain ⟨x, hx, hid⟩ := contains_iff.mp hc
    rw [hm] at hid
    have hdot : reference.DotFree := hid ▸ hr x hx x.localName (by simp [Declared.path])
    exact Text.lastName_eq_of_dotFree hdot
  · refine .inr ⟨fun h => hc h.2, eq_singleton_of_nodup (nodup_distinct _) ?_ ?_⟩
    · obtain ⟨outer, houter, hpath⟩ := hat
      obtain ⟨id, hid⟩ := atPath?_path hd
      have hmem : id ∈ r.candidates reference scope := by
        refine mem_distinct.mpr (List.mem_filterMap.mpr ⟨outer, mem_outward_iff.mpr houter, ?_⟩)
        rw [← hpath, hid]
      obtain ⟨x, -, hx, rfl⟩ := mem_candidates hr hscope hmem
      exact eq_lastName_of_flat hm hx.endsWith ▸ hmem
    · intro id hid
      obtain ⟨x, -, hx, rfl⟩ := mem_candidates hr hscope hid
      exact eq_lastName_of_flat hm hx.endsWith

/-- A reference with which the path of an accepted declaration ends means its last name, if local
names differ. -/
theorem lookup_of_flat (hm : r.mode = .flat) (hr : r.DotFree)
    (hn : (r.declared.map (·.localName)).Nodup) (hd : d ∈ r.declared)
    (he : EndsWith reference d) (ha : accept d.localName = true) :
    r.lookup reference accept = .ok reference.lastName := by
  rw [lookup_eq_ok_iff]
  by_cases hc : r.contains reference = true ∧ accept reference = true
  · refine .inl ⟨hc, ?_⟩
    obtain ⟨x, hx, hid⟩ := contains_iff.mp hc.1
    rw [hm] at hid
    have hdot : reference.DotFree := hid ▸ hr x hx x.localName (by simp [Declared.path])
    exact Text.lastName_eq_of_dotFree hdot
  · refine .inr ⟨hc, ?_⟩
    have hids : r.matching reference accept = ((r.declared.filter fun d =>
        reference.dotted.isSuffixOf d.path && accept (d.id r.mode)).map (·.localName)) := by
      rw [matching, hm]
      rfl
    rw [hids]
    refine eq_singleton_of_nodup (hn.sublist (List.filter_sublist.map _)) ?_ ?_
    · refine List.mem_map.mpr ⟨d, List.mem_filter.mpr ⟨hd, ?_⟩, he.localName_eq⟩
      rw [Bool.and_eq_true, List.isSuffixOf_iff_suffix, hm]
      exact ⟨he, ha⟩
    · intro id hid
      obtain ⟨x, hx, rfl⟩ := List.mem_map.mp hid
      have hp := (List.mem_filter.mp hx).2
      rw [Bool.and_eq_true, List.isSuffixOf_iff_suffix] at hp
      exact EndsWith.localName_eq hp.1

end SystemAtlas.Identifier.Registry
