import Mathlib.Data.List.Nodup
import SystemAtlas.Model.Element
import SystemAtlas.Model.Relationship
import SystemAtlas.Proofs.Text.Trimming

/-! # Merged tags

Merging strips tags and keeps the first occurrence of each (`mem_mergeTags_iff`, `tidy_mergeTags`),
in the order of these (`pairwise_foldl_addTag`). Tags that are tidy already stay as they are, so
merging into some tags what was merged from them changes nothing (`mergeTags_mergeTags`), and groups
may be merged before they are merged with others (`mergeTags_merged`). In particular a link derived
from a relationship has the tags of that (`Link.tags_eq_of_tags`). -/

namespace SystemAtlas.Model

variable {seen tags ts : List Text} {groups more : List (List Text)} {t x : Text}

/-! ## Tidy tags -/

/-- Tags as merging leaves them: different, without blanks at their ends, and none empty. -/
structure Tidy (tags : List Text) : Prop where
  nodup : tags.Nodup
  stripped : ∀ t ∈ tags, t.strip = t
  nonempty : ∀ t ∈ tags, t ≠ ""

theorem Tidy.nil : Tidy [] := ⟨List.nodup_nil, List.forall_mem_nil _, List.forall_mem_nil _⟩

theorem Tidy.append_left (h : Tidy (seen ++ tags)) : Tidy seen where
  nodup := (List.nodup_append.mp h.nodup).1
  stripped t ht := h.stripped t (List.mem_append_left _ ht)
  nonempty t ht := h.nonempty t (List.mem_append_left _ ht)

theorem addTag_cases (seen : List Text) (t : Text) :
    (t.strip = "" ∨ t.strip ∈ seen) ∧ addTag seen t = seen ∨
      t.strip ≠ "" ∧ t.strip ∉ seen ∧ addTag seen t = seen ++ [t.strip] := by
  by_cases h : t.strip = "" ∨ t.strip ∈ seen
  · exact .inl ⟨h, if_pos (by simpa using h)⟩
  · obtain ⟨hne, hnew⟩ := not_or.mp h
    exact .inr ⟨hne, hnew, if_neg (by simpa using h)⟩

theorem mem_addTag_iff : x ∈ addTag seen t ↔ x ∈ seen ∨ x ≠ "" ∧ t.strip = x := by
  obtain ⟨hold, heq⟩ | ⟨hne, -, heq⟩ := addTag_cases seen t
  · rw [heq]
    refine ⟨.inl, ?_⟩
    rintro (hx | ⟨hne, rfl⟩)
    · exact hx
    · exact hold.resolve_left hne
  · rw [heq, List.mem_append, List.mem_singleton]
    refine or_congr_right ⟨?_, fun hx => hx.2.symm⟩
    rintro rfl
    exact ⟨hne, rfl⟩

theorem Tidy.addTag (h : Tidy seen) (t : Text) : Tidy (addTag seen t) := by
  obtain ⟨-, heq⟩ | ⟨hne, hnew, heq⟩ := addTag_cases seen t
  · rw [heq]
    exact h
  · rw [heq]
    refine ⟨?_, ?_, ?_⟩
    · exact List.nodup_append.mpr ⟨h.nodup, List.nodup_singleton _, fun x hx y hy he =>
        hnew (List.mem_singleton.mp hy ▸ he ▸ hx)⟩
    · intro x hx
      rcases List.mem_append.mp hx with hx | hx
      · exact h.stripped x hx
      · rw [List.mem_singleton.mp hx]
        exact t.strip_strip
    · intro x hx
      rcases List.mem_append.mp hx with hx | hx
      · exact h.nonempty x hx
      · rw [List.mem_singleton.mp hx]
        exact hne

/-! ## Merging -/

theorem mem_foldl_addTag_iff :
    x ∈ tags.foldl addTag seen ↔ x ∈ seen ∨ x ≠ "" ∧ ∃ t ∈ tags, t.strip = x := by
  induction tags generalizing seen with
  | nil => simp
  | cons t tags ih =>
    rw [List.foldl_cons, ih, mem_addTag_iff, List.exists_mem_cons_iff]
    tauto

theorem mem_foldl_addTag_nil_iff :
    x ∈ tags.foldl addTag [] ↔ x ∈ tags.map Text.strip ∧ x ≠ "" := by
  rw [mem_foldl_addTag_iff, List.mem_map]
  simp only [List.not_mem_nil, false_or, and_comm]

theorem Tidy.foldl_addTag (h : Tidy seen) (tags : List Text) :
    Tidy (tags.foldl Model.addTag seen) := by
  induction tags generalizing seen with
  | nil => exact h
  | cons t tags ih => exact ih (h.addTag t)

theorem exists_foldl_addTag (seen tags : List Text) :
    ∃ new, tags.foldl addTag seen = seen ++ new := by
  induction tags generalizing seen with
  | nil => exact ⟨[], (List.append_nil _).symm⟩
  | cons t tags ih =>
    obtain ⟨new, hnew⟩ := ih (addTag seen t)
    rw [List.foldl_cons, hnew]
    obtain ⟨-, heq⟩ | ⟨-, -, heq⟩ := addTag_cases seen t
    · exact ⟨new, by rw [heq]⟩
    · exact ⟨t.strip :: new, by rw [heq, List.append_assoc, List.singleton_append]⟩

/-- Tags that are there already add nothing. -/
theorem foldl_addTag_of_subset (h : Tidy seen) (hs : tags ⊆ seen) :
    tags.foldl addTag seen = seen := by
  induction tags with
  | nil => rfl
  | cons t tags ih =>
    obtain ⟨ht, hs⟩ := List.cons_subset.mp hs
    have heq : addTag seen t = seen := if_pos (by simp [h.stripped t ht, ht])
    rw [List.foldl_cons, heq, ih hs]

/-- Tidy tags are added as they are. -/
theorem foldl_addTag_of_tidy (h : Tidy (seen ++ tags)) : tags.foldl addTag seen = seen ++ tags := by
  induction tags generalizing seen with
  | nil => exact (List.append_nil _).symm
  | cons t tags ih =>
    have hmem : t ∈ seen ++ t :: tags := List.mem_append_right _ List.mem_cons_self
    have hnew : t ∉ seen := fun hs =>
      (List.nodup_append.mp h.nodup).2.2 t hs t List.mem_cons_self rfl
    have heq : addTag seen t = seen ++ [t] := by
      simp [addTag, h.stripped t hmem, h.nonempty t hmem, hnew]
    rw [List.append_cons] at h
    rw [List.foldl_cons, heq, ih h, ← List.append_cons]

/-- Merged tags come in the order in which they first occur. -/
theorem pairwise_foldl_addTag (tags : List Text) :
    (tags.foldl addTag []).Pairwise fun x y =>
      (tags.map Text.strip).idxOf x < (tags.map Text.strip).idxOf y := by
  -- from the end, as one more tag does not move where those before it first occur
  induction tags using List.reverseRecOn with
  | nil => exact .nil
  | append_singleton tags t ih =>
    have hmem : ∀ x ∈ tags.foldl addTag [], x ∈ tags.map Text.strip :=
      fun x hx => (mem_foldl_addTag_nil_iff.mp hx).1
    have hold : (tags.foldl addTag []).Pairwise fun x y =>
        ((tags ++ [t]).map Text.strip).idxOf x < ((tags ++ [t]).map Text.strip).idxOf y := by
      refine ih.imp_of_mem fun hx hy hlt => ?_
      rwa [List.map_append, List.idxOf_append_of_mem (hmem _ hx),
        List.idxOf_append_of_mem (hmem _ hy)]
    rw [List.foldl_append, List.foldl_cons, List.foldl_nil]
    obtain ⟨-, heq⟩ | ⟨hne, hnew, heq⟩ := addTag_cases (tags.foldl addTag []) t
    · rwa [heq]
    · rw [heq]
      refine List.pairwise_append.mpr ⟨hold, List.pairwise_singleton _ _, fun x hx y hy => ?_⟩
      rw [List.mem_singleton.mp hy]
      have hlater : t.strip ∉ tags.map Text.strip :=
        fun h => hnew (mem_foldl_addTag_nil_iff.mpr ⟨h, hne⟩)
      rw [List.map_append, List.idxOf_append_of_mem (hmem x hx), List.idxOf_append_of_notMem hlater]
      exact Nat.lt_add_right _ (List.idxOf_lt_length_of_mem (hmem x hx))

/-- Tags are added alike one by one and merged. -/
theorem foldl_addTag_merged (seen tags : List Text) :
    (tags.foldl addTag []).foldl addTag seen = tags.foldl addTag seen := by
  induction tags using List.reverseRecOn with
  | nil => rfl
  | append_singleton tags t ih =>
    simp only [List.foldl_append, List.foldl_cons, List.foldl_nil]
    obtain ⟨hold, heq⟩ | ⟨-, -, heq⟩ := addTag_cases (tags.foldl addTag []) t
    · -- the tag is blank or among the tags before it
      have hmem : t.strip = "" ∨ t.strip ∈ tags.foldl addTag seen := by
        refine hold.imp_right fun h => mem_foldl_addTag_iff.mpr (.inr ?_)
        exact (mem_foldl_addTag_iff.mp h).resolve_left List.not_mem_nil
      have hsame : addTag (tags.foldl addTag seen) t = tags.foldl addTag seen :=
        if_pos (by simpa using hmem)
      rw [heq, ih, hsame]
    · have hstrip : ∀ seen, addTag seen t.strip = addTag seen t := by
        intro seen
        rw [addTag, addTag, Text.strip_strip]
      rw [heq, List.foldl_append, ih, List.foldl_cons, List.foldl_nil, hstrip]

theorem tidy_mergeTags (groups : List (List Text)) : Tidy (mergeTags groups) :=
  Tidy.nil.foldl_addTag _

theorem mem_mergeTags_iff :
    x ∈ mergeTags groups ↔ x ≠ "" ∧ ∃ ts ∈ groups, ∃ t ∈ ts, t.strip = x := by
  rw [mergeTags, mem_foldl_addTag_iff]
  simp only [List.not_mem_nil, false_or, List.mem_flatten]
  refine and_congr_right fun _ => ?_
  constructor
  · rintro ⟨t, ⟨ts, hts, ht⟩, rfl⟩
    exact ⟨ts, hts, t, ht, rfl⟩
  · rintro ⟨ts, hts, t, ht, rfl⟩
    exact ⟨t, ⟨ts, hts, ht⟩, rfl⟩

theorem mem_mergeTags_of_tidy (h : ∀ ts ∈ groups, Tidy ts) :
    x ∈ mergeTags groups ↔ ∃ ts ∈ groups, x ∈ ts := by
  rw [mem_mergeTags_iff]
  constructor
  · rintro ⟨-, ts, hts, t, ht, rfl⟩
    exact ⟨ts, hts, ((h ts hts).stripped t ht).symm ▸ ht⟩
  · rintro ⟨ts, hts, hx⟩
    exact ⟨(h ts hts).nonempty x hx, ts, hts, x, hx, (h ts hts).stripped x hx⟩

theorem mergeTags_append :
    mergeTags (groups ++ more) = more.flatten.foldl addTag (mergeTags groups) := by
  rw [mergeTags, List.flatten_append, List.foldl_append, mergeTags]

/-- What was merged from the given groups and others is merged with these groups already. -/
theorem mergeTags_mergeTags (groups more : List (List Text)) :
    mergeTags (groups ++ [mergeTags (groups ++ more)]) = mergeTags (groups ++ more) := by
  obtain ⟨new, hnew⟩ := exists_foldl_addTag (mergeTags groups) more.flatten
  have hall : mergeTags (groups ++ more) = mergeTags groups ++ new := mergeTags_append.trans hnew
  have htidy : Tidy (mergeTags groups ++ new) := hall ▸ tidy_mergeTags _
  rw [hall, mergeTags_append, List.flatten_singleton, List.foldl_append,
    foldl_addTag_of_subset htidy.append_left (List.Subset.refl _), foldl_addTag_of_tidy htidy]

/-- Groups of tags may be merged before they are merged with others. -/
theorem mergeTags_merged (before groups after : List (List Text)) :
    mergeTags (before ++ mergeTags groups :: after) = mergeTags (before ++ groups ++ after) := by
  simp only [mergeTags, List.flatten_append, List.flatten_cons, List.foldl_append,
    foldl_addTag_merged]

/-! ## Tags of what a model has -/

theorem tidy_tags (e : Element) : Tidy e.tags := tidy_mergeTags _

/-- The tags that come first with every element of a type: that of all elements, then the label of
the type if it is another one. -/
def ElementType.leadingTags (t : ElementType) : List Text :=
  if t.label = "Element" then ["Element"] else ["Element", t.label]

theorem mergeTags_defaultTags (t : ElementType) :
    mergeTags [Element.defaultTags t] = t.leadingTags := by
  cases t <;> decide

theorem leadingTags_prefix (e : Element) : e.type.leadingTags <+: e.tags := by
  obtain ⟨new, hnew⟩ := exists_foldl_addTag (mergeTags [Element.defaultTags e.type]) e.ownTags
  have htags : e.tags = e.ownTags.foldl addTag (mergeTags [Element.defaultTags e.type]) := by
    rw [Element.tags, ← List.singleton_append, mergeTags_append, List.flatten_singleton]
  rw [htags, hnew, mergeTags_defaultTags]
  exact List.prefix_append _ _

/-- A link with the interaction of another one and with its tags has just these. -/
theorem Link.tags_eq_of_tags {l m : Link} (hi : l.interaction = m.interaction)
    (ht : l.ownTags = m.tags) : l.tags = m.tags := by
  rw [Link.tags, hi, ht]
  exact mergeTags_mergeTags [defaultTags m.interaction] [m.ownTags]

/-- Merged tags are the tags of all groups without the blanks at their ends, except the empty ones,
each once and in the order in which they first occur. It makes no difference if some of the groups
are merged before. So an element has tidy tags that begin with those of its type, and a link with
the interaction and the tags of another one has just these tags. -/
theorem merged_tags :
    (∀ groups : List (List Text),
      let stripped := groups.flatten.map Text.strip
      (∀ x, x ∈ mergeTags groups ↔ x ∈ stripped ∧ x ≠ "") ∧ (mergeTags groups).Nodup ∧
        (mergeTags groups).Pairwise fun x y => stripped.idxOf x < stripped.idxOf y) ∧
    (∀ before groups after : List (List Text),
      mergeTags (before ++ mergeTags groups :: after) = mergeTags (before ++ groups ++ after)) ∧
    (∀ e : Element, Tidy e.tags ∧ e.type.leadingTags <+: e.tags) ∧
    ∀ l m : Link, ({ l with interaction := m.interaction, ownTags := m.tags } : Link).tags =
      m.tags := by
  refine ⟨fun groups => ?_, mergeTags_merged, fun e => ?_, fun l m => ?_⟩
  · exact ⟨fun x => mem_foldl_addTag_nil_iff, (tidy_mergeTags groups).nodup,
      pairwise_foldl_addTag groups.flatten⟩
  · exact ⟨tidy_tags e, leadingTags_prefix e⟩
  · exact Link.tags_eq_of_tags rfl rfl

end SystemAtlas.Model
