import Mathlib.Data.List.Nodup
import SystemAtlas.Proofs.Declaration.Styling
import SystemAtlas.Proofs.Keyed

/-! # Values that are read again

What is read of a value can be written again, and `Rereads` says that reading what is written gives
the same once more. The values of documents are all read and written so. The fields of an object are
if each is written under a key of its own (`Written`). -/

namespace SystemAtlas

/-- A field of some is found under its key, if no key stands twice there. -/
theorem Json.find?_of_mem {fields : Fields} (hkeys : (fields.map (·.1)).Nodup) {f : Text × Json}
    (hf : f ∈ fields) : find? fields f.1 = some f.2 := by
  rw [find?, find?_key_of_mem hkeys hf, Option.map_some]

namespace Declaration

open Checked
open Json (Fields)

variable {α β : Type} {read : Json → Checked α} {write : α → Json}

/-- What was read is read again from what is written for it. -/
def Rereads (read : Json → Checked α) (write : α → Json) : Prop :=
  ∀ j x, read j = .ok x → read (write x) = .ok x

theorem itemsFrom_map {xs : List α} {i : Nat} (h : ∀ x ∈ xs, read (write x) = .ok x) :
    itemsFrom read i (xs.map write) = .ok xs := by
  induction xs generalizing i with
  | nil => rfl
  | cons x xs ih =>
    obtain ⟨hx, hxs⟩ := List.forall_mem_cons.mp h
    rw [List.map_cons, itemsFrom, hx, ih hxs]
    rfl

theorem texts_ofTexts (xs : List Text) : texts (.ofTexts xs) = .ok xs :=
  itemsFrom_map fun _ _ => rfl

theorem entries_map (ps : List (Text × Text)) :
    entries (ps.map fun p => (p.1, .string p.2)) = .ok ps := by
  induction ps with
  | nil => rfl
  | cons p ps ih =>
    rw [List.map_cons, entries, ih]
    rfl

theorem readChars_ok {read : List Char → Except Problem α} {s : Text} {x : α}
    (h : readChars read s = .ok x) : ∃ cs, read cs = .ok x := by
  rw [readChars] at h
  cases hcs : s.chars? with
  | none =>
    rw [hcs] at h
    cases h
  | some cs =>
    rw [hcs, Option.elim_some] at h
    obtain ⟨ds, -, hx⟩ := andThen_ok_iff.mp h
    exact ⟨ds, hx⟩

theorem choice_ok {options : List (Text × α)} {j : Json} {x : α} (h : choice options j = .ok x) :
    ∃ name, (name, x) ∈ options := by
  cases j with
  | string s =>
    obtain ⟨cs, h⟩ := readChars_ok h
    cases hlookup : options.lookup (.ofChars cs) with
    | none =>
      rw [hlookup] at h
      cases h
    | some y =>
      rw [hlookup] at h
      cases h
      obtain ⟨before, after, rfl, -⟩ := List.lookup_eq_some_iff.mp hlookup
      exact ⟨_, List.mem_append_right _ List.mem_cons_self⟩
  | _ => cases h

theorem lookup_name {xs : List α} {name : α → Text} {x : α} (hnames : (xs.map name).Nodup)
    (hx : x ∈ xs) : (xs.map fun y => (name y, y)).lookup (name x) = some x := by
  obtain ⟨before, after, rfl⟩ := List.append_of_mem hx
  refine List.lookup_eq_some_iff.mpr ⟨_, _, List.map_append, fun p hp => ?_⟩
  obtain ⟨y, hy, rfl⟩ := List.mem_map.mp hp
  rw [List.map_append, List.map_cons] at hnames
  have hne := (List.nodup_append.mp hnames).2.2 (name y) (List.mem_map_of_mem hy) (name x)
    List.mem_cons_self
  simpa using hne.symm

theorem reference_reference (s : Text) : reference (reference s) = reference s := by
  by_cases h : s = "*"
  · subst h
    rfl
  · have hs : reference s = s := if_neg (by simpa using h)
    rw [hs, hs]

theorem subjectReference_subjectReference (s : Text) :
    subjectReference (subjectReference s) = subjectReference s := by
  by_cases h : s = "all" ∨ s = "*"
  · rcases h with rfl | rfl <;> rfl
  · obtain ⟨hall, hstar⟩ := not_or.mp h
    have hs : subjectReference s = s := by
      rw [subjectReference, if_neg (by simpa using hall), reference, if_neg (by simpa using hstar)]
    rw [hs, hs]

namespace Rereads

/-! ## Values -/

theorem text : Rereads text .string := fun _ _ _ => rfl

theorem integer : Rereads integer .int := fun _ _ _ => rfl

theorem boolean : Rereads boolean .bool := fun _ _ _ => rfl

theorem texts : Rereads texts .ofTexts := fun _ xs _ => texts_ofTexts xs

theorem dictionary :
    Rereads dictionary fun ps => .object (ps.map fun p => (p.1, .string p.2)) :=
  fun _ ps _ => entries_map ps

theorem localName : Rereads localName fun n => .string n.text := fun _ n _ =>
  andThen_ok_iff.mpr ⟨n.text, rfl, by rw [n.ofText?_text]; rfl⟩

theorem ensure {holds : α → Bool} {problem : α → Problem} (h : Rereads read write) :
    Rereads (fun j => (read j).ensure holds problem) write := by
  intro j x hx
  obtain ⟨hx, hholds⟩ := ensure_ok_iff.mp hx
  exact ensure_ok_iff.mpr ⟨h j x hx, hholds⟩

theorem integerFrom {bound : Int} : Rereads (integerFrom bound) .int := integer.ensure

theorem integerIn {least bound : Int} : Rereads (integerIn least bound) .int := integerFrom.ensure

/-- Things that are chosen by their names are, if no two have one name. -/
theorem choice (xs : List α) (name : α → Text)
    (hnames : (xs.map name).Nodup ∧ ∀ x ∈ xs, (name x).isWhole = true) :
    Rereads (choice (xs.map fun x => (name x, x))) fun x => .string (name x) := by
  intro j x h
  obtain ⟨_, hx⟩ := choice_ok h
  obtain ⟨y, hy, heq⟩ := List.mem_map.mp hx
  cases heq
  obtain ⟨cs, hcs⟩ := Option.isSome_iff_exists.mp (hnames.2 x hy)
  simp only [Declaration.choice, readChars, hcs, Option.elim_some]
  refine andThen_ok_iff.mpr ⟨cs, rfl, ?_⟩
  rw [← Text.chars?_eq_some_iff.mp hcs, lookup_name hnames.1 hy, Option.elim_some]

theorem interaction : Rereads interactionOf fun i => .string i.name :=
  choice ([.synchronous, .asynchronous] : List Model.Interaction) Model.Interaction.name
    (by simp [Model.Interaction.name, Text.ofString_inj, Text.isWhole_ofString])

theorem border : Rereads (Declaration.choice (Style.Border.all.map fun b => (b.name, b)))
    fun b => .string b.name :=
  choice _ _
    (by simp [Style.Border.all, Style.Border.name, Text.ofString_inj, Text.isWhole_ofString])

theorem routing : Rereads (Declaration.choice (Style.Routing.all.map fun r => (r.name, r)))
    fun r => .string r.name :=
  choice _ _
    (by simp [Style.Routing.all, Style.Routing.name, Text.ofString_inj, Text.isWhole_ofString])

theorem direction : Rereads (Declaration.choice directions) fun s => .string s.name :=
  choice _ _ (by simp [Layout.Strategy.name, Text.ofString_inj, Text.isWhole_ofString])

theorem viewKind : Rereads (Declaration.choice (ViewKind.all.map fun k => (k.name, k)))
    fun k => .string k.name :=
  choice _ _ (by simp [ViewKind.all, ViewKind.name, Text.ofString_inj, Text.isWhole_ofString])

theorem mode : Rereads Workspace.modeOf fun m => .string m.name :=
  choice _ _ (by simp [Identifier.Mode.name, Text.ofString_inj, Text.isWhole_ofString])

theorem shape : Rereads shapeOf fun s => .string s.name := fun _ s _ =>
  andThen_ok_iff.mpr ⟨s.name, rfl, by rw [Style.Shape.ofJson, s.ofText?_name]; rfl⟩

theorem color : Rereads colorOf .string := by
  intro j c h
  obtain ⟨s, -, h⟩ := andThen_ok_iff.mp h
  have hc := Style.Color.ofJson_of_ofJson (mapError_eq_ok_iff.mp h)
  exact andThen_ok_iff.mpr ⟨c, rfl, mapError_eq_ok_iff.mpr hc⟩

theorem subject : Rereads (fun j => subjectReference <$> Declaration.text j) .string := by
  intro j s h
  obtain ⟨t, -, rfl⟩ := map_ok_iff.mp h
  exact map_ok_iff.mpr ⟨_, rfl, subjectReference_subjectReference t⟩

theorem references : Rereads references .ofTexts := by
  intro j xs h
  -- Whatever kind of value was gone through, the references have been put in normal form.
  have hxs : ∃ ys : List Text, xs = ys.map reference := by
    rw [Declaration.references] at h
    split at h
    · obtain ⟨ys, -, rfl⟩ := map_ok_iff.mp h
      exact ⟨ys, rfl⟩
    · cases h
    · cases h
  obtain ⟨ys, rfl⟩ := hxs
  refine map_ok_iff.mpr ⟨_, texts_ofTexts _, ?_⟩
  rw [List.map_map]
  exact List.map_congr_left fun s _ => reference_reference s

theorem list (h : Rereads read write) : Rereads (list read) fun xs => .array (xs.map write) := by
  intro j xs hxs
  refine itemsFrom_map fun x hx => ?_
  obtain ⟨i, hi⟩ := list_ok hxs x hx
  exact h i x hi

/-- What may be null is written as null or as what it is otherwise. -/
theorem optional {write? : Option α → Json} (h : Rereads read write) (hnull : ∀ x, write x ≠ .null)
    (hnone : write? none = .null) (hsome : ∀ x, write? (some x) = write x) :
    Rereads (optional read) write? := by
  intro j x hx
  cases x with
  | none => rw [hnone]; rfl
  | some x =>
    rw [hsome, Declaration.optional.eq_def]
    split
    · next heq => exact absurd heq (hnull x)
    · rw [h j x (optional_ok hx)]
      rfl

theorem orNull (h : Rereads read write) (hnull : ∀ x, write x ≠ .null) :
    Rereads (Declaration.optional read) fun x => (x.map write).getD .null :=
  h.optional hnull rfl fun _ => rfl

theorem int? {read : Json → Checked Int} (h : Rereads read .int) :
    Rereads (Declaration.optional read) .ofInt? :=
  h.optional (by simp) rfl fun _ => rfl

theorem bool? {read : Json → Checked Bool} (h : Rereads read .bool) :
    Rereads (Declaration.optional read) boolJson :=
  h.optional (by simp) rfl fun _ => rfl

theorem text? {read : Json → Checked Text} (h : Rereads read .string) :
    Rereads (Declaration.optional read) .ofText? :=
  h.optional (by simp) rfl fun _ => rfl

theorem name? {name : α → Text} (h : Rereads read fun x => .string (name x)) :
    Rereads (Declaration.optional read) fun x => .ofText? (x.map name) :=
  h.optional (by simp) rfl fun _ => rfl

end Rereads

/-! ## Forms -/

/-- Fields are written under keys that are known, each under its own. -/
structure Written (known : List Text) (fields : Fields) : Prop where
  known : Known known fields
  distinct : (fields.map (·.1)).Nodup

variable {known : List Text} {fields written : Fields} {key : Text} {default x : α}

theorem Written.of_keys (keys : List Text) (hfields : fields.map (·.1) = keys)
    (h : keys.Nodup ∧ ∀ k ∈ keys, k.isWhole = true ∧ k ∈ known) : Written known fields where
  known f hf := h.2 f.1 (hfields ▸ List.mem_map_of_mem hf)
  distinct := hfields ▸ h.1

/-- Every one of some fields is found under its key. -/
def Holds (written fields : Fields) : Prop := ∀ f ∈ fields, Json.find? written f.1 = some f.2

theorem Written.holds (h : Written known fields) : Holds fields fields :=
  fun _ hf => Json.find?_of_mem h.distinct hf

theorem required_again (h : Rereads read write) (hx : required fields key read = .ok x)
    (hwritten : Json.find? written key = some (write x)) : required written key read = .ok x := by
  rw [required, under_ok_iff] at hx ⊢
  rw [hwritten]
  cases hj : Json.find? fields key with
  | none =>
    rw [hj] at hx
    cases hx
  | some j =>
    rw [hj] at hx
    exact h j x hx

theorem field_again (h : Rereads read write) (hdefault : read (write default) = .ok default)
    (hx : field fields key default read = .ok x)
    (hwritten : Json.find? written key = some (write x)) :
    field written key default read = .ok x := by
  rw [field, hwritten]
  refine under_ok_iff.mpr ?_
  obtain rfl | ⟨j, hj⟩ := field_ok hx
  · exact hdefault
  · exact h j x hj

end Declaration

end SystemAtlas
