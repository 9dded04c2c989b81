import SystemAtlas.Declaration.ViewReader
import SystemAtlas.Declaration.MemberReader
import SystemAtlas.Proofs.Refusal

/-! # Forms that documents are checked by

A check of something composite ends as those of its parts do. `Checked.Regular` says that of the
faults and stops of a check, with one lemma for each way to put checks together; what a check gives
is told part by part as well. -/

namespace SystemAtlas

theorem Text.chars?_eq_some_iff {s : Text} {cs : List Char} :
    s.chars? = some cs ↔ s = .ofChars cs := by
  refine ⟨fun h => ?_, fun h => h ▸ chars?_ofChars cs⟩
  obtain ⟨points⟩ := s
  refine congrArg Text.mk ?_
  rw [chars?] at h
  induction points generalizing cs with
  | nil =>
    cases Option.some.inj h
    rfl
  | cons p points ih =>
    rw [List.mapM_cons] at h
    obtain ⟨c, hc, h⟩ := Option.bind_eq_some_iff.mp h
    obtain ⟨ds, hds, h⟩ := Option.bind_eq_some_iff.mp h
    cases Option.some.inj h
    cases p with
    | char d => rw [Option.some.inj hc, ih hds, List.map_cons]
    | lone half => cases hc

theorem Text.ofString_inj {s t : String} : (s : Text) = t ↔ s = t := by
  refine ⟨fun h => ?_, fun h => h ▸ rfl⟩
  have hlossy := congrArg lossy h
  rwa [lossy_ofString, lossy_ofString] at hlossy

theorem Text.isWhole_ofString (s : String) : (s : Text).isWhole = true := by
  rw [isWhole, ofString, chars?_ofChars]
  rfl

theorem Text.isWhole_append {s t : Text} (hs : s.isWhole = true) (ht : t.isWhole = true) :
    (s ++ t).isWhole = true := by
  obtain ⟨cs, hcs⟩ := Option.isSome_iff_exists.mp hs
  obtain ⟨ds, hds⟩ := Option.isSome_iff_exists.mp ht
  refine Option.isSome_iff_exists.mpr ⟨cs ++ ds, ?_⟩
  rw [chars?] at hcs hds ⊢
  exact (List.mapM_append ..).trans (by rw [hcs, hds]; rfl)

/-! ## Documents without halves of surrogate pairs -/

namespace Json

mutual

/-- Whether all texts that a value holds have nothing but characters. Keys do not count. -/
def isWhole : Json → Bool
  | string s => s.isWhole
  | array items => wholeItems items
  | object fields => wholeFields fields
  | _ => true

/-- Whether all items of an array are whole. -/
def wholeItems : List Json → Bool
  | [] => true
  | j :: rest => isWhole j && wholeItems rest

/-- Whether all values of an object are whole. -/
def wholeFields : List (Text × Json) → Bool
  | [] => true
  | (_, j) :: rest => isWhole j && wholeFields rest

end

variable {j : Json} {items : List Json} {fields : Fields} {key : Text}

theorem isWhole_of_mem (h : wholeItems items = true) (hj : j ∈ items) : j.isWhole = true := by
  induction items with
  | nil => cases hj
  | cons x rest ih =>
    obtain ⟨hx, hrest⟩ := Bool.and_eq_true_iff.mp h
    rcases List.mem_cons.mp hj with rfl | hj
    · exact hx
    · exact ih hrest hj

theorem isWhole_of_find? (h : wholeFields fields = true) (hj : find? fields key = some j) :
    j.isWhole = true := by
  induction fields with
  | nil => cases hj
  | cons x rest ih =>
    obtain ⟨k, i⟩ := x
    obtain ⟨hi, hrest⟩ := Bool.and_eq_true_iff.mp h
    rw [find?, List.find?_cons] at hj
    split at hj
    · cases hj
      exact hi
    · exact ih hrest hj

end Json

namespace Declaration

open Json (Fields)

/-- A problem that can be told whatever the document says. -/
def Problem.Plain (p : Problem) : Prop := p.encodingFault? = none

namespace Checked

variable {α β : Type} {W : Prop} {S T : Text → Prop} {x : Checked α} {problem : Problem}

/-- All faults that were found can be told if `W` holds, and the check stopped only as `S` says. -/
def Regular (W : Prop) (S : Text → Prop) : Checked α → Prop
  | ok _ => True
  | faulty faults => W → ∀ f ∈ faults, f.problem.Plain
  | stopped type => S type

namespace Regular

theorem ok {x : α} : (Checked.ok x).Regular W S := trivial

theorem fault (h : problem.Plain) : (fault problem : Checked α).Regular W S :=
  fun _ _ hf => List.mem_singleton.mp hf ▸ h

theorem mono (h : x.Regular W S) (hST : ∀ type, S type → T type) : x.Regular W T := by
  cases x with
  | stopped type => exact hST type h
  | _ => exact h

theorem map {f : α → β} (h : x.Regular W S) : (f <$> x).Regular W S := by
  cases x <;> exact h

theorem seq {f : Checked (α → β)} (hf : f.Regular W S) (hx : x.Regular W S) :
    (f <*> x).Regular W S := by
  cases f with
  | ok f => cases x <;> exact hx
  | stopped type => exact hf
  | faulty faults =>
    cases x with
    | ok x => exact hf
    | stopped type => exact hx
    | faulty more =>
      intro hW f hmem
      exact (List.mem_append.mp hmem).elim (hf hW f) (hx hW f)

theorem seqLeft {y : Checked β} (hx : x.Regular W S) (hy : y.Regular W S) :
    (x <* y).Regular W S :=
  hx.map.seq hy

theorem under {step : Text} (h : x.Regular W S) : (x.under step).Regular W S := by
  cases x with
  | faulty faults =>
    intro hW f hf
    obtain ⟨f', hf', rfl⟩ := List.mem_map.mp hf
    exact h hW f' hf'
  | _ => exact h

theorem andThen {check : α → Except Problem β} (hx : x.Regular W S)
    (hcheck : ∀ a, x = .ok a → W → FailsAs Problem.Plain (check a)) :
    (x.andThen check).Regular W S := by
  cases x with
  | ok a =>
    rw [Checked.andThen]
    split
    · exact ok
    · next p hp => exact fun hW f hf => List.mem_singleton.mp hf ▸ hcheck a rfl hW p hp
  | _ => exact hx

theorem ensure {holds : α → Bool} {problem : α → Problem} (hx : x.Regular W S)
    (h : ∀ a, (problem a).Plain) : (x.ensure holds problem).Regular W S := by
  refine hx.andThen fun a _ _ => ?_
  split
  · exact .ok
  · exact .error (h a)

end Regular

end Checked

open Checked

variable {α β : Type} {W : Prop} {S : Text → Prop} {j : Json} {fields : Fields} {key : Text}

/-! ## Values -/

theorem text_regular : (text j).Regular W S := by
  cases j with
  | string s => exact .ok
  | _ => exact .fault rfl

theorem readChars_regular {read : List Char → Except Problem α} {s : Text}
    (h : ∀ cs, FailsAs Problem.Plain (read cs)) : (readChars read s).Regular W S := by
  rw [readChars]
  cases s.chars? with
  | none => exact .fault rfl
  | some cs => exact .andThen .ok fun _ _ _ => h _

theorem integerOfDigits_plain (cs : List Char) : FailsAs Problem.Plain (integerOfDigits cs) := by
  simp only [integerOfDigits]
  split
  · exact .error rfl
  · split
    · exact .error rfl
    · split
      · exact .error rfl
      · exact .ok

theorem integerOfChars_plain (cs : List Char) : FailsAs Problem.Plain (integerOfChars cs) := by
  rw [integerOfChars]
  split
  · rw [integerOfSpelling]
    split
    · exact .ok
    · exact .error rfl
  · exact integerOfDigits_plain cs

theorem integerOfFloat_plain (x : Float) : FailsAs Problem.Plain (integerOfFloat x) := by
  rw [integerOfFloat]
  split
  · exact .error rfl
  · split
    · exact .error rfl
    · split
      · exact .ok
      · exact .error rfl

theorem integer_regular : (integer j).Regular W S := by
  cases j with
  | int i => exact .ok
  | bool b => exact .ok
  | float x => exact .andThen .ok fun _ _ _ => integerOfFloat_plain _
  | string s => exact readChars_regular integerOfChars_plain
  | _ => exact .fault rfl

theorem integerFrom_regular {bound : Int} : (integerFrom bound j).Regular W S :=
  integer_regular.ensure fun _ => rfl

theorem integerIn_regular {least bound : Int} : (integerIn least bound j).Regular W S :=
  integerFrom_regular.ensure fun _ => rfl

theorem booleanOfChars_plain (cs : List Char) : FailsAs Problem.Plain (booleanOfChars cs) := by
  simp only [booleanOfChars]
  split
  · exact .ok
  · split
    · exact .ok
    · exact .error rfl

theorem booleanOfInt_plain (i : Int) : FailsAs Problem.Plain (booleanOfInt i) := by
  rw [booleanOfInt]
  split
  · exact .ok
  · split
    · exact .ok
    · split <;> exact .error rfl

theorem boolean_regular : (boolean j).Regular W S := by
  cases j with
  | bool b => exact .ok
  | int i => exact .andThen .ok fun _ _ _ => booleanOfInt_plain _
  | float x =>
    rw [boolean]
    split
    · exact .andThen .ok fun _ _ _ => booleanOfInt_plain _
    · exact .fault rfl
  | string s => exact readChars_regular booleanOfChars_plain
  | _ => exact .fault rfl

theorem choice_regular {options : List (Text × α)} : (choice options j).Regular W S := by
  cases j with
  | string s =>
    refine readChars_regular fun cs => ?_
    cases options.lookup (.ofChars cs) with
    | none => exact .error rfl
    | some x => exact .ok
  | _ => exact .fault rfl

/-! ## Composite values -/

theorem optional_regular {read : Json → Checked α} (h : (read j).Regular W S) :
    (optional read j).Regular W S := by
  cases j with
  | null => exact .ok
  | _ => exact h.map

theorem itemsFrom_regular {read : Json → Checked α} {items : List Json} {i : Nat}
    (h : ∀ j ∈ items, (read j).Regular W S) : (itemsFrom read i items).Regular W S := by
  induction items generalizing i with
  | nil => exact .ok
  | cons j rest ih =>
    refine (h j List.mem_cons_self).under.map.seq (ih fun j hj => ?_)
    exact h j (List.mem_cons_of_mem _ hj)

theorem list_regular {read : Json → Checked α}
    (h : ∀ items, j = .array items → ∀ i ∈ items, (read i).Regular W S) :
    (list read j).Regular W S := by
  cases j with
  | array items => exact itemsFrom_regular (h items rfl)
  | _ => exact .fault rfl

theorem texts_regular : (texts j).Regular W S := list_regular fun _ _ _ _ => text_regular

theorem entries_regular : (entries fields).Regular W S := by
  induction fields with
  | nil => exact .ok
  | cons x rest ih => exact text_regular.under.map.map.seq ih

theorem dictionary_regular : (dictionary j).Regular W S := by
  cases j with
  | object fields => exact entries_regular
  | _ => exact .fault rfl

/-! ## Forms -/

theorem required_regular {read : Json → Checked α}
    (h : ∀ j, Json.find? fields key = some j → (read j).Regular W S) :
    (required fields key read).Regular W S := by
  rw [required]
  cases hfind : Json.find? fields key with
  | none => exact .under (.fault rfl)
  | some j => exact (h j hfind).under

theorem field_regular {read : Json → Checked α} {default : α}
    (h : ∀ j, Json.find? fields key = some j → (read j).Regular W S) :
    (field fields key default read).Regular W S := by
  rw [field]
  split
  · next j hfind => exact (h j hfind).under
  · exact .ok

theorem optionalField_regular {read : Json → Checked α}
    (h : ∀ j, Json.find? fields key = some j → (read j).Regular W S) :
    (optionalField fields key read).Regular W S :=
  field_regular fun j hj => optional_regular (h j hj)

theorem noOthers_regular {known : List Text} : (noOthers known fields).Regular W S := by
  induction fields with
  | nil => exact .ok
  | cons x rest ih =>
    rw [noOthers]
    split
    · exact ih
    · exact .seq (.map (.under (.fault rfl))) ih

theorem closed_regular {known : List Text} {x : Checked α} (h : x.Regular W S) :
    (closed known fields x).Regular W S := by
  rw [closed.eq_def]
  split
  · exact h.seqLeft noOthers_regular
  · split
    · exact h
    · exact .fault rfl

theorem form_regular {name : Text} {read : Fields → Checked α}
    (h : ∀ fields, j = .object fields → (read fields).Regular W S) :
    (form name read j).Regular W S := by
  cases j with
  | object fields => exact h fields rfl
  | _ => exact .fault rfl

theorem kinded_regular {forms : List (Text × (Unit → Checked α))}
    (h : ∀ f ∈ forms, (f.2 ()).Regular W S) : (kinded fields forms).Regular W S := by
  simp only [kinded]
  split
  · exact .fault rfl
  · next kind _ =>
    split
    · next read hlookup =>
      obtain ⟨l, r, rfl, -⟩ := List.lookup_eq_some_iff.mp hlookup
      exact (h (kind, read) (by simp)).under
    · exact .fault rfl
  · exact .fault rfl

theorem member_regular {forms : Fields → List (Text × (Unit → Checked α))}
    (h : ∀ fields, ∀ f ∈ forms fields, (f.2 ()).Regular W S) : (member forms j).Regular W S := by
  cases j with
  | object fields => exact kinded_regular (h fields)
  | _ => exact .fault rfl

/-! ## Checks that stop -/

namespace Checked

/-- A check stops. -/
def Stops (x : Checked α) : Prop := ∃ type, x = .stopped type

namespace Stops

variable {x : Checked α}

theorem map {f : α → β} (h : x.Stops) : (f <$> x).Stops := by
  obtain ⟨type, rfl⟩ := h
  exact ⟨type, rfl⟩

theorem seq {f : Checked (α → β)} (h : f.Stops) : (f <*> x).Stops := by
  obtain ⟨type, rfl⟩ := h
  exact ⟨type, rfl⟩

/-- The faults that were found before do not count. -/
theorem afterSeq {f : Checked (α → β)} (h : x.Stops) : (f <*> x).Stops := by
  obtain ⟨type, rfl⟩ := h
  cases f <;> exact ⟨_, rfl⟩

theorem under {step : Text} (h : x.Stops) : (x.under step).Stops := by
  obtain ⟨type, rfl⟩ := h
  exact ⟨type, rfl⟩

theorem andThen {check : α → Except Problem β} (h : x.Stops) : (x.andThen check).Stops := by
  obtain ⟨type, rfl⟩ := h
  exact ⟨type, rfl⟩

theorem closed {known : List Text} (h : x.Stops) : (closed known fields x).Stops := by
  obtain ⟨type, rfl⟩ := h
  rw [Declaration.closed]
  split <;> exact ⟨type, rfl⟩

theorem field {read : Json → Checked α} {default : α} (hj : Json.find? fields key = some j)
    (h : (read j).Stops) : (field fields key default read).Stops := by
  rw [Declaration.field, hj]
  exact h.under

theorem itemsFrom {read : Json → Checked α} {items : List Json} {i : Nat} (hj : j ∈ items)
    (h : (read j).Stops) : (itemsFrom read i items).Stops := by
  induction items generalizing i with
  | nil => cases hj
  | cons x rest ih =>
    rcases List.mem_cons.mp hj with rfl | hj
    · exact h.under.map.seq
    · exact (ih hj).afterSeq

end Stops

end Checked

/-! ## What checks give -/

namespace Checked

variable {x : Checked α}

theorem map_ok_iff {f : α → β} {b : β} : f <$> x = .ok b ↔ ∃ a, x = .ok a ∧ f a = b := by
  cases x with
  | ok a =>
    constructor
    · intro h
      cases h
      exact ⟨a, rfl, rfl⟩
    · rintro ⟨_, ha, rfl⟩
      cases ha
      rfl
  | _ =>
    constructor
    · intro h
      cases h
    · rintro ⟨_, ha, -⟩
      cases ha

theorem seq_ok_iff {f : Checked (α → β)} {b : β} :
    f <*> x = .ok b ↔ ∃ g, f = .ok g ∧ ∃ a, x = .ok a ∧ g a = b := by
  constructor
  · intro h
    cases f <;> cases x <;> cases h
    exact ⟨_, rfl, _, rfl, rfl⟩
  · rintro ⟨g, rfl, a, rfl, rfl⟩
    rfl

theorem seqLeft_ok_iff {y : Checked β} {a : α} :
    x <* y = .ok a ↔ x = .ok a ∧ ∃ b, y = .ok b := by
  rw [show x <* y = (fun a _ => a) <$> x <*> y from rfl, seq_ok_iff]
  simp [map_ok_iff]

theorem under_ok_iff {step : Text} {a : α} : x.under step = .ok a ↔ x = .ok a := by
  cases x <;> simp [under]

theorem andThen_ok_iff {check : α → Except Problem β} {b : β} :
    x.andThen check = .ok b ↔ ∃ a, x = .ok a ∧ check a = .ok b := by
  cases x with
  | ok a =>
    rw [andThen]
    cases h : check a <;> simp [h, fault]
  | _ => simp [andThen]

theorem ensure_ok_iff {holds : α → Bool} {problem : α → Problem} {a : α} :
    x.ensure holds problem = .ok a ↔ x = .ok a ∧ holds a = true := by
  rw [ensure, andThen_ok_iff]
  refine ⟨?_, fun ⟨hx, ha⟩ => ⟨a, hx, if_pos ha⟩⟩
  rintro ⟨b, hx, hb⟩
  split at hb
  · next hholds =>
    cases hb
    exact ⟨hx, hholds⟩
  · cases hb

end Checked

section
variable {read : Json → Checked α} {a : α} {known : List Text} {x : Checked α}

theorem itemsFrom_ok {items : List Json} {i : Nat} {xs : List α}
    (h : itemsFrom read i items = .ok xs) : ∀ x ∈ xs, ∃ j, read j = .ok x := by
  induction items generalizing i xs with
  | nil =>
    cases h
    exact nofun
  | cons j rest ih =>
    simp only [itemsFrom, seq_ok_iff, map_ok_iff, under_ok_iff] at h
    obtain ⟨_, ⟨x, hx, rfl⟩, ys, hys, rfl⟩ := h
    exact List.forall_mem_cons.mpr ⟨⟨j, hx⟩, ih hys⟩

theorem list_ok {xs : List α} (h : list read j = .ok xs) : ∀ x ∈ xs, ∃ i, read i = .ok x := by
  cases j with
  | array items => exact itemsFrom_ok h
  | _ => cases h

theorem field_ok {default : α} (h : field fields key default read = .ok a) :
    a = default ∨ ∃ j, read j = .ok a := by
  rw [field] at h
  split at h
  · next j _ => exact .inr ⟨j, under_ok_iff.mp h⟩
  · cases h
    exact .inl rfl

theorem listField_ok {xs : List α} (h : field fields key [] (list read) = .ok xs) :
    ∀ x ∈ xs, ∃ i, read i = .ok x := by
  obtain rfl | ⟨j, hj⟩ := field_ok h
  · exact nofun
  · exact list_ok hj

theorem optional_ok (h : optional read j = .ok (some a)) : read j = .ok a := by
  rw [optional.eq_def] at h
  split at h
  · cases h
  · obtain ⟨_, ha, heq⟩ := map_ok_iff.mp h
    cases heq
    exact ha

theorem optionalField_ok (h : optionalField fields key read = .ok (some a)) :
    ∃ j, read j = .ok a := by
  obtain h | ⟨j, h⟩ := field_ok h
  · cases h
  · exact ⟨j, optional_ok h⟩

/-- Every field has one of the known keys, and these keys have characters only. -/
def Known (known : List Text) (fields : Fields) : Prop :=
  ∀ f ∈ fields, f.1.isWhole = true ∧ f.1 ∈ known

theorem noOthers_ok_iff {u : Unit} :
    noOthers known fields = .ok u ↔ ∀ f ∈ fields, f.1 ∈ known := by
  induction fields with
  | nil => exact ⟨fun _ => List.forall_mem_nil _, fun _ => rfl⟩
  | cons f rest ih =>
    obtain ⟨k, j⟩ := f
    rw [noOthers, List.forall_mem_cons]
    by_cases hk : k ∈ known
    · simp [hk, ih]
    · simp [hk, seq_ok_iff, map_ok_iff, under, fault]

theorem closed_ok_iff : closed known fields x = .ok a ↔ x = .ok a ∧ Known known fields := by
  rw [closed.eq_def]
  by_cases hwhole : fields.all (·.1.isWhole) = true
  · have hknown : Known known fields ↔ ∀ f ∈ fields, f.1 ∈ known := by
      simp only [Known, forall_and, and_iff_right_iff_imp]
      exact fun _ => List.all_eq_true.mp hwhole
    simp [hwhole, hknown, seqLeft_ok_iff, noOthers_ok_iff]
  · have hknown : ¬ Known known fields := fun h =>
      hwhole (List.all_eq_true.mpr fun f hf => (h f hf).1)
    rw [if_neg hwhole]
    cases x <;> simp [hknown, fault]

theorem kinded_ok_iff {forms : List (Text × (Unit → Checked α))} : kinded fields forms = .ok a ↔
    ∃ kind, Json.find? fields "kind" = some (.string kind) ∧
      ∃ read, forms.lookup kind = some read ∧ read () = .ok a := by
  simp only [kinded]
  split
  · next h => simp [h, fault]
  · next kind h =>
    simp only [h, Option.some.injEq, Json.string.injEq, exists_eq_left']
    split
    · next read hread => simp [hread, under_ok_iff]
    · next hread => simp [hread, fault]
  · next j hj h =>
    simp only [h, fault, reduceCtorEq, Option.some.injEq, false_iff]
    exact fun ⟨kind, hkind, _⟩ => hj kind hkind

theorem kinded_ok {forms : List (Text × (Unit → Checked α))} (h : kinded fields forms = .ok a) :
    ∃ f ∈ forms, f.2 () = .ok a := by
  obtain ⟨kind, -, read, hlookup, hread⟩ := kinded_ok_iff.mp h
  obtain ⟨before, after, rfl, -⟩ := List.lookup_eq_some_iff.mp hlookup
  exact ⟨(kind, read), List.mem_append_right _ List.mem_cons_self, hread⟩

theorem member_ok {forms : Fields → List (Text × (Unit → Checked α))}
    (h : member forms j = .ok a) : ∃ fields, ∃ f ∈ forms fields, f.2 () = .ok a := by
  cases j with
  | object fields => exact ⟨fields, kinded_ok h⟩
  | _ => cases h

theorem form_ok {name : Text} {read : Fields → Checked α} (h : form name read j = .ok a) :
    ∃ fields, read fields = .ok a := by
  cases j with
  | object fields => exact ⟨fields, h⟩
  | _ => cases h

end

end Declaration

end SystemAtlas
