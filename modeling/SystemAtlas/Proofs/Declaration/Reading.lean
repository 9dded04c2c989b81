import SystemAtlas.Declaration.Workspace
import SystemAtlas.Proofs.Declaration.Forms

/-! # How checking a document ends

The faults of a document can all be told, unless a style has half of a surrogate pair in a shape or
a colour. The check of a document stops for one reason only: a view whose `include` has no items
(`Workspace.checked_regular`). -/

namespace SystemAtlas.Declaration

open Checked
open Json (Fields)

variable {α β : Type} {W : Prop} {S : Text → Prop} {j : Json} {fields : Fields} {key : Text}

/-! ## Members of a model -/

theorem localName_regular : (localName j).Regular W S := by
  refine text_regular.andThen fun s _ _ => ?_
  cases Identifier.LocalName.ofText? s with
  | none => exact .error rfl
  | some n => exact .ok

theorem lineOf_regular : (lineOf fields).Regular W S :=
  optionalField_regular fun _ _ => integer_regular

theorem identifierOf_regular : (identifierOf fields).Regular W S :=
  optionalField_regular fun _ _ => localName_regular

theorem Details.ofFields_regular : (Details.ofFields fields).Regular W S :=
  lineOf_regular.map
    |>.seq identifierOf_regular
    |>.seq (required_regular fun _ _ => text_regular)
    |>.seq (field_regular fun _ _ => text_regular)
    |>.seq (field_regular fun _ _ => text_regular)
    |>.seq (field_regular fun _ _ => texts_regular)
    |>.seq (field_regular fun _ _ => text_regular)
    |>.seq (field_regular fun _ _ => dictionary_regular)

theorem single_regular {make : Details → α} : (single fields make).Regular W S :=
  closed_regular Details.ofFields_regular.map

theorem block_regular {make : Details → List β → α} {member : Json → Checked β}
    (h : ∀ j, (member j).Regular W S) : (block fields make member).Regular W S :=
  closed_regular <| Details.ofFields_regular.map.seq <|
    field_regular fun _ _ => list_regular fun _ _ j _ => h j

theorem Relationship.ofFields_regular : (Relationship.ofFields fields).Regular W S :=
  closed_regular <| lineOf_regular.map
    |>.seq (required_regular fun _ _ => text_regular)
    |>.seq (required_regular fun _ _ => text_regular)
    |>.seq (field_regular fun _ _ => text_regular)
    |>.seq (field_regular fun _ _ => text_regular)
    |>.seq (optionalField_regular fun _ _ => choice_regular)
    |>.seq (field_regular fun _ _ => texts_regular)
    |>.seq (field_regular fun _ _ => boolean_regular)

theorem Instance.ofFields_regular {kind : InstanceKind} :
    (Instance.ofFields kind fields).Regular W S :=
  closed_regular <| lineOf_regular.map
    |>.seq identifierOf_regular
    |>.seq (required_regular fun _ _ => text_regular)
    |>.seq (field_regular fun _ _ => texts_regular)
    |>.seq (field_regular fun _ _ => texts_regular)
    |>.seq (field_regular fun _ _ => text_regular)

theorem Named.ofFields_regular : (Named.ofFields fields).Regular W S :=
  lineOf_regular.map
    |>.seq identifierOf_regular
    |>.seq (required_regular fun _ _ => text_regular)

theorem ContainerMember.ofJson_regular : (ContainerMember.ofJson j).Regular W S := by
  refine member_regular fun fields => ?_
  simp only [List.forall_mem_cons]
  exact ⟨single_regular, Relationship.ofFields_regular.map, List.forall_mem_nil _⟩

theorem SystemMember.ofJson_regular : (SystemMember.ofJson j).Regular W S := by
  refine member_regular fun fields => ?_
  simp only [List.forall_mem_cons]
  exact ⟨block_regular fun _ => ContainerMember.ofJson_regular,
    Relationship.ofFields_regular.map, List.forall_mem_nil _⟩

theorem nodeOf_regular {depth : Nat} {make : Details → Int → List β → α}
    {body : Unit → Checked (List β)} (h : (body ()).Regular W S) :
    (nodeOf depth fields make body).Regular W S := by
  rw [nodeOf]
  split
  · exact .fault rfl
  · exact closed_regular <| Details.ofFields_regular.map
      |>.seq (field_regular fun _ _ => integerFrom_regular)
      |>.seq h

mutual

theorem NodeMember.ofJson_regular (depth : Nat) :
    (j : Json) → (NodeMember.ofJson depth j).Regular W S
  | .object fields => by
    rw [NodeMember.ofJson]
    refine kinded_regular ?_
    simp only [List.forall_mem_cons]
    exact ⟨nodeOf_regular (bodyOf_regular (depth + 1) fields), single_regular,
      Instance.ofFields_regular.map, Instance.ofFields_regular.map,
      Relationship.ofFields_regular.map, List.forall_mem_nil _⟩
  | .null | .bool _ | .int _ | .float _ | .string _ | .array _ => .fault rfl

theorem bodyOf_regular (depth : Nat) : (fields : Fields) → (bodyOf depth fields).Regular W S
  | [] => .ok
  | (k, j) :: rest => by
    rw [bodyOf]
    split
    · exact (membersOf_regular depth j).under
    · exact bodyOf_regular depth rest

theorem membersOf_regular (depth : Nat) : (j : Json) → (membersOf depth j).Regular W S
  | .array items => membersFrom_regular depth 0 items
  | .null | .bool _ | .int _ | .float _ | .string _ | .object _ => .fault rfl

theorem membersFrom_regular (depth i : Nat) :
    (items : List Json) → (membersFrom depth i items).Regular W S
  | [] => .ok
  | j :: rest =>
    (NodeMember.ofJson_regular depth j).under.map.seq (membersFrom_regular depth (i + 1) rest)

end

theorem EnvironmentMember.ofJson_regular : (EnvironmentMember.ofJson j).Regular W S := by
  refine member_regular fun fields => ?_
  simp only [List.forall_mem_cons]
  exact ⟨closed_regular Named.ofFields_regular.map, nodeOf_regular (bodyOf_regular 2 fields),
    Relationship.ofFields_regular.map, List.forall_mem_nil _⟩

theorem environmentOf_regular : (environmentOf fields).Regular W S :=
  closed_regular <| Named.ofFields_regular.map.seq <|
    field_regular fun _ _ => list_regular fun _ _ _ _ => EnvironmentMember.ofJson_regular

theorem ModelMember.ofJson_regular : (ModelMember.ofJson j).Regular W S := by
  refine member_regular fun fields => ?_
  simp only [List.forall_mem_cons]
  exact ⟨single_regular, block_regular fun _ => SystemMember.ofJson_regular,
    environmentOf_regular, Relationship.ofFields_regular.map, List.forall_mem_nil _⟩

/-! ## Styles and layouts -/

theorem shapeOf_regular (h : W → j.isWhole = true) : (shapeOf j).Regular W S := by
  refine text_regular.andThen fun s hs hW => ?_
  cases j with
  | string t =>
    cases hs
    rw [Style.Shape.ofJson]
    cases Style.Shape.ofText? s with
    | some shape => exact .ok
    | none => exact .error (Text.encodingFault?_eq_none_iff.mpr (Text.isWhole_append rfl (h hW)))
  | _ => cases hs

theorem colorOf_regular (h : W → j.isWhole = true) : (colorOf j).Regular W S := by
  refine text_regular.andThen fun s hs hW => ?_
  cases j with
  | string t =>
    cases hs
    rw [Style.Color.ofJson]
    cases s.chars?.filter Style.Color.isColor with
    | some cs => exact .ok
    | none => exact .error (Text.encodingFault?_eq_none_iff.mpr (Text.isWhole_append rfl (h hW)))
  | _ => cases hs

theorem isWhole_of_field (h : W → (Json.object fields).isWhole = true)
    (hj : Json.find? fields key = some j) (hW : W) : j.isWhole = true :=
  Json.isWhole_of_find? (h hW) hj

theorem isWhole_of_item {i : Json} {items : List Json} (h : W → j.isWhole = true)
    (hj : j = .array items) (hi : i ∈ items) (hW : W) : i.isWhole = true := by
  subst hj
  exact Json.isWhole_of_mem (h hW) hi

section
variable (h : W → (Json.object fields).isWhole = true)
include h

theorem shape_regular : (optionalField fields key shapeOf).Regular W S :=
  optionalField_regular fun _ hj => shapeOf_regular (isWhole_of_field h hj)

theorem color_regular : (optionalField fields key colorOf).Regular W S :=
  optionalField_regular fun _ hj => colorOf_regular (isWhole_of_field h hj)

end

theorem ElementStyle.ofJson_regular (h : W → j.isWhole = true) :
    (ElementStyle.ofJson j).Regular W S := by
  refine form_regular fun fields hj => ?_
  subst hj
  exact closed_regular <| (optionalField_regular fun _ _ => integer_regular).map
    |>.seq (required_regular fun _ _ => text_regular)
    |>.seq (shape_regular h)
    |>.seq (color_regular h)
    |>.seq (color_regular h)
    |>.seq (color_regular h)
    |>.seq (optionalField_regular fun _ _ => choice_regular)
    |>.seq (optionalField_regular fun _ _ => text_regular)
    |>.seq (optionalField_regular fun _ _ => integer_regular)
    |>.seq (optionalField_regular fun _ _ => integer_regular)
    |>.seq (optionalField_regular fun _ _ => integer_regular)
    |>.seq (optionalField_regular fun _ _ => integerIn_regular)
    |>.seq (optionalField_regular fun _ _ => boolean_regular)
    |>.seq (optionalField_regular fun _ _ => boolean_regular)

theorem RelationshipStyle.ofJson_regular (h : W → j.isWhole = true) :
    (RelationshipStyle.ofJson j).Regular W S := by
  refine form_regular fun fields hj => ?_
  subst hj
  exact closed_regular <| (optionalField_regular fun _ _ => integer_regular).map
    |>.seq (required_regular fun _ _ => text_regular)
    |>.seq (optionalField_regular fun _ _ => integer_regular)
    |>.seq (color_regular h)
    |>.seq (optionalField_regular fun _ _ => boolean_regular)
    |>.seq (optionalField_regular fun _ _ => choice_regular)
    |>.seq (optionalField_regular fun _ _ => integer_regular)
    |>.seq (optionalField_regular fun _ _ => integer_regular)
    |>.seq (optionalField_regular fun _ _ => integerIn_regular)

theorem Styles.ofJson_regular (h : W → j.isWhole = true) : (Styles.ofJson j).Regular W S := by
  refine form_regular fun fields hj => ?_
  subst hj
  exact closed_regular <| (optionalField_regular fun _ _ => integer_regular).map
    |>.seq (field_regular fun _ hj => list_regular fun _ hitems _ hi =>
      ElementStyle.ofJson_regular (isWhole_of_item (isWhole_of_field h hj) hitems hi))
    |>.seq (field_regular fun _ hj => list_regular fun _ hitems _ hi =>
      RelationshipStyle.ofJson_regular (isWhole_of_item (isWhole_of_field h hj) hitems hi))

theorem AutoLayout.ofFields_regular : (AutoLayout.ofFields fields).Regular W S :=
  closed_regular <| (optionalField_regular fun _ _ => integer_regular).map
    |>.seq (field_regular fun _ _ => choice_regular)
    |>.seq (optionalField_regular fun _ _ => integerFrom_regular)
    |>.seq (optionalField_regular fun _ _ => integerFrom_regular)

theorem AutoLayout.ofJson_regular : (AutoLayout.ofJson j).Regular W S := by
  rw [AutoLayout.ofJson.eq_def]
  split
  · exact ofFields_regular
  · exact ofFields_regular
  · exact form_regular fun _ _ => ofFields_regular

/-! ## Views -/

/-- A value of the type with the given name has no items to go through. -/
def HasNoItems (j : Json) (type : Text) : Prop := itemsOf j = .stopped type

theorem references_regular : (references j).Regular W (HasNoItems j) := by
  rw [references]
  split
  · exact texts_regular.map
  · next faults hitems =>
    cases j with
    | string s | array items | object fields => cases hitems
    | _ =>
      simp only [itemsOf] at hitems
      split at hitems <;> cases hitems
  · next type hitems => exact hitems

/-- A declared view includes a value that has no items. -/
def View.Bare (j : Json) (type : Text) : Prop :=
  ∃ inc, j.field? "include" = some inc ∧ HasNoItems inc type

theorem View.lack?_plain {v : View} {problem : Problem} (h : v.lack? = some problem) :
    problem.Plain := by
  rw [lack?] at h
  split at h
  all_goals
    split at h <;> cases h
    rfl

theorem View.ofJson_regular (h : W → j.isWhole = true) :
    (View.ofJson j).Regular W (View.Bare j) := by
  refine Regular.andThen (form_regular fun fields hj => ?_) fun v _ _ => ?_
  · subst hj
    exact closed_regular <| (optionalField_regular fun _ _ => integer_regular).map
      |>.seq (required_regular fun _ _ => choice_regular)
      |>.seq (required_regular fun _ _ => text_regular.map)
      |>.seq (optionalField_regular fun _ _ => text_regular)
      |>.seq (optionalField_regular fun _ _ => text_regular)
      |>.seq (field_regular fun _ _ => text_regular)
      |>.seq (field_regular fun _ _ => text_regular)
      |>.seq (field_regular fun inc hinc => references_regular.mono fun _ hs => ⟨inc, hinc, hs⟩)
      |>.seq (field_regular fun _ _ => texts_regular)
      |>.seq (optionalField_regular fun _ _ => AutoLayout.ofJson_regular)
      |>.seq (field_regular fun _ _ => list_regular fun _ _ _ _ => texts_regular)
      |>.seq (field_regular fun _ hj => Styles.ofJson_regular (isWhole_of_field h hj))
  · cases hlack : v.lack? with
    | none => exact .ok
    | some problem => exact .error (View.lack?_plain hlack)

/-- Among the declared views, one includes a value that has no items. -/
def Views.Bare (j : Json) (type : Text) : Prop :=
  ∃ items, j.field? "views" = some (.array items) ∧ ∃ v ∈ items, View.Bare v type

theorem Views.ofJson_regular (h : W → j.isWhole = true) :
    (Views.ofJson j).Regular W (Views.Bare j) := by
  refine form_regular fun fields hj => ?_
  subst hj
  refine closed_regular <| (optionalField_regular fun _ _ => integer_regular).map
    |>.seq (field_regular fun vs hvs => list_regular fun items hitems v hv => ?_)
    |>.seq (field_regular fun _ hj => Styles.ofJson_regular (isWhole_of_field h hj))
    |>.seq (field_regular fun _ _ => texts_regular)
  have hwhole := isWhole_of_item (isWhole_of_field h hvs) hitems hv
  subst hitems
  exact (View.ofJson_regular hwhole).mono fun _ hbare => ⟨items, hvs, v, hv, hbare⟩

/-! ## Workspaces -/

namespace Workspace

/-- Among the views of a workspace, one includes a value that has no items. -/
def Bare (j : Json) (type : Text) : Prop :=
  ∃ views, j.field? "views" = some views ∧ Views.Bare views type

theorem checked_regular (h : W → j.isWhole = true) : (checked j).Regular W (Bare j) := by
  refine form_regular fun fields hj => ?_
  subst hj
  exact closed_regular <| (optionalField_regular fun _ _ => integer_regular).map
    |>.seq (field_regular fun _ _ => text_regular)
    |>.seq (field_regular fun _ _ => text_regular)
    |>.seq (optionalField_regular fun _ _ => choice_regular)
    |>.seq (field_regular fun _ _ => list_regular fun _ _ _ _ => ModelMember.ofJson_regular)
    |>.seq (field_regular fun views hviews =>
      (Views.ofJson_regular (isWhole_of_field h hviews)).mono fun _ hbare => ⟨views, hviews, hbare⟩)

end Workspace

/-! ## Views that stop the check -/

theorem View.Bare.stops {type : Text} (h : View.Bare j type) : (View.ofJson j).Stops := by
  obtain ⟨inc, hinc, hitems⟩ := h
  cases j with
  | object fields =>
    have hreferences : (references inc).Stops := ⟨type, by rw [references, hitems]⟩
    exact .andThen <| .closed <| (hreferences.field hinc).afterSeq.seq.seq.seq.seq
  | _ => cases hinc

theorem Views.Bare.stops {type : Text} (h : Views.Bare j type) : (Views.ofJson j).Stops := by
  obtain ⟨items, hviews, v, hv, hbare⟩ := h
  cases j with
  | object fields =>
    exact .closed (Stops.field hviews (.itemsFrom hv hbare.stops)).afterSeq.seq.seq
  | _ => cases hviews

/-- A view that includes a value without items stops the check, whatever else is wrong. -/
theorem Workspace.Bare.stops {type : Text} (h : Bare j type) : (checked j).Stops := by
  obtain ⟨views, hviews, hbare⟩ := h
  cases j with
  | object fields => exact .closed (Stops.field hviews hbare.stops).afterSeq
  | _ => cases hviews

end SystemAtlas.Declaration
