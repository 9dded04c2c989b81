import SystemAtlas.Declaration.Workspace
import SystemAtlas.Proofs.Declaration.Forms

/-! # Parts of declarations

A form gives a declaration exactly if its fields give the parts of that declaration one by one and
no other fields are there. There is one equivalence for each form, by which a check is taken apart
and put together again. -/

namespace SystemAtlas.Declaration

open Checked
open Json (Fields)

variable {α β : Type} {fields : Fields} {a : α}

/-! ## Members of a model -/

theorem Details.ofFields_ok_iff {d : Details} : Details.ofFields fields = .ok d ↔
    lineOf fields = .ok d.line ∧ identifierOf fields = .ok d.identifier ∧
      required fields "name" text = .ok d.name ∧
      field fields "description" ("" : Text) text = .ok d.description ∧
      field fields "technology" ("" : Text) text = .ok d.technology ∧
      field fields "tags" [] texts = .ok d.tags ∧ field fields "url" ("" : Text) text = .ok d.url ∧
      field fields "properties" [] dictionary = .ok d.properties := by
  cases d
  simp only [ofFields, seq_ok_iff, map_ok_iff, existsAndEq, and_true, and_assoc, mk.injEq]

theorem single_ok_iff {make : Details → α} : single fields make = .ok a ↔
    (∃ d, Details.ofFields fields = .ok d ∧ make d = a) ∧ Known Details.keys fields := by
  rw [single, closed_ok_iff, map_ok_iff]

theorem block_ok_iff {make : Details → List β → α} {member : Json → Checked β} :
    block fields make member = .ok a ↔
      (∃ d body, Details.ofFields fields = .ok d ∧ field fields "body" [] (list member) = .ok body ∧
        make d body = a) ∧ Known ("body" :: Details.keys) fields := by
  rw [block, closed_ok_iff]
  simp [seq_ok_iff, map_ok_iff]

theorem Relationship.ofFields_ok_iff {r : Relationship} : Relationship.ofFields fields = .ok r ↔
    lineOf fields = .ok r.line ∧ required fields "source" text = .ok r.source ∧
      required fields "destination" text = .ok r.destination ∧
      field fields "label" ("" : Text) text = .ok r.label ∧
      field fields "technology" ("" : Text) text = .ok r.technology ∧
      field fields "interaction" none (optional interactionOf) = .ok r.interaction ∧
      field fields "tags" [] texts = .ok r.tags ∧
      field fields "parallel" false boolean = .ok r.parallel ∧ Known keys fields := by
  rw [ofFields, closed_ok_iff]
  cases r
  simp only [seq_ok_iff, map_ok_iff, existsAndEq, and_true, and_assoc, mk.injEq]

theorem Instance.ofFields_ok_iff {kind : InstanceKind} {i : Instance} :
    Instance.ofFields kind fields = .ok i ↔
      lineOf fields = .ok i.line ∧ identifierOf fields = .ok i.identifier ∧
        required fields "element" text = .ok i.element ∧
        field fields "groups" [] texts = .ok i.groups ∧
        field fields "tags" [] texts = .ok i.tags ∧
        field fields "description" ("" : Text) text = .ok i.description ∧ kind = i.kind ∧
        Known keys fields := by
  rw [ofFields, closed_ok_iff]
  cases i
  simp only [seq_ok_iff, map_ok_iff, existsAndEq, and_true, and_assoc, mk.injEq]

theorem Named.ofFields_ok_iff {n : Named} : Named.ofFields fields = .ok n ↔
    lineOf fields = .ok n.line ∧ identifierOf fields = .ok n.identifier ∧
      required fields "name" text = .ok n.name := by
  cases n
  simp only [ofFields, seq_ok_iff, map_ok_iff, existsAndEq, and_true, and_assoc, mk.injEq]

theorem nodeOf_ok_iff {depth : Nat} {make : Details → Int → List β → α}
    {body : Unit → Checked (List β)} : nodeOf depth fields make body = .ok a ↔
      depth ≤ depthLimit ∧
      (∃ d n members, Details.ofFields fields = .ok d ∧
        field fields "instances" 1 (integerFrom 1) = .ok n ∧ body () = .ok members ∧
        make d n members = a) ∧ Known ("instances" :: "body" :: Details.keys) fields := by
  rw [nodeOf]
  split
  · next hdepth => simp [fault, Nat.not_le.mpr hdepth]
  · next hdepth => simp [closed_ok_iff, seq_ok_iff, map_ok_iff, Nat.le_of_not_lt hdepth]

theorem environmentOf_ok_iff {m : ModelMember} : environmentOf fields = .ok m ↔
    (∃ n body, Named.ofFields fields = .ok n ∧
      field fields "body" [] (list EnvironmentMember.ofJson) = .ok body ∧
      .environment n body = m) ∧ Known ("body" :: Named.keys) fields := by
  rw [environmentOf, closed_ok_iff]
  simp [seq_ok_iff, map_ok_iff]

/-! ## Styles and layouts -/

theorem ElementStyle.ofJson_ok_iff {s : ElementStyle} :
    ElementStyle.ofJson (.object fields) = .ok s ↔
      optionalField fields "line" integer = .ok s.line ∧ required fields "tag" text = .ok s.tag ∧
        optionalField fields "shape" shapeOf = .ok s.shape ∧
        optionalField fields "background" colorOf = .ok s.background ∧
        optionalField fields "color" colorOf = .ok s.color ∧
        optionalField fields "stroke" colorOf = .ok s.stroke ∧
        optionalField fields "border" (choice (Style.Border.all.map fun b => (b.name, b))) =
          .ok s.border ∧
        optionalField fields "icon" text = .ok s.icon ∧
        optionalField fields "width" integer = .ok s.width ∧
        optionalField fields "height" integer = .ok s.height ∧
        optionalField fields "font_size" integer = .ok s.fontSize ∧
        optionalField fields "opacity" (integerIn 0 100) = .ok s.opacity ∧
        optionalField fields "metadata" boolean = .ok s.metadata ∧
        optionalField fields "description" boolean = .ok s.description ∧
        Known (styleKeys .element) fields := by
  rw [ofJson, form, closed_ok_iff]
  cases s
  simp only [seq_ok_iff, map_ok_iff, existsAndEq, and_true, and_assoc, mk.injEq]

theorem RelationshipStyle.ofJson_ok_iff {s : RelationshipStyle} :
    RelationshipStyle.ofJson (.object fields) = .ok s ↔
      optionalField fields "line" integer = .ok s.line ∧ required fields "tag" text = .ok s.tag ∧
        optionalField fields "thickness" integer = .ok s.thickness ∧
        optionalField fields "color" colorOf = .ok s.color ∧
        optionalField fields "dashed" boolean = .ok s.dashed ∧
        optionalField fields "routing" (choice (Style.Routing.all.map fun r => (r.name, r))) =
          .ok s.routing ∧
        optionalField fields "font_size" integer = .ok s.fontSize ∧
        optionalField fields "width" integer = .ok s.width ∧
        optionalField fields "opacity" (integerIn 0 100) = .ok s.opacity ∧
        Known (styleKeys .relationship) fields := by
  rw [ofJson, form, closed_ok_iff]
  cases s
  simp only [seq_ok_iff, map_ok_iff, existsAndEq, and_true, and_assoc, mk.injEq]

theorem Styles.ofJson_ok_iff {s : Styles} : Styles.ofJson (.object fields) = .ok s ↔
    optionalField fields "line" integer = .ok s.line ∧
      field fields "elements" [] (list ElementStyle.ofJson) = .ok s.elements ∧
      field fields "relationships" [] (list RelationshipStyle.ofJson) = .ok s.relationships ∧
      Known ["line", "elements", "relationships"] fields := by
  rw [ofJson, form, closed_ok_iff]
  cases s
  simp only [seq_ok_iff, map_ok_iff, existsAndEq, and_true, and_assoc, mk.injEq]

theorem AutoLayout.ofFields_ok_iff {l : AutoLayout} : AutoLayout.ofFields fields = .ok l ↔
    optionalField fields "line" integer = .ok l.line ∧
      field fields "direction" .topToBottom (choice directions) = .ok l.direction ∧
      optionalField fields "rank_separation" (integerFrom 0) = .ok l.rankSeparation ∧
      optionalField fields "node_separation" (integerFrom 0) = .ok l.nodeSeparation ∧
      Known ["line", "direction", "rank_separation", "node_separation"] fields := by
  rw [ofFields, closed_ok_iff]
  cases l
  simp only [seq_ok_iff, map_ok_iff, existsAndEq, and_true, and_assoc, mk.injEq]

/-! ## Views and workspaces -/

theorem View.ofJson_ok_iff {v : View} : View.ofJson (.object fields) = .ok v ↔
    optionalField fields "line" integer = .ok v.line ∧
      required fields "kind" (choice (ViewKind.all.map fun k => (k.name, k))) = .ok v.kind ∧
      required fields "subject" (fun j => subjectReference <$> text j) = .ok v.subject ∧
      optionalField fields "environment" text = .ok v.environment ∧
      optionalField fields "key" text = .ok v.key ∧
      field fields "title" ("" : Text) text = .ok v.title ∧
      field fields "description" ("" : Text) text = .ok v.description ∧
      field fields "include" [] references = .ok v.included ∧
      field fields "exclude" [] texts = .ok v.excluded ∧
      optionalField fields "auto_layout" AutoLayout.ofJson = .ok v.autoLayout ∧
      field fields "animation" [] (list texts) = .ok v.animation ∧
      field fields "styles" {} Styles.ofJson = .ok v.styles ∧ Known keys fields ∧
      v.lack? = none := by
  have hlack : ∀ w : View, w.lack?.elim (Except.ok w) .error = .ok v ↔ w.lack? = none ∧ w = v := by
    intro w
    cases w.lack? <;> simp
  simp only [ofJson, andThen_ok_iff, hlack]
  rw [form, ofJson.read]
  simp only [closed_ok_iff]
  cases v
  simp only [seq_ok_iff, map_ok_iff, existsAndEq, and_true, and_assoc, mk.injEq]

theorem View.object_of_ofJson {j : Json} {v : View} (h : View.ofJson j = .ok v) :
    ∃ fields, View.ofJson (.object fields) = .ok v := by
  cases j with
  | object fields => exact ⟨fields, h⟩
  | _ => cases h

theorem Views.ofJson_ok_iff {vs : Views} : Views.ofJson (.object fields) = .ok vs ↔
    optionalField fields "line" integer = .ok vs.line ∧
      field fields "views" [] (list View.ofJson) = .ok vs.views ∧
      field fields "styles" {} Styles.ofJson = .ok vs.styles ∧
      field fields "themes" [] texts = .ok vs.themes ∧
      Known ["line", "views", "styles", "themes"] fields := by
  rw [ofJson, form, closed_ok_iff]
  cases vs
  simp only [seq_ok_iff, map_ok_iff, existsAndEq, and_true, and_assoc, mk.injEq]

theorem Workspace.checked_ok_iff {w : Workspace} : Workspace.checked (.object fields) = .ok w ↔
    optionalField fields "line" integer = .ok w.line ∧
      field fields "name" ("Workspace" : Text) text = .ok w.name ∧
      field fields "description" ("" : Text) text = .ok w.description ∧
      optionalField fields "identifiers" modeOf = .ok w.identifiers ∧
      field fields "model" [] (list ModelMember.ofJson) = .ok w.model ∧
      field fields "views" {} Views.ofJson = .ok w.views ∧ Known keys fields := by
  rw [checked, form, closed_ok_iff]
  cases w
  simp only [seq_ok_iff, map_ok_iff, existsAndEq, and_true, and_assoc, mk.injEq]

theorem Workspace.ofJson_ok_iff {w : Workspace} :
    ofJson (.object fields) = .ok w ↔ checked (content fields) = .ok w := by
  rw [ofJson]
  cases checked (content fields) <;> simp

end SystemAtlas.Declaration
