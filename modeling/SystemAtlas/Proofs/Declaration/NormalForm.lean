import SystemAtlas.Proofs.Declaration.Rereading

/-! # Normal forms of documents

A declared workspace is written as a value that has every field and everything in its normal form.
That value declares the same workspace (`Workspace.ofJson_toJson`). Each form in it is read again
from what is written for it. The members of deployment nodes are so by an induction on the document
that they were read from, because the depth at which they stand is the same. -/

namespace SystemAtlas.Declaration

open Checked
open Json (Fields)

variable {α β : Type} {fields written : Fields} {kind : Text} {read : Fields → Checked α} {x : α}
  {j : Json}

/-! ## Details and names -/

theorem Details.ofFields_of_holds {d : Details} (h : ofFields fields = .ok d)
    (hw : Holds written d.fields) : ofFields written = .ok d := by
  obtain ⟨hline, hidentifier, hname, hdescription, htechnology, htags, hurl, hproperties⟩ :=
    ofFields_ok_iff.mp h
  simp only [Holds, Details.fields, List.forall_mem_cons] at hw
  obtain ⟨wline, widentifier, wname, wdescription, wtechnology, wtags, wurl, wproperties, -⟩ := hw
  exact ofFields_ok_iff.mpr ⟨field_again (.int? .integer) rfl hline wline,
    field_again (.name? .localName) rfl hidentifier widentifier, required_again .text hname wname,
    field_again .text rfl hdescription wdescription, field_again .text rfl htechnology wtechnology,
    field_again .texts rfl htags wtags, field_again .text rfl hurl wurl,
    field_again .dictionary rfl hproperties wproperties⟩

theorem Named.ofFields_of_holds {n : Named} (h : ofFields fields = .ok n)
    (hw : Holds written n.fields) : ofFields written = .ok n := by
  obtain ⟨hline, hidentifier, hname⟩ := ofFields_ok_iff.mp h
  simp only [Holds, Named.fields, List.forall_mem_cons] at hw
  obtain ⟨wline, widentifier, wname, -⟩ := hw
  exact ofFields_ok_iff.mpr ⟨field_again (.int? .integer) rfl hline wline,
    field_again (.name? .localName) rfl hidentifier widentifier, required_again .text hname wname⟩

/-! ## Objects of a kind -/

/-- Fields with the kind of their object behind them. -/
def withKind (kind : Text) (fields : Fields) : Fields :=
  fields ++ ([("kind", .string kind)] : Fields)

/-- A value is an object of the given kind, and its fields are read as `x`. -/
def Spells (kind : Text) (read : Fields → Checked α) (j : Json) (x : α) : Prop :=
  ∃ fields, j = .object fields ∧ Json.find? fields "kind" = some (.string kind) ∧
    read fields = .ok x

/-- What is written for an object of a kind is read if its fields are. -/
theorem spells_ofKind (known keys : List Text)
    (hfields : (withKind kind fields).map (·.1) = keys)
    (hkeys : keys.Nodup ∧ ∀ k ∈ keys, k.isWhole = true ∧ k ∈ known)
    (h : ∀ {written}, Known known written → Holds written fields → read written = .ok x) :
    Spells kind read (ofKind kind fields) x := by
  have hwritten : Written known (withKind kind fields) := .of_keys keys hfields hkeys
  have hholds := hwritten.holds
  refine ⟨withKind kind fields, rfl, hholds ("kind", .string kind) ?_, h hwritten.known ?_⟩
  · exact List.mem_append_right _ List.mem_cons_self
  · exact fun f hf => hholds f (List.mem_append_left _ hf)

theorem Spells.member {forms : Fields → List (Text × (Unit → Checked α))}
    (h : Spells kind read j x)
    (hform : ∀ fields, (forms fields).lookup kind = some fun _ => read fields) :
    member forms j = .ok x := by
  obtain ⟨fields, rfl, hkind, hread⟩ := h
  exact kinded_ok_iff.mpr ⟨kind, hkind, _, hform fields, hread⟩

theorem Relationship.spells {r : Relationship} {make : Relationship → α}
    (h : ofFields fields = .ok r) :
    Spells "relationship" (fun written => make <$> ofFields written) r.toJson (make r) := by
  obtain ⟨hline, hsource, hdestination, hlabel, htechnology, hinteraction, htags, hparallel, -⟩ :=
    ofFields_ok_iff.mp h
  refine spells_ofKind keys
    ["line", "source", "destination", "label", "technology", "interaction", "tags", "parallel",
      "kind"] rfl (by simp [keys, Text.ofString_inj, Text.isWhole_ofString]) fun hknown hw =>
    map_ok_iff.mpr ⟨r, ?_, rfl⟩
  simp only [Holds, List.forall_mem_cons] at hw
  obtain ⟨wline, wsource, wdestination, wlabel, wtechnology, winteraction, wtags, wparallel, -⟩ :=
    hw
  exact ofFields_ok_iff.mpr ⟨field_again (.int? .integer) rfl hline wline,
    required_again .text hsource wsource, required_again .text hdestination wdestination,
    field_again .text rfl hlabel wlabel, field_again .text rfl htechnology wtechnology,
    field_again (.name? .interaction) rfl hinteraction winteraction,
    field_again .texts rfl htags wtags, field_again .boolean rfl hparallel wparallel, hknown⟩

theorem Instance.spells {k : InstanceKind} {i : Instance} {make : Instance → α}
    (h : ofFields k fields = .ok i) :
    Spells k.name (fun written => make <$> ofFields k written) i.toJson (make i) := by
  obtain ⟨hline, hidentifier, helement, hgroups, htags, hdescription, rfl, -⟩ :=
    ofFields_ok_iff.mp h
  refine spells_ofKind keys keys rfl (by simp [keys, Text.ofString_inj, Text.isWhole_ofString])
    fun hknown hw => map_ok_iff.mpr ⟨i, ?_, rfl⟩
  simp only [Holds, List.forall_mem_cons] at hw
  obtain ⟨wline, widentifier, welement, wgroups, wtags, wdescription, -⟩ := hw
  exact ofFields_ok_iff.mpr ⟨field_again (.int? .integer) rfl hline wline,
    field_again (.name? .localName) rfl hidentifier widentifier,
    required_again .text helement welement, field_again .texts rfl hgroups wgroups,
    field_again .texts rfl htags wtags, field_again .text rfl hdescription wdescription, rfl,
    hknown⟩

theorem single_spells {make : Details → α} {d : Details} (h : Details.ofFields fields = .ok d) :
    Spells kind (single · make) (ofKind kind d.fields) (make d) :=
  spells_ofKind Details.keys Details.keys rfl
    (by simp [Details.keys, Text.ofString_inj, Text.isWhole_ofString]) fun hknown hw =>
    single_ok_iff.mpr ⟨⟨d, Details.ofFields_of_holds h hw, rfl⟩, hknown⟩

theorem Holds.withBody {body : List Json} (h : Holds written (withBody fields body)) :
    Holds written fields ∧ Json.find? written "body" = some (.array body) := by
  rw [Holds, Declaration.withBody, List.forall_mem_append] at h
  exact ⟨h.1, h.2 _ List.mem_cons_self⟩

theorem block_spells {make : Details → List β → α} {member : Json → Checked β} {write : β → Json}
    {d : Details} {body : List β} (h : Details.ofFields fields = .ok d)
    (hbody : field fields "body" [] (list member) = .ok body) (hmember : Rereads member write) :
    Spells kind (block · make member) (ofKind kind (withBody d.fields (body.map write)))
      (make d body) := by
  refine spells_ofKind ("body" :: Details.keys)
    (Details.keys.dropLast ++ (["body", "kind"] : List Text)) rfl
    (by simp [Details.keys, Text.ofString_inj, Text.isWhole_ofString]) fun hknown hw => ?_
  obtain ⟨hw, wbody⟩ := hw.withBody
  exact block_ok_iff.mpr ⟨⟨d, body, Details.ofFields_of_holds h hw,
    field_again hmember.list rfl hbody wbody, rfl⟩, hknown⟩

theorem node_spells {make : Details → Int → List β → α} {depth : Nat} {d : Details} {n : Int}
    {members : List β} {bodyOf : Fields → Checked (List β)} {body : List Json}
    (hdepth : depth ≤ depthLimit) (h : Details.ofFields fields = .ok d)
    (hn : field fields "instances" 1 (integerFrom 1) = .ok n)
    (hbody : ∀ written, Json.find? written "body" = some (.array body) →
      bodyOf written = .ok members) :
    Spells kind (fun written => nodeOf depth written make fun _ => bodyOf written)
      (ofKind kind (nodeFields d n body)) (make d n members) := by
  refine spells_ofKind ("instances" :: "body" :: Details.keys)
    (Details.keys.dropLast ++ (["instances", "body", "kind"] : List Text)) rfl
    (by simp [Details.keys, Text.ofString_inj, Text.isWhole_ofString]) fun hknown hw => ?_
  obtain ⟨hw, wbody⟩ := Holds.withBody hw
  rw [Holds, List.forall_mem_append] at hw
  have wn := hw.2 _ List.mem_cons_self
  exact nodeOf_ok_iff.mpr ⟨hdepth, ⟨d, n, members, Details.ofFields_of_holds h hw.1,
    field_again .integerFrom rfl hn wn, hbody _ wbody, rfl⟩, hknown⟩

theorem environment_spells {n : Named} {body : List EnvironmentMember}
    (h : Named.ofFields fields = .ok n)
    (hbody : field fields "body" [] (list EnvironmentMember.ofJson) = .ok body)
    (hmember : Rereads EnvironmentMember.ofJson EnvironmentMember.toJson) :
    Spells kind environmentOf
      (ofKind kind (withBody n.fields (body.map EnvironmentMember.toJson)))
      (.environment n body) := by
  refine spells_ofKind ("body" :: Named.keys) ["line", "identifier", "name", "body", "kind"] rfl
    (by simp [Named.keys, Text.ofString_inj, Text.isWhole_ofString]) fun hknown hw => ?_
  obtain ⟨hw, wbody⟩ := hw.withBody
  exact environmentOf_ok_iff.mpr ⟨⟨n, body, Named.ofFields_of_holds h hw,
    field_again hmember.list rfl hbody wbody, rfl⟩, hknown⟩

theorem group_spells {n : Named} {make : Named → α} (h : Named.ofFields fields = .ok n) :
    Spells kind (fun written => closed Named.keys written (make <$> Named.ofFields written))
      (ofKind kind n.fields) (make n) :=
  spells_ofKind Named.keys ["line", "identifier", "name", "kind"] rfl
    (by simp [Named.keys, Text.ofString_inj, Text.isWhole_ofString]) fun hknown hw =>
    closed_ok_iff.mpr ⟨map_ok_iff.mpr ⟨n, Named.ofFields_of_holds h hw, rfl⟩, hknown⟩

/-! ## Members of a model -/

theorem containerMember_rereads : Rereads ContainerMember.ofJson ContainerMember.toJson := by
  intro j m h
  obtain ⟨fields, f, hf, h⟩ := member_ok h
  simp only [List.mem_cons, List.not_mem_nil, or_false] at hf
  rcases hf with rfl | rfl
  · obtain ⟨⟨d, hd, rfl⟩, -⟩ := single_ok_iff.mp h
    exact (single_spells hd).member fun _ => rfl
  · obtain ⟨r, hr, rfl⟩ := map_ok_iff.mp h
    exact (Relationship.spells hr).member fun _ => rfl

theorem systemMember_rereads : Rereads SystemMember.ofJson SystemMember.toJson := by
  intro j m h
  obtain ⟨fields, f, hf, h⟩ := member_ok h
  simp only [List.mem_cons, List.not_mem_nil, or_false] at hf
  rcases hf with rfl | rfl
  · obtain ⟨⟨d, body, hd, hbody, rfl⟩, -⟩ := block_ok_iff.mp h
    exact (block_spells hd hbody containerMember_rereads).member fun _ => rfl
  · obtain ⟨r, hr, rfl⟩ := map_ok_iff.mp h
    exact (Relationship.spells hr).member fun _ => rfl

theorem bodyOf_eq (depth : Nat) (fields : Fields) : bodyOf depth fields =
    (Json.find? fields "body").elim (.ok []) fun j => (membersOf depth j).under "body" := by
  induction fields with
  | nil => rw [bodyOf]; rfl
  | cons f rest ih =>
    obtain ⟨k, j⟩ := f
    rw [bodyOf, Json.find?, List.find?_cons]
    cases hk : k == ("body" : Text) with
    | true => rfl
    | false => exact ih

theorem bodyOf_of_find? {depth : Nat} {body : List NodeMember}
    (h : membersOf depth (.array (bodyJson body)) = .ok body)
    (hw : Json.find? written "body" = some (.array (bodyJson body))) :
    bodyOf depth written = .ok body := by
  rw [bodyOf_eq, hw]
  exact under_ok_iff.mpr h

/-- The forms of the members of a deployment node at the given depth, by their kinds. -/
def nodeForms (depth : Nat) (fields : Fields) : List (Text × (Unit → Checked NodeMember)) :=
  [("deployment_node", fun _ => nodeOf depth fields .node fun _ => bodyOf (depth + 1) fields),
    ("infrastructure_node", fun _ => single fields .infrastructure),
    ("container_instance", fun _ => .occurrence <$> Instance.ofFields .container fields),
    ("component_instance", fun _ => .occurrence <$> Instance.ofFields .component fields),
    ("relationship", fun _ => .relationship <$> Relationship.ofFields fields)]

theorem NodeMember.ofJson_eq (depth : Nat) :
    NodeMember.ofJson depth = member (nodeForms depth) := by
  funext j
  cases j with
  | object fields =>
    rw [NodeMember.ofJson]
    rfl
  | _ => rfl

-- The induction is on the document that was read. What is written lies as deep as what was read
-- there, but a member may stand at another position.
mutual

theorem nodeMember_rereads (depth : Nat) : (j : Json) → ∀ {m}, NodeMember.ofJson depth j = .ok m →
    NodeMember.ofJson depth m.toJson = .ok m
  | .object fields, m, h => by
    rw [NodeMember.ofJson] at h
    obtain ⟨f, hf, h⟩ := kinded_ok h
    simp only [List.mem_cons, List.not_mem_nil, or_false] at hf
    rw [NodeMember.ofJson_eq]
    rcases hf with rfl | rfl | rfl | rfl | rfl <;> dsimp only at h
    · obtain ⟨hdepth, ⟨d, n, body, hd, hn, hbody, rfl⟩, -⟩ := nodeOf_ok_iff.mp h
      have hagain := membersOf_of_bodyOf (depth + 1) fields hbody
      exact (node_spells hdepth hd hn fun _ => bodyOf_of_find? hagain).member fun _ => rfl
    · obtain ⟨⟨d, hd, rfl⟩, -⟩ := single_ok_iff.mp h
      exact (single_spells hd).member fun _ => rfl
    · obtain ⟨i, hi, rfl⟩ := map_ok_iff.mp h
      exact (Instance.spells hi).member fun _ => rfl
    · obtain ⟨i, hi, rfl⟩ := map_ok_iff.mp h
      exact (Instance.spells hi).member fun _ => rfl
    · obtain ⟨r, hr, rfl⟩ := map_ok_iff.mp h
      exact (Relationship.spells hr).member fun _ => rfl

theorem membersOf_of_bodyOf (depth : Nat) : (fields : Fields) → ∀ {body},
    bodyOf depth fields = .ok body → membersOf depth (.array (bodyJson body)) = .ok body
  | [], body, h => by
    rw [bodyOf] at h
    cases h
    rfl
  | (k, j) :: rest, body, h => by
    rw [bodyOf] at h
    split at h
    · exact membersOf_bodyJson depth j (under_ok_iff.mp h)
    · exact membersOf_of_bodyOf depth rest h

theorem membersOf_bodyJson (depth : Nat) : (j : Json) → ∀ {body},
    membersOf depth j = .ok body → membersOf depth (.array (bodyJson body)) = .ok body
  | .array items, body, h => by
    rw [membersOf] at h ⊢
    exact membersFrom_bodyJson depth 0 0 items h

theorem membersFrom_bodyJson (depth i k : Nat) : (items : List Json) → ∀ {body},
    membersFrom depth i items = .ok body → membersFrom depth k (bodyJson body) = .ok body
  | [], body, h => by
    rw [membersFrom] at h
    cases h
    rfl
  | j :: rest, body, h => by
    simp only [membersFrom, seq_ok_iff, map_ok_iff, under_ok_iff] at h
    obtain ⟨_, ⟨m, hm, rfl⟩, ms, hms, rfl⟩ := h
    rw [bodyJson, membersFrom, nodeMember_rereads depth j hm,
      membersFrom_bodyJson depth (i + 1) (k + 1) rest hms]
    rfl

end

theorem environmentMember_rereads :
    Rereads EnvironmentMember.ofJson EnvironmentMember.toJson := by
  intro j m h
  obtain ⟨fields, f, hf, h⟩ := member_ok h
  simp only [List.mem_cons, List.not_mem_nil, or_false] at hf
  rcases hf with rfl | rfl | rfl <;> dsimp only at h
  · obtain ⟨h, -⟩ := closed_ok_iff.mp h
    obtain ⟨n, hn, rfl⟩ := map_ok_iff.mp h
    exact (group_spells hn).member fun _ => rfl
  · obtain ⟨hdepth, ⟨d, n, body, hd, hn, hbody, rfl⟩, -⟩ := nodeOf_ok_iff.mp h
    have hagain := membersOf_of_bodyOf 2 fields hbody
    exact (node_spells hdepth hd hn fun _ => bodyOf_of_find? hagain).member fun _ => rfl
  · obtain ⟨r, hr, rfl⟩ := map_ok_iff.mp h
    exact (Relationship.spells hr).member fun _ => rfl

theorem modelMember_rereads : Rereads ModelMember.ofJson ModelMember.toJson := by
  intro j m h
  obtain ⟨fields, f, hf, h⟩ := member_ok h
  simp only [List.mem_cons, List.not_mem_nil, or_false] at hf
  rcases hf with rfl | rfl | rfl | rfl
  · obtain ⟨⟨d, hd, rfl⟩, -⟩ := single_ok_iff.mp h
    exact (single_spells hd).member fun _ => rfl
  · obtain ⟨⟨d, body, hd, hbody, rfl⟩, -⟩ := block_ok_iff.mp h
    exact (block_spells hd hbody systemMember_rereads).member fun _ => rfl
  · obtain ⟨⟨n, body, hn, hbody, rfl⟩, -⟩ := environmentOf_ok_iff.mp h
    exact (environment_spells hn hbody environmentMember_rereads).member fun _ => rfl
  · obtain ⟨r, hr, rfl⟩ := map_ok_iff.mp h
    exact (Relationship.spells hr).member fun _ => rfl

/-! ## Styles and views -/

/-- What is read of objects is read again if it is so wherever its fields are written. -/
theorem rereads_object {read : Json → Checked α} {write : α → Fields} (known : List Text)
    (hobject : ∀ {j x}, read j = .ok x → ∃ fields, read (.object fields) = .ok x)
    (hwrite : ∀ x, (write x).map (·.1) = known)
    (hkeys : known.Nodup ∧ ∀ k ∈ known, k.isWhole = true)
    (h : ∀ {fields written x}, read (.object fields) = .ok x → Known known written →
      Holds written (write x) → read (.object written) = .ok x) :
    Rereads read fun x => .object (write x) := by
  intro j x hx
  obtain ⟨fields, hx⟩ := hobject hx
  have hwritten : Written known (write x) :=
    .of_keys known (hwrite x) ⟨hkeys.1, fun k hk => ⟨hkeys.2 k hk, hk⟩⟩
  exact h hx hwritten.known (hwritten.holds)

theorem elementStyle_rereads : Rereads ElementStyle.ofJson ElementStyle.toJson := by
  refine rereads_object (styleKeys .element) form_ok (fun _ => rfl)
    (by simp [styleKeys, Style.Target.properties, Style.Property.name, Text.ofString_inj,
      Text.isWhole_ofString]) fun hs hknown hw => ElementStyle.ofJson_ok_iff.mpr ?_
  obtain ⟨hline, htag, hshape, hbackground, hcolor, hstroke, hborder, hicon, hwidth, hheight,
    hfontSize, hopacity, hmetadata, hdescription, -⟩ := ElementStyle.ofJson_ok_iff.mp hs
  simp only [Holds, styleFields, ElementStyle.appearance, List.map_cons, List.map_nil,
    List.forall_mem_cons] at hw
  obtain ⟨wline, wtag, wshape, wbackground, wcolor, wstroke, wborder, wicon, wwidth, wheight,
    wfontSize, wopacity, wmetadata, wdescription, -⟩ := hw
  exact ⟨field_again (.int? .integer) rfl hline wline, required_again .text htag wtag,
    field_again (.name? .shape) rfl hshape wshape,
    field_again (.text? .color) rfl hbackground wbackground,
    field_again (.text? .color) rfl hcolor wcolor, field_again (.text? .color) rfl hstroke wstroke,
    field_again (.name? .border) rfl hborder wborder,
    field_again (.text? .text) rfl hicon wicon, field_again (.int? .integer) rfl hwidth wwidth,
    field_again (.int? .integer) rfl hheight wheight,
    field_again (.int? .integer) rfl hfontSize wfontSize,
    field_again (.int? .integerIn) rfl hopacity wopacity,
    field_again (.bool? .boolean) rfl hmetadata wmetadata,
    field_again (.bool? .boolean) rfl hdescription wdescription, hknown⟩

theorem relationshipStyle_rereads : Rereads RelationshipStyle.ofJson RelationshipStyle.toJson := by
  refine rereads_object (styleKeys .relationship) form_ok (fun _ => rfl)
    (by simp [styleKeys, Style.Target.properties, Style.Property.name, Text.ofString_inj,
      Text.isWhole_ofString]) fun hs hknown hw => RelationshipStyle.ofJson_ok_iff.mpr ?_
  obtain ⟨hline, htag, hthickness, hcolor, hdashed, hrouting, hfontSize, hwidth, hopacity, -⟩ :=
    RelationshipStyle.ofJson_ok_iff.mp hs
  simp only [Holds, styleFields, RelationshipStyle.appearance, List.map_cons, List.map_nil,
    List.forall_mem_cons] at hw
  obtain ⟨wline, wtag, wthickness, wcolor, wdashed, wrouting, wfontSize, wwidth, wopacity, -⟩ := hw
  exact ⟨field_again (.int? .integer) rfl hline wline, required_again .text htag wtag,
    field_again (.int? .integer) rfl hthickness wthickness,
    field_again (.text? .color) rfl hcolor wcolor,
    field_again (.bool? .boolean) rfl hdashed wdashed,
    field_again (.name? .routing) rfl hrouting wrouting,
    field_again (.int? .integer) rfl hfontSize wfontSize,
    field_again (.int? .integer) rfl hwidth wwidth,
    field_again (.int? .integerIn) rfl hopacity wopacity, hknown⟩

theorem styles_rereads : Rereads Styles.ofJson Styles.toJson := by
  refine rereads_object ["line", "elements", "relationships"] form_ok (fun _ => rfl)
    (by simp [Text.ofString_inj, Text.isWhole_ofString])
    fun hs hknown hw => Styles.ofJson_ok_iff.mpr ?_
  obtain ⟨hline, helements, hrelationships, -⟩ := Styles.ofJson_ok_iff.mp hs
  simp only [Holds, List.forall_mem_cons] at hw
  obtain ⟨wline, welements, wrelationships, -⟩ := hw
  exact ⟨field_again (.int? .integer) rfl hline wline,
    field_again elementStyle_rereads.list rfl helements welements,
    field_again relationshipStyle_rereads.list rfl hrelationships wrelationships, hknown⟩

theorem layout_of_ofJson {l : AutoLayout} (h : AutoLayout.ofJson j = .ok l) :
    ∃ fields, AutoLayout.ofJson (.object fields) = .ok l := by
  rw [AutoLayout.ofJson.eq_def] at h
  split at h
  · next direction => exact ⟨[("direction", .string (direction.dropLeading ':'))], h⟩
  · exact ⟨[], h⟩
  · exact form_ok h

theorem layout_rereads : Rereads AutoLayout.ofJson AutoLayout.toJson := by
  refine rereads_object ["line", "direction", "rank_separation", "node_separation"]
    layout_of_ofJson (fun _ => rfl) (by simp [Text.ofString_inj, Text.isWhole_ofString])
    fun hl hknown hw => AutoLayout.ofFields_ok_iff.mpr ?_
  obtain ⟨hline, hdirection, hrank, hnode, -⟩ := AutoLayout.ofFields_ok_iff.mp hl
  simp only [Holds, List.forall_mem_cons] at hw
  obtain ⟨wline, wdirection, wrank, wnode, -⟩ := hw
  exact ⟨field_again (.int? .integer) rfl hline wline,
    field_again .direction rfl hdirection wdirection,
    field_again (.int? .integerFrom) rfl hrank wrank,
    field_again (.int? .integerFrom) rfl hnode wnode, hknown⟩

-- Styles and views that are left out are read like those of an empty object.
theorem view_rereads : Rereads View.ofJson View.toJson := by
  refine rereads_object View.keys View.object_of_ofJson (fun _ => rfl)
    (by simp [View.keys, Text.ofString_inj, Text.isWhole_ofString])
    fun hv hknown hw => View.ofJson_ok_iff.mpr ?_
  obtain ⟨hline, hkind, hsubject, henvironment, hkey, htitle, hdescription, hincluded, hexcluded,
    hlayout, hanimation, hstyles, -, hlack⟩ := View.ofJson_ok_iff.mp hv
  simp only [Holds, List.forall_mem_cons] at hw
  obtain ⟨wline, wkind, wsubject, wenvironment, wkey, wtitle, wdescription, wincluded, wexcluded,
    wlayout, wanimation, wstyles, -⟩ := hw
  exact ⟨field_again (.int? .integer) rfl hline wline,
    required_again .viewKind hkind wkind,
    required_again .subject hsubject wsubject,
    field_again (.text? .text) rfl henvironment wenvironment,
    field_again (.text? .text) rfl hkey wkey, field_again .text rfl htitle wtitle,
    field_again .text rfl hdescription wdescription,
    field_again .references rfl hincluded wincluded, field_again .texts rfl hexcluded wexcluded,
    field_again (layout_rereads.orNull (by simp [AutoLayout.toJson])) rfl hlayout wlayout,
    field_again Rereads.texts.list rfl hanimation wanimation,
    field_again styles_rereads (styles_rereads (.object []) {} rfl) hstyles wstyles, hknown, hlack⟩

theorem views_rereads : Rereads Views.ofJson Views.toJson := by
  refine rereads_object ["line", "views", "styles", "themes"] form_ok (fun _ => rfl)
    (by simp [Text.ofString_inj, Text.isWhole_ofString])
    fun hvs hknown hw => Views.ofJson_ok_iff.mpr ?_
  obtain ⟨hline, hviews, hstyles, hthemes, -⟩ := Views.ofJson_ok_iff.mp hvs
  simp only [Holds, List.forall_mem_cons] at hw
  obtain ⟨wline, wviews, wstyles, wthemes, -⟩ := hw
  exact ⟨field_again (.int? .integer) rfl hline wline,
    field_again view_rereads.list rfl hviews wviews,
    field_again styles_rereads (styles_rereads (.object []) {} rfl) hstyles wstyles,
    field_again .texts rfl hthemes wthemes, hknown⟩

/-! ## Workspaces -/

namespace Workspace

variable {w : Workspace}

theorem checked_rereads : Rereads checked toJson := by
  refine rereads_object keys form_ok (fun _ => rfl)
    (by simp [keys, Text.ofString_inj, Text.isWhole_ofString])
    fun hw hknown hwritten => checked_ok_iff.mpr ?_
  obtain ⟨hline, hname, hdescription, hidentifiers, hmodel, hviews, -⟩ := checked_ok_iff.mp hw
  simp only [Holds, List.forall_mem_cons] at hwritten
  obtain ⟨wline, wname, wdescription, widentifiers, wmodel, wviews, -⟩ := hwritten
  exact ⟨field_again (.int? .integer) rfl hline wline, field_again .text rfl hname wname,
    field_again .text rfl hdescription wdescription,
    field_again (.name? .mode) rfl hidentifiers widentifiers,
    field_again modelMember_rereads.list rfl hmodel wmodel,
    field_again views_rereads (views_rereads (.object []) {} rfl) hviews wviews, hknown⟩

/-- A workspace that a document declares is declared by what is written for it. -/
theorem ofJson_toJson (h : ofJson j = .ok w) : ofJson w.toJson = .ok w := by
  cases j with
  | object fields =>
    have hw := checked_rereads _ w (ofJson_ok_iff.mp h)
    exact ofJson_ok_iff.mpr hw
  | _ => cases h

/-- A document in which much is said in short or in an unusual way. -/
def shorthandDocument : Json :=
  .object [("workspace", .object
    [("line", .string " +0_7 "), ("identifiers", .string "flat"),
      ("model", .array
        [.object
          [("kind", .string "software_system"), ("name", .string "shop"),
            ("properties", .object [("owner", .string "sales")]),
            ("body", .array
              [.object
                [("kind", .string "container"), ("name", .string "web"),
                  ("tags", .array [.string "Web", .string " "])],
              .object
                [("source", .string "user"), ("destination", .string "web"),
                  ("interaction", .string "asynchronous"), ("parallel", .string "Yes"),
                  ("kind", .string "relationship")]])],
        .object
          [("kind", .string "deployment_environment"), ("name", .string "live"),
            ("body", .array
              [.object [("kind", .string "deployment_group"), ("name", .string "blue")],
              .object
                [("kind", .string "deployment_node"), ("name", .string "rack"),
                  ("instances", .string "2.0"),
                  ("body", .array
                    [.object
                      [("kind", .string "deployment_node"), ("identifier", .string "host"),
                        ("name", .string "host"),
                        ("body", .array
                          [.object
                            [("kind", .string "container_instance"), ("element", .string "web"),
                              ("groups", .array [.string "blue"])]])]])]])]]),
      ("views", .object
        [("views", .array
          [.object
            [("kind", .string "deployment"), ("subject", .string "all"),
              ("environment", .string "live"), ("include", .string "*"),
              ("auto_layout", .string ":lr"), ("animation", .array [.array [.string "host"]])],
          .object
            [("kind", .string "container"), ("subject", .string "shop"), ("include", .null),
              ("auto_layout", .bool true),
              ("styles", .object
                [("elements", .array
                  [.object
                    [("tag", .string "Web"), ("shape", .string "web-BROWSER"),
                      ("background", .string "#ABC"), ("opacity", .bool true),
                      ("metadata", .int 0)]])])]]),
        ("themes", .array [.string "default"])])])]

/-- The workspace that this document declares. -/
def shorthand : Workspace := (ofJson shorthandDocument).toOption.getD default

theorem shorthand_declared : ofJson shorthandDocument = .ok shorthand ∧
    ofJson shorthand.toJson = .ok shorthand ∧
    shorthand.line = some 7 ∧
    shorthand.views.views.map (fun v => (v.subject, v.included)) =
      [(everything, [everything]), ("shop", [])] ∧
    shorthand.views.views.map (fun v => v.autoLayout.map (·.direction)) =
      [some .leftToRight, some .topToBottom] ∧
    shorthand.views.views.map (fun v => v.styles.elements.map fun e => (e.shape, e.background)) =
      [[], [(some .webBrowser, some ("#aabbcc" : Text))]] := by
  have h : ofJson shorthandDocument = .ok shorthand := eq_ok_of_isOk (by decide +kernel)
  exact ⟨h, ofJson_toJson h, by decide +kernel⟩

end Workspace

end SystemAtlas.Declaration
