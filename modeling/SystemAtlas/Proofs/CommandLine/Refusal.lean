import SystemAtlas.CommandLine
import SystemAtlas.Proofs.Build.Refusal
import SystemAtlas.Proofs.Style.Refusal

/-! # How a command ends

A command is done, or prints a build error that tells its phase, or breaks. It breaks because the
system withholds its source, for a defect of the document, for a theme of the document that fails in
another way than it should, or because what it made cannot be written or told. Each way to end is
told with the condition under which a command ends so, and no command ends otherwise
(`accounted_iff`). -/

namespace SystemAtlas

open Declaration (Workspace)
open Identifier (Mode)

namespace CommandLine

open Resource (Path Files World)

/-! ## Ways to end -/

/-- The source that a command builds, and the mode it asks for. -/
def Command.build? : Command → Option (Text × Option Text)
  | .help => none
  | .build source _ asked => some (source, asked)
  | .validate source => some (source, none)

/-- A command line asks for a command that builds a source. -/
structure Asks (args : List Text) (command : Command) (source : Text) (asked : Option Text) :
    Prop where
  parse : parse args = some command
  build : command.build? = some (source, asked)

/-- The text that a command tells of a payload, and the files that it writes before. -/
inductive Makes (settings : Settings) (files : Files) (p : Payload) :
    Command → Text → List (Path × Text) → Prop
  /-- The payload itself. -/
  | payload (hwritable : p.toJson.isWritable = true)
    (houtput : output.filter (!·.isEmpty) = none) :
    Makes settings files p (.build source output asked) (payloadText p) []
  /-- That the payload was written to a file. -/
  | written (hwritable : p.toJson.isWritable = true)
    (houtput : output.filter (!·.isEmpty) = some name)
    (haccess : files.writeRefusal? (outputPath settings name) = none) :
    Makes settings files p (.build source output asked) (writtenText (outputPath settings name))
      [(outputPath settings name, payloadText p)]
  /-- What the payload has. -/
  | count : Makes settings files p (.validate source) (countText p) []

/-- What keeps a command from telling anything of a payload. -/
inductive Hindered (settings : Settings) (files : Files) (p : Payload) : Command → Failure → Prop
  /-- A number of the payload has too many digits. -/
  | unwritable (hlong : p.toJson.isWritable = false) :
    Hindered settings files p (.build source output asked) .unwritable
  /-- The system does not let the file be written. -/
  | refused (hwritable : p.toJson.isWritable = true)
    (houtput : output.filter (!·.isEmpty) = some name)
    (hrefused : files.writeRefusal? (outputPath settings name) = some reason) :
    Hindered settings files p (.build source output asked) (.inaccessible reason)

/-- What breaks the build of a file. -/
inductive Breaks (settings : Settings) (world : World) (source : Text) (asked : Option Text) :
    Failure → Prop
  /-- The system gives no access to the file. -/
  | withheld (hrefused : world.files.readRefusal? (.ofText source) = some reason) :
    Breaks settings world source asked (.inaccessible reason)
  /-- The document has a defect. -/
  | defect (hread : world.files.read source = .ok text)
    (h : Build.Defect settings asked (.string text) f) : Breaks settings world source asked f
  /-- A theme of the document fails in another way than it should. -/
  | theme (hread : world.files.read source = .ok text) (hw : Workspace.ofText text = .ok w)
    (hurl : url ∈ w.views.themes) (h : Style.Theme.Escapes world url f) :
    Breaks settings world source asked f

/-- How a command line ends in a world. -/
inductive Accounted (settings : Settings) (world : World) (args : List Text) : Outcome → Prop
  | help (hparse : parse args = some .help) : Accounted settings world args .help
  | misused (hparse : parse args = none) : Accounted settings world args .misused
  | done (hasks : Asks args c source asked)
    (hbuilt : buildFile settings world asked source = .ok p)
    (hmakes : Makes settings world.files p c text written)
    (hencoded : text.encodingFault? = none) : Accounted settings world args (.done text written)
  /-- What is to be told cannot be encoded. The files are written before. -/
  | unencodable (hasks : Asks args c source asked)
    (hbuilt : buildFile settings world asked source = .ok p)
    (hmakes : Makes settings world.files p c text written)
    (hfault : text.encodingFault? = some fault) :
    Accounted settings world args (.broken (.unencodable fault) written)
  | hindered (hasks : Asks args c source asked)
    (hbuilt : buildFile settings world asked source = .ok p)
    (h : Hindered settings world.files p c f) : Accounted settings world args (.broken f)
  /-- A build error that tells its phase is printed. -/
  | refused (hasks : Asks args c source asked)
    (hfailed : buildFile settings world asked source = .error (.build e))
    (hphase : e.phase.isSome = true) : Accounted settings world args (.refused e.report)
  | broken (hasks : Asks args c source asked)
    (hfailed : buildFile settings world asked source = .error f)
    (h : Breaks settings world source asked f) : Accounted settings world args (.broken f)

/-! ## Commands that are asked for -/

variable {settings : Settings} {world : Resource.World} {args : List Text} {source : Text}
  {output asked : Option Text} {options : List ValueOption} {command : Command}

theorem of_command {make : Arguments → Text → Option Command}
    (h : CommandLine.command options args make = some command) :
    command = .help ∨ ∃ a source, make a source = some command := by
  obtain ⟨a, -, h⟩ := Option.bind_eq_some_iff.mp h
  split at h
  · cases h
    exact .inl rfl
  · split at h
    · exact .inr ⟨a, _, h⟩
    · cases h

theorem mode_of_buildCommand {a : Arguments} {s : Text}
    (h : buildCommand a s = some (.build source output asked)) (name : Text)
    (hname : asked = some name) : (Mode.ofName? name).isSome = true := by
  simp only [buildCommand] at h
  split at h
  · next hall =>
    cases h
    rw [hname] at hall
    exact hall
  · cases h

theorem mode_of_named (h : named args = some (.build source output asked)) (name : Text)
    (hname : asked = some name) : (Mode.ofName? name).isSome = true := by
  cases args with
  | nil => cases h
  | cons command rest =>
    rw [named] at h
    split at h
    · obtain h | ⟨a, s, h⟩ := of_command h
      · cases h
      · exact mode_of_buildCommand h name hname
    · split at h
      · obtain h | ⟨a, s, h⟩ := of_command h <;> cases h
      · split at h <;> cases h

/-- The mode that `build` is asked for has its name. -/
theorem mode_of_parse (h : parse args = some (.build source output asked)) (name : Text)
    (hname : asked = some name) : (Mode.ofName? name).isSome = true := by
  rw [parse] at h
  split at h
  · cases h
  · cases h
  · exact mode_of_named h name hname

/-! ## What is made of a payload -/

/-- What comes of the payload that a command has built. -/
def conclude (settings : Settings) (files : Files) : Command → Payload → Outcome
  | .help => fun _ => .help
  | .build _ output _ => emit settings files output
  | .validate _ => fun p => print (countText p) []

section
variable {files : Files} {p : Payload} {text : Text} {written : List (Path × Text)} {f : Failure}

theorem Makes.conclude_eq (h : Makes settings files p command text written) :
    conclude settings files command p = print text written := by
  cases h with
  | payload hwritable houtput => simp only [conclude, emit, hwritable, if_true, deliver, houtput]
  | written hwritable houtput haccess =>
    simp only [conclude, emit, hwritable, if_true, deliver, houtput, haccess]
  | count => rfl

theorem Hindered.conclude_eq (h : Hindered settings files p command f) :
    conclude settings files command p = .broken f := by
  cases h with
  | unwritable hlong => simp only [conclude, emit, hlong, Bool.false_eq_true, if_false]
  | refused hwritable houtput hrefused =>
    simp only [conclude, emit, hwritable, if_true, deliver, houtput, hrefused]

/-- A command tells something of its payload, or something keeps it from that. -/
theorem makes_or_hindered (settings : Settings) (files : Files) (p : Payload)
    (h : command.build? = some (source, asked)) :
    (∃ text written, Makes settings files p command text written) ∨
      ∃ f, Hindered settings files p command f := by
  cases command with
  | help => cases h
  | validate source => exact .inl ⟨_, _, .count⟩
  | build source output asked =>
    cases hwritable : p.toJson.isWritable with
    | false => exact .inr ⟨_, .unwritable hwritable⟩
    | true =>
      cases houtput : output.filter (!·.isEmpty) with
      | none => exact .inl ⟨_, _, .payload hwritable houtput⟩
      | some name =>
        cases hrefusal : files.writeRefusal? (outputPath settings name) with
        | none => exact .inl ⟨_, _, .written hwritable houtput hrefusal⟩
        | some reason => exact .inr ⟨_, .refused hwritable houtput hrefusal⟩

end

/-! ## Outcomes -/

/-- The mode that a command line asks for has its name. -/
theorem Asks.moded (h : Asks args command source asked)
    (hs : (Mode.ofName? settings.identifiers).isSome = true) : Build.Moded settings asked := by
  obtain ⟨hparse, hbuild⟩ := h
  cases command with
  | help => cases hbuild
  | build source output asked =>
    cases hbuild
    exact ⟨hs, mode_of_parse hparse⟩
  | validate source =>
    cases hbuild
    exact ⟨hs, nofun⟩

theorem Asks.run_eq (h : Asks args command source asked) : run settings world args =
    finish (buildFile settings world asked source) (conclude settings world.files command) := by
  obtain ⟨hparse, hbuild⟩ := h
  rw [run, hparse]
  cases command with
  | help => cases hbuild
  | build source output asked =>
    cases hbuild
    rfl
  | validate source =>
    cases hbuild
    rfl

theorem Breaks.not_isBuild {f : Failure} (h : Breaks settings world source asked f) :
    ¬f.IsBuild := by
  cases h with
  | withheld _ =>
    rintro ⟨e, he⟩
    cases he
  | defect _ h => exact h.not_isBuild
  | theme _ _ _ h => exact h.not_isBuild

theorem finish_of_not_isBuild {f : Failure} {make : Payload → Outcome} (h : ¬f.IsBuild) :
    finish (.error f) make = .broken f := by
  cases f with
  | build e => exact absurd ⟨e, rfl⟩ h
  | _ => rfl

/-- The build of a file fails with a build error that tells its phase, or for what breaks it. -/
theorem buildFile_failsAs (hm : Build.Moded settings asked) :
    FailsAs (fun f => f.IsPhased ∨ Breaks settings world source asked f)
      (buildFile settings world asked source) := by
  rw [buildFile, Workspace.ofFile]
  split
  · next text hread =>
    refine (Build.run_failsAs hm (.string text)).mono fun f hf => ?_
    obtain hf | hf | ⟨w, hw, url, hurl, e, hload, rfl⟩ := hf
    · exact .inl hf
    · exact .inr (.defect hread hf)
    · obtain ⟨b, rfl, -⟩ | hescapes := Style.Theme.load_failsAs e hload
      · exact .inl (Failure.IsBuild.inPhase ⟨b, rfl⟩ _)
      · refine .inr (.theme hread hw hurl ?_)
        rwa [Failure.inPhase, Failure.onBuild_of_not_isBuild hescapes.not_isBuild]
  · next fault hfault =>
    obtain ⟨reason, rfl, heq⟩ | heq := Failure.ofFile_cases fault
      (Workspace.sourceError (.unreadable source fault))
    · rw [heq]
      exact .error (.inr (.withheld (Files.read_eq_inaccessible_iff.mp hfault)))
    · exact .error (.inl ⟨_, heq, rfl⟩)

/-- A command that builds ends as is accounted for. -/
theorem Asks.accounted (h : Asks args command source asked)
    (hs : (Mode.ofName? settings.identifiers).isSome = true) :
    Accounted settings world args (run settings world args) := by
  rw [h.run_eq]
  cases hresult : buildFile settings world asked source with
  | ok p =>
    obtain ⟨text, written, hmakes⟩ | ⟨f, hf⟩ := makes_or_hindered settings world.files p h.build
    · rw [finish, hmakes.conclude_eq, print]
      split
      · next hencoded => exact .done h hresult hmakes hencoded
      · next hfault => exact .unencodable h hresult hmakes hfault
    · rw [finish, hf.conclude_eq]
      exact .hindered h hresult hf
  | error f =>
    obtain ⟨e, rfl, hphase⟩ | hf := buildFile_failsAs (h.moded hs) f hresult
    · exact .refused h hresult hphase
    · rw [finish_of_not_isBuild hf.not_isBuild]
      exact .broken h hresult hf

/-- A command line ends in a way that is accounted for, and in no other. -/
theorem accounted_iff (hs : (Mode.ofName? settings.identifiers).isSome = true)
    {outcome : Outcome} :
    Accounted settings world args outcome ↔ run settings world args = outcome := by
  constructor
  · intro h
    cases h with
    | help hparse => rw [run, hparse]
    | misused hparse => rw [run, hparse]
    | done hasks hbuilt hmakes hencoded =>
      rw [hasks.run_eq, hbuilt, finish, hmakes.conclude_eq, print, hencoded]
    | unencodable hasks hbuilt hmakes hfault =>
      rw [hasks.run_eq, hbuilt, finish, hmakes.conclude_eq, print, hfault]
    | hindered hasks hbuilt hf => rw [hasks.run_eq, hbuilt, finish, hf.conclude_eq]
    | refused hasks hfailed _ => rw [hasks.run_eq, hfailed, finish]
    | broken hasks hfailed hf =>
      rw [hasks.run_eq, hfailed, finish_of_not_isBuild hf.not_isBuild]
  · rintro rfl
    cases hparse : parse args with
    | none =>
      rw [run, hparse]
      exact .misused hparse
    | some command =>
      cases command with
      | help =>
        rw [run, hparse]
        exact .help hparse
      | build source output asked => exact Asks.accounted ⟨hparse, rfl⟩ hs
      | validate source => exact Asks.accounted ⟨hparse, rfl⟩ hs

/-- How builds and commands fail. If the loader fails only as themes do that cannot be loaded, the
build of a source fails with a build error that tells its phase, or else for a defect, and no source
with a defect is ever built. One of the defects, a view that includes a value without items, makes
the build of every document with it fail for it. And a command line ends just as is accounted
for. -/
theorem failures_accounted (hs : (Mode.ofName? settings.identifiers).isSome = true) :
    (∀ (load : Style.Loader) (asked : Option Text) (source : Json),
      (∀ url, FailsAs Failure.IsThemeFailure (load url)) →
      (∀ name, asked = some name → (Mode.ofName? name).isSome = true) →
        FailsAs (fun f => f.IsPhased ∨ Build.Defect settings asked source f)
          (Build.run settings load asked (Workspace.ofSource source)).result) ∧
      (∀ (load : Style.Loader) (asked : Option Text) (source : Json) (f : Failure),
        Build.Defect settings asked source f →
          ∀ p, (Build.run settings load asked (Workspace.ofSource source)).result ≠ .ok p) ∧
      (∀ (load : Style.Loader) (asked : Option Text) (fields : Json.Fields) (type : Text),
        Workspace.Bare (Workspace.content fields) type →
          ∃ first, (Build.run settings load asked (Workspace.ofSource (.object fields))).result =
            .error (.noItems first)) ∧
      ∀ world args outcome,
        Accounted settings world args outcome ↔ run settings world args = outcome := by
  refine ⟨fun load asked source hload hasked => ?_, fun _ _ _ _ h _ => h.not_built,
    fun _ _ _ _ => Build.run_of_bare, fun _ _ _ => accounted_iff hs⟩
  refine (Build.run_failsAs ⟨hs, hasked⟩ source).mono fun f hf => ?_
  obtain hf | hf | ⟨w, -, url, -, e, he, rfl⟩ := hf
  · exact .inl hf
  · exact .inr hf
  · obtain ⟨b, rfl, -⟩ := hload url e he
    exact .inl (Failure.IsBuild.inPhase ⟨b, rfl⟩ _)

/-- The fields of a document with one view, which includes a number. -/
def bareFields : Json.Fields :=
  [("views", .object
    [("views", .array
      [.object
        [("kind", .string "system_context"), ("subject", .string "Shop"), ("include", .int 5)]])])]

/-- A document with one style, whose tag is empty. -/
def untaggedDocument : Json :=
  .object
    [("views", .object
      [("styles", .object [("elements", .array [.object [("tag", .string "")]])])])]

/-- The build of a document where no theme can be loaded. -/
def buildOffline (document : Json) : Except Failure Payload :=
  (Build.run {} (fun url => .error (Style.Theme.failure url (.refused "no route"))) none
    (Workspace.ofSource document)).result

/-- Neither a number for `include` nor an empty tag is refused with a build error. -/
theorem unphased_failures : (∃ f, buildOffline (.object bareFields) = .error f ∧ ¬f.IsPhased) ∧
    ∃ f, buildOffline untaggedDocument = .error f ∧ ¬f.IsPhased :=
  ⟨⟨.noItems "int", by rfl, nofun⟩, ⟨.style .noSelector, by rfl, nofun⟩⟩

/-- A world with the document with an empty tag in a file. -/
def untaggedWorld : Resource.World :=
  { files :=
      { contents := [(Resource.Path.ofText "atlas.json", .text untaggedDocument.compact)] } }

theorem bareFields_accounted :
    (Mode.ofName? ({} : Settings).identifiers).isSome = true ∧
      buildOffline (.object bareFields) = .error (.noItems "int") ∧
      ((Failure.noItems "int").IsPhased ∨
        Build.Defect {} none (.object bareFields) (.noItems "int")) ∧
      Build.Defect {} none (.object bareFields) (.noItems "int") ∧
      (∀ p, buildOffline (.object bareFields) ≠ .ok p) ∧
      Workspace.Bare (Workspace.content bareFields) "int" ∧
      (∃ first, buildOffline (.object bareFields) = .error (.noItems first)) ∧
      run {} untaggedWorld ["validate", "atlas.json"] = .broken (.style .noSelector) ∧
      Accounted {} untaggedWorld ["validate", "atlas.json"] (.broken (.style .noSelector)) := by
  have hrun : buildOffline (.object bareFields) = .error (.noItems "int") := by rfl
  have hbare : Workspace.Bare (Workspace.content bareFields) "int" :=
    ⟨_, rfl, _, rfl, _, List.mem_singleton_self _, _, rfl, rfl⟩
  have hdefect : Build.Defect {} none (.object bareFields) (.noItems "int") :=
    .inl (.bareInclude rfl hbare)
  have hbroken : run {} untaggedWorld ["validate", "atlas.json"] =
      .broken (.style .noSelector) := by rfl
  obtain ⟨hbuild, hdefects, hstop, hcommand⟩ := @failures_accounted {} rfl
  exact ⟨rfl, hrun, hbuild _ none _ (fun url => .error ⟨_, rfl, rfl⟩) nofun _ hrun, hdefect,
    hdefects _ none _ _ hdefect, hbare, hstop _ none _ _ hbare, hbroken,
    (hcommand _ _ _).mpr hbroken⟩

end CommandLine

end SystemAtlas
