import Mathlib.Data.List.TakeWhile
import SystemAtlas.Json.Writer
import SystemAtlas.Proofs.Refusal
import SystemAtlas.Style.Theme

/-! # How the loading of a theme fails

A theme is loaded, or the failure tells its URL, or the failure is another one for a reason that is
known: the URL is malformed, the request for it breaks off, the system gives no access to its file,
its document goes beyond a limit of reading, or an icon that is to be resolved is no text
(`Theme.load_accounted`). -/

namespace SystemAtlas

/-! ## References without an authority -/

namespace Resource.Url

variable {s absent : Text} {ps : List CodePoint}

theorem splitScheme_subset : (splitScheme absent ps).2 ⊆ ps := by
  rw [splitScheme]
  split
  · next rest _ _ hdrop _ =>
    split
    · intro p hp
      exact List.mem_of_mem_drop (hdrop ▸ List.mem_cons_of_mem _ hp)
    · exact List.Subset.refl _
  · exact List.Subset.refl _

/-- A reference is refused for its authority only, which follows two slashes. -/
theorem exists_parse_of_notMem (h : .char '/' ∉ s.points) : ∃ u, parse s absent = .ok u := by
  have hrest : .char '/' ∉
      (splitScheme absent ((s.points.dropWhile (·.code ≤ 0x20)).filter isShown)).2 := fun hmem =>
    h (List.dropWhile_sublist _ |>.subset (List.mem_of_mem_filter (splitScheme_subset hmem)))
  rw [parse]
  split
  next scheme rest hsplit =>
  rw [hsplit] at hrest
  split
  next authority path hauthority =>
  split at hauthority
  · exact absurd List.mem_cons_self hrest
  · cases hauthority
    exact ⟨_, rfl⟩

end Resource.Url

/-! ## Files that the system withholds -/

theorem Resource.Files.read_eq_inaccessible_iff {files : Files} {asked reason : Text} :
    files.read asked = .error (.inaccessible reason) ↔
      files.readRefusal? (.ofText asked) = some reason := by
  rw [read]
  cases files.readRefusal? (.ofText asked) with
  | some r => simp
  | none =>
    refine iff_of_false (fun h => ?_) nofun
    dsimp only at h
    split at h
    · cases h
    · split at h <;> cases h
    · split at h <;> cases h

namespace Style.Theme

open Resource (World Url)

variable {world : World} {url source text : Text} {base : Option Url} {fields : Json.Fields}
  {document : Document} {target : Target} {e : Failure} {r : Rule}

/-- A failure is that to load the theme of a URL. -/
def IsLoadFailure (url : Text) (e : Failure) : Prop :=
  e.CausedBy fun c => c.kind = .themeLoadFailure ∧ url ∈ c.identifiers

theorem isLoadFailure_failure (url : Text) (fault : ThemeFault) :
    IsLoadFailure url (failure url fault) := ⟨_, rfl, rfl, List.mem_singleton_self url⟩

theorem isLoadFailure_of_mapError {α ε : Type} {x : Except ε α} {fault : ε → ThemeFault} :
    FailsAs (IsLoadFailure url) (x.mapError fun e => failure url (fault e)) := by
  cases x with
  | ok a => exact .ok
  | error e => exact .error (isLoadFailure_failure url _)

/-! ## Documents -/

/-- The text that a URL with the given scheme leads to. -/
def content (world : World) (url scheme : Text) : Except Failure Text :=
  if Url.isRemote scheme then fetch world url else read world url

theorem find_eq (h : builtin? url = none) : find world url =
    (do
      let text ← content world url (← scheme url)
      let value ← (Json.parse text).mapError fun fault =>
        .ofSyntax fault (failure url (.notJson fault.problem))
      (Document.ofJson value).mapError fun fault => failure url (.schema fault)) := by
  rw [find, h]
  cases scheme url with
  | error e => rfl
  | ok s =>
    show (if Url.isRemote s then _ else _) = content world url s >>= _
    rw [content]
    split <;> rfl

theorem scheme_of_parse {u : Url} (h : Url.parse url = .ok u) : scheme url = .ok u.scheme := by
  rw [scheme, Url.schemeOf, h]
  rfl

theorem scheme_of_refused {fault : Url.Fault} (h : Url.parse url = .error fault) :
    scheme url = .error (.url fault) := by
  rw [scheme, Url.schemeOf, h]
  rfl

/-- The URL of a built-in theme has no authority. -/
theorem exists_parse_of_builtin (h : builtin? url = some document) :
    ∃ u, Url.parse url = .ok u := by
  rw [builtin?] at h
  split at h
  · next hname =>
    refine Url.exists_parse_of_notMem fun hmem => ?_
    have hrest : url.points.dropWhile (· == .char ':') = Text.points "default" :=
      congrArg Text.points (eq_of_beq hname)
    rw [← List.takeWhile_append_dropWhile (p := (· == .char ':')) (l := url.points), hrest] at hmem
    rcases List.mem_append.mp hmem with hmem | hmem
    · exact absurd (List.mem_takeWhile_imp hmem) (by decide)
    · exact absurd hmem (by decide)
  · cases h

theorem exists_parse_of_find (h : find world url = .ok document) : ∃ u, Url.parse url = .ok u := by
  cases hb : builtin? url with
  | some d => exact exists_parse_of_builtin hb
  | none =>
    cases hu : Url.parse url with
    | ok u => exact ⟨u, rfl⟩
    | error fault =>
      rw [find_eq hb, scheme_of_refused hu] at h
      cases h

/-! ## Failures -/

/-- The rule of an entry for elements, with its icon resolved. -/
def elementRule (url source : Text) (base : Option Url) (fields : Json.Fields) :
    Except Failure Rule := do
  rule url source .element (← resolveIcon url base fields)

/-- Where the rules of a theme come from. -/
def origin (url : Text) (document : Document) : Text :=
  "theme:" ++ (document.name.filter (!·.isEmpty)).getD url

/-- What withholds the text that a URL with the given scheme leads to. -/
inductive Withheld (world : World) (url scheme : Text) : Failure → Prop where
  /-- The request for the URL breaks off. -/
  | request {reason : Text} (hremote : Url.isRemote scheme = true)
    (hresponse : world.request url = .failed reason) :
    Withheld world url scheme (.interrupted reason)
  /-- The system gives no access to the file that the URL means. -/
  | file {path reason : Text} (hlocal : Url.isRemote scheme = false)
    (hpath : filePath url = .ok path)
    (hrefused : world.files.readRefusal? (.ofText path) = some reason) :
    Withheld world url scheme (.inaccessible reason)

/-- What the loading of a theme can fail with besides the failure to load it. -/
inductive Escapes (world : World) (url : Text) : Failure → Prop where
  /-- The URL is none. -/
  | url {fault : Url.Fault} (hnew : builtin? url = none) (hurl : Url.parse url = .error fault) :
    Escapes world url (.url fault)
  /-- The text of the document is withheld. -/
  | withheld {u : Url} {e : Failure} (hnew : builtin? url = none) (hurl : Url.parse url = .ok u)
    (h : Withheld world url u.scheme e) : Escapes world url e
  /-- The document goes beyond a limit of reading. -/
  | limit {u : Url} {text : Text} {fault : Json.SyntaxFault} (hnew : builtin? url = none)
    (hurl : Url.parse url = .ok u) (htext : content world url u.scheme = .ok text)
    (hfault : Json.parse text = .error fault) (hlimit : fault.problem.isLimit = true) :
    Escapes world url (.unreadable fault.problem)
  /-- The first entry that gives no rule has something else than a text for an icon, and icons are
  resolved against the URL. -/
  | icon {u : Url} {document : Document} {before after : List Json.Fields} {fields : Json.Fields}
    {icon : Json} (hfind : find world url = .ok document) (hurl : Url.parse url = .ok u)
    (hbase : Url.isBase u.scheme = true) (helements : document.elements = before ++ fields :: after)
    (hbefore : ∀ x ∈ before, ∃ r, elementRule url (origin url document) (some u) x = .ok r)
    (hicon : Json.find? fields "icon" = some icon) (hgiven : icon.isEmpty = false)
    (hnoText : ∀ s, icon ≠ .string s) : Escapes world url (.noText icon.typeWord)

theorem load_eq (world : World) (url : Text) : load world url =
    (do
      let document ← find world url
      let parsed ← (Url.parse url).mapError Failure.url
      let base := if Url.isBase parsed.scheme then some parsed else none
      let elements ← document.elements.mapM (elementRule url (origin url document) base)
      let relationships ← document.relationships.mapM (rule url (origin url document) .relationship)
      return elements ++ relationships) := rfl

theorem rule_failsAs : FailsAs (IsLoadFailure url) (rule url source target fields) :=
  isLoadFailure_of_mapError

theorem fetch_failsAs {scheme : Text} (hremote : Url.isRemote scheme = true) :
    FailsAs (fun e => IsLoadFailure url e ∨ Withheld world url scheme e) (fetch world url) := by
  rw [fetch]
  split
  · exact .error (.inl (isLoadFailure_failure url _))
  · next hresponse => exact .error (.inr (.request hremote hresponse))
  · split
    · exact .error (.inl (isLoadFailure_failure url _))
    · exact .ok

theorem exists_filePath {u : Url} (hu : Url.parse url = .ok u) :
    ∃ path, filePath url = .ok path := by
  rw [filePath, hu]
  split
  · exact ⟨_, rfl⟩
  · exact ⟨_, rfl⟩

theorem read_failsAs {u : Url} {scheme : Text} (hu : Url.parse url = .ok u)
    (hlocal : Url.isRemote scheme = false) :
    FailsAs (fun e => IsLoadFailure url e ∨ Withheld world url scheme e) (read world url) := by
  obtain ⟨path, hpath⟩ := exists_filePath hu
  rw [read, hpath]
  refine FailsAs.mapError (fun fault hfault => hfault) fun fault hfault => ?_
  obtain ⟨reason, rfl, heq⟩ | heq := Failure.ofFile_cases fault (failure url (.file fault))
  · rw [heq]
    exact .inr (.file hlocal hpath (Resource.Files.read_eq_inaccessible_iff.mp hfault))
  · rw [heq]
    exact .inl (isLoadFailure_failure url _)

theorem content_failsAs {u : Url} (hu : Url.parse url = .ok u) :
    FailsAs (fun e => IsLoadFailure url e ∨ Withheld world url u.scheme e)
      (content world url u.scheme) := by
  rw [content]
  split
  · next hremote => exact fetch_failsAs hremote
  · next hlocal => exact read_failsAs hu (Bool.eq_false_iff.mpr hlocal)

theorem Withheld.content_eq {scheme : Text} (h : Withheld world url scheme e) :
    content world url scheme = .error e := by
  cases h with
  | request hremote hresponse => rw [content, if_pos hremote, fetch, hresponse]
  | file hlocal hpath hrefused =>
    rw [content, if_neg (Bool.eq_false_iff.mp hlocal), read, hpath]
    simp only [bind, Except.bind, Resource.Files.read_eq_inaccessible_iff.mpr hrefused]
    rfl

theorem find_failsAs :
    FailsAs (fun e => IsLoadFailure url e ∨ Escapes world url e) (find world url) := by
  cases hb : builtin? url with
  | some d =>
    rw [find, hb]
    exact .ok
  | none =>
    rw [find_eq hb]
    cases hu : Url.parse url with
    | error fault =>
      rw [scheme_of_refused hu]
      exact .error (.inr (.url hb hu))
    | ok u =>
      rw [scheme_of_parse hu]
      refine ((content_failsAs hu).mono fun e he => he.imp_right (.withheld hb hu)).bind
        fun text htext => ?_
      refine FailsAs.bind ?_ fun value _ => isLoadFailure_of_mapError.inl
      cases hj : Json.parse text with
      | ok value => exact .ok
      | error fault =>
        refine .error ?_
        simp only [Failure.ofSyntax]
        split
        · next hlimit => exact .inr (.limit hb hu htext hj hlimit)
        · exact .inl (isLoadFailure_failure url _)

/-- Something else than a text for an icon that is to be resolved. -/
inductive BadIcon (base : Option Url) (fields : Json.Fields) : Failure → Prop where
  | mk {u : Url} {icon : Json} (hbase : base = some u)
    (hicon : Json.find? fields "icon" = some icon) (hgiven : icon.isEmpty = false)
    (hnoText : ∀ s, icon ≠ .string s) :
    BadIcon base fields (.noText icon.typeWord)

theorem resolveIcon_failsAs : FailsAs (fun e => IsLoadFailure url e ∨ BadIcon base fields e)
    (resolveIcon url base fields) := by
  rw [resolveIcon.eq_def]
  split
  · next icon u hicon =>
    split
    · exact .ok
    · next hempty =>
      split
      · exact isLoadFailure_of_mapError.inl
      · next hnoText =>
        exact .error (.inr (.mk rfl hicon (Bool.eq_false_iff.mpr hempty) hnoText))
  · exact .ok

theorem elementRule_failsAs : FailsAs (fun e => IsLoadFailure url e ∨ BadIcon base fields e)
    (elementRule url source base fields) :=
  resolveIcon_failsAs.bind fun _ _ => rule_failsAs.inl

theorem elementRule_of_badIcon (h : BadIcon base fields e) :
    elementRule url source base fields = .error e := by
  obtain @⟨u, icon, hbase, hicon, hgiven, hnoText⟩ := h
  rw [elementRule, resolveIcon.eq_def, hicon, hbase]
  simp only [hgiven]
  cases icon with
  | string s => exact absurd rfl (hnoText s)
  | _ => rfl

theorem load_of_find {u : Url} (hfind : find world url = .ok document)
    (hurl : Url.parse url = .ok u) : load world url =
    (do
      let base := if Url.isBase u.scheme then some u else none
      let elements ← document.elements.mapM (elementRule url (origin url document) base)
      let relationships ← document.relationships.mapM (rule url (origin url document) .relationship)
      return elements ++ relationships) := by
  rw [load_eq, hfind, hurl]
  rfl

theorem load_failsAs :
    FailsAs (fun e => IsLoadFailure url e ∨ Escapes world url e) (load world url) := by
  cases hfind : find world url with
  | error e =>
    rw [load_eq, hfind]
    exact .error (find_failsAs e hfind)
  | ok document =>
    obtain ⟨u, hurl⟩ := exists_parse_of_find hfind
    rw [load_of_find hfind hurl]
    refine FailsAs.bind (fun e he => ?_) fun elements _ => ?_
    · obtain ⟨before, fields, after, helements, hbefore, he⟩ := mapM_eq_error_iff.mp he
      refine (elementRule_failsAs e he).imp_right ?_
      rintro ⟨hbase, hicon, hgiven, hnoText⟩
      -- without a scheme to resolve against, no icon is looked at
      split at hbase
      · next hscheme =>
        cases hbase
        simp only [hscheme, if_true] at hbefore
        exact .icon hfind hurl hscheme helements hbefore hicon hgiven hnoText
      · cases hbase
    · exact (FailsAs.mapM fun fields _ => rule_failsAs).inl.bind fun relationships _ => .ok

theorem Escapes.load_eq (h : Escapes world url e) : load world url = .error e := by
  cases h with
  | url hnew hurl =>
    rw [Theme.load_eq, find_eq hnew, scheme_of_refused hurl]
    rfl
  | withheld hnew hurl h =>
    rw [Theme.load_eq, find_eq hnew, scheme_of_parse hurl]
    simp only [bind, Except.bind, h.content_eq]
  | limit hnew hurl htext hfault hlimit =>
    rw [Theme.load_eq, find_eq hnew, scheme_of_parse hurl]
    simp only [Except.mapError, htext, hfault, Failure.ofSyntax, hlimit, if_true, bind, Except.bind]
  | icon hfind hurl hbase helements hbefore hicon hgiven hnoText =>
    rw [load_of_find hfind hurl, helements]
    simp only [hbase, if_true]
    rw [mapM_eq_error_iff.mpr ⟨_, _, _, rfl, hbefore,
      elementRule_of_badIcon (.mk rfl hicon hgiven hnoText)⟩]
    rfl

theorem Escapes.not_isBuild (h : Escapes world url e) : ¬e.IsBuild := by
  rintro ⟨b, rfl⟩
  cases h with
  | withheld _ _ h => cases h

/-- A theme is loaded, or the failure is the one to load it and tells the URL, or it escapes. What
escapes is known: it is no build error, and nothing else than what loading fails with. -/
theorem load_accounted (world : World) (url : Text) :
    ((∃ rules, load world url = .ok rules) ∨
      (∃ e, load world url = .error e ∧ IsLoadFailure url e) ∨
        ∃ e, load world url = .error e ∧ Escapes world url e) ∧
      ∀ e, Escapes world url e → load world url = .error e ∧ ¬e.IsBuild := by
  refine ⟨?_, fun e he => ⟨he.load_eq, he.not_isBuild⟩⟩
  cases h : load world url with
  | ok rules => exact .inl ⟨rules, rfl⟩
  | error e =>
    refine .inr ((load_failsAs e h).imp (fun he => ⟨e, rfl, he⟩) fun he => ⟨e, rfl, he⟩)

/-- An entry with a list for an icon. -/
def listedEntry : Json.Fields := [("tag", .string "Person"), ("icon", .array [.array []])]

/-- A world in which a request brings a theme with this entry. -/
def listedIcon : World :=
  { request := fun _ =>
      .answered 200 (Json.object [("elements", .array [.object listedEntry])]).compact }

theorem listedIcon_accounted : Escapes listedIcon "http://h" (.noText "list") ∧
    load listedIcon "http://h" = .error (.noText "list") ∧ ¬(Failure.noText "list").IsBuild := by
  have hfind : find listedIcon "http://h" = .ok { elements := [listedEntry] } := by rfl
  have hurl : Url.parse "http://h" = .ok { scheme := "http", authority := "h" } := by rfl
  have hicon : Json.find? listedEntry "icon" = some (.array [.array []]) := by rfl
  have hescapes : Escapes listedIcon "http://h" (.noText "list") :=
    .icon hfind hurl rfl (List.nil_append _).symm (List.forall_mem_nil _) hicon rfl
      fun _ => Json.noConfusion
  exact ⟨hescapes, (load_accounted listedIcon "http://h").2 _ hescapes⟩

/-- Neither a malformed URL nor an icon that is a list is refused as a theme that cannot be
loaded. -/
theorem escaped_failures : (∃ e, load {} "http://[" = .error e ∧ ¬IsLoadFailure "http://[" e) ∧
    ∃ e, load listedIcon "http://h" = .error e ∧ ¬IsLoadFailure "http://h" e := by
  refine ⟨⟨.url .brackets, by rfl, ?_⟩, ⟨.noText "list", by rfl, ?_⟩⟩
  · rintro ⟨b, h, -⟩
    cases h
  · rintro ⟨b, h, -⟩
    cases h

end Style.Theme

end SystemAtlas
