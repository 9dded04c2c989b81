import SystemAtlas.Resource.Path

/-! # Files

`Files` holds the files a run can see, and where the system stands between the run and its files. A
directory exists because a file lies below it, or is listed itself. `Files.read` gives the text of a
file, with every line end as a line feed, or says why there is none.
-/

namespace SystemAtlas.Resource

/-- What lies at a path. -/
inductive Content where
  | text (text : Text)
  | bytes (bytes : ByteArray)
  /-- No file that can be read: an empty directory, a device or the like. -/
  | special
  deriving Inhabited

/-- The text of a content, if it has any and its bytes are well-formed. -/
def Content.text? : Content → Option Text
  | text s => some s
  | bytes b => (String.fromUTF8? b).map .ofString
  | special => none

/-- Code points with every line end as a line feed. -/
def unifyLineEnds : List CodePoint → List CodePoint
  | .char '\r' :: .char '\n' :: rest => .char '\n' :: unifyLineEnds rest
  | .char '\r' :: rest => .char '\n' :: unifyLineEnds rest
  | p :: rest => p :: unifyLineEnds rest
  | [] => []

/-- Why a file has no text. The missing file is named as it was asked for, others by the last name
of their path. A file that the system gives no access to may be there or not. -/
inductive FileFault where
  | missing (asked : Text)
  | notFile (name : Text)
  | unreadable (name : Text)
  | inaccessible (reason : Text)
  deriving DecidableEq, Inhabited

/-- The description of a file fault. -/
def FileFault.message : FileFault → Text
  | missing asked => "Missing file: " ++ asked
  | notFile name => "Not a file: " ++ name
  | unreadable name => "Unable to read text file: " ++ name
  | inaccessible reason => reason

/-- The files of a run, and what the system refuses. -/
structure Files where
  contents : List (Path × Content) := []
  /-- Why the system gives no access to what lies at a path, where it gives none: a name that is too
  long, a file that may not be read. -/
  readRefusal? : Path → Option Text := fun _ => none
  /-- Why the system lets no file be written at a path, where it lets none: a directory there, a
  file where a directory should be, a place that may not be written to. -/
  writeRefusal? : Path → Option Text := fun _ => none
  deriving Inhabited

namespace Files

/-- What lies at a path. -/
def content? (files : Files) (p : Path) : Option Content :=
  (files.contents.find? (·.1 == p)).map (·.2)

/-- Whether a path is a directory because it is a root, or because something lies below it. -/
def hasDirectory (files : Files) (p : Path) : Bool :=
  if p.names.isEmpty then p.root != "//" else files.contents.any (·.1.isBelow p)

/-- The text of the file that `asked` spells. -/
def read (files : Files) (asked : Text) : Except FileFault Text :=
  let p := Path.ofText asked
  match files.readRefusal? p with
  | some reason => .error (.inaccessible reason)
  | none =>
    match files.content? p with
    | some .special => .error (.notFile p.name)
    | some content =>
      match content.text? with
      | some s => .ok ⟨unifyLineEnds s.points⟩
      | none => .error (.unreadable p.name)
    | none => .error (if files.hasDirectory p then .notFile p.name else .missing asked)

end Files

end SystemAtlas.Resource
