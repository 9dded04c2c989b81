import SystemAtlas.Text.Quoted

/-! # Encoding texts

Octets stand for characters only, so a text is encoded as a string of characters. Half of a
surrogate pair keeps it from that. `encodingFault?` finds the first halves in the way, and is `none`
exactly for the texts that have nothing but characters. `lossy` puts replacement characters in
their place.
-/

namespace SystemAtlas

/-- The first halves of surrogate pairs in a text, side by side. -/
structure EncodingFault where
  /-- The first of them. -/
  half : Surrogate
  /-- The number of code points before it. -/
  position : Nat
  /-- The number of halves right after it. -/
  more : Nat
  deriving DecidableEq

instance : Inhabited EncodingFault := ⟨⟨⟨0xD800, by decide⟩, 0, 0⟩⟩

/-- The description of what keeps a text from being encoded. -/
def EncodingFault.message (f : EncodingFault) : Text :=
  let halves :=
    if f.more = 0 then
      "character '" ++ Text.ofChars (Text.shownHalf f.half) ++ "' in position " ++
        Text.ofNat f.position
    else
      "characters in position " ++ Text.ofNat f.position ++ "-" ++ Text.ofNat (f.position + f.more)
  "'utf-8' codec can't encode " ++ halves ++ ": surrogates not allowed"

namespace Text

/-- What keeps code points from being encoded, after `position` others. -/
def faultFrom? (position : Nat) : List CodePoint → Option EncodingFault
  | [] => none
  | .char _ :: rest => faultFrom? (position + 1) rest
  | .lone half :: rest => some ⟨half, position, (rest.takeWhile (·.char?.isNone)).length⟩

/-- What keeps a text from being encoded. -/
def encodingFault? (s : Text) : Option EncodingFault := faultFrom? 0 s.points

/-- Whether a text has nothing but characters. -/
def isWhole (s : Text) : Bool := s.chars?.isSome

/-- A text as a string, with three replacement characters for every half of a surrogate pair. -/
def lossy (s : Text) : String :=
  .ofList <| s.points.flatMap fun
    | .char c => [c]
    | .lone _ => List.replicate 3 '\ufffd'

/-- Every text without a fault has nothing but characters, and the other way round. -/
theorem encodingFault?_eq_none_iff {s : Text} : s.encodingFault? = none ↔ s.isWhole = true := by
  have any : ∀ (n : Nat) (ps : List CodePoint),
      faultFrom? n ps = none ↔ (ps.mapM CodePoint.char?).isSome = true := by
    intro n ps
    induction ps generalizing n with
    | nil => simp [faultFrom?]
    | cons p rest ih =>
      cases p with
      | lone half => simp [faultFrom?, CodePoint.char?]
      | char c =>
        rw [faultFrom?, ih (n + 1), List.mapM_cons]
        cases rest.mapM CodePoint.char? <;> simp [CodePoint.char?]
  exact any 0 s.points

/-- A string is shown as it is. -/
theorem lossy_ofString (s : String) : (ofString s).lossy = s := by
  have same : ∀ cs : List Char, (cs.map CodePoint.char).flatMap (fun
      | .char c => [c]
      | .lone _ => List.replicate 3 '\ufffd') = cs := by
    intro cs
    induction cs with
    | nil => rfl
    | cons c cs ih => simpa using ih
  rw [lossy, ofString, ofChars, same, String.ofList_toList]

end Text

end SystemAtlas
