import SystemAtlas.Style.Fault
import SystemAtlas.Text.Encoding

/-! # Faults of workspace documents

A fault is a problem at a place of the document. The place is the keys, positions and kinds on the
way to it.
-/

namespace SystemAtlas.Declaration

/-- What is wrong with a value of a document. -/
inductive Problem where
  | missing
  | notAllowed
  | notString
  /-- A text with half of a surrogate pair where its characters count. -/
  | notUnicode
  | notList
  | notObject
  /-- The value must be an object of the named form. -/
  | notForm (form : Text)
  | notOneOf (choices : List Text)
  | notInteger
  | notIntegerText
  | fractional
  | notFinite
  | tooLarge
  | below (bound : Int)
  | above (bound : Int)
  | notBoolean
  | notBooleanText
  | noKind
  | unknownKind (shown : Text) (expected : List Text)
  | notMember
  /-- A deployment node that lies too deep inside others. -/
  | tooDeep
  | badIdentifier
  | style (fault : Style.Fault)
  | needsEnvironment
  | needsSubject (kind : Text)
  deriving DecidableEq, Inhabited

/-- Texts between apostrophes, separated by commas. -/
def quotedList (xs : List Text) : List Text := xs.map fun x => "'" ++ x ++ "'"

/-- Choices as a sentence: the last one after "or". -/
def choiceText (choices : List Text) : Text :=
  match (quotedList choices).dropLast, (quotedList choices).getLast? with
  | [], last => last.getD ""
  | most, last => Text.intercalate ", " most ++ " or " ++ last.getD ""

/-- The description of a problem. -/
def Problem.message : Problem → Text
  | missing => "Field required"
  | notAllowed => "Extra inputs are not permitted"
  | notString => "Input should be a valid string"
  | notUnicode => "Input should be a valid string, unable to parse raw data as a unicode string"
  | notList => "Input should be a valid list"
  | notObject => "Input should be a valid dictionary"
  | notForm form => "Input should be a valid dictionary or instance of " ++ form
  | notOneOf choices => "Input should be " ++ choiceText choices
  | notInteger => "Input should be a valid integer"
  | notIntegerText => "Input should be a valid integer, unable to parse string as an integer"
  | fractional => "Input should be a valid integer, got a number with a fractional part"
  | notFinite => "Input should be a finite number"
  | tooLarge => "Unable to parse input string as an integer, exceeded maximum size"
  | below bound => "Input should be greater than or equal to " ++ toString bound
  | above bound => "Input should be less than or equal to " ++ toString bound
  | notBoolean => "Input should be a valid boolean"
  | notBooleanText => "Input should be a valid boolean, unable to interpret input"
  | noKind => "Unable to extract tag using discriminator 'kind'"
  | unknownKind shown expected =>
    "Input tag '" ++ shown.lossy ++ "' found using 'kind' does not match any of the " ++
      "expected tags: " ++ Text.intercalate ", " (quotedList expected)
  | notMember => "Input should be a valid dictionary or object to extract fields from"
  | tooDeep => "Recursion error - maximum validation depth exceeded"
  | badIdentifier => "Value error, identifier must be a non-empty name without dots"
  | style fault => "Value error, " ++ fault.message
  | needsEnvironment => "Value error, deployment views require an environment"
  | needsSubject kind => "Value error, " ++ kind ++ " views require a specific subject"

/-- What keeps a problem from being told. The description of a style fault holds what was written
there; elsewhere the message has characters only. -/
def Problem.encodingFault? : Problem → Option EncodingFault
  | style fault => fault.message.encodingFault?
  | _ => none

/-- A problem and the way to it. -/
structure Fault where
  place : List Text
  problem : Problem
  deriving DecidableEq, Inhabited

end SystemAtlas.Declaration
