import SystemAtlas.Text.Blank

/-! # Host addresses in brackets

A host between square brackets in a URL is an address of eight groups, of which a run of zero groups
may be left out and the last two may be written as four decimal octets, or an address of a later
version, which starts with `v`.
-/

namespace SystemAtlas.Resource.Address

/-- A decimal octet without a needless zero. -/
def isOctet (cs : List Char) : Bool :=
  !cs.isEmpty && cs.all (·.isDigit) && cs.length ≤ 3 && (cs.length = 1 || cs.head? != some '0') &&
    cs.foldl (fun n c => 10 * n + (c.toNat - 48)) 0 ≤ 255

/-- Four decimal octets between dots. -/
def isDotted (cs : List Char) : Bool :=
  !cs.contains '/' && (cs.splitOn '.').length = 4 && (cs.splitOn '.').all isOctet

/-- Whether a character is a hexadecimal digit. -/
def isHex (c : Char) : Bool :=
  c.isDigit || ('a' ≤ c && c ≤ 'f') || ('A' ≤ c && c ≤ 'F')

/-- A group of up to four hexadecimal digits. -/
def isGroup (cs : List Char) : Bool :=
  !cs.isEmpty && cs.length ≤ 4 && cs.all isHex

/-- The groups between colons, with a dotted end as two groups; `none` if that end is malformed. -/
def groups? (cs : List Char) : Option (List (List Char)) :=
  let parts := cs.splitOn ':'
  match parts.getLast? with
  | some last =>
    if last.contains '.' then
      if isDotted last then some (parts.dropLast ++ [['0'], ['0']]) else none
    else some parts
  | none => none

/-- Eight groups, or fewer around one place where zero groups are left out. -/
def isGrouped (cs : List Char) : Bool :=
  3 ≤ (cs.splitOn ':').length &&
  match groups? cs with
  | none => false
  | some parts =>
    let gaps := (List.range parts.length).filter fun i =>
      0 < i && i + 1 < parts.length && parts[i]? == some []
    match gaps with
    | [] => parts.length = 8 && parts.all isGroup
    | [gap] =>
      let high := if parts.head? = some [] then gap - 1 else gap
      let low := parts.length - gap - 1 - (if parts.getLast? = some [] then 1 else 0)
      parts.length ≤ 9 && (parts.head? != some [] || high = 0) &&
        (parts.getLast? != some [] || low = 0) && high + low < 8 &&
        (parts.take high).all isGroup && (parts.drop (parts.length - low)).all isGroup
    | _ => false

/-- A grouped address, with a zone behind a percent sign if it has one. -/
def isZoned (s : Text) : Bool :=
  let address : Text := ⟨s.points.takeWhile (!·.is '%')⟩
  let zone := (s.points.dropWhile (!·.is '%')).drop 1
  !s.points.contains '/' && address.chars?.any isGrouped &&
    (address == s || (!zone.isEmpty && !zone.contains '%'))

/-- An address of a later version: `v`, hexadecimal digits, a dot and more on the same line. -/
def isFuture (s : Text) : Bool :=
  match s.points with
  | .char 'v' :: rest =>
    let digits := rest.takeWhile (·.satisfies isHex)
    match rest.drop digits.length with
    | .char '.' :: more => !digits.isEmpty && !more.isEmpty && !more.contains '\n'
    | _ => false
  | _ => false

end SystemAtlas.Resource.Address
