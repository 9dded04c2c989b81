import SystemAtlas.Resource.Address
import SystemAtlas.Text.Lossy
import SystemAtlas.Text.Quoted

/-! # URLs

`Url.parse` cuts a reference into scheme, authority, path, parameters of the last path segment,
query and fragment. `Url.resolve` resolves a reference against a base, removing `.` and `..`
segments, and `Url.percentDecoded` reads the percent escapes of a path. A reference is refused only
for its authority.
-/

namespace SystemAtlas.Resource

/-- The parts of a reference. -/
structure Url where
  scheme : Text := ""
  authority : Text := ""
  path : Text := ""
  parameters : Text := ""
  query : Text := ""
  fragment : Text := ""
  deriving DecidableEq, Inhabited

namespace Url

/-- Why a reference is no URL. -/
inductive Fault where
  /-- A square bracket without its partner, or with something else beside a host in brackets. -/
  | brackets
  /-- A malformed address of a later version between brackets. -/
  | futureAddress
  /-- Four decimal octets between brackets. -/
  | dottedAddress
  /-- Some other host between brackets that is no address. -/
  | notAddress (host : Text)
  /-- A character of the authority that stands for a delimiter. -/
  | disguisedDelimiter (authority : Text)
  deriving DecidableEq, Inhabited

/-- The description of a fault. -/
def Fault.message : Fault → Text
  | brackets => "Invalid IPv6 URL"
  | futureAddress => "IPvFuture address is invalid"
  | dottedAddress => "An IPv4 address cannot be in brackets"
  | notAddress host => host.quoted ++ " does not appear to be an IPv4 or IPv6 address"
  | disguisedDelimiter authority =>
    "netloc '" ++ authority ++ "' contains invalid characters under NFKC normalization"

/-- The characters that a scheme may hold. -/
def isSchemeChar (c : Char) : Bool := c.isAlphanum || c = '+' || c = '-' || c = '.'

/-- The scheme in lower case and what follows its colon; the scheme `absent` and everything if there
is none. -/
def splitScheme (absent : Text) (ps : List CodePoint) : Text × List CodePoint :=
  let name := ps.takeWhile (!·.is ':')
  match ps.drop name.length, name with
  | _ :: rest, first :: _ =>
    if first.satisfies Char.isAlpha && name.all (·.satisfies isSchemeChar) then
      (⟨name.map (·.map Char.toLower)⟩, rest)
    else (absent, ps)
  | _, _ => (absent, ps)

/-- What comes before the first `c` and what comes after it, which is nothing if there is none. -/
def cut (c : Char) (ps : List CodePoint) : List CodePoint × List CodePoint :=
  (ps.takeWhile (!·.is c), (ps.dropWhile (!·.is c)).drop 1)

/-- The characters beyond ASCII whose compatibility form holds `/`, `?`, `#`, `@` or `:`. -/
def disguises : List Nat :=
  [0x2048, 0x2049, 0x2047, 0x2100, 0x2101, 0x2105, 0x2106, 0x2A74, 0xFE13, 0xFE16, 0xFE55, 0xFE56,
    0xFE5F, 0xFE6B, 0xFF03, 0xFF0F, 0xFF1A, 0xFF1F, 0xFF20]

/-- The host of an authority with brackets: what the brackets behind the last `@` enclose, or what
stands there before a colon if the brackets are elsewhere. Nothing may stand before those brackets,
and behind them only what a colon begins. -/
def bracketedHost (ps : List CodePoint) : Except Fault Text :=
  let host := (ps.reverse.takeWhile (!·.is '@')).reverse
  let (before, inside) := cut '[' host
  if !host.contains '[' then .ok ⟨(cut ':' host).1⟩
  else
    let (address, behind) := cut ']' inside
    if before.isEmpty && (behind.isEmpty || behind.head? = some ':') then .ok ⟨address⟩
    else .error .brackets

/-- Whether a host can stand in brackets. -/
def checkHost (host : Text) : Except Fault Unit := do
  if host.points.head? = some 'v' then
    if !Address.isFuture host then throw .futureAddress
  else if host.chars?.any Address.isDotted then throw .dottedAddress
  else if !Address.isZoned host then throw (.notAddress host)

/-- Whether the brackets of an authority are in order. -/
def checkBrackets (ps : List CodePoint) : Except Fault Unit := do
  if ps.contains '[' != ps.contains ']' then throw .brackets
  if ps.contains '[' then checkHost (← bracketedHost ps)

/-- Whether no character of the authority stands for a delimiter. -/
def checkDisguises (ps : List CodePoint) : Except Fault Unit :=
  if ps.any fun p => disguises.contains p.code then throw (.disguisedDelimiter ⟨ps⟩)
  else pure ()

/-- A path and the parameters of its last segment. -/
def splitParameters (ps : List CodePoint) : List CodePoint × List CodePoint :=
  let last := (ps.reverse.takeWhile (!·.is '/')).reverse
  let (segment, parameters) := cut ';' last
  (ps.take (ps.length - last.length) ++ segment, parameters)

/-- Whether paths under a scheme can carry parameters. -/
def hasParameters (scheme : Text) : Bool :=
  let schemes : List Text :=
    ["", "ftp", "hdl", "prospero", "http", "imap", "https", "shttp", "rtsp", "rtsps", "rtspu",
      "sip", "sips", "mms", "sftp", "tel"]
  schemes.contains scheme

/-- Whether a code point stays where tabs and line ends are dropped. -/
def isShown (p : CodePoint) : Bool := p != '\t' && p != '\r' && p != '\n'

/-- The parts of a reference; without a scheme of its own it has the scheme `absent`. Control
characters and spaces in front are dropped, and tabs and line ends everywhere. -/
def parse (s : Text) (absent : Text := "") : Except Fault Url := do
  let (scheme, rest) := splitScheme absent ((s.points.dropWhile (·.code ≤ 0x20)).filter isShown)
  let (authority, rest) :=
    match rest with
    | .char '/' :: .char '/' :: rest => rest.span fun p => p != '/' && p != '?' && p != '#'
    | _ => ([], rest)
  checkBrackets authority
  let (rest, fragment) := cut '#' rest
  let (path, query) := cut '?' rest
  checkDisguises authority
  let (path, parameters) := if hasParameters scheme then splitParameters path else (path, [])
  return { scheme, authority := ⟨authority⟩, path := ⟨path⟩, parameters := ⟨parameters⟩
           query := ⟨query⟩, fragment := ⟨fragment⟩ }

/-- The scheme of a reference, in lower case. -/
def schemeOf (s : Text) : Except Fault Text := (·.scheme) <$> parse s

/-- Whether a theme under a scheme is fetched. -/
def isRemote (scheme : Text) : Bool := scheme == "http" || scheme == "https"

/-- Whether references can be resolved against a base with this scheme. -/
def isBase (scheme : Text) : Bool := isRemote scheme || scheme == "file"

/-- A text with a mark before it, or nothing for nothing. -/
def marked (mark : Text) (s : Text) : Text := if s == "" then "" else mark ++ s

/-- A URL as text, for a scheme under which URLs have an authority. A path that starts with two
slashes already looks like an authority, and none is written before it if there is none. -/
def toText (u : Url) : Text :=
  let path := u.path ++ marked ";" u.parameters
  let place :=
    if u.authority == "" && path.startsWith "//" then path
    else if path == "" || path.startsWith "/" then "//" ++ u.authority ++ path
    else "//" ++ u.authority ++ "/" ++ path
  u.scheme ++ ":" ++ place ++ marked "?" u.query ++ marked "#" u.fragment

/-- The segments without `.` and without `..` and the segment before each. -/
def removeDots (kept : List Text) : List Text → List Text
  | [] => kept.reverse
  | s :: rest =>
    if s == ".." then removeDots (kept.drop 1) rest
    else if s == "." then removeDots kept rest
    else removeDots (s :: kept) rest

/-- Segments without the empty ones between the first and the last. -/
def dropInnerEmpty (segments : List Text) : List Text :=
  let later := segments.drop 1
  segments.take 1 ++ later.dropLast.filter (!·.isEmpty) ++ later.getLast?.toList

/-- The path of a reference as seen from the path of its base. -/
def joinPaths (base path : Text) : Text :=
  let below := path.pieces '/'
  let segments :=
    if path.startsWith "/" then below
    else
      let above := base.pieces '/'
      let above := if above.getLast? = some "" then above else above.dropLast
      dropInnerEmpty (above ++ below)
  let last := segments.getLast?
  let ending : List Text := if last = some "." || last = some ".." then [""] else []
  let resolved := removeDots [] segments ++ ending
  let joined := Text.intercalate "/" resolved
  if joined == "" then "/" else joined

/-- The reference `reference`, which has the scheme of `base`, as seen from `base`. -/
def resolve (base reference : Url) : Url :=
  if reference.authority != "" then reference
  else if reference.path == "" && reference.parameters == "" then
    { base with
      query := if reference.query == "" then base.query else reference.query
      fragment := reference.fragment }
  else
    { reference with
      authority := base.authority
      path := joinPaths base.path reference.path }

/-- The octets of characters with percent escapes read. -/
def percentOctets : List Char → List Nat
  | '%' :: a :: b :: rest =>
    match hexValue? a, hexValue? b with
    | some x, some y => (16 * x + y) :: percentOctets rest
    | _, _ => 0x25 :: percentOctets (a :: b :: rest)
  | c :: rest => c.toNat :: percentOctets rest
  | [] => []
where
  /-- The value of a hexadecimal digit. -/
  hexValue? (c : Char) : Option Nat :=
    if Address.isHex c then some (if c.isDigit then c.toNat - 48 else c.toNat % 32 + 9) else none

/-- What a run of ASCII characters means, given in reverse. -/
def decodeRun (run : List Char) : List CodePoint :=
  (Text.decodeLossy (percentOctets run.reverse)).map .char

/-- Code points with their percent escapes read, each run of ASCII characters by itself. `run` is
the one under way, in reverse. -/
def percentDecode (run : List Char) : List CodePoint → List CodePoint
  | [] => decodeRun run
  | p :: rest =>
    match p.char?.filter (·.toNat < 128) with
    | some c => percentDecode (c :: run) rest
    | none => decodeRun run ++ p :: percentDecode [] rest

/-- A text with its percent escapes read. -/
def percentDecoded (s : Text) : Text := ⟨percentDecode [] s.points⟩

end Url

end SystemAtlas.Resource
