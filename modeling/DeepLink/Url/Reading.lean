import DeepLink.Url

/-!
# Reading URLs

`parse?` reads the components of a URL one after the other: the scheme, then the fragment and the
query from the end, then what stands between.

Spaces and control characters around a URL are dropped. Tabs and line breaks are ignored
also inside, except that one may end a drive letter in the path of a `file` URL.

This parser reads hosts of ASCII characters. Of domains with other characters it reads those that
`Domain` describes.
-/
namespace DeepLink.Url

/-! ### Authorities -/

/-- Read the text before `@`. -/
def Credentials.read (text : Text) : Credentials :=
  let (user, password) := (text.cut? ':').getD (text, [])
  ⟨Percent.encode keptInUserInfo user, Percent.encode keptInUserInfo password⟩

def Location.ofPath (path : Path) : Location := ⟨.none, none, none, path⟩

/-- The text up to the first colon that is not in brackets, and the rest. -/
def splitHost (bracketed : Bool) : Text → Text × Text
  | [] => ([], [])
  | c :: rest =>
    if c = ':' ∧ !bracketed then ([], c :: rest)
    else
      let inside := if c = '[' then true else if c = ']' then false else bracketed
      let (host, after) := splitHost inside rest
      (c :: host, after)

/-- Read the port after a colon. It ends at a backslash; the default port is dropped. -/
def readPort? (scheme : Scheme) (text : Text) : Option (Option Nat × Text) := do
  let (digits, rest) := text.span Char.isDigit
  let port ← Numeral.read? 10 digits
  if port > 65535 ∨ (rest ≠ [] ∧ rest.head? ≠ some '\\') then none
  else if digits = [] ∨ scheme.defaultPort? = some port then return (none, rest)
  else return (some port, rest)

/-- The path that follows an authority. -/
def pathAfterAuthority (special : Bool) (text : Text) : Path :=
  match text with
  | [] => if special then .ofSegments true [] else .empty
  | c :: rest => .ofSegments special (if Trail.isSeparator special c then rest else text)

/-- The text before the last `@`, if there is one, and the text of host and port. -/
def splitUserInfo (authority : Text) : Option Text × Text :=
  match authority.cutLast? '@' with
  | some (userInfo, address) => (some userInfo, address)
  | none => (none, authority)

/-- Read what follows the slashes before an authority; `continued` says whether a query or
a fragment comes after it. A special URL needs a host; in any other, an empty host takes no
port and no credentials. -/
def readAuthority? (scheme : Scheme) (text : Text) (continued : Bool) : Option Location := do
  let special := scheme.kind ≠ .general
  let (authority, after) := text.span (!Trail.isSeparator special ·)
  let (userInfo, address) := splitUserInfo authority
  -- A lone `@` before anything else lacks a host, whatever the scheme.
  if userInfo = some [] ∧ address = [] ∧ (after ≠ [] ∨ continued) then none
  let credentials := Credentials.read (userInfo.getD [])
  let (hostText, afterHost) := splitHost false address
  if hostText = [] ∧ (special ∨ afterHost ≠ [] ∨ credentials ≠ Credentials.none) then none
  let host ← Host.read? special hostText
  let (port, left) ←
    if afterHost = [] then some (none, []) else readPort? scheme (afterHost.drop 1)
  let path := pathAfterAuthority special (left ++ after)
  return { credentials, host := some host, port, path }

/-! ### File URLs -/

/-- A path of a `file` URL after a host. A drive letter at its start leaves no host. -/
def fileLocation (host : Host) (path : Text) : Location :=
  let trail := Trail.read true true path
  { credentials := .none
    host := some (if trail.drive then .empty else host)
    port := none
    path := .ofFileTrail trail }

/-- Read the host of a `file` URL and its path. No host and `localhost` are the same; the
first slash after either is not skipped, so that an empty segment starts the path. -/
def readFileHost? (text : Text) : Option Location := do
  let (source, after) := text.span (!Trail.isSeparator true ·)
  let hostText := unbroken source
  -- A drive letter in the place of a host belongs to the path.
  if PathSegment.isDriveLetter hostText then return fileLocation .empty text
  if hostText = [] then return fileLocation .empty after
  let host ← Host.read? true hostText
  if host.text = "localhost".toList then return fileLocation .empty after
  return fileLocation host (after.drop 1)

/-- The text after a first slash or backslash. -/
def afterSeparator? (text : Text) : Option Text :=
  match text.dropWhile isTabOrNewline with
  | c :: rest => if Trail.isSeparator true c then some rest else none
  | [] => none

/-- Read what follows the scheme `file`, tabs and line breaks included. -/
def readFile? (text : Text) : Option Location :=
  match afterSeparator? text with
  | none => some (fileLocation .empty text)
  | some rest =>
    match afterSeparator? rest with
    | none => some (fileLocation .empty rest)
    | some rest => readFileHost? rest

/-! ### Whole URLs -/

/-- Read what stands between the scheme and the query. -/
def readLocation? (scheme : Scheme) (source : Text) (continued : Bool) : Option Location :=
  let text := unbroken source
  match scheme.kind with
  | .file => readFile? source
  | .special => readAuthority? scheme (text.dropWhile (Trail.isSeparator true)) continued
  | .general =>
    match text with
    | '/' :: '/' :: rest => readAuthority? scheme rest continued
    | '/' :: rest => some (.ofPath (.ofSegments false rest))
    | _ => some (.ofPath (.ofRootless text))

/-- The text before the first `separator` and, if there is one, the text after it. -/
def cutOptional (separator : Char) (text : Text) : Text × Option Text :=
  ((text.cut? separator).map fun (before, after) => (before, some after)).getD (text, none)

def parse? (text : Text) : Option Url := do
  let (scheme, rest) ← Scheme.read? (text.trimEnds isControlOrSpace)
  let (body, fragment) := cutOptional '#' rest
  let (front, query) := cutOptional '?' body
  let location ← readLocation? scheme front (query.isSome || fragment.isSome)
  let keptInQuery := if scheme.kind = .general then keptInQuery else keptInSpecialQuery
  return {
    location with
    scheme
    query := query.map (Percent.encode keptInQuery ∘ unbroken)
    fragment := fragment.map (Percent.encode keptInFragment ∘ unbroken) }

end DeepLink.Url
