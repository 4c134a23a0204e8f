import DeepLink.Config.Schema
import DeepLink.NormalForm
import DeepLink.Template

/-!
# Mappers

A mapper turns route texts and URLs into routes and back. It holds registrations, each a
template with a way to read a route from bindings and a way to give the bindings of a
route. In both directions the first registration that succeeds decides.

- A URL is read by trying its `candidates`, route texts that leave out more and more of it.
- A URL whose scheme or host is foreign to the configured defaults has no candidates.
- `buildUrl?` puts scheme and host before an encoded route.

Where a text is read as a URL, the parser of URLs is an argument.
-/
namespace DeepLink

/-- A template with partial functions from its bindings to routes and back. -/
structure Registration (ρ : Type) where
  template : Template
  decode : Bindings → Option ρ
  encode : ρ → Option Bindings

namespace Registration

/-- Register routes under a template text and required query keys. -/
def make {ρ : Type} (path : Text) (queryKeys : List Text) (decode : Bindings → Option ρ)
    (encode : ρ → Option Bindings) : Registration ρ :=
  { template := .compile path queryKeys, decode, encode }

/-- Register one route without parameters. -/
def unit {ρ : Type} [DecidableEq ρ] (path : Text) (route : ρ) : Registration ρ :=
  make path [] (fun _ => some route) fun other => if other = route then some .empty else none

/-- The route that path parts and query values stand for. -/
def decode? {ρ : Type} (registration : Registration ρ) (parts : List Text) (query : Bindings) :
    Option ρ := do
  registration.decode (← registration.template.match? parts query)

/-- The path and query values that stand for a route. -/
def encode? {ρ : Type} (registration : Registration ρ) (route : ρ) : Option Rendered := do
  registration.template.render? (← registration.encode route)

end Registration

/-- Registrations in the order in which they are tried, and the options of the mapper. -/
structure Mapper (ρ : Type) where
  registrations : List (Registration ρ)
  options : MapperOptions := {}

namespace Mapper

variable {ρ : Type}

/-! ### From texts and URLs to routes -/

/-- The first route that a registration reads from parts and query values. -/
def decodeParts? (mapper : Mapper ρ) (parts : List Text) (query : Bindings) : Option ρ :=
  mapper.registrations.findSome? (·.decode? parts query)

/-- The route of a text that is not read as a URL. -/
def decodeRelative? (mapper : Mapper ρ) (raw : Text) : Option ρ :=
  let (path, query) := RouteText.split raw
  mapper.decodeParts? (RouteText.parts path) (Query.values query)

/-- Whether a text differs from an expected one, up to the case of letters; what is not
there does not differ. -/
def differs (expected actual : Option Text) : Bool :=
  match expected, actual with
  | some expected, some actual => !expected.equalsIgnoringCase actual
  | _, _ => false

/-- Whether a link is foreign: its scheme is not the default one, or its host is not and
hosts are no part of templates. -/
def rejects (mapper : Mapper ρ) (form : NormalForm) : Bool :=
  differs mapper.options.defaultScheme form.scheme
    || (!mapper.options.hostInTemplate && differs mapper.options.defaultHost form.host)

/-- The texts that a normal form may be registered under, without repetition. -/
def candidateTexts (options : MapperOptions) (form : NormalForm) : List Text :=
  let hasHost := form.host.isSome
  let hasPath : Bool := form.path ≠ []
  -- From the whole link down to its path, as far as templates may hold scheme and host.
  let texts :=
    (if options.schemeInTemplate then [form.render] else [])
      ++ (if options.hostInTemplate && (hasHost || hasPath) then [form.hostRelative] else [])
      ++ (if hasPath then [form.relative] else [])
      ++ (if options.hostInTemplate && !hasPath && hasHost then [form.hostOnly] else [])
  if texts = [] then [form.relative] else texts.eraseDups

/-- The route texts that are tried for a URL, in order. -/
def candidates (mapper : Mapper ρ) (url : Url) : List Text :=
  let form := NormalForm.ofUrl url
  if mapper.rejects form then [] else candidateTexts mapper.options form

def decodeUrl? (mapper : Mapper ρ) (url : Url) : Option ρ :=
  (mapper.candidates url).findSome? mapper.decodeRelative?

/-- The route of a text. A text with `://` before its first `?` is read as a URL, unless
schemes are part of templates. -/
def decode? (mapper : Mapper ρ) (parser : Url.Parser) (raw : Text) : Option ρ :=
  if !mapper.options.schemeInTemplate && (RouteText.split raw).1.hasAuthorityMark then
    (parser raw).bind mapper.decodeUrl?
  else mapper.decodeRelative? raw

/-! ### From routes to texts -/

/-- A path that starts with a scheme and one slash, with the second slash put back. -/
def restoreAuthority (path : Text) : Text :=
  match path.cut? '/' with
  | some (scheme, rest) =>
    -- A lone colon is no scheme.
    if scheme.length > 1 ∧ scheme.getLast? = some ':' then scheme ++ "//".toList ++ rest else path
  | none => path

def writeRendered (options : MapperOptions) (rendered : Rendered) : Text :=
  let path := if options.schemeInTemplate then restoreAuthority rendered.path else rendered.path
  RouteText.join path (Query.encodePairs rendered.query)

def encode? (mapper : Mapper ρ) (route : ρ) : Option Text :=
  (mapper.registrations.findSome? (·.encode? route)).map (writeRendered mapper.options)

/-! ### From routes to URLs -/

/-- The schemes whose URLs need a host. -/
def hostRequired : List Text :=
  ["http".toList, "https".toList, "ws".toList, "wss".toList, "ftp".toList]

/-- The host and the path of a built URL. If hosts are part of templates, the first part of
an unrooted path is the host. -/
def placeHost (options : MapperOptions) (host path : Text) : Text × Text :=
  if options.hostInTemplate ∧ path.head? ≠ some '/' then
    match path.cut? '/' with
    | some (first, rest) => (first, rest)
    | none => if path = [] then (host, []) else (path, [])
  else (host, path.dropWhile (· == '/'))

/-- The URL of a route text under the given or the default scheme and host. A text that is
a URL stands for itself. -/
def urlOfText? (options : MapperOptions) (parser : Url.Parser) (raw : Text)
    (scheme host : Option Text) : Option Url :=
  readUrl? parser raw <|> do
    let scheme ← scheme <|> options.defaultScheme
    let (path, query) := RouteText.split raw
    let (host, path) := placeHost options ((host <|> options.defaultHost).getD []) path
    -- With no host, the first part of the path would be taken for one.
    if host = [] ∧ hostRequired.any (·.equalsIgnoringCase scheme) then none
    else parser (RouteText.join (scheme ++ "://".toList ++ host ++ '/' :: path) query)

def buildUrl? (mapper : Mapper ρ) (parser : Url.Parser) (route : ρ) (scheme host : Option Text) :
    Option Url := do
  urlOfText? mapper.options parser (← mapper.encode? route) scheme host

end Mapper
end DeepLink
