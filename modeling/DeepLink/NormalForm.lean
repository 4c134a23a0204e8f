import DeepLink.Query
import DeepLink.RouteText
import DeepLink.Url

/-!
# Normal forms

The normal form of a URL or of a route text: scheme and host if there are any, the path
without outer slashes, and the query items in ascending order of their names, those of one
name in their own order. Fragment, port and credentials do not belong to it.

The segments of a URL path are percent-decoded one by one; a segment whose meaning is not a
text without `/`, `?` and `#` stays as it is, so that no segment is split or joined. The
path of a route text stays as it is.

A normal form is written as a whole (`render`) or without its scheme and, in part, without
host or path (`relative`, `hostRelative`, `hostOnly`).
-/
namespace DeepLink

/-- The parts of a link that take part in routing. -/
structure NormalForm where
  scheme : Option Text
  host : Option Text
  path : Text
  query : List QueryItem
  deriving DecidableEq, Repr

namespace NormalForm

/-- The meaning of a path segment, if it can stand for the segment. -/
def decodeSegment (segment : Text) : Text :=
  match Percent.decode? segment with
  -- A decoded delimiter would split the segment, or end the path.
  | some meaning => if meaning.any Url.isDelimiter then segment else meaning
  | none => segment

/-- The path of a URL without outer slashes and with decoded segments. -/
def decodePath (path : Text) : Text :=
  Text.joinWith '/' (((path.trimEnds (· == '/')).splitOn '/').map decodeSegment)

/-- The normal form of a URL. An empty host counts as none. -/
def ofUrl (url : Url) : NormalForm where
  scheme := some url.scheme.text
  host := (url.host.map (·.text)).filter (· ≠ [])
  path := decodePath url.path.text
  query := Query.sorted (Query.items (url.query.getD []))

/-- The normal form of a route text, up to its first `#`. -/
def ofRaw (raw : Text) : NormalForm :=
  let (path, query) := RouteText.split (raw.before '#')
  { scheme := none
    host := none
    path := Text.joinWith '/' (RouteText.parts path)
    query := Query.sorted (Query.items query) }

/-! ### Written forms -/

/-- The text of the query, if there are items. -/
def queryText? (form : NormalForm) : Option Text :=
  if form.query = [] then none else some (Query.encode form.query)

/-- A text followed by the query, if there is one. -/
def withQuery (form : NormalForm) (base : Text) : Text :=
  match form.queryText? with
  | some query => base ++ '?' :: query
  | none => base

def relative (form : NormalForm) : Text := form.withQuery form.path

/-- Host, path and query, without a slash where host or path is missing. -/
def hostRelative (form : NormalForm) : Text :=
  form.withQuery (Text.joinWith '/' ([form.host.getD [], form.path].filter (· ≠ [])))

def hostOnly (form : NormalForm) : Text := form.withQuery (form.host.getD [])

/-- The whole form: scheme, host, path and query. -/
def render (form : NormalForm) : Text :=
  match form.scheme with
  | none => form.relative
  | some scheme =>
    let base :=
      match form.host with
      | some host => "//".toList ++ host ++ (if form.path = [] then [] else '/' :: form.path)
      | none => form.path
    form.withQuery (scheme ++ ':' :: base)

end NormalForm

/-- The URL that a text with `://` before its first `?` is, if it is one. -/
def readUrl? (parser : Url.Parser) (raw : Text) : Option Url :=
  if (RouteText.split raw).1.hasAuthorityMark then parser raw else none

/-- The normal form of a text, written down: that of a URL if the text is read as one. -/
def normalize (parser : Url.Parser) (raw : Text) : Text :=
  match readUrl? parser raw with
  | some url => (NormalForm.ofUrl url).render
  | none => (NormalForm.ofRaw raw).render

end DeepLink
