import DeepLink.Bindings
import DeepLink.RouteText

/-!
# Templates

A template says which paths and queries a route accepts, and how the route is written.
It is read from a path text and a list of required query keys.

- A segment `:name` or `${name}` of the path stands for any part and binds it to `name`;
  every other segment, also a malformed placeholder, stands for itself.
- `match?` needs as many parts as segments and a non-empty value for every query key. A
  later binding of a name replaces an earlier one.
- `render?` writes a path and query values from bindings, if every name and key is bound.
-/
namespace DeepLink

/-! ### Placeholders -/

/-- The name between `${` and a closing brace that ends the text, unless it is empty. -/
def bracedName? : Text → Option Text
  | '$' :: '{' :: rest =>
    if rest.getLast? = some '}' ∧ rest.dropLast ≠ [] then some rest.dropLast else none
  | _ => none

/-- A name written as a placeholder. -/
def braced (name : Text) : Text := '$' :: '{' :: name ++ ['}']

/-- One part of a path template. -/
inductive Segment where
  | literal (text : Text)
  | placeholder (name : Text)
  deriving DecidableEq, Repr

/-- What a part of a template text stands for. -/
def Segment.read (part : Text) : Segment :=
  match bracedName? part with
  | some name => .placeholder name
  | none => .literal part

/-- A part of a template text with `:name` turned into a braced placeholder. -/
def bracedPart : Text → Text
  | ':' :: c :: rest => braced (c :: rest)
  | part => part

/-! ### Templates -/

/-- A path and the query values that go with it, in order. -/
structure Rendered where
  path : Text
  query : List (Text × Text)
  deriving DecidableEq, Repr

/-- A path template with its segments, and the query keys it requires. -/
structure Template where
  text : Text
  segments : List Segment
  queryKeys : List Text
  deriving DecidableEq, Repr

namespace Template

/-- Read a template from its path text; slashes that delimit no part are dropped. -/
def compile (path : Text) (queryKeys : List Text) : Template :=
  let text := Text.joinWith '/' ((path.fields '/').map bracedPart)
  { text, segments := (text.fields '/').map Segment.read, queryKeys }

def placeholders (template : Template) : List Text :=
  template.segments.filterMap fun
    | .placeholder name => some name
    | .literal _ => none

/-! ### Matching -/

/-- The bindings made by matching segments with parts one by one. -/
def capture? : List Segment → List Text → Option (List (Text × Text))
  | [], [] => some []
  | .literal text :: segments, part :: parts =>
    if part = text then capture? segments parts else none
  | .placeholder name :: segments, part :: parts =>
    (capture? segments parts).map ((name, part) :: ·)
  | _, _ => none

/-- A required query value: it must be there and not be empty. -/
def require? (query : Bindings) (key : Text) : Option (Text × Text) :=
  match query.get? key with
  | some value => if value = [] then none else some (key, value)
  | none => none

/-- Match path parts and query values, binding placeholders and then query keys. -/
def match? (template : Template) (parts : List Text) (query : Bindings) : Option Bindings := do
  let path ← capture? template.segments parts
  let values ← template.queryKeys.mapM (require? query)
  return .ofPairs (path ++ values)

/-! ### Rendering -/

/-- The part that a segment is written as. -/
def writeSegment? (params : Bindings) : Segment → Option Text
  | .literal text => some text
  | .placeholder name => params.get? name

/-- Write the path and the query values from bindings of all names and keys. -/
def render? (template : Template) (params : Bindings) : Option Rendered := do
  let parts ← template.segments.mapM (writeSegment? params)
  let query ← template.queryKeys.mapM fun key => (params.get? key).map ((key, ·))
  return { path := Text.joinWith '/' parts, query }

end Template
end DeepLink
