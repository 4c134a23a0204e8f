import DeepLink.Template

/-!
# Route patterns

A route pattern is a path template, optionally followed by `?` and query bindings
`key=${name}` joined with `&`:

    pay/complete?order_id=${orderId}

A matched query value is bound to its key; the pattern keeps the name that goes with it.

- `placeholders` scans a path template for names: `:name` segments, and every `${name}`
  inside another segment.
- `parse` reports the first binding that is not of the form above, else the first name
  declared twice, else the first key that is a path name or an earlier key.
- `render` writes a pattern down.
-/
namespace DeepLink

structure QueryBinding where
  key : Text
  name : Text
  deriving DecidableEq, Repr

/-- Why a text is not a route pattern. -/
inductive PatternError where
  | emptyQueryKey (piece : Text)
  | valueNotPlaceholder (key value : Text)
  | duplicatePlaceholder (name : Text)
  | duplicateQueryKey (key : Text)
  deriving DecidableEq, Repr

def PatternError.message : PatternError → Text
  | .emptyQueryKey piece => "query string contains an empty key: ".toList ++ piece.quoted
  | .valueNotPlaceholder key value =>
    "query value for ".toList ++ key.quoted ++ " must be a $\x7bname\x7d placeholder, got ".toList
      ++ value.quoted
  | .duplicatePlaceholder name =>
    "placeholder ".toList ++ name.quoted ++ " is bound more than once".toList
  | .duplicateQueryKey key =>
    "query key ".toList ++ key.quoted
      ++ " collides with a path placeholder or another query key".toList

/-- A path template with the names it declares, and the query bindings. -/
structure Pattern where
  path : Text
  pathNames : List Text
  query : List QueryBinding
  deriving DecidableEq, Repr

namespace Pattern

/-! ### Scanning for names -/

/-- The non-empty names between `${` and the next closing brace, left to right. An opening
that is never closed ends the scan. -/
def bracedNames (text : Text) : List Text :=
  match text with
  | [] => []
  | '$' :: '{' :: rest =>
    match found : Text.cut? '}' rest with
    | none => []
    | some (name, after) =>
      have := Text.length_after_cut found
      -- An empty pair of braces names nothing, but the scan goes on after it.
      if name = [] then bracedNames after else name :: bracedNames after
  | _ :: rest => bracedNames rest
  termination_by text.length

/-- The names declared by one segment of a path template. -/
def segmentNames : Text → List Text
  | ':' :: c :: rest => [c :: rest]
  | segment => bracedNames segment

/-- The names declared by a path template, in order. -/
def placeholders (path : Text) : List Text := (path.splitOn '/').flatMap segmentNames

/-! ### Reading and writing -/

def readBinding (piece : Text) : Except PatternError QueryBinding :=
  let (key, value) := (piece.cut? '=').getD (piece, [])
  if key = [] then .error (.emptyQueryKey piece)
  else
    match bracedName? value with
    | some name => .ok { key, name }
    | none => .error (.valueNotPlaceholder key value)

/-- The first text of a list that was seen before, or that occurs earlier in the list. -/
def firstRepeated (seen : List Text) : List Text → Option Text
  | [] => none
  | text :: rest => if seen.contains text then some text else firstRepeated (text :: seen) rest

def parse (text : Text) : Except PatternError Pattern := do
  let (path, query) := RouteText.split text
  let bindings ← (query.fields '&').mapM readBinding
  let pathNames := placeholders path
  if let some name := firstRepeated [] (pathNames ++ bindings.map (·.name)) then
    throw (.duplicatePlaceholder name)
  -- A key shares its space of names with the path, not with the names of the query.
  if let some key := firstRepeated pathNames (bindings.map (·.key)) then
    throw (.duplicateQueryKey key)
  return { path, pathNames, query := bindings }

def queryKeys (pattern : Pattern) : List Text := pattern.query.map (·.key)

/-- All names: those of the path, then those of the query. -/
def names (pattern : Pattern) : List Text := pattern.pathNames ++ pattern.query.map (·.name)

/-- The template that matches and writes the routes of the pattern. -/
def template (pattern : Pattern) : Template := .compile pattern.path pattern.queryKeys

def writeBinding (binding : QueryBinding) : Text := binding.key ++ '=' :: braced binding.name

def render (pattern : Pattern) : Text :=
  RouteText.join pattern.path (Text.joinWith '&' (pattern.query.map writeBinding))

end Pattern
end DeepLink
