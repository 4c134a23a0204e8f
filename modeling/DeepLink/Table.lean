import DeepLink.Mapper
import DeepLink.Pattern

/-!
# Route tables

A route table is a mapper made from named patterns. Its routes are a name with bindings of
the names that the pattern declares. A template binds query values to their keys;
`NamedPattern.decode?` moves them to the declared names, and `NamedPattern.encode?` back.

`RouteTable.route` makes a route from supplied values and checks that none is missing.
-/
namespace DeepLink

/-- A route of a table: its name and its parameters. -/
structure TableRoute where
  name : Text
  params : Bindings
  deriving DecidableEq

/-- A pattern that has been read, with its name. -/
structure NamedPattern where
  name : Text
  pattern : Pattern
  deriving DecidableEq, Repr

/-- What can go wrong in making a table, or a route of it. -/
inductive TableError where
  | pattern (name : Text) (cause : PatternError)
  | unknownRoute (name : Text)
  | missingParameter (route name : Text)
  deriving DecidableEq, Repr

def TableError.message : TableError → Text
  | .pattern name cause =>
    "route ".toList ++ name.quoted ++ " has an invalid pattern: ".toList ++ cause.message
  | .unknownRoute name => "unknown route ".toList ++ name.quoted
  | .missingParameter route name =>
    "route ".toList ++ route.quoted ++ " requires parameter ".toList ++ name.quoted

namespace NamedPattern

/-! ### Bindings and parameters -/

/-- The values that path names and query keys are bound to, under the declared names. -/
def decode? (named : NamedPattern) (params : Bindings) : Option TableRoute := do
  let path ← named.pattern.pathNames.mapM fun name => (params.get? name).map ((name, ·))
  let query ← named.pattern.query.mapM fun binding =>
    (params.get? binding.key).map ((binding.name, ·))
  return { name := named.name, params := .ofPairs (path ++ query) }

/-- The values of the declared names, under path names and query keys. -/
def encode? (named : NamedPattern) (route : TableRoute) : Option Bindings := do
  if route.name = named.name then
    let path ← named.pattern.pathNames.mapM fun name => (route.params.get? name).map ((name, ·))
    let query ← named.pattern.query.mapM fun binding =>
      (route.params.get? binding.name).map ((binding.key, ·))
    return .ofPairs (path ++ query)
  else none

def registration (named : NamedPattern) : Registration TableRoute :=
  let template := named.pattern.template
  .make template.text template.queryKeys named.decode? named.encode?

def ofEntry (entry : RouteEntry) : Except TableError NamedPattern :=
  match Pattern.parse entry.pattern with
  | .ok pattern => .ok { name := entry.name, pattern }
  | .error cause => .error (.pattern entry.name cause)

end NamedPattern

/-! ### Tables -/

/-- Named patterns in order, and the options of their mapper. -/
structure RouteTable where
  routes : List NamedPattern
  options : MapperOptions

namespace RouteTable

/-- The table of configured routes; the first invalid pattern is reported. -/
def make (options : MapperOptions) (entries : List RouteEntry) : Except TableError RouteTable := do
  return { routes := ← entries.mapM NamedPattern.ofEntry, options }

def ofConfig (config : RouterConfig) : Except TableError RouteTable :=
  make config.mapper config.routes

/-- The mapper between texts and routes of the table. -/
def mapper (table : RouteTable) : Mapper TableRoute :=
  { registrations := table.routes.map (·.registration), options := table.options }

/-- The route of a given name with the supplied values of its parameters. The first pattern
of the name counts, and of several values of a parameter the last one; values of other
parameters are left out. -/
def route (table : RouteTable) (name : Text) (supplied : List (Text × Text)) :
    Except TableError TableRoute := do
  let some named := table.routes.find? (·.name = name) | throw (.unknownRoute name)
  -- Binding all pairs first makes the last value of a parameter count.
  let values := Bindings.ofPairs supplied
  let params ← named.pattern.names.mapM fun param =>
    match values.get? param with
    | some value => .ok (param, value)
    | none => .error (.missingParameter name param)
  return { name, params := .ofPairs params }

def decode? (table : RouteTable) (parser : Url.Parser) (raw : Text) : Option TableRoute :=
  table.mapper.decode? parser raw

def decodeUrl? (table : RouteTable) (url : Url) : Option TableRoute := table.mapper.decodeUrl? url

def encode? (table : RouteTable) (route : TableRoute) : Option Text := table.mapper.encode? route

def buildUrl? (table : RouteTable) (parser : Url.Parser) (route : TableRoute)
    (scheme host : Option Text) : Option Url :=
  table.mapper.buildUrl? parser route scheme host

end RouteTable
end DeepLink
