import DeepLink.CommandLine.Arguments
import DeepLink.Config.Reading
import DeepLink.Json
import DeepLink.Table

/-!
# The program

What an invocation prints, and the status it ends with: 0 after an answer, 1 where there is
none or an error stands in the way, 2 for arguments that are no invocation. Nothing but a parser of
URLs and the content of the configuration file is needed from outside.
-/
namespace DeepLink.CommandLine

/-- Why an invocation has no answer. -/
inductive Failure where
  | config (cause : ConfigError)
  | table (cause : TableError)
  | noPair (param : Text)
  | noRoute
  deriving DecidableEq, Repr

def Failure.message : Failure → Text
  | .config cause => cause.message
  | .table cause => cause.message
  | .noPair param => "parameter ".toList ++ param.quoted ++ " is not key=value".toList
  | .noRoute => "no route matched".toList

/-- What the program prints, what it reports apart from that, and its status. -/
structure Outcome where
  status : Nat
  printed : Text
  reported : Text
  deriving DecidableEq, Repr

/-- Read parameters, each a key and a value with `=` between them. -/
def readParams (params : List Text) : Except Failure (List (Text × Text)) :=
  params.mapM fun param =>
    match param.cut? '=' with
    | some pair => .ok pair
    | none => .error (.noPair param)

def ofRoute (route : TableRoute) : Json :=
  .object [("name".toList, .text route.name),
    ("params".toList, .object (route.params.entries.map fun (name, value) => (name, .text value)))]

def ofNamedPattern (named : NamedPattern) : Json :=
  .object [("name".toList, .text named.name), ("path".toList, .text named.pattern.path),
    ("query_keys".toList, .list (named.pattern.queryKeys.map .text))]

def single (name : String) (content : Text) : Json := .object [(name.toList, .text content)]

/-- The route that a command names, with its parameters. -/
def namedRoute (table : RouteTable) (name : Text) (params : List Text) :
    Except Failure TableRoute := do
  (table.route name (← readParams params)).mapError .table

/-- An answer, or the failure to find a route. -/
def found (answer : Option Json) : Except Failure Json :=
  match answer with
  | some json => .ok json
  | none => .error .noRoute

def answer (parser : Url.Parser) (table : RouteTable) : Command → Except Failure Json
  | .decode input => found ((table.decode? parser input).map ofRoute)
  | .encode name params => do
    found ((table.encode? (← namedRoute table name params)).map (single "raw"))
  | .url name params scheme host => do
    let route ← namedRoute table name params
    found ((table.buildUrl? parser route scheme host).map fun url => single "url" url.render)
  | .normalize input => .ok (single "normalized" (DeepLink.normalize parser input))
  | .routes => .ok (.list (table.routes.map ofNamedPattern))

/-- The configuration of an invocation. -/
def configure (content : Text → Except ReadFailure (List UInt8)) (file : Option Text) :
    Except ConfigError RouterConfig :=
  match file with
  | some file => RouterConfig.load (content file)
  | none => .ok {}

def execute (parser : Url.Parser) (content : Text → Except ReadFailure (List UInt8))
    (invocation : Invocation) : Except Failure Json := do
  let config ← (configure content invocation.config).mapError .config
  let table ← (RouteTable.ofConfig config).mapError .table
  answer parser table invocation.command

def usage : Text :=
  "Usage: [--config FILE] (decode INPUT | encode NAME [KEY=VALUE]... | ".toList
    ++ "url NAME [KEY=VALUE]... [--scheme SCHEME] [--host HOST] | ".toList
    ++ "normalize INPUT | routes)".toList

/-- Run the program on its arguments; `content` gives the bytes of a file. -/
def run (parser : Url.Parser) (content : Text → Except ReadFailure (List UInt8))
    (arguments : List Text) : Outcome :=
  match read arguments with
  | .error .help => { status := 0, printed := usage ++ ['\n'], reported := [] }
  | .error .misuse => { status := 2, printed := [], reported := usage ++ ['\n'] }
  | .ok invocation =>
    match execute parser content invocation with
    | .ok json => { status := 0, printed := json.render 0 ++ ['\n'], reported := [] }
    | .error failure =>
      { status := 1, printed := [], reported := "Error: ".toList ++ failure.message ++ ['\n'] }

end DeepLink.CommandLine
