import DeepLink.Config.Schema
import DeepLink.Pattern
import DeepLink.Text.Blank

/-!
# Validation of configurations

A configuration is valid when its default scheme and host, where set, are not blank, its
routes have distinct names that are not empty, and their patterns can be read. `problems`
lists everything that is wrong: first the defaults, then the routes in order, each with its
name before its pattern.
-/
namespace DeepLink

/-- A default that a configuration may set. -/
inductive DefaultOption where
  | scheme
  | host
  deriving DecidableEq, Repr

/-- One thing that is wrong with a configuration. -/
inductive ValidationError where
  | emptyDefault (option : DefaultOption)
  | emptyRouteName (index : Nat)
  | duplicateRouteName (name : Text)
  | invalidPattern (name : Text) (cause : PatternError)
  deriving DecidableEq, Repr

/-- The name of the option in a configuration file. -/
def DefaultOption.key : DefaultOption → Text
  | .scheme => "default_scheme".toList
  | .host => "default_host".toList

def ValidationError.message : ValidationError → Text
  | .emptyDefault option => "mapper.".toList ++ option.key ++ " must not be empty".toList
  | .emptyRouteName index =>
    "route #".toList ++ Nat.toDigits 10 index ++ " has an empty name".toList
  | .duplicateRouteName name => "duplicate route name ".toList ++ name.quoted
  | .invalidPattern name cause => "route ".toList ++ name.quoted ++ ": ".toList ++ cause.message

namespace RouterConfig

/-- A default that is set but blank. -/
def defaultProblems (option : DefaultOption) (value : Option Text) : List ValidationError :=
  if value.any Text.isBlank then [.emptyDefault option] else []

/-- What is wrong with the name of a route, given the names before it. -/
def nameProblems (earlier : List Text) (index : Nat) (name : Text) : List ValidationError :=
  -- An empty name is never a duplicate as well.
  if name = [] then [.emptyRouteName index]
  else if earlier.contains name then [.duplicateRouteName name]
  else []

def patternProblems (route : RouteEntry) : List ValidationError :=
  match Pattern.parse route.pattern with
  | .ok _ => []
  | .error cause => [.invalidPattern route.name cause]

/-- What is wrong with routes, given the names before them and the index of the first. -/
def routeProblems (earlier : List Text) (index : Nat) : List RouteEntry → List ValidationError
  | [] => []
  | route :: rest =>
    nameProblems earlier index route.name ++ patternProblems route
      ++ routeProblems (route.name :: earlier) (index + 1) rest

/-- Everything that is wrong with a configuration. -/
def problems (config : RouterConfig) : List ValidationError :=
  defaultProblems .scheme config.mapper.defaultScheme
    ++ defaultProblems .host config.mapper.defaultHost ++ routeProblems [] 0 config.routes

/-- The configuration itself, if nothing is wrong with it. -/
def validate (config : RouterConfig) : Except (List ValidationError) RouterConfig :=
  match config.problems with
  | [] => .ok config
  | problems => .error problems

end RouterConfig
end DeepLink
