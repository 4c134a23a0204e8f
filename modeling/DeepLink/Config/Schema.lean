import DeepLink.Text

/-!
# Configuration

What a configuration file may set, and what holds where it sets nothing.
-/
namespace DeepLink

/-- How a mapper treats scheme and host. -/
structure MapperOptions where
  defaultScheme : Option Text := none
  defaultHost : Option Text := none
  schemeInTemplate : Bool := false
  hostInTemplate : Bool := false
  deriving DecidableEq, Repr

/-- Options with a default scheme and a default host. -/
def MapperOptions.withDefaults (scheme host : Text) : MapperOptions :=
  { defaultScheme := some scheme, defaultHost := some host }

/-- What is logged, and in which form. -/
structure LoggingOptions where
  level : Text := "info".toList
  json : Bool := false
  deriving DecidableEq, Repr

/-- The filter directive that a log level stands for. -/
def LoggingOptions.filter (options : LoggingOptions) : Text :=
  "scheme_route=".toList ++ options.level

/-- A named route pattern, not yet read. -/
structure RouteEntry where
  name : Text
  pattern : Text := []
  deriving DecidableEq, Repr

structure RouterConfig where
  mapper : MapperOptions := {}
  logging : LoggingOptions := {}
  routes : List RouteEntry := []
  deriving DecidableEq, Repr

end DeepLink
