import DeepLink.Mapper

/-!
# Typed routes

A type of routes with a mapper of its own and, possibly, a scheme and a host that come
before the defaults of the mapper when a URL is built.
-/
namespace DeepLink

/-- A type whose values are the routes of one mapper. -/
class TypedRoute (ρ : Type) where
  mapper : Mapper ρ
  defaultScheme : Option Text := none
  defaultHost : Option Text := none
  /-- How a route is called in messages. -/
  describe : ρ → Text

/-- No registration gives a text for the route so described. -/
structure UnregisteredRoute where
  route : Text
  deriving DecidableEq, Repr

def UnregisteredRoute.message (error : UnregisteredRoute) : Text :=
  "failed to render route ".toList ++ error.route
    ++ ": no registered pattern accepts it".toList

namespace TypedRoute

variable {ρ : Type} [TypedRoute ρ]

def ofRaw? (parser : Url.Parser) (raw : Text) : Option ρ := (mapper (ρ := ρ)).decode? parser raw

def ofUrl? (url : Url) : Option ρ := (mapper (ρ := ρ)).decodeUrl? url

/-- The text of a route, if it is registered. -/
def raw? (route : ρ) : Option Text := mapper.encode? route

def raw (route : ρ) : Except UnregisteredRoute Text :=
  match raw? route with
  | some text => .ok text
  | none => .error { route := describe route }

/-- The URL of a route under a scheme and a host; the defaults of the type stand in for one
that is not given. -/
def urlWith? (parser : Url.Parser) (route : ρ) (scheme host : Option Text) : Option Url :=
  mapper.buildUrl? parser route (scheme <|> defaultScheme ρ) (host <|> defaultHost ρ)

/-- The URL of a route under the default scheme and host. -/
def url? (parser : Url.Parser) (route : ρ) : Option Url := urlWith? parser route none none

end TypedRoute
end DeepLink
