import DeepLink.Url.Host
import DeepLink.Url.Path
import DeepLink.Url.Scheme

/-!
# URLs

A URL by its components, each in the form in which it is written. `render` writes them down.

Which texts are URLs, and of what components, is decided by a `Parser`. Whatever reads URLs takes
one, so nothing here depends on how it works; the one that the program is run with is
`Url.parse?`.
-/
namespace DeepLink

/-- The user name and the password before a host. Nothing is written if both are empty. -/
structure Url.Credentials where
  user : Text
  password : Text
  deriving DecidableEq, Repr

/-- Where a URL points, within its scheme. A URL without authority has no host. -/
structure Url.Location where
  credentials : Url.Credentials
  host : Option Url.Host
  port : Option Nat
  path : Url.Path

structure Url extends Url.Location where
  scheme : Url.Scheme
  query : Option Text
  fragment : Option Text

namespace Url

/-- A reading of texts as URLs. -/
def Parser : Type := Text → Option Url

/-! ### Hosts of locations -/

/-- The text of the host, unless it is empty. -/
def Location.presentHost (location : Location) : Option Text :=
  (location.host.map (·.text)).filter (· ≠ [])

theorem presentHost_eq_some_iff {location : Location} {host : Text} :
    location.presentHost = some host ↔
      ∃ source, location.host = some source ∧ source.text = host ∧ host ≠ [] := by
  simp only [Location.presentHost, Option.filter_eq_some_iff, Option.map_eq_some_iff,
    decide_eq_true_eq]
  constructor
  · rintro ⟨⟨source, found, rfl⟩, filled⟩
    exact ⟨source, found, rfl, filled⟩
  · rintro ⟨source, found, rfl, filled⟩
    exact ⟨⟨source, found, rfl⟩, filled⟩

theorem of_presentHost {location : Location} {host : Text}
    (present : location.presentHost = some host) : host ≠ [] ∧ Undelimited host := by
  obtain ⟨source, _, rfl, filled⟩ := presentHost_eq_some_iff.mp present
  exact ⟨filled, source.undelimited⟩

/-! ### Written URLs -/

def Credentials.none : Credentials := ⟨[], []⟩

/-- The user name, the password after a colon if there is one, and `@`. -/
def Credentials.render (credentials : Credentials) : Text :=
  if credentials = .none then []
  else
    credentials.user
      ++ (if credentials.password = [] then [] else ':' :: credentials.password) ++ ['@']

/-- The slashes and what stands between them and the path. A path that starts with two
slashes is kept apart from an authority by `/.`. -/
def renderAuthority (location : Location) : Text :=
  match location.host with
  | some host =>
    "//".toList ++ location.credentials.render ++ host.text
      ++ ((location.port.map fun port => ':' :: Nat.toDigits 10 port).getD [])
  | none => if "//".toList.isPrefixOf location.path.text then "/.".toList else []

def render (url : Url) : Text :=
  url.scheme.text ++ ':' :: renderAuthority url.toLocation ++ url.path.text
    ++ ((url.query.map ('?' :: ·)).getD []) ++ ((url.fragment.map ('#' :: ·)).getD [])

end Url
end DeepLink
