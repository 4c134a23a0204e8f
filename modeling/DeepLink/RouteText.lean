import DeepLink.Text

/-!
# Route texts

A route text is a path, optionally followed by `?` and a query. The path is a sequence of
parts between slashes; empty parts do not count.
-/
namespace DeepLink.RouteText

/-- The path and the query, which is empty where there is no `?`. -/
def split (raw : Text) : Text × Text := (raw.cut? '?').getD (raw, [])

def parts (path : Text) : List Text := path.fields '/'

/-- A path and a query as one text; an empty query is left out with its `?`. -/
def join (path query : Text) : Text :=
  if query = [] then path else path ++ '?' :: query

end DeepLink.RouteText
