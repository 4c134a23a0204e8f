import DeepLink.TypedRoute

/-!
# Sample routes

The routes of an application with overlapping templates: an item with an identifier of
digits is tried before one with any other name, and the last registration takes every
single part that no earlier one took.
-/
namespace DeepLink.Samples

inductive AppRoute where
  | home
  | profile (id : Text)
  | settings
  | payComplete (orderId : Text)
  | article (category slug : Text)
  | item (id : Text)
  | itemSlug (slug : Text)
  | page (name : Text)
  deriving DecidableEq, Repr

namespace AppRoute

/-- Routes with one parameter, which is bound to `name`. -/
def single (path : Text) (queryKeys : List Text) (name : Text) (make : Text → Option AppRoute)
    (value? : AppRoute → Option Text) : Registration AppRoute :=
  .make path queryKeys (fun params => params.get? name >>= make) fun route =>
    (value? route).map fun value => .ofPairs [(name, value)]

/-- An identifier of digits. -/
def numbered (id : Text) : Option AppRoute := if id.all Char.isDigit then some (.item id) else none

def registrations : List (Registration AppRoute) :=
  [ .unit [] home,
    single "user/$\x7bid\x7d/profile".toList [] "id".toList (some ∘ profile)
      fun | profile id => some id | _ => none,
    .unit "settings".toList settings,
    single "pay/complete".toList ["order_id".toList] "order_id".toList (some ∘ payComplete)
      fun | payComplete orderId => some orderId | _ => none,
    .make "article/:category/:slug".toList []
      (fun params => do
        return article (← params.get? "category".toList) (← params.get? "slug".toList))
      fun
        | article category slug =>
          some (.ofPairs [("category".toList, category), ("slug".toList, slug)])
        | _ => none,
    single "item/$\x7bid\x7d".toList [] "id".toList numbered
      fun | item id => some id | _ => none,
    single "item/$\x7bslug\x7d".toList [] "slug".toList (some ∘ itemSlug)
      fun | itemSlug slug => some slug | _ => none,
    single "$\x7bname\x7d".toList [] "name".toList (some ∘ page)
      fun | page name => some name | _ => none ]

/-- The kind of a route, without its parameters. -/
def describe : AppRoute → Text
  | home => "Home".toList
  | profile _ => "Profile".toList
  | settings => "Settings".toList
  | payComplete _ => "PayComplete".toList
  | article _ _ => "Article".toList
  | item _ => "Item".toList
  | itemSlug _ => "ItemSlug".toList
  | page _ => "Page".toList

instance : TypedRoute AppRoute where
  mapper := { registrations, options := .withDefaults "myapp".toList "app".toList }
  defaultScheme := some "myapp".toList
  defaultHost := some "app".toList
  describe

end AppRoute

end DeepLink.Samples
