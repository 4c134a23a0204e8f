import DeepLink.Samples
import DeepLink.Proofs.MapperLaws
import DeepLink.Url.Reading
import Mathlib

/-!
# Texts of the sample routes

The templates of the sample application overlap: an item of digits shadows one of any name, and
the last template takes every single part that is left. Here the order of the registrations is
resolved once, into a reading by cases on the number of parts (`decodeParts?_eq_read?`).

Every route has a text (`findSome?_encode?`). The routes that any text is read as are the
recoverable ones (`recoverable_of_ofRaw?`), and each of them is read from its own text
(`ofRaw?_raw_iff`). A value is lost if it is empty or holds a separator, which changes the parts of
the text, or if an earlier registration takes it.
-/
namespace DeepLink

open Template

/-- What a registration reads, in terms of the segments of its template. -/
theorem Registration.decode?_make {ρ : Type} (path : Text) (keys : List Text)
    (decode : Bindings → Option ρ) (encode : ρ → Option Bindings) (parts : List Text)
    (query : Bindings) :
    (make path keys decode encode).decode? parts query
      = (capture? (compile path keys).segments parts).bind fun captured =>
          (keys.mapM (require? query)).bind fun values =>
            decode (.ofPairs (captured ++ values)) := by
  simp only [Registration.decode?, make, match?, Option.bind_eq_bind, Option.pure_def,
    Option.bind_assoc, Option.bind_some]
  rfl

namespace Samples.AppRoute

open RouteText (IsPart)

variable {parser : Url.Parser} {route : AppRoute} {raw : Text}

/-- The routes that can be recovered from their texts. -/
def Recoverable : AppRoute → Prop
  | home | settings => True
  | profile id => IsPart id
  | payComplete orderId => orderId ≠ []
  | article category slug => IsPart category ∧ IsPart slug
  | item id => id ≠ [] ∧ ∀ c ∈ id, c.isDigit
  | itemSlug slug => IsPart slug ∧ ¬ ∀ c ∈ slug, c.isDigit
  | page name => IsPart name ∧ name ≠ "settings".toList

/-! ### Reading -/

/-- The segments of the templates, in the order of registration. -/
theorem segments_templates :
    (compile [] []).segments = [] ∧
    (compile "user/$\x7bid\x7d/profile".toList []).segments
      = [.literal "user".toList, .placeholder "id".toList, .literal "profile".toList] ∧
    (compile "settings".toList []).segments = [.literal "settings".toList] ∧
    (compile "pay/complete".toList ["order_id".toList]).segments
      = [.literal "pay".toList, .literal "complete".toList] ∧
    (compile "article/:category/:slug".toList []).segments
      = [.literal "article".toList, .placeholder "category".toList, .placeholder "slug".toList] ∧
    (compile "item/$\x7bid\x7d".toList []).segments
      = [.literal "item".toList, .placeholder "id".toList] ∧
    (compile "item/$\x7bslug\x7d".toList []).segments
      = [.literal "item".toList, .placeholder "slug".toList] ∧
    (compile "$\x7bname\x7d".toList []).segments = [.placeholder "name".toList] := by
  decide

/-- The order that a query names. -/
def orderId? (query : Bindings) : Option Text := (query.get? "order_id".toList).filter (· ≠ [])

/-- The route of path parts and query values, with the order of the registrations resolved. -/
def read? (query : Bindings) : List Text → Option AppRoute
  | [] => some home
  | [name] => some (if name = "settings".toList then settings else page name)
  | [first, second] =>
    if first = "pay".toList ∧ second = "complete".toList then (orderId? query).map payComplete
    else if first = "item".toList then
      some (if second.all Char.isDigit then item second else itemSlug second)
    else none
  | [first, second, third] =>
    if first = "user".toList ∧ third = "profile".toList then some (profile second)
    else if first = "article".toList then some (article second third)
    else none
  | _ => none

theorem mapM_require?_orderId (query : Bindings) :
    ["order_id".toList].mapM (require? query)
      = (orderId? query).map fun orderId => [("order_id".toList, orderId)] := by
  simp only [List.mapM_cons, List.mapM_nil, require?, orderId?]
  cases query.get? "order_id".toList with
  | none => rfl
  | some value => by_cases empty : value = [] <;> simp [empty]

theorem decode?_single (path name : Text) (keys : List Text) (make : Text → Option AppRoute)
    (value? : AppRoute → Option Text) (parts : List Text) (query : Bindings) :
    (single path keys name make value?).decode? parts query
      = (capture? (compile path keys).segments parts).bind fun captured =>
          (keys.mapM (require? query)).bind fun values =>
            ((captured ++ values).reverse.lookup name).bind make := by
  rw [single, Registration.decode?_make]
  simp only [Bindings.get?_ofPairs]
  rfl

/-- The first registration that reads the parts is the one that the reading by cases takes. -/
theorem decodeParts?_eq_read? (parts : List Text) (query : Bindings) :
    (TypedRoute.mapper (ρ := AppRoute)).decodeParts? parts query = read? query parts := by
  change registrations.findSome? (·.decode? parts query) = _
  simp only [registrations, findSome?_cons_eq_or, List.findSome?_nil, Option.or_none,
    Registration.unit, Registration.decode?_make, decode?_single, segments_templates,
    mapM_require?_orderId, List.mapM_nil, Option.pure_def, Option.bind_some, List.append_nil]
  -- Templates with another number of segments drop out, so each case has few registrations left.
  match parts with
  | [] => rfl
  | [name] =>
    simp only [capture?, read?, Option.bind_none, Option.bind_some, Option.none_or,
      Option.map_some, ite_self, List.reverse_singleton, List.lookup_cons_self]
    split <;> rfl
  | [first, second] =>
    simp only [capture?, read?, Option.bind_none, Option.none_or, Option.map_some, ite_self,
      Option.map_none, Option.or_none, ← ite_and]
    by_cases paid : first = "pay".toList ∧ second = "complete".toList
    · obtain ⟨rfl, rfl⟩ := paid
      cases orderId? query <;> rfl
    · by_cases listed : first = "item".toList
      · subst listed
        -- The slug is what is left when the identifier is refused.
        change (numbered second).or (some (itemSlug second)) = some (ite _ _ _)
        unfold numbered
        split <;> rfl
      · simp only [paid, listed, if_false, Option.bind_none, Option.none_or]
  | [first, second, third] =>
    simp only [capture?, read?, Option.bind_none, Option.none_or, Option.map_some, ite_self,
      Option.map_none, Option.or_none, apply_ite (Option.map _), ← ite_and]
    by_cases user : first = "user".toList ∧ third = "profile".toList
    · obtain ⟨rfl, rfl⟩ := user
      rfl
    · by_cases written : first = "article".toList
      · subst written
        rfl
      · simp only [user, written, if_false, Option.bind_none, Option.none_or]
  | first :: second :: third :: fourth :: rest =>
    simp only [capture?, read?, Option.bind_none, ite_self, Option.map_none, Option.or_none]

/-- Every route that is read from parts is recoverable. -/
theorem recoverable_of_read? {query : Bindings} {parts : List Text}
    (valid : ∀ part ∈ parts, IsPart part) (found : read? query parts = some route) :
    route.Recoverable := by
  unfold read? at found
  split at found
  · obtain rfl := Option.some.inj found
    trivial
  next name =>
    have part : IsPart name := valid name (by simp)
    split at found <;> obtain rfl := Option.some.inj found
    · trivial
    next other => exact ⟨part, other⟩
  next first second =>
    have part : IsPart second := valid second (by simp)
    split at found
    · obtain ⟨orderId, named, rfl⟩ := Option.map_eq_some_iff.mp found
      have filled : orderId ≠ [] := of_decide_eq_true (Option.filter_eq_some_iff.mp named).2
      exact filled
    split at found
    · split at found <;> obtain rfl := Option.some.inj found
      next digits => exact ⟨part.1, List.all_eq_true.mp digits⟩
      next mixed => exact ⟨part, fun digits => mixed (List.all_eq_true.mpr digits)⟩
    · cases found
  next first second third =>
    split at found
    · obtain rfl := Option.some.inj found
      exact valid second (by simp)
    split at found
    · obtain rfl := Option.some.inj found
      exact ⟨valid second (by simp), valid third (by simp)⟩
    · cases found
  · cases found

/-- Every route that is read from a text is recoverable, also if the text is read as a URL. -/
theorem recoverable_of_ofRaw? (found : TypedRoute.ofRaw? parser raw = some route) :
    route.Recoverable := by
  obtain ⟨parts, query, valid, read⟩ := Mapper.exists_parts_of_decode? found
  exact recoverable_of_read? valid (decodeParts?_eq_read? parts query ▸ read)

/-! ### Writing -/

/-- The path parts that a route is written as. -/
def parts : AppRoute → List Text
  | home => []
  | profile id => ["user".toList, id, "profile".toList]
  | settings => ["settings".toList]
  | payComplete _ => ["pay".toList, "complete".toList]
  | article category slug => ["article".toList, category, slug]
  | item id => ["item".toList, id]
  | itemSlug slug => ["item".toList, slug]
  | page name => [name]

/-- The query values that a route is written with. -/
def queryPairs : AppRoute → List (Text × Text)
  | payComplete orderId => [("order_id".toList, orderId)]
  | _ => []

/-- Each route is written by its own registration, whatever its parameters hold. -/
theorem findSome?_encode? (route : AppRoute) :
    registrations.findSome? (·.encode? route)
      = some ⟨Text.joinWith '/' route.parts, route.queryPairs⟩ := by
  cases route <;> rfl

theorem raw?_eq (route : AppRoute) :
    TypedRoute.raw? route
      = some (Mapper.writeRendered (TypedRoute.mapper (ρ := AppRoute)).options
          ⟨Text.joinWith '/' route.parts, route.queryPairs⟩) := by
  change (registrations.findSome? (·.encode? route)).map _ = _
  rw [findSome?_encode?]
  rfl

theorem isPart_of_digits {id : Text} (filled : id ≠ []) (digits : ∀ c ∈ id, c.isDigit) :
    IsPart id :=
  ⟨filled, fun slash => absurd (digits _ slash) (by decide),
    fun question => absurd (digits _ question) (by decide)⟩

theorem Recoverable.isPart (recoverable : route.Recoverable) :
    ∀ part ∈ route.parts, IsPart part := by
  cases route with
  | home => exact List.forall_mem_nil _
  | settings => exact List.forall_mem_singleton.mpr (by decide)
  | payComplete orderId =>
    exact (by decide : ∀ part ∈ ["pay".toList, "complete".toList], IsPart part)
  | profile id =>
    simp only [parts, List.forall_mem_cons]
    exact ⟨by decide, recoverable, by decide, List.forall_mem_nil _⟩
  | article category slug =>
    simp only [parts, List.forall_mem_cons]
    exact ⟨by decide, recoverable.1, recoverable.2, List.forall_mem_nil _⟩
  | item id =>
    simp only [parts, List.forall_mem_cons]
    exact ⟨by decide, isPart_of_digits recoverable.1 recoverable.2, List.forall_mem_nil _⟩
  | itemSlug slug =>
    simp only [parts, List.forall_mem_cons]
    exact ⟨by decide, recoverable.1, List.forall_mem_nil _⟩
  | page name => exact List.forall_mem_singleton.mpr recoverable.1

theorem Recoverable.read? (recoverable : route.Recoverable) :
    AppRoute.read? (.ofPairs route.queryPairs) route.parts = some route := by
  cases route with
  | home | settings | profile | article => rfl
  | payComplete orderId =>
    have named : orderId? (.ofPairs [("order_id".toList, orderId)]) = some orderId :=
      Option.filter_eq_some_iff.mpr ⟨rfl, decide_eq_true recoverable⟩
    change (orderId? _).map payComplete = _
    rw [queryPairs, named, Option.map_some]
  | item id =>
    have digits : id.all Char.isDigit = true := List.all_eq_true.mpr recoverable.2
    change some (ite _ _ _) = _
    rw [if_pos digits]
  | itemSlug slug =>
    have mixed : ¬ slug.all Char.isDigit = true := fun digits =>
      recoverable.2 (List.all_eq_true.mp digits)
    change some (ite _ _ _) = _
    rw [if_neg mixed]
  | page name =>
    change some (ite _ _ _) = _
    rw [if_neg recoverable.2]

/-- A recoverable route is read from its own text. -/
theorem Recoverable.ofRaw? (recoverable : route.Recoverable)
    (written : TypedRoute.raw? route = some raw) : TypedRoute.ofRaw? parser raw = some route := by
  rw [raw?_eq] at written
  obtain rfl := Option.some.inj written
  rw [TypedRoute.ofRaw?, Mapper.decode?_writeRendered _ _ recoverable.isPart, decodeParts?_eq_read?,
    recoverable.read?]

/-- Every route has a text. Whatever texts are URLs, it is read from this text exactly if no value
of a path parameter is empty or holds `/` or `?`, an order has an identifier, the identifier of an
item consists of digits and a slug does not, and a page is not called `settings`. -/
theorem ofRaw?_raw_iff (parser : Url.Parser) (route : AppRoute) :
    ∃ raw, TypedRoute.raw? route = some raw ∧ TypedRoute.raw route = .ok raw ∧
      (TypedRoute.ofRaw? parser raw = some route ↔ route.Recoverable) := by
  refine ⟨_, raw?_eq route, ?_, recoverable_of_ofRaw?, fun recoverable =>
    recoverable.ofRaw? (raw?_eq route)⟩
  rw [TypedRoute.raw, raw?_eq]

/-- A slug of digits is taken for the identifier of an item, and what follows a `?` in a profile for
a query. -/
example :
    TypedRoute.raw? (itemSlug "42".toList) = some "item/42".toList ∧
      TypedRoute.ofRaw? Url.parse? "item/42".toList = some (item "42".toList) ∧
      TypedRoute.raw? (profile "a?b".toList) = some "user/a?b/profile".toList ∧
      TypedRoute.ofRaw? (ρ := AppRoute) Url.parse? "user/a?b/profile".toList = none := by
  decide +kernel

end Samples.AppRoute
end DeepLink
