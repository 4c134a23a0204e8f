import DeepLink.Proofs.MapperLaws
import DeepLink.Proofs.TableLaws
import DeepLink.Url.Reading
import Mathlib

/-!
# Routes of a table

A route is complete for a pattern if it has the name of the pattern and exactly the declared
parameters. It is readable if each of its values can stand where the pattern puts it.

- `RouteTable.route` makes from supplied values the complete route with these values, and
  nothing else (`route_eq_ok_iff`).
- A table reads only routes that are complete and readable for one of its patterns, and makes
  them again from their own parameters (`complete_of_read`).
-/
namespace DeepLink.RouteTable

open RouteText (IsPart)

variable {table : RouteTable} {parser : Url.Parser} {named : NamedPattern} {route : TableRoute}
  {parts : List Text} {query : Bindings}

/-- What lets a pattern read a route with the given parameters: each name of the path is a
whole segment, and each value can stand where it has to be written. -/
structure Readable (named : NamedPattern) (route : TableRoute) : Prop where
  whole : ∀ name ∈ named.pattern.pathNames, .placeholder name ∈ named.pattern.template.segments
  path_values : ∀ name ∈ named.pattern.pathNames, ∀ value,
    route.params.get? name = some value → value ≠ [] ∧ '/' ∉ value ∧ '?' ∉ value
  query_values : ∀ binding ∈ named.pattern.query, ∀ value,
    route.params.get? binding.name = some value → value ≠ []

/-- A route of a pattern with exactly the parameters that the pattern declares. -/
structure Complete (named : NamedPattern) (route : TableRoute) : Prop where
  name_eq : route.name = named.name
  bound : ∀ name ∈ named.pattern.names, (route.params.get? name).isSome
  only : ∀ name, (route.params.get? name).isSome → name ∈ named.pattern.names

/-! ### A table of users

Its second pattern has a name in the path and a query key under another name. -/

def userEntries : List RouteEntry :=
  [⟨"home".toList, "home".toList⟩, ⟨"user".toList, "users/:id?tab=$\x7bt\x7d".toList⟩]

def userTable : RouteTable :=
  { routes :=
      [⟨"home".toList, "home".toList, [], []⟩,
        ⟨"user".toList, "users/:id".toList, ["id".toList], [⟨"tab".toList, "t".toList⟩]⟩]
    options := {} }

def userRoute : TableRoute :=
  ⟨"user".toList, .ofPairs [("id".toList, "7".toList), ("t".toList, "a&b".toList)]⟩

theorem valid_userEntries : ValidRoutes userEntries := by decide +kernel

theorem make_userEntries : make {} userEntries = .ok userTable := by cbv

/-! ### Routes that are made -/

theorem find?_of_name (sound : table.Sound) (member : named ∈ table.routes) :
    table.routes.find? (·.name = named.name) = some named := by
  cases found : table.routes.find? (·.name = named.name) with
  | none => exact absurd (List.find?_eq_none.mp found named member) (by simp)
  | some other =>
    rw [eq_of_name sound member (List.mem_of_find?_eq_some found)
      (by simpa using List.find?_some found)]

/-- Making a route moves each declared name to itself. -/
theorem route_eq_ok_iff_move? (sound : table.Sound) (member : named ∈ table.routes)
    {supplied : List (Text × Text)} :
    table.route named.name supplied = .ok route ↔
      route.name = named.name ∧
        (Bindings.ofPairs supplied).move? (named.pattern.names.map fun name => (name, name))
          = some route.params := by
  obtain ⟨name, params⟩ := route
  rw [Bindings.move?, Option.map_eq_some_iff, List.mapM_map, ← exists_and_left]
  simp only [RouteTable.route, find?_of_name sound member, bind_eq_ok_iff, pure, Except.pure,
    Except.ok.injEq, TableRoute.mk.injEq]
  refine exists_congr fun pairs => ?_
  rw [mapM_eq_ok_iff_mapM
    (g := fun param => ((Bindings.ofPairs supplied).get? param).map ((param, ·)))]
  · simp only [Function.comp_def, eq_comm (a := name), and_left_comm]
  · intro param pair
    cases (Bindings.ofPairs supplied).get? param <;> simp

/-- The route made from supplied values is the complete one with these values. -/
theorem route_eq_ok_iff (sound : table.Sound) (member : named ∈ table.routes)
    {supplied : List (Text × Text)} :
    table.route named.name supplied = .ok route ↔
      Complete named route ∧ ∀ name ∈ named.pattern.names,
        route.params.get? name = (Bindings.ofPairs supplied).get? name := by
  have targets : (named.pattern.names.map fun name => (name, name)).map Prod.snd
      = named.pattern.names := by simp [Function.comp_def]
  have distinct := (sound.patterns named member).names_nodup
  rw [route_eq_ok_iff_move? sound member, Bindings.move?_eq_some_iff (targets.symm ▸ distinct),
    targets, List.forall_mem_map]
  constructor
  · rintro ⟨same, copied, only⟩
    refine ⟨⟨same, fun name declared => ?_, only⟩, fun name declared => ?_⟩
    all_goals obtain ⟨value, given, kept⟩ := copied name declared
    · rw [kept]
      rfl
    · rw [kept, given]
  · rintro ⟨complete, same⟩
    refine ⟨complete.name_eq, fun name declared => ?_, complete.only⟩
    obtain ⟨value, kept⟩ := Option.isSome_iff_exists.mp (complete.bound name declared)
    exact ⟨value, (same name declared).symm.trans kept, kept⟩

/-- A route that is made is complete. -/
theorem complete_of_route (sound : table.Sound) (member : named ∈ table.routes)
    {supplied : List (Text × Text)} (made : table.route named.name supplied = .ok route) :
    Complete named route := ((route_eq_ok_iff sound member).mp made).1

/-! ### Routes that are read -/

/-- What was read from parts is complete. -/
theorem complete_of_decode? (sound : named.pattern.Sound)
    (decoded : named.registration.decode? parts query = some route) : Complete named route := by
  obtain ⟨params, _, moved⟩ := NamedPattern.registration_decode?_eq_some_iff.mp decoded
  obtain ⟨same, copied, only⟩ := (NamedPattern.decode?_eq_some_iff sound).mp moved
  refine ⟨same, fun name declared => ?_, only⟩
  rw [← NamedPattern.targets_columns] at declared
  obtain ⟨column, member, rfl⟩ := List.mem_map.mp declared
  obtain ⟨value, _, kept⟩ := copied column member
  exact Option.isSome_iff_exists.mpr ⟨value, kept⟩

/-- What was read from parts is readable. -/
theorem readable_of_decode? (sound : named.pattern.Sound) (valid : ∀ part ∈ parts, IsPart part)
    (decoded : named.registration.decode? parts query = some route) : Readable named route := by
  obtain ⟨params, matched, moved⟩ := NamedPattern.registration_decode?_eq_some_iff.mp decoded
  obtain ⟨path, values, captured, required, held, rfl⟩ := Template.match?_eq_some_iff.mp matched
  obtain ⟨_, copied, _⟩ := (NamedPattern.decode?_eq_some_iff sound).mp moved
  have apart := (List.nodup_append'.mp sound.bound_nodup).2.2
  -- A name of the path is no query key, so its value was captured.
  have fromPath (name : Text) (declared : name ∈ named.pattern.pathNames) :
      ∃ value, route.params.get? name = some value ∧ (name, value) ∈ path := by
    obtain ⟨value, found, kept⟩ := copied _ (NamedPattern.pathColumn_mem declared)
    refine ⟨value, kept, ?_⟩
    rcases List.mem_append.mp (Bindings.mem_of_get?_ofPairs found) with inPath | inQuery
    · exact inPath
    · have inKeys := List.mem_map_of_mem (f := Prod.fst) inQuery
      rw [required] at inKeys
      exact absurd inKeys (apart declared)
  -- A query value is bound after the path, and replaces what the path may have bound its key to.
  have fromQuery (binding : QueryBinding) (declared : binding ∈ named.pattern.query) :
      ∃ value, route.params.get? binding.name = some value ∧ (binding.key, value) ∈ values := by
    obtain ⟨value, found, kept⟩ := copied _ (NamedPattern.queryColumn_mem declared)
    have inKeys : binding.key ∈ values.map Prod.fst :=
      required ▸ List.mem_map_of_mem (f := (·.key)) declared
    obtain ⟨last, bound⟩ := Option.isSome_iff_exists.mp (Bindings.isSome_get?_ofPairs.mpr inKeys)
    rw [Bindings.get?_ofPairs_append, bound, Option.some_or] at found
    obtain rfl := Option.some.inj found
    exact ⟨last, kept, Bindings.mem_of_get?_ofPairs bound⟩
  constructor
  · intro name declared
    obtain ⟨value, _, inPath⟩ := fromPath name declared
    exact Template.mem_namesOf.mp
      (Template.names_of_capture? captured ▸ List.mem_map_of_mem (f := Prod.fst) inPath)
  · intro name declared value found
    obtain ⟨other, kept, inPath⟩ := fromPath name declared
    obtain rfl := Option.some.inj (found.symm.trans kept)
    exact valid _ (Template.mem_parts_of_capture? captured inPath)
  · intro binding declared value found
    obtain ⟨other, kept, inQuery⟩ := fromQuery binding declared
    obtain rfl := Option.some.inj (found.symm.trans kept)
    exact (held _ inQuery).2

/-- What a table read from a text or a URL, one of its patterns read from parts of a path. -/
theorem exists_reader
    (read : (∃ raw, table.decode? parser raw = some route) ∨
      ∃ url, table.decodeUrl? url = some route) :
    ∃ named ∈ table.routes, ∃ parts query, (∀ part ∈ parts, IsPart part) ∧
      named.registration.decode? parts query = some route := by
  obtain ⟨parts, query, clean, decoded⟩ : ∃ parts query, (∀ part ∈ parts, IsPart part) ∧
      table.mapper.decodeParts? parts query = some route := by
    rcases read with ⟨raw, decoded⟩ | ⟨url, decoded⟩
    · exact Mapper.exists_parts_of_decode? decoded
    · exact Mapper.exists_parts_of_decodeUrl? decoded
  rw [decodeParts?_eq] at decoded
  obtain ⟨named, member, here⟩ := List.exists_of_findSome?_eq_some decoded
  exact ⟨named, member, parts, query, clean, here⟩

/-- Only the pattern of its name reads a route. -/
theorem eq_of_decode? (sound : table.Sound) (member : named ∈ table.routes)
    (same : route.name = named.name) {other : NamedPattern} (among : other ∈ table.routes)
    (decoded : other.registration.decode? parts query = some route) : other = named :=
  eq_of_name sound member among ((NamedPattern.name_of_decode? decoded).symm.trans same)

/-- However a text was read as a route, the pattern of the name read parts without delimiters. -/
theorem readable_of_read (sound : table.Sound) (member : named ∈ table.routes)
    (same : route.name = named.name) {raw : Text} (read : table.decode? parser raw = some route) :
    Readable named route := by
  obtain ⟨other, among, parts, query, clean, decoded⟩ := exists_reader (.inl ⟨raw, read⟩)
  obtain rfl := eq_of_decode? sound member same among decoded
  exact readable_of_decode? (sound.patterns other among) clean decoded

/-- A route that was read is complete and readable for a pattern of the table. If names are
distinct, it is made again from its own parameters in any order. -/
theorem complete_of_read (parser : Url.Parser) {options : MapperOptions} {entries : List RouteEntry}
    (made : make options entries = .ok table)
    (read : (∃ raw, table.decode? parser raw = some route) ∨
      ∃ url, table.decodeUrl? url = some route) :
    (∃ named ∈ table.routes, Complete named route ∧ Readable named route) ∧
      ((entries.map (·.name)).Nodup → ∀ supplied, supplied.Perm route.params.entries →
        table.route route.name supplied = .ok route) := by
  obtain ⟨named, member, parts, query, clean, decoded⟩ := exists_reader read
  have patterns := patterns_sound made
  have complete := complete_of_decode? (patterns named member) decoded
  refine ⟨⟨named, member, complete, readable_of_decode? (patterns named member) clean decoded⟩,
    fun distinct supplied same => ?_⟩
  have sound : table.Sound :=
    ⟨(names_of_related (make_eq_ok_iff.mp made).2).symm ▸ distinct, patterns⟩
  rw [complete.name_eq, route_eq_ok_iff sound member]
  exact ⟨complete, fun name _ => (Bindings.get?_ofPairs_of_perm same name).symm⟩

/-- A route read from an untidy text is made from its two parameters, given in another order. -/
theorem complete_of_read_users :
    (∃ named ∈ userTable.routes, Complete named userRoute ∧ Readable named userRoute) ∧
      userTable.route "user".toList [("t".toList, "a&b".toList), ("id".toList, "7".toList)]
        = .ok userRoute := by
  have read : userTable.decode? Url.parse? "/users//7?x&tab=a%26b".toList = some userRoute := by cbv
  obtain ⟨readable, again⟩ := complete_of_read Url.parse? make_userEntries (.inl ⟨_, read⟩)
  exact ⟨readable, again (by decide) _ (by decide +kernel)⟩

end DeepLink.RouteTable
