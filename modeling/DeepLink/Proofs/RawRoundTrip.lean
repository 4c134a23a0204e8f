import DeepLink.Proofs.ParameterNames
import DeepLink.Proofs.TableRoutes
import Mathlib

/-!
# The raw round trip of route tables

A route that a table read is written as a text that the table reads as the same route
(`encode?_of_read`). Only the pattern of the route's own name can write it, and it writes
the parts and values that it was read from; a pattern before it that accepted them would
have accepted the text that was read in the first place.

A route that was made from supplied values is read back exactly when its pattern could have
read it, and no earlier pattern accepts the text (`decode?_encode?_iff`).
-/
namespace DeepLink.RouteTable

open RouteText (IsPart)

variable {table : RouteTable} {parser : Url.Parser} {named : NamedPattern} {route : TableRoute}
  {parts : List Text} {query : Bindings}

theorem decode?_written (valid : ∀ part ∈ parts, IsPart part) (pairs : List (Text × Text)) :
    table.decode? parser (Mapper.writeRendered table.options ⟨Text.joinWith '/' parts, pairs⟩)
      = table.mapper.decodeParts? parts (.ofPairs pairs) :=
  Mapper.decode?_writeRendered table.mapper parser valid pairs

/-! ### Routes that were read -/

/-- A route that was read from parts is written with these parts, and is read from them with
the values that are written. -/
theorem exists_values_of_decodeParts? (sound : table.Sound)
    (consistent : ∀ named ∈ table.routes, named.ScannerConsistent)
    (decoded : table.mapper.decodeParts? parts query = some route) :
    ∃ values, table.encode? route
        = some (Mapper.writeRendered table.options ⟨Text.joinWith '/' parts, values⟩) ∧
      table.mapper.decodeParts? parts (.ofPairs values) = some route := by
  rw [decodeParts?_eq, List.findSome?_eq_some_iff] at decoded
  obtain ⟨before, named, after, split, read, rejected⟩ := decoded
  have member : named ∈ table.routes := split ▸ List.mem_append_right _ (.head _)
  obtain ⟨values, encoded, held, again⟩ := NamedPattern.registration_encode?_of_decode?
    (sound.patterns named member) (consistent named member) read
  refine ⟨values, ?_, ?_⟩
  · rw [encode?_eq_of_name sound member (NamedPattern.name_of_decode? read), encoded]
    rfl
  · rw [decodeParts?_eq, List.findSome?_eq_some_iff]
    refine ⟨before, named, after, split, again, fun earlier among => ?_⟩
    -- The written values are among those that were read, so an earlier match is not new.
    refine Option.eq_none_iff_forall_not_mem.mpr fun other accepted => ?_
    have included (name value : Text)
        (found : (Bindings.ofPairs values).get? name = some value) :
        query.get? name = some value := held _ (Bindings.mem_of_get?_ofPairs found)
    have contradiction := NamedPattern.registration_decode?_mono included accepted
    rw [rejected earlier among] at contradiction
    cases contradiction

/-- A route that was read from parts is written, and what is written is read as the route. -/
theorem encode?_of_decodeParts? (sound : table.Sound)
    (consistent : ∀ named ∈ table.routes, named.ScannerConsistent)
    (valid : ∀ part ∈ parts, IsPart part)
    (decoded : table.mapper.decodeParts? parts query = some route) :
    ∃ raw, table.encode? route = some raw ∧ table.decode? parser raw = some route := by
  obtain ⟨values, encoded, again⟩ := exists_values_of_decodeParts? sound consistent decoded
  exact ⟨_, encoded, (decode?_written valid values).trans again⟩

/-- Reading a text or a URL, writing the route and reading that text gives the route again. -/
theorem encode?_of_read (parser : Url.Parser) (options : MapperOptions) {entries : List RouteEntry}
    (valid : ValidRoutes entries) :
    ∃ table, make options entries = .ok table ∧
      ((∀ named ∈ table.routes, named.ScannerConsistent) → ∀ route,
        ((∃ raw, table.decode? parser raw = some route) ∨
            ∃ url, table.decodeUrl? url = some route) →
          ∃ raw, table.encode? route = some raw ∧ table.decode? parser raw = some route) := by
  obtain ⟨table, made⟩ := exists_make options valid
  refine ⟨table, made, fun consistent route read => ?_⟩
  have sound := sound_of_make valid made
  rcases read with ⟨raw, decoded⟩ | ⟨url, decoded⟩
  · obtain ⟨parts, query, clean, found⟩ := Mapper.exists_parts_of_decode? decoded
    exact encode?_of_decodeParts? sound consistent clean found
  · obtain ⟨parts, query, clean, found⟩ := Mapper.exists_parts_of_decodeUrl? decoded
    exact encode?_of_decodeParts? sound consistent clean found

/-- Encoding a route that was read from an untidy text. -/
theorem encode?_of_read_users :
    ∃ raw, userTable.encode? userRoute = some raw ∧
      userTable.decode? Url.parse? raw = some userRoute := by
  obtain ⟨table, made, again⟩ := encode?_of_read Url.parse? {} valid_userEntries
  obtain rfl := Except.ok.inj (make_userEntries.symm.trans made)
  have consistent : ∀ named ∈ userTable.routes, named.ScannerConsistent := by decide +kernel
  have read : userTable.decode? Url.parse? "/users//7?x&tab=a%26b".toList = some userRoute := by cbv
  exact again consistent userRoute (.inl ⟨_, read⟩)

/-! ### Routes that were made -/

/-- The pattern of a complete route writes it, with the values of its query in declared order. -/
theorem exists_written (sound : named.pattern.Sound) (consistent : named.ScannerConsistent)
    (complete : Complete named route) :
    ∃ params written, named.encode? route = some params ∧
      named.pattern.template.segments.mapM (Template.writeSegment? params) = some written ∧
      named.pattern.template.render? params
        = some ⟨Text.joinWith '/' written, named.queryPairs route⟩ := by
  obtain ⟨params, encoded, binds, _⟩ := NamedPattern.exists_encode? sound complete.name_eq
    (Bindings.binds_iff.mpr ⟨complete.only, complete.bound⟩)
  have bound : ∀ name ∈ Template.namesOf named.pattern.template.segments
      ++ named.pattern.template.queryKeys, (params.get? name).isSome := fun name member =>
    (Bindings.binds_iff.mp binds).2 name ((consistent.append_right _).subset member)
  obtain ⟨written, pairs, wrote, rendered⟩ := Template.exists_render? bound
  obtain rfl := NamedPattern.query_of_render? sound encoded rendered
  exact ⟨params, written, encoded, wrote, rendered⟩

/-- A table writes a route as the pattern of its name renders it. -/
theorem encode?_of_render? (sound : table.Sound) (member : named ∈ table.routes)
    (same : route.name = named.name) {params : Bindings} {rendered : Rendered}
    (encoded : named.encode? route = some params)
    (wrote : named.pattern.template.render? params = some rendered) :
    table.encode? route = some (Mapper.writeRendered table.options rendered) := by
  rw [encode?_eq_of_name sound member same,
    NamedPattern.registration_encode?_eq_some_iff.mpr ⟨params, encoded, wrote⟩, Option.map_some]

/-- A readable route is written as parts of a path, and these are read as the route. -/
theorem decode?_of_readable (sound : named.pattern.Sound) (consistent : named.ScannerConsistent)
    (complete : Complete named route) (readable : Readable named route) {params : Bindings}
    {written : List Text} {pairs : List (Text × Text)} (encoded : named.encode? route = some params)
    (wrote : named.pattern.template.segments.mapM (Template.writeSegment? params) = some written)
    (rendered : named.pattern.template.render? params = some ⟨Text.joinWith '/' written, pairs⟩) :
    (∀ part ∈ written, IsPart part) ∧
      named.registration.decode? written (.ofPairs pairs) = some route := by
  obtain ⟨_, copied, _⟩ := (NamedPattern.encode?_eq_some_iff sound).mp encoded
  obtain ⟨_, _, _, named_pairs, held⟩ := Template.render?_eq_some_iff.mp rendered
  -- What the bindings of the template give a column is what the route has there.
  have value_eq {column : Text × Text} (member : column ∈ named.columns) {value : Text}
      (found : params.get? column.1 = some value) : route.params.get? column.2 = some value := by
    obtain ⟨other, kept, same⟩ := copied column member
    rw [kept, ← same, found]
  constructor
  · refine Template.forall_written wrote
      (fun text member => Template.isPart_of_literal sound.path_free member) ?_
    intro name member value found
    have declared : name ∈ named.pattern.pathNames := consistent.subset member
    exact readable.path_values name declared value
      (value_eq (NamedPattern.pathColumn_mem declared) found)
  · have filled : ∀ pair ∈ pairs, pair.2 ≠ [] := by
      intro pair member
      have inKeys : pair.1 ∈ named.pattern.queryKeys := by
        have inNames := List.mem_map_of_mem (f := Prod.fst) member
        rwa [named_pairs] at inNames
      obtain ⟨binding, declared, same⟩ := List.mem_map.mp inKeys
      have found := held pair member
      rw [← same] at found
      exact readable.query_values binding declared pair.2
        (value_eq (NamedPattern.queryColumn_mem declared) found)
    refine NamedPattern.registration_decode?_eq_some_iff.mpr
      ⟨_, Template.match?_of_write wrote named_pairs held filled, ?_⟩
    refine (NamedPattern.decode?_eq_some_iff sound).mpr
      ⟨complete.name_eq, fun column member => ?_, complete.only⟩
    obtain ⟨value, kept, found⟩ := copied column member
    refine ⟨value, Bindings.get?_restrict_eq_some_iff.mpr ⟨?_, found⟩, kept⟩
    have source : column.1 ∈ named.pattern.pathNames ++ named.pattern.queryKeys :=
      NamedPattern.sources_columns ▸ List.mem_map_of_mem member
    rcases List.mem_append.mp source with inPath | inQuery
    · exact List.mem_append_left _ (Template.mem_namesOf.mpr (readable.whole _ inPath))
    · exact List.mem_append_right _ inQuery

theorem not_accepts_iff :
    named.registration.decode? parts query = none ↔ ¬ named.Accepts parts query := by
  rw [← NamedPattern.isSome_decode?_iff, Option.not_isSome_iff_eq_none]

/-- A complete route is read from its text exactly if it is readable and no earlier pattern
accepts the text. -/
theorem decode?_complete_iff (parser : Url.Parser) (sound : table.Sound) {i : Nat}
    (found : table.routes[i]? = some named) (consistent : named.ScannerConsistent)
    (complete : Complete named route) :
    ∃ raw, table.encode? route = some raw ∧
      (table.decode? parser raw = some route ↔
        Readable named route ∧
        ∀ j < i, ∀ earlier, table.routes[j]? = some earlier →
          ¬ earlier.Accepts (RouteText.parts (RouteText.split raw).1)
            (Query.values (RouteText.split raw).2)) := by
  have member : named ∈ table.routes := List.mem_of_getElem? found
  have patternSound := sound.patterns named member
  obtain ⟨params, written, encoded, wrote, rendered⟩ :=
    exists_written patternSound consistent complete
  let raw := Mapper.writeRendered table.options
    ⟨Text.joinWith '/' written, named.queryPairs route⟩
  refine ⟨raw, encode?_of_render? sound member complete.name_eq encoded rendered, ?_⟩
  have exact_of_readable (readable : Readable named route) :
      table.decode? parser raw = some route ↔
        ∀ j < i, ∀ earlier, table.routes[j]? = some earlier →
          ¬ earlier.Accepts (RouteText.parts (RouteText.split raw).1)
            (Query.values (RouteText.split raw).2) := by
    obtain ⟨clean, value⟩ :=
      decode?_of_readable patternSound consistent complete readable encoded wrote rendered
    obtain ⟨path, halves, same⟩ := Mapper.split_writeRendered table.options
      ⟨Text.joinWith '/' written, named.queryPairs route⟩ (RouteText.not_mem_joinWith clean)
    have parts_eq : RouteText.parts (RouteText.split raw).1 = written := by
      rw [halves, same, RouteText.parts_joinWith clean]
    have values_eq : Query.values (RouteText.split raw).2
        = .ofPairs (named.queryPairs route) := by
      rw [halves, Query.values_encodePairs]
    rw [decode?_written clean, decodeParts?_eq, parts_eq, values_eq,
      findSome?_eq_some_iff_before (.of_map _ sound.names_nodup) found value
        fun other among => eq_of_decode? sound member complete.name_eq among]
    simp only [not_accepts_iff]
  constructor
  · intro read
    have readable := readable_of_read sound member complete.name_eq read
    exact ⟨readable, (exact_of_readable readable).mp read⟩
  · rintro ⟨readable, rejected⟩
    exact (exact_of_readable readable).mpr rejected

/-- A route made from supplied values is written, and its text is read as the route exactly
if every name of the path is a whole segment, every value can stand where it is written and
no earlier pattern accepts the text. -/
theorem decode?_encode?_iff (parser : Url.Parser) (options : MapperOptions)
    {entries : List RouteEntry} (valid : ValidRoutes entries) :
    ∃ table, make options entries = .ok table ∧
      ∀ (i : Nat) (named : NamedPattern), table.routes[i]? = some named → named.ScannerConsistent →
        ∀ supplied route, table.route named.name supplied = .ok route →
          ∃ raw, table.encode? route = some raw ∧
            (table.decode? parser raw = some route ↔
              Readable named route ∧
              ∀ j < i, ∀ earlier : NamedPattern, table.routes[j]? = some earlier →
                ¬ earlier.Accepts (RouteText.parts (RouteText.split raw).1)
                  (Query.values (RouteText.split raw).2)) := by
  obtain ⟨table, made⟩ := exists_make options valid
  refine ⟨table, made, fun i named found consistent supplied route supply => ?_⟩
  have sound := sound_of_make valid made
  exact decode?_complete_iff parser sound found consistent
    (complete_of_route sound (List.mem_of_getElem? found) supply)

/-- A route with a value that has to be escaped is readable, and is read from its text. -/
theorem decode?_encode?_users :
    ∃ (i : Nat) (named : NamedPattern) (raw : Text),
      userTable.routes[i]? = some named ∧ Readable named userRoute ∧
      userTable.encode? userRoute = some raw ∧
      userTable.decode? Url.parse? raw = some userRoute := by
  obtain ⟨table, made, exact⟩ := decode?_encode?_iff Url.parse? {} valid_userEntries
  obtain rfl := Except.ok.inj (make_userEntries.symm.trans made)
  have consistent : ∀ named ∈ userTable.routes, named.ScannerConsistent := by decide +kernel
  have supplied : userTable.route "user".toList
      [("t".toList, "a&b".toList), ("id".toList, "7".toList)] = .ok userRoute := by cbv
  obtain ⟨raw, encoded, back⟩ :=
    exact 1 _ rfl (consistent _ (.tail _ (.head _))) _ userRoute supplied
  have written : userTable.encode? userRoute = some "users/7?tab=a%26b".toList := by cbv
  obtain rfl := Option.some.inj (written.symm.trans encoded)
  have read : userTable.decode? Url.parse? "users/7?tab=a%26b".toList = some userRoute := by cbv
  exact ⟨1, _, _, rfl, (back.mp read).1, written, read⟩

end DeepLink.RouteTable
