import DeepLink.Table
import DeepLink.Config.Validation
import DeepLink.Proofs.Matching
import DeepLink.Proofs.ParsedPattern

/-!
# Laws of route tables

Reading a route from bindings and giving the bindings of a route are one operation, moving
values from one name to another (`Bindings.move?`), used in both directions.
-/
namespace DeepLink

/-! ### Moving values -/

namespace Bindings

/-- The values of the first names of columns, bound to their second names. -/
def move? (source : Bindings) (columns : List (Text × Text)) : Option Bindings :=
  (columns.mapM fun column => (source.get? column.1).map ((column.2, ·))).map .ofPairs

variable {source target : Bindings} {columns : List (Text × Text)}

theorem mapM_columns_eq_some_iff {pairs : List (Text × Text)} :
    columns.mapM (fun column => (source.get? column.1).map ((column.2, ·))) = some pairs ↔
      (∀ column ∈ columns, (source.get? column.1).isSome) ∧
        pairs = columns.map fun column => (column.2, (source.get? column.1).getD []) := by
  rw [mapM_eq_some_iff]
  induction columns generalizing pairs with
  | nil => simp
  | cons column rest ih =>
    simp only [List.forall₂_cons_left_iff, ih, List.forall_mem_cons, List.map_cons]
    cases source.get? column.1 <;> simp

/-- With distinct targets, moving copies the value of each column and binds nothing else. -/
theorem move?_eq_some_iff (distinct : (columns.map Prod.snd).Nodup) :
    source.move? columns = some target ↔
      (∀ column ∈ columns, ∃ value, source.get? column.1 = some value ∧
        target.get? column.2 = some value) ∧
      ∀ name, (target.get? name).isSome → name ∈ columns.map Prod.snd := by
  let pairs := columns.map fun column => (column.2, (source.get? column.1).getD [])
  have names : pairs.map Prod.fst = columns.map Prod.snd := by simp [pairs]
  have moved (column : Text × Text) (member : column ∈ columns) (value : Text)
      (found : source.get? column.1 = some value) : (ofPairs pairs).get? column.2 = some value := by
    rw [get?_ofPairs_eq_some_iff (names ▸ distinct)]
    exact List.mem_map.mpr ⟨column, member, by simp [found]⟩
  simp only [move?, Option.map_eq_some_iff, mapM_columns_eq_some_iff]
  constructor
  · rintro ⟨_, ⟨bound, rfl⟩, rfl⟩
    refine ⟨fun column member => ?_, fun name held => ?_⟩
    · obtain ⟨value, found⟩ := Option.isSome_iff_exists.mp (bound column member)
      exact ⟨value, found, moved column member value found⟩
    · exact names ▸ isSome_get?_ofPairs.mp held
  · rintro ⟨copied, only⟩
    refine ⟨pairs, ⟨fun column member => ?_, rfl⟩, ext_get? fun name => ?_⟩
    · obtain ⟨value, found, _⟩ := copied column member
      simp [found]
    · by_cases inside : name ∈ columns.map Prod.snd
      · obtain ⟨column, member, rfl⟩ := List.mem_map.mp inside
        obtain ⟨value, found, held⟩ := copied column member
        rw [held, moved column member value found]
      -- A name outside the columns is bound on neither side.
      · have left : (ofPairs pairs).get? name = none := by
          rw [← Option.not_isSome_iff_eq_none, isSome_get?_ofPairs, names]
          exact inside
        have right : target.get? name = none := by
          rw [← Option.not_isSome_iff_eq_none]
          exact fun held => inside (only name held)
        rw [left, right]

end Bindings

namespace NamedPattern

/-! ### Bindings and parameters -/

/-- Which bound name goes with which declared name. -/
def columns (named : NamedPattern) : List (Text × Text) :=
  named.pattern.pathNames.map (fun name => (name, name))
    ++ named.pattern.query.map fun binding => (binding.key, binding.name)

variable {named : NamedPattern} {params : Bindings} {route : TableRoute}

theorem targets_columns : named.columns.map Prod.snd = named.pattern.names := by
  simp [columns, Pattern.names, Function.comp_def]

theorem sources_columns :
    named.columns.map Prod.fst = named.pattern.pathNames ++ named.pattern.queryKeys := by
  simp [columns, Pattern.queryKeys, Function.comp_def]

theorem pathColumn_mem {name : Text} (declared : name ∈ named.pattern.pathNames) :
    (name, name) ∈ named.columns :=
  List.mem_append_left _ (List.mem_map_of_mem declared)

theorem queryColumn_mem {binding : QueryBinding} (declared : binding ∈ named.pattern.query) :
    (binding.key, binding.name) ∈ named.columns :=
  List.mem_append_right _ (List.mem_map.mpr ⟨binding, declared, rfl⟩)

theorem decode?_eq :
    named.decode? params = (params.move? named.columns).map fun moved => ⟨named.name, moved⟩ := by
  simp only [decode?, Bindings.move?, columns, List.mapM_append, List.mapM_map, Function.comp_def,
    Option.bind_eq_bind, Option.pure_def, Option.map_map]
  -- Path and query are two traversals in the program and one list of columns here.
  cases named.pattern.pathNames.mapM fun name => (params.get? name).map ((name, ·)) with
  | none => rfl
  | some path =>
    cases named.pattern.query.mapM fun binding =>
      (params.get? binding.key).map ((binding.name, ·)) <;> rfl

theorem encode?_eq (same : route.name = named.name) :
    named.encode? route = route.params.move? (named.columns.map Prod.swap) := by
  simp only [encode?, if_pos same, Bindings.move?, columns, List.map_append, List.map_map,
    List.mapM_append, List.mapM_map, Function.comp_def, Prod.swap_prod_mk, Option.bind_eq_bind,
    Option.pure_def]
  cases named.pattern.pathNames.mapM fun name => (route.params.get? name).map ((name, ·)) with
  | none => rfl
  | some path =>
    cases named.pattern.query.mapM fun binding =>
      (route.params.get? binding.name).map ((binding.key, ·)) <;> rfl

theorem name_of_encode? (encoded : named.encode? route = some params) :
    route.name = named.name := by
  by_cases same : route.name = named.name
  · exact same
  · simp [encode?, same] at encoded

theorem decode?_eq_some_iff (sound : named.pattern.Sound) :
    named.decode? params = some route ↔
      route.name = named.name ∧
      (∀ column ∈ named.columns, ∃ value, params.get? column.1 = some value ∧
        route.params.get? column.2 = some value) ∧
      ∀ name, (route.params.get? name).isSome → name ∈ named.pattern.names := by
  have distinct : (named.columns.map Prod.snd).Nodup := targets_columns ▸ sound.names_nodup
  rw [decode?_eq, Option.map_eq_some_iff, ← targets_columns, ← Bindings.move?_eq_some_iff distinct]
  constructor
  · rintro ⟨moved, found, rfl⟩
    exact ⟨rfl, found⟩
  · rintro ⟨same, found⟩
    exact ⟨route.params, found, by rw [← same]⟩

theorem encode?_eq_some_iff (sound : named.pattern.Sound) :
    named.encode? route = some params ↔
      route.name = named.name ∧
      (∀ column ∈ named.columns, ∃ value, route.params.get? column.2 = some value ∧
        params.get? column.1 = some value) ∧
      ∀ name, (params.get? name).isSome →
        name ∈ named.pattern.pathNames ++ named.pattern.queryKeys := by
  have targets : (named.columns.map Prod.swap).map Prod.snd = named.columns.map Prod.fst := by simp
  have distinct : ((named.columns.map Prod.swap).map Prod.snd).Nodup :=
    targets ▸ sources_columns ▸ sound.bound_nodup
  constructor
  · intro encoded
    have same := name_of_encode? encoded
    rw [encode?_eq same, Bindings.move?_eq_some_iff distinct, targets, sources_columns] at encoded
    exact ⟨same, fun column member => encoded.1 _ (List.mem_map_of_mem member), encoded.2⟩
  · rintro ⟨same, copied, only⟩
    rw [encode?_eq same, Bindings.move?_eq_some_iff distinct, targets, sources_columns]
    refine ⟨fun swapped member => ?_, only⟩
    obtain ⟨column, among, rfl⟩ := List.mem_map.mp member
    exact copied column among

/-! ### Pairs of the query -/

/-- The values of the query of a route under their keys, in declared order. -/
def queryPairs (named : NamedPattern) (route : TableRoute) : List (Text × Text) :=
  named.pattern.query.map fun binding => (binding.key, (route.params.get? binding.name).getD [])

theorem query_of_render? (sound : named.pattern.Sound) (encoded : named.encode? route = some params)
    {path : Text} {pairs : List (Text × Text)}
    (rendered : named.pattern.template.render? params = some ⟨path, pairs⟩) :
    pairs = named.queryPairs route := by
  obtain ⟨_, _, _, keys, found⟩ := Template.render?_eq_some_iff.mp rendered
  obtain ⟨_, copied, _⟩ := (encode?_eq_some_iff sound).mp encoded
  have bound : ∀ binding ∈ named.pattern.query,
      params.get? binding.key = route.params.get? binding.name := by
    intro binding declared
    obtain ⟨value, held, same⟩ := copied _ (queryColumn_mem declared)
    rw [held, same]
  calc pairs = pairs.map fun pair => (pair.1, (params.get? pair.1).getD []) := by
        refine (map_eq_self fun pair member => ?_).symm
        rw [found pair member, Option.getD_some]
    _ = (pairs.map Prod.fst).map fun key => (key, (params.get? key).getD []) := by
        rw [List.map_map]
        rfl
    _ = named.queryPairs route := by
        have declared : pairs.map Prod.fst = named.pattern.query.map (·.key) := keys
        rw [declared, List.map_map]
        exact List.map_congr_left fun binding member => by simp [bound binding member]

/-! ### One registration -/

/-- The template binds declared names of the path only, in the order of their declaration. -/
def ScannerConsistent (named : NamedPattern) : Prop :=
  named.pattern.template.placeholders.Sublist named.pattern.pathNames

instance (named : NamedPattern) : Decidable named.ScannerConsistent :=
  inferInstanceAs (Decidable (List.Sublist _ _))

variable {parts : List Text} {query : Bindings}

theorem registration_template : named.registration.template = named.pattern.template :=
  Template.compile_text named.pattern.path named.pattern.queryKeys

theorem registration_decode?_eq_some_iff :
    named.registration.decode? parts query = some route ↔
      ∃ params, named.pattern.template.match? parts query = some params ∧
        named.decode? params = some route := by
  rw [Registration.decode?, registration_template]
  simp only [Option.bind_eq_bind, Option.bind_eq_some_iff]
  rfl

theorem registration_encode?_eq_some_iff {rendered : Rendered} :
    named.registration.encode? route = some rendered ↔
      ∃ params, named.encode? route = some params ∧
        named.pattern.template.render? params = some rendered := by
  rw [Registration.encode?, registration_template]
  simp only [Option.bind_eq_bind, Option.bind_eq_some_iff]
  rfl

theorem distinct_template (sound : named.pattern.Sound) (consistent : named.ScannerConsistent) :
    named.pattern.template.Distinct :=
  (consistent.append_right _).nodup sound.bound_nodup

/-- Encoding a route that was read gives back the parts and values it was read from, and
these are read as the same route. -/
theorem registration_encode?_of_decode? (sound : named.pattern.Sound)
    (consistent : named.ScannerConsistent)
    (decoded : named.registration.decode? parts query = some route) :
    ∃ values, named.registration.encode? route = some ⟨Text.joinWith '/' parts, values⟩ ∧
      (∀ pair ∈ values, query.get? pair.1 = some pair.2) ∧
      named.registration.decode? parts (.ofPairs values) = some route := by
  obtain ⟨params, matched, moved⟩ := registration_decode?_eq_some_iff.mp decoded
  obtain ⟨path, values, captured, required, held, rfl⟩ := Template.match?_eq_some_iff.mp matched
  obtain ⟨same, copied, only⟩ := (decode?_eq_some_iff sound).mp moved
  have names := Template.names_of_match named.pattern.template captured required
  -- The same columns are used in both directions, so every value goes back to its place.
  have encoded : named.encode? route = some (.ofPairs (path ++ values)) := by
    refine (encode?_eq_some_iff sound).mpr ⟨same, fun column member => ?_, fun name held => ?_⟩
    · obtain ⟨value, left, right⟩ := copied column member
      exact ⟨value, right, left⟩
    · have inside := Bindings.isSome_get?_ofPairs.mp held
      rw [names] at inside
      exact (consistent.append_right _).subset inside
  obtain ⟨placeholders, _, apart⟩ := List.nodup_append'.mp (distinct_template sound consistent)
  have rendered := Template.render?_of_capture? placeholders (fun _ name key => apart name key)
    captured required fun pair member => (held pair member).1
  -- The values were accepted once, so none of them is empty.
  have again : named.pattern.template.match? parts (.ofPairs values)
      = some (.ofPairs (path ++ values)) := by
    have keys : (values.map Prod.fst).Nodup :=
      required ▸ (List.nodup_append'.mp sound.bound_nodup).2.1
    refine Template.match?_eq_some_iff.mpr ⟨path, values, captured, required, ?_, rfl⟩
    intro pair member
    exact ⟨(Bindings.get?_ofPairs_eq_some_iff keys).mpr member, (held pair member).2⟩
  exact ⟨values, registration_encode?_eq_some_iff.mpr ⟨_, encoded, rendered⟩,
    fun pair member => (held pair member).1,
    registration_decode?_eq_some_iff.mpr ⟨_, again, moved⟩⟩

/-- More query values never spoil a match. -/
theorem registration_decode?_mono {larger : Bindings}
    (included : ∀ name value, query.get? name = some value → larger.get? name = some value)
    (decoded : named.registration.decode? parts query = some route) :
    named.registration.decode? parts larger = some route := by
  obtain ⟨params, matched, moved⟩ := registration_decode?_eq_some_iff.mp decoded
  obtain ⟨path, values, captured, required, held, bound⟩ := Template.match?_eq_some_iff.mp matched
  refine registration_decode?_eq_some_iff.mpr ⟨params, ?_, moved⟩
  refine Template.match?_eq_some_iff.mpr ⟨path, values, captured, required, ?_, bound⟩
  intro pair member
  exact ⟨included _ _ (held pair member).1, (held pair member).2⟩

theorem name_of_decode? (decoded : named.registration.decode? parts query = some route) :
    route.name = named.name := by
  obtain ⟨params, _, moved⟩ := registration_decode?_eq_some_iff.mp decoded
  rw [decode?_eq] at moved
  obtain ⟨_, _, rfl⟩ := Option.map_eq_some_iff.mp moved
  rfl

/-- A pattern matches parts and query values and binds every name that it declares. -/
def Accepts (named : NamedPattern) (parts : List Text) (query : Bindings) : Prop :=
  ∃ params, named.pattern.template.match? parts query = some params ∧
    ∀ name ∈ named.pattern.pathNames ++ named.pattern.queryKeys, (params.get? name).isSome

theorem isSome_move?_iff {source : Bindings} {columns : List (Text × Text)} :
    (source.move? columns).isSome ↔ ∀ column ∈ columns, (source.get? column.1).isSome := by
  rw [Bindings.move?, Option.isSome_map, Option.isSome_iff_exists]
  simp only [Bindings.mapM_columns_eq_some_iff]
  exact ⟨fun ⟨_, bound, _⟩ => bound, fun bound => ⟨_, bound, rfl⟩⟩

theorem isSome_decode?_iff :
    (named.registration.decode? parts query).isSome ↔ named.Accepts parts query := by
  -- Decoding asks the parameters for exactly the declared names.
  have bound (params : Bindings) : (named.decode? params).isSome ↔
      ∀ name ∈ named.pattern.pathNames ++ named.pattern.queryKeys, (params.get? name).isSome := by
    rw [decode?_eq, Option.isSome_map, isSome_move?_iff, ← sources_columns, List.forall_mem_map]
  constructor
  · intro read
    obtain ⟨route, decoded⟩ := Option.isSome_iff_exists.mp read
    obtain ⟨params, matched, moved⟩ := registration_decode?_eq_some_iff.mp decoded
    exact ⟨params, matched, (bound params).mp (moved ▸ rfl)⟩
  · rintro ⟨params, matched, all⟩
    obtain ⟨route, moved⟩ := Option.isSome_iff_exists.mp ((bound params).mpr all)
    rw [registration_decode?_eq_some_iff.mpr ⟨params, matched, moved⟩]
    rfl

end NamedPattern

/-! ### Valid tables -/

/-- Routes with distinct names that are not empty, and with patterns that can be read. -/
def ValidRoutes (entries : List RouteEntry) : Prop :=
  ({ routes := entries } : RouterConfig).problems = []

instance (entries : List RouteEntry) : Decidable (ValidRoutes entries) :=
  inferInstanceAs (Decidable (_ = _))

theorem nameProblems_eq_nil_iff {earlier : List Text} {index : Nat} {name : Text} :
    RouterConfig.nameProblems earlier index name = [] ↔ name ≠ [] ∧ name ∉ earlier := by
  unfold RouterConfig.nameProblems
  split
  · simp_all
  · split <;> simp_all

theorem patternProblems_eq_nil_iff {entry : RouteEntry} :
    RouterConfig.patternProblems entry = [] ↔
      ∃ pattern, Pattern.parse entry.pattern = .ok pattern := by
  unfold RouterConfig.patternProblems
  cases Pattern.parse entry.pattern <;> simp

theorem routeProblems_eq_nil_iff {earlier : List Text} {index : Nat} {entries : List RouteEntry} :
    RouterConfig.routeProblems earlier index entries = [] ↔
      (entries.map (·.name)).Nodup ∧ ∀ entry ∈ entries, entry.name ≠ [] ∧ entry.name ∉ earlier ∧
        ∃ pattern, Pattern.parse entry.pattern = .ok pattern := by
  induction entries generalizing earlier index with
  | nil => simp [RouterConfig.routeProblems]
  | cons entry rest ih =>
    simp only [RouterConfig.routeProblems, List.append_eq_nil_iff, nameProblems_eq_nil_iff,
      patternProblems_eq_nil_iff, ih, List.map_cons, List.nodup_cons, List.forall_mem_cons]
    -- The names seen so far grow with each entry, and this keeps the later names apart from it.
    constructor
    · rintro ⟨⟨⟨filled, unseen⟩, parsed⟩, distinct, others⟩
      simp only [List.mem_cons, not_or] at others
      refine ⟨⟨fun member => ?_, distinct⟩, ⟨filled, unseen, parsed⟩, fun other member => ?_⟩
      · obtain ⟨other, among, same⟩ := List.mem_map.mp member
        exact (others other among).2.1.1 same
      · obtain ⟨otherFilled, ⟨_, otherUnseen⟩, otherParsed⟩ := others other member
        exact ⟨otherFilled, otherUnseen, otherParsed⟩
    · rintro ⟨⟨fresh, distinct⟩, ⟨filled, unseen, parsed⟩, others⟩
      refine ⟨⟨⟨filled, unseen⟩, parsed⟩, distinct, fun other member => ?_⟩
      obtain ⟨otherFilled, otherUnseen, otherParsed⟩ := others other member
      refine ⟨otherFilled, fun seen => ?_, otherParsed⟩
      rcases List.mem_cons.mp seen with same | before
      · exact fresh (same ▸ List.mem_map_of_mem member)
      · exact otherUnseen before

theorem validRoutes_iff {entries : List RouteEntry} :
    ValidRoutes entries ↔ (entries.map (·.name)).Nodup ∧ ∀ entry ∈ entries, entry.name ≠ [] ∧
      ∃ pattern, Pattern.parse entry.pattern = .ok pattern := by
  have checked : ValidRoutes entries ↔ RouterConfig.routeProblems [] 0 entries = [] := by
    simp [ValidRoutes, RouterConfig.problems, RouterConfig.defaultProblems]
  simp [checked, routeProblems_eq_nil_iff]

theorem ValidRoutes.perm {entries reordered : List RouteEntry} (valid : ValidRoutes entries)
    (same : entries.Perm reordered) : ValidRoutes reordered := by
  obtain ⟨distinct, each⟩ := validRoutes_iff.mp valid
  exact validRoutes_iff.mpr
    ⟨(same.map _).nodup_iff.mp distinct, fun entry member => each entry (same.mem_iff.mpr member)⟩

namespace RouteTable

/-- A table of patterns that were read, under distinct names. -/
structure Sound (table : RouteTable) : Prop where
  names_nodup : (table.routes.map (·.name)).Nodup
  patterns : ∀ named ∈ table.routes, named.pattern.Sound

variable {table : RouteTable} {options : MapperOptions} {entries : List RouteEntry}

theorem ofEntry_eq_ok_iff {entry : RouteEntry} {named : NamedPattern} :
    NamedPattern.ofEntry entry = .ok named ↔
      named.name = entry.name ∧ Pattern.parse entry.pattern = .ok named.pattern := by
  obtain ⟨name, pattern⟩ := named
  unfold NamedPattern.ofEntry
  cases Pattern.parse entry.pattern with
  | error cause => simp
  | ok parsed => simp [eq_comm]

theorem make_eq_ok_iff :
    make options entries = .ok table ↔
      table.options = options ∧
        List.Forall₂ (fun entry named => NamedPattern.ofEntry entry = .ok named) entries
          table.routes := by
  obtain ⟨routes, held⟩ := table
  simp only [make, bind_eq_ok_iff, mapM_eq_ok_iff, pure, Except.pure, Except.ok.injEq,
    RouteTable.mk.injEq]
  constructor
  · rintro ⟨_, related, rfl, rfl⟩
    exact ⟨rfl, related⟩
  · rintro ⟨rfl, related⟩
    exact ⟨_, related, rfl, rfl⟩

/-- The routes of a table are the names of its entries and what their patterns are read as. -/
theorem listed_of_related {routes : List NamedPattern}
    (related : List.Forall₂ (fun entry named => NamedPattern.ofEntry entry = .ok named) entries
      routes) :
    routes.map (fun named => (named.name, Except.ok named.pattern))
      = entries.map fun entry => (entry.name, Pattern.parse entry.pattern) := by
  induction related with
  | nil => rfl
  | cons first _ ih =>
    obtain ⟨name, read⟩ := ofEntry_eq_ok_iff.mp first
    rw [List.map_cons, List.map_cons, ih, name, read]

theorem names_of_related {routes : List NamedPattern}
    (related : List.Forall₂ (fun entry named => NamedPattern.ofEntry entry = .ok named) entries
      routes) : routes.map (·.name) = entries.map (·.name) := by
  have listed := congrArg (List.map Prod.fst) (listed_of_related related)
  simpa only [List.map_map, Function.comp_def] using listed

/-- Each route of a table was read from one of its entries. -/
theorem exists_entry_of_make (made : make options entries = .ok table) {named : NamedPattern}
    (member : named ∈ table.routes) :
    ∃ entry ∈ entries, named.name = entry.name ∧
      Pattern.parse entry.pattern = .ok named.pattern := by
  obtain ⟨_, related⟩ := make_eq_ok_iff.mp made
  obtain ⟨entry, among, read⟩ := exists_of_mem_forall₂ related member
  exact ⟨entry, among, ofEntry_eq_ok_iff.mp read⟩

/-- The patterns of a table were read, whatever their names. -/
theorem patterns_sound (made : make options entries = .ok table) :
    ∀ named ∈ table.routes, named.pattern.Sound := by
  intro named member
  obtain ⟨entry, _, _, parsed⟩ := exists_entry_of_make made member
  exact Pattern.sound_of_parse parsed

/-- No route of a table asks for the empty query key. -/
theorem keyed_of_sound (sound : ∀ named ∈ table.routes, named.pattern.Sound) :
    ∀ registration ∈ table.mapper.registrations, [] ∉ registration.template.queryKeys := by
  intro registration member empty
  obtain ⟨named, among, rfl⟩ := List.mem_map.mp member
  rw [NamedPattern.registration_template] at empty
  exact (sound named among).keys_filled [] empty rfl

theorem sound_of_make (valid : ValidRoutes entries) (made : make options entries = .ok table) :
    table.Sound := by
  obtain ⟨_, related⟩ := make_eq_ok_iff.mp made
  exact ⟨names_of_related related ▸ (validRoutes_iff.mp valid).1, patterns_sound made⟩

theorem exists_make (options : MapperOptions) (valid : ValidRoutes entries) :
    ∃ table, make options entries = .ok table := by
  have readable : ∀ entry ∈ entries, ∃ named, NamedPattern.ofEntry entry = .ok named := by
    intro entry member
    obtain ⟨_, pattern, parsed⟩ := (validRoutes_iff.mp valid).2 entry member
    exact ⟨⟨entry.name, pattern⟩, ofEntry_eq_ok_iff.mpr ⟨rfl, parsed⟩⟩
  obtain ⟨routes, related⟩ := exists_forall₂ readable
  exact ⟨⟨routes, options⟩, make_eq_ok_iff.mpr ⟨rfl, related⟩⟩

/-! ### Encoding and decoding with a table -/

variable {named : NamedPattern} {route : TableRoute} {parts : List Text} {query : Bindings}

theorem eq_of_name (sound : table.Sound) {other : NamedPattern} (member : named ∈ table.routes)
    (otherMember : other ∈ table.routes) (same : other.name = named.name) : other = named :=
  List.inj_on_of_nodup_map sound.names_nodup otherMember member same

/-- Only the pattern of its name writes a route. -/
theorem encode?_eq_of_name (sound : table.Sound) (member : named ∈ table.routes)
    (same : route.name = named.name) :
    table.encode? route
      = (named.registration.encode? route).map (Mapper.writeRendered table.options) := by
  -- A pattern writes only routes of its own name, and no two patterns share a name.
  have foreign : ∀ other ∈ table.routes, other ≠ named →
      other.registration.encode? route = none := by
    intro other among different
    refine Option.eq_none_iff_forall_not_mem.mpr fun rendered encoded => different ?_
    obtain ⟨params, found, _⟩ := NamedPattern.registration_encode?_eq_some_iff.mp encoded
    exact eq_of_name sound member among ((NamedPattern.name_of_encode? found).symm.trans same)
  have first := findSome?_eq_of_unique (f := fun other => other.registration.encode? route)
    member foreign
  simp only [encode?, Mapper.encode?, mapper, List.findSome?_map, Function.comp_def, first]

theorem decodeParts?_eq :
    table.mapper.decodeParts? parts query
      = table.routes.findSome? fun named => named.registration.decode? parts query := by
  simp only [Mapper.decodeParts?, mapper, List.findSome?_map, Function.comp_def]

end RouteTable
end DeepLink
