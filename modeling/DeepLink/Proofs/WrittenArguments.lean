import DeepLink.CommandLine.Program
import DeepLink.Proofs.RawRoundTrip

/-!
# Parameters as arguments

A parameter is given to the program as its name and its value with an equals sign between them.
The first equals sign of an argument ends the name, so exactly the arguments that are written for
names without one are read back (`readParams_eq_ok_iff`).

A route that a table has read is encoded, and it is made again from its parameters as arguments in
any order, unless one of its names holds an equals sign (`namedRoute_of_read`). Such a name can be
declared by a pattern, but no argument supplies it (`namedRoute_of_read_ne`).
-/
namespace DeepLink.CommandLine

variable {params : List Text} {pairs : List (Text × Text)} {table : RouteTable} {name : Text}
  {route : TableRoute}

/-! ### Arguments -/

/-- A parameter as an argument. -/
def writeParam (pair : Text × Text) : Text := pair.1 ++ '=' :: pair.2

/-- Exactly the arguments written for names without an equals sign are read. -/
theorem readParams_eq_ok_iff :
    readParams params = .ok pairs ↔
      params = pairs.map writeParam ∧ ∀ pair ∈ pairs, '=' ∉ pair.1 := by
  rw [readParams, mapM_eq_ok_iff]
  constructor
  · intro related
    induction related with
    | nil => exact ⟨rfl, nofun⟩
    | cons here _ ih =>
      obtain ⟨rfl, free⟩ := ih
      split at here
      next found =>
        cases here
        obtain ⟨rfl, absent⟩ := Text.eq_append_of_cut? found
        exact ⟨rfl, List.forall_mem_cons.mpr ⟨absent, free⟩⟩
      · cases here
  · rintro ⟨rfl, free⟩
    rw [List.forall₂_map_left_iff, List.forall₂_same]
    intro pair member
    rw [writeParam, Text.cut?_append (free pair member)]

/-- A route is made from arguments as it is from the pairs that they are written for. -/
theorem namedRoute_eq_ok_iff :
    namedRoute table name params = .ok route ↔
      ∃ pairs, (params = pairs.map writeParam ∧ ∀ pair ∈ pairs, '=' ∉ pair.1) ∧
        table.route name pairs = .ok route := by
  simp only [namedRoute, bind_eq_ok_iff, readParams_eq_ok_iff]
  refine exists_congr fun pairs => and_congr_right fun _ => ?_
  cases table.route name pairs <;> simp [Except.mapError]

/-! ### Routes that were read -/

/-- A complete route is made from its own parameters as arguments exactly if no name holds an
equals sign. -/
theorem namedRoute_complete_iff (sound : table.Sound) {named : NamedPattern}
    (member : named ∈ table.routes) (complete : RouteTable.Complete named route)
    (same : pairs.Perm route.params.entries) :
    namedRoute table route.name (pairs.map writeParam) = .ok route ↔
      ∀ name ∈ route.params.names, '=' ∉ name := by
  rw [complete.name_eq, namedRoute_eq_ok_iff]
  constructor
  · rintro ⟨read, ⟨-, free⟩, made⟩ name declared
    -- A name of the route was supplied, and only names without an equals sign are.
    have bound := Bindings.mem_names_iff.mp declared
    obtain ⟨-, values⟩ := (RouteTable.route_eq_ok_iff sound member).mp made
    rw [values name (complete.only name bound), Bindings.isSome_get?_ofPairs] at bound
    obtain ⟨pair, supplied, rfl⟩ := List.mem_map.mp bound
    exact free pair supplied
  · intro free
    refine ⟨pairs, ⟨rfl, fun pair supplied => ?_⟩, ?_⟩
    · exact free _ (List.mem_map_of_mem (same.mem_iff.mp supplied))
    · exact (RouteTable.route_eq_ok_iff sound member).mpr
        ⟨complete, fun name _ => (Bindings.get?_ofPairs_of_perm same name).symm⟩

/-- A route that was read is encoded, and is made again from its parameters as arguments in any
order exactly if no name holds an equals sign. -/
theorem namedRoute_of_read (parser : Url.Parser) (options : MapperOptions)
    {entries : List RouteEntry} (valid : ValidRoutes entries) :
    ∃ table, RouteTable.make options entries = .ok table ∧
      ((∀ named ∈ table.routes, named.ScannerConsistent) → ∀ input route,
        table.decode? parser input = some route →
          (∃ raw, table.encode? route = some raw) ∧
            ∀ pairs : List (Text × Text), pairs.Perm route.params.entries →
              (namedRoute table route.name (pairs.map writeParam) = .ok route ↔
                ∀ name ∈ route.params.names, '=' ∉ name)) := by
  obtain ⟨table, made⟩ := RouteTable.exists_make options valid
  refine ⟨table, made, fun consistent input route read => ?_⟩
  have sound := RouteTable.sound_of_make valid made
  refine ⟨?_, fun pairs same => ?_⟩
  · obtain ⟨parts, query, _, found⟩ := Mapper.exists_parts_of_decode? read
    obtain ⟨values, encoded, _⟩ := RouteTable.exists_values_of_decodeParts? sound consistent found
    exact ⟨_, encoded⟩
  · obtain ⟨named, member, parts, query, _, decoded⟩ :=
      RouteTable.exists_reader (.inl ⟨input, read⟩)
    have complete := RouteTable.complete_of_decode? (sound.patterns named member) decoded
    exact namedRoute_complete_iff sound member complete same

/-- A value may hold an equals sign or an ampersand. -/
theorem namedRoute_of_read_users :
    RouteTable.userTable.decode? Url.parse? "/users//7=8?x&tab=a%26b".toList
        = some ⟨"user".toList, .ofPairs [("id".toList, "7=8".toList), ("t".toList, "a&b".toList)]⟩ ∧
      namedRoute RouteTable.userTable "user".toList ["t=a&b".toList, "id=7=8".toList]
        = .ok ⟨"user".toList,
            .ofPairs [("id".toList, "7=8".toList), ("t".toList, "a&b".toList)]⟩ := by
  obtain ⟨table, made, again⟩ := namedRoute_of_read Url.parse? {} RouteTable.valid_userEntries
  obtain rfl := Except.ok.inj (RouteTable.make_userEntries.symm.trans made)
  have consistent : ∀ named ∈ RouteTable.userTable.routes, named.ScannerConsistent := by
    decide +kernel
  have read : RouteTable.userTable.decode? Url.parse? "/users//7=8?x&tab=a%26b".toList
      = some ⟨"user".toList,
          .ofPairs [("id".toList, "7=8".toList), ("t".toList, "a&b".toList)]⟩ := by
    cbv
  obtain ⟨-, exact⟩ := again consistent _ _ read
  exact ⟨read, (exact [("t".toList, "a&b".toList), ("id".toList, "7=8".toList)]
    (by decide +kernel)).mpr (by decide +kernel)⟩

/-- A name with an equals sign is read as the part before it, so the parameter is missing. -/
theorem namedRoute_of_read_ne : ∃ table route,
    ValidRoutes [⟨"item".toList, "item/:a=b".toList⟩] ∧
      RouteTable.make {} [⟨"item".toList, "item/:a=b".toList⟩] = .ok table ∧
      (∀ named ∈ table.routes, named.ScannerConsistent) ∧
      table.decode? Url.parse? "item/5".toList = some route ∧
      namedRoute table route.name (route.params.entries.map writeParam)
        = .error (.table (.missingParameter "item".toList "a=b".toList)) := by
  refine ⟨⟨[⟨"item".toList, "item/:a=b".toList, ["a=b".toList], []⟩], {}⟩,
    ⟨"item".toList, .ofPairs [("a=b".toList, "5".toList)]⟩, ?_, ?_, ?_, ?_, ?_⟩
  · decide +kernel
  · cbv
  · decide +kernel
  · cbv
  · cbv

end DeepLink.CommandLine
