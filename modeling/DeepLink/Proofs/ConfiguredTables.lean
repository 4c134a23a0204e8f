import DeepLink.Proofs.TableRoutes

/-!
# Tables of configurations

Validation goes on after a problem and lists all of them, while a table is made up to the first
pattern that cannot be read. The two agree: problems with defaults and names do not keep a table
from being made, and the first invalid pattern that is listed is the one that does
(`findSome?_routeProblems_iff`).

The table of a valid configuration lists its routes, and its names are distinct, so the first
pattern of a name is the only one: `RouteTable.route` makes a route of each of them
(`RouteTable.exists_route_of_covering`).
-/
namespace DeepLink

variable {config : RouterConfig} {entries : List RouteEntry} {error : TableError}
  {problem : ValidationError} {problems : List ValidationError}

/-- What keeps a table from being made, if this problem does. -/
def ValidationError.tableError? : ValidationError → Option TableError
  | .invalidPattern name cause => some (.pattern name cause)
  | _ => none

theorem ValidationError.tableError?_eq_some_iff :
    problem.tableError? = some error ↔
      ∃ name cause, problem = .invalidPattern name cause ∧ error = .pattern name cause := by
  cases problem <;> simp [tableError?, eq_comm]

theorem ValidationError.tableError?_eq_none_iff :
    problem.tableError? = none ↔ ∀ name cause, problem ≠ .invalidPattern name cause := by
  cases problem <;> simp [tableError?]

theorem forall_tableError?_eq_none_iff :
    (∀ problem ∈ problems, problem.tableError? = none) ↔
      ∀ name cause, .invalidPattern name cause ∉ problems := by
  simp only [ValidationError.tableError?_eq_none_iff]
  exact ⟨fun valid name cause member => valid _ member name cause rfl,
    fun absent problem member name cause same => absent name cause (same ▸ member)⟩

/-- The first invalid pattern among problems. -/
theorem findSome?_tableError?_eq_some_iff :
    problems.findSome? ValidationError.tableError? = some error ↔
      ∃ before name cause after, problems = before ++ .invalidPattern name cause :: after ∧
        (∀ other why, .invalidPattern other why ∉ before) ∧ error = .pattern name cause := by
  simp only [List.findSome?_eq_some_iff, ValidationError.tableError?_eq_some_iff,
    forall_tableError?_eq_none_iff]
  constructor
  · rintro ⟨before, _, after, rfl, ⟨name, cause, rfl, rfl⟩, first⟩
    exact ⟨before, name, cause, after, rfl, first, rfl⟩
  · rintro ⟨before, name, cause, after, rfl, first, rfl⟩
    exact ⟨before, _, after, rfl, ⟨name, cause, rfl, rfl⟩, first⟩

namespace RouterConfig

/-! ### What validation lists -/

theorem findSome?_defaultProblems (option : DefaultOption) (value : Option Text) :
    (defaultProblems option value).findSome? ValidationError.tableError? = none := by
  unfold defaultProblems
  split <;> rfl

theorem findSome?_nameProblems (earlier : List Text) (index : Nat) (name : Text) :
    (nameProblems earlier index name).findSome? ValidationError.tableError? = none := by
  unfold nameProblems
  split
  · rfl
  · split <;> rfl

/-- A pattern is read, and nothing is wrong with it, or what is wrong is what stops the table. -/
theorem patternProblems_cases (entry : RouteEntry) :
    (∃ named, NamedPattern.ofEntry entry = .ok named ∧ patternProblems entry = []) ∨
      ∃ cause, NamedPattern.ofEntry entry = .error (.pattern entry.name cause) ∧
        patternProblems entry = [.invalidPattern entry.name cause] := by
  unfold NamedPattern.ofEntry patternProblems
  cases Pattern.parse entry.pattern with
  | ok pattern => exact .inl ⟨_, rfl, rfl⟩
  | error cause => exact .inr ⟨_, rfl, rfl⟩

/-- The first invalid pattern that is listed is where reading the patterns in order stops. -/
theorem findSome?_routeProblems_iff {earlier : List Text} {index : Nat} :
    (routeProblems earlier index entries).findSome? ValidationError.tableError? = some error ↔
      entries.mapM NamedPattern.ofEntry = .error error := by
  induction entries generalizing earlier index with
  | nil => simp [routeProblems, pure, Except.pure]
  | cons entry rest ih =>
    rw [routeProblems, List.findSome?_append, List.findSome?_append, findSome?_nameProblems,
      Option.none_or, List.mapM_cons, bind_eq_error_iff]
    rcases patternProblems_cases entry with ⟨named, read, accepted⟩ | ⟨cause, failed, reported⟩
    · simp [read, accepted, ih, bind_eq_error_iff, pure, Except.pure]
    · simp [failed, reported, ValidationError.tableError?]

theorem validate_eq_ok_iff : config.validate = .ok config ↔ config.problems = [] := by
  unfold validate
  split <;> simp_all

theorem validate_eq_error_iff :
    config.validate = .error problems ↔ config.problems = problems ∧ problems ≠ [] := by
  unfold validate
  split
  next accepted => simp [accepted, eq_comm]
  next faulty =>
    rw [Except.error.injEq]
    exact ⟨fun same => ⟨same, same ▸ faulty⟩, And.left⟩

/-- Validation reports every problem. -/
theorem mem_problems_iff :
    problem ∈ config.problems ↔ ∃ problems, config.validate = .error problems ∧
      problem ∈ problems := by
  simp only [validate_eq_error_iff, and_assoc, exists_eq_left']
  exact ⟨fun member => ⟨List.ne_nil_of_mem member, member⟩, And.right⟩

end RouterConfig

namespace RouteTable

variable {table : RouteTable} {named : NamedPattern}

/-! ### Making the table of a configuration -/

theorem ofConfig_eq_error_iff :
    ofConfig config = .error error ↔
      config.problems.findSome? ValidationError.tableError? = some error := by
  rw [RouterConfig.problems, List.findSome?_append, List.findSome?_append,
    RouterConfig.findSome?_defaultProblems, RouterConfig.findSome?_defaultProblems,
    Option.none_or, Option.none_or, RouterConfig.findSome?_routeProblems_iff]
  simp [ofConfig, make, bind_eq_error_iff, pure, Except.pure]

theorem exists_ofConfig_iff :
    (∃ table, ofConfig config = .ok table) ↔
      ∀ name cause, .invalidPattern name cause ∉ config.problems := by
  simp only [exists_ok_iff, ne_eq, ofConfig_eq_error_iff]
  rw [← forall_tableError?_eq_none_iff, ← List.findSome?_eq_none_iff,
    Option.eq_none_iff_forall_ne_some]

theorem validRoutes_of_validate (accepted : config.validate = .ok config) :
    ValidRoutes config.routes := by
  rw [RouterConfig.validate_eq_ok_iff, RouterConfig.problems, List.append_eq_nil_iff] at accepted
  obtain ⟨distinct, each⟩ := routeProblems_eq_nil_iff.mp accepted.2
  exact validRoutes_iff.mpr
    ⟨distinct, fun entry member => ⟨(each entry member).1, (each entry member).2.2⟩⟩

/-! ### Making the routes of a table -/

/-- Values of all declared names make a route, and the last value of each of them is kept. -/
theorem exists_route_of_covering (sound : table.Sound) (member : named ∈ table.routes)
    {supplied : List (Text × Text)}
    (covering : ∀ name ∈ named.pattern.names, name ∈ supplied.map Prod.fst) :
    ∃ route, table.route named.name supplied = .ok route ∧ route.name = named.name ∧
      ∀ name, route.params.get? name
        = if name ∈ named.pattern.names then supplied.reverse.lookup name else none := by
  have bound : ((Bindings.ofPairs supplied).move?
      (named.pattern.names.map fun name => (name, name))).isSome := by
    rw [NamedPattern.isSome_move?_iff, List.forall_mem_map]
    exact fun name declared => Bindings.isSome_get?_ofPairs.mpr (covering name declared)
  obtain ⟨params, moved⟩ := Option.isSome_iff_exists.mp bound
  have made : table.route named.name supplied = .ok ⟨named.name, params⟩ :=
    (route_eq_ok_iff_move? sound member).mpr ⟨rfl, moved⟩
  obtain ⟨complete, kept⟩ := (route_eq_ok_iff sound member).mp made
  refine ⟨_, made, rfl, fun name => ?_⟩
  split
  next declared => rw [kept name declared, Bindings.get?_ofPairs]
  next foreign =>
    exact Option.not_isSome_iff_eq_none.mp fun held => foreign (complete.only name held)

/-- A table is made exactly if validation reports no invalid pattern, and fails with the first one
that is reported. The table of a configuration that is accepted lists its names and patterns in
order, and makes a route of each name from values of all its parameters. -/
theorem ofConfig_agrees_with_validate (config : RouterConfig) :
    ((∃ table, ofConfig config = .ok table) ↔
      ¬ ∃ problems name cause, config.validate = .error problems ∧
        .invalidPattern name cause ∈ problems) ∧
    (∀ error, ofConfig config = .error error ↔
      ∃ before name cause after,
        config.validate = .error (before ++ .invalidPattern name cause :: after) ∧
          (∀ other why, .invalidPattern other why ∉ before) ∧ error = .pattern name cause) ∧
    (config.validate = .ok config → ∃ table, ofConfig config = .ok table ∧
      table.routes.map (fun named => (named.name, Except.ok named.pattern))
        = config.routes.map (fun entry => (entry.name, Pattern.parse entry.pattern)) ∧
      ∀ named ∈ table.routes, ∀ supplied : List (Text × Text),
        (∀ name ∈ named.pattern.names, name ∈ supplied.map Prod.fst) →
          ∃ route, table.route named.name supplied = .ok route ∧ route.name = named.name ∧
            ∀ name, route.params.get? name
              = if name ∈ named.pattern.names then supplied.reverse.lookup name else none) := by
  refine ⟨?_, fun error => ?_, fun accepted => ?_⟩
  · simp only [exists_ofConfig_iff, RouterConfig.mem_problems_iff, not_exists, not_and]
    exact ⟨fun absent problems name cause => absent name cause problems,
      fun absent name cause problems => absent problems name cause⟩
  · rw [ofConfig_eq_error_iff, findSome?_tableError?_eq_some_iff]
    simp only [RouterConfig.validate_eq_error_iff, and_assoc]
    refine exists₄_congr fun before name cause after => and_congr_right fun _ => ?_
    simp
  · have valid := validRoutes_of_validate accepted
    obtain ⟨table, made⟩ := exists_make config.mapper valid
    exact ⟨table, made, listed_of_related (make_eq_ok_iff.mp made).2,
      fun named member supplied => exists_route_of_covering (sound_of_make valid made) member⟩

/-- A blank default, an empty and a repeated name, and two patterns that cannot be read. -/
def faultyConfig : RouterConfig :=
  { mapper := { defaultScheme := some " ".toList }
    routes := [⟨[], "a?k".toList⟩, ⟨"b".toList, []⟩, ⟨"b".toList, "c?=$\x7bd\x7d".toList⟩] }

/-- The first invalid pattern is reported from the midst of other problems, and a route of users is
made from repeated and foreign values. -/
theorem ofConfig_agrees_with_validate_users :
    ofConfig faultyConfig = .error (.pattern [] (.valueNotPlaceholder "k".toList [])) ∧
      ({ routes := userEntries } : RouterConfig).validate = .ok { routes := userEntries } ∧
      ∃ route, userTable.route "user".toList
          [("t".toList, "x".toList), ("zoom".toList, "2".toList), ("id".toList, "7".toList),
            ("t".toList, "a&b".toList)] = .ok route ∧
        route.params.get? "t".toList = some "a&b".toList ∧
        route.params.get? "zoom".toList = none := by
  have reported : faultyConfig.validate = .error
      ([.emptyDefault .scheme, .emptyRouteName 0] ++
        .invalidPattern [] (.valueNotPlaceholder "k".toList []) ::
          [.duplicateRouteName "b".toList,
            .invalidPattern "b".toList (.emptyQueryKey "=$\x7bd\x7d".toList)]) := by
    cbv
  have failed := ((ofConfig_agrees_with_validate faultyConfig).2.1 _).mpr
    ⟨_, _, _, _, reported, by simp, rfl⟩
  have accepted : ({ routes := userEntries } : RouterConfig).validate
      = .ok { routes := userEntries } := by cbv
  obtain ⟨table, made, _, addressed⟩ := (ofConfig_agrees_with_validate _).2.2 accepted
  obtain rfl := Except.ok.inj (make_userEntries.symm.trans made)
  have users : ⟨"user".toList, "users/:id".toList, ["id".toList], [⟨"tab".toList, "t".toList⟩]⟩
      ∈ userTable.routes := List.mem_cons_of_mem _ List.mem_cons_self
  obtain ⟨route, found, _, kept⟩ := addressed _ users
    [("t".toList, "x".toList), ("zoom".toList, "2".toList), ("id".toList, "7".toList),
      ("t".toList, "a&b".toList)] (by decide +kernel)
  refine ⟨failed, accepted, route, found, ?_, ?_⟩
  all_goals
    rw [kept]
    decide +kernel

end RouteTable
end DeepLink
