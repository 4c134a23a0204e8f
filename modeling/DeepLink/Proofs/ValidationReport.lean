import DeepLink.Proofs.ConfiguredTables
import DeepLink.Proofs.Splitting
import Mathlib

/-!
# The report of a validation

What validation has to report can be said without a state: of each route by itself, given the list
of all routes and its index in it. A name is repeated if a route at a lower index has it.

Validation goes through the routes once, with the names it has seen. After any number of routes it
has seen their names, and this is all that the report on the next route needs
(`routeProblems_eq`). So it reports exactly that list, in its order (`validate_eq_report`).
-/
namespace DeepLink.RouterConfig

variable {config : RouterConfig} {front rest : List RouteEntry} {route : RouteEntry}

/-! ### What is to be reported -/

/-- A default is reported if it is set and nothing is left of it without its outer blanks. -/
def defaultReport (option : DefaultOption) : Option Text → List ValidationError
  | some value => if value.trimEnds Text.isBlankChar = [] then [.emptyDefault option] else []
  | none => []

/-- A name is reported if it is empty, or else if one of the routes before the index has it. -/
def nameReport (routes : List RouteEntry) (index : Nat) (name : Text) : List ValidationError :=
  if name = [] then [.emptyRouteName index]
  else if ∃ earlier ∈ routes.take index, earlier.name = name then [.duplicateRouteName name]
  else []

/-- A pattern is reported with the reason why it cannot be read. -/
def patternReport (route : RouteEntry) : List ValidationError :=
  match Pattern.parse route.pattern with
  | .error cause => [.invalidPattern route.name cause]
  | .ok _ => []

/-- The defaults, and then each route with its name before its pattern. -/
def report (config : RouterConfig) : List ValidationError :=
  defaultReport .scheme config.mapper.defaultScheme
    ++ defaultReport .host config.mapper.defaultHost
    ++ config.routes.zipIdx.flatMap fun (route, index) =>
        nameReport config.routes index route.name ++ patternReport route

/-! ### What is reported -/

theorem defaultProblems_eq (option : DefaultOption) (value : Option Text) :
    defaultProblems option value = defaultReport option value := by
  cases value with
  | none => rfl
  | some text =>
    have blank : text.isBlank = true ↔ text.trimEnds Text.isBlankChar = [] := by
      rw [Text.trimEnds_eq_nil_iff, Text.isBlank, List.all_eq_true]
    simp only [defaultProblems, defaultReport, Option.any_some, blank]

/-- Behind the routes in front, the names that were seen are those of the routes at lower
indices. -/
theorem nameProblems_eq :
    nameProblems (front.map (·.name)).reverse front.length route.name
      = nameReport (front ++ route :: rest) front.length route.name := by
  have seen : (front.map (·.name)).reverse.contains route.name = true ↔
      ∃ earlier ∈ (front ++ route :: rest).take front.length, earlier.name = route.name := by
    rw [List.take_left, List.contains_iff_mem, List.mem_reverse, List.mem_map]
  simp only [nameProblems, nameReport, seen]

theorem patternProblems_eq (route : RouteEntry) : patternProblems route = patternReport route := by
  unfold patternProblems patternReport
  cases Pattern.parse route.pattern <;> rfl

/-- Going on behind the routes in front reports the routes that are left, at their indices. -/
theorem routeProblems_eq (front rest : List RouteEntry) :
    routeProblems (front.map (·.name)).reverse front.length rest
      = (rest.zipIdx front.length).flatMap fun (route, index) =>
          nameReport (front ++ rest) index route.name ++ patternReport route := by
  -- One route after the other goes over to the routes in front.
  induction rest generalizing front with
  | nil => rfl
  | cons route rest ih =>
    have later := ih (front ++ [route])
    rw [List.map_append, List.reverse_append, List.length_append, List.append_assoc] at later
    simp only [List.map_cons, List.map_nil, List.reverse_singleton, List.singleton_append,
      List.length_singleton] at later
    rw [routeProblems, later, nameProblems_eq, patternProblems_eq, List.zipIdx_cons,
      List.flatMap_cons]

theorem problems_eq_report (config : RouterConfig) : config.problems = config.report := by
  have routes := routeProblems_eq [] config.routes
  rw [problems, defaultProblems_eq, defaultProblems_eq, report]
  exact congrArg _ routes

/-! ### Valid configurations -/

theorem defaultReport_eq_nil_iff {option : DefaultOption} {value : Option Text} :
    defaultReport option value = [] ↔ ∀ text ∈ value, text.trimEnds Text.isBlankChar ≠ [] := by
  cases value with
  | none => simp [defaultReport]
  | some text => simp [defaultReport]

/-- Nothing is to be reported of defaults that are not blank and of readable patterns under
distinct names that are not empty. -/
theorem report_eq_nil_iff :
    config.report = [] ↔
      (∀ scheme ∈ config.mapper.defaultScheme, scheme.trimEnds Text.isBlankChar ≠ []) ∧
      (∀ host ∈ config.mapper.defaultHost, host.trimEnds Text.isBlankChar ≠ []) ∧
      (∀ entry ∈ config.routes, entry.name ≠ []) ∧ (config.routes.map (·.name)).Nodup ∧
      ∀ entry ∈ config.routes, ∃ pattern, Pattern.parse entry.pattern = .ok pattern := by
  rw [← problems_eq_report, problems, List.append_eq_nil_iff, List.append_eq_nil_iff,
    defaultProblems_eq, defaultProblems_eq, defaultReport_eq_nil_iff, defaultReport_eq_nil_iff,
    routeProblems_eq_nil_iff]
  simp only [List.not_mem_nil, not_false_eq_true, true_and, forall_and, and_assoc]
  tauto

/-- Validation reports each problem once and in order: blank defaults, and then for each index an
empty name or one that a route before has, followed by a pattern that cannot be read. It accepts
exactly the configurations of which nothing is to be reported. -/
theorem validate_eq_report (config : RouterConfig) :
    config.validate = (if config.report = [] then .ok config else .error config.report) ∧
      (config.validate = .ok config ↔ config.report = []) ∧
      (config.report = [] ↔
        (∀ scheme ∈ config.mapper.defaultScheme, scheme.trimEnds Text.isBlankChar ≠ []) ∧
        (∀ host ∈ config.mapper.defaultHost, host.trimEnds Text.isBlankChar ≠ []) ∧
        (∀ entry ∈ config.routes, entry.name ≠ []) ∧ (config.routes.map (·.name)).Nodup ∧
        ∀ entry ∈ config.routes, ∃ pattern, Pattern.parse entry.pattern = .ok pattern) := by
  have same := problems_eq_report config
  refine ⟨?_, ?_, report_eq_nil_iff⟩
  · split
    next empty => exact validate_eq_ok_iff.mpr (same.trans empty)
    next filled => exact validate_eq_error_iff.mpr ⟨same, filled⟩
  · rw [validate_eq_ok_iff, same]

/-- A name is reported as often as it is repeated, and an empty one not as a repetition. -/
example :
    ({ mapper := { defaultHost := some " \t".toList }
       routes := [⟨"a".toList, []⟩, ⟨[], "?k".toList⟩, ⟨"a".toList, []⟩, ⟨[], []⟩,
        ⟨"a".toList, ":x/:x".toList⟩] } : RouterConfig).report
      = [.emptyDefault .host, .emptyRouteName 1,
        .invalidPattern [] (.valueNotPlaceholder "k".toList []), .duplicateRouteName "a".toList,
        .emptyRouteName 3, .duplicateRouteName "a".toList,
        .invalidPattern "a".toList (.duplicatePlaceholder "x".toList)] := by
  cbv

end DeepLink.RouterConfig
