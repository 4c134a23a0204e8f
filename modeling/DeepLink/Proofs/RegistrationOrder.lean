import DeepLink.Proofs.Candidates
import DeepLink.Proofs.TableLaws
import DeepLink.Samples
import DeepLink.Url.Reading
import Mathlib

/-!
# The order of registrations

The first registration that succeeds decides, so the order of registrations matters only
where two of them succeed on the same parts.

- Entries of a table may change places if their templates are apart, that is, of different
  lengths or with different literals at one place (`RouteTable.make_reorder`). Parts that one
  of the two templates matches are never matched by the other, and no two entries of a table
  write the same route, because their names differ.
- Registrations that are added at the end are asked last. Without schemes and hosts in
  templates a URL has at most one candidate, so a mapper with added registrations falls back
  to these exactly where it used to fail (`Mapper.results_extend`).
-/
namespace DeepLink

/-! ### Templates that match nothing in common -/

/-- Whether two segments are literals that differ. -/
def Segment.conflicts : Segment → Segment → Bool
  | .literal left, .literal right => left ≠ right
  | _, _ => false

namespace Template

variable {segments : List Segment} {parts : List Text}

/-- Templates of different lengths, or with different literals at one place. -/
def Apart (left right : Template) : Prop :=
  left.segments.length ≠ right.segments.length ∨
    ∃ pair ∈ left.segments.zip right.segments, pair.1.conflicts pair.2

instance (left right : Template) : Decidable (left.Apart right) :=
  inferInstanceAs (Decidable (_ ∨ _))

/-- A literal captures only its own text. -/
theorem getElem?_of_capture? {pairs : List (Text × Text)}
    (captured : capture? segments parts = some pairs) {i : Nat} {text : Text}
    (found : segments[i]? = some (.literal text)) : parts[i]? = some text := by
  induction segments generalizing parts pairs i with
  | nil => cases found
  | cons segment rest ih =>
    cases parts with
    | nil => simp [capture?_nil_parts] at captured
    | cons part others =>
      rcases capture?_cons_eq_some_iff.mp captured with ⟨rfl, inner⟩ | ⟨name, tail, rfl, inner, rfl⟩
      all_goals cases i with
        | zero => simp_all
        | succ i => exact ih inner found

/-- Templates that match the same parts are not apart. -/
theorem not_apart_of_match? {left right : Template} {query other first second : Bindings}
    (leftMatch : left.match? parts query = some first)
    (rightMatch : right.match? parts other = some second) : ¬ left.Apart right := by
  obtain ⟨_, _, leftCaptured, _⟩ := match?_eq_some_iff.mp leftMatch
  obtain ⟨_, _, rightCaptured, _⟩ := match?_eq_some_iff.mp rightMatch
  rintro (lengths | ⟨⟨one, two⟩, paired, conflict⟩)
  · exact lengths ((length_of_capture? leftCaptured).symm.trans (length_of_capture? rightCaptured))
  · obtain ⟨i, found⟩ := List.mem_iff_getElem?.mp paired
    obtain ⟨leftFound, rightFound⟩ := List.getElem?_zip_eq_some.mp found
    cases one with
    | placeholder => cases conflict
    | literal leftText =>
      cases two with
      | placeholder => cases conflict
      | literal rightText =>
        -- Both literals are the part at their place.
        have part := getElem?_of_capture? leftCaptured leftFound
        rw [getElem?_of_capture? rightCaptured rightFound] at part
        exact of_decide_eq_true conflict (Option.some.inj part).symm

end Template

/-- Entries whose patterns have templates that are apart. -/
def RouteEntry.Apart (first second : RouteEntry) : Prop :=
  ∃ left ∈ (Pattern.parse first.pattern).toOption,
    ∃ right ∈ (Pattern.parse second.pattern).toOption, left.template.Apart right.template

instance (first second : RouteEntry) : Decidable (first.Apart second) :=
  inferInstanceAs (Decidable (∃ _ ∈ _, _))

/-! ### Mappers that do the same with parts and routes -/

namespace Mapper

variable {ρ : Type} {left right : Mapper ρ}

/-- Which texts stand for a URL is a matter of the options. -/
theorem candidates_eq_of_options (same : left.options = right.options) (url : Url) :
    left.candidates url = right.candidates url := by
  rw [candidates, candidates, rejects, rejects, same]

/-- Mappers of the same options that read parts alike and write routes alike. -/
structure Alike (left right : Mapper ρ) : Prop where
  options : left.options = right.options
  reads : ∀ parts query, left.decodeParts? parts query = right.decodeParts? parts query
  writes : ∀ route, left.registrations.findSome? (·.encode? route)
    = right.registrations.findSome? (·.encode? route)

namespace Alike

theorem decodeRelative? (alike : left.Alike right) (raw : Text) :
    left.decodeRelative? raw = right.decodeRelative? raw := by
  rw [decodeRelative?_eq, decodeRelative?_eq, alike.reads]

theorem decodeUrl? (alike : left.Alike right) (url : Url) :
    left.decodeUrl? url = right.decodeUrl? url := by
  rw [Mapper.decodeUrl?, Mapper.decodeUrl?, candidates_eq_of_options alike.options]
  exact findSome?_congr fun candidate _ => alike.decodeRelative? candidate

theorem decode? (alike : left.Alike right) (parser : Url.Parser) (raw : Text) :
    left.decode? parser raw = right.decode? parser raw := by
  have urls : left.decodeUrl? = right.decodeUrl? := funext alike.decodeUrl?
  rw [Mapper.decode?, Mapper.decode?, alike.options, urls, alike.decodeRelative?]

theorem encode? (alike : left.Alike right) (route : ρ) :
    left.encode? route = right.encode? route := by
  rw [Mapper.encode?, Mapper.encode?, alike.writes, alike.options]

theorem buildUrl? (alike : left.Alike right) (parser : Url.Parser) (route : ρ)
    (scheme host : Option Text) :
    left.buildUrl? parser route scheme host = right.buildUrl? parser route scheme host := by
  rw [Mapper.buildUrl?, Mapper.buildUrl?, alike.encode?, alike.options]

end Alike
end Mapper

/-! ### Tables in another order -/

namespace RouteTable

variable {entries reordered : List RouteEntry} {options : MapperOptions}

/-- What an entry reads from parts, an entry that is apart from it does not read. -/
theorem ne_of_apart {first second : RouteEntry} (apart : first.Apart second) {parts : List Text}
    {query : Bindings} {left right : TableRoute}
    (read : (NamedPattern.ofEntry first).toOption.bind (·.registration.decode? parts query)
      = some left) :
    (NamedPattern.ofEntry second).toOption.bind (·.registration.decode? parts query)
      ≠ some right := by
  intro also
  obtain ⟨one, oneMade, oneRead⟩ := bind_toOption_eq_some_iff.mp read
  obtain ⟨two, twoMade, twoRead⟩ := bind_toOption_eq_some_iff.mp also
  obtain ⟨_, oneMatch, _⟩ := NamedPattern.registration_decode?_eq_some_iff.mp oneRead
  obtain ⟨_, twoMatch, _⟩ := NamedPattern.registration_decode?_eq_some_iff.mp twoRead
  refine Template.not_apart_of_match? oneMatch twoMatch ?_
  obtain ⟨onePattern, oneParsed, twoPattern, twoParsed, templates⟩ := apart
  rw [(ofEntry_eq_ok_iff.mp oneMade).2] at oneParsed
  rw [(ofEntry_eq_ok_iff.mp twoMade).2] at twoParsed
  obtain rfl := Option.some.inj oneParsed
  obtain rfl := Option.some.inj twoParsed
  exact templates

/-- An entry writes only routes of its own name. -/
theorem name_of_written {entry : RouteEntry} {route : TableRoute} {rendered : Rendered}
    (written : (NamedPattern.ofEntry entry).toOption.bind (·.registration.encode? route)
      = some rendered) : entry.name = route.name := by
  obtain ⟨named, made, encoded⟩ := bind_toOption_eq_some_iff.mp written
  obtain ⟨_, found, _⟩ := NamedPattern.registration_encode?_eq_some_iff.mp encoded
  exact (ofEntry_eq_ok_iff.mp made).1.symm.trans (NamedPattern.name_of_encode? found).symm

theorem alike_of_reorder {table other : RouteTable} (valid : ValidRoutes entries)
    (made : make options entries = .ok table) (otherMade : make options reordered = .ok other)
    (same : entries.Perm reordered)
    (passing : entries.Pairwise fun first second =>
      [second, first].Sublist reordered → first.Apart second) :
    table.mapper.Alike other.mapper := by
  obtain ⟨tableOptions, tableRead⟩ := make_eq_ok_iff.mp made
  obtain ⟨otherOptions, otherRead⟩ := make_eq_ok_iff.mp otherMade
  refine ⟨tableOptions.trans otherOptions.symm, fun parts query => ?_, fun route => ?_⟩
  · rw [decodeParts?_eq, decodeParts?_eq, findSome?_of_forall₂ tableRead,
      findSome?_of_forall₂ otherRead]
    refine findSome?_reorder same fun first second _ _ was now read => ?_
    exact ne_of_apart (List.pairwise_iff_forall_sublist.mp passing was now) read
  · simp only [mapper, List.findSome?_map, Function.comp_def]
    rw [findSome?_of_forall₂ tableRead, findSome?_of_forall₂ otherRead]
    refine findSome?_reorder same fun first second _ _ was _ written also => ?_
    have distinct : first.name ≠ second.name := by
      have names := List.pairwise_map.mp (validRoutes_iff.mp valid).1
      exact List.pairwise_iff_forall_sublist.mp names was
    exact distinct ((name_of_written written).trans (name_of_written also).symm)

/-- Tables of the same entries agree if only entries that are apart pass each other. -/
theorem make_reorder (parser : Url.Parser) (options : MapperOptions) (valid : ValidRoutes entries)
    (same : entries.Perm reordered)
    (passing : entries.Pairwise fun first second =>
      [second, first].Sublist reordered → first.Apart second) :
    ∃ table other, make options entries = .ok table ∧ make options reordered = .ok other ∧
      (∀ raw, table.decode? parser raw = other.decode? parser raw) ∧
      (∀ url, table.decodeUrl? url = other.decodeUrl? url) ∧
      (∀ route, table.encode? route = other.encode? route) ∧
      ∀ route scheme host,
        table.buildUrl? parser route scheme host = other.buildUrl? parser route scheme host := by
  obtain ⟨table, made⟩ := exists_make options valid
  obtain ⟨other, otherMade⟩ := exists_make options (valid.perm same)
  have alike := alike_of_reorder valid made otherMade same passing
  exact ⟨table, other, made, otherMade, alike.decode? parser, alike.decodeUrl?, alike.encode?,
    alike.buildUrl? parser⟩

/-- A literal, a placeholder that would match it, and a longer pattern. -/
def pageEntries : List RouteEntry :=
  [⟨"settings".toList, "settings".toList⟩, ⟨"page".toList, ":name?tab=$\x7bt\x7d".toList⟩,
    ⟨"user".toList, "users/:id".toList⟩]

def reorderedPages : List RouteEntry :=
  [⟨"user".toList, "users/:id".toList⟩, ⟨"settings".toList, "settings".toList⟩,
    ⟨"page".toList, ":name?tab=$\x7bt\x7d".toList⟩]

/-- The longer pattern passes the two others, which keep their order. -/
theorem make_reorder_pages :
    ∃ table other, make {} pageEntries = .ok table ∧ make {} reorderedPages = .ok other ∧
      (∀ raw, table.decode? Url.parse? raw = other.decode? Url.parse? raw) ∧
      (∀ url, table.decodeUrl? url = other.decodeUrl? url) ∧
      (∀ route, table.encode? route = other.encode? route) ∧
      ∀ route scheme host,
        table.buildUrl? Url.parse? route scheme host
          = other.buildUrl? Url.parse? route scheme host := by
  have valid : ValidRoutes pageEntries := by decide +kernel
  have same : pageEntries.Perm reorderedPages := by decide +kernel
  have passing : pageEntries.Pairwise fun first second =>
      [second, first].Sublist reorderedPages → first.Apart second := by decide +kernel
  exact make_reorder Url.parse? {} valid same passing

end RouteTable

/-! ### Added registrations -/

namespace Mapper

variable {ρ : Type} {mapper : Mapper ρ} {more : List (Registration ρ)}

/-- The mapper with other registrations and the same options. -/
def withRegistrations (mapper : Mapper ρ) (registrations : List (Registration ρ)) : Mapper ρ :=
  { mapper with registrations }

/-- The mapper with further registrations, which are tried after its own. -/
def extend (mapper : Mapper ρ) (more : List (Registration ρ)) : Mapper ρ :=
  mapper.withRegistrations (mapper.registrations ++ more)

theorem decodeRelative?_extend (raw : Text) :
    (mapper.extend more).decodeRelative? raw
      = (mapper.decodeRelative? raw).or ((mapper.withRegistrations more).decodeRelative? raw) := by
  simp only [decodeRelative?_eq, decodeParts?, extend, withRegistrations, List.findSome?_append]

/-- Without schemes and hosts in templates, a URL has one candidate, or it is foreign. -/
theorem candidates_of_plain (schemeless : mapper.options.schemeInTemplate = false)
    (hostless : mapper.options.hostInTemplate = false) (url : Url) :
    mapper.candidates url
      = if mapper.rejects (.ofUrl url) then [] else [(NormalForm.ofUrl url).relative] := by
  have single : candidateTexts mapper.options (.ofUrl url) = [(NormalForm.ofUrl url).relative] := by
    simp only [candidateTexts, schemeless, hostless]
    by_cases empty : (NormalForm.ofUrl url).path = [] <;> simp [empty, List.eraseDups_cons]
  rw [candidates, single]

theorem decodeUrl?_extend (schemeless : mapper.options.schemeInTemplate = false)
    (hostless : mapper.options.hostInTemplate = false) (url : Url) :
    (mapper.extend more).decodeUrl? url
      = (mapper.decodeUrl? url).or ((mapper.withRegistrations more).decodeUrl? url) := by
  have both : (mapper.extend more).candidates url = mapper.candidates url :=
    candidates_eq_of_options rfl url
  have added : (mapper.withRegistrations more).candidates url = mapper.candidates url :=
    candidates_eq_of_options rfl url
  rw [decodeUrl?, decodeUrl?, decodeUrl?, both, added, candidates_of_plain schemeless hostless]
  -- With two candidates, a late registration could win with the first of them.
  split
  · rfl
  · simp only [List.findSome?_singleton, decodeRelative?_extend]

theorem decode?_extend (parser : Url.Parser)
    (schemeless : mapper.options.schemeInTemplate = false)
    (hostless : mapper.options.hostInTemplate = false) (raw : Text) :
    (mapper.extend more).decode? parser raw
      = (mapper.decode? parser raw).or ((mapper.withRegistrations more).decode? parser raw) := by
  have options : (mapper.extend more).options = mapper.options := rfl
  have addedOptions : (mapper.withRegistrations more).options = mapper.options := rfl
  rw [decode?, decode?, decode?, options, addedOptions]
  split
  · cases parser raw with
    | none => rfl
    | some url => exact decodeUrl?_extend schemeless hostless url
  · exact decodeRelative?_extend raw

theorem encode?_extend (route : ρ) :
    (mapper.extend more).encode? route
      = (mapper.encode? route).or ((mapper.withRegistrations more).encode? route) := by
  simp only [encode?, extend, withRegistrations, List.findSome?_append, Option.map_or]

/-- Added registrations are asked only where those that were there gave nothing. -/
theorem results_extend (parser : Url.Parser) (mapper : Mapper ρ) (more : List (Registration ρ))
    (schemeless : mapper.options.schemeInTemplate = false)
    (hostless : mapper.options.hostInTemplate = false) :
    (∀ raw, (mapper.extend more).decode? parser raw
        = (mapper.decode? parser raw).or ((mapper.withRegistrations more).decode? parser raw)) ∧
      (∀ url, (mapper.extend more).decodeUrl? url
        = (mapper.decodeUrl? url).or ((mapper.withRegistrations more).decodeUrl? url)) ∧
      (∀ route, (mapper.extend more).encode? route
        = (mapper.encode? route).or ((mapper.withRegistrations more).encode? route)) ∧
      ∀ route scheme host url, mapper.buildUrl? parser route scheme host = some url →
        (mapper.extend more).buildUrl? parser route scheme host = some url := by
  refine ⟨decode?_extend parser schemeless hostless, decodeUrl?_extend schemeless hostless,
    encode?_extend, fun route scheme host url built => ?_⟩
  obtain ⟨raw, encoded, placed⟩ := Option.bind_eq_some_iff.mp built
  have written : (mapper.extend more).encode? route = some raw := by
    rw [encode?_extend, encoded, Option.some_or]
  exact Option.bind_eq_some_iff.mpr ⟨raw, written, placed⟩

/-- The routes of the sample application up to items with an identifier of digits. -/
def firstItems : Mapper Samples.AppRoute :=
  { registrations := Samples.AppRoute.registrations.take 6
    options := .withDefaults "myapp".toList "app".toList }

/-- The remaining routes: an item of letters, and any other single part. -/
def laterRoutes : List (Registration Samples.AppRoute) := Samples.AppRoute.registrations.drop 6

/-- The remaining routes take an item of letters, and nothing that had a meaning before. -/
theorem results_extend_items :
    (firstItems.extend laterRoutes).decode? Url.parse? "item/42".toList = some (.item "42".toList) ∧
      firstItems.decode? Url.parse? "myapp://app/item/abc".toList = none ∧
      (firstItems.extend laterRoutes).decode? Url.parse? "myapp://app/item/abc".toList
        = some (.itemSlug "abc".toList) ∧
      (firstItems.extend laterRoutes).encode? (.page "about".toList) = some "about".toList ∧
      ∃ url, firstItems.buildUrl? Url.parse? .settings none none = some url ∧
        (firstItems.extend laterRoutes).buildUrl? Url.parse? .settings none none = some url := by
  obtain ⟨texts, _, routes, built⟩ := results_extend Url.parse? firstItems laterRoutes rfl rfl
  have isBuilt : (firstItems.buildUrl? Url.parse? .settings none none).isSome := by decide +kernel
  obtain ⟨url, settings⟩ := Option.isSome_iff_exists.mp isBuilt
  refine ⟨(texts _).trans ?_, ?_, (texts _).trans ?_, (routes _).trans ?_, url, settings,
    built _ _ _ _ settings⟩
  all_goals decide +kernel

/-- With hosts in templates, an added registration can take a URL that had a route. -/
example :
    let settings : Mapper Samples.AppRoute :=
      { registrations := [.unit "settings".toList .settings]
        options := { hostInTemplate := true } }
    let home : Registration Samples.AppRoute := .unit "app/settings".toList .home
    (Url.parse? "myapp://app/settings".toList).map
        (fun url => (settings.decodeUrl? url, (settings.extend [home]).decodeUrl? url))
      = some (some .settings, some .home) := by
  decide +kernel

end Mapper
end DeepLink
