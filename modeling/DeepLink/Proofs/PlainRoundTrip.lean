import DeepLink.Proofs.LinkReading
import DeepLink.Proofs.PlaceholderScan
import DeepLink.Proofs.UrlRoundTrip

/-!
# The round trip of plain links

A route text of plain words becomes a link of plain words. A parser that reads such links gives a
URL of which it is known what it is made of (`Mapper.exists_urlOfText?`), and the URL is read by the
parts that were put into it.

- Under a path of literal words, the values of the query come back whatever they hold
  (`RouteTable.decodeUrl?_buildUrl?_literal_iff`).
- With hosts in templates, the first word of the path is the host of the link and is put back
  before the others (`RouteTable.decodeUrl?_buildUrl?_hosted_iff`). A path without words has no
  part for the host that takes its place, so its route is lost
  (`RouteTable.decodeUrl?_buildUrl?_hosted_ne`).
-/
namespace DeepLink

/-! ### Literal paths -/

namespace Pattern

/-- A path of slugs declares no names. -/
theorem placeholders_slugs {path : Text} (slugs : ∀ part ∈ RouteText.parts path, IsSlug part) :
    placeholders path = [] := by
  refine List.flatMap_eq_nil_iff.mpr fun segment among => ?_
  by_cases empty : segment = []
  · rw [empty, segmentNames, bracedNames]
    rintro c rest ⟨⟩
  · have slug := slugs segment (List.mem_filter.mpr ⟨among, by simpa using empty⟩)
    unfold segmentNames
    split
    next c rest => exact absurd (.head _) (slug.not_mem (c := ':') (by decide))
    next =>
      have absent : '$' ∉ segment := slug.not_mem (by decide)
      refine bracedNames_of_unclosed fun front back same => ?_
      simp [same, opening] at absent

end Pattern

namespace Template

/-- Slugs stand for themselves. -/
theorem segments_compile_slugs {path : Text} (keys : List Text)
    (slugs : ∀ part ∈ RouteText.parts path, IsSlug part) :
    (compile path keys).segments = (RouteText.parts path).map .literal := by
  have same : ∀ part ∈ RouteText.parts path, bracedPart part = part := by
    intro part member
    unfold bracedPart
    split
    next c rest => exact absurd (.head _) ((slugs _ member).not_mem (c := ':') (by decide))
    next => rfl
  have literal : ∀ part ∈ RouteText.parts path, Segment.read part = .literal part := by
    intro part member
    have unnamed : bracedName? part = none := by
      unfold bracedName?
      split
      next rest => exact absurd (.head _) ((slugs _ member).not_mem (c := '$') (by decide))
      next => rfl
    rw [Segment.read, unnamed]
  have parts : (path.fields '/').map bracedPart = path.fields '/' := map_eq_self same
  rw [segments_compile, parts]
  exact List.map_congr_left literal

/-- Slugs are written as they are, whatever is bound. -/
theorem written_slugs {path : Text} {keys : List Text} {params : Bindings} {written : List Text}
    (slugs : ∀ part ∈ RouteText.parts path, IsSlug part)
    (wrote : (compile path keys).segments.mapM (writeSegment? params) = some written) :
    written = RouteText.parts path := by
  rw [segments_compile_slugs keys slugs, List.mapM_map] at wrote
  have each : (RouteText.parts path).mapM (writeSegment? params ∘ .literal)
      = some (RouteText.parts path) :=
    mapM_eq_some_iff.mpr (List.forall₂_same.mpr fun _ _ => rfl)
  exact Option.some.inj (wrote.symm.trans each)

end Template

/-! ### Links -/

namespace Url

variable {url : Url} {scheme name host query front : Text} {parts rest : List Text} {c : Char}

/-- Slugs are their own segments. -/
theorem decodedSegments_slugs (slugs : ∀ part ∈ parts, IsSlug part)
    (path : url.path.text = '/' :: Text.joinWith '/' parts) : url.decodedSegments = parts := by
  have same : ∀ part ∈ parts, NormalForm.decodeSegment part = part := fun part member =>
    NormalForm.decodeSegment_of_plain ((slugs part member).not_mem (by decide))
  have fields : url.path.text.fields '/' = parts := by
    rw [path, Text.fields_cons_self]
    exact RouteText.parts_joinWith (isPart_of_slugs slugs)
  rw [decodedSegments, fields, map_eq_self same]

/-- What a link is made of: its scheme, its host unless it is empty, the segments of its path and
its query. -/
structure MadeOf (url : Url) (name host : Text) (parts : List Text) (query : Text) : Prop where
  scheme : url.scheme.text = name
  host : url.presentHost = (some host).filter (· ≠ [])
  segments : url.decodedSegments = parts
  query : url.query.getD [] = query

theorem isQueryChar_of_mem_encode {items : List QueryItem} :
    ∀ c ∈ Query.encode items, isQueryChar c = true := by
  intro c member
  rcases Query.of_mem_encode member with plain | rfl | rfl | rfl
  · simp [isQueryChar, plain]
  all_goals decide

/-- A link of words is read as what it is made of. -/
theorem exists_madeOf {parser : Parser} {IsPiece : Text → Prop}
    (reads : parser.ReadsLinks IsPiece) (word : IsWord name) (other : name ≠ "file".toList)
    (hosted : IsWord host) (pieces : ∀ part ∈ parts, IsPiece part)
    (slugs : ∀ part ∈ parts, IsSlug part) (kept : ∀ c ∈ query, isQueryChar c = true) :
    ∃ url, parser (linkText name host parts query) = some url ∧
      url.MadeOf name host parts query := by
  obtain ⟨url, read, scheme, present, path, written⟩ := reads word other hosted pieces kept
  refine ⟨url, read, scheme, ?_, decodedSegments_slugs slugs path, written⟩
  rw [present, Option.filter_some, if_pos (by simp [hosted.isSlug.1])]

theorem madeOf_bare {parser : Parser} (reads : parser.ReadsBareLinks) (word : IsWord name)
    (other : name ≠ "file".toList) (kept : ∀ c ∈ query, isQueryChar c = true)
    (read : parser (linkText name [] [] query) = some url) : url.MadeOf name [] [] query := by
  obtain ⟨scheme, hostless, path, written⟩ := reads word other kept read
  exact ⟨scheme, hostless, decodedSegments_slugs (fun _ member => by cases member) path, written⟩

/-- The parts of a link with its host as the first one, if it has a host. -/
theorem MadeOf.hostParts (madeOf : url.MadeOf name front rest query) :
    url.presentHost.toList ++ url.decodedSegments = [front].filter (· ≠ []) ++ rest := by
  rw [madeOf.host, madeOf.segments, Option.filter_some]
  by_cases empty : front = [] <;> simp [empty]

end Url

namespace Mapper

variable {options : MapperOptions} {parser : Url.Parser} {name front query : Text}
  {host : Option Text} {parts rest : List Text} {url : Url}

/-- A text without authority mark is put behind a scheme and a host, as the options place them. -/
theorem urlOfText?_join (parser : Url.Parser) (slugs : ∀ part ∈ parts, IsSlug part)
    (placed : placeHost options (givenHost options host) (Text.joinWith '/' parts)
      = (front, Text.joinWith '/' rest)) :
    urlOfText? options parser (RouteText.join (Text.joinWith '/' parts) query) (some name) host
      = if front = [] ∧ hostRequired.any (·.equalsIgnoringCase name) then none
        else parser (Url.linkText name front rest query) := by
  have valid := isPart_of_slugs slugs
  have unread : readUrl? parser (RouteText.join (Text.joinWith '/' parts) query) = none := by
    rw [readUrl?, RouteText.split_join (RouteText.not_mem_joinWith valid),
      RouteText.unmarked_joinWith valid]
    rfl
  rw [givenHost] at placed
  rw [urlOfText?, unread, RouteText.split_join (RouteText.not_mem_joinWith valid)]
  dsimp only [Option.bind_eq_bind]
  rw [placed]
  rfl

/-- Behind a host that is a word, a link is built and made of what was put there. -/
theorem exists_urlOfText? {IsPiece : Text → Prop} (reads : parser.ReadsLinks IsPiece)
    (word : IsWord name) (other : name ≠ "file".toList) (slugs : ∀ part ∈ parts, IsSlug part)
    (kept : ∀ c ∈ query, Url.isQueryChar c = true)
    (placed : placeHost options (givenHost options host) (Text.joinWith '/' parts)
      = (front, Text.joinWith '/' rest))
    (hosted : IsWord front) (pieces : ∀ part ∈ rest, IsPiece part)
    (others : ∀ part ∈ rest, IsSlug part) :
    ∃ url, urlOfText? options parser (RouteText.join (Text.joinWith '/' parts) query)
        (some name) host = some url ∧ url.MadeOf name front rest query := by
  rw [urlOfText?_join parser slugs placed, if_neg fun lacking => hosted.isSlug.1 lacking.1]
  exact Url.exists_madeOf reads word other hosted pieces others kept

/-- A link of the default scheme and the default host is not foreign. -/
theorem not_foreign (madeOf : url.MadeOf name front rest query)
    (ownScheme : ∀ text ∈ options.defaultScheme, text = name)
    (ownHost : options.hostInTemplate = false → ∀ text ∈ options.defaultHost, text = front) :
    ¬ Foreign options url := by
  have same (text : Text) : text.equalsIgnoringCase text = true := decide_eq_true rfl
  rintro (⟨expected, configured, different⟩
    | ⟨hostless, expected, actual, configured, present, different⟩)
  · rw [ownScheme expected configured, madeOf.scheme, same] at different
    cases different
  · rw [madeOf.host, Option.filter_eq_some_iff] at present
    rw [ownHost hostless expected configured, Option.some.inj present.1, same] at different
    cases different

theorem head?_joinWith_slugs (slugs : ∀ part ∈ parts, IsSlug part) :
    '/' ∉ (Text.joinWith '/' parts).head? := by
  cases parts with
  | nil => exact Option.not_mem_none _
  | cons first others =>
    obtain ⟨c, tail, same⟩ := List.exists_cons_of_ne_nil (slugs first (.head _)).1
    have head : (Text.joinWith '/' (first :: others)).head? = some c := by
      rw [same]
      cases others <;> rfl
    rw [head]
    rintro ⟨⟩
    exact (slugs first (.head _)).not_mem (c := '/') (by decide) (same ▸ .head _)

theorem placeHost_of_hostless (hostless : options.hostInTemplate = false)
    (slugs : ∀ part ∈ parts, IsSlug part) (front : Text) :
    placeHost options front (Text.joinWith '/' parts) = (front, Text.joinWith '/' parts) := by
  have whole : (Text.joinWith '/' parts).dropWhile (· == '/') = Text.joinWith '/' parts := by
    refine Text.dropWhile_eq_self_of_head? fun c first => beq_false_of_ne ?_
    rintro rfl
    exact head?_joinWith_slugs slugs first
  rw [placeHost, hostless, if_neg (by simp), whole]

/-- With hosts in templates the first part takes the place of the host. -/
theorem placeHost_of_hosted (hosted : options.hostInTemplate = true)
    (slugs : ∀ part ∈ parts, IsSlug part) (front : Text) :
    placeHost options front (Text.joinWith '/' parts)
      = (parts.head?.getD front, Text.joinWith '/' parts.tail) := by
  rw [placeHost, if_pos ⟨hosted, head?_joinWith_slugs slugs⟩]
  cases parts with
  | nil => rfl
  | cons first others =>
    have absent : '/' ∉ first := (slugs first (.head _)).not_mem (by decide)
    cases others with
    | nil =>
      rw [Text.joinWith_singleton, Text.cut?_eq_none_iff.mpr absent]
      exact if_neg (slugs first (.head _)).1
    | cons next more =>
      have apart : Text.joinWith '/' (first :: next :: more)
          = first ++ '/' :: Text.joinWith '/' (next :: more) := by
        simp [Text.joinWith, List.intercalate_cons_cons]
      rw [apart, Text.cut?_append absent]
      rfl

end Mapper

namespace RouteTable

variable {table : RouteTable} {options : MapperOptions} {entries : List RouteEntry}
  {parser : Url.Parser} {named : NamedPattern} {route : TableRoute} {url : Url}
  {name front : Text} {parts : List Text} {pairs : List (Text × Text)}

/-- A link that is not foreign is read by its lists of parts, with the pairs of its query. -/
theorem decodeUrl?_of_madeOf (made : make options entries = .ok table)
    (native : ¬ Mapper.Foreign options url)
    (madeOf : url.MadeOf name front parts (Query.encodePairs pairs)) :
    table.decodeUrl? url
      = (Mapper.partLists options url).findSome?
          (table.mapper.decodeParts? · (.ofPairs pairs)) := by
  have lists : table.mapper.matchParts? url = (table.mapper.decodeParts? · (.ofPairs pairs)) := by
    funext list
    rw [Mapper.matchParts?_eq, madeOf.query, Query.values_encodePairs]
  rw [decodeUrl?_of_native made native, lists]

/-- A text of slugs is read by its slugs and the pairs of its query. -/
theorem decode?_join (parser : Url.Parser) (schemeless : table.options.schemeInTemplate = false)
    (slugs : ∀ part ∈ parts, IsSlug part) (pairs : List (Text × Text)) :
    table.decode? parser (RouteText.join (Text.joinWith '/' parts) (Query.encodePairs pairs))
      = table.mapper.decodeParts? parts (.ofPairs pairs) := by
  have written : table.decode? parser
        (Mapper.writeRendered table.options ⟨Text.joinWith '/' parts, pairs⟩)
      = table.mapper.decodeParts? parts (.ofPairs pairs) :=
    decode?_written (isPart_of_slugs slugs) pairs
  rwa [Mapper.writeRendered_of_schemeless schemeless] at written

theorem pathNames_of_make (made : make options entries = .ok table)
    (member : named ∈ table.routes) :
    named.pattern.pathNames = Pattern.placeholders named.pattern.path := by
  obtain ⟨entry, _, _, parsed⟩ := exists_entry_of_make made member
  obtain ⟨bindings, _, pattern, _⟩ := Pattern.parse_eq_ok_iff.mp parsed
  rw [pattern]

/-! ### Routes under a literal path -/

variable {scheme host : Text} {i : Nat}

theorem consistent_of_slugs (slugs : ∀ part ∈ RouteText.parts named.pattern.path, IsSlug part) :
    named.ScannerConsistent := by
  have unnamed : named.pattern.template.placeholders = [] := by
    rw [Template.placeholders, Pattern.template, Template.segments_compile_slugs _ slugs,
      List.filterMap_map]
    exact List.filterMap_eq_nil_iff.mpr fun _ _ => rfl
  rw [NamedPattern.ScannerConsistent, unnamed]
  exact List.nil_sublist _

/-- A complete route under a literal path is written as this path and the bound pairs. -/
theorem encode?_of_slugs (sound : table.Sound) (schemeless : table.options.schemeInTemplate = false)
    (member : named ∈ table.routes)
    (slugs : ∀ part ∈ RouteText.parts named.pattern.path, IsSlug part)
    (complete : Complete named route) :
    table.encode? route = some (RouteText.join
      (Text.joinWith '/' (RouteText.parts named.pattern.path))
      (Query.encodePairs (named.queryPairs route))) := by
  obtain ⟨params, written, encoded, wrote, rendered⟩ :=
    exists_written (sound.patterns named member) (consistent_of_slugs slugs) complete
  obtain rfl := Template.written_slugs slugs wrote
  rw [encode?_of_render? sound member complete.name_eq encoded rendered,
    Mapper.writeRendered_of_schemeless schemeless]

/-- A route under a literal path becomes a URL with its pairs as the query, whatever they hold,
and comes back from it unless an earlier route accepts its text. -/
theorem decodeUrl?_buildUrl?_literal_iff (reads : parser.ReadsLinks IsSlug)
    (valid : ValidRoutes entries) (made : make options entries = .ok table)
    (schemeless : options.schemeInTemplate = false) (hostless : options.hostInTemplate = false)
    (schemeWord : IsWord scheme) (other : scheme ≠ "file".toList) (hostWord : IsWord host)
    (ownScheme : ∀ text ∈ options.defaultScheme, text = scheme)
    (ownHost : ∀ text ∈ options.defaultHost, text = host) (found : table.routes[i]? = some named)
    (slugs : ∀ part ∈ RouteText.parts named.pattern.path, IsSlug part)
    {supplied : List (Text × Text)} (supply : table.route named.name supplied = .ok route)
    (filled : ∀ binding ∈ named.pattern.query, route.params.get? binding.name ≠ some []) :
    ∃ raw url, table.encode? route = some raw ∧
      table.buildUrl? parser route (some scheme) (some host) = some url ∧
      url.query.getD [] = Query.encodePairs (named.queryPairs route) ∧
      (table.decodeUrl? url = some route ↔
        ∀ j < i, ∀ earlier, table.routes[j]? = some earlier →
          earlier.registration.decode? (RouteText.parts (RouteText.split raw).1)
            (Query.values (RouteText.split raw).2) = none) := by
  have sound := sound_of_make valid made
  obtain ⟨rfl, _⟩ := make_eq_ok_iff.mp made
  have member : named ∈ table.routes := List.mem_of_getElem? found
  have complete := complete_of_route sound member supply
  have nameless : named.pattern.pathNames = [] := by
    rw [pathNames_of_make made member, Pattern.placeholders_slugs slugs]
  have readable : Readable named route := by
    constructor
    · simp [nameless]
    · simp [nameless]
    · exact fun binding declared value bound empty => filled binding declared (empty ▸ bound)
  have encoded := encode?_of_slugs sound schemeless member slugs complete
  -- The URL is made of the same parts and pairs as the text, so both are read alike.
  obtain ⟨url, built, madeOf⟩ := Mapper.exists_urlOfText? reads schemeWord other slugs
    Url.isQueryChar_of_mem_encode
    (Mapper.placeHost_of_hostless hostless slugs (Mapper.givenHost table.options (some host)))
    hostWord slugs slugs
  have alike : table.decodeUrl? url = table.decode? parser (RouteText.join
      (Text.joinWith '/' (RouteText.parts named.pattern.path))
      (Query.encodePairs (named.queryPairs route))) := by
    have native := Mapper.not_foreign madeOf ownScheme fun _ => ownHost
    rw [decodeUrl?_of_madeOf made native madeOf, Mapper.partLists_of_hostless schemeless hostless,
      List.findSome?_singleton, madeOf.segments, decode?_join parser schemeless slugs]
  obtain ⟨raw, encodedAgain, exact⟩ :=
    decode?_complete_iff parser sound found (consistent_of_slugs slugs) complete
  obtain rfl := Option.some.inj (encoded.symm.trans encodedAgain)
  refine ⟨_, url, encoded, (buildUrl?_of_encode? parser encoded).trans built, madeOf.query, ?_⟩
  simp only [alike, exact, readable, not_accepts_iff, true_and]

/-! A table with a search under two keys. -/

def searchEntries : List RouteEntry :=
  [⟨"home".toList, "find".toList⟩,
    ⟨"search".toList, "find/all_in-1?q=$\x7btext\x7d&by=$\x7bname\x7d".toList⟩]

def searchTable : RouteTable :=
  { routes :=
      [⟨"home".toList, "find".toList, [], []⟩,
        ⟨"search".toList, "find/all_in-1".toList, [],
          [⟨"q".toList, "text".toList⟩, ⟨"by".toList, "name".toList⟩]⟩]
    options := { defaultScheme := some "myapp".toList } }

def searchValues : List (Text × Text) :=
  [("name".toList, "http://x/?é".toList), ("text".toList, "a&b=#%41".toList)]

def searchRoute : TableRoute := ⟨"search".toList, .ofPairs searchValues⟩

/-- Values that look like items, fragments, escapes and URLs come back from the query. -/
theorem decodeUrl?_buildUrl?_literal_iff_search :
    ∃ url, searchTable.buildUrl? Url.parse? searchRoute (some "myapp".toList) (some "app".toList)
        = some url ∧
      url.query.getD [] = "q=a%26b%3D%23%2541&by=http%3A%2F%2Fx%2F%3F%C3%A9".toList ∧
      searchTable.decodeUrl? url = some searchRoute := by
  have valid : ValidRoutes searchEntries := by decide +kernel
  have made : make searchTable.options searchEntries = .ok searchTable := by cbv
  have ownScheme : ∀ text ∈ searchTable.options.defaultScheme, text = "myapp".toList :=
    fun text given => (Option.some.inj given).symm
  have ownHost : ∀ text ∈ searchTable.options.defaultHost, text = "app".toList :=
    fun text given => by cases given
  have found : searchTable.routes[1]? = some ⟨"search".toList, "find/all_in-1".toList, [],
      [⟨"q".toList, "text".toList⟩, ⟨"by".toList, "name".toList⟩]⟩ := rfl
  have supply : searchTable.route "search".toList searchValues = .ok searchRoute := by cbv
  obtain ⟨raw, url, encoded, built, query, back⟩ := decodeUrl?_buildUrl?_literal_iff
    (Url.readsLinks_parse? fun _ slug => slug) valid made rfl rfl (by decide +kernel)
    (by decide +kernel) (by decide +kernel) ownScheme ownHost found (by decide +kernel) supply
    (by decide +kernel)
  have text : searchTable.encode? searchRoute
      = some "find/all_in-1?q=a%26b%3D%23%2541&by=http%3A%2F%2Fx%2F%3F%C3%A9".toList := by cbv
  obtain rfl := Option.some.inj (text.symm.trans encoded)
  refine ⟨url, built, query.trans (by cbv), back.mpr fun j before earlier first => ?_⟩
  obtain rfl : j = 0 := by omega
  obtain rfl := Option.some.inj first
  cbv

/-! ### Routes with their host in the path -/

/-- A route is read only from as many parts as its pattern has segments. -/
theorem length_eq_of_decodeParts? (sound : table.Sound) {first second : List Text}
    {left right : Bindings} (here : table.mapper.decodeParts? first left = some route)
    (there : table.mapper.decodeParts? second right = some route) :
    first.length = second.length := by
  rw [decodeParts?_eq] at here there
  obtain ⟨named, member, decoded⟩ := List.exists_of_findSome?_eq_some here
  obtain ⟨again, among, other⟩ := List.exists_of_findSome?_eq_some there
  obtain rfl := eq_of_name sound member among
    ((NamedPattern.name_of_decode? other).symm.trans (NamedPattern.name_of_decode? decoded))
  obtain ⟨_, matched, _⟩ := NamedPattern.registration_decode?_eq_some_iff.mp decoded
  obtain ⟨_, rematched, _⟩ := NamedPattern.registration_decode?_eq_some_iff.mp other
  obtain ⟨_, _, captured, _⟩ := Template.match?_eq_some_iff.mp matched
  obtain ⟨_, _, recaptured, _⟩ := Template.match?_eq_some_iff.mp rematched
  rw [Template.length_of_capture? captured, Template.length_of_capture? recaptured]

/-- With hosts in templates, a link of the default scheme is read by its host and its parts, and
then by its parts alone. -/
theorem decodeUrl?_of_hosted (made : make options entries = .ok table)
    (schemeless : options.schemeInTemplate = false) (hosted : options.hostInTemplate = true)
    (ownScheme : ∀ text ∈ options.defaultScheme, text = name)
    (madeOf : url.MadeOf name front parts (Query.encodePairs pairs)) :
    table.decodeUrl? url
      = (([front].filter (· ≠ []) ++ parts) :: if parts = [] then [] else [parts]).findSome?
          (table.mapper.decodeParts? · (.ofPairs pairs)) := by
  have native := Mapper.not_foreign madeOf ownScheme fun hostless => by simp [hosted] at hostless
  rw [decodeUrl?_of_madeOf made native madeOf, Mapper.partLists_of_hosted schemeless hosted,
    madeOf.hostParts, madeOf.segments]

variable {given : Option Text} {words : List Text}

/-- With hosts in templates the first word of a route is the host of its URL, and the route comes
back. Only a route without words is lost behind the host that is put in its place; without one it
comes back as well, from a parser that reads links without a host. -/
theorem decodeUrl?_buildUrl?_hosted_iff (reads : parser.ReadsLinks IsWord)
    (valid : ValidRoutes entries) (made : make options entries = .ok table)
    (schemeless : options.schemeInTemplate = false) (hosted : options.hostInTemplate = true)
    (schemeWord : IsWord scheme) (other : scheme ≠ "file".toList)
    (ownScheme : ∀ text ∈ options.defaultScheme, text = scheme)
    (hostWord : ∀ text ∈ given <|> options.defaultHost, IsWord text)
    (plain : ∀ word ∈ words, IsWord word)
    (encoded : table.encode? route
      = some (RouteText.join (Text.joinWith '/' words) (Query.encodePairs pairs)))
    (survives : table.decode? parser
      (RouteText.join (Text.joinWith '/' words) (Query.encodePairs pairs)) = some route) :
    (words ≠ [] ∨ (given <|> options.defaultHost).isSome →
      ∃ url, table.buildUrl? parser route (some scheme) given = some url ∧
        (table.decodeUrl? url = some route ↔ words ≠ [])) ∧
    (words = [] → (given <|> options.defaultHost) = none → parser.ReadsBareLinks →
      ∀ url, table.buildUrl? parser route (some scheme) given = some url →
        table.decodeUrl? url = some route) := by
  have sound := sound_of_make valid made
  obtain ⟨rfl, _⟩ := make_eq_ok_iff.mp made
  have slugs : ∀ word ∈ words, IsSlug word := fun word member => (plain word member).isSlug
  have placed := Mapper.placeHost_of_hosted hosted slugs (Mapper.givenHost table.options given)
  rw [decode?_join parser schemeless slugs] at survives
  rw [buildUrl?_of_encode? parser encoded]
  constructor
  · intro named
    have front : IsWord (words.head?.getD (Mapper.givenHost table.options given)) := by
      cases words with
      | cons first rest => exact plain first (.head _)
      | nil =>
        obtain ⟨text, present⟩ := Option.isSome_iff_exists.mp (named.resolve_left (· rfl))
        rw [Mapper.givenHost, present]
        exact hostWord text present
    have others : ∀ word ∈ words.tail, IsWord word :=
      fun word member => plain word (List.mem_of_mem_tail member)
    obtain ⟨url, built, madeOf⟩ := Mapper.exists_urlOfText? reads schemeWord other slugs
      Url.isQueryChar_of_mem_encode placed front others
      fun word member => (others word member).isSlug
    refine ⟨url, built, ?_⟩
    rw [decodeUrl?_of_hosted made schemeless hosted ownScheme madeOf]
    cases words with
    | cons first rest => simp [(plain first (.head _)).isSlug.1, survives]
    | nil =>
      -- The host alone has one part, and the route was read from none.
      have lost : table.mapper.decodeParts? [Mapper.givenHost table.options given] (.ofPairs pairs)
          ≠ some route := fun decoded =>
        absurd (length_eq_of_decodeParts? sound survives decoded) (by simp)
      have filled : Mapper.givenHost table.options given ≠ [] := front.isSlug.1
      simp [filled, lost]
  · rintro rfl hostless bare url built
    have noHost : Mapper.givenHost table.options given = [] := by
      rw [Mapper.givenHost, hostless]
      rfl
    rw [Mapper.urlOfText?_join parser slugs placed] at built
    split at built
    · cases built
    · rw [List.head?_nil, Option.getD_none, noHost] at built
      have madeOf := Url.madeOf_bare bare schemeWord other Url.isQueryChar_of_mem_encode built
      rw [decodeUrl?_of_hosted made schemeless hosted ownScheme madeOf]
      simp [survives]

/-! A table with hosts in its templates: its first pattern matches any part that stands alone. -/

def shopEntries : List RouteEntry :=
  [⟨"page".toList, ":name".toList⟩, ⟨"item".toList, "shop/:id?tab=$\x7bt\x7d".toList⟩,
    ⟨"home".toList, []⟩]

def shopTable : RouteTable :=
  { routes :=
      [⟨"page".toList, ":name".toList, ["name".toList], []⟩,
        ⟨"item".toList, "shop/:id".toList, ["id".toList], [⟨"tab".toList, "t".toList⟩]⟩,
        ⟨"home".toList, [], [], []⟩]
    options := { hostInTemplate := true } }

def shopRoute : TableRoute :=
  ⟨"item".toList, .ofPairs [("id".toList, "x7".toList), ("t".toList, "a&b".toList)]⟩

theorem valid_shopEntries : ValidRoutes shopEntries := by decide +kernel

theorem make_shopEntries : make shopTable.options shopEntries = .ok shopTable := by cbv

/-- An item of the shop comes back although its last word alone is a page, and the start comes
back where no host is put before it. -/
theorem decodeUrl?_buildUrl?_hosted_iff_shop :
    (∃ url, shopTable.buildUrl? Url.parse? shopRoute (some "myapp".toList) (some "app".toList)
        = some url ∧
      shopTable.decodeUrl? url = some shopRoute) ∧
    ∃ url, shopTable.buildUrl? Url.parse? homeRoute (some "myapp".toList) none = some url ∧
      shopTable.decodeUrl? url = some homeRoute := by
  have ownScheme : ∀ text ∈ shopTable.options.defaultScheme, text = "myapp".toList :=
    fun text given => by cases given
  have word : IsWord "myapp".toList := by decide +kernel
  have other : "myapp".toList ≠ "file".toList := by decide +kernel
  have reads : Url.Parser.ReadsLinks Url.parse? IsWord :=
    Url.readsLinks_parse? fun _ piece => piece.isSlug
  constructor
  · have hostWord : ∀ text ∈ some "app".toList <|> shopTable.options.defaultHost, IsWord text := by
      rintro text ⟨⟩
      decide +kernel
    have plain : ∀ word ∈ ["shop".toList, "x7".toList], IsWord word := by decide +kernel
    have encoded : shopTable.encode? shopRoute = some (RouteText.join
        (Text.joinWith '/' ["shop".toList, "x7".toList])
        (Query.encodePairs [("tab".toList, "a&b".toList)])) := by cbv
    obtain ⟨build, _⟩ := decodeUrl?_buildUrl?_hosted_iff reads valid_shopEntries make_shopEntries
      rfl rfl word other ownScheme hostWord plain encoded (by cbv)
    obtain ⟨url, built, back⟩ := build (.inl (List.cons_ne_nil _ _))
    exact ⟨url, built, back.mpr (List.cons_ne_nil _ _)⟩
  · have hostWord : ∀ text ∈ none <|> shopTable.options.defaultHost, IsWord text := by
      rintro text ⟨⟩
    have plain : ∀ word ∈ [], IsWord word := by simp
    have encoded : shopTable.encode? homeRoute
        = some (RouteText.join (Text.joinWith '/' []) (Query.encodePairs [])) := by cbv
    obtain ⟨_, back⟩ := decodeUrl?_buildUrl?_hosted_iff reads valid_shopEntries make_shopEntries
      rfl rfl word other ownScheme hostWord plain encoded (by cbv)
    let url := (shopTable.buildUrl? Url.parse? homeRoute (some "myapp".toList) none).get
      (by decide +kernel)
    have built : shopTable.buildUrl? Url.parse? homeRoute (some "myapp".toList) none = some url :=
      (Option.some_get _).symm
    exact ⟨url, built, back rfl rfl Url.readsBareLinks_parse? url built⟩

/-- The start is lost behind a host: this is no path, and a path is all that is read. -/
theorem decodeUrl?_buildUrl?_hosted_ne :
    Url.Parser.ReadsLinks Url.parse? IsWord ∧ ValidRoutes shopEntries ∧
      make { hostInTemplate := true } shopEntries = .ok shopTable ∧
      shopTable.route "home".toList [] = .ok homeRoute ∧
      shopTable.encode? homeRoute = some [] ∧
      shopTable.decode? Url.parse? [] = some homeRoute ∧
      IsWord "myapp".toList ∧ IsWord "app".toList ∧
      ∃ url, shopTable.buildUrl? Url.parse? homeRoute (some "myapp".toList) (some "app".toList)
          = some url ∧
        shopTable.mapper.candidates url = ["app".toList] ∧
        shopTable.decodeUrl? url
          = some ⟨"page".toList, .ofPairs [("name".toList, "app".toList)]⟩ := by
  refine ⟨Url.readsLinks_parse? fun _ piece => piece.isSlug, by decide +kernel, by cbv, by cbv,
    by cbv, by cbv, by decide +kernel, by decide +kernel, ?_⟩
  let url := (shopTable.buildUrl? Url.parse? homeRoute (some "myapp".toList)
    (some "app".toList)).get (by decide +kernel)
  exact ⟨url, (Option.some_get _).symm, by decide +kernel, by decide +kernel⟩

end RouteTable
end DeepLink
