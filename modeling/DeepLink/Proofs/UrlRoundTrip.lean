import DeepLink.Proofs.BuiltHost
import DeepLink.Proofs.Candidates
import DeepLink.Proofs.PathReading
import DeepLink.Proofs.RawRoundTrip

/-!
# The round trip of built URLs

A URL is built by putting the text of a route behind a host as it is, while a URL is read by the
decoded segments of its path. So a route comes back if these segments are the parts of its text
and the query is that of its text, and a table that writes what it reads gives back no other
routes (`decodeUrl?_buildUrl?`). From a parser that keeps paths, portable texts come back: nothing
in them ends the path, is resolved or is decoded. Values that hold escapes, dots or a `#` are lost
(`decodeUrl?_buildUrl?_ne`).
-/
namespace DeepLink

/-! ### Portable route texts -/

namespace Url

variable {parser : Parser} {name host raw : Text} {url : Url}

/-- The path of a route text as it is put behind a host. -/
def builtPath (raw : Text) : Text := (RouteText.split raw).1.dropWhile (· == '/')

/-- What lets a route text be read back from a URL that is built from it: its path and its query
are kept but for escapes, and what is escaped is decoded to itself. -/
structure Portable (kind : SchemeKind) (raw : Text) : Prop where
  inert : Inert kind (builtPath raw) (RouteText.split raw).2
  escaped : ∀ piece ∈ (builtPath raw).fields '/',
    NormalForm.decodeSegment (Percent.encode keptInPath piece) = piece

/-- A portable text is read as its own parts and its own query. -/
theorem read_of_portable (keeps : parser.KeepsPaths) (colonless : ':' ∉ name)
    (plain : PlainHost url.scheme.kind host) (portable : Portable url.scheme.kind raw)
    (read : parser (RouteText.join (name ++ "://".toList ++ host ++ '/' :: builtPath raw)
      (RouteText.split raw).2) = some url) :
    url.decodedSegments = RouteText.parts (RouteText.split raw).1 ∧
      url.query.getD [] = (RouteText.split raw).2 := by
  obtain ⟨fields, query⟩ := keeps colonless read plain portable.inert
  -- Each piece is escaped by the parser and decoded again.
  have back : (builtPath raw).fields '/'
      = ((builtPath raw).fields '/').map
          (NormalForm.decodeSegment ∘ Percent.encode keptInPath) :=
    (map_eq_self portable.escaped).symm
  refine ⟨?_, query⟩
  rw [decodedSegments, fields, List.map_map, ← back]
  exact Text.fields_dropWhile _

end Url

namespace RouteTable

variable {table : RouteTable} {options : MapperOptions} {entries : List RouteEntry}
  {parser : Url.Parser} {scheme host : Option Text} {route : TableRoute} {raw : Text} {url : Url}

/-! ### Tables without schemes and hosts in templates -/

/-- A URL that is not foreign is read by its lists of parts. -/
theorem decodeUrl?_of_native (made : make options entries = .ok table)
    (native : ¬ Mapper.Foreign options url) :
    table.decodeUrl? url
      = (Mapper.partLists options url).findSome? (table.mapper.matchParts? url) := by
  obtain ⟨rfl, _⟩ := make_eq_ok_iff.mp made
  rw [decodeUrl?, Mapper.decodeUrl?_eq_ite (keyed_of_sound (patterns_sound made)),
    if_neg fun rejected => native (Mapper.rejects_iff.mp rejected)]
  rfl

/-- Without schemes and hosts in templates, a URL is read by its own segments alone. -/
theorem decodeUrl?_eq_decodeParts? (made : make options entries = .ok table)
    (schemeless : options.schemeInTemplate = false) (hostless : options.hostInTemplate = false)
    (native : ¬ Mapper.Foreign options url) :
    table.decodeUrl? url
      = table.mapper.decodeParts? url.decodedSegments (Query.values (url.query.getD [])) := by
  rw [decodeUrl?_of_native made native, Mapper.partLists_of_hostless schemeless hostless,
    List.findSome?_singleton, Mapper.matchParts?_eq]

theorem not_foreign_of_candidates (native : table.mapper.candidates url ≠ []) :
    ¬ Mapper.Foreign table.options url :=
  fun foreign => native (if_pos (Mapper.rejects_iff.mpr foreign))

/-- A text that is read is a URL, or it is read by its own parts. -/
theorem decode?_of_unread (schemeless : table.options.schemeInTemplate = false)
    (unread : readUrl? parser raw = none) (decoded : table.decode? parser raw = some route) :
    table.mapper.decodeParts? (RouteText.parts (RouteText.split raw).1)
      (Query.values (RouteText.split raw).2) = some route := by
  rw [decode?, Mapper.decode?_of_schemeless schemeless] at decoded
  unfold readUrl? at unread
  split at decoded
  next marked =>
    rw [if_pos marked] at unread
    rw [unread] at decoded
    cases decoded
  next => exact decoded

/-- A text that is a URL by itself is built as that URL and read as that URL. -/
theorem decodeUrl?_of_readUrl? (schemeless : table.options.schemeInTemplate = false)
    (read : (readUrl? parser raw).isSome) (decoded : table.decode? parser raw = some route)
    (built : Mapper.urlOfText? table.options parser raw scheme host = some url) :
    table.decodeUrl? url = some route := by
  obtain ⟨own, read⟩ := Option.isSome_iff_exists.mp read
  have same : own = url := by
    rw [Mapper.urlOfText?, read] at built
    exact Option.some.inj built
  rw [decode?, Mapper.decode?_of_schemeless schemeless] at decoded
  unfold readUrl? at read
  split at read
  next marked =>
    rw [if_pos marked, read, Option.bind_some, same] at decoded
    exact decoded
  next => cases read

/-! ### Built routes -/

/-- A route that a consistent table reads from a URL has the segments of that URL as the parts of
its text. -/
theorem decodedSegments_of_decodeParts? (sound : table.Sound)
    (consistent : ∀ named ∈ table.routes, named.ScannerConsistent)
    (schemeless : table.options.schemeInTemplate = false)
    (encoded : table.encode? route = some raw) {query : Bindings}
    (decoded : table.mapper.decodeParts? url.decodedSegments query = some route) :
    url.decodedSegments = RouteText.parts (RouteText.split raw).1 := by
  have valid : ∀ part ∈ url.decodedSegments, RouteText.IsPart part := by
    rw [← Mapper.parts_path]
    exact fun part member => RouteText.isPart_of_mem Mapper.question_not_mem_path member
  -- The text of the route can only be what is written for these segments.
  obtain ⟨values, written, _⟩ := exists_values_of_decodeParts? sound consistent decoded
  rw [encoded, Mapper.writeRendered_of_schemeless schemeless] at written
  rw [Option.some.inj written, RouteText.split_join (RouteText.not_mem_joinWith valid),
    RouteText.parts_joinWith valid]

/-- A route whose text is a URL by itself comes back, and so does a route whose text and whose URL
have the same parts and the same query, such as a route with a portable text. In a table that
writes what it reads, no route comes back from other parts. -/
theorem decodeUrl?_buildUrl? (valid : ValidRoutes entries)
    (made : make options entries = .ok table) (schemeless : options.schemeInTemplate = false)
    (hostless : options.hostInTemplate = false) (encoded : table.encode? route = some raw)
    (survives : table.decode? parser raw = some route)
    (built : table.buildUrl? parser route scheme host = some url)
    (native : table.mapper.candidates url ≠ []) :
    ((readUrl? parser raw).isSome → table.decodeUrl? url = some route) ∧
      (url.decodedSegments = RouteText.parts (RouteText.split raw).1 →
        url.query.getD [] = (RouteText.split raw).2 → table.decodeUrl? url = some route) ∧
      ((∀ named ∈ table.routes, named.ScannerConsistent) → table.decodeUrl? url = some route →
        url.decodedSegments = RouteText.parts (RouteText.split raw).1) ∧
      (parser.KeepsPaths → ':' ∉ Mapper.givenScheme options scheme →
        Url.PlainHost url.scheme.kind (Mapper.givenHost options host) →
        Url.Portable url.scheme.kind raw → table.decodeUrl? url = some route) := by
  have sound := sound_of_make valid made
  obtain ⟨rfl, _⟩ := make_eq_ok_iff.mp made
  have read := decodeUrl?_eq_decodeParts? made schemeless hostless
    (not_foreign_of_candidates native)
  have text : Mapper.urlOfText? table.options parser raw scheme host = some url :=
    (buildUrl?_of_encode? parser encoded).symm.trans built
  have absolute (itself : (readUrl? parser raw).isSome) : table.decodeUrl? url = some route :=
    decodeUrl?_of_readUrl? schemeless itself survives text
  have alike (parts : url.decodedSegments = RouteText.parts (RouteText.split raw).1)
      (query : url.query.getD [] = (RouteText.split raw).2) :
      table.decodeUrl? url = some route := by
    cases own : readUrl? parser raw with
    | some _ => exact absolute (own ▸ rfl)
    | none => rw [read, parts, query, decode?_of_unread schemeless own survives]
  refine ⟨absolute, alike, fun consistent decoded => ?_, fun keeps colonless plain portable => ?_⟩
  · rw [read] at decoded
    exact decodedSegments_of_decodeParts? sound consistent schemeless encoded decoded
  · cases own : readUrl? parser raw with
    | some _ => exact absolute (own ▸ rfl)
    | none =>
      obtain ⟨parts, query⟩ := Url.read_of_portable keeps colonless plain portable
        (Mapper.of_urlOfText? hostless own text)
      exact alike parts query

/-- A user comes back from the URL of a host, although a value holds a separator. -/
theorem decodeUrl?_buildUrl?_users :
    ∃ url, userTable.buildUrl? Url.parse? userRoute (some "https".toList)
        (some "example.com".toList) = some url ∧
      userTable.decodeUrl? url = some userRoute := by
  have encoded : userTable.encode? userRoute = some "users/7?tab=a%26b".toList := by cbv
  have survives : userTable.decode? Url.parse? "users/7?tab=a%26b".toList = some userRoute := by cbv
  let url := (userTable.buildUrl? Url.parse? userRoute (some "https".toList)
    (some "example.com".toList)).get (by decide +kernel)
  have special : url.scheme.kind = .special := by decide +kernel
  have letters : "example.com".toList.all (fun c => !Url.Trail.isSeparator true c
      && !Url.isDelimiter c) = true := by decide +kernel
  have untabbed : (Url.builtPath "users/7?tab=a%26b".toList).all (!Url.isTabOrNewline ·)
      = true := by decide +kernel
  have undelimited : (Url.builtPath "users/7?tab=a%26b".toList).all (fun c => c ≠ '?' ∧ c ≠ '#')
      = true := by decide +kernel
  have query : (RouteText.split "users/7?tab=a%26b".toList).2.all Url.keptInSpecialQuery
      = true := by decide +kernel
  have plain : Url.PlainHost url.scheme.kind (Mapper.givenHost {} (some "example.com".toList)) :=
    { undivided := fun c member => by simpa using List.all_eq_true.mp letters c member
      named := fun _ => by decide +kernel
      driveless := fun file => by simp [special] at file }
  have portable : Url.Portable url.scheme.kind "users/7?tab=a%26b".toList :=
    { inert :=
        { unbroken := fun c member => by simpa using List.all_eq_true.mp untabbed c member
          unslashed := by decide +kernel
          undotted := by decide +kernel
          unbarred := fun file => by simp [special] at file
          clean := fun c member => by simpa using List.all_eq_true.mp undelimited c member
          ended := by decide +kernel
          kept := List.all_eq_true.mp query }
      escaped := by decide +kernel }
  have built : userTable.buildUrl? Url.parse? userRoute (some "https".toList)
      (some "example.com".toList) = some url := (Option.some_get _).symm
  have native : userTable.mapper.candidates url ≠ [] := by decide +kernel
  obtain ⟨_, _, _, portably⟩ := decodeUrl?_buildUrl? valid_userEntries make_userEntries rfl rfl
    encoded survives built native
  exact ⟨url, built, portably Url.keepsPaths_parse? (by decide +kernel) plain portable⟩

/-- Items under a name in the path. -/
def itemEntries : List RouteEntry := [⟨"item".toList, "item/:id".toList⟩]

def itemTable : RouteTable :=
  { routes := [⟨"item".toList, "item/:id".toList, ["id".toList], []⟩], options := {} }

def itemRoute (id : Text) : TableRoute := ⟨"item".toList, .ofPairs [("id".toList, id)]⟩

/-- An item whose name holds an escape survives as a text, but not as a URL. -/
theorem decodeUrl?_buildUrl?_ne :
    ValidRoutes itemEntries ∧ make {} itemEntries = .ok itemTable ∧
      itemTable.route "item".toList [("id".toList, "%41".toList)] = .ok (itemRoute "%41".toList) ∧
      itemTable.encode? (itemRoute "%41".toList) = some "item/%41".toList ∧
      itemTable.decode? Url.parse? "item/%41".toList = some (itemRoute "%41".toList) ∧
      ∃ url, itemTable.buildUrl? Url.parse? (itemRoute "%41".toList) (some "myapp".toList)
          (some "app".toList) = some url ∧
        itemTable.mapper.candidates url = ["item/A".toList] ∧
        itemTable.decodeUrl? url = some (itemRoute "A".toList) := by
  refine ⟨by decide +kernel, by cbv, by cbv, by cbv, by cbv, ?_⟩
  let url := (itemTable.buildUrl? Url.parse? (itemRoute "%41".toList) (some "myapp".toList)
    (some "app".toList)).get (by decide +kernel)
  exact ⟨url, (Option.some_get _).symm, by decide +kernel, by decide +kernel⟩

end RouteTable
end DeepLink
