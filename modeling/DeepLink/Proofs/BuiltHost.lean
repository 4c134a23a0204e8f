import DeepLink.Proofs.TableLaws
import DeepLink.Proofs.UrlReading
import Mathlib

/-!
# Hosts of built URLs

A built URL is the text of a scheme and a host with a slash and a route text behind it. So two
routes that are built under one scheme and one host lead to one scheme and one host, as long as
neither text is a URL by itself (`buildUrl?_host_eq`). After a special scheme this needs a host to
stop at, for slashes before a host do not count. In a `file` URL a path that starts with a drive
letter leaves no host.

All that is asked of the parser is that it reads the scheme and the host from where they stand
(`Url.Parser.ReadsAuthority`).
-/
namespace DeepLink

/-! ### Route texts under a scheme and a host -/

namespace Mapper

variable {options : MapperOptions} {raw : Text} {scheme host : Option Text} {url : Url}
  {parser : Url.Parser}

/-- The scheme of a built URL, as it is given or by default. -/
def givenScheme (options : MapperOptions) (scheme : Option Text) : Text :=
  (scheme <|> options.defaultScheme).getD []

/-- The host of a built URL, as it is given or by default. -/
def givenHost (options : MapperOptions) (host : Option Text) : Text :=
  (host <|> options.defaultHost).getD []

/-- A scheme and a host as they are written before a path, cut at the first colon. -/
def frontParts (scheme host : Text) : Text × Text :=
  ((scheme ++ "://".toList ++ host).cut? ':').getD ([], [])

theorem frontParts_append (scheme host : Text) :
    scheme ++ "://".toList ++ host
        = (frontParts scheme host).1 ++ ':' :: (frontParts scheme host).2 ∧
      ':' ∉ (frontParts scheme host).1 := by
  cases found : (scheme ++ "://".toList ++ host).cut? ':' with
  | none =>
    have absent := Text.cut?_eq_none_iff.mp found
    simp at absent
  | some halves =>
    rw [frontParts, found]
    exact Text.eq_append_of_cut? found

/-- A scheme without a colon is all that stands before the first one. -/
theorem frontParts_eq {scheme : Text} (plain : ':' ∉ scheme) (host : Text) :
    frontParts scheme host = (scheme, "//".toList ++ host) := by
  have apart : scheme ++ "://".toList ++ host = scheme ++ ':' :: ("//".toList ++ host) := by simp
  rw [frontParts, apart, Text.cut?_append plain, Option.getD_some]

/-- The two slashes before the host follow the first colon. -/
theorem two_le_count_frontParts (scheme host : Text) :
    2 ≤ (frontParts scheme host).2.count '/' := by
  by_cases plain : ':' ∈ scheme
  · obtain ⟨name, more, rfl, absent⟩ := List.eq_append_cons_of_mem plain
    have apart : name ++ ':' :: more ++ "://".toList ++ host
        = name ++ ':' :: (more ++ "://".toList ++ host) := by simp
    rw [frontParts, apart, Text.cut?_append absent, Option.getD_some, List.count_append,
      List.count_append]
    have slashes : "://".toList.count '/' = 2 := by decide
    omega
  · rw [frontParts_eq plain, List.count_append]
    have slashes : "//".toList.count '/' = 2 := by decide
    omega

/-- A route text that is not a URL is put behind scheme and host, without its first slashes. -/
theorem of_urlOfText? (hostless : options.hostInTemplate = false)
    (unread : readUrl? parser raw = none)
    (built : urlOfText? options parser raw scheme host = some url) :
    parser (RouteText.join (givenScheme options scheme ++ "://".toList ++ givenHost options host
        ++ '/' :: (RouteText.split raw).1.dropWhile (· == '/')) (RouteText.split raw).2)
      = some url := by
  have place (text path : Text) :
      placeHost options text path = (text, path.dropWhile (· == '/')) := by
    simp [placeHost, hostless]
  simp only [urlOfText?, unread, place, Option.bind_eq_bind] at built
  obtain ⟨name, given, rest⟩ := Option.bind_eq_some_iff.mp built
  split at rest
  · cases rest
  · rw [givenScheme, given, Option.getD_some, givenHost, ← rest]

/-- The URL of a route text is read from a text whose address does not depend on the route. -/
theorem exists_read_of_urlOfText? (hostless : options.hostInTemplate = false)
    (unread : readUrl? parser raw = none)
    (built : urlOfText? options parser raw scheme host = some url) :
    ∃ tail, parser ((frontParts (givenScheme options scheme) (givenHost options host)).1
      ++ ':' :: ((frontParts (givenScheme options scheme) (givenHost options host)).2
        ++ '/' :: tail)) = some url := by
  obtain ⟨front, _⟩ := frontParts_append (givenScheme options scheme) (givenHost options host)
  have read := of_urlOfText? hostless unread built
  rw [RouteText.join_append_cons, front, List.append_assoc, List.cons_append] at read
  exact ⟨_, read⟩

end Mapper

namespace RouteTable

/-! ### A table of links

Its second pattern is one placeholder, so that a value is the whole path of its text. -/

def linkEntries : List RouteEntry :=
  [⟨"home".toList, "home".toList⟩, ⟨"go".toList, "$\x7btarget\x7d".toList⟩]

def linkTable : RouteTable :=
  { routes :=
      [⟨"home".toList, "home".toList, [], []⟩,
        ⟨"go".toList, "$\x7btarget\x7d".toList, ["target".toList], []⟩]
    options := {} }

def homeRoute : TableRoute := ⟨"home".toList, .empty⟩

def linkRoute (target : Text) : TableRoute := ⟨"go".toList, .ofPairs [("target".toList, target)]⟩

/-! ### Built routes -/

variable {table : RouteTable} {scheme host : Option Text} {first second : TableRoute}
  {left right : Url}

/-- The text that names the host of the URLs built under a scheme and a host: what stands
between the first colon and the slash before the path. -/
def addressText (table : RouteTable) (scheme host : Option Text) : Text :=
  (Mapper.frontParts (Mapper.givenScheme table.options scheme)
    (Mapper.givenHost table.options host)).2

theorem buildUrl?_of_encode? (parser : Url.Parser) {route : TableRoute} {raw : Text}
    (encoded : table.encode? route = some raw) :
    table.buildUrl? parser route scheme host
      = Mapper.urlOfText? table.options parser raw scheme host := by
  rw [buildUrl?, Mapper.buildUrl?, ← encode?, encoded]
  rfl

/-- The values of two routes have no part in the scheme and the host of their URLs, if neither
text is a URL by itself. -/
theorem buildUrl?_host_eq {parser : Url.Parser} {scheme? : Text → Option Url.Scheme}
    {host? : Url.Scheme → Text → Option Url.Host} (reads : parser.ReadsAuthority scheme? host?)
    (hostless : table.options.hostInTemplate = false)
    (relative : ∀ raw, table.encode? first = some raw ∨ table.encode? second = some raw →
      readUrl? parser raw = none)
    (named : left.scheme.kind = .special → Url.NamesHost (table.addressText scheme host))
    (leftBuilt : table.buildUrl? parser first scheme host = some left)
    (rightBuilt : table.buildUrl? parser second scheme host = some right) :
    left.scheme = right.scheme ∧
      (left.host = right.host ∨
        left.scheme.kind = .file ∧ (left.presentHost = none ∨ right.presentHost = none)) := by
  obtain ⟨leftRaw, leftEncoded, leftBuilt⟩ := Option.bind_eq_some_iff.mp leftBuilt
  obtain ⟨rightRaw, rightEncoded, rightBuilt⟩ := Option.bind_eq_some_iff.mp rightBuilt
  obtain ⟨leftTail, leftRead⟩ := Mapper.exists_read_of_urlOfText? hostless
    (relative _ (.inl leftEncoded)) leftBuilt
  obtain ⟨rightTail, rightRead⟩ := Mapper.exists_read_of_urlOfText? hostless
    (relative _ (.inr rightEncoded)) rightBuilt
  obtain ⟨_, absent⟩ := Mapper.frontParts_append (Mapper.givenScheme table.options scheme)
    (Mapper.givenHost table.options host)
  exact reads.host_eq_of_append absent (Mapper.two_le_count_frontParts _ _) named leftRead rightRead

/-- A value that starts like an authority does not choose the host. -/
theorem buildUrl?_host_eq_links :
    ∃ left right,
      linkTable.buildUrl? Url.parse? homeRoute (some "https".toList) (some "app".toList)
        = some left ∧
      linkTable.buildUrl? Url.parse? (linkRoute "//evil.example/x".toList) (some "https".toList)
        (some "app".toList) = some right ∧
      left.host = right.host := by
  have homeText : linkTable.encode? homeRoute = some "home".toList := by cbv
  have linkText : linkTable.encode? (linkRoute "//evil.example/x".toList)
      = some "//evil.example/x".toList := by cbv
  have relative : ∀ raw, linkTable.encode? homeRoute = some raw ∨
      linkTable.encode? (linkRoute "//evil.example/x".toList) = some raw →
      readUrl? Url.parse? raw = none := by
    rintro raw (home | link)
    · obtain rfl := Option.some.inj (homeText.symm.trans home)
      exact if_neg (by decide)
    · obtain rfl := Option.some.inj (linkText.symm.trans link)
      exact if_neg (by decide)
  have named : Url.NamesHost
      (linkTable.addressText (some "https".toList) (some "app".toList)) := by decide +kernel
  let left := (linkTable.buildUrl? Url.parse? homeRoute (some "https".toList)
    (some "app".toList)).get (by decide +kernel)
  let right := (linkTable.buildUrl? Url.parse? (linkRoute "//evil.example/x".toList)
    (some "https".toList) (some "app".toList)).get (by decide +kernel)
  have special : left.scheme.kind = .special := by decide +kernel
  have leftBuilt : linkTable.buildUrl? Url.parse? homeRoute (some "https".toList)
      (some "app".toList) = some left := (Option.some_get _).symm
  have rightBuilt : linkTable.buildUrl? Url.parse? (linkRoute "//evil.example/x".toList)
      (some "https".toList) (some "app".toList) = some right := (Option.some_get _).symm
  obtain ⟨_, same⟩ := buildUrl?_host_eq Url.readsAuthority_parse? rfl relative (fun _ => named)
    leftBuilt rightBuilt
  refine ⟨left, right, leftBuilt, rightBuilt, same.resolve_right ?_⟩
  rintro ⟨file, _⟩
  rw [special] at file
  cases file

/-- The host of the URL that is built for a route with supplied values. -/
def builtHost? (table : RouteTable) (parser : Url.Parser) (name : Text)
    (supplied : List (Text × Text)) (scheme host : Option Text) : Option Text := do
  let route ← (table.route name supplied).toOption
  let url ← table.buildUrl? parser route scheme host
  return (← url.host).text

/-- A value chooses the host if it is a URL, if there is no host before it, and, in a `file`
URL, if it is a drive letter. -/
theorem builtHost?_ne :
    ValidRoutes linkEntries ∧ make {} linkEntries = .ok linkTable ∧
      (linkTable.builtHost? Url.parse? "home".toList [] (some "myapp".toList) (some "app".toList)
          = some "app".toList ∧
        linkTable.builtHost? Url.parse? "go".toList
          [("target".toList, "https://evil.example/x".toList)] (some "myapp".toList)
          (some "app".toList) = some "evil.example".toList) ∧
      (linkTable.builtHost? Url.parse? "home".toList [] (some " https".toList) none
          = some "home".toList ∧
        linkTable.builtHost? Url.parse? "go".toList [("target".toList, "evil.example".toList)]
          (some " https".toList) none = some "evil.example".toList) ∧
      linkTable.builtHost? Url.parse? "home".toList [] (some "file".toList) (some "app".toList)
          = some "app".toList ∧
        linkTable.builtHost? Url.parse? "go".toList [("target".toList, "C:".toList)]
          (some "file".toList) (some "app".toList) = some [] := by
  refine ⟨by decide +kernel, by cbv, ?_⟩
  decide +kernel

end RouteTable
end DeepLink
