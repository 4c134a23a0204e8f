import DeepLink.Proofs.BuiltHost
import DeepLink.Proofs.Candidates
import Mathlib

/-!
# A mapper and its own URLs

A mapper puts its default scheme and host before a path as they are configured, but compares
them with the scheme and the host that were read from a URL. So it takes the URLs that it builds
if reading leaves its defaults as they are, up to the case of letters (`candidates_buildUrl?`).
Since a path has no part in scheme and host, it is enough to look at the URL of the bare defaults.

- A default host may hold what reading rewrites, such as a port or letters outside ASCII, and then
  each URL with this host is foreign.
- A route text that is a URL stands for itself, and may be foreign whatever the defaults are.
-/
namespace DeepLink

namespace Mapper

variable {ρ : Type} {mapper : Mapper ρ} {options : MapperOptions} {parser : Url.Parser}
  {scheme host raw : Text} {url own : Url}

theorem candidateTexts_ne_nil (options : MapperOptions) (form : NormalForm) :
    candidateTexts options form ≠ [] := by
  have filled (texts : List Text) :
      (if texts = [] then [form.relative] else texts.eraseDups) ≠ [] := by
    split
    · exact List.cons_ne_nil _ _
    next filled =>
      obtain ⟨text, member⟩ := List.exists_mem_of_ne_nil _ filled
      exact List.ne_nil_of_mem (List.mem_eraseDups.mpr member)
  exact filled _

/-- A URL has no candidates only if it is foreign. -/
theorem candidates_eq_nil_iff : mapper.candidates url = [] ↔ Foreign mapper.options url := by
  rw [← rejects_iff, candidates]
  split
  next rejected => simp [rejected]
  next accepted => simp [accepted, candidateTexts_ne_nil]

/-- A URL under the defaults is read from a text whose address is that of the bare defaults. -/
theorem exists_read_of_defaults (hostless : options.hostInTemplate = false)
    (defaultScheme : options.defaultScheme = some scheme)
    (defaultHost : options.defaultHost = some host) (unread : readUrl? parser raw = none)
    (built : urlOfText? options parser raw none none = some url) :
    ∃ tail, parser ((frontParts scheme host).1
      ++ ':' :: ((frontParts scheme host).2 ++ '/' :: tail)) = some url := by
  have given : givenScheme options none = scheme := by
    rw [givenScheme, defaultScheme]
    rfl
  have address : givenHost options none = host := by
    rw [givenHost, defaultHost]
    rfl
  have read := exists_read_of_urlOfText? hostless unread built
  rwa [given, address] at read

/-- A URL under the defaults has the scheme of the bare defaults, and no other host. -/
theorem eq_of_defaults {scheme? : Text → Option Url.Scheme}
    {host? : Url.Scheme → Text → Option Url.Host} (reads : parser.ReadsAuthority scheme? host?)
    (hostless : options.hostInTemplate = false)
    (defaultScheme : options.defaultScheme = some scheme)
    (defaultHost : options.defaultHost = some host)
    (bare : parser (scheme ++ "://".toList ++ host ++ ['/']) = some own)
    (unread : readUrl? parser raw = none)
    (built : urlOfText? options parser raw none none = some url) :
    own.scheme = url.scheme ∧
      ∀ expected ∈ own.presentHost, ∀ actual ∈ url.presentHost, expected = actual := by
  obtain ⟨tail, read⟩ := exists_read_of_defaults hostless defaultScheme defaultHost unread built
  obtain ⟨front, absent⟩ := frontParts_append scheme host
  rw [front, List.append_assoc, List.cons_append] at bare
  -- With a special scheme the bare defaults are a URL only if they name a host.
  have named (special : own.scheme.kind = .special) : Url.NamesHost (frontParts scheme host).2 :=
    Url.namesHost_of_authority? (reads.filled absent bare special)
  obtain ⟨sameScheme, sameHost⟩ :=
    reads.host_eq_of_append absent (two_le_count_frontParts scheme host) named bare read
  refine ⟨sameScheme, fun expected ownPresent actual present => ?_⟩
  rcases sameHost with same | ⟨_, missing | missing⟩
  · rw [Url.Location.presentHost, same, ← Url.Location.presentHost] at ownPresent
    exact Option.mem_unique ownPresent present
  · rw [missing] at ownPresent
    cases ownPresent
  · rw [missing] at present
    cases present

/-- A mapper takes the URL of a route that is not a URL by itself, if reading the bare defaults
leaves the scheme as it is, and the host unless there is none in the URL. -/
theorem candidates_buildUrl? (mapper : Mapper ρ) {scheme? : Text → Option Url.Scheme}
    {host? : Url.Scheme → Text → Option Url.Host} (reads : parser.ReadsAuthority scheme? host?)
    (hostless : mapper.options.hostInTemplate = false)
    (defaultScheme : mapper.options.defaultScheme = some scheme)
    (defaultHost : mapper.options.defaultHost = some host)
    (bare : parser (scheme ++ "://".toList ++ host ++ ['/']) = some own)
    (schemeKept : scheme.equalsIgnoringCase own.scheme.text = true)
    {route : ρ} (relative : ∀ raw, mapper.encode? route = some raw → readUrl? parser raw = none)
    (built : mapper.buildUrl? parser route none none = some url)
    (hostKept : url.presentHost = none ∨
      ∃ actual ∈ own.presentHost, host.equalsIgnoringCase actual = true) :
    mapper.candidates url ≠ [] := by
  obtain ⟨raw, encoded, built⟩ := Option.bind_eq_some_iff.mp built
  obtain ⟨sameScheme, sameHost⟩ := eq_of_defaults reads hostless defaultScheme defaultHost bare
    (relative raw encoded) built
  rw [Ne, candidates_eq_nil_iff]
  rintro (⟨expected, configured, different⟩ | ⟨_, expected, actual, configured, present, different⟩)
  · obtain rfl := Option.some.inj (defaultScheme.symm.trans configured)
    rw [← sameScheme, schemeKept] at different
    cases different
  · obtain rfl := Option.some.inj (defaultHost.symm.trans configured)
    rcases hostKept with missing | ⟨kept, ownPresent, same⟩
    · rw [missing] at present
      cases present
    · rw [← sameHost kept ownPresent actual present, same] at different
      cases different

end Mapper

namespace RouteTable

/-! ### Links under configured defaults -/

/-- The configuration of a home page and a link under a default scheme and host. -/
def linkConfig (scheme host : Text) : RouterConfig :=
  { mapper := .withDefaults scheme host, routes := linkEntries }

/-- The texts that the URL of a route stands for, where the configuration is valid. -/
def ownCandidates (parser : Url.Parser) (config : RouterConfig) (name : Text)
    (supplied : List (Text × Text)) : Option (List Text) := do
  let valid ← config.validate.toOption
  let table ← (ofConfig valid).toOption
  let route ← (table.route name supplied).toOption
  let url ← table.buildUrl? parser route none none
  return table.mapper.candidates url

def secureTable : RouteTable :=
  { linkTable with options := .withDefaults "HTTPS".toList "App.Example".toList }

theorem ofConfig_secure :
    ofConfig (linkConfig "HTTPS".toList "App.Example".toList) = .ok secureTable := by cbv

/-- Capital letters in the defaults do not make the URL of the home page foreign. -/
theorem candidates_buildUrl?_home :
    ofConfig (linkConfig "HTTPS".toList "App.Example".toList) = .ok secureTable ∧
      ∃ url, secureTable.buildUrl? Url.parse? homeRoute none none = some url ∧
        secureTable.mapper.candidates url ≠ [] := by
  have text : secureTable.mapper.encode? homeRoute = some "home".toList := by cbv
  have relative : ∀ raw, secureTable.mapper.encode? homeRoute = some raw →
      readUrl? Url.parse? raw = none := by
    intro raw encoded
    obtain rfl := Option.some.inj (text.symm.trans encoded)
    exact if_neg (by decide)
  have isBuilt : (secureTable.buildUrl? Url.parse? homeRoute none none).isSome := by decide +kernel
  obtain ⟨url, built⟩ := Option.isSome_iff_exists.mp isBuilt
  let own := (Url.parse? "HTTPS://App.Example/".toList).get (by decide +kernel)
  have bare : Url.parse? "HTTPS://App.Example/".toList = some own := (Option.some_get _).symm
  have schemeKept : Text.equalsIgnoringCase "HTTPS".toList own.scheme.text = true := by
    decide +kernel
  have hostKept : own.presentHost = some "app.example".toList := by decide +kernel
  exact ⟨ofConfig_secure, url, built, Mapper.candidates_buildUrl? secureTable.mapper
    Url.readsAuthority_parse? rfl rfl rfl bare schemeKept relative built
    (.inr ⟨_, hostKept, by decide +kernel⟩)⟩

/-- A link that is a URL leads to a foreign one, and a default host with a port or with letters
outside ASCII, or a default scheme behind a space, makes the URL of the home page foreign. -/
theorem ownCandidates_eq_nil :
    ownCandidates Url.parse? (linkConfig "myapp".toList "app".toList) "go".toList
        [("target".toList, "https://evil.example/x".toList)] = some [] ∧
      ownCandidates Url.parse? (linkConfig "https".toList "app:8080".toList) "home".toList []
        = some [] ∧
      ownCandidates Url.parse? (linkConfig "https".toList "b\u00fccher.example".toList)
        "home".toList [] = some [] ∧
      ownCandidates Url.parse? (linkConfig " myapp".toList "app".toList) "home".toList []
        = some [] := by
  decide +kernel

end RouteTable
end DeepLink
