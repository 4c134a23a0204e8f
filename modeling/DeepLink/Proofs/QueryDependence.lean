import DeepLink.Proofs.Candidates
import DeepLink.Proofs.Normalization
import DeepLink.Proofs.RawRoundTrip

/-!
# Routing and queries

A mapper asks a query only for the keys of its registrations. Two queries that give these
keys the same values lead to the same route (`decode_eq_of_sameValues`), in a URL as well as in
a route text: further items, the order of items and overridden items do not matter.

The normal form of a route text has the same parts as the text up to its first `#`, and
gives every key the same value but the empty one, which no table asks for. So a table reads
both as the same route (`decode?_normalize`).
-/
namespace DeepLink

namespace Mapper

variable {ρ : Type} {mapper : Mapper ρ} {left right : Url}

/-! ### Values of registered keys -/

/-- Whether two queries give every key of every registration the same value. -/
def SameValues (mapper : Mapper ρ) (first second : Text) : Prop :=
  ∀ registration ∈ mapper.registrations, ∀ key ∈ registration.template.queryKeys,
    (Query.values first).get? key = (Query.values second).get? key

/-- Parts are read alike with queries that agree on the registered keys. -/
theorem decodeParts?_congr {first second : Text} (same : mapper.SameValues first second)
    (parts : List Text) :
    mapper.decodeParts? parts (Query.values first)
      = mapper.decodeParts? parts (Query.values second) := by
  refine findSome?_congr fun registration member => ?_
  rw [Registration.decode?, Registration.decode?, Template.match?_congr (same registration member)]

/-! ### URLs -/

/-- The parts that a URL is matched as come from its scheme, its host and its path. -/
theorem partLists_congr (options : MapperOptions) (scheme : left.scheme = right.scheme)
    (host : left.host = right.host) (path : left.path = right.path) :
    partLists options left = partLists options right := by
  have present : left.presentHost = right.presentHost := by
    rw [Url.Location.presentHost, host, ← Url.Location.presentHost]
  have segments : left.decodedSegments = right.decodedSegments := by
    rw [Url.decodedSegments, path, ← Url.decodedSegments]
  rw [partLists, scheme, present, segments, ← partLists]

theorem rejects_congr (scheme : left.scheme = right.scheme) (host : left.host = right.host) :
    mapper.rejects (.ofUrl left) = mapper.rejects (.ofUrl right) := by
  have present : left.presentHost = right.presentHost := by
    rw [Url.Location.presentHost, host, ← Url.Location.presentHost]
  rw [rejects, rejects, scheme_ofUrl, scheme_ofUrl, host_ofUrl, host_ofUrl, scheme, present]

/-! ### Routes -/

/-- Only the values of registered keys take part in routing, in a URL and in a route text
that is not read as a URL. -/
theorem decode_eq_of_sameValues (mapper : Mapper ρ) (parser : Url.Parser)
    (keyed : ∀ registration ∈ mapper.registrations, [] ∉ registration.template.queryKeys) :
    (∀ left right : Url, left.scheme = right.scheme → left.host = right.host →
        left.path = right.path →
        mapper.SameValues (left.query.getD []) (right.query.getD []) →
        mapper.decodeUrl? left = mapper.decodeUrl? right) ∧
      ∀ path first second : Text, '?' ∉ path →
        mapper.options.schemeInTemplate = true ∨ path.hasAuthorityMark = false →
        mapper.SameValues first second →
        mapper.decode? parser (path ++ '?' :: first)
          = mapper.decode? parser (path ++ '?' :: second) := by
  constructor
  · intro left right scheme host path same
    rw [decodeUrl?_eq_ite keyed, decodeUrl?_eq_ite keyed, rejects_congr scheme host,
      partLists_congr _ scheme host path]
    -- The lists of parts are the same, so only the values have to be compared.
    congr 1
    refine findSome?_congr fun parts _ => ?_
    rw [matchParts?_eq, matchParts?_eq, decodeParts?_congr same]
  · intro path first second free relative same
    have read (query : Text) : mapper.decode? parser (path ++ '?' :: query)
        = mapper.decodeParts? (RouteText.parts path) (Query.values query) := by
      rw [← decodeRelative?_append free]
      rcases relative with whole | unmarked
      · exact decode?_of_schemeInTemplate whole
      · apply decode?_of_unmarked
        rwa [RouteText.split_append free]
    rw [read, read, decodeParts?_congr same]

/-- An order is found by the last value of its number, whatever else the query holds. -/
theorem decode_eq_of_sameValues_orders :
    (∃ url, Url.parse? "myapp://shop/order?id=a%2Fb".toList = some url ∧
        orders.decodeUrl? url
          = orders.decodeUrl? { url with query := some "id=x&&sort&id=a%2fb".toList }) ∧
      orders.decode? Url.parse? "shop/order?id=7".toList
        = orders.decode? Url.parse? "shop/order?id&x=%FF&id=7".toList := by
  have keyed : ∀ registration ∈ orders.registrations,
      [] ∉ registration.template.queryKeys := by decide +kernel
  obtain ⟨urls, texts⟩ := decode_eq_of_sameValues orders Url.parse? keyed
  constructor
  · let url := (Url.parse? "myapp://shop/order?id=a%2Fb".toList).get (by decide +kernel)
    refine ⟨url, (Option.some_get _).symm, ?_⟩
    apply urls url { url with query := some "id=x&&sort&id=a%2fb".toList } rfl rfl rfl
    unfold SameValues
    decide +kernel
  · apply texts "shop/order".toList "id=7".toList "id&x=%FF&id=7".toList
    · decide +kernel
    · exact .inr (by decide +kernel)
    · unfold SameValues
      decide +kernel

end Mapper

/-! ### Normal forms of route texts -/

namespace RouteTable

open NormalForm

variable {table : RouteTable} {options : MapperOptions} {entries : List RouteEntry} {raw : Text}

/-- The normal form of a route text is the text up to its first `#`, for every table. -/
theorem decode?_normalize (parser : Url.Parser) (made : make options entries = .ok table)
    (unmarked : (RouteText.split raw).1.hasAuthorityMark = false) :
    table.decode? parser (normalize parser raw) = table.decode? parser (raw.before '#') := by
  have unread : readUrl? parser raw = none := by
    rw [readUrl?, unmarked, if_neg Bool.false_ne_true]
  have free : '?' ∉ (ofRaw raw).path := fun member => (clean_ofRaw raw _ member).1 rfl
  have halves : RouteText.split (normalize parser raw)
      = ((ofRaw raw).path, Query.encode (ofRaw raw).query) := by
    rw [normalize_of_none unread]
    exact split_withQuery _ free
  -- Neither text is read as a URL.
  have written : (RouteText.split (normalize parser raw)).1.hasAuthorityMark = false := by
    rw [halves]
    exact hasAuthorityMark_ofRaw raw
  have cut : (RouteText.split (raw.before '#')).1.hasAuthorityMark = false := by
    apply Text.hasAuthorityMark_of_isPrefix _ unmarked
    rw [RouteText.fst_split, RouteText.fst_split, Text.before_before]
    exact List.takeWhile_prefix _
  -- Their parts are the same, and so are the values of all keys but the empty one.
  have same : table.mapper.SameValues (Query.encode (ofRaw raw).query)
      (RouteText.split (raw.before '#')).2 := by
    intro registration member key required
    have filled : key ≠ [] := fun empty =>
      keyed_of_sound (patterns_sound made) registration member (empty ▸ required)
    exact Query.get?_values_encode_sorted filled _
  calc table.decode? parser (normalize parser raw)
      = table.mapper.decodeParts? (RouteText.parts (ofRaw raw).path)
          (Query.values (Query.encode (ofRaw raw).query)) := by
        rw [decode?, Mapper.decode?_of_unmarked written, Mapper.decodeRelative?_eq, halves]
    _ = table.mapper.decodeParts? (RouteText.parts (RouteText.split (raw.before '#')).1)
          (Query.values (RouteText.split (raw.before '#')).2) := by
        rw [parts_ofRaw, Mapper.decodeParts?_congr same]
    _ = table.decode? parser (raw.before '#') := by
        rw [decode?, Mapper.decode?_of_unmarked cut, Mapper.decodeRelative?_eq]

/-- A user behind an untidy text with a fragment. -/
theorem decode?_normalize_users :
    normalize Url.parse? "/users//7?x=%20&tab=a%26b#top".toList = "users/7?tab=a%26b&x=%20".toList ∧
      userTable.decode? Url.parse? "users/7?tab=a%26b&x=%20".toList
        = userTable.decode? Url.parse? "/users//7?x=%20&tab=a%26b".toList := by
  have form : normalize Url.parse? "/users//7?x=%20&tab=a%26b#top".toList
      = "users/7?tab=a%26b&x=%20".toList := by cbv
  have unmarked : (RouteText.split "/users//7?x=%20&tab=a%26b#top".toList).1.hasAuthorityMark
      = false := by decide +kernel
  have same := decode?_normalize Url.parse? make_userEntries unmarked
  rw [form] at same
  exact ⟨form, same⟩

end RouteTable
end DeepLink
