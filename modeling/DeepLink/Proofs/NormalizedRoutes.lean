import DeepLink.Proofs.Normalization
import DeepLink.Proofs.RawRoundTrip
import Mathlib

/-!
# Normal forms of encoded routes

A table writes the query of a route in the order in which the pattern declares its keys, a normal
form has its items in ascending order of names. Nothing else tells the two texts apart, as long as
the text is read as the route and holds no number sign: it is then made of parts of a path, so it
is neither taken for a URL nor loses a part, and its pairs are read as they were written
(`normalize_join`). So the text is its own normal form exactly if the keys are declared in
ascending order (`RouteTable.normalize_encode?`).
-/
namespace DeepLink

open RouteText (IsPart)

/-! ### Sorted pairs -/

/-- Without repetitions, ascending means that no later text comes before an earlier one. -/
theorem Text.pairwise_precedes_iff {texts : List Text} (distinct : texts.Nodup) :
    texts.Pairwise (fun left right => left.precedes right = true) ↔
      texts.Pairwise fun left right => right.precedes left = false := by
  constructor
  · exact fun ascending => ascending.imp precedes_asymm
  · intro ordered
    refine (distinct.and ordered).imp fun ⟨different, behind⟩ => ?_
    exact (precedes_total different).resolve_right (by simp [behind])

namespace Query

variable {pairs : List (Text × Text)}

/-- The pairs in ascending order of their keys; pairs of one key keep their order. -/
def sortedPairs (pairs : List (Text × Text)) : List (Text × Text) :=
  pairs.mergeSort fun left right => !right.1.precedes left.1

theorem sorted_items_encodePairs (pairs : List (Text × Text)) :
    sorted (items (encodePairs pairs))
      = (sortedPairs pairs).map fun pair => ⟨pair.1, some pair.2⟩ := by
  rw [items_encodePairs, sorted, sortedPairs, List.map_mergeSort]
  exact fun _ _ _ _ => rfl

theorem encodePairs_injective : Function.Injective encodePairs := by
  intro left right same
  have read := congrArg items same
  rw [items_encodePairs, items_encodePairs] at read
  refine Function.Injective.list_map ?_ read
  rintro ⟨key, value⟩ ⟨_, _⟩ ⟨⟩
  rfl

theorem encodePairs_eq_nil_iff : encodePairs pairs = [] ↔ pairs = [] :=
  encodePairs_injective.eq_iff' rfl

/-- Sorting changes nothing if no key comes before an earlier one. -/
theorem sortedPairs_eq_self_iff :
    sortedPairs pairs = pairs ↔
      (pairs.map Prod.fst).Pairwise fun left right => right.precedes left = false := by
  rw [List.pairwise_map]
  constructor
  · intro same
    have ordered := sorted_pairwise (items (encodePairs pairs))
    rw [sorted_items_encodePairs, same, List.pairwise_map] at ordered
    exact ordered.imp fun inOrder => by simpa [Query.inOrder] using inOrder
  · intro ordered
    exact List.mergeSort_of_pairwise (ordered.imp fun behind => by simp [behind])

end Query

/-! ### Texts of parts and pairs -/

namespace NormalForm

variable {parts : List Text} {pairs : List (Text × Text)}

/-- A form whose items are pairs is written with the text of the pairs. -/
theorem withQuery_eq_join {form : NormalForm} (base : Text)
    (same : form.query = pairs.map fun pair => ⟨pair.1, some pair.2⟩) :
    form.withQuery base = RouteText.join base (Query.encodePairs pairs) := by
  rw [withQuery_eq, queryText?, same, ← Query.encodePairs, RouteText.join]
  simp only [List.map_eq_nil_iff, Query.encodePairs_eq_nil_iff]
  split
  · simp
  · rfl

/-- A text of parts and pairs is normalized by sorting the pairs. -/
theorem normalize_join (parser : Url.Parser) (valid : ∀ part ∈ parts, IsPart part)
    (whole : '#' ∉ RouteText.join (Text.joinWith '/' parts) (Query.encodePairs pairs)) :
    normalize parser (RouteText.join (Text.joinWith '/' parts) (Query.encodePairs pairs))
      = RouteText.join (Text.joinWith '/' parts)
          (Query.encodePairs (Query.sortedPairs pairs)) := by
  let raw := RouteText.join (Text.joinWith '/' parts) (Query.encodePairs pairs)
  have halves : RouteText.split raw = (Text.joinWith '/' parts, Query.encodePairs pairs) :=
    RouteText.split_join (RouteText.not_mem_joinWith valid) _
  have unread : readUrl? parser raw = none := by
    rw [readUrl?, halves, RouteText.unmarked_joinWith valid]
    rfl
  have form : ofRaw raw = ⟨none, none, Text.joinWith '/' parts,
      (Query.sortedPairs pairs).map fun pair => ⟨pair.1, some pair.2⟩⟩ := by
    rw [ofRaw, Text.before_eq_self whole, halves, ← Query.sorted_items_encodePairs]
    simp only [RouteText.parts_joinWith valid]
  rw [normalize_of_none unread, form]
  exact withQuery_eq_join _ rfl

theorem normalize_join_eq_self_iff (parser : Url.Parser) (valid : ∀ part ∈ parts, IsPart part)
    (whole : '#' ∉ RouteText.join (Text.joinWith '/' parts) (Query.encodePairs pairs)) :
    normalize parser (RouteText.join (Text.joinWith '/' parts) (Query.encodePairs pairs))
        = RouteText.join (Text.joinWith '/' parts) (Query.encodePairs pairs) ↔
      (pairs.map Prod.fst).Pairwise fun left right => right.precedes left = false := by
  have free := RouteText.not_mem_joinWith valid
  rw [normalize_join parser valid whole, ← Query.sortedPairs_eq_self_iff,
    ← Query.encodePairs_injective.eq_iff]
  constructor
  · intro same
    have halves := congrArg RouteText.split same
    rw [RouteText.split_join free, RouteText.split_join free] at halves
    exact (Prod.mk.inj halves).2
  · intro same
    rw [same]

end NormalForm

/-! ### Encoded routes -/

namespace RouteTable

variable {table : RouteTable} {named : NamedPattern} {route : TableRoute} {raw : Text}
  {parser : Url.Parser}

theorem keys_queryPairs : (named.queryPairs route).map Prod.fst = named.pattern.queryKeys := by
  rw [NamedPattern.queryPairs, List.map_map]
  rfl

/-- A text that is read as the route that it was written for is made of parts of a path and the
pairs of the route. -/
theorem exists_parts_of_encode? (sound : table.Sound)
    (schemeless : table.options.schemeInTemplate = false) (member : named ∈ table.routes)
    (consistent : named.ScannerConsistent) (complete : Complete named route)
    (encoded : table.encode? route = some raw) (read : table.decode? parser raw = some route) :
    ∃ parts, (∀ part ∈ parts, IsPart part) ∧
      raw = RouteText.join (Text.joinWith '/' parts)
        (Query.encodePairs (named.queryPairs route)) := by
  have patternSound := sound.patterns named member
  have readable := readable_of_read sound member complete.name_eq read
  obtain ⟨params, written, given, wrote, rendered⟩ :=
    exists_written patternSound consistent complete
  obtain ⟨clean, _⟩ :=
    decode?_of_readable patternSound consistent complete readable given wrote rendered
  rw [encode?_of_render? sound member complete.name_eq given rendered,
    Mapper.writeRendered_of_schemeless schemeless] at encoded
  exact ⟨written, clean, (Option.some.inj encoded).symm⟩

/-- The normal form of the text of a route has the same path and the pairs of the route in
ascending order of their keys, if the text is read as the route and holds no number sign. So the
text is its own normal form exactly if the pattern declares its keys in ascending order. -/
theorem normalize_encode? (parser : Url.Parser) (options : MapperOptions)
    {entries : List RouteEntry} (valid : ValidRoutes entries)
    (schemeless : options.schemeInTemplate = false) :
    ∃ table, make options entries = .ok table ∧
      ∀ named ∈ table.routes, named.ScannerConsistent →
        ∀ supplied route, table.route named.name supplied = .ok route →
          ∀ raw, table.encode? route = some raw → table.decode? parser raw = some route →
            '#' ∉ raw →
            (∃ path, RouteText.split raw = (path, Query.encodePairs (named.queryPairs route)) ∧
              normalize parser raw = RouteText.join path
                (Query.encodePairs (Query.sortedPairs (named.queryPairs route)))) ∧
            (normalize parser raw = raw ↔ named.pattern.queryKeys.Pairwise
              fun left right => left.precedes right = true) := by
  obtain ⟨table, made⟩ := exists_make options valid
  have sound := sound_of_make valid made
  obtain ⟨rfl, _⟩ := make_eq_ok_iff.mp made
  refine ⟨table, made,
    fun named member consistent supplied route supply raw encoded read whole => ?_⟩
  have complete := complete_of_route sound member supply
  obtain ⟨parts, clean, rfl⟩ :=
    exists_parts_of_encode? sound schemeless member consistent complete encoded read
  have distinct : named.pattern.queryKeys.Nodup :=
    (List.nodup_append'.mp (sound.patterns named member).bound_nodup).2.1
  refine ⟨⟨_, RouteText.split_join (RouteText.not_mem_joinWith clean) _,
    NormalForm.normalize_join parser clean whole⟩, ?_⟩
  rw [NormalForm.normalize_join_eq_self_iff parser clean whole, keys_queryPairs,
    Text.pairwise_precedes_iff distinct]

/-! A table of lists, whose pattern does not declare its keys in ascending order. -/

def listEntries : List RouteEntry :=
  [⟨"list".toList, "list/:page?to=$\x7bto\x7d&by=$\x7bname\x7d".toList⟩]

def listTable : RouteTable :=
  { routes :=
      [⟨"list".toList, "list/:page".toList, ["page".toList],
        [⟨"to".toList, "to".toList⟩, ⟨"by".toList, "name".toList⟩]⟩]
    options := { hostInTemplate := true } }

def listRoute : TableRoute :=
  ⟨"list".toList, .ofPairs [("page".toList, "%41:".toList), ("name".toList, "a&b".toList),
    ("to".toList, "http://x/#é".toList)]⟩

/-- The two items of a list change places, and neither the path nor a value changes. -/
theorem normalize_encode?_list :
    normalize Url.parse? "list/%41:?to=http%3A%2F%2Fx%2F%23%C3%A9&by=a%26b".toList
        = "list/%41:?by=a%26b&to=http%3A%2F%2Fx%2F%23%C3%A9".toList ∧
      normalize Url.parse? "list/%41:?to=http%3A%2F%2Fx%2F%23%C3%A9&by=a%26b".toList
        ≠ "list/%41:?to=http%3A%2F%2Fx%2F%23%C3%A9&by=a%26b".toList := by
  have valid : ValidRoutes listEntries := by decide +kernel
  obtain ⟨table, made, sorts⟩ := normalize_encode? Url.parse? { hostInTemplate := true } valid rfl
  have listed : make { hostInTemplate := true } listEntries = .ok listTable := by cbv
  obtain rfl := Except.ok.inj (listed.symm.trans made)
  have supplied : listTable.route "list".toList [("page".toList, "%41:".toList),
      ("name".toList, "a&b".toList), ("to".toList, "http://x/#é".toList)] = .ok listRoute := by cbv
  have encoded : listTable.encode? listRoute
      = some "list/%41:?to=http%3A%2F%2Fx%2F%23%C3%A9&by=a%26b".toList := by cbv
  have read : listTable.decode? Url.parse? "list/%41:?to=http%3A%2F%2Fx%2F%23%C3%A9&by=a%26b".toList
      = some listRoute := by cbv
  obtain ⟨⟨path, halves, sorted⟩, ascending⟩ := sorts _ (.head _) (by decide +kernel) _ _ supplied
    _ encoded read (by decide +kernel)
  refine ⟨?_, fun same => ?_⟩
  · have front := congrArg Prod.fst halves
    obtain rfl : "list/%41:".toList = path := front
    rw [sorted]
    cbv
  · have declared := ascending.mp same
    revert declared
    decide +kernel

end RouteTable
end DeepLink
