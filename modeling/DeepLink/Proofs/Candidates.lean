import DeepLink.Proofs.MapperLaws
import DeepLink.Proofs.WrittenForms
import DeepLink.Url.Reading

/-!
# Candidates of URLs

A mapper reads a URL by writing candidate texts and taking them apart again. This loses
nothing: it is the same as matching lists of parts made from the scheme, the host and the
decoded segments of the URL against its own query values (`decodeUrl?_eq_findSome?`), as long
as no registration asks for the empty query key.
-/
namespace DeepLink

/-! ### Lists of parts -/

/-- The segments of the path that are not empty, each decoded where it can be. -/
def Url.decodedSegments (url : Url) : List Text :=
  (url.path.text.fields '/').map NormalForm.decodeSegment

namespace Mapper

/-- A scheme and its colon before parts: a part of its own before a host, else the start of
the first part. -/
def schemeParts (scheme : Text) (host : Option Text) (segments : List Text) : List Text :=
  match host, segments with
  | some host, segments => (scheme ++ [':']) :: host :: segments
  | none, [] => [scheme ++ [':']]
  | none, first :: rest => (scheme ++ ':' :: first) :: rest

/-- The lists of parts that a URL is matched as, in order. -/
def partLists (options : MapperOptions) (url : Url) : List (List Text) :=
  let host := url.presentHost
  let segments := url.decodedSegments
  let lists :=
    (if options.schemeInTemplate then [schemeParts url.scheme.text host segments] else [])
      ++ (if options.hostInTemplate ∧ (host.isSome ∨ segments ≠ []) then
            [host.toList ++ segments]
          else [])
      ++ (if segments ≠ [] then [segments] else [])
  if lists = [] then [[]] else lists

/-- A scheme or a host other than the default one, up to the case of letters. A host that
templates may hold is never foreign. -/
def Foreign (options : MapperOptions) (url : Url) : Prop :=
  (∃ expected, options.defaultScheme = some expected ∧
      expected.equalsIgnoringCase url.scheme.text = false) ∨
    options.hostInTemplate = false ∧
      ∃ expected actual, options.defaultHost = some expected ∧ url.presentHost = some actual ∧
        expected.equalsIgnoringCase actual = false

variable {ρ : Type} {mapper : Mapper ρ} {url : Url}

theorem host_ofUrl : (NormalForm.ofUrl url).host = url.presentHost := rfl

theorem scheme_ofUrl : (NormalForm.ofUrl url).scheme = some url.scheme.text := rfl

theorem differs_eq_true_iff {expected actual : Option Text} :
    differs expected actual = true ↔
      ∃ left right, expected = some left ∧ actual = some right ∧
        left.equalsIgnoringCase right = false := by
  cases expected <;> cases actual <;> simp [differs]

theorem rejects_iff : mapper.rejects (.ofUrl url) = true ↔ Foreign mapper.options url := by
  simp only [rejects, host_ofUrl, scheme_ofUrl, Bool.or_eq_true, Bool.and_eq_true,
    Bool.not_eq_true', differs_eq_true_iff, Foreign]
  constructor
  · rintro (⟨expected, actual, configured, given, different⟩ | foreignHost)
    · exact .inl ⟨expected, configured, Option.some.inj given ▸ different⟩
    · exact .inr foreignHost
  · rintro (⟨expected, configured, different⟩ | foreignHost)
    · exact .inl ⟨expected, _, configured, rfl, different⟩
    · exact .inr foreignHost

/-- Without schemes and hosts in templates, only the segments of a URL are matched. -/
theorem partLists_of_hostless {options : MapperOptions}
    (schemeless : options.schemeInTemplate = false) (hostless : options.hostInTemplate = false) :
    partLists options url = [url.decodedSegments] := by
  simp only [partLists, schemeless, hostless]
  by_cases empty : url.decodedSegments = [] <;> simp [empty]

/-- With hosts in templates, the host and the segments are matched first. -/
theorem partLists_of_hosted {options : MapperOptions}
    (schemeless : options.schemeInTemplate = false) (hosted : options.hostInTemplate = true) :
    partLists options url = (url.presentHost.toList ++ url.decodedSegments) ::
      if url.decodedSegments = [] then [] else [url.decodedSegments] := by
  simp only [partLists, schemeless, hosted]
  by_cases empty : url.decodedSegments = []
  · cases url.presentHost <;> simp [empty]
  · simp [empty]

/-! ### Texts with a query -/

/-- The route that parts stand for, with the query values of a URL. -/
def matchParts? (mapper : Mapper ρ) (url : Url) (parts : List Text) : Option ρ :=
  mapper.registrations.findSome? fun registration =>
    (registration.template.match? parts (Query.values (url.query.getD []))).bind
      registration.decode

theorem matchParts?_eq (url : Url) (parts : List Text) :
    mapper.matchParts? url parts = mapper.decodeParts? parts (Query.values (url.query.getD [])) :=
  rfl

/-- Sorting and encoding the query changes the value of no key. -/
theorem decodeRelative?_withQuery
    (keyed : ∀ registration ∈ mapper.registrations, [] ∉ registration.template.queryKeys)
    {base : Text} (free : '?' ∉ base) :
    mapper.decodeRelative? ((NormalForm.ofUrl url).withQuery base)
      = mapper.matchParts? url (RouteText.parts base) := by
  rw [decodeRelative?_eq, NormalForm.split_withQuery _ free, decodeParts?, matchParts?]
  refine findSome?_congr fun registration member => ?_
  have same : ∀ key ∈ registration.template.queryKeys,
      (Query.values (Query.encode (NormalForm.ofUrl url).query)).get? key
        = (Query.values (url.query.getD [])).get? key := by
    intro key required
    have filled : key ≠ [] := fun empty => keyed registration member (empty ▸ required)
    exact Query.get?_values_encode_sorted filled _
  rw [Registration.decode?, Template.match?_congr same, Option.bind_eq_bind]

/-! ### The parts of each text -/

theorem parts_path : RouteText.parts (NormalForm.ofUrl url).path = url.decodedSegments :=
  NormalForm.fields_decodePath url.path.text

theorem path_eq_nil_iff : (NormalForm.ofUrl url).path = [] ↔ url.decodedSegments = [] := by
  rw [Url.decodedSegments, List.map_eq_nil_iff]
  exact NormalForm.decodePath_eq_nil_iff

theorem question_not_mem_path : '?' ∉ (NormalForm.ofUrl url).path :=
  fun member => (NormalForm.clean_decodePath url.path.clean _ member).1 rfl

theorem not_mem_getD_presentHost (url : Url) :
    '/' ∉ url.presentHost.getD [] ∧ '?' ∉ url.presentHost.getD [] := by
  cases present : url.presentHost with
  | none => simp
  | some host =>
    obtain ⟨noSlash, noQuestion, _⟩ :=
      NormalForm.not_mem_of_undelimited (Url.of_presentHost present).2
    exact ⟨noSlash, noQuestion⟩

/-- The parts of a whole link. -/
theorem parts_render (url : Url) :
    ∃ base, (NormalForm.ofUrl url).render = (NormalForm.ofUrl url).withQuery base ∧
      '?' ∉ base ∧
      RouteText.parts base = schemeParts url.scheme.text url.presentHost url.decodedSegments := by
  obtain ⟨noSlash, noQuestion, _⟩ := NormalForm.not_mem_of_undelimited url.scheme.undelimited
  have noPathQuestion : '?' ∉ (NormalForm.ofUrl url).path := question_not_mem_path
  have schemeSlash : '/' ∉ url.scheme.text ++ [':'] := by simp [noSlash]
  cases present : url.presentHost with
  | some text =>
    obtain ⟨filled, undelimited⟩ := Url.of_presentHost present
    obtain ⟨hostSlash, hostQuestion, _⟩ := NormalForm.not_mem_of_undelimited undelimited
    let tail : Text :=
      if (NormalForm.ofUrl url).path = [] then [] else '/' :: (NormalForm.ofUrl url).path
    have tailFields : (text ++ tail).fields '/' = text :: url.decodedSegments := by
      by_cases empty : (NormalForm.ofUrl url).path = []
      · simp only [tail, if_pos empty, List.append_nil]
        rw [Text.fields_eq_singleton hostSlash filled, path_eq_nil_iff.mp empty]
      · simp only [tail, if_neg empty]
        rw [Text.fields_append_cons, Text.fields_eq_singleton hostSlash filled, ← parts_path]
        rfl
    refine ⟨(url.scheme.text ++ [':']) ++ '/' :: '/' :: (text ++ tail), ?_, ?_, ?_⟩
    · simp only [NormalForm.render, scheme_ofUrl, host_ofUrl, present, tail]
      congr 1
      simp
    · have tailQuestion : '?' ∉ tail := by
        simp only [tail]
        split
        · simp
        · simpa using noPathQuestion
      simp [noQuestion, hostQuestion, tailQuestion]
    · rw [RouteText.parts, Text.fields_append_cons, Text.fields_cons_self, tailFields,
        Text.fields_eq_singleton schemeSlash (by simp)]
      rfl
  | none =>
    refine ⟨(url.scheme.text ++ [':']) ++ (NormalForm.ofUrl url).path, ?_, ?_, ?_⟩
    · simp only [NormalForm.render, scheme_ofUrl, host_ofUrl, present]
      congr 1
      simp
    · simp [noQuestion, noPathQuestion]
    · have inner : '/' ∉ (NormalForm.ofUrl url).path.head? :=
        Text.not_mem_head?_of_trimmed (NormalForm.trimmed_decodePath url.path.text)
      rw [RouteText.parts, Text.fields_append_of_head? schemeSlash (by simp) inner,
        ← RouteText.parts, parts_path]
      cases url.decodedSegments with
      | nil => rfl
      | cons first rest => simp [schemeParts]

/-- The parts of a link without its scheme. -/
theorem parts_hostRelative (url : Url) :
    ∃ base, (NormalForm.ofUrl url).hostRelative = (NormalForm.ofUrl url).withQuery base ∧
      '?' ∉ base ∧ RouteText.parts base = url.presentHost.toList ++ url.decodedSegments := by
  have path_fields : (NormalForm.ofUrl url).path.fields '/' = url.decodedSegments := parts_path
  refine ⟨_, rfl, ?_, ?_⟩
  · intro question
    rcases Text.mem_joinWith question with same | ⟨piece, among, inside⟩
    · exact absurd same (by decide)
    · rw [host_ofUrl] at among
      have either := (List.mem_filter.mp among).1
      rcases List.mem_pair.mp either with rfl | rfl
      · exact (not_mem_getD_presentHost url).2 inside
      · exact question_not_mem_path inside
  · rw [host_ofUrl]
    cases present : url.presentHost with
    | some text =>
      obtain ⟨filled, undelimited⟩ := Url.of_presentHost present
      obtain ⟨hostSlash, hostQuestion, _⟩ := NormalForm.not_mem_of_undelimited undelimited
      by_cases empty : (NormalForm.ofUrl url).path = []
      · have bare := path_eq_nil_iff.mp empty
        simp [filled, empty, bare, RouteText.parts, Text.fields_eq_singleton hostSlash filled]
      · simp [filled, empty, RouteText.parts, Text.fields_append_cons,
          Text.fields_eq_singleton hostSlash filled, path_fields]
    | none =>
      by_cases empty : (NormalForm.ofUrl url).path = []
      · have bare := path_eq_nil_iff.mp empty
        simp [empty, bare, RouteText.parts]
      · simp [empty, RouteText.parts, path_fields]

theorem parts_hostOnly (url : Url) :
    RouteText.parts (url.presentHost.getD []) = url.presentHost.toList := by
  cases present : url.presentHost with
  | none => rfl
  | some host =>
    obtain ⟨filled, undelimited⟩ := Url.of_presentHost present
    exact Text.fields_eq_singleton (NormalForm.not_mem_of_undelimited undelimited).1 filled

/-! ### Reading a URL -/

/-- The texts that are tried give the same routes as the lists of parts. -/
theorem findSome?_candidateTexts
    (keyed : ∀ registration ∈ mapper.registrations, [] ∉ registration.template.queryKeys)
    (url : Url) :
    (candidateTexts mapper.options (.ofUrl url)).findSome? mapper.decodeRelative?
      = (partLists mapper.options url).findSome? (mapper.matchParts? url) := by
  have whole : mapper.decodeRelative? (NormalForm.ofUrl url).render
      = mapper.matchParts? url
          (schemeParts url.scheme.text url.presentHost url.decodedSegments) := by
    obtain ⟨base, text, free, parts⟩ := parts_render url
    rw [text, decodeRelative?_withQuery keyed free, parts]
  have hostRelative : mapper.decodeRelative? (NormalForm.ofUrl url).hostRelative
      = mapper.matchParts? url (url.presentHost.toList ++ url.decodedSegments) := by
    obtain ⟨base, text, free, parts⟩ := parts_hostRelative url
    rw [text, decodeRelative?_withQuery keyed free, parts]
  have relative : mapper.decodeRelative? (NormalForm.ofUrl url).relative
      = mapper.matchParts? url url.decodedSegments := by
    rw [NormalForm.relative, decodeRelative?_withQuery keyed question_not_mem_path, parts_path]
  have hostOnly : mapper.decodeRelative? (NormalForm.ofUrl url).hostOnly
      = mapper.matchParts? url url.presentHost.toList := by
    rw [NormalForm.hostOnly, host_ofUrl,
      decodeRelative?_withQuery keyed (not_mem_getD_presentHost url).2, parts_hostOnly]
  have noRepetition (texts : List Text) :
      (if texts = [] then [(NormalForm.ofUrl url).relative] else texts.eraseDups).findSome?
          mapper.decodeRelative?
        = (if texts = [] then [(NormalForm.ofUrl url).relative] else texts).findSome?
          mapper.decodeRelative? := by
    split
    · rfl
    · exact findSome?_eraseDups mapper.decodeRelative? texts
  unfold candidateTexts partLists
  rw [noRepetition]
  by_cases empty : url.decodedSegments = []
  · have path := path_eq_nil_iff.mpr empty
    cases present : url.presentHost with
    | none =>
      cases mapper.options.schemeInTemplate <;> cases mapper.options.hostInTemplate <;>
        simp [present, empty, path, host_ofUrl, whole, relative]
    | some host =>
      -- The host is tried twice here, once without the path that is not there.
      rw [present] at whole hostRelative hostOnly
      cases mapper.options.schemeInTemplate <;> cases mapper.options.hostInTemplate <;>
        simp only [present, empty, path, host_ofUrl] <;>
        simp [whole, hostRelative, relative, hostOnly, empty, List.findSome?_cons] <;>
        cases mapper.matchParts? url [host] <;> rfl
  · have path : (NormalForm.ofUrl url).path ≠ [] := fun bare => empty (path_eq_nil_iff.mp bare)
    cases mapper.options.schemeInTemplate <;> cases mapper.options.hostInTemplate <;>
      simp [empty, path, whole, hostRelative, relative, List.findSome?_cons]

/-- A URL that is not foreign is read by its lists of parts alone. -/
theorem decodeUrl?_eq_ite
    (keyed : ∀ registration ∈ mapper.registrations, [] ∉ registration.template.queryKeys)
    (url : Url) :
    mapper.decodeUrl? url
      = if mapper.rejects (.ofUrl url) then none
        else (partLists mapper.options url).findSome? (mapper.matchParts? url) := by
  rw [decodeUrl?, candidates]
  split
  · rfl
  · exact findSome?_candidateTexts keyed url

/-- A foreign URL has no route. Any other URL has the first route that one of its lists of
parts has, with its own query values. -/
theorem decodeUrl?_eq_findSome? (mapper : Mapper ρ)
    (keyed : ∀ registration ∈ mapper.registrations, [] ∉ registration.template.queryKeys)
    (url : Url) :
    (Foreign mapper.options url → mapper.decodeUrl? url = none) ∧
      (¬ Foreign mapper.options url →
        mapper.decodeUrl? url
          = (partLists mapper.options url).findSome? fun parts =>
              mapper.registrations.findSome? fun registration =>
                (registration.template.match? parts (Query.values (url.query.getD []))).bind
                  registration.decode) := by
  constructor
  · intro foreign
    rw [decodeUrl?, candidates, if_pos (rejects_iff.mpr foreign)]
    rfl
  · intro native
    rw [decodeUrl?, candidates, if_neg fun rejected => native (rejects_iff.mp rejected)]
    exact findSome?_candidateTexts keyed url

/-- Orders under a host, with their number in the query. -/
def orders : Mapper Text :=
  { registrations :=
      [.make "shop/order".toList ["id".toList] (·.get? "id".toList)
        fun id => some (.ofPairs [("id".toList, id)])]
    options := { defaultScheme := some "myapp".toList, hostInTemplate := true } }

theorem decodeUrl?_eq_findSome?_orders :
    ∃ url, Url.parse? "MyApp://shop//%6Frder/?x&id=a%2Fb".toList = some url ∧
      orders.decodeUrl? url = some "a/b".toList := by
  let url := (Url.parse? "MyApp://shop//%6Frder/?x&id=a%2Fb".toList).get (by decide +kernel)
  have keyed : ∀ registration ∈ orders.registrations,
      [] ∉ registration.template.queryKeys := by decide +kernel
  have native : orders.rejects (.ofUrl url) = false := by decide +kernel
  have found : (partLists orders.options url).findSome? (orders.matchParts? url)
      = some "a/b".toList := by decide +kernel
  have structured := (decodeUrl?_eq_findSome? orders keyed url).2 fun foreign => by
    simp [rejects_iff.mpr foreign] at native
  exact ⟨url, (Option.some_get _).symm, structured.trans found⟩

end Mapper
end DeepLink
