import DeepLink.Proofs.UrlReading
import DeepLink.Proofs.WrittenForms

/-!
# Normalizing twice

A normal form is read in one of three ways: as a route text, as a link that has no authority mark
and so is read as a route text too, or by the parser of URLs. A route text loses its blank items
and its empty parts (`normalize_ofRaw_iff`, `normalize_unmarked_iff`). A link with an authority
mark stays as it is exactly if the parser reads it as a URL with the same normal form
(`normalize_marked_iff`). `normalize_normalize_iff` puts the three together.
-/
namespace DeepLink

open Url (Clean)

namespace NormalForm

variable {parser : Url.Parser} {form : NormalForm} {base raw : Text} {url : Url}

/-! ### Route texts -/

theorem normalize_of_some (read : readUrl? parser raw = some url) :
    normalize parser raw = (ofUrl url).render := by
  rw [normalize, read]

theorem normalize_of_none (read : readUrl? parser raw = none) :
    normalize parser raw = (ofRaw raw).render := by
  rw [normalize, read]

theorem readUrl?_withQuery (parser : Url.Parser) (free : '?' ∉ base) :
    readUrl? parser (form.withQuery base)
      = if base.hasAuthorityMark then parser (form.withQuery base) else none := by
  rw [readUrl?, split_withQuery form free]

/-- A text read as a route text keeps its query but for the blank items. -/
theorem ofRaw_withQuery (clean : Clean base)
    (ordered : form.query.Pairwise fun left right => Query.inOrder left right = true) :
    ofRaw (form.withQuery base)
      = ⟨none, none, Text.joinWith '/' (RouteText.parts base), form.query.filter (· ≠ .blank)⟩ := by
  -- Nothing that is written holds a number sign.
  have whole : (form.withQuery base).before '#' = form.withQuery base :=
    Text.before_eq_self (hash_not_mem_withQuery fun member => (clean _ member).2 rfl)
  have halves := split_withQuery form fun member : '?' ∈ base => (clean _ member).1 rfl
  simp only [ofRaw, whole, halves, Query.sorted_items_encode ordered]

theorem filter_ne_blank_eq_iff {list : List QueryItem} :
    list.filter (· ≠ .blank) = list ↔ .blank ∉ list := by
  rw [List.filter_eq_self]
  constructor
  · intro visible inside
    simpa using visible _ inside
  · intro absent item member
    simpa using fun same : item = .blank => absent (same ▸ member)

theorem clean_ofRaw (raw : Text) : Clean (ofRaw raw).path := by
  intro c member
  rcases Text.mem_joinWith member with rfl | ⟨part, among, inside⟩
  · decide
  · have inPath := (Text.mem_fields among).2.2 c inside
    refine ⟨?_, ?_⟩
    · rintro rfl
      exact RouteText.not_mem_split _ inPath
    · rintro rfl
      exact Text.not_mem_before (RouteText.mem_of_mem_split inPath)

theorem hasAuthorityMark_ofRaw (raw : Text) : (ofRaw raw).path.hasAuthorityMark = false :=
  Text.hasAuthorityMark_joinWith (fun _ member => (Text.mem_fields member).1)
    fun _ member => (Text.mem_fields member).2.1

/-- The parts were joined with slashes, so they come apart there. -/
theorem parts_ofRaw (raw : Text) :
    RouteText.parts (ofRaw raw).path = RouteText.parts (RouteText.split (raw.before '#')).1 :=
  Text.fields_joinWith_of_filled (fun _ member => (Text.mem_fields member).1)
    fun _ member => (Text.mem_fields member).2.1

/-- A route text is stable but for its blank items, whatever the parser of URLs. -/
theorem normalize_ofRaw_iff (parser : Url.Parser) (raw : Text) :
    normalize parser (ofRaw raw).render = (ofRaw raw).render ↔ .blank ∉ (ofRaw raw).query := by
  have clean := clean_ofRaw raw
  have free : '?' ∉ (ofRaw raw).path := fun member => (clean _ member).1 rfl
  have same : (ofRaw raw).render = (ofRaw raw).withQuery (ofRaw raw).path := rfl
  have unread : readUrl? parser (ofRaw raw).render = none := by
    rw [same, readUrl?_withQuery parser free, hasAuthorityMark_ofRaw]
    rfl
  have again : ofRaw (ofRaw raw).render
      = { ofRaw raw with query := (ofRaw raw).query.filter (· ≠ .blank) } := by
    rw [same, ofRaw_withQuery clean (Query.sorted_pairwise _), parts_ofRaw]
    rfl
  rw [normalize_of_none unread, again]
  refine (withQuery_eq_iff free free).trans ?_
  simp only [true_and]
  exact filter_ne_blank_eq_iff

/-! ### Links without an authority mark -/

/-- Whether a link is written with an authority mark: before its host, or in its path. -/
def Marked (form : NormalForm) : Prop :=
  form.host.isSome = true ∨ form.path.hasAuthorityMark = true

theorem question_not_mem_link (url : Url) :
    '?' ∉ url.scheme.text ++ ':' :: (ofUrl url).location (ofUrl url).path :=
  (wellFormed_ofUrl url).question_not_mem (not_mem_of_undelimited url.scheme.undelimited).2.1

theorem hasAuthorityMark_link (colonless : ':' ∉ url.scheme.text) :
    (url.scheme.text ++ ':' :: (ofUrl url).location (ofUrl url).path).hasAuthorityMark = true ↔
      (ofUrl url).Marked := by
  rw [Text.hasAuthorityMark_append colonless, Marked]
  cases present : (ofUrl url).host with
  | none =>
    rw [location_of_hostless present, Text.hasAuthorityMark_colon
      (Text.not_mem_head?_of_trimmed (wellFormed_ofUrl url).trimmed)]
    simp
  | some host =>
    rw [location_of_hosted present]
    simp [Text.hasAuthorityMark]

theorem readUrl?_of_unmarked (parser : Url.Parser) (colonless : ':' ∉ url.scheme.text)
    (unmarked : ¬ (ofUrl url).Marked) : readUrl? parser (ofUrl url).render = none := by
  rw [render_of_scheme rfl, readUrl?_withQuery parser (question_not_mem_link url),
    if_neg fun mark => unmarked ((hasAuthorityMark_link colonless).mp mark)]

theorem readUrl?_of_marked (parser : Url.Parser) (colonless : ':' ∉ url.scheme.text)
    (marked : (ofUrl url).Marked) :
    readUrl? parser (ofUrl url).render = parser (ofUrl url).render := by
  have mark := (hasAuthorityMark_link colonless).mpr marked
  rw [render_of_scheme rfl, readUrl?_withQuery parser (question_not_mem_link url), if_pos mark]

/-- A scheme and a path, as a link without a host is written before its query. -/
def hostlessText (url : Url) : Text := url.scheme.text ++ [':'] ++ (ofUrl url).path

theorem clean_hostlessText (url : Url) : Clean (hostlessText url) := by
  obtain ⟨_, noQuestion, noHash⟩ := not_mem_of_undelimited url.scheme.undelimited
  intro c member
  rcases List.mem_append.mp member with early | inPath
  · rcases List.mem_append.mp early with inScheme | colon
    · exact ⟨fun same => noQuestion (same ▸ inScheme), fun same => noHash (same ▸ inScheme)⟩
    · rw [List.mem_singleton.mp colon]
      decide
  · exact (wellFormed_ofUrl url).clean c inPath

/-- The scheme stands before the first part, which is not empty. -/
theorem joinWith_parts_hostlessText (url : Url) :
    Text.joinWith '/' (RouteText.parts (hostlessText url))
      = url.scheme.text ++ [':'] ++ Text.joinWith '/' ((ofUrl url).path.fields '/') := by
  have absent : '/' ∉ url.scheme.text ++ [':'] := by
    simp [(not_mem_of_undelimited url.scheme.undelimited).1]
  rw [RouteText.parts, hostlessText, Text.fields_append_of_head? absent (by simp)
    (Text.not_mem_head?_of_trimmed (wellFormed_ofUrl url).trimmed)]
  cases (ofUrl url).path.fields '/' with
  | nil => simp
  | cons first rest => cases rest <;> simp

/-- A link that reads as a route text is stable if it has no blank items and no empty parts. -/
theorem normalize_unmarked_iff (parser : Url.Parser) (colonless : ':' ∉ url.scheme.text)
    (unmarked : ¬ (ofUrl url).Marked) :
    normalize parser (ofUrl url).render = (ofUrl url).render ↔
      .blank ∉ (ofUrl url).query ∧
        ((ofUrl url).path = [] ∨ [] ∉ (ofUrl url).path.splitOn '/') := by
  have hostless : (ofUrl url).host = none := by
    by_contra present
    exact unmarked (.inl (Option.isSome_iff_ne_none.mpr present))
  have text : (ofUrl url).render = (ofUrl url).withQuery (hostlessText url) := by
    rw [render_of_scheme rfl, location_of_hostless hostless]
    simp [hostlessText]
  have free : '?' ∉ hostlessText url := fun member => (clean_hostlessText url _ member).1 rfl
  have partsFree : '?' ∉ Text.joinWith '/' (RouteText.parts (hostlessText url)) := by
    intro member
    rcases Text.mem_joinWith member with same | ⟨part, among, inside⟩
    · exact absurd same (by decide)
    · exact free ((Text.mem_fields among).2.2 _ inside)
  rw [normalize_of_none (readUrl?_of_unmarked parser colonless unmarked), text,
    ofRaw_withQuery (clean_hostlessText url) (wellFormed_ofUrl url).ordered]
  refine (withQuery_eq_iff partsFree free).trans ?_
  rw [joinWith_parts_hostlessText, hostlessText, List.append_right_inj,
    Text.joinWith_fields_eq_iff, filter_ne_blank_eq_iff]
  exact And.comm

/-! ### Links with an authority mark -/

/-- A route text has no authority mark, so a link with one is not written as such. -/
theorem render_ofRaw_ne (colonless : ':' ∉ url.scheme.text) (marked : (ofUrl url).Marked)
    (raw : Text) : (ofRaw raw).render ≠ (ofUrl url).render := by
  have rawFree : '?' ∉ (ofRaw raw).path := fun member => (clean_ofRaw raw _ member).1 rfl
  have plain : (ofRaw raw).render = (ofRaw raw).withQuery (ofRaw raw).path := rfl
  rw [plain, render_of_scheme rfl]
  intro same
  have base := ((withQuery_eq_iff rawFree (question_not_mem_link url)).mp same).1
  have mark := (hasAuthorityMark_link colonless).mpr marked
  rw [← base, hasAuthorityMark_ofRaw] at mark
  cases mark

/-- A written link ends its scheme with a colon. -/
theorem cut?_render (colonless : ':' ∉ url.scheme.text) :
    (ofUrl url).render.cut? ':' = some (url.scheme.text,
      (ofUrl url).withQuery ((ofUrl url).location (ofUrl url).path)) := by
  rw [render_of_scheme rfl, withQuery_append, ← Text.cut?_append colonless]
  congr 2
  exact withQuery_append (ofUrl url) [':'] _

/-- Two URLs are written alike only if their normal forms are the same. -/
theorem ofUrl_eq_of_render {left right : Url} (leftColonless : ':' ∉ left.scheme.text)
    (rightColonless : ':' ∉ right.scheme.text)
    (same : (ofUrl left).render = (ofUrl right).render) : ofUrl left = ofUrl right := by
  have cuts := congrArg (Text.cut? ':') same
  rw [cut?_render leftColonless, cut?_render rightColonless] at cuts
  have scheme : left.scheme.text = right.scheme.text :=
    (Prod.mk.inj (Option.some.inj cuts)).1
  have free := (not_mem_of_undelimited right.scheme.undelimited).2.1
  have schemes : (ofUrl left).scheme = some right.scheme.text := congrArg some scheme
  obtain ⟨⟨host, path⟩, query⟩ := (render_eq_iff free (wellFormed_ofUrl left)
    (wellFormed_ofUrl right) schemes rfl).mp same
  calc ofUrl left
      = ⟨some left.scheme.text, (ofUrl left).host, (ofUrl left).path, (ofUrl left).query⟩ := rfl
    _ = ofUrl right := by rw [scheme, host, path, query]; rfl

/-- A link with an authority mark is stable if it is read as a URL of the same normal form. -/
theorem normalize_marked_iff (schemes : parser.ColonlessSchemes)
    (colonless : ':' ∉ url.scheme.text) (marked : (ofUrl url).Marked) :
    normalize parser (ofUrl url).render = (ofUrl url).render ↔
      ∃ again, parser (ofUrl url).render = some again ∧ ofUrl again = ofUrl url := by
  have read := readUrl?_of_marked parser colonless marked
  cases found : parser (ofUrl url).render with
  | none =>
    rw [normalize_of_none (read.trans found)]
    simp [render_ofRaw_ne colonless marked]
  | some again =>
    rw [normalize_of_some (read.trans found)]
    simp only [Option.some.injEq, exists_eq_left']
    constructor
    · exact ofUrl_eq_of_render (schemes _ _ found) colonless
    · intro same
      rw [same]

/-! ### Normal forms of URLs -/

/-- What lets the normal form of a URL be written, read and written again without a change. -/
structure Stable (parser : Url.Parser) (url : Url) : Prop where
  link : (ofUrl url).Marked →
    ∃ again, parser (ofUrl url).render = some again ∧ ofUrl again = ofUrl url
  text : ¬ (ofUrl url).Marked →
    .blank ∉ (ofUrl url).query ∧ ((ofUrl url).path = [] ∨ [] ∉ (ofUrl url).path.splitOn '/')

theorem normalize_ofUrl_iff (schemes : parser.ColonlessSchemes)
    (colonless : ':' ∉ url.scheme.text) :
    normalize parser (ofUrl url).render = (ofUrl url).render ↔ Stable parser url := by
  by_cases marked : (ofUrl url).Marked
  · rw [normalize_marked_iff schemes colonless marked]
    exact ⟨fun read => ⟨fun _ => read, fun unmarked => absurd marked unmarked⟩,
      fun stable => stable.link marked⟩
  · rw [normalize_unmarked_iff parser colonless marked]
    exact ⟨fun plain => ⟨fun mark => absurd mark marked, fun _ => plain⟩,
      fun stable => stable.text marked⟩

theorem exists_read_of_readUrl? (read : readUrl? parser raw = some url) :
    parser raw = some url := by
  unfold readUrl? at read
  split at read
  · exact read
  · cases read

end NormalForm

/-! ### All texts -/

open NormalForm

/-- Exactly the texts with a stable normal form are normalized once and for all. A URL has one if
its written form is read as a URL of the same form or, where it has no authority mark, if it has
neither blank items nor empty parts; a text that is no URL, if it has no blank items. -/
theorem normalize_normalize_iff {parser : Url.Parser} (schemes : parser.ColonlessSchemes)
    (raw : Text) :
    normalize parser (normalize parser raw) = normalize parser raw ↔
      match readUrl? parser raw with
      | some url => Stable parser url
      | none => .blank ∉ (ofRaw raw).query := by
  cases read : readUrl? parser raw with
  | none =>
    rw [normalize_of_none read]
    exact normalize_ofRaw_iff parser raw
  | some url =>
    rw [normalize_of_some read]
    exact normalize_ofUrl_iff schemes (schemes raw url (exists_read_of_readUrl? read))

/-- A link whose escapes stay in its normal form is stable, and one whose escapes are decoded
once more is not. -/
theorem normalize_normalize_iff_links :
    normalize Url.parse? (normalize Url.parse? "MyApp://app/a%2Fb?b%26".toList)
        = normalize Url.parse? "MyApp://app/a%2Fb?b%26".toList ∧
      normalize Url.parse? (normalize Url.parse? "x://h/%2541".toList)
        ≠ normalize Url.parse? "x://h/%2541".toList := by
  have schemes := Url.colonlessSchemes_parse?
  constructor
  · let url := (Url.parse? "MyApp://app/a%2Fb?b%26".toList).get (by decide +kernel)
    let again := (Url.parse? (ofUrl url).render).get (by decide +kernel)
    have read : readUrl? Url.parse? "MyApp://app/a%2Fb?b%26".toList = some url :=
      (Option.some_get _).symm
    have reread : Url.parse? (ofUrl url).render = some again := (Option.some_get _).symm
    have same : ofUrl again = ofUrl url := by decide +kernel
    have hosted : (ofUrl url).host.isSome = true := by decide +kernel
    refine (normalize_normalize_iff schemes _).mpr ?_
    rw [read]
    exact ⟨fun _ => ⟨again, reread, same⟩, fun unmarked => absurd (.inl hosted) unmarked⟩
  · let url := (Url.parse? "x://h/%2541".toList).get (by decide +kernel)
    let again := (Url.parse? (ofUrl url).render).get (by decide +kernel)
    have read : readUrl? Url.parse? "x://h/%2541".toList = some url := (Option.some_get _).symm
    have reread : Url.parse? (ofUrl url).render = some again := (Option.some_get _).symm
    have different : ofUrl again ≠ ofUrl url := by decide +kernel
    have hosted : (ofUrl url).host.isSome = true := by decide +kernel
    intro stable
    have condition := (normalize_normalize_iff schemes _).mp stable
    rw [read] at condition
    obtain ⟨other, found, same⟩ := condition.link (.inl hosted)
    obtain rfl := Option.some.inj (reread.symm.trans found)
    exact different same

/-- An item that is no UTF-8 is read as a blank one, which leaves a question mark without a
query the first time and nothing the second time. -/
theorem normalize_normalize_ne :
    ¬ ∃ parser : Url.Parser,
      normalize parser (normalize parser "a?%FF".toList) = normalize parser "a?%FF".toList := by
  rintro ⟨parser, same⟩
  have unread : readUrl? parser "a?%FF".toList = none := if_neg (by decide)
  rw [normalize_of_none unread] at same
  have visible := (normalize_ofRaw_iff parser _).mp same
  apply visible
  exact (Query.sorted_perm _).mem_iff.mpr (by decide +kernel)

end DeepLink
