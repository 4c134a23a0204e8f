import DeepLink.Mapper
import DeepLink.Proofs.Matching
import DeepLink.Proofs.QueryCodec

/-!
# Laws of mappers

A mapper reads every text and every URL through path parts and query values
(`exists_parts_of_decode?`), and a text that it writes from parts is read as these parts,
with or without schemes in templates (`decode?_writeRendered`).
-/
namespace DeepLink.Mapper

variable {ρ : Type} {mapper : Mapper ρ} {parser : Url.Parser} {route : ρ} {raw : Text}

open RouteText (IsPart)

/-! ### Reading -/

theorem decodeRelative?_eq (raw : Text) :
    mapper.decodeRelative? raw
      = mapper.decodeParts? (RouteText.parts (RouteText.split raw).1)
          (Query.values (RouteText.split raw).2) := rfl

theorem decode?_of_unmarked (unmarked : (RouteText.split raw).1.hasAuthorityMark = false) :
    mapper.decode? parser raw = mapper.decodeRelative? raw := by
  rw [decode?, unmarked, Bool.and_false, if_neg Bool.false_ne_true]

theorem decode?_of_schemeInTemplate (whole : mapper.options.schemeInTemplate = true) :
    mapper.decode? parser raw = mapper.decodeRelative? raw := by
  rw [decode?, whole, Bool.not_true, Bool.false_and, if_neg Bool.false_ne_true]

theorem decodeRelative?_append {path : Text} (free : '?' ∉ path) (query : Text) :
    mapper.decodeRelative? (path ++ '?' :: query)
      = mapper.decodeParts? (RouteText.parts path) (Query.values query) := by
  rw [decodeRelative?_eq, RouteText.split_append free]

/-- Without schemes in templates a text with an authority mark is read as a URL only. -/
theorem decode?_of_schemeless (schemeless : mapper.options.schemeInTemplate = false) :
    mapper.decode? parser raw
      = if (RouteText.split raw).1.hasAuthorityMark then (parser raw).bind mapper.decodeUrl?
        else mapper.decodeRelative? raw := by
  rw [decode?, schemeless, Bool.not_false, Bool.true_and]

theorem exists_parts_of_decodeRelative? (decoded : mapper.decodeRelative? raw = some route) :
    ∃ parts query, (∀ part ∈ parts, IsPart part) ∧
      mapper.decodeParts? parts query = some route :=
  ⟨_, _, fun _ member => RouteText.isPart_of_mem (RouteText.not_mem_split raw) member, decoded⟩

theorem exists_parts_of_decodeUrl? {url : Url} (decoded : mapper.decodeUrl? url = some route) :
    ∃ parts query, (∀ part ∈ parts, IsPart part) ∧
      mapper.decodeParts? parts query = some route := by
  obtain ⟨candidate, _, found⟩ := List.exists_of_findSome?_eq_some decoded
  exact exists_parts_of_decodeRelative? found

theorem exists_parts_of_decode? (decoded : mapper.decode? parser raw = some route) :
    ∃ parts query, (∀ part ∈ parts, IsPart part) ∧
      mapper.decodeParts? parts query = some route := by
  unfold decode? at decoded
  split at decoded
  · obtain ⟨url, _, found⟩ := Option.bind_eq_some_iff.mp decoded
    exact exists_parts_of_decodeUrl? found
  · exact exists_parts_of_decodeRelative? decoded

/-! ### Writing -/

theorem parts_restoreAuthority (path : Text) :
    RouteText.parts (restoreAuthority path) = RouteText.parts path := by
  unfold restoreAuthority
  split
  next scheme rest found =>
    -- The slash that is put in stands beside another one, so it starts no part.
    obtain ⟨rfl, _⟩ := Text.eq_append_of_cut? found
    split
    · simp [RouteText.parts, Text.fields_append_cons]
    · rfl
  · rfl

theorem not_mem_restoreAuthority {path : Text} (free : '?' ∉ path) :
    '?' ∉ restoreAuthority path := by
  unfold restoreAuthority
  split
  next scheme rest found =>
    obtain ⟨rfl, _⟩ := Text.eq_append_of_cut? found
    split
    · simpa using free
    · exact free
  · exact free

/-- Without schemes in templates the path is written as it is. -/
theorem writeRendered_of_schemeless {options : MapperOptions}
    (schemeless : options.schemeInTemplate = false) (rendered : Rendered) :
    writeRendered options rendered
      = RouteText.join rendered.path (Query.encodePairs rendered.query) := by
  rw [writeRendered, schemeless, if_neg Bool.false_ne_true]

theorem split_writeRendered (options : MapperOptions) (rendered : Rendered)
    (free : '?' ∉ rendered.path) :
    ∃ path, RouteText.split (writeRendered options rendered)
        = (path, Query.encodePairs rendered.query) ∧
      RouteText.parts path = RouteText.parts rendered.path := by
  unfold writeRendered
  split
  · exact ⟨_, RouteText.split_join (not_mem_restoreAuthority free) _, parts_restoreAuthority _⟩
  · exact ⟨_, RouteText.split_join free _, rfl⟩

/-- A text written from parts is read as these parts, and never as a URL. -/
theorem decode?_writeRendered (mapper : Mapper ρ) (parser : Url.Parser) {parts : List Text}
    (valid : ∀ part ∈ parts, IsPart part) (pairs : List (Text × Text)) :
    mapper.decode? parser (writeRendered mapper.options ⟨Text.joinWith '/' parts, pairs⟩)
      = mapper.decodeParts? parts (.ofPairs pairs) := by
  have free : '?' ∉ Text.joinWith '/' parts := RouteText.not_mem_joinWith valid
  have unmarked := RouteText.unmarked_joinWith valid
  obtain ⟨path, halves, same⟩ :=
    split_writeRendered mapper.options ⟨Text.joinWith '/' parts, pairs⟩ free
  have relative : mapper.decodeRelative?
      (writeRendered mapper.options ⟨Text.joinWith '/' parts, pairs⟩)
        = mapper.decodeParts? parts (.ofPairs pairs) := by
    rw [decodeRelative?_eq, halves, same, RouteText.parts_joinWith valid,
      Query.values_encodePairs]
  unfold decode?
  split
  next marked =>
    -- Without schemes in templates nothing is restored, and joined parts have no authority mark.
    simp only [Bool.and_eq_true, Bool.not_eq_true'] at marked
    rw [writeRendered_of_schemeless marked.1, RouteText.split_join free, unmarked] at marked
    cases marked.2
  · exact relative

end DeepLink.Mapper
