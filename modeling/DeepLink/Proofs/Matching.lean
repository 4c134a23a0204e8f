import DeepLink.Template
import DeepLink.Proofs.BindingLaws
import DeepLink.Proofs.Splitting
import DeepLink.Proofs.Traversal

/-!
# Matching and rendering

Matching a template and writing it are inverse to each other, seen one segment at a time:
captured parts are what the segments write (`write_of_capture?`), and written parts are
captured with the values they were written for (`capture?_of_write`).

A match depends on the query only through the keys of the template (`match?_congr`).
Compiling the text of a compiled template changes nothing (`compile_text`).
-/
namespace DeepLink

namespace Template

/-! ### Compiled texts -/

theorem braced_ne_nil (name : Text) : braced name ≠ [] := List.cons_ne_nil _ _

/-- Exactly the names that are not empty are read from between braces. -/
theorem bracedName?_eq_some_iff {text name : Text} :
    bracedName? text = some name ↔ text = braced name ∧ name ≠ [] := by
  constructor
  · intro read
    unfold bracedName? at read
    split at read
    next rest =>
      split at read
      next valid =>
        obtain rfl := Option.some.inj read
        obtain ⟨front, rfl⟩ := List.getLast?_eq_some_iff.mp valid.1
        exact ⟨by simp [braced], valid.2⟩
      · cases read
    · cases read
  · rintro ⟨rfl, filled⟩
    simp [bracedName?, braced, filled]

theorem bracedPart_ne_nil {part : Text} (filled : part ≠ []) : bracedPart part ≠ [] := by
  unfold bracedPart
  split
  · exact braced_ne_nil _
  · exact filled

theorem mem_bracedPart {part : Text} {c : Char} (member : c ∈ bracedPart part) :
    c ∈ part ∨ c = '$' ∨ c = '{' ∨ c = '}' := by
  unfold bracedPart at member
  split at member
  · simp only [braced, List.cons_append, List.mem_cons, List.mem_append, List.not_mem_nil] at *
    tauto
  · exact .inl member

theorem bracedPart_bracedPart (part : Text) : bracedPart (bracedPart part) = bracedPart part := by
  fun_cases bracedPart part with
  | case1 => rfl
  | case2 part other => rw [bracedPart]; exact other

theorem text_compile (path : Text) (keys : List Text) :
    (compile path keys).text = Text.joinWith '/' ((path.fields '/').map bracedPart) := rfl

/-- The parts of a compiled text are the parts it was compiled from, in braces. -/
theorem fields_text_compile (path : Text) (keys : List Text) :
    (compile path keys).text.fields '/' = (path.fields '/').map bracedPart := by
  -- A part in braces is not empty and has no slash.
  rw [text_compile, Text.fields_joinWith_of_filled]
  · intro piece member
    obtain ⟨part, among, rfl⟩ := List.mem_map.mp member
    exact bracedPart_ne_nil (Text.mem_fields among).1
  · intro piece member slash
    obtain ⟨part, among, rfl⟩ := List.mem_map.mp member
    rcases mem_bracedPart slash with inside | dollar | opening | closing
    · exact (Text.mem_fields among).2.1 inside
    all_goals contradiction

/-- The segments of a template are read from the parts of its path, in braces. -/
theorem segments_compile (path : Text) (keys : List Text) :
    (compile path keys).segments = ((path.fields '/').map bracedPart).map Segment.read := by
  rw [← fields_text_compile path keys]
  rfl

/-- The text and the segments of a template only depend on its parts in braces. -/
theorem compile_congr {path other : Text} (keys : List Text)
    (same : (path.fields '/').map bracedPart = (other.fields '/').map bracedPart) :
    compile path keys = compile other keys := by
  rw [compile, compile, same]

theorem compile_text (path : Text) (keys : List Text) :
    compile (compile path keys).text keys = compile path keys := by
  apply compile_congr
  rw [fields_text_compile, List.map_map]
  exact congrArg (List.map · _) (funext bracedPart_bracedPart)

theorem eq_of_read_literal {part text : Text} (read : Segment.read part = .literal text) :
    text = part := by
  unfold Segment.read at read
  split at read
  · cases read
  · exact (Segment.literal.inj read).symm

theorem mem_fields_of_literal {path text : Text} {keys : List Text}
    (member : Segment.literal text ∈ (compile path keys).segments) :
    text ∈ (compile path keys).text.fields '/' := by
  obtain ⟨part, among, read⟩ := List.mem_map.mp member
  obtain rfl := eq_of_read_literal read
  exact among

/-- A literal segment is a part of a path, unless the template text holds a question mark. -/
theorem isPart_of_literal {path text : Text} {keys : List Text} (free : '?' ∉ path)
    (member : Segment.literal text ∈ (compile path keys).segments) : RouteText.IsPart text := by
  -- Braces bring no question mark into a path.
  have noQuestion : '?' ∉ (compile path keys).text := by
    intro question
    rcases Text.mem_joinWith question with same | ⟨piece, inPath, inside⟩
    · exact absurd same (by decide)
    · obtain ⟨source, inFields, rfl⟩ := List.mem_map.mp inPath
      rcases mem_bracedPart inside with early | dollar | opening | closing
      · exact free ((Text.mem_fields inFields).2.2 _ early)
      all_goals contradiction
  exact RouteText.isPart_of_mem noQuestion (mem_fields_of_literal member)

/-! ### Capturing and writing -/

variable {params : Bindings} {segments : List Segment} {parts : List Text}
  {pairs : List (Text × Text)}

/-- The names of placeholders, in order. -/
def namesOf (segments : List Segment) : List Text :=
  segments.filterMap fun
    | .placeholder name => some name
    | .literal _ => none

theorem mem_namesOf {name : Text} : name ∈ namesOf segments ↔ .placeholder name ∈ segments := by
  simp only [namesOf, List.mem_filterMap]
  constructor
  · rintro ⟨segment, member, named⟩
    cases segment with
    | literal text => cases named
    | placeholder other => exact Option.some.inj named ▸ member
  · intro member
    exact ⟨_, member, rfl⟩

/-- Parts are captured by fewer and fewer segments, a literal one binding nothing. -/
theorem capture?_cons_eq_some_iff {segment : Segment} {part : Text} :
    capture? (segment :: segments) (part :: parts) = some pairs ↔
      (segment = .literal part ∧ capture? segments parts = some pairs) ∨
      ∃ name rest, segment = .placeholder name ∧ capture? segments parts = some rest ∧
        pairs = (name, part) :: rest := by
  cases segment with
  | literal text =>
    by_cases same : part = text
    · simp [capture?, same]
    · simp [capture?, same, Ne.symm same]
  | placeholder name =>
    simp only [capture?, Option.map_eq_some_iff]
    constructor
    · rintro ⟨rest, captured, rfl⟩
      exact .inr ⟨name, rest, rfl, captured, rfl⟩
    · rintro (⟨impossible, _⟩ | ⟨other, rest, same, captured, rfl⟩)
      · cases impossible
      · cases same
        exact ⟨rest, captured, rfl⟩

theorem capture?_nil_eq_some_iff :
    capture? [] parts = some pairs ↔ parts = [] ∧ pairs = [] := by
  cases parts <;> simp [capture?, eq_comm]

theorem capture?_nil_parts (segment : Segment) : capture? (segment :: segments) [] = none := by
  cases segment <;> rfl

theorem names_of_capture? (captured : capture? segments parts = some pairs) :
    pairs.map Prod.fst = namesOf segments := by
  induction segments generalizing parts pairs with
  | nil =>
    obtain ⟨_, rfl⟩ := capture?_nil_eq_some_iff.mp captured
    rfl
  | cons segment rest ih =>
    cases parts with
    | nil => simp [capture?_nil_parts] at captured
    | cons part others =>
      rcases capture?_cons_eq_some_iff.mp captured with ⟨rfl, inner⟩ | ⟨name, tail, rfl, inner, rfl⟩
      · exact ih inner
      · rw [List.map_cons, ih inner]
        rfl

theorem length_of_capture? (captured : capture? segments parts = some pairs) :
    parts.length = segments.length := by
  induction segments generalizing parts pairs with
  | nil =>
    obtain ⟨rfl, _⟩ := capture?_nil_eq_some_iff.mp captured
    rfl
  | cons segment rest ih =>
    cases parts with
    | nil => simp [capture?_nil_parts] at captured
    | cons part others =>
      rcases capture?_cons_eq_some_iff.mp captured with ⟨_, inner⟩ | ⟨_, _, _, inner, _⟩ <;>
        rw [List.length_cons, List.length_cons, ih inner]

theorem mem_parts_of_capture? (captured : capture? segments parts = some pairs)
    {pair : Text × Text} (member : pair ∈ pairs) : pair.2 ∈ parts := by
  induction segments generalizing parts pairs with
  | nil =>
    obtain ⟨_, rfl⟩ := capture?_nil_eq_some_iff.mp captured
    simp at member
  | cons segment rest ih =>
    cases parts with
    | nil => simp [capture?_nil_parts] at captured
    | cons part others =>
      rcases capture?_cons_eq_some_iff.mp captured with ⟨rfl, inner⟩ | ⟨name, tail, rfl, inner, rfl⟩
      · exact .tail _ (ih inner member)
      · rcases List.mem_cons.mp member with rfl | later
        · exact .head _
        · exact .tail _ (ih inner later)

/-- The segments write the parts back from any bindings of what was captured. -/
theorem write_of_capture? (captured : capture? segments parts = some pairs)
    (bound : ∀ pair ∈ pairs, params.get? pair.1 = some pair.2) :
    segments.mapM (writeSegment? params) = some parts := by
  rw [mapM_eq_some_iff]
  -- The segments and the parts get shorter together, the pairs only with the placeholders.
  induction segments generalizing parts pairs with
  | nil =>
    obtain ⟨rfl, _⟩ := capture?_nil_eq_some_iff.mp captured
    exact .nil
  | cons segment rest ih =>
    cases parts with
    | nil => simp [capture?_nil_parts] at captured
    | cons part others =>
      rcases capture?_cons_eq_some_iff.mp captured with ⟨rfl, inner⟩ | ⟨name, tail, rfl, inner, rfl⟩
      · exact .cons rfl (ih inner bound)
      · exact .cons (bound _ List.mem_cons_self)
          (ih inner fun pair member => bound pair (.tail _ member))

/-- What the segments write is captured, with the values it was written for. -/
theorem capture?_of_write (written : segments.mapM (writeSegment? params) = some parts) :
    ∃ pairs, capture? segments parts = some pairs ∧
      ∀ pair ∈ pairs, params.get? pair.1 = some pair.2 := by
  rw [mapM_eq_some_iff] at written
  -- The induction is on the relation of segments and the parts they write.
  induction written with
  | nil => exact ⟨[], rfl, by simp⟩
  | @cons segment part rest others first _ ih =>
    obtain ⟨pairs, captured, bound⟩ := ih
    cases segment with
    | literal text =>
      obtain rfl := Option.some.inj first
      exact ⟨pairs, capture?_cons_eq_some_iff.mpr (.inl ⟨rfl, captured⟩), bound⟩
    | placeholder name =>
      refine ⟨(name, part) :: pairs,
        capture?_cons_eq_some_iff.mpr (.inr ⟨name, pairs, rfl, captured, rfl⟩), ?_⟩
      intro pair member
      rcases List.mem_cons.mp member with rfl | later
      · exact first
      · exact bound pair later

/-- What holds of the literal segments and of the values of the names holds of what is written. -/
theorem forall_written {motive : Text → Prop}
    (wrote : segments.mapM (writeSegment? params) = some parts)
    (literals : ∀ text, .literal text ∈ segments → motive text)
    (values : ∀ name ∈ namesOf segments, ∀ value, params.get? name = some value → motive value) :
    ∀ part ∈ parts, motive part := by
  intro part member
  obtain ⟨segment, among, written⟩ := exists_of_mem_forall₂ (mapM_eq_some_iff.mp wrote) member
  cases segment with
  | literal text => exact Option.some.inj written ▸ literals text among
  | placeholder name => exact values name (mem_namesOf.mpr among) part written

/-! ### Named values -/

/-- A traversal of names that gives each name a value lists pairs with these names. -/
theorem mapM_named_eq_some_iff {names : List Text} {find? : Text → Option (Text × Text)}
    {holds : Text × Text → Prop}
    (meaning : ∀ name pair, find? name = some pair ↔ pair.1 = name ∧ holds pair) :
    names.mapM find? = some pairs ↔
      pairs.map Prod.fst = names ∧ ∀ pair ∈ pairs, holds pair := by
  rw [mapM_eq_some_iff]
  -- The names of the pairs fix the list that is traversed, so the induction is on the pairs.
  induction pairs generalizing names with
  | nil => cases names <;> simp
  | cons pair rest ih =>
    cases names with
    | nil => simp
    | cons name others =>
      rw [List.forall₂_cons, ih, meaning, List.map_cons, List.cons.injEq, List.forall_mem_cons]
      exact and_and_and_comm

theorem require?_eq_some_iff {query : Bindings} (key : Text) (pair : Text × Text) :
    require? query key = some pair ↔
      pair.1 = key ∧ query.get? pair.1 = some pair.2 ∧ pair.2 ≠ [] := by
  obtain ⟨name, value⟩ := pair
  constructor
  · intro required
    unfold require? at required
    split at required
    next held found =>
      split at required
      · cases required
      next filled =>
        cases required
        exact ⟨rfl, found, filled⟩
    · cases required
  · rintro ⟨rfl, found, filled⟩
    simp only at found filled
    simp [require?, found, filled]

theorem get?_named_eq_some_iff (name : Text) (pair : Text × Text) :
    (params.get? name).map ((name, ·)) = some pair ↔
      pair.1 = name ∧ params.get? pair.1 = some pair.2 := by
  obtain ⟨other, value⟩ := pair
  rw [Option.map_eq_some_iff]
  constructor
  · rintro ⟨held, found, same⟩
    cases same
    exact ⟨rfl, found⟩
  · rintro ⟨rfl, found⟩
    exact ⟨value, found, rfl⟩

/-! ### Whole templates -/

variable {template : Template} {query : Bindings}

/-- A match binds what the segments capture and the required query values. -/
theorem match?_eq_some_iff :
    template.match? parts query = some params ↔
      ∃ path values, capture? template.segments parts = some path ∧
        values.map Prod.fst = template.queryKeys ∧
        (∀ pair ∈ values, query.get? pair.1 = some pair.2 ∧ pair.2 ≠ []) ∧
        params = .ofPairs (path ++ values) := by
  simp only [match?, Option.bind_eq_bind, Option.bind_eq_some_iff, Option.pure_def,
    Option.some.injEq, mapM_named_eq_some_iff require?_eq_some_iff]
  constructor
  · rintro ⟨path, captured, values, ⟨named, found⟩, rfl⟩
    exact ⟨path, values, captured, named, found, rfl⟩
  · rintro ⟨path, values, captured, named, found, rfl⟩
    exact ⟨path, captured, values, ⟨named, found⟩, rfl⟩

/-- Rendering writes the segments and lists the values of the query keys. -/
theorem render?_eq_some_iff {rendered : Rendered} :
    template.render? params = some rendered ↔
      ∃ written, template.segments.mapM (writeSegment? params) = some written ∧
        rendered.path = Text.joinWith '/' written ∧
        rendered.query.map Prod.fst = template.queryKeys ∧
        ∀ pair ∈ rendered.query, params.get? pair.1 = some pair.2 := by
  obtain ⟨path, pairs⟩ := rendered
  simp only [render?, Option.bind_eq_bind, Option.bind_eq_some_iff, Option.pure_def,
    Option.some.injEq, mapM_named_eq_some_iff get?_named_eq_some_iff, Rendered.mk.injEq]
  constructor
  · rintro ⟨written, wrote, pairs, ⟨named, found⟩, rfl, rfl⟩
    exact ⟨written, wrote, rfl, named, found⟩
  · rintro ⟨written, wrote, rfl, named, found⟩
    exact ⟨written, wrote, pairs, ⟨named, found⟩, rfl, rfl⟩

theorem exists_render? (bound : ∀ name ∈ namesOf template.segments ++ template.queryKeys,
      (params.get? name).isSome) :
    ∃ written pairs, template.segments.mapM (writeSegment? params) = some written ∧
      template.render? params = some ⟨Text.joinWith '/' written, pairs⟩ := by
  -- Every segment and every key finds its value, so neither traversal fails.
  have eachSegment : ∀ segment ∈ template.segments,
      ∃ part, writeSegment? params segment = some part := by
    intro segment member
    cases segment with
    | literal text => exact ⟨text, rfl⟩
    | placeholder name =>
      exact Option.isSome_iff_exists.mp
        (bound name (List.mem_append_left _ (mem_namesOf.mpr member)))
  have eachKey : ∀ key ∈ template.queryKeys,
      ∃ pair, (params.get? key).map ((key, ·)) = some pair := by
    intro key member
    obtain ⟨value, found⟩ :=
      Option.isSome_iff_exists.mp (bound key (List.mem_append_right _ member))
    exact ⟨(key, value), by rw [found]; rfl⟩
  obtain ⟨written, wrote⟩ := exists_forall₂ eachSegment
  obtain ⟨pairs, named⟩ := exists_forall₂ eachKey
  have listed := (mapM_named_eq_some_iff get?_named_eq_some_iff).mp (mapM_eq_some_iff.mpr named)
  exact ⟨written, pairs, mapM_eq_some_iff.mpr wrote,
    render?_eq_some_iff.mpr ⟨written, mapM_eq_some_iff.mpr wrote, rfl, listed⟩⟩

/-- Only the values of required keys take part in a match. -/
theorem match?_congr {other : Bindings}
    (same : ∀ key ∈ template.queryKeys, query.get? key = other.get? key) :
    template.match? parts query = template.match? parts other := by
  have required (values : List (Text × Text)) (named : values.map Prod.fst = template.queryKeys) :
      (∀ pair ∈ values, query.get? pair.1 = some pair.2 ∧ pair.2 ≠ []) ↔
        ∀ pair ∈ values, other.get? pair.1 = some pair.2 ∧ pair.2 ≠ [] := by
    refine forall₂_congr fun pair member => ?_
    rw [same pair.1 (named ▸ List.mem_map_of_mem member)]
  -- Both matches bind the same things, because they ask for the same values.
  apply Option.ext
  intro params
  rw [match?_eq_some_iff, match?_eq_some_iff]
  refine exists_congr fun path => exists_congr fun values => and_congr_right fun _ => ?_
  exact ⟨fun ⟨named, found, bound⟩ => ⟨named, (required values named).mp found, bound⟩,
    fun ⟨named, found, bound⟩ => ⟨named, (required values named).mpr found, bound⟩⟩

/-- A template that binds no name twice. -/
def Distinct (template : Template) : Prop :=
  (namesOf template.segments ++ template.queryKeys).Nodup

theorem names_of_match (template : Template) {path values : List (Text × Text)}
    (captured : capture? template.segments parts = some path)
    (named : values.map Prod.fst = template.queryKeys) :
    (path ++ values).map Prod.fst = namesOf template.segments ++ template.queryKeys := by
  rw [List.map_append, names_of_capture? captured, named]

/-! ### Matching and rendering in turn -/

/-- Bindings of captured parts and of query values write these parts and values, if no name of a
segment is bound again. -/
theorem render?_of_capture? {path values : List (Text × Text)}
    (distinct : (namesOf template.segments).Nodup)
    (apart : ∀ name ∈ namesOf template.segments, name ∉ template.queryKeys)
    (captured : capture? template.segments parts = some path)
    (named : values.map Prod.fst = template.queryKeys)
    (held : ∀ pair ∈ values, query.get? pair.1 = some pair.2) :
    template.render? (.ofPairs (path ++ values)) = some ⟨Text.joinWith '/' parts, values⟩ := by
  have names := names_of_capture? captured
  -- A repeated key has its only value in the query, so repetitions bind it to the same value.
  have inQuery (name value : Text) : (Bindings.ofPairs values).get? name = some value ↔
      name ∈ template.queryKeys ∧ query.get? name = some value := by
    rw [Bindings.ofPairs_eq_restrict held, named, Bindings.get?_restrict_eq_some_iff]
  have pathBound : ∀ pair ∈ path,
      (Bindings.ofPairs (path ++ values)).get? pair.1 = some pair.2 := by
    intro pair member
    have name : pair.1 ∈ namesOf template.segments := names ▸ List.mem_map_of_mem member
    have unbound : (Bindings.ofPairs values).get? pair.1 = none :=
      Option.eq_none_iff_forall_not_mem.mpr fun value bound =>
        apart _ name ((inQuery _ value).mp bound).1
    rw [Bindings.get?_ofPairs_append, unbound, Option.none_or]
    exact (Bindings.get?_ofPairs_eq_some_iff (names ▸ distinct)).mpr member
  have queryBound : ∀ pair ∈ values,
      (Bindings.ofPairs (path ++ values)).get? pair.1 = some pair.2 := by
    intro pair member
    have bound := (inQuery pair.1 pair.2).mpr ⟨named ▸ List.mem_map_of_mem member, held pair member⟩
    rw [Bindings.get?_ofPairs_append, bound, Option.some_or]
  exact render?_eq_some_iff.mpr
    ⟨parts, write_of_capture? captured pathBound, rfl, named, queryBound⟩

/-- What bindings write is matched by the bindings of the names that were used, repeated or not. -/
theorem match?_of_write (wrote : template.segments.mapM (writeSegment? params) = some parts)
    (named : pairs.map Prod.fst = template.queryKeys)
    (held : ∀ pair ∈ pairs, params.get? pair.1 = some pair.2)
    (filled : ∀ pair ∈ pairs, pair.2 ≠ []) :
    template.match? parts (.ofPairs pairs)
      = some (params.restrict (namesOf template.segments ++ template.queryKeys)) := by
  obtain ⟨path, captured, bound⟩ := capture?_of_write wrote
  have agrees : ∀ pair ∈ path ++ pairs, params.get? pair.1 = some pair.2 := by
    intro pair member
    exact (List.mem_append.mp member).elim (bound pair) (held pair)
  have found : ∀ pair ∈ pairs, (Bindings.ofPairs pairs).get? pair.1 = some pair.2 := by
    intro pair member
    rw [Bindings.ofPairs_eq_restrict held, Bindings.get?_restrict_eq_some_iff]
    exact ⟨List.mem_map_of_mem member, held pair member⟩
  rw [← names_of_match template captured named, ← Bindings.ofPairs_eq_restrict agrees]
  exact match?_eq_some_iff.mpr ⟨path, pairs, captured, named,
    fun pair member => ⟨found pair member, filled pair member⟩, rfl⟩

end Template
end DeepLink
