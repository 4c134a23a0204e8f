import DeepLink.Proofs.ParsedPattern

/-!
# The grammar of patterns

The pieces of the query of a pattern are written bindings, no name is declared twice, and the keys
differ from each other and from the names of the path (`Pattern.Grammatical`). A text that is no
such pattern has a first fault: bad pieces come before repeated names, and these before keys that
are taken (`Pattern.Fault`). The parser accepts exactly the grammar, and reports exactly the first
fault (`Pattern.parse_iff_grammatical_and_fault`).
-/
namespace DeepLink.Pattern

variable {path piece : Text} {pieces : List Text} {pattern : Pattern} {error : PatternError}

/-- What a text with the given path and the given pieces of a query is read as. -/
structure Grammatical (path : Text) (pieces : List Text) (pattern : Pattern) : Prop where
  path_eq : pattern.path = path
  pathNames_eq : pattern.pathNames = placeholders path
  spelled : Spells pieces pattern.query
  names_nodup : (pattern.pathNames ++ pattern.query.map (·.name)).Nodup
  keys_nodup : (pattern.query.map (·.key)).Nodup
  keys_apart : ∀ binding ∈ pattern.query, binding.key ∉ pattern.pathNames

/-- Whether a piece is `key=${name}`, cut at its first equals sign, with a key and a name. -/
def IsBinding (piece : Text) : Prop :=
  ∃ binding : QueryBinding, binding.Valid ∧ piece = writeBinding binding

/-- The first piece that is no binding. -/
def FirstBad (pieces : List Text) (piece : Text) : Prop :=
  ∃ before after, pieces = before ++ piece :: after ∧ (∀ earlier ∈ before, IsBinding earlier) ∧
    ¬ IsBinding piece

/-- The first text that stands among given ones or occurs earlier. -/
def FirstTaken (given texts : List Text) (text : Text) : Prop :=
  ∃ before after, texts = before ++ text :: after ∧
    (before.Nodup ∧ ∀ earlier ∈ before, earlier ∉ given) ∧ (text ∈ given ∨ text ∈ before)

/-- The fault that is reported of a text with the given path and the given pieces of a query. -/
inductive Fault (path : Text) (pieces : List Text) : PatternError → Prop where
  | emptyKey {value : Text} (bad : FirstBad pieces ('=' :: value)) :
      Fault path pieces (.emptyQueryKey ('=' :: value))
  | noPlaceholder {piece key value : Text} (bad : FirstBad pieces piece) (keyed : key ≠ [])
      (halves : Halves piece key value) : Fault path pieces (.valueNotPlaceholder key value)
  | repeatedName {bindings : List QueryBinding} {name : Text} (spelled : Spells pieces bindings)
      (first : FirstTaken [] (placeholders path ++ bindings.map (·.name)) name) :
      Fault path pieces (.duplicatePlaceholder name)
  | takenKey {bindings : List QueryBinding} {key : Text} (spelled : Spells pieces bindings)
      (distinct : (placeholders path ++ bindings.map (·.name)).Nodup)
      (first : FirstTaken (placeholders path) (bindings.map (·.key)) key) :
      Fault path pieces (.duplicateQueryKey key)

theorem isBinding_iff : IsBinding piece ↔ ∃ binding, readBinding piece = .ok binding := by
  simp only [IsBinding, readBinding_eq_ok_iff, and_comm]

theorem firstTaken_iff {given texts : List Text} {text : Text} :
    FirstTaken given texts text ↔ firstRepeated given texts = some text := by
  simp only [FirstTaken, firstRepeated_eq_some_iff, firstRepeated_eq_none_iff]

/-- The bindings cannot be read exactly if some piece is bad, and the first one is reported. -/
theorem mapM_readBinding_eq_error_iff (filled : ∀ piece ∈ pieces, piece ≠ []) :
    pieces.mapM readBinding = .error error ↔
      ∃ piece, FirstBad pieces piece ∧
        ((∃ value, piece = '=' :: value ∧ error = .emptyQueryKey piece) ∨
          ∃ key value, key ≠ [] ∧ Halves piece key value ∧
            error = .valueNotPlaceholder key value) := by
  simp only [mapM_eq_error_iff, FirstBad, isBinding_iff]
  constructor
  · rintro ⟨before, piece, after, rfl, earlier, failed⟩
    have visible := filled piece (List.mem_append_right _ List.mem_cons_self)
    obtain ⟨bad, reported⟩ := (readBinding_eq_error_iff visible).mp failed
    exact ⟨piece, ⟨before, after, rfl, earlier, bad⟩, reported⟩
  · rintro ⟨piece, ⟨before, after, rfl, earlier, bad⟩, reported⟩
    have visible := filled piece (List.mem_append_right _ List.mem_cons_self)
    exact ⟨before, piece, after, rfl, earlier,
      (readBinding_eq_error_iff visible).mpr ⟨bad, reported⟩⟩

theorem grammatical_iff :
    Grammatical path pieces pattern ↔
      ∃ bindings, pieces.mapM readBinding = .ok bindings ∧
        pattern = ⟨path, placeholders path, bindings⟩ ∧
        pattern.names.Nodup ∧ (pattern.pathNames ++ pattern.queryKeys).Nodup := by
  simp only [mapM_readBinding_eq_ok_iff]
  constructor
  · rintro ⟨rfl, names, spelled, distinct, keys, apart⟩
    refine ⟨pattern.query, spelled, by rw [← names], distinct, ?_⟩
    refine List.nodup_append'.mpr ⟨(List.nodup_append'.mp distinct).1, keys, ?_⟩
    intro name declared key
    obtain ⟨binding, member, rfl⟩ := List.mem_map.mp key
    exact apart binding member declared
  · rintro ⟨bindings, spelled, rfl, distinct, bound⟩
    obtain ⟨_, keys, apart⟩ := List.nodup_append'.mp bound
    exact ⟨rfl, rfl, spelled, distinct, keys,
      fun binding member declared => apart declared (List.mem_map_of_mem member)⟩

theorem fault_iff (filled : ∀ piece ∈ pieces, piece ≠ []) :
    Fault path pieces error ↔
      pieces.mapM readBinding = .error error ∨
        ∃ bindings, Spells pieces bindings ∧
          ((∃ name, firstRepeated [] (placeholders path ++ bindings.map (·.name)) = some name ∧
              error = .duplicatePlaceholder name) ∨
            firstRepeated [] (placeholders path ++ bindings.map (·.name)) = none ∧
              ∃ key, firstRepeated (placeholders path) (bindings.map (·.key)) = some key ∧
                error = .duplicateQueryKey key) := by
  rw [mapM_readBinding_eq_error_iff filled]
  constructor
  · intro fault
    cases fault with
    | @emptyKey value bad => exact .inl ⟨_, bad, .inl ⟨value, rfl, rfl⟩⟩
    | @noPlaceholder piece key value bad keyed halves =>
      exact .inl ⟨piece, bad, .inr ⟨key, value, keyed, halves, rfl⟩⟩
    | @repeatedName bindings name spelled first =>
      exact .inr ⟨bindings, spelled, .inl ⟨name, firstTaken_iff.mp first, rfl⟩⟩
    | @takenKey bindings key spelled distinct first =>
      have unrepeated := firstRepeated_eq_none_iff.mpr ⟨distinct, fun _ _ => List.not_mem_nil⟩
      exact .inr ⟨bindings, spelled, .inr ⟨unrepeated, key, firstTaken_iff.mp first, rfl⟩⟩
  · rintro (⟨piece, bad, ⟨value, rfl, rfl⟩ | ⟨key, value, keyed, halves, rfl⟩⟩
      | ⟨bindings, spelled, ⟨name, first, rfl⟩ | ⟨unrepeated, key, first, rfl⟩⟩)
    · exact .emptyKey bad
    · exact .noPlaceholder bad keyed halves
    · exact .repeatedName spelled (firstTaken_iff.mpr first)
    · exact .takenKey spelled (firstRepeated_eq_none_iff.mp unrepeated).1 (firstTaken_iff.mpr first)

/-- Exactly the grammatical texts are read, and of any other text the first fault is reported. -/
theorem parse_iff_grammatical_and_fault (text : Text) :
    (∀ pattern, parse text = .ok pattern ↔
        Grammatical (RouteText.split text).1 ((RouteText.split text).2.fields '&') pattern) ∧
      ∀ error, parse text = .error error ↔
        Fault (RouteText.split text).1 ((RouteText.split text).2.fields '&') error := by
  have filled : ∀ piece ∈ (RouteText.split text).2.fields '&', piece ≠ [] :=
    fun piece member => (Text.mem_fields member).1
  refine ⟨fun pattern => ?_, fun error => ?_⟩
  · rw [parse_eq_ok_iff, grammatical_iff]
  · rw [parse_eq_error_iff, fault_iff filled]

/-- A text whose path repeats a name, and whose query has a key that is taken, a value without a
name, an empty key and a repeated name. -/
def faultyText : Text := "$\x7ba\x7d/:a?a=$\x7bb\x7d&k=$\x7b\x7d&=&c=$\x7bb\x7d".toList

/-- Of several faults the first bad piece counts. -/
theorem parse_iff_grammatical_and_fault_faultyText :
    parse faultyText = .error (.valueNotPlaceholder "k".toList "$\x7b\x7d".toList) ∧
      Fault "$\x7ba\x7d/:a".toList ["a=$\x7bb\x7d".toList, "k=$\x7b\x7d".toList, "=".toList,
        "c=$\x7bb\x7d".toList] (.valueNotPlaceholder "k".toList "$\x7b\x7d".toList) := by
  have read : parse faultyText = .error (.valueNotPlaceholder "k".toList "$\x7b\x7d".toList) := by
    decide +kernel
  have fault := ((parse_iff_grammatical_and_fault faultyText).2 _).mp read
  have path : (RouteText.split faultyText).1 = "$\x7ba\x7d/:a".toList := by decide +kernel
  have pieces : (RouteText.split faultyText).2.fields '&'
      = ["a=$\x7bb\x7d".toList, "k=$\x7b\x7d".toList, "=".toList, "c=$\x7bb\x7d".toList] := by
    decide +kernel
  rw [path, pieces] at fault
  exact ⟨read, fault⟩

end DeepLink.Pattern
