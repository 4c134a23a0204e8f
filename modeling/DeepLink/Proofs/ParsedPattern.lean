import DeepLink.Pattern
import DeepLink.Proofs.Matching
import Mathlib.Data.List.Nodup

/-!
# Parsed patterns

What the parser of route patterns promises about its results: no name is declared twice, no
query key is empty or is bound a second time, and the path ends before the first question
mark (`Pattern.Sound`).

A piece of the query is read as a binding exactly if it is one as it would be written
(`readBinding_eq_ok_iff`), so the bindings of a pattern are spelled out by its pieces
(`mapM_readBinding_eq_ok_iff`).
-/
namespace DeepLink

/-- A binding that can be written as a piece of a query and read again. -/
structure QueryBinding.Valid (binding : QueryBinding) : Prop where
  key_filled : binding.key ≠ []
  key_free : '=' ∉ binding.key
  name_filled : binding.name ≠ []

namespace Pattern

/-- What holds of every pattern that was read. -/
structure Sound (pattern : Pattern) : Prop where
  names_nodup : pattern.names.Nodup
  bound_nodup : (pattern.pathNames ++ pattern.queryKeys).Nodup
  keys_filled : ∀ key ∈ pattern.queryKeys, key ≠ []
  path_free : '?' ∉ pattern.path

/-! ### Bindings -/

variable {piece key value : Text} {binding : QueryBinding}

/-- The key and the value of a piece, before and after its first equals sign. A piece without one
is a key without a value. -/
def Halves (piece key value : Text) : Prop :=
  '=' ∉ key ∧ (piece = key ++ '=' :: value ∨ (piece = key ∧ value = []))

theorem halves_iff : Halves piece key value ↔ (piece.cut? '=').getD (piece, []) = (key, value) := by
  constructor
  · rintro ⟨absent, rfl | ⟨rfl, rfl⟩⟩
    · rw [Text.cut?_append absent, Option.getD_some]
    · rw [Text.cut?_eq_none_iff.mpr absent, Option.getD_none]
  · intro same
    cases found : piece.cut? '=' with
    | none =>
      obtain ⟨rfl, rfl⟩ := Prod.mk.inj (found ▸ same)
      exact ⟨Text.cut?_eq_none_iff.mp found, .inr ⟨rfl, rfl⟩⟩
    | some halves =>
      obtain rfl : halves = (key, value) := by simpa [found] using same
      obtain ⟨rfl, absent⟩ := Text.eq_append_of_cut? found
      exact ⟨absent, .inl rfl⟩

theorem exists_halves (piece : Text) : ∃ key value, Halves piece key value :=
  ⟨_, _, halves_iff.mpr rfl⟩

theorem Halves.readBinding_eq (halves : Halves piece key value) :
    Pattern.readBinding piece
      = if key = [] then .error (.emptyQueryKey piece)
        else match bracedName? value with
          | some name => .ok { key, name }
          | none => .error (.valueNotPlaceholder key value) := by
  unfold Pattern.readBinding
  rewrite [halves_iff.mp halves]
  rfl

/-- Exactly the written bindings are read. -/
theorem readBinding_eq_ok_iff :
    readBinding piece = .ok binding ↔ piece = writeBinding binding ∧ binding.Valid := by
  constructor
  · intro read
    obtain ⟨key, value, halves⟩ := exists_halves piece
    rw [halves.readBinding_eq] at read
    split at read
    · cases read
    next filled =>
      split at read
      next name found =>
        cases read
        obtain ⟨rfl, named⟩ := Template.bracedName?_eq_some_iff.mp found
        -- Braces are a value, so the piece has an equals sign.
        rcases halves.2 with same | ⟨_, empty⟩
        · exact ⟨same, filled, halves.1, named⟩
        · exact absurd empty (Template.braced_ne_nil name)
      · cases read
  · rintro ⟨rfl, valid⟩
    have halves : Halves (writeBinding binding) binding.key (braced binding.name) :=
      ⟨valid.key_free, .inl rfl⟩
    rw [halves.readBinding_eq, if_neg valid.key_filled,
      Template.bracedName?_eq_some_iff.mpr ⟨rfl, valid.name_filled⟩]

/-- A piece that is no binding is refused for its key if that is empty, else for its value. -/
theorem readBinding_eq_error_iff {error : PatternError} (filled : piece ≠ []) :
    readBinding piece = .error error ↔
      (¬ ∃ binding, readBinding piece = .ok binding) ∧
        ((∃ value, piece = '=' :: value ∧ error = .emptyQueryKey piece) ∨
          ∃ key value, key ≠ [] ∧ Halves piece key value ∧
            error = .valueNotPlaceholder key value) := by
  constructor
  · intro failed
    refine ⟨fun ⟨binding, read⟩ => by simp [failed] at read, ?_⟩
    obtain ⟨key, value, halves⟩ := exists_halves piece
    rw [halves.readBinding_eq] at failed
    split at failed
    next empty =>
      cases failed
      subst empty
      -- The piece is not empty, so its key can be so only before an equals sign.
      rcases halves.2 with same | ⟨empty, _⟩
      · exact .inl ⟨value, same, rfl⟩
      · exact absurd empty filled
    next keyed =>
      split at failed
      · cases failed
      · cases failed
        exact .inr ⟨key, value, keyed, halves, rfl⟩
  · rintro ⟨unread, ⟨value, rfl, rfl⟩ | ⟨key, value, keyed, halves, rfl⟩⟩
    · have halves : Halves ('=' :: value) [] value := ⟨List.not_mem_nil, .inl rfl⟩
      rw [halves.readBinding_eq, if_pos rfl]
    · rw [halves.readBinding_eq, if_neg keyed] at unread ⊢
      split
      next name found =>
        rw [found] at unread
        exact absurd ⟨_, rfl⟩ unread
      next => rfl

/-- The bindings that pieces spell out, one each. -/
def Spells (pieces : List Text) (bindings : List QueryBinding) : Prop :=
  pieces = bindings.map writeBinding ∧ ∀ binding ∈ bindings, binding.Valid

theorem mapM_readBinding_eq_ok_iff {pieces : List Text} {bindings : List QueryBinding} :
    pieces.mapM readBinding = .ok bindings ↔ Spells pieces bindings := by
  rw [mapM_eq_ok_iff]
  simp only [readBinding_eq_ok_iff]
  constructor
  · intro related
    induction related with
    | nil => exact ⟨rfl, nofun⟩
    | cons here _ ih =>
      obtain ⟨rfl, valid⟩ := ih
      exact ⟨congrArg (· :: _) here.1, List.forall_mem_cons.mpr ⟨here.2, valid⟩⟩
  · rintro ⟨rfl, valid⟩
    rw [List.forall₂_map_left_iff, List.forall₂_same]
    exact fun binding member => ⟨rfl, valid binding member⟩

/-! ### Repetitions -/

theorem firstRepeated_eq_none_iff {seen texts : List Text} :
    firstRepeated seen texts = none ↔ texts.Nodup ∧ ∀ text ∈ texts, text ∉ seen := by
  induction texts generalizing seen with
  | nil => simp [firstRepeated]
  | cons text rest ih =>
    simp only [firstRepeated, List.nodup_cons, List.forall_mem_cons]
    by_cases before : seen.contains text = true
    · simp_all
    -- A text that is new joins those that the later texts have to differ from.
    · rw [if_neg before, ih]
      simp only [List.contains_iff_mem, List.mem_cons, not_or] at before ⊢
      constructor
      · rintro ⟨distinct, fresh⟩
        exact ⟨⟨fun member => (fresh text member).1 rfl, distinct⟩, before,
          fun other member => (fresh other member).2⟩
      · rintro ⟨⟨absent, distinct⟩, _, fresh⟩
        exact ⟨distinct,
          fun other member => ⟨fun same => absent (same ▸ member), fresh other member⟩⟩

/-- The first text that was seen before or occurs earlier is found. -/
theorem firstRepeated_eq_some_iff {seen texts : List Text} {text : Text} :
    firstRepeated seen texts = some text ↔
      ∃ before after, texts = before ++ text :: after ∧ firstRepeated seen before = none ∧
        (text ∈ seen ∨ text ∈ before) := by
  induction texts generalizing seen with
  | nil => simp [firstRepeated]
  | cons first rest ih =>
    constructor
    · intro found
      rw [firstRepeated] at found
      split at found
      next known =>
        obtain rfl := Option.some.inj found
        exact ⟨[], rest, rfl, rfl, .inl (List.contains_iff_mem.mp known)⟩
      next fresh =>
        obtain ⟨before, after, rfl, distinct, met⟩ := ih.mp found
        refine ⟨first :: before, after, rfl, by rw [firstRepeated, if_neg fresh, distinct], ?_⟩
        -- What was seen before the tail was seen before the list, or is its head.
        simp only [List.mem_cons] at met ⊢
        tauto
    · rintro ⟨before, after, same, distinct, met⟩
      cases before with
      | nil =>
        obtain ⟨rfl, rfl⟩ := List.cons.inj same
        have known : seen.contains first = true := by simpa using met
        rw [firstRepeated, if_pos known]
      | cons other others =>
        obtain ⟨rfl, rfl⟩ := List.cons.inj same
        rw [firstRepeated] at distinct ⊢
        split at distinct
        · cases distinct
        next fresh =>
          rw [if_neg fresh]
          refine ih.mpr ⟨others, after, rfl, distinct, ?_⟩
          simp only [List.mem_cons] at met ⊢
          tauto

theorem nodup_bound_iff {names : List Text} (keys : List Text) (distinct : names.Nodup) :
    (names ++ keys).Nodup ↔ firstRepeated names keys = none := by
  rw [firstRepeated_eq_none_iff, List.nodup_append']
  constructor
  · rintro ⟨_, keysDistinct, apart⟩
    exact ⟨keysDistinct, fun key member inNames => apart inNames member⟩
  · rintro ⟨keysDistinct, apart⟩
    exact ⟨distinct, keysDistinct, fun name inNames member => apart name member inNames⟩

/-! ### Whole patterns -/

/-- Reading succeeds with distinct names, and with keys apart from each other and from the
names of the path. -/
theorem parse_eq_ok_iff {text : Text} {pattern : Pattern} :
    parse text = .ok pattern ↔
      ∃ bindings, ((RouteText.split text).2.fields '&').mapM readBinding = .ok bindings ∧
        pattern = ⟨(RouteText.split text).1, placeholders (RouteText.split text).1, bindings⟩ ∧
        pattern.names.Nodup ∧ (pattern.pathNames ++ pattern.queryKeys).Nodup := by
  simp only [parse, bind_eq_ok_iff]
  refine exists_congr fun bindings => and_congr_right fun _ => ?_
  generalize (RouteText.split text).1 = path
  -- The parser first looks for a name that is declared twice, and only then for a key that is
  -- taken.
  cases repeated : firstRepeated [] (placeholders path ++ bindings.map (·.name)) with
  | some name =>
    constructor
    · rintro ⟨⟩
    · rintro ⟨rfl, distinct, _⟩
      cases repeated.symm.trans
        (firstRepeated_eq_none_iff.mpr ⟨distinct, fun _ _ => List.not_mem_nil⟩)
  | none =>
    have distinct := (firstRepeated_eq_none_iff.mp repeated).1
    have bound := nodup_bound_iff (bindings.map (·.key)) (List.nodup_append'.mp distinct).1
    cases collision : firstRepeated (placeholders path) (bindings.map (·.key)) with
    | some key =>
      constructor
      · rintro ⟨⟩
      · rintro ⟨rfl, _, apart⟩
        cases collision.symm.trans (bound.mp apart)
    | none =>
      constructor
      · rintro ⟨⟩
        exact ⟨rfl, distinct, bound.mpr collision⟩
      · rintro ⟨rfl, _⟩
        rfl

/-- Reading fails at the first piece that is no binding, else at the first name that is repeated,
else at the first key that is taken. -/
theorem parse_eq_error_iff {text : Text} {error : PatternError} :
    parse text = .error error ↔
      ((RouteText.split text).2.fields '&').mapM readBinding = .error error ∨
        ∃ bindings, Spells ((RouteText.split text).2.fields '&') bindings ∧
          let names := placeholders (RouteText.split text).1
          (∃ name, firstRepeated [] (names ++ bindings.map (·.name)) = some name ∧
              error = .duplicatePlaceholder name) ∨
            firstRepeated [] (names ++ bindings.map (·.name)) = none ∧
              ∃ key, firstRepeated names (bindings.map (·.key)) = some key ∧
                error = .duplicateQueryKey key := by
  simp only [parse, bind_eq_error_iff, mapM_readBinding_eq_ok_iff]
  refine or_congr_right (exists_congr fun bindings => and_congr_right fun _ => ?_)
  generalize (RouteText.split text).1 = path
  cases repeated : firstRepeated [] (placeholders path ++ bindings.map (·.name)) with
  | some name =>
    constructor
    · rintro ⟨⟩
      exact .inl ⟨name, rfl, rfl⟩
    · rintro (⟨_, ⟨⟩, rfl⟩ | ⟨⟨⟩, _⟩)
      rfl
  | none =>
    cases collision : firstRepeated (placeholders path) (bindings.map (·.key)) with
    | some key =>
      constructor
      · rintro ⟨⟩
        exact .inr ⟨rfl, key, rfl, rfl⟩
      · rintro (⟨_, ⟨⟩, _⟩ | ⟨_, _, ⟨⟩, rfl⟩)
        rfl
    | none =>
      constructor
      · rintro ⟨⟩
      · rintro (⟨_, ⟨⟩, _⟩ | ⟨_, _, ⟨⟩, _⟩)

theorem sound_of_parse {text : Text} {pattern : Pattern} (parsed : parse text = .ok pattern) :
    pattern.Sound := by
  obtain ⟨bindings, read, rfl, distinct, apart⟩ := parse_eq_ok_iff.mp parsed
  refine ⟨distinct, apart, fun key member => ?_, RouteText.not_mem_split text⟩
  obtain ⟨binding, among, rfl⟩ := List.mem_map.mp member
  exact ((mapM_readBinding_eq_ok_iff.mp read).2 binding among).key_filled

end Pattern
end DeepLink
