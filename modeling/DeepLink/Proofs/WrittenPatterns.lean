import DeepLink.Proofs.ParsedPattern

/-!
# Written patterns

What separates the pieces of a pattern does not occur in them, and no piece is empty, but names may
hold braces, equals signs and question marks (`Pattern.Writable`). Exactly such patterns are read
from texts (`exists_parse_iff`), and each of them is read from its own written form
(`parse_render_of_writable`). So reading, writing and reading again gives the same pattern
(`parse_render`).
-/
namespace DeepLink.Pattern

variable {text : Text} {pattern : Pattern} {binding : QueryBinding}

/-- A sound pattern that declares the names of its path, and whose bindings can be told apart in its
written form. -/
structure Writable (pattern : Pattern) : Prop extends Sound pattern where
  pathNames_eq : pattern.pathNames = placeholders pattern.path
  valid : ∀ binding ∈ pattern.query, binding.Valid
  undivided : ∀ binding ∈ pattern.query, '&' ∉ binding.key ∧ '&' ∉ binding.name

/-! ### Written bindings -/

theorem writeBinding_ne_nil (binding : QueryBinding) : writeBinding binding ≠ [] :=
  List.append_ne_nil_of_right_ne_nil _ (List.cons_ne_nil _ _)

theorem ampersand_not_mem_writeBinding_iff :
    '&' ∉ writeBinding binding ↔ '&' ∉ binding.key ∧ '&' ∉ binding.name := by
  simp [writeBinding, braced]

/-- The pieces of joined bindings are the written bindings, if none of them is divided. -/
theorem fields_joinWith_writeBinding {bindings : List QueryBinding}
    (undivided : ∀ binding ∈ bindings, '&' ∉ binding.key ∧ '&' ∉ binding.name) :
    (Text.joinWith '&' (bindings.map writeBinding)).fields '&' = bindings.map writeBinding := by
  apply Text.fields_joinWith_of_filled
  · exact List.forall_mem_map.mpr fun binding _ => writeBinding_ne_nil binding
  · exact List.forall_mem_map.mpr fun binding member =>
      ampersand_not_mem_writeBinding_iff.mpr (undivided binding member)

/-! ### Written patterns -/

/-- A pattern is written with a question mark exactly if it has bindings. -/
theorem render_eq (pattern : Pattern) :
    pattern.render = if pattern.query = [] then pattern.path
      else pattern.path ++ '?' :: Text.joinWith '&' (pattern.query.map writeBinding) := by
  obtain ⟨path, names, query⟩ := pattern
  cases query with
  | nil => rfl
  | cons binding rest =>
    have filled : Text.joinWith '&' ((binding :: rest).map writeBinding) ≠ [] := by
      cases rest with
      | nil => simpa using writeBinding_ne_nil binding
      | cons next others => simp [writeBinding]
    rw [render, RouteText.join, if_neg filled, if_neg (List.cons_ne_nil _ _)]

/-- A text spells out the bindings of the pattern it is read as, so these can be written again. -/
theorem writable_of_parse (parsed : parse text = .ok pattern) : pattern.Writable := by
  have sound := sound_of_parse parsed
  obtain ⟨bindings, read, rfl, _⟩ := parse_eq_ok_iff.mp parsed
  obtain ⟨pieces, valid⟩ := mapM_readBinding_eq_ok_iff.mp read
  refine ⟨sound, rfl, valid, fun binding member => ?_⟩
  -- A written binding is one of the pieces between ampersands.
  have piece : writeBinding binding ∈ (RouteText.split text).2.fields '&' :=
    pieces ▸ List.mem_map_of_mem member
  exact ampersand_not_mem_writeBinding_iff.mp (Text.mem_fields piece).2.1

theorem parse_render_of_writable (writable : pattern.Writable) :
    parse pattern.render = .ok pattern := by
  have halves : RouteText.split pattern.render
      = (pattern.path, Text.joinWith '&' (pattern.query.map writeBinding)) :=
    RouteText.split_join writable.path_free _
  refine parse_eq_ok_iff.mpr ⟨pattern.query, ?_, ?_, writable.names_nodup, writable.bound_nodup⟩
  · rw [halves, fields_joinWith_writeBinding writable.undivided]
    exact mapM_readBinding_eq_ok_iff.mpr ⟨rfl, writable.valid⟩
  · rw [halves, ← writable.pathNames_eq]

/-- Exactly the writable patterns are read from some text. -/
theorem exists_parse_iff : (∃ text, parse text = .ok pattern) ↔ pattern.Writable :=
  ⟨fun ⟨_, parsed⟩ => writable_of_parse parsed,
    fun writable => ⟨pattern.render, parse_render_of_writable writable⟩⟩

/-- A pattern that was read is written as its path and, behind a question mark, its bindings if it
has any, and is read again from what is written. -/
theorem parse_render (parsed : parse text = .ok pattern) :
    (pattern.render = if pattern.query = [] then pattern.path
      else pattern.path ++ '?' :: Text.joinWith '&'
        (pattern.query.map fun binding => binding.key ++ '=' :: braced binding.name)) ∧
      parse pattern.render = .ok pattern :=
  ⟨render_eq pattern, parse_render_of_writable (writable_of_parse parsed)⟩

/-- Braces, an equals sign and question marks in names and keys are kept, and empty pieces of the
query are not written. -/
theorem parse_render_untidy : ∃ pattern,
    parse "/u//:id?&k?=$\x7ba=\x7bb\x7d\x7d&&l=$\x7b?\x7d&".toList = .ok pattern ∧
      pattern.render = "/u//:id?k?=$\x7ba=\x7bb\x7d\x7d&l=$\x7b?\x7d".toList ∧
      parse pattern.render = .ok pattern := by
  have parsed : parse "/u//:id?&k?=$\x7ba=\x7bb\x7d\x7d&&l=$\x7b?\x7d&".toList
      = .ok ⟨"/u//:id".toList, ["id".toList],
        [⟨"k?".toList, "a=\x7bb\x7d".toList⟩, ⟨"l".toList, "?".toList⟩]⟩ := by
    decide +kernel
  obtain ⟨written, again⟩ := parse_render parsed
  exact ⟨_, parsed, written.trans (by decide +kernel), again⟩

end DeepLink.Pattern
