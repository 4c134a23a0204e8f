import DeepLink.Proofs.TableLaws

/-!
# Spellings of templates

A placeholder can be spelled `:name` or `${name}`, and slashes that delimit no part do not count.
Two path texts compile to the same template exactly if their parts are the same up to the spelling
of placeholders (`Template.compile_eq_iff`), whatever characters the names hold.

The text of a template is one of its own spellings. A table compiles each pattern, and then the
text that it got once more for its mapper, so nothing is lost on the way: its registrations have
the templates of its patterns (`RouteTable.templates_of_make`).
-/
namespace DeepLink

namespace Template

variable {part other name : Text}

/-! ### Parts -/

/-- The other part is the first one, or spells its placeholder in braces instead of with a colon. -/
def Respelled (part other : Text) : Prop :=
  other = part ∨ ∃ name, name ≠ [] ∧ part = ':' :: name ∧ other = braced name

/-- The same part up to the spelling of a placeholder. -/
def Alike (part other : Text) : Prop := Respelled part other ∨ Respelled other part

theorem braced_injective : Function.Injective braced := by
  intro left right same
  simpa [braced] using same

theorem bracedPart_colon (filled : name ≠ []) : bracedPart (':' :: name) = braced name := by
  obtain ⟨c, rest, rfl⟩ := List.exists_cons_of_ne_nil filled
  rfl

theorem respelled_bracedPart (part : Text) : Respelled part (bracedPart part) := by
  fun_cases bracedPart part with
  | case1 c rest => exact .inr ⟨c :: rest, List.cons_ne_nil _ _, rfl, rfl⟩
  | case2 part other => exact .inl rfl

theorem bracedPart_eq_of_respelled (respelled : Respelled part other) :
    bracedPart part = bracedPart other := by
  rcases respelled with rfl | ⟨name, filled, rfl, rfl⟩
  · rfl
  · rw [bracedPart_colon filled]
    rfl

/-- Exactly the parts that are alike are the same in braces. -/
theorem bracedPart_eq_iff : bracedPart part = bracedPart other ↔ Alike part other := by
  constructor
  · intro same
    have left := respelled_bracedPart part
    have right := respelled_bracedPart other
    rw [same] at left
    rcases left with whole | ⟨name, filled, rfl, inBraces⟩
    · exact .inr (whole ▸ right)
    · rcases right with whole | ⟨again, _, rfl, braces⟩
      · exact .inl (.inr ⟨name, filled, rfl, whole ▸ inBraces⟩)
      -- Both parts have a colon, and braces keep their names apart.
      · obtain rfl := braced_injective (inBraces.symm.trans braces)
        exact .inl (.inl rfl)
  · rintro (forward | backward)
    · exact bracedPart_eq_of_respelled forward
    · exact (bracedPart_eq_of_respelled backward).symm

/-! ### Templates -/

/-- Compiling forgets the spelling of placeholders and slashes without a part, and nothing else. -/
theorem compile_eq_iff {path other : Text} {keys otherKeys : List Text} :
    compile path keys = compile other otherKeys ↔
      keys = otherKeys ∧ List.Forall₂ Alike (path.fields '/') (other.fields '/') := by
  have parts : List.Forall₂ Alike (path.fields '/') (other.fields '/') ↔
      (path.fields '/').map bracedPart = (other.fields '/').map bracedPart := by
    rw [← List.forall₂_eq_eq_eq, List.forall₂_map_left_iff, List.forall₂_map_right_iff]
    simp only [bracedPart_eq_iff]
  rw [parts]
  constructor
  · intro same
    refine ⟨congrArg Template.queryKeys same, ?_⟩
    rw [← fields_text_compile path keys, ← fields_text_compile other otherKeys, same]
  · rintro ⟨rfl, same⟩
    exact compile_congr keys same

end Template

/-! ### Registrations -/

/-- The registrations of a table have the templates that its entries are read as, in order. -/
theorem RouteTable.templates_of_make {table : RouteTable} {options : MapperOptions}
    {entries : List RouteEntry} (made : make options entries = .ok table) :
    table.mapper.registrations.map (fun registration => Except.ok registration.template)
      = entries.map fun entry => (Pattern.parse entry.pattern).map Pattern.template := by
  have listed := listed_of_related (make_eq_ok_iff.mp made).2
  have templates := congrArg (List.map fun route => route.2.map Pattern.template) listed
  simp only [List.map_map, Function.comp_def] at templates
  simp only [RouteTable.mapper, List.map_map, Function.comp_def,
    NamedPattern.registration_template]
  exact templates

/-- A template is compiled again from its own text. Compiling forgets how placeholders are spelled
and which slashes delimit no part, and nothing else. So the mapper of a table holds the templates
of its patterns, though it compiles them from their texts. -/
theorem Template.compile_forgets_spelling :
    (∀ path keys, compile (compile path keys).text keys = compile path keys) ∧
    (∀ path other keys otherKeys, compile path keys = compile other otherKeys ↔
      keys = otherKeys ∧ List.Forall₂ Alike (path.fields '/') (other.fields '/')) ∧
    ∀ options entries table, RouteTable.make options entries = .ok table →
      table.mapper.registrations.map (fun registration => Except.ok registration.template)
        = entries.map fun entry => (Pattern.parse entry.pattern).map Pattern.template :=
  ⟨compile_text, fun _ _ _ _ => compile_eq_iff, fun _ _ _ => RouteTable.templates_of_make⟩

/-- A path with a colon, a dollar sign and a brace in its names, and with a lone colon. -/
def oddPath : Text := "//:a:b/$\x7b:c\x7d/:$\x7bd/:/x".toList

/-- The same path in braces, with its slashes at other places. -/
def oddPathInBraces : Text := "$\x7ba:b\x7d//$\x7b:c\x7d/$\x7b$\x7bd\x7d/:/x/".toList

def oddEntries : List RouteEntry :=
  [⟨"odd".toList, oddPath ++ "?k=$\x7bv\x7d".toList⟩]

/-- Both spellings of odd names compile to the template that a table registers for one of them. -/
theorem Template.compile_forgets_spelling_odd : ∃ table,
    RouteTable.make {} oddEntries = .ok table ∧
      table.mapper.registrations.map (fun registration => Except.ok registration.template)
        = [(.ok (compile oddPath ["k".toList]) : Except PatternError Template)] ∧
      compile oddPath ["k".toList] = compile oddPathInBraces ["k".toList] := by
  obtain ⟨_, alike, registered⟩ := compile_forgets_spelling
  have valid : ValidRoutes oddEntries := by decide +kernel
  obtain ⟨table, made⟩ := RouteTable.exists_make {} valid
  have colons : oddPath.fields '/'
      = [":a:b".toList, "$\x7b:c\x7d".toList, ":$\x7bd".toList, ":".toList, "x".toList] := by
    decide +kernel
  have braces : oddPathInBraces.fields '/'
      = ["$\x7ba:b\x7d".toList, "$\x7b:c\x7d".toList, "$\x7b$\x7bd\x7d".toList, ":".toList,
        "x".toList] := by
    decide +kernel
  refine ⟨table, made, (registered _ _ _ made).trans (by decide +kernel),
    (alike _ _ _ _).mpr ⟨rfl, ?_⟩⟩
  rw [colons, braces]
  refine .cons (.inl (.inr ⟨"a:b".toList, ?_, rfl, rfl⟩)) (.cons (.inl (.inl rfl))
    (.cons (.inl (.inr ⟨"$\x7bd".toList, ?_, rfl, rfl⟩)) (.cons (.inl (.inl rfl))
      (.cons (.inl (.inl rfl)) .nil))))
  all_goals decide

end DeepLink
