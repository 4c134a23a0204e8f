import DeepLink.Proofs.ParsedPattern

/-!
# Declared and bound names

A pattern declares the names that are scanned from its path, and its template binds the names of
whole parts. A part in braces binds all that stands between them, while the scan ends a name at the
first closing brace. So the bound names are declared, and in the same order, exactly if no part in
braces has another closing brace inside (`placeholders_sublist_iff`).
-/
namespace DeepLink.Pattern

variable {part name text path : Text} {parts : List Text} {pattern : Pattern}

/-! ### Single parts -/

/-- The name that a part of a path binds, if it binds one. -/
def boundName? (part : Text) : Option Text := bracedName? (bracedPart part)

/-- A name in braces ends before the first closing brace. -/
theorem closing_not_mem_of_mem_bracedNames (member : name ∈ bracedNames text) : '}' ∉ name := by
  fun_induction bracedNames text with
  | case1 => cases member
  | case2 rest open' => cases member
  | case3 rest after found _ ih => exact ih member
  | case4 rest first after found _ _ ih =>
    rcases List.mem_cons.mp member with rfl | later
    · exact (Text.eq_append_of_cut? found).2
    · exact ih later
  | case5 c rest _ ih => exact ih member

/-- The scan takes a name up to the next closing brace and goes on after it. -/
theorem bracedNames_opening (free : '}' ∉ name) (after : Text) :
    bracedNames ('$' :: '{' :: (name ++ '}' :: after))
      = if name = [] then bracedNames after else name :: bracedNames after := by
  have found := Text.cut?_append free after
  rw [bracedNames]
  split
  next unclosed => cases found.symm.trans unclosed
  next first rest closed =>
    obtain ⟨rfl, rfl⟩ := Prod.mk.inj (Option.some.inj (found.symm.trans closed))
    rfl

theorem bracedNames_braced (filled : name ≠ []) (free : '}' ∉ name) :
    bracedNames (braced name) = [name] := by
  have nameless : bracedNames [] = [] := by rw [bracedNames]
  rw [braced, List.cons_append, List.cons_append, bracedNames_opening free, if_neg filled, nameless]

/-- A part with a colon declares and binds what follows the colon. -/
theorem names_colon (filled : name ≠ []) :
    segmentNames (':' :: name) = [name] ∧ boundName? (':' :: name) = some name := by
  obtain ⟨c, rest, rfl⟩ := List.exists_cons_of_ne_nil filled
  exact ⟨rfl, Template.bracedName?_eq_some_iff.mpr ⟨rfl, filled⟩⟩

/-- Any other part is scanned for names in braces, and binds one if it is in braces itself. -/
theorem names_cases (part : Text) :
    (∃ name, name ≠ [] ∧ part = ':' :: name) ∨
      (segmentNames part = bracedNames part ∧ boundName? part = bracedName? part) := by
  fun_cases bracedPart part with
  | case1 c rest => exact .inl ⟨c :: rest, List.cons_ne_nil _ _, rfl⟩
  | case2 part other =>
    have whole : bracedPart part = part := by
      rw [bracedPart]
      exact other
    refine .inr ⟨?_, by rw [boundName?, whole]⟩
    rw [segmentNames]
    exact other

/-- A part that binds a name without a closing brace declares it. -/
theorem boundName?_sublist (free : ∀ name, part = braced name → '}' ∉ name) :
    (boundName? part).toList.Sublist (segmentNames part) := by
  rcases names_cases part with ⟨name, filled, rfl⟩ | ⟨scanned, bound⟩
  · obtain ⟨declared, bound⟩ := names_colon filled
    rw [declared, bound]
    exact .refl _
  · rw [scanned, bound]
    cases found : bracedName? part with
    | none => exact List.nil_sublist _
    | some name =>
      obtain ⟨rfl, filled⟩ := Template.bracedName?_eq_some_iff.mp found
      rw [bracedNames_braced filled (free name rfl)]
      exact .refl _

/-! ### Paths -/

/-- A template binds the names of its parts, part by part. -/
theorem placeholders_template (pattern : Pattern) :
    pattern.template.placeholders = (RouteText.parts pattern.path).filterMap boundName? := by
  rw [Template.placeholders, template, Template.segments_compile, List.map_map, List.filterMap_map,
    RouteText.parts]
  congr 1
  funext part
  simp only [Function.comp_apply, Segment.read, boundName?]
  cases bracedName? (bracedPart part) <;> rfl

/-- Empty pieces of a path declare nothing. -/
theorem placeholders_eq_flatMap (path : Text) :
    placeholders path = (RouteText.parts path).flatMap segmentNames := by
  have filled (pieces : List Text) :
      pieces.flatMap segmentNames = (pieces.filter (· ≠ [])).flatMap segmentNames := by
    induction pieces with
    | nil => rfl
    | cons piece rest ih =>
      by_cases empty : piece = []
      · have nameless : segmentNames [] = [] := by rw [segmentNames, bracedNames]; simp
        rw [List.flatMap_cons, ih, List.filter_cons_of_neg (by simpa using empty), empty,
          nameless, List.nil_append]
      · rw [List.flatMap_cons, ih, List.filter_cons_of_pos (by simpa using empty),
          List.flatMap_cons]
  exact filled _

theorem filterMap_boundName?_sublist
    (free : ∀ name, braced name ∈ parts → '}' ∉ name) :
    (parts.filterMap boundName?).Sublist (parts.flatMap segmentNames) := by
  rw [List.filterMap_eq_flatMap_toList]
  induction parts with
  | nil => exact .refl _
  | cons part rest ih =>
    rw [List.flatMap_cons, List.flatMap_cons]
    refine (boundName?_sublist fun name here => free name ?_).append
      (ih fun name member => free name (List.mem_cons_of_mem _ member))
    rw [here]
    exact List.mem_cons_self

/-- Two parts that bind the same name bind it twice. -/
theorem eq_of_boundName? (distinct : (parts.filterMap boundName?).Nodup) {other : Text}
    (member : part ∈ parts) (otherMember : other ∈ parts) (bound : boundName? part = some name)
    (again : boundName? other = some name) : part = other := by
  have apart := List.pairwise_filterMap.mp distinct
  exact List.Pairwise.forall_of_forall_of_flip
    (R := fun first second => boundName? first = some name → boundName? second = some name →
      first = second)
    (fun _ _ _ _ => rfl)
    (apart.imp fun unlike left right => absurd rfl (unlike _ left _ right))
    (apart.imp fun unlike left right => absurd rfl (unlike _ right _ left))
    member otherMember bound again

/-- A name with a closing brace is declared by a part with a colon only, which binds it as well. -/
theorem closing_not_mem_of_sublist (distinct : (parts.flatMap segmentNames).Nodup)
    (sublist : (parts.filterMap boundName?).Sublist (parts.flatMap segmentNames))
    (member : braced name ∈ parts) : '}' ∉ name := by
  intro closing
  have bound : boundName? (braced name) = some name := by
    rcases names_cases (braced name) with ⟨other, _, same⟩ | ⟨_, bound⟩
    · cases same
    · exact bound.trans
        (Template.bracedName?_eq_some_iff.mpr ⟨rfl, List.ne_nil_of_mem closing⟩)
  obtain ⟨other, among, declared⟩ := List.mem_flatMap.mp
    (sublist.subset (List.mem_filterMap.mpr ⟨_, member, bound⟩))
  rcases names_cases other with ⟨named, filled, rfl⟩ | ⟨scanned, _⟩
  · obtain ⟨colon, again⟩ := names_colon filled
    rw [colon, List.mem_singleton] at declared
    subst declared
    cases eq_of_boundName? (distinct.sublist sublist) member among bound again
  · rw [scanned] at declared
    exact closing_not_mem_of_mem_bracedNames declared closing

/-- The names that the template of a pattern binds are declared, in the same order, exactly if no
part of the path in braces has another closing brace inside. -/
theorem placeholders_sublist_iff (parsed : parse text = .ok pattern) :
    pattern.template.placeholders.Sublist pattern.pathNames ↔
      ∀ name, braced name ∈ RouteText.parts pattern.path → '}' ∉ name := by
  obtain ⟨bindings, _, rfl, distinct, _⟩ := parse_eq_ok_iff.mp parsed
  have declared := (List.nodup_append'.mp distinct).1
  simp only [placeholders_template, placeholders_eq_flatMap] at declared ⊢
  constructor
  · intro sublist name member
    exact closing_not_mem_of_sublist declared sublist member
  · exact filterMap_boundName?_sublist

/-- Embedded names, empty and open braces are scanned without an inner closing brace, and what
follows a colon may have one. -/
theorem placeholders_sublist_iff_embedded : ∃ pattern,
    parse "/a$\x7bx\x7db//:y\x7d/$\x7b$\x7bz\x7d/$\x7b\x7d/$\x7bopen?k=$\x7bw\x7d".toList
        = .ok pattern ∧
      ∀ name, braced name ∈ RouteText.parts pattern.path → '}' ∉ name := by
  have parsed : parse
      "/a$\x7bx\x7db//:y\x7d/$\x7b$\x7bz\x7d/$\x7b\x7d/$\x7bopen?k=$\x7bw\x7d".toList
        = .ok ⟨"/a$\x7bx\x7db//:y\x7d/$\x7b$\x7bz\x7d/$\x7b\x7d/$\x7bopen".toList,
            ["x".toList, "y\x7d".toList, "$\x7bz".toList], [⟨"k".toList, "w".toList⟩]⟩ := by
    decide +kernel
  exact ⟨_, parsed, (placeholders_sublist_iff parsed).mp (by decide +kernel)⟩

/-- A closing brace inside a name ends the declared name, but not the bound one. -/
theorem placeholders_not_sublist : ∃ pattern, parse "$\x7ba\x7db\x7d".toList = .ok pattern ∧
    ¬ pattern.template.placeholders.Sublist pattern.pathNames :=
  ⟨⟨"$\x7ba\x7db\x7d".toList, ["a".toList], []⟩, by decide +kernel, by decide +kernel⟩

end DeepLink.Pattern
