import DeepLink.Proofs.Matching

/-!
# Matching and rendering templates

Rendering undoes matching: from the bindings of a match a template writes the parts that it
matched, and lists the query values that it required, as long as no name is bound twice. Repeated
query keys do no harm, because a query has one value for each (`render?_of_match?`).

Matching undoes rendering: what a compiled template writes from bindings, it matches with the
bindings of its own names, as long as every value can stand where it is written. Here repeated
names do no harm either, because all of them are written from the same bindings
(`match?_of_render?`).
-/
namespace DeepLink.Template

variable {template : Template} {path : Text} {keys : List Text} {parts : List Text}
  {query params : Bindings} {rendered : Rendered}

/-! ### Rendering a match -/

/-- The bindings of a match write the matched parts, and the value that the query has for each
required key, in the order of the keys. -/
theorem render?_of_match? (distinct : template.placeholders.Nodup)
    (apart : ∀ name ∈ template.placeholders, name ∉ template.queryKeys)
    (matched : template.match? parts query = some params) :
    ∃ values, template.render? params = some ⟨Text.joinWith '/' parts, values⟩ ∧
      values.map Prod.fst = template.queryKeys ∧
      ∀ pair ∈ values, query.get? pair.1 = some pair.2 := by
  obtain ⟨path, values, captured, named, required, rfl⟩ := match?_eq_some_iff.mp matched
  have held : ∀ pair ∈ values, query.get? pair.1 = some pair.2 :=
    fun pair member => (required pair member).1
  exact ⟨values, render?_of_capture? distinct apart captured named held, named, held⟩

/-- A template of articles that asks for one of its query keys twice. -/
def articleTemplate : Template :=
  compile "article/:category/$\x7bslug\x7d".toList ["b".toList, "a".toList, "b".toList]

def articleParts : List Text := ["article".toList, "a/b?".toList, []]

def articleQuery : Bindings :=
  .ofPairs [("a".toList, "1".toList), ("b".toList, "2".toList), ("c".toList, "3".toList)]

/-- Parts that are no parts of a path are written as well, and a repeated key is listed twice. -/
theorem render?_of_match?_article : ∃ params values,
    articleTemplate.match? articleParts articleQuery = some params ∧
      articleTemplate.render? params = some ⟨"article/a/b?/".toList, values⟩ ∧
      values.map Prod.fst = ["b".toList, "a".toList, "b".toList] ∧
      ∀ pair ∈ values, articleQuery.get? pair.1 = some pair.2 := by
  have matched : articleTemplate.match? articleParts articleQuery
      = some (.ofPairs [("a".toList, "1".toList), ("b".toList, "2".toList),
        ("category".toList, "a/b?".toList), ("slug".toList, [])]) := by
    decide +kernel
  obtain ⟨values, written, listed, held⟩ :=
    render?_of_match? (by decide +kernel) (by decide +kernel) matched
  exact ⟨_, values, matched, written, listed, held⟩

/-! ### Matching what was rendered -/

/-- What a compiled template writes is split into the parts that were written, because neither a
literal segment nor a value is empty or holds a slash. -/
theorem parts_of_write
    (wrote : (compile path keys).segments.mapM (writeSegment? params) = some parts)
    (path_values : ∀ name ∈ (compile path keys).placeholders, ∀ value ∈ params.get? name,
      value ≠ [] ∧ '/' ∉ value) :
    RouteText.parts (Text.joinWith '/' parts) = parts := by
  have clean : ∀ part ∈ parts, part ≠ [] ∧ '/' ∉ part := by
    refine forall_written wrote (fun text member => ?_) path_values
    obtain ⟨filled, free, _⟩ := Text.mem_fields (mem_fields_of_literal member)
    exact ⟨filled, free⟩
  exact Text.fields_joinWith_of_filled (fun part member => (clean part member).1)
    fun part member => (clean part member).2

/-- What a compiled template writes from bindings is matched with the bindings of its names, if the
values of the path are not empty and hold no slash, and those of the query are not empty. -/
theorem match?_of_render? (written : (compile path keys).render? params = some rendered)
    (path_values : ∀ name ∈ (compile path keys).placeholders, ∀ value ∈ params.get? name,
      value ≠ [] ∧ '/' ∉ value)
    (query_values : ∀ key ∈ keys, ∀ value ∈ params.get? key, value ≠ []) :
    (compile path keys).match? (RouteText.parts rendered.path) (.ofPairs rendered.query)
      = some (params.restrict ((compile path keys).placeholders ++ keys)) := by
  obtain ⟨parts, wrote, same, named, held⟩ := render?_eq_some_iff.mp written
  rw [same, parts_of_write wrote path_values]
  refine match?_of_write wrote named held fun pair member => ?_
  have key : pair.1 ∈ (compile path keys).queryKeys := named ▸ List.mem_map_of_mem member
  exact query_values pair.1 key pair.2 (held pair member)

/-- A template that writes one name twice in its path and once more in its query. -/
def itemTemplate : Template :=
  compile "/item/:id//$\x7bid\x7d".toList ["id".toList, "tab".toList]

def itemParams : Bindings :=
  .ofPairs [("id".toList, "7?#".toList), ("tab".toList, "/".toList), ("zoom".toList, "2".toList)]

/-- A name that is written three times is matched with its one value, and a value that is not asked
for is left out. -/
theorem match?_of_render?_item : ∃ rendered, itemTemplate.render? itemParams = some rendered ∧
    rendered.path = "item/7?#/7?#".toList ∧
    itemTemplate.match? (RouteText.parts rendered.path) (.ofPairs rendered.query)
      = some (.ofPairs [("id".toList, "7?#".toList), ("tab".toList, "/".toList)]) := by
  have written : itemTemplate.render? itemParams
      = some ⟨"item/7?#/7?#".toList,
        [("id".toList, "7?#".toList), ("tab".toList, "/".toList)]⟩ := by
    decide +kernel
  have matched := match?_of_render? written (by decide +kernel) (by decide +kernel)
  exact ⟨_, written, rfl, matched.trans (by decide +kernel)⟩

end DeepLink.Template
