import DeepLink.Query
import DeepLink.Proofs.BindingLaws
import DeepLink.Proofs.PercentCodec
import DeepLink.Proofs.Splitting

/-!
# The query codec

Writing items and reading them again gives the items back, but for those that are written
as nothing (`items_encode`): an item without name and value. Pairs always have a value, so
none of them is lost (`values_encodePairs`), and behind a path without `?` they are found
again as they were written (`items_encode_and_join`).

Sorting keeps the items of each name in their order (`filter_sorted`), so the values of a
query do not change when its items are sorted and written anew, except that the empty name
may lose its value (`get?_values_encode_sorted`).
-/
namespace DeepLink

/-- The item without name and value, which is written as nothing. -/
def QueryItem.blank : QueryItem := ⟨[], none⟩

namespace Query

/-! ### Single items -/

theorem decodeComponent_encodeComponent (text : Text) :
    decodeComponent (encodeComponent text) = text := by
  have escaped : isUnreserved '%' = false := by decide
  rw [decodeComponent, encodeComponent, Percent.decode?_encode escaped, Option.getD_some]

theorem ampersand_not_mem (text : Text) : '&' ∉ encodeComponent text :=
  Percent.not_mem_encode (by decide) (by decide) (by decide) text

theorem equals_not_mem (text : Text) : '=' ∉ encodeComponent text :=
  Percent.not_mem_encode (by decide) (by decide) (by decide) text

theorem readItem_writeItem (item : QueryItem) : readItem (writeItem item) = item := by
  obtain ⟨name, value⟩ := item
  cases value with
  | none =>
    have whole := Text.cut?_eq_none_iff.mpr (equals_not_mem name)
    simp [writeItem, readItem, whole, decodeComponent_encodeComponent]
  | some value =>
    have halves := Text.cut?_append (equals_not_mem name) (encodeComponent value)
    simp [writeItem, readItem, halves, decodeComponent_encodeComponent]

theorem writeItem_eq_nil_iff {item : QueryItem} : writeItem item = [] ↔ item = .blank := by
  obtain ⟨name, value⟩ := item
  cases value with
  | none => simp [writeItem, encodeComponent, Percent.encode_eq_nil_iff, QueryItem.blank]
  | some value => simp [writeItem, QueryItem.blank]

theorem ampersand_not_mem_writeItem (item : QueryItem) : '&' ∉ writeItem item := by
  obtain ⟨name, value⟩ := item
  cases value with
  | none => exact ampersand_not_mem name
  | some value =>
    intro member
    rcases List.mem_append.mp member with inName | later
    · exact ampersand_not_mem name inName
    · rcases List.mem_cons.mp later with same | inValue
      · exact absurd same (by decide)
      · exact ampersand_not_mem value inValue

/-! ### Lists of items -/

/-- A query is written in unreserved characters, percent signs and its two separators. -/
theorem of_mem_encode {list : List QueryItem} {c : Char} (member : c ∈ encode list) :
    isUnreserved c = true ∨ c = '%' ∨ c = '=' ∨ c = '&' := by
  have component {text : Text} (inside : c ∈ encodeComponent text) :
      isUnreserved c = true ∨ c = '%' := by
    rcases Percent.mem_encode inside with percent | digit | ⟨plain, _⟩
    · exact .inr percent
    · have digits : Numeral.capitalDigits.all isUnreserved = true := by decide
      exact .inl (List.all_eq_true.mp digits c digit)
    · exact .inl plain
  rcases Text.mem_joinWith member with separator | ⟨piece, among, inPiece⟩
  · exact .inr (.inr (.inr separator))
  · obtain ⟨⟨name, value⟩, _, rfl⟩ := List.mem_map.mp among
    cases value with
    | none => exact (component inPiece).imp_right .inl
    | some value =>
      rcases List.mem_append.mp inPiece with inName | later
      · exact (component inName).imp_right .inl
      · rcases List.mem_cons.mp later with equals | inValue
        · exact .inr (.inr (.inl equals))
        · exact (component inValue).imp_right .inl

/-- Exactly the blank items are lost. -/
theorem items_encode (list : List QueryItem) :
    items (encode list) = list.filter (· ≠ .blank) := by
  have free : ∀ piece ∈ list.map writeItem, '&' ∉ piece := by
    intro piece member
    obtain ⟨item, _, rfl⟩ := List.mem_map.mp member
    exact ampersand_not_mem_writeItem item
  -- The reader skips the pieces that blank items leave.
  have same : (list.map writeItem).filter (· ≠ []) = (list.filter (· ≠ .blank)).map writeItem := by
    rw [List.filter_map]
    congr 2
    funext item
    simp [writeItem_eq_nil_iff]
  have read : readItem ∘ writeItem = id := funext readItem_writeItem
  rw [items, encode, Text.fields_joinWith free, same, List.map_map, read, List.map_id]

/-- Lists that are not empty are told apart by what is written, blank items included. -/
theorem eq_of_encode {left right : List QueryItem} (filled : left ≠ []) (others : right ≠ [])
    (same : encode left = encode right) : left = right := by
  -- Writing joins the items with a sign that none of them holds, so the pieces come back.
  have pieces {list : List QueryItem} (nonempty : list ≠ []) :
      (encode list).splitOn '&' = list.map writeItem := by
    refine List.splitOn_intercalate '&' (fun piece member => ?_) (by simpa using nonempty)
    obtain ⟨item, _, rfl⟩ := List.mem_map.mp member
    exact ampersand_not_mem_writeItem item
  have injective : Function.Injective writeItem := Function.LeftInverse.injective readItem_writeItem
  apply injective.list_map
  rw [← pieces filled, ← pieces others, same]

theorem items_encodePairs (pairs : List (Text × Text)) :
    items (encodePairs pairs) = pairs.map fun pair => ⟨pair.1, some pair.2⟩ := by
  rw [encodePairs, items_encode, List.filter_eq_self]
  intro item member
  obtain ⟨pair, _, rfl⟩ := List.mem_map.mp member
  simp [QueryItem.blank]

/-- The values of written pairs are the pairs. -/
theorem values_encodePairs (pairs : List (Text × Text)) :
    values (encodePairs pairs) = .ofPairs pairs := by
  rw [values, items_encodePairs, List.map_map]
  congr 1
  exact List.map_id _

/-! ### Sorted items -/

/-- The order in which items are sorted. -/
def inOrder (left right : QueryItem) : Bool := !right.name.precedes left.name

theorem inOrder_total (left right : QueryItem) :
    (inOrder left right || inOrder right left) = true := by
  cases forward : left.name.precedes right.name with
  | false => simp [inOrder, forward]
  | true => simp [inOrder, Text.precedes_asymm forward]

theorem inOrder_trans (first second third : QueryItem) (left : inOrder first second = true)
    (right : inOrder second third = true) : inOrder first third = true := by
  simp only [inOrder, Bool.not_eq_true'] at *
  -- A missing order does not chain by itself: the middle name lies strictly between or is the
  -- first.
  by_cases same : second.name = first.name
  · rwa [← same]
  · have between := (Text.precedes_total same).resolve_left (by simp [left])
    refine Bool.eq_false_iff.mpr fun back => ?_
    simp [Text.precedes_trans back between] at right

theorem sorted_perm (list : List QueryItem) : (sorted list).Perm list :=
  List.mergeSort_perm list _

theorem sorted_pairwise (list : List QueryItem) :
    (sorted list).Pairwise fun left right => inOrder left right = true :=
  List.pairwise_mergeSort inOrder_trans inOrder_total list

theorem sorted_eq_self {list : List QueryItem}
    (ordered : list.Pairwise fun left right => inOrder left right = true) : sorted list = list :=
  List.mergeSort_of_pairwise ordered

/-- Items of one name keep their order. -/
theorem filter_sorted (list : List QueryItem) (name : Text) :
    (sorted list).filter (·.name = name) = list.filter (·.name = name) := by
  have level : (list.filter (·.name = name)).Pairwise
      fun left right => inOrder left right = true := by
    refine List.pairwise_of_forall_mem_list fun left first right second => ?_
    have leftNamed : left.name = name := by simpa using (List.mem_filter.mp first).2
    have rightNamed : right.name = name := by simpa using (List.mem_filter.mp second).2
    simp [inOrder, leftNamed, rightNamed, Text.precedes_irrefl]
  -- Items of one name are level, and a stable sort keeps what is level as a sublist.
  have kept : (list.filter (·.name = name)).Sublist (sorted list) :=
    List.sublist_mergeSort inOrder_trans inOrder_total level List.filter_sublist
  have inside := kept.filter (·.name = name)
  rw [List.filter_filter] at inside
  simp only [Bool.and_self] at inside
  exact (inside.eq_of_length_le ((sorted_perm list).filter _).length_eq.le).symm

/-- What is written and read again stays in order. -/
theorem sorted_items_encode {list : List QueryItem}
    (ordered : list.Pairwise fun left right => inOrder left right = true) :
    sorted (items (encode list)) = list.filter (· ≠ .blank) := by
  rw [items_encode, sorted_eq_self (ordered.filter _)]

/-! ### Values by name -/

/-- The value of the last item of a name. -/
def lastValue? (list : List QueryItem) (name : Text) : Option Text :=
  ((list.filter (·.name = name)).getLast?).map (·.value.getD [])

theorem lookup_pairs (list : List QueryItem) (name : Text) :
    (list.map fun item => (item.name, item.value.getD [])).lookup name
      = ((list.filter (·.name = name)).head?).map (·.value.getD []) := by
  induction list with
  | nil => rfl
  | cons item rest ih =>
    rw [List.map_cons, Bindings.lookup_cons_eq_ite, ih]
    by_cases same : item.name = name
    · simp [same]
    · simp [same, Ne.symm same]

theorem get?_values (query name : Text) :
    (values query).get? name = lastValue? (items query) name := by
  rw [values, Bindings.get?_ofPairs, ← List.map_reverse, lookup_pairs, List.filter_reverse,
    List.head?_reverse, lastValue?]

theorem lastValue?_sorted (list : List QueryItem) (name : Text) :
    lastValue? (sorted list) name = lastValue? list name := by
  rw [lastValue?, filter_sorted, lastValue?]

/-- Items that are written as nothing only ever gave a value to the empty name. -/
theorem lastValue?_filter_blank {name : Text} (filled : name ≠ []) (list : List QueryItem) :
    lastValue? (list.filter (· ≠ .blank)) name = lastValue? list name := by
  rw [lastValue?, List.filter_filter, lastValue?]
  congr 2
  refine List.filter_congr fun item _ => ?_
  -- The blank item has the empty name, so it is not among the items that count.
  by_cases same : item.name = name
  · have visible : item ≠ .blank := by
      rintro rfl
      exact filled same.symm
    simp [same, visible]
  · simp [same]

/-- A key of written pairs has the value of its last pair. -/
theorem get?_values_encodePairs (pairs : List (Text × Text)) (key : Text) :
    (values (encodePairs pairs)).get? key
      = ((pairs.filter (·.1 = key)).getLast?).map Prod.snd := by
  rw [get?_values, items_encodePairs, lastValue?, List.filter_map, List.getLast?_map,
    Option.map_map]
  rfl

theorem get?_values_encode_sorted {name : Text} (filled : name ≠ []) (query : Text) :
    (values (encode (sorted (items query)))).get? name = (values query).get? name := by
  rw [get?_values, items_encode, lastValue?_filter_blank filled, lastValue?_sorted, get?_values]

/-! ### Written queries -/

/-- Of written items exactly those without name and value are lost. Written pairs are found
again behind any path, each in its place, and as values by key. -/
theorem items_encode_and_join :
    (∀ list : List QueryItem,
        items (encode list) = list.filter fun item => ¬(item.name = [] ∧ item.value = none)) ∧
      ∀ (path : Text) (pairs : List (Text × Text)), '?' ∉ path →
        RouteText.split (RouteText.join path (encodePairs pairs)) = (path, encodePairs pairs) ∧
          items (encodePairs pairs) = pairs.map (fun pair => ⟨pair.1, some pair.2⟩) ∧
          ∀ key, (values (encodePairs pairs)).get? key
            = ((pairs.filter (·.1 = key)).getLast?).map Prod.snd := by
  constructor
  · intro list
    rw [items_encode]
    refine List.filter_congr fun item _ => ?_
    obtain ⟨name, value⟩ := item
    simp [QueryItem.blank]
  · intro path pairs free
    exact ⟨RouteText.split_join free _, items_encodePairs pairs, get?_values_encodePairs pairs⟩

/-- Separators, escapes and a repeated key behind a path with a number sign. -/
theorem items_encode_and_join_separators :
    RouteText.split "a#b?k%3D=%26&=%2541&k%3D=%3F".toList
        = ("a#b".toList, "k%3D=%26&=%2541&k%3D=%3F".toList) ∧
      (values "k%3D=%26&=%2541&k%3D=%3F".toList).get? "k=".toList = some "?".toList := by
  let pairs : List (Text × Text) := [("k=".toList, "&".toList), ([], "%41".toList),
    ("k=".toList, "?".toList)]
  have written : encodePairs pairs = "k%3D=%26&=%2541&k%3D=%3F".toList := by decide +kernel
  obtain ⟨halves, _, last⟩ := items_encode_and_join.2 "a#b".toList pairs (by decide +kernel)
  rw [written] at halves last
  exact ⟨halves, last "k=".toList⟩

end Query
end DeepLink
