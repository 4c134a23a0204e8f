import DeepLink.Proofs.Candidates
import Mathlib

/-!
# The order of query items

Sorting by name keeps the items of each name in their order and nothing else of the order of a
query. So the normal forms of two queries are equal exactly when the queries have the same items
of every name (`NormalForm.query_eq_iff_sameByName`): there is one ascending list with given
items of every name (`Query.SameByName.eq_of_pairwise`). A mapper sees no more of a URL than
its normal form, so it does not see the order of differently named items either.
-/
namespace DeepLink

open Query (items sorted)

namespace Query

/-- Whether two lists have the same items of every name, in the same order. -/
def SameByName (left right : List QueryItem) : Prop :=
  ∀ name, left.filter (·.name = name) = right.filter (·.name = name)

variable {left right : List QueryItem} {item other : QueryItem}

theorem SameByName.mem (same : SameByName left right) (member : item ∈ left) : item ∈ right := by
  have among : item ∈ left.filter (·.name = item.name) := List.mem_filter.mpr ⟨member, by simp⟩
  rw [same item.name] at among
  exact (List.mem_filter.mp among).1

theorem SameByName.symm (same : SameByName left right) : SameByName right left :=
  fun name => (same name).symm

/-- Heads of one name are the same item, and what follows them is the same by name too. -/
theorem SameByName.of_cons (same : SameByName (item :: left) (other :: right))
    (level : item.name = other.name) : item = other ∧ SameByName left right := by
  have heads := same item.name
  rw [List.filter_cons_of_pos (by simp), List.filter_cons_of_pos (by simp [level])] at heads
  obtain ⟨rfl, tails⟩ := List.cons.inj heads
  refine ⟨rfl, fun name => ?_⟩
  by_cases here : item.name = name
  · exact here ▸ tails
  · have rest := same name
    rwa [List.filter_cons_of_neg (by simp [here]), List.filter_cons_of_neg (by simp [here])] at rest

theorem name_eq_of_inOrder (forward : inOrder item other = true)
    (backward : inOrder other item = true) : item.name = other.name := by
  by_contra different
  rcases Text.precedes_total different with before | after
  · simp [inOrder, before] at backward
  · simp [inOrder, after] at forward

/-- There is one ascending list with given items of every name. -/
theorem SameByName.eq_of_pairwise (same : SameByName left right)
    (ordered : left.Pairwise fun item other => inOrder item other = true)
    (others : right.Pairwise fun item other => inOrder item other = true) : left = right := by
  induction left generalizing right with
  | nil =>
    cases right with
    | nil => rfl
    | cons other more => exact absurd (same.symm.mem List.mem_cons_self) List.not_mem_nil
  | cons item rest ih =>
    cases right with
    | nil => exact absurd (same.mem List.mem_cons_self) List.not_mem_nil
    | cons other more =>
      obtain ⟨below, tail⟩ := List.pairwise_cons.mp ordered
      obtain ⟨above, further⟩ := List.pairwise_cons.mp others
      -- Each head occurs in the other list, so neither of them comes before the other.
      have level : item.name = other.name := by
        rcases List.mem_cons.mp (same.mem List.mem_cons_self) with rfl | later
        · rfl
        · rcases List.mem_cons.mp (same.symm.mem List.mem_cons_self) with rfl | earlier
          · rfl
          · exact name_eq_of_inOrder (below other earlier) (above item later)
      obtain ⟨rfl, tails⟩ := same.of_cons level
      rw [ih tails tail further]

/-- Sorted lists are told apart by the items of some name, and by nothing else. -/
theorem sorted_eq_sorted_iff : sorted left = sorted right ↔ SameByName left right := by
  constructor
  · intro same name
    rw [← filter_sorted left, same, filter_sorted]
  · intro same
    refine SameByName.eq_of_pairwise (fun name => ?_) (sorted_pairwise left) (sorted_pairwise right)
    rw [filter_sorted, filter_sorted, same name]

end Query

open Query (SameByName)

namespace NormalForm

variable {left right : Url} {path first second : Text}

theorem ofUrl_eq_iff (scheme : left.scheme.text = right.scheme.text)
    (host : left.host.map (·.text) = right.host.map (·.text))
    (path : left.path.text = right.path.text) :
    ofUrl left = ofUrl right ↔
      SameByName (items (left.query.getD [])) (items (right.query.getD [])) := by
  rw [← Query.sorted_eq_sorted_iff]
  constructor
  · exact congrArg query
  · intro same
    rw [ofUrl, scheme, host, path, same, ← ofUrl]

/-- Without a number sign nothing of a route text is cut off. -/
theorem ofRaw_append (free : '?' ∉ path) (noHash : '#' ∉ path) (hashless : '#' ∉ first) :
    ofRaw (path ++ '?' :: first)
      = ⟨none, none, Text.joinWith '/' (RouteText.parts path), sorted (items first)⟩ := by
  have whole : '#' ∉ path ++ '?' :: first := by simp [noHash, hashless]
  rw [ofRaw, Text.before_eq_self whole, RouteText.split_append free]

theorem ofRaw_eq_iff (free : '?' ∉ path) (noHash : '#' ∉ path) (hashless : '#' ∉ first)
    (others : '#' ∉ second) :
    ofRaw (path ++ '?' :: first) = ofRaw (path ++ '?' :: second) ↔
      SameByName (items first) (items second) := by
  rw [ofRaw_append free noHash hashless, ofRaw_append free noHash others,
    ← Query.sorted_eq_sorted_iff]
  simp

end NormalForm

namespace Mapper

variable {ρ : Type} {left right : Url}

/-- A mapper sees no more of a URL than its normal form. -/
theorem candidates_congr (mapper : Mapper ρ)
    (same : NormalForm.ofUrl left = NormalForm.ofUrl right) :
    mapper.candidates left = mapper.candidates right := by
  rw [candidates, same, ← candidates]

theorem decodeUrl?_congr (mapper : Mapper ρ)
    (same : NormalForm.ofUrl left = NormalForm.ofUrl right) :
    mapper.decodeUrl? left = mapper.decodeUrl? right := by
  rw [decodeUrl?, candidates_congr mapper same, ← decodeUrl?]

end Mapper

namespace NormalForm

/-- Normal forms tell queries apart up to the order of differently named items, and URLs and
route texts with such queries are treated alike. -/
theorem query_eq_iff_sameByName :
    (∀ first second : Text,
        sorted (items first) = sorted (items second) ↔
          SameByName (items first) (items second)) ∧
      (∀ left right : Url, left.scheme.text = right.scheme.text →
        left.host.map (·.text) = right.host.map (·.text) → left.path.text = right.path.text →
        (ofUrl left = ofUrl right ↔
          SameByName (items (left.query.getD [])) (items (right.query.getD []))) ∧
        (SameByName (items (left.query.getD [])) (items (right.query.getD [])) →
          ∀ (ρ : Type) (mapper : Mapper ρ), mapper.candidates left = mapper.candidates right ∧
            mapper.decodeUrl? left = mapper.decodeUrl? right)) ∧
      ∀ path first second : Text, '?' ∉ path → '#' ∉ path → '#' ∉ first → '#' ∉ second →
        (ofRaw (path ++ '?' :: first) = ofRaw (path ++ '?' :: second) ↔
          SameByName (items first) (items second)) := by
  refine ⟨fun first second => Query.sorted_eq_sorted_iff, fun left right scheme host path => ?_,
    fun path first second free noHash hashless others =>
      ofRaw_eq_iff free noHash hashless others⟩
  have form := ofUrl_eq_iff scheme host path
  refine ⟨form, fun same ρ mapper => ?_⟩
  have equal := form.mpr same
  exact ⟨mapper.candidates_congr equal, mapper.decodeUrl?_congr equal⟩

/-- Items of two names change places around an escape, a repetition and a missing value. -/
theorem query_eq_iff_sameByName_orders :
    ∃ left right, Url.parse? "myapp://me@shop:1/order?id=7&%62=1&b#top".toList = some left ∧
      Url.parse? "myapp://shop/order?b=1&b&&id=7".toList = some right ∧
      SameByName (items (left.query.getD [])) (items (right.query.getD [])) ∧
      Mapper.orders.candidates left = Mapper.orders.candidates right ∧
      Mapper.orders.decodeUrl? left = Mapper.orders.decodeUrl? right ∧
      ofRaw "order?id=7&%62=1&b".toList = ofRaw "order?b=1&b&&id=7".toList := by
  obtain ⟨queries, urls, texts⟩ := query_eq_iff_sameByName
  let left := (Url.parse? "myapp://me@shop:1/order?id=7&%62=1&b#top".toList).get (by decide +kernel)
  let right := (Url.parse? "myapp://shop/order?b=1&b&&id=7".toList).get (by decide +kernel)
  have same : SameByName (items "id=7&%62=1&b".toList) (items "b=1&b&&id=7".toList) :=
    (queries _ _).mp (by cbv)
  have leftQuery : left.query.getD [] = "id=7&%62=1&b".toList := by decide +kernel
  have rightQuery : right.query.getD [] = "b=1&b&&id=7".toList := by decide +kernel
  have related : SameByName (items (left.query.getD [])) (items (right.query.getD [])) := by
    rw [leftQuery, rightQuery]
    exact same
  have alike := (urls left right (by decide +kernel) (by decide +kernel)
    (by decide +kernel)).2 related Text Mapper.orders
  refine ⟨left, right, (Option.some_get _).symm, (Option.some_get _).symm, related, alike.1,
    alike.2, ?_⟩
  exact (texts "order".toList _ _ (by decide +kernel) (by decide +kernel) (by decide +kernel)
    (by decide +kernel)).mpr same

end NormalForm
end DeepLink
