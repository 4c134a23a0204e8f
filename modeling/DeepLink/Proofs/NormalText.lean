import DeepLink.Proofs.Normalization
import DeepLink.Url.Reading
import Mathlib

/-!
# The text of a normal form

Both kinds of normal forms are written as a text without `?` and `#`, followed by the query if
there is one (`NormalForm.exists_base`). A query is written in a small alphabet
(`Query.of_mem_encode`) that holds neither of the two, and its items come back in order. So a
normalized text has one shape, whatever it was made from (`normalize_shape`).
-/
namespace DeepLink

namespace Text

variable {separator : Char} {text left right : Text}

theorem nil_mem_splitOn_append
    (empty : [] ∈ left.splitOn separator ∨ [] ∈ right.splitOn separator) :
    [] ∈ (left ++ separator :: right).splitOn separator := by
  rw [List.splitOn_append_cons_self]
  exact List.mem_append.mpr empty

/-- Without empty pieces there is no separator at the ends and there are no two in a row. -/
theorem separated_of_filled (filled : text = [] ∨ [] ∉ text.splitOn separator) :
    text.head? ≠ some separator ∧ text.getLast? ≠ some separator ∧
      ¬ [separator, separator] <:+: text := by
  have empty : ([] : Text) ∈ ([] : Text).splitOn separator := by simp [List.splitOn_nil]
  have first (rest : Text) : [] ∈ (separator :: rest).splitOn separator :=
    nil_mem_splitOn_append (.inl empty)
  rcases filled with rfl | filled
  · simp
  · refine ⟨fun opens => ?_, fun closes => ?_, fun twice => ?_⟩
    · obtain ⟨rest, rfl⟩ := List.head?_eq_some_iff.mp opens
      exact filled (first rest)
    · obtain ⟨front, rfl⟩ := List.getLast?_eq_some_iff.mp closes
      exact filled (nil_mem_splitOn_append (.inr empty))
    · obtain ⟨front, back, rfl⟩ := twice
      -- The empty piece is the one between the two separators.
      rw [List.append_assoc] at filled
      exact filled (nil_mem_splitOn_append (.inr (first back)))

end Text

namespace NormalForm

variable {form : NormalForm} {base raw : Text}

/-- The only question mark stands before the query. -/
theorem count_question_withQuery (free : '?' ∉ base) : (form.withQuery base).count '?' ≤ 1 := by
  have inQuery : (Query.encode form.query).count '?' = 0 := by
    refine List.count_eq_zero.mpr fun member => ?_
    rcases Query.of_mem_encode member with plain | same | same | same <;>
      exact absurd ‹_› (by decide)
  rw [withQuery_eq, List.count_append, List.count_eq_zero.mpr free, queryText?]
  split
  · simp
  · simp [inQuery]

/-- A normalized text is a text without delimiters and a query in order. A text that is no URL
keeps its path but for empty parts. -/
theorem exists_base (parser : Url.Parser) (raw : Text) :
    ∃ (form : NormalForm) (base : Text), normalize parser raw = form.withQuery base ∧
      Url.Clean base ∧ (form.query.Pairwise fun left right => Query.inOrder left right = true) ∧
      (readUrl? parser raw = none → base = (ofRaw raw).path) := by
  cases read : readUrl? parser raw with
  | none =>
    exact ⟨ofRaw raw, (ofRaw raw).path, normalize_of_none read, clean_ofRaw raw,
      Query.sorted_pairwise _, fun _ => rfl⟩
  | some url =>
    have formed := wellFormed_ofUrl url
    refine ⟨ofUrl url, _, (normalize_of_some read).trans (render_of_scheme rfl), ?_,
      formed.ordered, nofun⟩
    -- No component of a URL holds a delimiter that would end the path.
    intro c member
    rcases List.mem_append.mp member with inScheme | later
    · have plain := url.scheme.undelimited c inScheme
      constructor <;> rintro rfl <;> exact absurd plain (by decide)
    · rcases List.mem_cons.mp later with rfl | inside
      · decide
      · exact formed.clean_location formed.clean c inside

end NormalForm

/-- A normalized text holds no number sign and at most one question mark. Behind that, it has
nothing but ASCII letters, digits, escapes and separators, and its items are in ascending order of
their names. Without a URL, the path has no slash at its ends and no two in a row. -/
theorem normalize_shape (parser : Url.Parser) (raw : Text) :
    '#' ∉ normalize parser raw ∧ (normalize parser raw).count '?' ≤ 1 ∧
      (∀ c ∈ (RouteText.split (normalize parser raw)).2,
        c.isAlphanum = true ∨ c ∈ ['-', '_', '.', '~', '%', '&', '=']) ∧
      ((Query.items (RouteText.split (normalize parser raw)).2).map (·.name)).Pairwise
        (fun left right => right.precedes left = false) ∧
      (readUrl? parser raw = none →
        (RouteText.split (normalize parser raw)).1.head? ≠ some '/' ∧
          (RouteText.split (normalize parser raw)).1.getLast? ≠ some '/' ∧
          ¬ "//".toList <:+: (RouteText.split (normalize parser raw)).1) := by
  obtain ⟨form, base, same, clean, ordered, unread⟩ := NormalForm.exists_base parser raw
  have free : '?' ∉ base := fun member => (clean _ member).1 rfl
  have noHash : '#' ∉ base := fun member => (clean _ member).2 rfl
  rw [same, NormalForm.split_withQuery form free]
  refine ⟨NormalForm.hash_not_mem_withQuery noHash, NormalForm.count_question_withQuery free,
    fun c member => ?_, ?_, fun read => ?_⟩
  · rcases Query.of_mem_encode member with plain | rfl | rfl | rfl
    · rcases Bool.or_eq_true_iff.mp plain with letter | mark
      · exact .inl letter
      · exact .inr (List.mem_append_left ['%', '&', '='] (List.contains_iff_mem.mp mark))
    all_goals exact .inr (by decide)
  · -- Blank items are not read again, and the others keep their order.
    rw [Query.items_encode, List.pairwise_map]
    exact (ordered.filter _).imp fun ordered => by simpa [Query.inOrder] using ordered
  · rw [unread read]
    apply Text.separated_of_filled
    apply Text.joinWith_fields_eq_iff.mp
    exact congrArg (Text.joinWith '/') (NormalForm.parts_ofRaw raw)

/-- Empty parts, an escape, a repeated name, an item that is no UTF-8 and a fragment. -/
theorem normalize_shape_untidy :
    normalize Url.parse? "//a%2541///b/?z=1&%7a&%FF&k=%26#/x?".toList
        = "a%2541/b?&k=%26&z=1&z".toList ∧
      readUrl? Url.parse? "//a%2541///b/?z=1&%7a&%FF&k=%26#/x?".toList = none ∧
      ¬ "//".toList <:+: "a%2541/b".toList := by
  have unread : readUrl? Url.parse? "//a%2541///b/?z=1&%7a&%FF&k=%26#/x?".toList = none :=
    if_neg (by decide)
  have written : normalize Url.parse? "//a%2541///b/?z=1&%7a&%FF&k=%26#/x?".toList
      = "a%2541/b?&k=%26&z=1&z".toList := by cbv
  obtain ⟨_, _, _, _, separated⟩ :=
    normalize_shape Url.parse? "//a%2541///b/?z=1&%7a&%FF&k=%26#/x?".toList
  rw [written] at separated
  exact ⟨written, unread, (separated unread).2.2⟩

end DeepLink
