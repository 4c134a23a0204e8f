/-!
# Text

A text is the list of its characters. This module holds the few ways in which route
strings, URLs and patterns take a text apart and put it together again.

`cut?` splits at the first separator, `fields` lists the non-empty pieces between
separators, and `joinWith` writes pieces with a separator between each two of them.
-/
namespace DeepLink

/-- A text is the list of its characters. -/
abbrev Text := List Char

namespace Text

/-- The parts before and after the first `separator`, or nothing when there is none. -/
def cut? (separator : Char) : Text → Option (Text × Text)
  | [] => none
  | c :: rest =>
    if c = separator then some ([], rest)
    else (cut? separator rest).map fun (before, after) => (c :: before, after)

theorem length_after_cut {separator : Char} {text head tail : Text}
    (found : cut? separator text = some (head, tail)) : tail.length < text.length := by
  induction text generalizing head with
  | nil => simp [cut?] at found
  | cons c rest ih =>
    simp only [cut?] at found
    split at found
    · simp only [Option.some.injEq, Prod.mk.injEq] at found
      simp [found.2]
    · obtain ⟨⟨before, after⟩, inner, same⟩ := Option.map_eq_some_iff.mp found
      simp only [Prod.mk.injEq] at same
      have shorter := ih (same.2 ▸ inner)
      simp only [List.length_cons]
      omega

/-- The parts before and after the last `separator`, or nothing when there is none. -/
def cutLast? (separator : Char) (text : Text) : Option (Text × Text) :=
  -- The last separator is the first one from the end.
  (cut? separator text.reverse).map fun (after, before) => (before.reverse, after.reverse)

/-- The part before the first `separator`, or the whole text when there is none. -/
def before (separator : Char) (text : Text) : Text :=
  text.takeWhile (· ≠ separator)

/-- The non-empty pieces between separators, in order. -/
def fields (separator : Char) (text : Text) : List Text :=
  (text.splitOn separator).filter (· ≠ [])

/-- The pieces in order, with one separator between each two of them. -/
def joinWith (separator : Char) (pieces : List Text) : Text :=
  [separator].intercalate pieces

theorem mem_joinWith {separator c : Char} {pieces : List Text}
    (member : c ∈ joinWith separator pieces) : c = separator ∨ ∃ piece ∈ pieces, c ∈ piece := by
  induction pieces with
  | nil => simp [joinWith] at member
  | cons piece rest ih =>
    cases rest with
    | nil => exact .inr ⟨piece, .head _, by simpa [joinWith] using member⟩
    | cons next others =>
      simp only [joinWith, List.intercalate_cons_cons, List.mem_append, List.mem_singleton]
        at member ih
      rcases member with (here | same) | later
      · exact .inr ⟨piece, .head _, here⟩
      · exact .inl same
      · exact (ih later).imp_right fun ⟨found, among, inside⟩ => ⟨found, .tail _ among, inside⟩

/-- The text without the characters satisfying `drop` at its two ends. -/
def trimEnds (drop : Char → Bool) (text : Text) : Text :=
  ((text.dropWhile drop).reverse.dropWhile drop).reverse

/-- The text with the capital letters `A` to `Z` made small. -/
def toLower (text : Text) : Text := text.map Char.toLower

/-- Equality up to the case of the letters `A` to `Z`. -/
def equalsIgnoringCase (left right : Text) : Bool := left.toLower = right.toLower

/-- Whether `://` occurs, as it does in the text of a URL with an authority. -/
def hasAuthorityMark : Text → Bool
  | [] => false
  | ':' :: '/' :: '/' :: _ => true
  | _ :: rest => hasAuthorityMark rest

/-- The text that a list of bytes encodes as UTF-8, if it does. -/
def ofUtf8? (bytes : List UInt8) : Option Text :=
  (String.fromUTF8? bytes.toByteArray).map String.toList

/-- A text between single quotes, as messages show it. -/
def quoted (text : Text) : Text := "'".toList ++ text ++ "'".toList

end Text
end DeepLink
