import DeepLink.RouteText
import Mathlib.Data.List.Basic
import Mathlib.Data.List.DropRight
import Mathlib.Data.List.TakeDrop
import Mathlib.Data.List.TakeWhile

/-!
# Splitting and joining

Laws of `cut?`, `fields` and `joinWith`. A text is cut where it was put together
(`cut?_append`), and the fields of joined pieces are the pieces (`fields_joinWith`) as long
as no piece holds the separator. From these follow the same laws for route texts.

Joining pieces that are not empty never writes two slashes in a row, so such a text has no
authority mark (`hasAuthorityMark_joinWith`).
-/
namespace DeepLink.Text

variable {separator : Char} {text head tail : Text}

/-- What holds of all small code points holds of all characters with these. -/
theorem forall_char {motive : Char → Prop} {bound : Nat}
    (all : ∀ n < bound, motive (Char.ofNat n)) (c : Char) (small : c.toNat < bound) : motive c := by
  have here := all c.toNat small
  rwa [Char.ofNat_toNat] at here

theorem toNat_lt_of_isAlphanum {c : Char} (valid : c.isAlphanum = true) : c.toNat < 123 := by
  have small {high : UInt32} (most : c.val ≤ high) : c.toNat ≤ high.toNat :=
    UInt32.le_iff_toNat_le.mp most
  rcases Bool.or_eq_true_iff.mp valid with letter | digit
  · rcases Bool.or_eq_true_iff.mp letter with upper | lower
    · exact Nat.lt_of_le_of_lt (small (of_decide_eq_true upper).2) (by decide)
    · have bounds := Bool.and_eq_true_iff.mp lower
      exact Nat.lt_succ_of_le (small (of_decide_eq_true bounds.2))
  · have bounds := Bool.and_eq_true_iff.mp digit
    exact Nat.lt_of_le_of_lt (small (of_decide_eq_true bounds.2)) (by decide)

/-! ### Cutting -/

@[simp] theorem cut?_eq_none_iff : cut? separator text = none ↔ separator ∉ text := by
  induction text with
  | nil => simp [cut?]
  | cons c rest ih =>
    by_cases same : c = separator
    · simp [cut?, same]
    · simp [cut?, same, ih, Ne.symm same]

theorem cut?_append (absent : separator ∉ head) (tail : Text) :
    cut? separator (head ++ separator :: tail) = some (head, tail) := by
  induction head with
  | nil => simp [cut?]
  | cons c rest ih =>
    have different : c ≠ separator := fun same => absent (same ▸ List.mem_cons_self)
    have inner := ih fun member => absent (List.mem_cons_of_mem c member)
    simp [cut?, different, inner]

theorem eq_append_of_cut? (found : cut? separator text = some (head, tail)) :
    text = head ++ separator :: tail ∧ separator ∉ head := by
  induction text generalizing head with
  | nil => simp [cut?] at found
  | cons c rest ih =>
    simp only [cut?] at found
    split at found
    next same =>
      simp only [Option.some.injEq, Prod.mk.injEq] at found
      simp [same, ← found.1, found.2]
    next different =>
      obtain ⟨⟨inner, after⟩, cutRest, same⟩ := Option.map_eq_some_iff.mp found
      obtain ⟨rfl, rfl⟩ := Prod.mk.injEq .. ▸ same
      obtain ⟨split, absent⟩ := ih cutRest
      exact ⟨by simp [split], by simp [Ne.symm different, absent]⟩

theorem span_append {separates : Char → Bool} {head tail : Text}
    (inner : ∀ c ∈ head, separates c = false) (ends : ∀ c ∈ tail.head?, separates c = true) :
    (head ++ tail).span (!separates ·) = (head, tail) := by
  have kept : ∀ c ∈ head, (!separates c) = true := fun c member => by simp [inner c member]
  rw [List.span_eq_takeWhile_dropWhile, List.takeWhile_append_of_pos kept,
    List.dropWhile_append_of_pos kept]
  cases tail with
  | nil => simp
  | cons c rest => simp [ends c rfl]

/-- A character that is not kept ends what is taken. -/
theorem takeWhile_append_cons {keep : Char → Bool} {c : Char} (lost : keep c = false)
    (front back : Text) : (front ++ c :: back).takeWhile keep = front.takeWhile keep := by
  induction front with
  | nil => exact List.takeWhile_cons_of_neg (by simp [lost])
  | cons d rest ih => rw [List.cons_append, List.takeWhile_cons, List.takeWhile_cons, ih]

theorem dropWhile_append_cons {drop : Char → Bool} {c : Char} (kept : drop c = false)
    (front back : Text) :
    (front ++ c :: back).dropWhile drop = front.dropWhile drop ++ c :: back := by
  induction front with
  | nil => exact List.dropWhile_cons_of_neg (by simp [kept])
  | cons d rest ih =>
    rw [List.cons_append, List.dropWhile_cons, List.dropWhile_cons, ih]
    split <;> rfl

theorem dropWhile_takeWhile {drop keep : Char → Bool}
    (both : ∀ c, drop c = true → keep c = true) (text : Text) :
    (text.takeWhile keep).dropWhile drop = (text.dropWhile drop).takeWhile keep := by
  induction text with
  | nil => rfl
  | cons c rest ih =>
    by_cases dropped : drop c = true
    · rw [List.takeWhile_cons_of_pos (both c dropped), List.dropWhile_cons_of_pos dropped,
        List.dropWhile_cons_of_pos dropped, ih]
    · rw [List.dropWhile_cons_of_neg dropped]
      by_cases kept : keep c = true
      · rw [List.takeWhile_cons_of_pos kept, List.dropWhile_cons_of_neg dropped]
      · rw [List.takeWhile_cons_of_neg kept, List.dropWhile_nil]

/-- What is filtered out does not end what is taken. -/
theorem filter_takeWhile {keep take : Char → Bool}
    (either : ∀ c, keep c = false → take c = true) (text : Text) :
    (text.takeWhile take).filter keep = (text.filter keep).takeWhile take := by
  induction text with
  | nil => rfl
  | cons c rest ih =>
    by_cases taken : take c = true
    · rw [List.takeWhile_cons_of_pos taken, List.filter_cons, List.filter_cons, ih]
      split
      · rw [List.takeWhile_cons_of_pos taken]
      · rfl
    · have kept : keep c = true := by
        by_contra lost
        exact taken (either c (by simpa using lost))
      rw [List.takeWhile_cons_of_neg taken, List.filter_cons_of_pos kept,
        List.takeWhile_cons_of_neg taken, List.filter_nil]

theorem before_eq_self (absent : separator ∉ text) : before separator text = text := by
  apply List.takeWhile_eq_self_iff.mpr
  intro c member
  simpa using fun same : c = separator => absent (same ▸ member)

theorem not_mem_before : separator ∉ before separator text := by
  intro member
  simpa using List.mem_takeWhile_imp member

theorem before_append_of_not_mem (absent : separator ∉ head) (tail : Text) :
    before separator (head ++ tail) = head ++ before separator tail := by
  refine List.takeWhile_append_of_pos fun c member => ?_
  simpa using fun same : c = separator => absent (same ▸ member)

theorem before_cons_self : before separator (separator :: tail) = [] := by
  simp [before]

theorem before_before {first second : Char} :
    before first (before second text) = before second (before first text) := by
  simp only [before, List.takeWhile_takeWhile, and_comm]

/-! ### Fields -/

@[simp] theorem fields_nil : fields separator [] = [] := by
  simp [fields, List.splitOn_nil]

theorem fields_append_cons (left right : Text) :
    fields separator (left ++ separator :: right)
      = fields separator left ++ fields separator right := by
  simp only [fields, List.splitOn_append_cons_self, List.filter_append]

theorem fields_of_not_mem (absent : separator ∉ text) :
    fields separator text = if text = [] then [] else [text] := by
  rw [fields, List.splitOn_eq_singleton absent]
  by_cases empty : text = [] <;> simp [empty]

theorem fields_eq_singleton (absent : separator ∉ text) (filled : text ≠ []) :
    fields separator text = [text] := by
  rw [fields_of_not_mem absent, if_neg filled]

@[simp] theorem fields_cons_self (rest : Text) :
    fields separator (separator :: rest) = fields separator rest := by
  simpa using fields_append_cons [] rest

/-- Induction over the pieces of a text: it holds no separator, or it is one such text, a
separator and a text for which the claim holds already. -/
theorem splittingP_induction {motive : Text → Prop} (separates : Char → Bool)
    (whole : ∀ text, (∀ c ∈ text, separates c = false) → motive text)
    (part : ∀ head c tail, (∀ d ∈ head, separates d = false) → separates c = true →
      motive tail → motive (head ++ c :: tail))
    (text : Text) : motive text := by
  induction size : text.length using Nat.strongRecOn generalizing text with
  | _ length ih =>
    have free : ∀ c ∈ text.takeWhile (!separates ·), separates c = false :=
      fun c member => by simpa using List.mem_takeWhile_imp member
    have halves := List.takeWhile_append_dropWhile (p := (!separates ·)) (l := text)
    -- What precedes the first separator is one piece, and what follows it is shorter.
    cases after : text.dropWhile (!separates ·) with
    | nil =>
      rw [after, List.append_nil] at halves
      exact whole text (halves ▸ free)
    | cons c tail =>
      have met : separates c = true := by
        have first := List.head?_dropWhile_not (!separates ·) text
        rw [after] at first
        simpa using first
      rw [after] at halves
      have shorter : tail.length < length := by
        rw [← size, ← halves, List.length_append, List.length_cons]
        omega
      rw [← halves]
      exact part _ c tail free met (ih _ shorter tail rfl)

theorem splitting_induction {motive : Text → Prop} (separator : Char)
    (whole : ∀ text, separator ∉ text → motive text)
    (part : ∀ head tail, separator ∉ head → motive tail → motive (head ++ separator :: tail))
    (text : Text) : motive text := by
  have absent {head : Text} (free : ∀ c ∈ head, (c == separator) = false) : separator ∉ head :=
    fun member => by simpa using free separator member
  induction text using splittingP_induction (· == separator) with
  | whole text free => exact whole text (absent free)
  | part head c tail free met ih =>
    obtain rfl := eq_of_beq met
    exact part head tail (absent free) ih

theorem splitOnP_congr {left right : Char → Bool} (same : ∀ c ∈ text, left c = right c) :
    text.splitOnP left = text.splitOnP right := by
  induction text with
  | nil => rfl
  | cons c rest ih =>
    rw [List.splitOnP_cons_eq_if_modifyHead, List.splitOnP_cons_eq_if_modifyHead,
      same c List.mem_cons_self, ih fun d member => same d (.tail _ member)]

theorem mem_splitOn {piece : Text} (member : piece ∈ text.splitOn separator) :
    separator ∉ piece ∧ ∀ c ∈ piece, c ∈ text := by
  induction text using splitting_induction separator with
  | whole text absent =>
    rw [List.splitOn_eq_singleton absent] at member
    obtain rfl := List.mem_singleton.mp member
    exact ⟨absent, fun _ => id⟩
  | part head tail absent ih =>
    rw [List.splitOn_append_cons_self, List.splitOn_eq_singleton absent, List.mem_append] at member
    -- The piece is the first one, or one of those after the first separator.
    rcases member with early | late
    · obtain rfl := List.mem_singleton.mp early
      exact ⟨absent, fun c inside => List.mem_append_left _ inside⟩
    · obtain ⟨free, inside⟩ := ih late
      exact ⟨free, fun c within => List.mem_append_right _ (.tail _ (inside c within))⟩

theorem mem_fields {piece : Text} (member : piece ∈ fields separator text) :
    piece ≠ [] ∧ separator ∉ piece ∧ ∀ c ∈ piece, c ∈ text := by
  obtain ⟨among, filled⟩ := List.mem_filter.mp member
  exact ⟨by simpa using filled, mem_splitOn among⟩

theorem fields_ne_nil {c : Char} (member : c ∈ text) (different : c ≠ separator) :
    fields separator text ≠ [] := by
  induction text using splitting_induction separator with
  | whole text absent =>
    rw [fields_eq_singleton absent (List.ne_nil_of_mem member)]
    exact List.cons_ne_nil _ _
  | part head tail absent ih =>
    rw [fields_append_cons]
    rcases List.mem_append.mp member with early | late
    · rw [fields_eq_singleton absent (List.ne_nil_of_mem early)]
      exact List.cons_ne_nil _ _
    · exact List.append_ne_nil_of_right_ne_nil _
        (ih ((List.mem_cons.mp late).resolve_left different))

/-- A text before one that does not start with a separator belongs to its first piece. -/
theorem fields_append_of_head? (absent : separator ∉ head) (filled : head ≠ [])
    (inner : separator ∉ text.head?) :
    fields separator (head ++ text)
      = match fields separator text with
        | [] => [head]
        | first :: rest => (head ++ first) :: rest := by
  -- Only the first piece of the text can grow, and it is not empty by the last hypothesis.
  by_cases member : separator ∈ text
  · obtain ⟨first, rest, rfl, free⟩ := List.eq_append_cons_of_mem member
    have firstFilled : first ≠ [] := by
      rintro rfl
      exact inner rfl
    have free' : separator ∉ head ++ first := by simp [absent, free]
    rw [← List.append_assoc, fields_append_cons, fields_append_cons,
      fields_eq_singleton free' (by simp [filled]), fields_eq_singleton free firstFilled]
    rfl
  · have free' : separator ∉ head ++ text := by simp [absent, member]
    rw [fields_eq_singleton free' (by simp [filled]), fields_of_not_mem member]
    by_cases empty : text = []
    · simp [empty]
    · simp [empty]

/-! ### Joined pieces -/

@[simp] theorem joinWith_nil : joinWith separator [] = [] := rfl

@[simp] theorem joinWith_singleton (piece : Text) : joinWith separator [piece] = piece := by
  simp [joinWith]

@[simp] theorem joinWith_cons_cons (piece next : Text) (rest : List Text) :
    joinWith separator (piece :: next :: rest)
      = piece ++ separator :: joinWith separator (next :: rest) := by
  simp [joinWith, List.intercalate_cons_cons]

theorem fields_joinWith {pieces : List Text} (free : ∀ piece ∈ pieces, separator ∉ piece) :
    fields separator (joinWith separator pieces) = pieces.filter (· ≠ []) := by
  cases pieces with
  | nil => simp
  | cons first rest =>
    rw [fields, joinWith, List.splitOn_intercalate separator free (List.cons_ne_nil _ _)]

theorem fields_joinWith_of_filled {pieces : List Text}
    (filled : ∀ piece ∈ pieces, piece ≠ []) (free : ∀ piece ∈ pieces, separator ∉ piece) :
    fields separator (joinWith separator pieces) = pieces := by
  rw [fields_joinWith free, List.filter_eq_self]
  intro piece member
  simpa using filled piece member

theorem joinWith_append {front back : List Text} (filled : front ≠ []) (more : back ≠ []) :
    joinWith separator (front ++ back)
      = joinWith separator front ++ separator :: joinWith separator back := by
  induction front with
  | nil => exact absurd rfl filled
  | cons piece rest ih =>
    cases rest with
    | nil =>
      obtain ⟨next, others, rfl⟩ := List.exists_cons_of_ne_nil more
      simp
    | cons next others =>
      have inner := ih (List.cons_ne_nil _ _)
      simp only [List.cons_append] at inner ⊢
      rw [joinWith_cons_cons, joinWith_cons_cons, inner, List.append_assoc, List.cons_append]

theorem joinWith_fields_eq_iff :
    joinWith separator (fields separator text) = text ↔
      text = [] ∨ [] ∉ text.splitOn separator := by
  by_cases empty : text = []
  · simp [empty]
  · simp only [empty, false_or]
    constructor
    · intro same inside
      -- A text that is joined from its fields has fields, and none of them is empty.
      have filled : fields separator text ≠ [] := by
        intro fieldless
        rw [fieldless] at same
        exact empty same.symm
      have pieces : text.splitOn separator = fields separator text := by
        rw [← List.splitOn_intercalate separator
          (fun piece member => (mem_fields member).2.1) filled]
        exact congrArg _ same.symm
      rw [pieces] at inside
      exact (mem_fields inside).1 rfl
    · intro filled
      have whole : fields separator text = text.splitOn separator := by
        rw [fields, List.filter_eq_self]
        intro piece member
        simpa using fun blank : piece = [] => filled (blank ▸ member)
      rw [whole, joinWith, List.intercalate_splitOn]

/-! ### Pieces changed one by one -/

/-- The text with a function applied to each piece between separators. -/
def mapPieces (separator : Char) (change : Text → Text) (text : Text) : Text :=
  joinWith separator ((text.splitOn separator).map change)

variable {change : Text → Text}

theorem mapPieces_of_not_mem (absent : separator ∉ text) :
    mapPieces separator change text = change text := by
  rw [mapPieces, List.splitOn_eq_singleton absent, List.map_singleton, joinWith_singleton]

theorem mapPieces_append_cons (left right : Text) :
    mapPieces separator change (left ++ separator :: right)
      = mapPieces separator change left ++ separator :: mapPieces separator change right := by
  rw [mapPieces, List.splitOn_append_cons_self, List.map_append, joinWith_append]
  · rfl
  · simp
  · simp

/-- A text with a separator, cut at the first or at the last one. -/
theorem exists_first_cut (member : separator ∈ text) :
    ∃ head tail, text = head ++ separator :: tail ∧ separator ∉ head :=
  List.eq_append_cons_of_mem member

theorem exists_last_cut (member : separator ∈ text) :
    ∃ head tail, text = head ++ separator :: tail ∧ separator ∉ tail := by
  obtain ⟨tail, head, reversed, absent⟩ := List.eq_append_cons_of_mem (List.mem_reverse.mpr member)
  refine ⟨head.reverse, tail.reverse, ?_, by simpa using absent⟩
  rw [← text.reverse_reverse, reversed]
  simp

/-! ### Trimmed texts -/

/-- A text that loses nothing when its ends are trimmed. -/
def Trimmed (drop : Char → Bool) (text : Text) : Prop :=
  (∀ c ∈ text.head?, drop c = false) ∧ ∀ c ∈ text.getLast?, drop c = false

variable {drop : Char → Bool}

theorem dropWhile_eq_self_of_head? (kept : ∀ c ∈ text.head?, drop c = false) :
    text.dropWhile drop = text := by
  cases text with
  | nil => rfl
  | cons c rest => exact List.dropWhile_cons_of_neg (by simp [kept c rfl])

theorem head?_dropWhile {c : Char} (first : c ∈ (text.dropWhile drop).head?) : drop c = false := by
  have all := List.head?_dropWhile_not drop text
  rw [Option.mem_def.mp first] at all
  simpa using all

theorem not_mem_head?_of_trimmed (trimmed : Trimmed (· == separator) text) :
    separator ∉ text.head? := by
  intro first
  simpa using trimmed.1 separator first

theorem ne_cons_of_trimmed (trimmed : Trimmed (· == separator) text) (rest : Text) :
    text ≠ separator :: rest := by
  rintro rfl
  exact not_mem_head?_of_trimmed trimmed rfl

theorem trimEnds_eq_self (trimmed : Trimmed drop text) : trimEnds drop text = text := by
  have reversed : ∀ c ∈ text.reverse.head?, drop c = false := by
    simpa using trimmed.2
  rw [trimEnds, dropWhile_eq_self_of_head? trimmed.1, dropWhile_eq_self_of_head? reversed,
    List.reverse_reverse]

theorem trimmed_trimEnds (text : Text) : Trimmed drop (trimEnds drop text) := by
  constructor
  · intro c first
    -- The first character of the trimmed text is one of the text trimmed at the front.
    have inside : trimEnds drop text <+: text.dropWhile drop := by
      rw [trimEnds, ← List.reverse_suffix, List.reverse_reverse]
      exact List.dropWhile_suffix drop
    obtain ⟨rest, whole⟩ := inside
    have same : c ∈ (text.dropWhile drop).head? := by
      rw [← whole, List.head?_append, Option.mem_def.mp first]
      rfl
    exact head?_dropWhile same
  · intro c last
    rw [trimEnds, List.getLast?_reverse] at last
    exact head?_dropWhile last

theorem trimEnds_sublist (text : Text) : (trimEnds drop text).Sublist text := by
  have inner := (List.dropWhile_sublist (l := (text.dropWhile drop).reverse) drop).reverse
  rw [List.reverse_reverse] at inner
  exact inner.trans (List.dropWhile_sublist drop)

theorem trimEnds_eq_nil_iff : trimEnds drop text = [] ↔ ∀ c ∈ text, drop c = true := by
  rw [← List.dropWhile_eq_nil_iff, trimEnds, List.reverse_eq_nil_iff]
  constructor
  · intro empty
    have all := List.dropWhile_eq_nil_iff.mp empty
    -- What is left in front starts with a character that is kept, if it is not empty.
    cases front : text.dropWhile drop with
    | nil => rfl
    | cons c rest =>
      have first : (text.dropWhile drop).head? = some c := by rw [front, List.head?_cons]
      have kept : drop c = false := head?_dropWhile first
      have dropped := all c (by rw [front]; simp)
      rw [kept] at dropped
      cases dropped
  · intro empty
    rw [empty]
    rfl

theorem fields_dropWhile (text : Text) :
    fields separator (text.dropWhile (· == separator)) = fields separator text := by
  induction text with
  | nil => rfl
  | cons c rest ih =>
    by_cases same : c = separator
    · rw [same, List.dropWhile_cons_of_pos (by simp), ih, fields_cons_self]
    · rw [List.dropWhile_cons_of_neg (by simpa using same)]

theorem fields_reverse_dropWhile (text : Text) :
    fields separator (text.dropWhile (· == separator)).reverse = fields separator text.reverse := by
  induction text with
  | nil => rfl
  | cons c rest ih =>
    by_cases same : c = separator
    · rw [same, List.dropWhile_cons_of_pos (by simp), ih, List.reverse_cons, fields_append_cons,
        fields_nil, List.append_nil]
    · rw [List.dropWhile_cons_of_neg (by simpa using same)]

theorem fields_trimEnds (text : Text) :
    fields separator (trimEnds (· == separator) text) = fields separator text := by
  rw [trimEnds, fields_reverse_dropWhile, List.reverse_reverse, fields_dropWhile]

theorem rdropWhile_append_cons {c : Char} (kept : drop c = false)
    (front back : Text) :
    (front ++ c :: back).rdropWhile drop = front ++ c :: back.rdropWhile drop := by
  -- The induction takes characters from the end, where they are dropped.
  induction back using List.reverseRecOn with
  | nil =>
    rw [List.rdropWhile_concat_neg _ _ _ (by simp [kept])]
    rfl
  | append_singleton back d ih =>
    cases dropped : drop d with
    | true =>
      rw [List.rdropWhile_concat_pos _ _ _ dropped, ← ih, ← List.cons_append, ← List.append_assoc,
        List.rdropWhile_concat_pos _ _ _ dropped]
    | false =>
      rw [List.rdropWhile_concat_neg _ _ _ (by simp [dropped]), ← List.cons_append,
        ← List.append_assoc, List.rdropWhile_concat_neg _ _ _ (by simp [dropped])]

theorem rdropWhile_eq_self (kept : ∀ c ∈ text, drop c = false) :
    text.rdropWhile drop = text := by
  rw [List.rdropWhile_eq_self_iff]
  intro filled
  simp [kept _ (List.getLast_mem filled)]

theorem rdropWhile_eq_iff_getLast? :
    text.rdropWhile drop = text ↔ ∀ c ∈ text.getLast?, drop c = false := by
  rw [List.rdropWhile_eq_self_iff]
  constructor
  · intro kept c last
    have filled : text ≠ [] := fun empty => by simp [empty] at last
    rw [List.getLast?_eq_some_getLast filled] at last
    obtain rfl := Option.some.inj last
    simpa using kept filled
  · intro kept filled
    simp [kept _ (List.getLast?_eq_some_getLast filled)]

/-- Changes that neither empty a piece nor put a separator into it. -/
structure KeepsPieces (separator : Char) (change : Text → Text) : Prop where
  absent : ∀ piece, separator ∉ piece → separator ∉ change piece
  filled : ∀ piece, change piece = [] → piece = []

theorem splitOn_mapPieces (keeps : KeepsPieces separator change) (text : Text) :
    (mapPieces separator change text).splitOn separator = (text.splitOn separator).map change := by
  have free : ∀ piece ∈ (text.splitOn separator).map change, separator ∉ piece := by
    intro piece member
    obtain ⟨source, among, rfl⟩ := List.mem_map.mp member
    exact keeps.absent source (mem_splitOn among).1
  rw [mapPieces, joinWith, List.splitOn_intercalate separator free]
  simp

/-- The fields of a changed text are the changed fields. -/
theorem fields_mapPieces (keeps : KeepsPieces separator change) (still : change [] = [])
    (text : Text) :
    (mapPieces separator change text).fields separator = (text.fields separator).map change := by
  -- No piece is emptied, so the same ones are dropped before and after.
  have same : (fun piece => decide (piece ≠ [])) ∘ change = fun piece => decide (piece ≠ []) := by
    funext piece
    have empty : change piece = [] ↔ piece = [] :=
      ⟨keeps.filled piece, fun empty => by rw [empty, still]⟩
    simp [empty]
  rw [fields, splitOn_mapPieces keeps, List.filter_map, same, ← fields]

theorem trimmed_mapPieces (keeps : KeepsPieces separator change)
    (trimmed : Trimmed (· == separator) text) :
    Trimmed (· == separator) (mapPieces separator change text) := by
  have ends {piece : Text} (absent : separator ∉ piece) {c : Char} (member : c ∈ change piece) :
      (c == separator) = false := by
    have different := keeps.absent piece absent
    simpa using fun same : c = separator => different (same ▸ member)
  -- Without a separator the whole text is one piece, and its change has none either.
  by_cases member : separator ∈ text
  · constructor
    · -- The first piece is not empty, so its change holds the first character.
      obtain ⟨head, tail, rfl, absent⟩ := exists_first_cut member
      have filled : change head ≠ [] := by
        intro empty
        rw [keeps.filled head empty] at trimmed
        exact not_mem_head?_of_trimmed trimmed rfl
      intro c first
      rw [mapPieces_append_cons, mapPieces_of_not_mem absent,
        List.head?_append_of_ne_nil _ filled] at first
      exact ends absent (List.mem_of_mem_head? first)
    · obtain ⟨head, tail, rfl, absent⟩ := exists_last_cut member
      have filled : change tail ≠ [] := by
        intro empty
        rw [keeps.filled tail empty] at trimmed
        simpa using trimmed.2 separator (by simp)
      intro c last
      rw [mapPieces_append_cons, mapPieces_of_not_mem absent, ← List.singleton_append,
        ← List.append_assoc, List.getLast?_append_of_ne_nil _ filled] at last
      exact ends absent (List.mem_of_getLast? last)
  · rw [mapPieces_of_not_mem member]
    exact ⟨fun c first => ends member (List.mem_of_mem_head? first),
      fun c last => ends member (List.mem_of_getLast? last)⟩

theorem mapPieces_eq_self (same : ∀ piece ∈ text.splitOn separator, change piece = piece) :
    mapPieces separator change text = text := by
  have unchanged : (text.splitOn separator).map change = text.splitOn separator := by
    simpa using List.map_congr_left same
  rw [mapPieces, unchanged, joinWith, List.intercalate_splitOn]

/-! ### Authority marks -/

theorem hasAuthorityMark_iff :
    hasAuthorityMark text = true ↔ ∃ head tail, text = head ++ ':' :: '/' :: '/' :: tail := by
  constructor
  · intro marked
    fun_induction hasAuthorityMark text with
    | case1 => simp at marked
    | case2 rest => exact ⟨[], rest, rfl⟩
    | case3 c rest _ ih =>
      obtain ⟨head, tail, rfl⟩ := ih marked
      exact ⟨c :: head, tail, rfl⟩
  · rintro ⟨head, tail, rfl⟩
    induction head with
    | nil => rfl
    | cons c rest ih =>
      simp only [List.cons_append]
      unfold hasAuthorityMark
      split <;> simp_all

/-- A text without an authority mark has none at its start. -/
theorem hasAuthorityMark_of_isPrefix (start : head <+: text)
    (unmarked : hasAuthorityMark text = false) : hasAuthorityMark head = false := by
  obtain ⟨rest, rfl⟩ := start
  refine Bool.eq_false_iff.mpr fun marked => ?_
  obtain ⟨front, back, rfl⟩ := hasAuthorityMark_iff.mp marked
  have whole : hasAuthorityMark (front ++ ':' :: '/' :: '/' :: back ++ rest) = true :=
    hasAuthorityMark_iff.mpr ⟨front, back ++ rest, by simp⟩
  rw [unmarked] at whole
  cases whole

theorem hasAuthorityMark_cons_of_ne {c : Char} (different : c ≠ ':') (rest : Text) :
    hasAuthorityMark (c :: rest) = hasAuthorityMark rest := by
  rw [hasAuthorityMark]
  rintro _ same
  exact (different same).elim

theorem hasAuthorityMark_append (absent : ':' ∉ head) (text : Text) :
    hasAuthorityMark (head ++ text) = hasAuthorityMark text := by
  induction head with
  | nil => rfl
  | cons c rest ih =>
    have different : c ≠ ':' := fun same => absent (same ▸ List.mem_cons_self)
    rw [List.cons_append, hasAuthorityMark_cons_of_ne different,
      ih fun member => absent (.tail _ member)]

theorem hasAuthorityMark_colon (inner : '/' ∉ text.head?) :
    hasAuthorityMark (':' :: text) = hasAuthorityMark text := by
  rw [hasAuthorityMark]
  rintro _ _ same
  exact inner (by rw [same]; rfl)

/-- An authority mark holds two slashes in a row, hence an empty piece between them. -/
theorem nil_mem_splitOn_of_mark (marked : hasAuthorityMark text = true) :
    [] ∈ text.splitOn '/' := by
  obtain ⟨head, tail, rfl⟩ := hasAuthorityMark_iff.mp marked
  have apart :
      head ++ ':' :: '/' :: '/' :: tail = (head ++ [':']) ++ '/' :: ([] ++ '/' :: tail) := by simp
  rw [apart, List.splitOn_append_cons_self, List.splitOn_append_cons_self, List.splitOn_nil]
  simp

theorem hasAuthorityMark_joinWith {pieces : List Text} (filled : ∀ piece ∈ pieces, piece ≠ [])
    (free : ∀ piece ∈ pieces, '/' ∉ piece) : hasAuthorityMark (joinWith '/' pieces) = false := by
  refine Bool.eq_false_iff.mpr fun marked => ?_
  have inside := nil_mem_splitOn_of_mark marked
  -- A mark has an empty piece between its slashes.
  cases pieces with
  | nil => simp [hasAuthorityMark] at marked
  | cons first rest =>
    rw [joinWith, List.splitOn_intercalate '/' free (List.cons_ne_nil _ _)] at inside
    exact filled [] inside rfl

end DeepLink.Text

namespace DeepLink.RouteText

open Text

/-- What a part of the path of a route text can be. -/
def IsPart (part : Text) : Prop := part ≠ [] ∧ '/' ∉ part ∧ '?' ∉ part

instance : DecidablePred IsPart := fun _ => inferInstanceAs (Decidable (_ ∧ _))

theorem split_append {path : Text} (free : '?' ∉ path) (query : Text) :
    split (path ++ '?' :: query) = (path, query) := by
  simp [split, cut?_append free _]

theorem split_eq_self {path : Text} (free : '?' ∉ path) : split path = (path, []) := by
  simp [split, cut?_eq_none_iff.mpr free]

theorem split_join {path : Text} (free : '?' ∉ path) (query : Text) :
    split (join path query) = (path, query) := by
  unfold join
  split
  next empty => rw [split_eq_self free, empty]
  next => exact split_append free query

theorem of_mem_join {c : Char} {path query : Text} (member : c ∈ join path query) :
    c ∈ path ∨ c = '?' ∨ c ∈ query := by
  unfold join at member
  split at member
  · exact .inl member
  · simpa using member

theorem join_append_cons (front : Text) (c : Char) (path query : Text) :
    join (front ++ c :: path) query = front ++ c :: join path query := by
  unfold join
  split
  · rfl
  · rw [List.append_assoc, List.cons_append]

/-- The path ends before the first question mark. -/
theorem fst_split (raw : Text) : (split raw).1 = raw.before '?' := by
  cases found : raw.cut? '?' with
  | none =>
    rw [split, found]
    exact (before_eq_self (cut?_eq_none_iff.mp found)).symm
  | some halves =>
    obtain ⟨rfl, absent⟩ := eq_append_of_cut? found
    rw [split, found, before_append_of_not_mem absent, before_cons_self, List.append_nil]
    rfl

theorem not_mem_split (raw : Text) : '?' ∉ (split raw).1 := by
  cases found : raw.cut? '?' with
  | none => simpa [split, found] using cut?_eq_none_iff.mp found
  | some halves => simpa [split, found] using (eq_append_of_cut? found).2

theorem mem_of_mem_split {c : Char} {raw : Text} (member : c ∈ (split raw).1) : c ∈ raw := by
  cases found : raw.cut? '?' with
  | none => simpa [split, found] using member
  | some halves =>
    have inside : c ∈ halves.1 := by simpa [split, found] using member
    rw [(eq_append_of_cut? found).1]
    exact List.mem_append_left _ inside

theorem isPart_of_mem {part path : Text} (free : '?' ∉ path) (member : part ∈ parts path) :
    IsPart part := by
  obtain ⟨filled, noSlash, inside⟩ := mem_fields member
  exact ⟨filled, noSlash, fun question => free (inside _ question)⟩

theorem parts_joinWith {pieces : List Text} (valid : ∀ piece ∈ pieces, IsPart piece) :
    parts (joinWith '/' pieces) = pieces :=
  fields_joinWith_of_filled (fun piece member => (valid piece member).1)
    fun piece member => (valid piece member).2.1

theorem not_mem_joinWith {pieces : List Text} (valid : ∀ piece ∈ pieces, IsPart piece) :
    '?' ∉ joinWith '/' pieces := by
  intro member
  rcases mem_joinWith member with same | ⟨piece, among, inside⟩
  · exact absurd same (by decide)
  · exact (valid piece among).2.2 inside

theorem unmarked_joinWith {pieces : List Text} (valid : ∀ piece ∈ pieces, IsPart piece) :
    Text.hasAuthorityMark (joinWith '/' pieces) = false :=
  Text.hasAuthorityMark_joinWith (fun piece member => (valid piece member).1)
    fun piece member => (valid piece member).2.1

end DeepLink.RouteText
