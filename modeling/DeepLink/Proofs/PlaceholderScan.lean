import DeepLink.Proofs.DeclaredNames
import DeepLink.Proofs.PercentCodec
import Mathlib

/-!
# The scan for placeholders

A text is taken apart from the left at its names in braces: each opening is the first one that is
left, each name ends at the first closing brace, and no opening is closed in what remains. Every
text has exactly one such dissection (`existsUnique_leftmost`), and the scan gives the names of it
that are not empty (`bracedNames_text`).

The same scan is also given in rounds over byte offsets: a round searches for an opening and for a
closing brace behind it, and slices the text there, which fails outside of the text. The rounds
stay within the text and are at most one more than a third of its length
(`placeholders_eq_flatten`).
-/
namespace DeepLink

/-! ### Byte offsets -/

namespace Text

variable {text front back tail pattern before : Text} {offset : Nat} {c : Char}

theorem utf8_append (front back : Text) : utf8 (front ++ back) = utf8 front ++ utf8 back :=
  List.flatMap_append

theorem utf8_injective : Function.Injective utf8 := fun _ _ same =>
  Option.some.inj ((ofUtf8?_eq_some_iff.mpr rfl).symm.trans (ofUtf8?_eq_some_iff.mpr same))

/-- The texts before and after a byte offset. There are none if the offset lies behind the end of
the text, or inside a character. -/
def halvesAt? (offset : Nat) (text : Text) : Option (Text × Text) :=
  if offset ≤ text.utf8.length then do
    return (← ofUtf8? (text.utf8.take offset), ← ofUtf8? (text.utf8.drop offset))
  else none

theorem halvesAt?_eq_some_iff :
    halvesAt? offset text = some (front, back) ↔
      text = front ++ back ∧ front.utf8.length = offset := by
  unfold halvesAt?
  constructor
  · intro found
    split at found
    next inside =>
      simp only [Option.bind_eq_bind, Option.bind_eq_some_iff, ofUtf8?_eq_some_iff, Option.pure_def,
        Option.some.injEq, Prod.mk.injEq] at found
      obtain ⟨_, first, _, second, rfl, rfl⟩ := found
      refine ⟨utf8_injective ?_, ?_⟩
      · rw [utf8_append, ← first, ← second, List.take_append_drop]
      · rw [← first, List.length_take, Nat.min_eq_left inside]
    · cases found
  · rintro ⟨rfl, rfl⟩
    rw [utf8_append, if_pos (by simp), List.take_left, List.drop_left,
      ofUtf8?_eq_some_iff.mpr rfl, ofUtf8?_eq_some_iff.mpr rfl]
    rfl

/-- A text is sliced behind a part of it. -/
theorem halvesAt?_append (front back : Text) :
    halvesAt? front.utf8.length (front ++ back) = some (front, back) :=
  halvesAt?_eq_some_iff.mpr ⟨rfl, rfl⟩

/-- The byte offset at which a pattern occurs first. -/
def offsetOf? (text pattern : Text) : Option Nat :=
  (text.dropInfix? pattern).map fun (before, _) => (utf8 before).length

/-- A pattern is found at a place where it occurs. -/
theorem eq_append_of_dropInfix? {after : Text}
    (found : text.dropInfix? pattern = some (before, after)) :
    text = before ++ pattern ++ after := by
  obtain ⟨⟨other, rfl, equal⟩, -⟩ := List.dropInfix?_eq_some_iff.mp found
  rw [eq_of_beq equal]

theorem offsetOf?_eq_none (absent : ¬ pattern <:+: text) : text.offsetOf? pattern = none := by
  rw [offsetOf?, Option.map_eq_none_iff, Option.eq_none_iff_forall_not_mem]
  rintro ⟨before, after⟩ found
  exact absent ⟨before, after, (eq_append_of_dropInfix? found).symm⟩

/-- A pattern that does not overlap itself is found behind a text in which it does not occur. -/
theorem dropInfix?_append (single : c ∉ tail) (absent : ¬ c :: tail <:+: before) (after : Text) :
    (before ++ (c :: tail) ++ after).dropInfix? (c :: tail) = some (before, after) := by
  refine List.dropInfix?_eq_some_iff.mpr
    ⟨⟨_, rfl, beq_self_eq_true _⟩, fun front other back same equal => ?_⟩
  obtain rfl := eq_of_beq equal
  rw [List.append_assoc, List.append_assoc] at same
  obtain ⟨rest, rfl, -⟩ | ⟨rest, rfl, inner⟩ := List.append_eq_append_iff.mp same
  · simp
  -- An earlier occurrence ends in front of this one, or its end overlaps the start of this one.
  · obtain ⟨more, rfl, -⟩ | ⟨more, here, later⟩ := List.append_eq_append_iff.mp inner
    · exact absurd ⟨front, more, by simp⟩ absent
    · cases rest with
      | nil => simp
      | cons d rest =>
        obtain ⟨rfl, rfl⟩ := List.cons.inj here
        cases more with
        | nil => exact absurd ⟨front, [], by simp⟩ absent
        | cons e more =>
          obtain rfl := (List.cons.inj later).1
          simp at single

end Text

namespace Pattern

variable {source before name : Text}

/-! ### Dissections -/

/-- What opens a name in braces. -/
def opening : Text := ['$', '{']

/-- No opening in a text has a closing brace behind it. -/
def Unclosed (text : Text) : Prop := ∀ front back, text = front ++ opening ++ back → '}' ∉ back

/-- A text taken apart at names in braces: the text before each, its name, and what remains. -/
structure Dissection where
  places : List (Text × Text)
  remainder : Text

namespace Dissection

/-- The text that is taken apart. -/
def text (d : Dissection) : Text :=
  d.places.flatMap (fun (before, name) => before ++ braced name) ++ d.remainder

/-- The names that are not empty. -/
def names (d : Dissection) : List Text := (d.places.map Prod.snd).filter (· ≠ [])

/-- Each opening is the first one, each name ends at the first closing brace, and none is left. -/
structure Leftmost (d : Dissection) : Prop where
  no_opening : ∀ place ∈ d.places, ¬ opening <:+: place.1
  no_closing : ∀ place ∈ d.places, '}' ∉ place.2
  complete : Unclosed d.remainder

variable {d e : Dissection} {place : Text × Text} {places : List (Text × Text)} {remainder : Text}

theorem text_cons :
    text ⟨place :: places, remainder⟩
      = place.1 ++ opening ++ (place.2 ++ '}' :: text ⟨places, remainder⟩) := by
  simp [text, braced, opening]

theorem names_cons :
    names ⟨place :: places, remainder⟩
      = if place.2 = [] then names ⟨places, remainder⟩
        else place.2 :: names ⟨places, remainder⟩ := by
  rw [names, List.map_cons, List.filter_cons]
  by_cases empty : place.2 = [] <;> simp [empty, names]

theorem leftmost_cons_iff :
    Leftmost ⟨place :: places, remainder⟩ ↔
      ¬ opening <:+: place.1 ∧ '}' ∉ place.2 ∧ Leftmost ⟨places, remainder⟩ := by
  constructor
  · rintro ⟨noOpening, noClosing, complete⟩
    rw [List.forall_mem_cons] at noOpening noClosing
    exact ⟨noOpening.1, noClosing.1, noOpening.2, noClosing.2, complete⟩
  · rintro ⟨first, firstName, noOpening, noClosing, complete⟩
    exact ⟨List.forall_mem_cons.mpr ⟨first, noOpening⟩,
      List.forall_mem_cons.mpr ⟨firstName, noClosing⟩, complete⟩

/-- A text in which no opening is closed remains as it is. -/
theorem leftmost_nil (unclosed : Unclosed remainder) : Leftmost ⟨[], remainder⟩ :=
  ⟨fun _ member => absurd member List.not_mem_nil, fun _ member => absurd member List.not_mem_nil,
    unclosed⟩

end Dissection

open Dissection

variable {d e : Dissection}

theorem unclosed_of_not_mem (absent : '}' ∉ source) : Unclosed source := by
  rintro front back rfl closing
  exact absent (List.mem_append_right _ closing)

/-! ### Every text has one dissection -/

/-- A character that starts no opening belongs to the text before the first name. -/
theorem exists_leftmost_cons {c : Char} (other : ¬ opening <+: c :: d.text)
    (leftmost : d.Leftmost) : ∃ e : Dissection, e.text = c :: d.text ∧ e.Leftmost := by
  obtain ⟨places, remainder⟩ := d
  cases places with
  | nil =>
    refine ⟨⟨[], c :: remainder⟩, rfl, leftmost_nil fun front back same => ?_⟩
    cases front with
    | nil => exact absurd ⟨back, same.symm⟩ other
    | cons _ front => exact leftmost.complete front back (List.cons.inj same).2
  | cons place places =>
    obtain ⟨noOpening, later⟩ := leftmost_cons_iff.mp leftmost
    have longer : ¬ opening <:+: c :: place.1 := by
      rw [List.infix_cons_iff, not_or]
      refine ⟨fun start => other (start.trans ?_), noOpening⟩
      rw [text_cons, List.append_assoc]
      exact List.prefix_append (c :: place.1) _
    refine ⟨⟨(c :: place.1, place.2) :: places, remainder⟩, ?_,
      leftmost_cons_iff.mpr ⟨longer, later⟩⟩
    simp only [text_cons, List.cons_append]

/-- An opening at the start and the first closing brace behind it are the first place. -/
theorem exists_leftmost_place {rest name after : Text} (found : rest.cut? '}' = some (name, after))
    (later : ∃ d : Dissection, d.text = after ∧ d.Leftmost) :
    ∃ d : Dissection, d.text = opening ++ rest ∧ d.Leftmost := by
  obtain ⟨⟨places, remainder⟩, rfl, leftmost⟩ := later
  obtain ⟨rfl, noClosing⟩ := Text.eq_append_of_cut? found
  have noOpening : ¬ opening <:+: [] := by decide
  exact ⟨⟨([], name) :: places, remainder⟩, text_cons,
    leftmost_cons_iff.mpr ⟨noOpening, noClosing, leftmost⟩⟩

theorem exists_leftmost (source : Text) : ∃ d : Dissection, d.text = source ∧ d.Leftmost := by
  fun_induction bracedNames source with
  | case1 => exact ⟨⟨[], []⟩, rfl, leftmost_nil (unclosed_of_not_mem List.not_mem_nil)⟩
  | case2 rest open' =>
    refine ⟨⟨[], _⟩, rfl, leftmost_nil (unclosed_of_not_mem ?_)⟩
    simpa using Text.cut?_eq_none_iff.mp open'
  | case3 rest after found _ ih => exact exists_leftmost_place found ih
  | case4 rest name after found _ _ ih => exact exists_leftmost_place found ih
  | case5 c rest other ih =>
    obtain ⟨d, rfl, leftmost⟩ := ih
    refine exists_leftmost_cons ?_ leftmost
    rintro ⟨back, same⟩
    exact other back (List.cons.inj same).1.symm (List.cons.inj same).2.symm

/-- Where a text is opened first and closed first behind that, it falls apart in one way only. -/
theorem place_unique {place other : Text × Text} {after rest : Text}
    (noOpening : ¬ opening <:+: place.1) (noClosing : '}' ∉ place.2)
    (otherOpening : ¬ opening <:+: other.1) (otherClosing : '}' ∉ other.2)
    (same : place.1 ++ opening ++ (place.2 ++ '}' :: after)
      = other.1 ++ opening ++ (other.2 ++ '}' :: rest)) : place = other ∧ after = rest := by
  have found := Text.dropInfix?_append (by decide) noOpening (place.2 ++ '}' :: after)
  have again := Text.dropInfix?_append (by decide) otherOpening (other.2 ++ '}' :: rest)
  have opened := (congrArg (List.dropInfix? · opening) same).trans again
  obtain ⟨before, inner⟩ := Prod.mk.inj (Option.some.inj (found.symm.trans opened))
  have closed := Text.cut?_append noClosing after
  rw [inner, Text.cut?_append otherClosing] at closed
  obtain ⟨name, after⟩ := Prod.mk.inj (Option.some.inj closed)
  exact ⟨Prod.ext before name.symm, after.symm⟩

theorem Dissection.Leftmost.eq (left : d.Leftmost) (right : e.Leftmost) (same : d.text = e.text) :
    d = e := by
  obtain ⟨places, remainder⟩ := d
  obtain ⟨others, rest⟩ := e
  induction places generalizing others with
  | nil =>
    cases others with
    | nil => simpa [text] using same
    | cons other others => exact absurd (by simp) (left.complete other.1 _ (same.trans text_cons))
  | cons place places ih =>
    cases others with
    | nil => exact absurd (by simp) (right.complete place.1 _ (same.symm.trans text_cons))
    | cons other others =>
      rw [text_cons, text_cons] at same
      obtain ⟨noOpening, noClosing, later⟩ := leftmost_cons_iff.mp left
      obtain ⟨otherOpening, otherClosing, otherLater⟩ := leftmost_cons_iff.mp right
      obtain ⟨rfl, inner⟩ := place_unique noOpening noClosing otherOpening otherClosing same
      obtain ⟨rfl, rfl⟩ := Dissection.mk.inj (ih later others otherLater inner)
      rfl

/-- Every text is taken apart in exactly one way. -/
theorem existsUnique_leftmost (source : Text) :
    ∃! d : Dissection, d.text = source ∧ d.Leftmost := by
  obtain ⟨d, same, leftmost⟩ := exists_leftmost source
  refine ⟨d, ⟨same, leftmost⟩, ?_⟩
  rintro other ⟨otherSame, otherLeftmost⟩
  exact otherLeftmost.eq leftmost (otherSame.trans same.symm)

/-! ### Names of a dissection -/

theorem not_unclosed_of_cut? {rest name after : Text} (found : rest.cut? '}' = some (name, after)) :
    ¬ Unclosed (opening ++ rest) := by
  obtain ⟨rfl, -⟩ := Text.eq_append_of_cut? found
  exact fun unclosed => unclosed [] _ rfl (by simp)

theorem bracedNames_of_unclosed (unclosed : Unclosed source) : bracedNames source = [] := by
  fun_induction bracedNames source with
  | case1 => rfl
  | case2 rest open' => rfl
  | case3 rest after found _ _ => exact absurd unclosed (not_unclosed_of_cut? found)
  | case4 rest name after found _ _ _ => exact absurd unclosed (not_unclosed_of_cut? found)
  | case5 c rest _ ih =>
    exact ih fun front back same => unclosed (c :: front) back (congrArg (c :: ·) same)

/-- What stands before the first opening holds no names. -/
theorem bracedNames_append (noOpening : ¬ opening <:+: before) (rest : Text) :
    bracedNames (before ++ opening ++ rest) = bracedNames (opening ++ rest) := by
  induction before with
  | nil => rfl
  | cons c before ih =>
    rw [List.infix_cons_iff, not_or] at noOpening
    rw [List.cons_append, List.cons_append, bracedNames, ih noOpening.2]
    -- A dollar sign at the end is followed by that of the opening, and not by a brace.
    rintro tail rfl same
    cases before with
    | nil => cases same
    | cons d before =>
      obtain rfl := (List.cons.inj same).1
      exact noOpening.1 ⟨before, rfl⟩

/-- The scan gives the names of the dissection. -/
theorem bracedNames_text (leftmost : d.Leftmost) : bracedNames d.text = d.names := by
  obtain ⟨places, remainder⟩ := d
  induction places with
  | nil => exact bracedNames_of_unclosed leftmost.complete
  | cons place places ih =>
    obtain ⟨noOpening, noClosing, later⟩ := leftmost_cons_iff.mp leftmost
    rw [text_cons, names_cons, bracedNames_append noOpening, ← ih later]
    exact bracedNames_opening noClosing _

/-! ### Rounds of the scan -/

/-- What a round of the scan comes to. -/
inductive Round where
  /-- No name in braces is left. -/
  | last
  | named (name rest : Text)

/-- One round: the text is sliced behind the first opening, and before and behind the first closing
brace after it. There is no result if a slice lies outside of the text. -/
def round? (text : Text) : Option Round :=
  match text.offsetOf? opening with
  | none => some .last
  | some start => do
    let (_, inner) ← text.halvesAt? (start + 2)
    match inner.offsetOf? ['}'] with
    | none => return .last
    | some stop =>
      let (name, _) ← inner.halvesAt? stop
      let (_, rest) ← inner.halvesAt? (stop + 1)
      return .named name rest

/-- The names that are found, if the scan ends within so many rounds and stays within the text. -/
def scanWithin? : Nat → Text → Option (List Text)
  | 0, _ => none
  | rounds + 1, text => do
    match ← round? text with
    | .last => return []
    | .named name rest =>
      let later ← scanWithin? rounds rest
      return if name = [] then later else name :: later

/-- An opening takes two bytes, and a closing brace takes one. -/
theorem halvesAt?_opening (before rest : Text) :
    Text.halvesAt? (before.utf8.length + 2) (before ++ opening ++ rest)
      = some (before ++ opening, rest) :=
  Text.halvesAt?_eq_some_iff.mpr ⟨rfl, by rw [Text.utf8_append, List.length_append]; rfl⟩

theorem halvesAt?_closing (name rest : Text) :
    Text.halvesAt? (name.utf8.length + 1) (name ++ '}' :: rest) = some (name ++ ['}'], rest) :=
  Text.halvesAt?_eq_some_iff.mpr
    ⟨List.append_cons .., by rw [Text.utf8_append, List.length_append]; rfl⟩

theorem round?_of_unclosed (unclosed : Unclosed source) : round? source = some .last := by
  rw [round?]
  cases found : source.offsetOf? opening with
  | none => rfl
  | some start =>
    obtain ⟨⟨before, rest⟩, dropped, rfl⟩ := Option.map_eq_some_iff.mp found
    obtain rfl := Text.eq_append_of_dropInfix? dropped
    have absent := (List.singleton_infix_iff '}' rest).not.mpr (unclosed before rest rfl)
    simp only [halvesAt?_opening, Text.offsetOf?_eq_none absent, Option.bind_eq_bind,
      Option.bind_some, Option.pure_def]

theorem round?_place (noOpening : ¬ opening <:+: before) (noClosing : '}' ∉ name) (rest : Text) :
    round? (before ++ opening ++ (name ++ '}' :: rest)) = some (.named name rest) := by
  have start : Text.offsetOf? (before ++ opening ++ (name ++ '}' :: rest)) opening
      = some before.utf8.length :=
    congrArg (Option.map _) (Text.dropInfix?_append (by decide) noOpening _)
  have stop : Text.offsetOf? (name ++ '}' :: rest) ['}'] = some name.utf8.length := by
    have absent := (List.singleton_infix_iff '}' name).not.mpr noClosing
    have found := Text.dropInfix?_append List.not_mem_nil absent rest
    rw [List.append_assoc] at found
    exact congrArg (Option.map _) found
  rw [round?]
  simp only [start, halvesAt?_opening, stop, Text.halvesAt?_append, halvesAt?_closing,
    Option.bind_eq_bind, Option.bind_some, Option.pure_def]

/-- The scan takes one round for each place of the dissection, and a last one. -/
theorem scanWithin?_text (leftmost : d.Leftmost) {rounds : Nat}
    (enough : d.places.length < rounds) : scanWithin? rounds d.text = some d.names := by
  obtain ⟨places, remainder⟩ := d
  induction places generalizing rounds with
  | nil =>
    obtain ⟨rounds, rfl⟩ := Nat.exists_eq_add_of_lt enough
    rw [scanWithin?, text, List.flatMap_nil, List.nil_append, round?_of_unclosed leftmost.complete]
    rfl
  | cons place places ih =>
    obtain ⟨noOpening, noClosing, later⟩ := leftmost_cons_iff.mp leftmost
    cases rounds with
    | zero => cases enough
    | succ rounds =>
      rw [scanWithin?, text_cons, round?_place noOpening noClosing, names_cons]
      simp only [ih later (Nat.lt_of_succ_lt_succ enough), Option.bind_eq_bind, Option.bind_some,
        Option.pure_def]

/-- A name in braces takes three characters at least. -/
theorem three_mul_length_places_le : 3 * d.places.length ≤ d.text.length := by
  obtain ⟨places, remainder⟩ := d
  induction places with
  | nil => exact Nat.zero_le _
  | cons place places ih =>
    simp only [text_cons, opening, List.length_append, List.length_cons, List.length_nil] at ih ⊢
    omega

/-! ### Segments of a path -/

/-- The names that a segment declares: the one behind a colon, or else those in braces. -/
inductive Declares : Text → List Text → Prop where
  | colon {name : Text} (filled : name ≠ []) : Declares (':' :: name) [name]
  | braces {d : Dissection} (plain : ∀ name, d.text = ':' :: name → name = [])
    (leftmost : d.Leftmost) : Declares d.text d.names

/-- The names of a segment, scanned in rounds unless it starts with a colon. -/
def scanSegment? (rounds : Nat) : Text → Option (List Text)
  | ':' :: c :: rest => some [c :: rest]
  | segment => scanWithin? rounds segment

theorem declares_segmentNames (segment : Text) :
    Declares segment (segmentNames segment) ∧ ∀ rounds, segment.length / 3 < rounds →
      scanSegment? rounds segment = some (segmentNames segment) := by
  fun_cases segmentNames segment with
  | case1 c rest => exact ⟨.colon (List.cons_ne_nil _ _), fun _ _ => rfl⟩
  | case2 segment other =>
    obtain ⟨d, rfl, leftmost⟩ := exists_leftmost segment
    have plain : ∀ name, d.text = ':' :: name → name = [] := by
      intro name same
      cases name with
      | nil => rfl
      | cons c rest => exact (other c rest same).elim
    rw [bracedNames_text leftmost]
    refine ⟨.braces plain leftmost, fun rounds enough => ?_⟩
    rw [scanSegment?]
    · have bound := three_mul_length_places_le (d := d)
      exact scanWithin?_text leftmost (by omega)
    · exact other

/-- A path declares the names of its segments, in order. Each is scanned within its text, in one
round more than a third of its length at most, and there is one way to take it apart. -/
theorem placeholders_eq_flatten (path : Text) :
    (∀ segment : Text, ∃! d : Dissection, d.text = segment ∧ d.Leftmost) ∧
      ∃ names, placeholders path = names.flatten ∧
        List.Forall₂ (fun segment declared => Declares segment declared ∧
            ∀ rounds, segment.length / 3 < rounds → scanSegment? rounds segment = some declared)
          (path.splitOn '/') names := by
  refine ⟨existsUnique_leftmost, (path.splitOn '/').map segmentNames, rfl, ?_⟩
  rw [List.forall₂_map_right_iff, List.forall₂_same]
  exact fun segment _ => declares_segmentNames segment

/-- A doubled dollar sign, empty braces, an opening inside of a name and one that stays open. -/
def nestedSegment : Text := "a$$\x7bé\x7d$\x7b\x7d$\x7b$\x7bz\x7d\x7d$\x7b".toList

theorem placeholders_eq_flatten_nested :
    Declares nestedSegment ["é".toList, "$\x7bz".toList] ∧
      scanSegment? 7 nestedSegment = some ["é".toList, "$\x7bz".toList] := by
  obtain ⟨-, names, same, related⟩ := placeholders_eq_flatten nestedSegment
  have whole : nestedSegment.splitOn '/' = [nestedSegment] := by decide
  have declared : placeholders nestedSegment = ["é".toList, "$\x7bz".toList] := by decide +kernel
  rw [whole] at related
  cases related with
  | cons first rest =>
    cases rest
    rw [List.flatten_cons, List.flatten_nil, List.append_nil, declared] at same
    subst same
    exact ⟨first.1, first.2 7 (by decide)⟩

end Pattern
end DeepLink
