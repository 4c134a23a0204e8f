import DeepLink.Proofs.Splitting
import DeepLink.Url.CharClass

/-!
# Words

Words of small letters and digits, and slugs, in which these are joined by marks. No character of
a slug means anything in a route text or in a URL (`of_isSlugChar`), so slugs are parts of a path
(`isPart_of_slugs`).
-/
namespace DeepLink

/-- Small letters and digits. -/
def isWordChar (c : Char) : Bool := c.isLower || c.isDigit

/-- Small letters, digits and the two marks that join them. -/
def isSlugChar (c : Char) : Bool := isWordChar c || ['_', '-'].contains c

/-- A small letter, then small letters and digits. -/
def IsWord (text : Text) : Prop := text.head?.any Char.isLower = true ∧ text.all isWordChar = true

instance (text : Text) : Decidable (IsWord text) := inferInstanceAs (Decidable (_ ∧ _))

/-- A text of small letters, digits and joining marks that is not empty. -/
def IsSlug (text : Text) : Prop := text ≠ [] ∧ text.all isSlugChar = true

instance (text : Text) : Decidable (IsSlug text) := inferInstanceAs (Decidable (_ ∧ _))

variable {text : Text} {parts : List Text} {c : Char}

/-! ### Characters -/

theorem toNat_lt_of_isWordChar (valid : isWordChar c = true) : c.toNat < 123 := by
  have alphanum : c.isAlphanum = (c.isUpper || isWordChar c) := Bool.or_assoc _ _ _
  exact Text.toNat_lt_of_isAlphanum (by rw [alphanum, valid, Bool.or_true])

theorem toNat_lt_of_isSlugChar (valid : isSlugChar c = true) : c.toNat < 123 := by
  rcases Bool.or_eq_true_iff.mp valid with letter | mark
  · exact toNat_lt_of_isWordChar letter
  · have either : c = '_' ∨ c = '-' := by simpa using mark
    rcases either with rfl | rfl <;> decide

/-- The characters that mean something in a route text or in a URL. -/
def isMark (c : Char) : Bool := ['/', '\\', '.', '%', '?', '#', ':', '$'].contains c

theorem of_isSlugChar (valid : isSlugChar c = true) :
    isMark c = false ∧ Url.isControlOrSpace c = false ∧ Url.isTabOrNewline c = false ∧
      Url.keptInPath c = true :=
  Text.forall_char (motive := fun c => isSlugChar c = true →
    isMark c = false ∧ Url.isControlOrSpace c = false ∧ Url.isTabOrNewline c = false ∧
      Url.keptInPath c = true) (by decide) c (toNat_lt_of_isSlugChar valid) valid

theorem not_isMark_of_isSlugChar (valid : isSlugChar c = true) : ¬ isMark c = true := by
  simp [(of_isSlugChar valid).1]

theorem isSlugChar_of_isWordChar (valid : isWordChar c = true) : isSlugChar c = true := by
  simp [isSlugChar, valid]

/-! ### Texts -/

theorem IsWord.isWordChar (word : IsWord text) (member : c ∈ text) : isWordChar c = true :=
  List.all_eq_true.mp word.2 c member

theorem IsWord.exists_head (word : IsWord text) :
    ∃ c rest, text = c :: rest ∧ c.isLower = true := by
  cases text with
  | nil => cases word.1
  | cons c rest => exact ⟨c, rest, rfl, word.1⟩

theorem IsWord.isSlug (word : IsWord text) : IsSlug text := by
  obtain ⟨c, rest, rfl, _⟩ := word.exists_head
  exact ⟨List.cons_ne_nil _ _,
    List.all_eq_true.mpr fun d member => isSlugChar_of_isWordChar (word.isWordChar member)⟩

theorem IsSlug.isSlugChar (slug : IsSlug text) (member : c ∈ text) : isSlugChar c = true :=
  List.all_eq_true.mp slug.2 c member

theorem IsSlug.not_mem (slug : IsSlug text) (mark : isMark c = true) : c ∉ text :=
  fun member => not_isMark_of_isSlugChar (slug.isSlugChar member) mark

/-- Slugs are parts of a path. -/
theorem isPart_of_slugs (slugs : ∀ part ∈ parts, IsSlug part) :
    ∀ part ∈ parts, RouteText.IsPart part :=
  fun part member => ⟨(slugs part member).1, (slugs part member).not_mem (by decide),
    (slugs part member).not_mem (by decide)⟩

/-- The characters of slugs and of what stands between them. -/
theorem of_mem_joinWith_slugs (slugs : ∀ part ∈ parts, IsSlug part)
    (member : c ∈ Text.joinWith '/' parts) : c = '/' ∨ isSlugChar c = true := by
  rcases Text.mem_joinWith member with same | ⟨part, among, inside⟩
  · exact .inl same
  · exact .inr ((slugs part among).isSlugChar inside)

end DeepLink
