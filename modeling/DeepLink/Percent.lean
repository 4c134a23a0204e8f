import DeepLink.Numeral

/-!
# Percent coding

A character is escaped by writing each byte of its UTF-8 form as `%` and two hexadecimal
digits. What stays as it is depends on where the text is written, so `encode` takes the
set of characters to keep; decoding is the same everywhere.

- `decode?` reads the bytes that the escapes and the other characters stand for, and fails
  only when they are not UTF-8. A `%` without two digits after it stands for itself.
- `mem_encode`: every character written is `%`, a hexadecimal digit, or a kept character
  of the text.
-/
namespace DeepLink.Percent

open Numeral (capitalDigit capitalDigits capitalDigit_mem digitValue?)

/-! ### Encoding -/

/-- The escape of one byte. -/
def escape (byte : UInt8) : Text :=
  ['%', capitalDigit (byte.toNat / 16), capitalDigit (byte.toNat % 16)]

/-- A kept character stays, any other is escaped byte by byte. -/
def encodeChar (keep : Char → Bool) (c : Char) : Text :=
  if keep c then [c] else (String.utf8EncodeChar c).flatMap escape

/-- The text with every character that is not kept escaped. -/
def encode (keep : Char → Bool) (text : Text) : Text :=
  text.flatMap (encodeChar keep)

/-! ### Decoding -/

/-- The bytes that a text stands for. -/
def bytes : Text → List UInt8
  | [] => []
  | '%' :: high :: low :: rest =>
    match digitValue? high, digitValue? low with
    | some h, some l => UInt8.ofNat (h * 16 + l) :: bytes rest
    | _, _ => String.utf8EncodeChar '%' ++ bytes (high :: low :: rest)
  | c :: rest => String.utf8EncodeChar c ++ bytes rest

/-- The text that the escapes stand for, unless their bytes are not UTF-8. -/
def decode? (text : Text) : Option Text := Text.ofUtf8? (bytes text)

/-! ### Written characters -/

theorem mem_escape {c : Char} {byte : UInt8} (member : c ∈ escape byte) :
    c = '%' ∨ c ∈ capitalDigits := by
  have upper : byte.toNat / 16 < 16 := by have := byte.toNat_lt; omega
  simp only [escape, List.mem_cons, List.not_mem_nil, or_false] at member
  rcases member with rfl | rfl | rfl
  · exact .inl rfl
  · exact .inr (capitalDigit_mem _ upper)
  · exact .inr (capitalDigit_mem _ (Nat.mod_lt _ (by decide)))

/-- Encoding writes escapes and kept characters of the text, and nothing else. -/
theorem mem_encode {keep : Char → Bool} {c : Char} {text : Text}
    (member : c ∈ encode keep text) :
    c = '%' ∨ c ∈ capitalDigits ∨ (keep c ∧ c ∈ text) := by
  obtain ⟨source, inText, written⟩ := List.mem_flatMap.mp member
  by_cases kept : keep source
  · simp only [encodeChar, kept, if_true, List.mem_singleton] at written
    subst written
    exact .inr (.inr ⟨kept, inText⟩)
  · simp only [encodeChar, kept, if_false, Bool.false_eq_true, List.mem_flatMap] at written
    obtain ⟨byte, _, inEscape⟩ := written
    exact (mem_escape inEscape).imp id .inl

end DeepLink.Percent
