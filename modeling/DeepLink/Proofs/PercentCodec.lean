import DeepLink.Percent
import Mathlib.Data.List.Basic

/-!
# The percent codec

Decoding gives back what was encoded, as long as the percent sign itself is escaped
(`decode?_encode`). The proof follows the bytes: what is written for a character stands for
the bytes of its UTF-8 form, whatever comes after it (`bytes_encode_append`).
-/
namespace DeepLink

/-! ### UTF-8 -/

/-- The bytes of the UTF-8 form of a text. -/
def Text.utf8 (text : Text) : List UInt8 := text.flatMap String.utf8EncodeChar

theorem Text.utf8_cons (c : Char) (text : Text) :
    utf8 (c :: text) = String.utf8EncodeChar c ++ utf8 text := rfl

theorem Text.utf8Encode_eq (text : Text) : text.utf8Encode = (utf8 text).toByteArray := rfl

/-- Bytes are read as a text exactly when they are its UTF-8 form. -/
theorem Text.ofUtf8?_eq_some_iff {bytes : List UInt8} {text : Text} :
    ofUtf8? bytes = some text ↔ bytes = utf8 text := by
  unfold ofUtf8? String.fromUTF8?
  constructor
  · intro read
    obtain ⟨string, found, rfl⟩ := Option.map_eq_some_iff.mp read
    -- The bytes that were accepted are those of the string made from them.
    split at found
    next valid =>
      obtain rfl := Option.some.inj found
      have same : bytes.toByteArray = (utf8 (String.fromUTF8 _ valid).toList).toByteArray := by
        rw [← utf8Encode_eq, String.utf8Encode_toList]
        rfl
      simpa using congrArg (·.data.toList) same
    · cases found
  · rintro rfl
    rw [← utf8Encode_eq, dif_pos ByteArray.isValidUTF8_utf8Encode]
    simp only [Option.map_some, Option.some.injEq]
    exact String.toList_ofList

namespace Percent

open Numeral (capitalDigit capitalDigits digitValue? digitValue?_capitalDigit)

/-! ### Bytes -/

theorem bytes_cons {c : Char} (plain : c ≠ '%') (rest : Text) :
    bytes (c :: rest) = String.utf8EncodeChar c ++ bytes rest := by
  rw [bytes]
  intro high low tail same
  exact absurd same plain

theorem bytes_escape_append (byte : UInt8) (rest : Text) :
    bytes (escape byte ++ rest) = byte :: bytes rest := by
  -- A byte is sixteen times its upper digit and its lower digit.
  have upper : byte.toNat / 16 < 16 := by have := byte.toNat_lt; omega
  have lower : byte.toNat % 16 < 16 := Nat.mod_lt _ (by decide)
  have whole : byte.toNat / 16 * 16 + byte.toNat % 16 = byte.toNat := by omega
  simp only [escape, List.cons_append, List.nil_append]
  rw [bytes]
  simp only [digitValue?_capitalDigit _ upper, digitValue?_capitalDigit _ lower, whole,
    UInt8.ofNat_toNat]

theorem bytes_escapes_append (escaped : List UInt8) (rest : Text) :
    bytes (escaped.flatMap escape ++ rest) = escaped ++ bytes rest := by
  induction escaped with
  | nil => rfl
  | cons byte others ih =>
    rw [List.flatMap_cons, List.append_assoc, bytes_escape_append, ih, List.cons_append]

theorem bytes_encodeChar_append {keep : Char → Bool} (escaped : keep '%' = false) (c : Char)
    (rest : Text) :
    bytes (encodeChar keep c ++ rest) = String.utf8EncodeChar c ++ bytes rest := by
  unfold encodeChar
  split
  next kept =>
    -- The percent sign is escaped, so a kept character starts no escape.
    have plain : c ≠ '%' := by
      rintro rfl
      simp [escaped] at kept
    exact bytes_cons plain rest
  next => exact bytes_escapes_append _ rest

theorem bytes_encode_append {keep : Char → Bool} (escaped : keep '%' = false)
    (text rest : Text) : bytes (encode keep text ++ rest) = text.utf8 ++ bytes rest := by
  induction text with
  | nil => rfl
  | cons c others ih =>
    rw [encode, List.flatMap_cons, List.append_assoc, bytes_encodeChar_append escaped]
    rw [encode] at ih
    rw [ih, Text.utf8_cons, List.append_assoc]

theorem bytes_ne_nil {text : Text} (filled : text ≠ []) : bytes text ≠ [] := by
  fun_cases bytes text with
  | case1 => exact absurd rfl filled
  | case2 => exact List.cons_ne_nil _ _
  | case3 => exact List.append_ne_nil_of_left_ne_nil String.utf8EncodeChar_ne_nil _
  | case4 => exact List.append_ne_nil_of_left_ne_nil String.utf8EncodeChar_ne_nil _

/-! ### Texts -/

theorem decode?_eq_some_iff {text meaning : Text} :
    decode? text = some meaning ↔ bytes text = meaning.utf8 := Text.ofUtf8?_eq_some_iff

theorem decode?_encode {keep : Char → Bool} (escaped : keep '%' = false) (text : Text) :
    decode? (encode keep text) = some text := by
  have all := bytes_encode_append escaped text []
  simpa [decode?_eq_some_iff, bytes] using all

/-- Only the empty text stands for the empty text. -/
theorem ne_nil_of_decode? {text meaning : Text} (filled : text ≠ [])
    (decoded : decode? text = some meaning) : meaning ≠ [] := by
  rintro rfl
  exact bytes_ne_nil filled (decode?_eq_some_iff.mp decoded)

theorem encode_eq_self {keep : Char → Bool} {text : Text} (kept : ∀ c ∈ text, keep c = true) :
    encode keep text = text := by
  induction text with
  | nil => rfl
  | cons c rest ih =>
    have first := kept c List.mem_cons_self
    have inner := ih fun d member => kept d (.tail _ member)
    rw [encode] at inner ⊢
    rw [List.flatMap_cons, inner, encodeChar, if_pos first, List.singleton_append]

/-- Where no escape is written, nothing was escaped. -/
theorem encode_eq_self_of_not_mem {keep : Char → Bool} {text : Text}
    (absent : '%' ∉ encode keep text) : encode keep text = text := by
  refine encode_eq_self fun c member => ?_
  by_contra escaped
  obtain ⟨byte, others, bytes⟩ := List.exists_cons_of_ne_nil (String.utf8EncodeChar_ne_nil (c := c))
  have first : '%' ∈ encodeChar keep c := by
    simp [encodeChar, escaped, bytes, escape]
  exact absent (List.mem_flatMap.mpr ⟨c, member, first⟩)

theorem encode_eq_nil_iff {keep : Char → Bool} {text : Text} :
    encode keep text = [] ↔ text = [] := by
  constructor
  · cases text with
    | nil => intro _; rfl
    | cons c rest =>
      intro empty
      have start := (List.append_eq_nil_iff.mp empty).1
      unfold encodeChar at start
      split at start
      · cases start
      · cases bytes : String.utf8EncodeChar c with
        | nil => exact absurd bytes String.utf8EncodeChar_ne_nil
        | cons byte others => simp [bytes, escape] at start
  · rintro rfl
    rfl

/-- A separator that is escaped is not written. -/
theorem not_mem_encode {keep : Char → Bool} {separator : Char} (escaped : keep separator = false)
    (noMark : separator ≠ '%') (noDigit : separator ∉ capitalDigits) (text : Text) :
    separator ∉ encode keep text := by
  intro member
  rcases mem_encode member with same | digit | ⟨kept, _⟩
  · exact noMark same
  · exact noDigit digit
  · simp [escaped] at kept

end Percent
end DeepLink
