import DeepLink.Text
import DeepLink.Url.Punycode

/-!
# Domains

A domain is a list of labels between dots. It is written with ASCII characters only: its
letters are made small, and a label with other characters is written `xn--` and then its
Punycode. A label that is given in that form has to be the written form of some label, so
every label has one written form.

Outside ASCII this is only a part of the rules for domains. Small letters are those of the
alphabets that have a fixed distance between a capital and its small letter: Latin (with the
accents of Western Europe), Greek and Cyrillic. Of the characters that stand for others, the wide
forms of ASCII and the wide full stops are replaced. Left out are the other capitals and compatible
forms, the composition of a letter and its accents, the values that are not assigned, and the rules
for writing from right to left and for joiners; all of these pass as they are, also as the meaning
of a label that is given in Punycode.
-/
namespace DeepLink.Url.Domain

/-! ### Characters -/

/-- Characters without a shape, which are dropped: the soft hyphen, the spaces of no width
and the selectors of a variant. -/
def isShapeless (c : Char) : Bool :=
  [0xAD, 0x200B, 0x2060, 0xFEFF].contains c.toNat || c.toNat / 16 = 0xFE0

/-- The values no domain holds, each range with its first and last: the control characters
outside ASCII, marks of direction, line separators, the characters of private use, and
values that are no character. -/
def refusedRanges : List (Nat × Nat) :=
  [(0x80, 0x9F), (0x200E, 0x200F), (0x2028, 0x202E), (0xE000, 0xF8FF), (0xFDD0, 0xFDEF),
    (0xFFFC, 0xFFFF), (0xF0000, 0x10FFFF)]

/-- Whether no domain holds the character. -/
def isRefused (c : Char) : Bool :=
  refusedRanges.any fun (first, last) => first ≤ c.toNat && c.toNat ≤ last

/-- The wide form of an ASCII character lies this much above it. -/
def wideDistance : Nat := 0xFEE0

/-- The ASCII character that a wide form, a wide space or a wide full stop stands for. -/
def narrow (c : Char) : Char :=
  if c.toNat = 0x3002 || c.toNat = 0xFF61 then '.'
  else if c.toNat = 0xA0 || c.toNat = 0x3000 then ' '
  else if 0xFF01 ≤ c.toNat && c.toNat ≤ 0xFF5E then Char.ofNat (c.toNat - wideDistance)
  else c

def small (c : Char) : Char :=
  let value := c.toNat
  if value < 128 then c.toLower
  else if (0xC0 ≤ value && value ≤ 0xDE && value != 0xD7)
      || (0x391 ≤ value && value ≤ 0x3A9) || (0x410 ≤ value && value ≤ 0x42F) then
    Char.ofNat (value + 32)
  else if 0x400 ≤ value && value ≤ 0x40F then Char.ofNat (value + 80)
  else c

/-- A domain as it is compared: without shapeless characters, narrow and small. -/
def folded? (domain : Text) : Option Text :=
  if domain.any isRefused then none
  else some ((domain.filter (!isShapeless ·)).map fun c => small (narrow c))

/-! ### Labels -/

def isAscii (label : Text) : Bool := label.all (·.toNat < 128)

/-- The greatest length of a label with characters outside ASCII. -/
def maxLabel : Nat := 1000

/-- The greatest length of the written form of a label, without its mark `xn--`. -/
def maxWritten : Nat := 2000

/-- The written form of a folded label with characters outside ASCII, without its mark. -/
def writeLabel? (label : Text) : Option Text :=
  if isAscii label ∨ label.length > maxLabel ∨ folded? label ≠ some label then none
  else some (Punycode.encode label)

/-- The label that a folded label is written as. -/
def asciiLabel? (label : Text) : Option Text :=
  match label with
  | 'x' :: 'n' :: '-' :: '-' :: written =>
    if isAscii written ∧ written.length ≤ maxWritten then
      -- Only what is written for its meaning is read, so a label has one written form.
      if (Punycode.decode? written).bind writeLabel? = some written then some label else none
    else none
  | _ => if isAscii label then some label else (writeLabel? label).map ("xn--".toList ++ ·)

/-- A domain in its written form. -/
def ascii? (domain : Text) : Option Text := do
  let folded ← folded? domain
  return Text.joinWith '.' (← (folded.splitOn '.').mapM asciiLabel?)

end DeepLink.Url.Domain
