import DeepLink.Text

/-!
# Punycode

A label with characters outside ASCII is written with ASCII letters, digits and hyphens:
first its ASCII characters, then, for the others in ascending order, how far the place and
the value of each lie from those of the one before it. A distance is a number of mixed
radix whose digits are `a` to `z` and `0` to `9`; the radix adapts to the size of earlier
distances.

`encode` writes a label and `decode?` reads one.
-/
namespace DeepLink.Url.Punycode

/-! ### Digits -/

/-- The first value outside ASCII. -/
def firstValue : Nat := 128

/-- The bias before the first distance. -/
def firstBias : Nat := 72

/-- The least digit that is the last one of its number, at a weight position. -/
def threshold (bias position : Nat) : Nat :=
  if position ≤ bias then 1 else if bias + 26 ≤ position then 26 else position - bias

theorem one_le_threshold (bias position : Nat) : 1 ≤ threshold bias position := by
  unfold threshold
  split
  · omega
  · split <;> omega

/-- Divide a large distance down, counting the steps in positions. -/
def shrink (distance position : Nat) : Nat :=
  if 455 < distance then shrink (distance / 35) (position + 36)
  else position + 36 * distance / (distance + 38)
  termination_by distance

/-- The bias after a distance, when `count` characters have been placed. -/
def adapt (distance count : Nat) (first : Bool) : Nat :=
  let scaled := if first then distance / 700 else distance / 2
  shrink (scaled + scaled / count) 0

/-- The character of a digit below thirty-six. -/
def digitChar (digit : Nat) : Char :=
  if digit < 26 then Char.ofNat ('a'.toNat + digit) else Char.ofNat ('0'.toNat + digit - 26)

/-- The digit of a small letter or a decimal digit. -/
def digitValue? (c : Char) : Option Nat :=
  if c.isLower then some (c.toNat - 'a'.toNat)
  else if c.isDigit then some (c.toNat - '0'.toNat + 26)
  else none

/-- The digits of a distance, from a weight position on. -/
def digits (bias position number : Nat) : Text :=
  let t := threshold bias position
  if number < t then [digitChar number]
  else digitChar (t + (number - t) % (36 - t))
    :: digits bias (position + 36) ((number - t) / (36 - t))
  termination_by number
  decreasing_by
    have positive := one_le_threshold bias position
    have quotient := Nat.div_le_self (number - threshold bias position)
      (36 - threshold bias position)
    omega

/-! ### Writing -/

/-- What has been written, and where the next distance starts. -/
structure Writer where
  output : Text
  distance : Nat
  bias : Nat
  placed : Nat

/-- Walk over one character of the label while placing those of value `value`. -/
def Writer.pass (basicCount value : Nat) (writer : Writer) (c : Char) : Writer :=
  if c.toNat < value then { writer with distance := writer.distance + 1 }
  else if c.toNat = value then
    { output := writer.output ++ digits writer.bias 36 writer.distance
      distance := 0
      bias := adapt writer.distance (writer.placed + 1) (writer.placed = basicCount)
      placed := writer.placed + 1 }
  else writer

/-- Place the characters of the given values, which ascend from `least` on. -/
def Writer.run (label : Text) (basicCount : Nat) (writer : Writer) (least : Nat) :
    List Nat → Writer
  | [] => writer
  | value :: rest =>
    -- Each value passed over adds one step for every place in the text so far.
    let start := { writer with
      distance := writer.distance + (value - least) * (writer.placed + 1) }
    let done := label.foldl (Writer.pass basicCount value) start
    Writer.run label basicCount { done with distance := done.distance + 1 } (value + 1) rest

/-- The ASCII characters of a label. -/
def basic (label : Text) : Text := label.filter (·.toNat < firstValue)

def encode (label : Text) : Text :=
  let plain := basic label
  let values := ((label.map Char.toNat).filter (firstValue ≤ ·)).mergeSort.eraseDups
  let start : Writer := { output := [], distance := 0, bias := firstBias, placed := plain.length }
  (if plain = [] then [] else plain ++ ['-'])
    ++ (Writer.run label plain.length start firstValue values).output

/-! ### Reading -/

/-- What has been read, and the number that is being read. -/
structure Reader where
  output : Text
  value : Nat
  place : Nat
  bias : Nat
  startPlace : Nat
  weight : Nat
  position : Nat

/-- Read one digit; the last digit of a number places a character. -/
def Reader.step? (reader : Reader) (c : Char) : Option Reader := do
  let digit ← digitValue? c
  let place := reader.place + digit * reader.weight
  let t := threshold reader.bias reader.position
  if digit < t then
    let count := reader.output.length + 1
    let value := reader.value + place / count
    -- A number past the last character stands for nothing.
    if value.isValidChar then
      let slot := place % count
      return {
        output := reader.output.take slot ++ Char.ofNat value :: reader.output.drop slot
        value, place := slot + 1
        bias := adapt (place - reader.startPlace) count (reader.startPlace = 0)
        startPlace := slot + 1, weight := 1, position := 36 }
    else none
  else return { reader with
    place, weight := reader.weight * (36 - t), position := reader.position + 36 }

def decode? (written : Text) : Option Text := do
  let (plain, suffix) := (written.cutLast? '-').getD ([], written)
  let start : Reader := {
    output := plain, value := firstValue, place := 0, bias := firstBias,
    startPlace := 0, weight := 1, position := 36 }
  let final ← suffix.foldlM Reader.step? start
  if final.position = 36 then return final.output else none

end DeepLink.Url.Punycode
