import DeepLink.Text

/-!
# Numerals

Digits of bases up to sixteen, and the numbers that texts of such digits stand for. A
letter is read as a digit in either case; written letters are capital or small, as the
place where they stand asks.
-/
namespace DeepLink.Numeral

/-! ### Written digits -/

def capitalDigits : List Char :=
  ['0', '1', '2', '3', '4', '5', '6', '7', '8', '9', 'A', 'B', 'C', 'D', 'E', 'F']

def smallDigits : List Char :=
  ['0', '1', '2', '3', '4', '5', '6', '7', '8', '9', 'a', 'b', 'c', 'd', 'e', 'f']

/-- The digit of a number below sixteen, as a capital letter from ten on. -/
def capitalDigit (n : Nat) : Char := capitalDigits.getD n '0'

/-- The digit of a number below sixteen, as a small letter from ten on. -/
def smallDigit (n : Nat) : Char := smallDigits.getD n '0'

theorem capitalDigit_mem : ∀ n < 16, capitalDigit n ∈ capitalDigits := by decide

/-! ### Numbers -/

/-- The value of a hexadecimal digit of either case. -/
def digitValue? (c : Char) : Option Nat :=
  if c.isDigit then some (c.toNat - '0'.toNat)
  else if 'a' ≤ c ∧ c ≤ 'f' then some (c.toNat - 'a'.toNat + 10)
  else if 'A' ≤ c ∧ c ≤ 'F' then some (c.toNat - 'A'.toNat + 10)
  else none

/-- The number with the given digits, most significant first. -/
def ofDigits (base : Nat) (digits : List Nat) : Nat :=
  digits.foldl (fun value digit => value * base + digit) 0

/-- The number that a text stands for, if each of its characters is a digit of the base. -/
def read? (base : Nat) (text : Text) : Option Nat := do
  let digits ← text.mapM digitValue?
  if digits.all (· < base) then return ofDigits base digits else none

theorem digitValue?_capitalDigit : ∀ n < 16, digitValue? (capitalDigit n) = some n := by decide

end DeepLink.Numeral
