import DeepLink.Toml.Quoted
import DeepLink.Toml.Value

/-!
# TOML scalars without quotes

Booleans, numbers, dates and times are written with letters, digits and `+-.:_` and end
before any other character. `scalar?` reads such a word at the start of a text; a date may
be followed by one space and a time.
-/
namespace DeepLink.Toml

def isWordChar (c : Char) : Bool := c.isAlphanum || ['+', '-', '.', ':', '_'].contains c

/-! ### Numbers -/

/-- Digits of which each two may have one underscore between them; at least one. -/
def underscored? (isDigit : Char → Bool) (text : Text) : Option Text :=
  let groups := text.splitOn '_'
  if groups.all fun group => group ≠ [] && group.all isDigit then some groups.flatten else none

/-- The digits of a decimal whole number, which has no leading zero. -/
def wholeDigits? (text : Text) : Option Text :=
  if text.head? = some '0' ∧ text.length > 1 then none else underscored? Char.isDigit text

/-- A leading sign, if there is one, and the rest. -/
def splitSign (text : Text) : Option Char × Text :=
  match text with
  | '+' :: rest => (some '+', rest)
  | '-' :: rest => (some '-', rest)
  | _ => (none, text)

/-- The value of a whole number in some base, without bounds. -/
def wholeNumber? (text : Text) : Option Int :=
  match text with
  | '0' :: 'x' :: digits => based? 16 digits
  | '0' :: 'o' :: digits => based? 8 digits
  | '0' :: 'b' :: digits => based? 2 digits
  | _ => do
    let (sign, digits) := splitSign text
    let value ← Numeral.read? 10 (← wholeDigits? digits)
    return if sign = some '-' then -(value : Int) else value
where
  based? (base : Nat) (digits : Text) : Option Int := do
    let value ← Numeral.read? base
      (← underscored? (fun c => (Numeral.digitValue? c).any (· < base)) digits)
    return (value : Int)

/-- A whole number, which has to fit in 64 bits with a sign. -/
def integer? (text : Text) : Option Value := do
  let value ← wholeNumber? text
  if -0x8000000000000000 ≤ value ∧ value < 0x8000000000000000 then return .integer value
  else none

/-- Whether `digits · 10 ^ exponent` rounds to infinity in double precision: it is not less
than half a unit of the last place above the greatest finite number. -/
def overflows (digits : Nat) (exponent : Int) : Bool :=
  let limit := Nat.pow 2 1024 - Nat.pow 2 970
  let length := (Nat.toDigits 10 digits).length
  -- Both bounds are far from the limit, and keep the powers of ten below small.
  if digits = 0 ∨ exponent + length < 300 then false
  else if exponent > 310 then true
  else limit * Nat.pow 10 (-exponent).toNat ≤ digits * Nat.pow 10 exponent.toNat

def exponent? (text : Text) : Option Int := do
  let (sign, digits) := splitSign text
  let value ← Numeral.read? 10 (← underscored? Char.isDigit digits)
  return if sign = some '-' then -(value : Int) else value

/-- Digits after a point, and an exponent; at least one of the two. -/
def fraction? (text : Text) : Option (Text × Int) :=
  let isMark (c : Char) : Bool := c == 'e' || c == 'E'
  match text with
  | '.' :: rest => do
    let digits ← underscored? Char.isDigit (rest.takeWhile (!isMark ·))
    match rest.dropWhile (!isMark ·) with
    | [] => return (digits, 0)
    | _ :: power => return (digits, ← exponent? power)
  | c :: power => if isMark c then do return ([], ← exponent? power) else none
  | [] => none

/-- A number with a fraction or an exponent, an infinity, or no number. A positive number
has to be finite in double precision. -/
def float? (text : Text) : Option Value := do
  let (sign, unsigned) := splitSign text
  if unsigned = "inf".toList ∨ unsigned = "nan".toList then return .float text
  else
    let isWhole (c : Char) : Bool := c.isDigit || c == '_'
    let whole ← wholeDigits? (unsigned.takeWhile isWhole)
    let (digits, exponent) ← fraction? (unsigned.dropWhile isWhole)
    let number ← Numeral.read? 10 (whole ++ digits)
    if sign ≠ some '-' ∧ overflows number (exponent - digits.length) then none
    else return .float text

/-! ### Dates and times -/

/-- A number of fixed width within bounds, and the rest. -/
def field? (width least most : Nat) (text : Text) : Option (Nat × Text) := do
  let digits := text.take width
  if digits.length = width ∧ digits.all Char.isDigit then
    let value ← Numeral.read? 10 digits
    if least ≤ value ∧ value ≤ most then return (value, text.drop width) else none
  else none

/-- The rest after an expected character. -/
def expect? (c : Char) (text : Text) : Option Text :=
  if text.head? = some c then some (text.drop 1) else none

def daysOfMonth (year month : Nat) : Nat :=
  if month = 2 then
    if year % 4 = 0 ∧ (year % 100 ≠ 0 ∨ year % 400 = 0) then 29 else 28
  else if [4, 6, 9, 11].contains month then 30 else 31

def afterDate? (text : Text) : Option Text := do
  let (year, text) ← field? 4 0 9999 text
  let (month, text) ← field? 2 1 12 (← expect? '-' text)
  let (_, text) ← field? 2 1 (daysOfMonth year month) (← expect? '-' text)
  return text

def afterTime? (text : Text) : Option Text := do
  let (_, text) ← field? 2 0 23 text
  let (_, text) ← field? 2 0 59 (← expect? ':' text)
  let (_, text) ← field? 2 0 60 (← expect? ':' text)
  match text with
  | '.' :: rest =>
    if rest.head?.any Char.isDigit then return rest.dropWhile Char.isDigit else none
  | _ => return text

/-- The rest after the hours and minutes of a distance from universal time. -/
def afterOffset? (text : Text) : Option Text := do
  let (_, text) ← field? 2 0 23 text
  let (_, text) ← field? 2 0 59 (← expect? ':' text)
  return text

/-- Whether a text is nothing, or a distance from universal time. -/
def isOffset (text : Text) : Bool :=
  match splitSign text with
  | (some _, distance) => afterOffset? distance == some []
  | (none, _) => text == [] || text == ['Z'] || text == ['z']

/-- Whether a text is a time of day, possibly with a distance from universal time. -/
def isTime (text : Text) : Bool := (afterTime? text).any isOffset

/-- A date, a date and a time, or a time. -/
def dateTime? (text : Text) : Option Value :=
  let valid :=
    match afterDate? text with
    | some [] => true
    | some (c :: time) => (c == 'T' || c == 't') && isTime time
    | none => afterTime? text == some []
  if valid then some (.dateTime text) else none

/-! ### Words -/

def word? (word : Text) : Option Value :=
  if word = "true".toList then some (.boolean true)
  else if word = "false".toList then some (.boolean false)
  else dateTime? word <|> float? word <|> integer? word

/-- A word at the start of a text, or a date, a space and a time. -/
def scalar? (text : Text) : Option (Value × Text) := do
  let (word, rest) := text.span isWordChar
  let (time, afterTime) := (rest.drop 1).span isWordChar
  if afterDate? word = some [] ∧ rest.head? = some ' ' ∧ time ≠ [] then
    if isTime time then return (.dateTime (word ++ ' ' :: time), afterTime) else none
  else return (← word? word, rest)

end DeepLink.Toml
