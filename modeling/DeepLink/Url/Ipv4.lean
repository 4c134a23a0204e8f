import DeepLink.Numeral
import DeepLink.Url.CharClass

/-!
# IPv4 addresses

A domain whose last label is a number is an address of up to four numbers between dots.
Each number is decimal, octal after `0`, or hexadecimal after `0x`; the last one fills all
the bytes that are left. An address is written with four decimal numbers.
-/
namespace DeepLink.Url.Ipv4

/-- The value of one number of an address. -/
def number? : Text → Option Nat
  | [] => none
  | '0' :: 'x' :: digits => Numeral.read? 16 digits
  | '0' :: 'X' :: digits => Numeral.read? 16 digits
  | '0' :: c :: digits => Numeral.read? 8 (c :: digits)
  | text => Numeral.read? 10 text

/-- The labels of a domain, without an empty one after a final dot. -/
def labels (domain : Text) : List Text :=
  let all := domain.splitOn '.'
  -- A single empty label is the whole domain, not what follows a dot.
  if all.length > 1 ∧ all.getLast? = some [] then all.dropLast else all

/-- Whether a domain has to be read as an address. -/
def endsInNumber (domain : Text) : Bool :=
  match (labels domain).getLast? with
  | some last => (last ≠ [] && last.all Char.isDigit) || (number? last).isSome
  | none => false

/-- The bound of the last number of an address, which fills the bytes that the given count
of numbers before it leave. -/
def lastBound : Nat → Nat
  | 0 => 0x100000000
  | 1 => 0x1000000
  | 2 => 0x10000
  | _ => 0x100

/-- The bytes of an address, as one number. -/
def read? (domain : Text) : Option Nat := do
  let numbers ← (labels domain).mapM number?
  let last ← numbers.getLast?
  let first := numbers.dropLast
  let bound := lastBound first.length
  if first.length ≤ 3 ∧ first.all (· < 256) ∧ last < bound then
    return Numeral.ofDigits 256 first * bound + last
  else none

/-- Four decimal numbers between dots. -/
def write (address : Nat) : Text :=
  Text.joinWith '.'
    ([0x1000000, 0x10000, 0x100, 1].map fun unit => Nat.toDigits 10 (address / unit % 256))

theorem undelimited_write (address : Nat) : Undelimited (write address) := by
  intro c member
  rcases Text.mem_joinWith member with rfl | ⟨piece, among, inside⟩
  · decide
  · obtain ⟨unit, _, rfl⟩ := List.mem_map.mp among
    have decimal := Nat.isDigit_of_mem_toDigits (by decide) (by decide) inside
    refine Bool.eq_false_iff.mpr fun delimiter => ?_
    rcases isDelimiter_iff.mp delimiter with rfl | rfl | rfl <;> exact absurd decimal (by decide)

end DeepLink.Url.Ipv4
