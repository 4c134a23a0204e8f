import DeepLink.Url.Ipv4

/-!
# IPv6 addresses

Eight groups of up to four hexadecimal digits between colons. One `::` stands for as many
zero groups as are missing, at least one; the last two groups may be written as an IPv4
address. An address is written with small letters, and its longest run of two or more zero
groups, the first of equally long ones, as `::`.
-/
namespace DeepLink.Url.Ipv6

/-! ### Reading -/

def group? (text : Text) : Option Nat :=
  if text = [] ∨ text.length > 4 then none else Numeral.read? 16 text

/-- One decimal number of an embedded address: no sign, no leading zero, below 256. -/
def byte? (text : Text) : Option Nat := do
  if text = [] ∨ (text.length > 1 ∧ text.head? = some '0') then none
  else
    let value ← Numeral.read? 10 text
    if value < 256 then return value else none

/-- The two groups of an embedded address. -/
def embedded? (text : Text) : Option (List Nat) := do
  match ← (text.splitOn '.').mapM byte? with
  | [a, b, c, d] => return [a * 256 + b, c * 256 + d]
  | _ => none

/-- Groups up to the end of the address, where an embedded address may stand. -/
def lastGroups? : List Text → Option (List Nat)
  | [] => some []
  | [last] => (group? last).map ([·]) <|> embedded? last
  | group :: rest => do return (← group? group) :: (← lastGroups? rest)

/-- The pieces between colons; no text has none. -/
def pieces (text : Text) : List Text := if text = [] then [] else text.splitOn ':'

/-- The parts before and after the first `::`. -/
def cutGap? : Text → Option (Text × Text)
  | ':' :: ':' :: rest => some ([], rest)
  | c :: rest => (cutGap? rest).map fun (before, after) => (c :: before, after)
  | [] => none

/-- The eight groups of an address. -/
def read? (text : Text) : Option (List Nat) :=
  match cutGap? text with
  | none => do
    let groups ← lastGroups? (pieces text)
    if groups.length = 8 then return groups else none
  | some (before, after) => do
    let left ← (pieces before).mapM group?
    let right ← lastGroups? (pieces after)
    -- The gap stands for at least one group, so at most seven are written.
    let written := left.length + right.length
    if written ≤ 7 then return left ++ List.replicate (8 - written) 0 ++ right else none

/-! ### Writing -/

/-- One group, without leading zeros. -/
def writeGroup (group : Nat) : Text :=
  let digits := [0x1000, 0x100, 0x10, 1].map fun unit => Numeral.smallDigit (group / unit % 16)
  (digits.take 3).dropWhile (· == '0') ++ digits.drop 3

/-- The length of the run of zero groups that starts at a place. -/
def zeroRun (groups : List Nat) (start : Nat) : Nat :=
  ((groups.drop start).takeWhile (· == 0)).length

/-- The first place where a longest run of zero groups starts. -/
def longestZeroRun (groups : List Nat) : Nat :=
  (List.range groups.length).foldl
    (fun best start => if zeroRun groups best < zeroRun groups start then start else best) 0

def writeGroups (groups : List Nat) : Text := Text.joinWith ':' (groups.map writeGroup)

def write (groups : List Nat) : Text :=
  let start := longestZeroRun groups
  let run := zeroRun groups start
  if run < 2 then writeGroups groups
  else writeGroups (groups.take start) ++ [':', ':'] ++ writeGroups (groups.drop (start + run))

theorem undelimited_writeGroup (group : Nat) : Undelimited (writeGroup group) := by
  intro c member
  have digit : ∀ d < 16, isDelimiter (Numeral.smallDigit d) = false := by decide
  have small (n : Nat) : isDelimiter (Numeral.smallDigit (n % 16)) = false :=
    digit _ (Nat.mod_lt _ (by decide))
  have among : c ∈ [0x1000, 0x100, 0x10, 1].map fun unit =>
      Numeral.smallDigit (group / unit % 16) := by
    rcases List.mem_append.mp member with early | late
    · exact List.mem_of_mem_take ((List.dropWhile_sublist _).subset early)
    · exact List.mem_of_mem_drop late
  obtain ⟨unit, _, rfl⟩ := List.mem_map.mp among
  exact small _

theorem undelimited_writeGroups (groups : List Nat) : Undelimited (writeGroups groups) := by
  intro c member
  rcases Text.mem_joinWith member with rfl | ⟨piece, among, inside⟩
  · decide
  · obtain ⟨group, _, rfl⟩ := List.mem_map.mp among
    exact undelimited_writeGroup group c inside

theorem undelimited_write (groups : List Nat) : Undelimited (write groups) := by
  intro c member
  simp only [write] at member
  split at member
  · exact undelimited_writeGroups _ c member
  · rcases List.mem_append.mp member with member | member
    · rcases List.mem_append.mp member with member | member
      · exact undelimited_writeGroups _ c member
      · simp only [List.mem_cons, List.not_mem_nil, or_false, or_self] at member
        subst member
        decide
    · exact undelimited_writeGroups _ c member

end DeepLink.Url.Ipv6
