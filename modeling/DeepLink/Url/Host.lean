import DeepLink.Percent
import DeepLink.Url.Domain
import DeepLink.Url.Ipv6

/-!
# Hosts

The host of a URL is an IPv6 address in brackets, or, after a special scheme, an IPv4
address or a domain, or, after any other scheme, a text that is kept but for its escapes.

No host holds `/`, `?` or `#`: `Host` carries this as its field `undelimited`.
-/
namespace DeepLink.Url

/-- The host of a URL, as it is written there. The empty host stands in a URL that has
slashes but no host after its scheme. -/
structure Host where
  text : Text
  undelimited : Undelimited text

namespace Host

/-- The host of a URL with nothing between its slashes and its path. -/
def empty : Host := ⟨[], fun _ member => absurd member List.not_mem_nil⟩

/-- An IPv6 address between brackets. -/
def ofIpv6 (groups : List Nat) : Host :=
  ⟨'[' :: Ipv6.write groups ++ [']'], by
    intro c member
    rcases List.mem_append.mp member with inside | last
    · rcases List.mem_cons.mp inside with rfl | inside
      · decide
      · exact Ipv6.undelimited_write groups c inside
    · rw [List.mem_singleton.mp last]
      decide⟩

def ofIpv4 (address : Nat) : Host := ⟨Ipv4.write address, Ipv4.undelimited_write address⟩

/-- The text between brackets at both ends. -/
def bracketed? (text : Text) : Option Text :=
  match text with
  | '[' :: rest => if rest.getLast? = some ']' then some rest.dropLast else none
  | _ => none

theorem undelimited_of_allowed {text : Text} (allowed : text.all (!isForbiddenInHost ·) = true) :
    Undelimited text := by
  intro c member
  refine Bool.eq_false_iff.mpr fun delimiter => ?_
  have free := List.all_eq_true.mp allowed c member
  rcases isDelimiter_iff.mp delimiter with rfl | rfl | rfl <;> simp [isForbiddenInHost] at free

theorem undelimited_of_domain {text : Text} (allowed : text.all (!isForbiddenInDomain ·) = true) :
    Undelimited text := by
  refine undelimited_of_allowed (List.all_eq_true.mpr fun c member => ?_)
  have free := List.all_eq_true.mp allowed c member
  simp only [isForbiddenInDomain, Bool.not_eq_true', Bool.or_eq_false_iff] at free
  simp [free.1.1.1]

theorem undelimited_encode {text : Text} (allowed : text.all (!isForbiddenInHost ·) = true) :
    Undelimited (Percent.encode isControlFree text) := by
  intro c member
  rcases Percent.mem_encode member with rfl | digit | ⟨_, inText⟩
  · decide
  · have plain : (Numeral.capitalDigits.all (!isDelimiter ·)) = true := by decide
    simpa using List.all_eq_true.mp plain c digit
  · exact undelimited_of_allowed allowed c inText

/-- The host after a special scheme: its escapes are decoded before it is read. -/
def ofDomain? (text : Text) : Option Host := do
  let domain ← Domain.ascii? (← Percent.decode? text)
  if domain = [] then none
  else if allowed : domain.all (!isForbiddenInDomain ·) = true then
    if Ipv4.endsInNumber domain then return ofIpv4 (← Ipv4.read? domain)
    else return ⟨domain, undelimited_of_domain allowed⟩
  else none

/-- The host after any other scheme, which may be empty. -/
def ofGeneral? (text : Text) : Option Host :=
  if allowed : text.all (!isForbiddenInHost ·) = true then
    some ⟨Percent.encode isControlFree text, undelimited_encode allowed⟩
  else none

def read? (special : Bool) (text : Text) : Option Host :=
  if text.head? = some '[' then do return ofIpv6 (← Ipv6.read? (← bracketed? text))
  else if special then ofDomain? text
  else ofGeneral? text

end Host
end DeepLink.Url
