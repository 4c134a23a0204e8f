import DeepLink.Url.CharClass

/-!
# Schemes

A scheme is an ASCII letter followed by letters, digits and `+`, `-`, `.`; it is written
with small letters. The special schemes have a host, read `\` as `/` in their paths, and
all but `file` have a default port.
-/
namespace DeepLink.Url

/-- How the text after a scheme is read. -/
inductive SchemeKind where
  | file
  | special
  | general
  deriving DecidableEq, Repr

/-- A scheme with small letters. -/
structure Scheme where
  text : Text
  undelimited : Undelimited text

namespace Scheme

/-- The special schemes other than `file`, with their default ports. -/
def defaultPorts : List (Text × Nat) :=
  [("http".toList, 80), ("https".toList, 443), ("ws".toList, 80), ("wss".toList, 443),
    ("ftp".toList, 21)]

/-- The port that is not written for this scheme. -/
def defaultPort? (scheme : Scheme) : Option Nat := defaultPorts.lookup scheme.text

def kind (scheme : Scheme) : SchemeKind :=
  if scheme.text = "file".toList then .file
  else if scheme.defaultPort?.isSome then .special
  else .general

theorem undelimited_of_isSchemeChar {text : Text} (valid : text.all isSchemeChar = true) :
    Undelimited text.toLower := by
  intro c member
  obtain ⟨source, inText, rfl⟩ := List.mem_map.mp member
  have schemeChar := List.all_eq_true.mp valid source inText
  refine Bool.eq_false_iff.mpr fun delimiter => ?_
  rcases isDelimiter_iff.mp (isDelimiter_of_toLower delimiter) with rfl | rfl | rfl <;>
    exact absurd schemeChar (by decide)

/-- Read a scheme and its colon; the rest follows. -/
def read? (text : Text) : Option (Scheme × Text) := do
  let (source, rest) ← text.cut? ':'
  let name := unbroken source
  let first ← name.head?
  if valid : name.all isSchemeChar ∧ first.isAlpha then
    return (⟨name.toLower, undelimited_of_isSchemeChar valid.1⟩, rest)
  else none

end Scheme
end DeepLink.Url
