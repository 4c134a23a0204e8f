import DeepLink.Text

/-!
# Character classes of URLs

Which characters separate the components of a URL, which may stand in a host, and which
are kept when a component is percent-coded. Every character outside ASCII and every
control character is escaped in all components, so the kept sets are sets of printable
ASCII characters; those of fragment, path and user information get smaller in this order.

A host and a scheme hold no delimiter (`Undelimited`), so what follows them in a written
URL can be told apart from them.
-/
namespace DeepLink.Url

/-! ### Structure -/

/-- The characters that end a host: `/`, `?` and `#`. -/
def isDelimiter (c : Char) : Bool := ['/', '?', '#'].contains c

/-- A text that a delimiter ends. -/
def Undelimited (text : Text) : Prop := ∀ c ∈ text, isDelimiter c = false

/-- Tab, line feed and carriage return, which are ignored wherever they occur. -/
def isTabOrNewline (c : Char) : Bool := ['\t', '\n', '\r'].contains c

/-- The text without the characters that are ignored. -/
def unbroken (text : Text) : Text := text.filter (!isTabOrNewline ·)

/-- The control characters and the space, which are dropped at both ends of a URL. -/
def isControlOrSpace (c : Char) : Bool := c.toNat ≤ 0x20

/-- The characters of a scheme after its first letter. -/
def isSchemeChar (c : Char) : Bool := c.isAlphanum || ['+', '-', '.'].contains c

/-! ### Kept characters -/

/-- Printable ASCII and the space. -/
def isControlFree (c : Char) : Bool := 0x20 ≤ c.toNat && c.toNat < 0x7F

/-- The mark that quotes code in prose. -/
def backtick : Char := Char.ofNat 0x60

def keptInFragment (c : Char) : Bool :=
  isControlFree c && !([' ', '"', '<', '>', backtick].contains c)

def keptInQuery (c : Char) : Bool :=
  isControlFree c && !([' ', '"', '#', '<', '>'].contains c)

def keptInSpecialQuery (c : Char) : Bool := keptInQuery c && c != Char.ofNat 0x27

def keptInPath (c : Char) : Bool :=
  keptInFragment c && !(['#', '?', '{', '}'].contains c)

def keptInUserInfo (c : Char) : Bool :=
  keptInPath c && !(['/', ':', ';', '=', '@', '[', '\\', ']', '^', '|'].contains c)

/-! ### Refused characters -/

/-- Refused in the host of a URL without a special scheme. -/
def isForbiddenInHost (c : Char) : Bool :=
  c.toNat = 0 || [' ', '#', '/', ':', '<', '>', '?', '@', '[', '\\', ']', '^', '|'].contains c
    || isTabOrNewline c

/-- Refused in a domain: also the control characters and the percent sign. -/
def isForbiddenInDomain (c : Char) : Bool :=
  isForbiddenInHost c || c.toNat < 0x20 || c == '%' || c.toNat = 0x7F

/-! ### Delimiters -/

/-- Only a small letter is the small form of another character. -/
theorem eq_of_toLower_eq {c d : Char} (other : d.isLower = false) (lowered : c.toLower = d) :
    c = d := by
  unfold Char.toLower at lowered
  split at lowered
  next upper =>
    have sum : c.val + 32 = d.val := congrArg Char.val lowered
    have least : 65 ≤ c.val.toNat := UInt32.le_iff_toNat_le.mp upper.1
    have most : c.val.toNat ≤ 90 := UInt32.le_iff_toNat_le.mp upper.2
    have value : (c.val.toNat + 32) % 4294967296 = d.val.toNat := congrArg UInt32.toNat sum
    have bounds : (decide (97 ≤ d.val) && decide (d.val ≤ 122)) = false := other
    have outside : 97 ≤ d.val.toNat → 122 < d.val.toNat := by
      simpa [UInt32.le_iff_toNat_le] using bounds
    omega
  next => exact lowered

theorem isDelimiter_iff {c : Char} : isDelimiter c = true ↔ c = '/' ∨ c = '?' ∨ c = '#' := by
  simp [isDelimiter]

/-- A character whose small form is a delimiter is that delimiter. -/
theorem isDelimiter_of_toLower {c : Char} (delimiter : isDelimiter c.toLower = true) :
    isDelimiter c = true := by
  rw [isDelimiter_iff] at *
  exact delimiter.imp (eq_of_toLower_eq (by decide))
    (.imp (eq_of_toLower_eq (by decide)) (eq_of_toLower_eq (by decide)))

end DeepLink.Url
