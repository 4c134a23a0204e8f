import DeepLink.Percent
import DeepLink.Url.CharClass

/-!
# Segments of URL paths

The segments of a path are read from left to right. `.` adds nothing and `..` drops the
segment before it, where a segment that starts with a drive letter (`C:` or `C|`, alone or
before a backslash) is never dropped.

The path of a `file` URL may start with a drive letter. If it is the whole first segment,
it is written with a colon. A drive letter with a colon is also a segment of its own where
a tab or a line break follows it; the rest of that segment is then taken as it is.

A segment holds no `?` and no `#`: `PathSegment` carries this as its field `clean`.
-/
namespace DeepLink.Url

/-- A text without `?` and `#`, which end a path. -/
def Clean (text : Text) : Prop := ∀ c ∈ text, c ≠ '?' ∧ c ≠ '#'

theorem clean_nil : Clean [] := fun _ member => absurd member List.not_mem_nil

/-- A segment of a path as it is written, and whether a tab or a line break followed its
second character where it was read. -/
structure PathSegment where
  text : Text
  clean : Clean text
  broken : Bool

namespace PathSegment

/-! ### Reading one segment -/

theorem clean_encode {keep : Char → Bool} (question : keep '?' = false) (hash : keep '#' = false)
    (text : Text) : Clean (Percent.encode keep text) := by
  intro c member
  rcases Percent.mem_encode member with rfl | digit | ⟨kept, _⟩
  · decide
  · have plain : (Numeral.capitalDigits.all fun d => d != '?' && d != '#') = true := by decide
    simpa using List.all_eq_true.mp plain c digit
  · constructor <;> rintro rfl <;> simp_all

/-- Whether a tab or a line break follows so many other characters. -/
def breaksAfter : Nat → Text → Bool
  | _, [] => false
  | 0, c :: _ => isTabOrNewline c
  | count + 1, c :: rest =>
    if isTabOrNewline c then breaksAfter (count + 1) rest else breaksAfter count rest

/-- Read a segment from the text between two separators. -/
def read (source : Text) : PathSegment where
  text := Percent.encode keptInPath (unbroken source)
  clean := clean_encode (by decide) (by decide) (unbroken source)
  broken := breaksAfter 2 source

def empty : PathSegment := ⟨[], clean_nil, false⟩

/-- A drive letter with its colon. -/
def ofDrive (letter : Char) (alpha : letter.isAlpha = true) : PathSegment where
  text := [letter, ':']
  clean := by
    intro c member
    rcases List.mem_cons.mp member with rfl | colon
    · constructor <;> rintro rfl <;> exact absurd alpha (by decide)
    · rw [List.mem_singleton.mp colon]
      decide
  broken := false

/-! ### Kinds of segments -/

/-- Whether a segment is `..`, where a dot may be written as an escape. -/
def isDoubleDot (segment : PathSegment) : Bool :=
  ["..".toList, ".%2e".toList, "%2e.".toList, "%2e%2e".toList].contains segment.text.toLower

/-- Whether a segment is `.`, which may be written as an escape. -/
def isSingleDot (segment : PathSegment) : Bool :=
  [".".toList, "%2e".toList].contains segment.text.toLower

/-- Whether a text is a letter with a colon or a vertical bar. -/
def isDriveLetter (text : Text) : Bool :=
  match text with
  | [letter, mark] => letter.isAlpha && (mark == ':' || mark == '|')
  | _ => false

/-- What a `..` leaves of the segments before it, innermost first. -/
def parent : List PathSegment → List PathSegment
  | [] => []
  | segment :: outer =>
    if isDriveLetter (segment.text.before '\\') then segment :: outer else outer

end PathSegment

/-! ### Reading all segments -/

/-- The segments read so far, innermost first, and whether the first one of a `file` URL is
a drive letter and nothing else. -/
structure Trail where
  segments : List PathSegment
  drive : Bool

namespace Trail

/-- The trail of the first segment of a `file` URL. -/
def start (segment : PathSegment) : Trail :=
  match segment with
  | ⟨[letter, mark], _, _⟩ =>
    if drive : letter.isAlpha = true ∧ (mark = ':' ∨ mark = '|') then
      ⟨[.ofDrive letter drive.1], true⟩
    else ⟨[segment], false⟩
  | ⟨letter :: ':' :: c :: rest, clean, true⟩ =>
    if alpha : letter.isAlpha = true then
      let after : PathSegment :=
        ⟨c :: rest, fun d member => clean d (.tail _ (.tail _ member)), false⟩
      ⟨[after, .ofDrive letter alpha], false⟩
    else ⟨[segment], false⟩
  | _ => ⟨[segment], false⟩

def step (file : Bool) (trail : Trail) (segment : PathSegment) : Trail :=
  if segment.isDoubleDot then { trail with segments := PathSegment.parent trail.segments }
  else if segment.isSingleDot then trail
  else if file ∧ trail.segments.isEmpty then start segment
  else { trail with segments := segment :: trail.segments }

/-- The segments with an empty one at the end if they end in a dot segment, since a path
goes on with a slash after it. -/
def closed (segments : List PathSegment) : List PathSegment :=
  if segments.getLast?.any fun last => last.isDoubleDot || last.isSingleDot then
    segments ++ [.empty]
  else segments

/-- Whether a character ends a segment: a slash and, in special URLs, a backslash. -/
def isSeparator (special : Bool) (c : Char) : Bool := c == '/' || (special && c == '\\')

/-- The trail of a text that follows the first slash of a path. -/
def read (special file : Bool) (text : Text) : Trail :=
  let segments := (text.splitOnP (isSeparator special)).map PathSegment.read
  (closed segments).foldl (step file) ⟨[], false⟩

/-- The segments, each after a slash. -/
def write (trail : Trail) : Text :=
  '/' :: Text.joinWith '/' (trail.segments.reverse.map (·.text))

theorem clean_write (trail : Trail) : Clean trail.write := by
  intro c member
  rcases List.mem_cons.mp member with rfl | inside
  · decide
  · rcases Text.mem_joinWith inside with rfl | ⟨piece, among, inPiece⟩
    · decide
    · obtain ⟨segment, _, rfl⟩ := List.mem_map.mp among
      exact segment.clean c inPiece

end Trail
end DeepLink.Url
