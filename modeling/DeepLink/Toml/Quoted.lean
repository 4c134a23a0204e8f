import DeepLink.Numeral

/-!
# TOML strings

Strings stand between quotes, which interpret escapes, or between apostrophes, which do
not; three of either make a string of several lines. `string?` reads a string at the start
of a text, and `plainString?` only one of a single line, as a key may be.

In a string of several lines a line break right after the opening is dropped, a line break
is a line feed, and a backslash at the end of a line drops the white space up to the next
character. Up to two quotes may stand right before the closing three.
-/
namespace DeepLink.Toml

/-- The mark of strings without escapes. -/
def apostrophe : Char := Char.ofNat 0x27

/-- The characters that may stand as they are in comments and strings: tab, printable
ASCII and everything outside ASCII. -/
def isPrintable (c : Char) : Bool := c == '\t' || (0x20 ≤ c.toNat && c.toNat ≠ 0x7F)

def isBlank (c : Char) : Bool := c == ' ' || c == '\t'

/-- The rest after a line feed, or after a carriage return and a line feed. -/
def newline? : Text → Option Text
  | '\n' :: rest => some rest
  | '\r' :: '\n' :: rest => some rest
  | _ => none

/-- The character of an escape with one letter. -/
def letterEscape? : Char → Option Char
  | 'b' => some (Char.ofNat 0x08)
  | 't' => some '\t'
  | 'n' => some '\n'
  | 'f' => some (Char.ofNat 0x0C)
  | 'r' => some '\r'
  | '"' => some '"'
  | '\\' => some '\\'
  | _ => none

/-- The character with the given hexadecimal number. -/
def numberEscape? (digits : Text) : Option Char := do
  let value ← Numeral.read? 16 digits
  if value.isValidChar then return Char.ofNat value else none

/-- A character before what has been read after it. -/
def prepend (c : Char) (read : Option (Text × Text)) : Option (Text × Text) :=
  read.map fun (content, rest) => (c :: content, rest)

/-- What a run of marks in a string of several lines means: fewer than three stand for
themselves, else three close the string and up to two before them belong to it. -/
def closing? (mark : Char) (text : Text) : Option (Text × Text) :=
  let run := (text.takeWhile (· == mark)).length
  if run < 3 then none
  else some (List.replicate (min (run - 3) 2) mark, text.drop (min run 5))

/-- Whether only blanks stand before the end of the line. -/
def endsLine (text : Text) : Bool := (newline? (text.dropWhile isBlank)).isSome

/-- The content of a string between quotes, after its opening. `lines` tells a string of
several lines, `skipping` whether white space is being dropped after a backslash. -/
def quotedBody? (lines skipping : Bool) : Text → Option (Text × Text)
  | [] => none
  | '\\' :: 'u' :: a :: b :: c :: d :: rest => do
    prepend (← numberEscape? [a, b, c, d]) (quotedBody? lines false rest)
  | '\\' :: 'U' :: a :: b :: c :: d :: e :: f :: g :: h :: rest => do
    prepend (← numberEscape? [a, b, c, d, e, f, g, h]) (quotedBody? lines false rest)
  | '\\' :: next :: rest =>
    if lines && endsLine (next :: rest) then quotedBody? lines true rest
    else do prepend (← letterEscape? next) (quotedBody? lines false rest)
  | '\r' :: '\n' :: rest =>
    if !lines then none
    else if skipping then quotedBody? lines true rest
    else prepend '\n' (quotedBody? lines false rest)
  | c :: rest =>
    if c = '"' then
      if !lines then some ([], rest)
      else (closing? '"' (c :: rest)).orElse fun _ => prepend c (quotedBody? lines false rest)
    else if lines && skipping && (isBlank c || c == '\n') then quotedBody? lines true rest
    else if (lines && c == '\n') || (isPrintable c && c != '\\') then
      prepend c (quotedBody? lines false rest)
    else none

/-- The content of a string between apostrophes, after its opening. -/
def literalBody? (lines : Bool) : Text → Option (Text × Text)
  | [] => none
  | '\r' :: '\n' :: rest => if lines then prepend '\n' (literalBody? lines rest) else none
  | c :: rest =>
    if c = apostrophe then
      if !lines then some ([], rest)
      else (closing? apostrophe (c :: rest)).orElse fun _ => prepend c (literalBody? lines rest)
    else if (lines && c == '\n') || isPrintable c then prepend c (literalBody? lines rest)
    else none

def plainString? : Text → Option (Text × Text)
  | c :: rest =>
    if c = '"' then quotedBody? false false rest
    else if c = apostrophe then literalBody? false rest
    else none
  | [] => none

def string? (text : Text) : Option (Text × Text) :=
  let body := (newline? (text.drop 3)).getD (text.drop 3)
  if (List.replicate 3 '"').isPrefixOf text then quotedBody? true false body
  else if (List.replicate 3 apostrophe).isPrefixOf text then literalBody? true body
  else plainString? text

end DeepLink.Toml
