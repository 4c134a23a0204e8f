import DeepLink.Toml.Scalar

/-!
# TOML documents

`parse?` reads the statements of a document and carries them out. Keys are bare words or
strings between dots; arrays may go over several lines and end in a comma, tables in braces
may not. Arrays and tables in braces lie at most `maxDepth` deep in each other, and a dotted
key has at most `maxKeys` keys.

A sequence goes on only where the rest is shorter than what it was read from. That is so
after every key, item, pair and statement; the test is there to let the recursion end.
-/
namespace DeepLink.Toml

/-- The greatest depth of arrays and tables in braces. -/
def maxDepth : Nat := 79

/-- The greatest number of keys between dots. -/
def maxKeys : Nat := 79

/-! ### White space and comments -/

/-- The text without blanks at its start. -/
def skipBlanks (text : Text) : Text := text.dropWhile isBlank

/-- The text without blanks, line breaks and comments at its start. -/
def skipLines (inComment : Bool) : Text → Text
  | [] => []
  | c :: rest =>
    if c = '\n' then skipLines false rest
    else if c = '\r' ∧ rest.head? = some '\n' then skipLines inComment rest
    -- A control character may not stand in a comment; nothing reads it after this.
    else if inComment then if isPrintable c then skipLines true rest else c :: rest
    else if isBlank c then skipLines false rest
    else if c = '#' then skipLines true rest
    else c :: rest

/-- The rest after the end of a line, with blanks and a comment before it. -/
def endLine? (text : Text) : Option Text :=
  let text := skipBlanks text
  let text := if text.head? = some '#' then text.dropWhile isPrintable else text
  if text = [] then some [] else newline? text

/-! ### Keys -/

/-- The characters of bare keys. -/
def isBareKeyChar (c : Char) : Bool := c.isAlphanum || c == '_' || c == '-'

def key? (text : Text) : Option (Text × Text) :=
  let (word, rest) := text.span isBareKeyChar
  if word ≠ [] then some (word, rest) else plainString? text

/-- Keys between dots, with blanks around them. -/
def keys? (text : Text) : Option (List Text × Text) := do
  let (key, rest) ← key? (skipBlanks text)
  match skipBlanks rest with
  | '.' :: more =>
    if more.length < text.length then
      let (keys, rest) ← keys? more
      return (key :: keys, rest)
    else none
  | rest => return ([key], rest)
  termination_by text.length

def keyPath? (text : Text) : Option (KeyPath × Text) := do
  let (keys, rest) ← keys? text
  let last ← keys.getLast?
  if keys.length ≤ maxKeys then return (⟨keys.dropLast, last⟩, rest) else none

/-! ### Values

The readers of arrays and tables take the reader of the values inside them, so that the
depth of a value is the only thing `value?` recurs on. -/

/-- The items of an array, up to its end. -/
def items? (value? : Text → Option (Value × Text)) (text : Text) :
    Option (List Value × Text) := do
  match skipLines false text with
  | ']' :: rest => return ([], rest)
  | start =>
    let (item, rest) ← value? start
    match skipLines false rest with
    | ']' :: rest => return ([item], rest)
    | ',' :: rest =>
      if rest.length < text.length then
        let (items, rest) ← items? value? rest
        return (item :: items, rest)
      else none
    | _ => none
  termination_by text.length

def pair? (value? : Text → Option (Value × Text)) (text : Text) :
    Option ((KeyPath × Value) × Text) := do
  let (path, rest) ← keyPath? text
  let (value, rest) ← value? (skipBlanks (← expect? '=' rest))
  return ((path, value), rest)

/-- The pairs of a table in braces that has some, up to its end. -/
def pairs? (value? : Text → Option (Value × Text)) (text : Text) :
    Option (List (KeyPath × Value) × Text) := do
  let (pair, rest) ← pair? value? text
  match skipBlanks rest with
  | '}' :: rest => return ([pair], rest)
  | ',' :: rest =>
    if rest.length < text.length then
      let (pairs, rest) ← pairs? value? rest
      return (pair :: pairs, rest)
    else none
  | _ => none
  termination_by text.length

/-- A table in braces, after its opening. -/
def braces? (value? : Text → Option (Value × Text)) (text : Text) : Option (Value × Text) := do
  match skipBlanks text with
  | '}' :: rest => return (.table .braces [], rest)
  | _ =>
    let (pairs, rest) ← pairs? value? text
    return ((← Table.ofPairs? pairs).toValue, rest)

/-- A value in which arrays and tables in braces lie at most `depth` deep. -/
def value? (depth : Nat) (text : Text) : Option (Value × Text) :=
  match depth, text with
  | depth + 1, '[' :: rest =>
    (items? (value? depth) rest).map fun (items, rest) => (.array items, rest)
  | depth + 1, '\x7b' :: rest => braces? (value? depth) rest
  | _, text =>
    match text.head? with
    | some c =>
      if c = '"' ∨ c = apostrophe then
        (string? text).map fun (content, rest) => (.string content, rest)
      else scalar? text
    | none => none

/-! ### Statements -/

/-- One statement and the line that it ends. -/
def statement? (text : Text) : Option (Statement × Text) := do
  match text with
  | '[' :: '[' :: rest =>
    let (path, rest) ← keyPath? rest
    return (.openElement path, ← endLine? (← expect? ']' (← expect? ']' rest)))
  | '[' :: rest =>
    let (path, rest) ← keyPath? rest
    return (.openTable path, ← endLine? (← expect? ']' rest))
  | _ =>
    let ((path, value), rest) ← pair? (value? maxDepth) text
    return (.assign path value, ← endLine? rest)

def statements? (text : Text) : Option (List Statement) := do
  match skipLines false text with
  | [] => return []
  | start =>
    let (statement, rest) ← statement? start
    if rest.length < text.length then return statement :: (← statements? rest) else none
  termination_by text.length

/-- The entries of a document, which may start with a byte order mark. -/
def parse? (text : Text) : Option Entries := do
  let text := if text.head? = some (Char.ofNat 0xFEFF) then text.drop 1 else text
  Document.ofStatements? (← statements? text)

end DeepLink.Toml
