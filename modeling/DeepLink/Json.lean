import DeepLink.Numeral

/-!
# JSON output

Texts, lists and objects as JSON, each item and member on a line of its own, indented by
two spaces for each level. Characters outside ASCII are written as they are.
-/
namespace DeepLink

inductive Json where
  | text (content : Text)
  | list (items : List Json)
  | object (members : List (Text × Json))

namespace Json

/-- A character inside quotes. -/
def escape (c : Char) : Text :=
  match c with
  | '"' => "\\\"".toList
  | '\\' => "\\\\".toList
  | '\n' => "\\n".toList
  | '\r' => "\\r".toList
  | '\t' => "\\t".toList
  | c =>
    if c.toNat = 0x08 then "\\b".toList
    else if c.toNat = 0x0C then "\\f".toList
    -- The other control characters have no letter.
    else if c.toNat < 0x20 then
      "\\u00".toList ++ [Numeral.smallDigit (c.toNat / 16), Numeral.smallDigit (c.toNat % 16)]
    else [c]

def quote (content : Text) : Text := '"' :: content.flatMap escape ++ ['"']

/-- A line break and the indentation of a level. -/
def newline (level : Nat) : Text := '\n' :: List.replicate (2 * level) ' '

/-- What stands between brackets, one entry per line. -/
def block (opening closing : Char) (level : Nat) (entries : List Text) : Text :=
  if entries = [] then [opening, closing]
  else
    opening :: Text.joinWith ',' (entries.map (newline (level + 1) ++ ·)) ++ newline level
      ++ [closing]

mutual

/-- A value at a level of indentation. -/
def render (level : Nat) : Json → Text
  | .text content => quote content
  | .list items => block '[' ']' level (renderItems (level + 1) items)
  | .object members => block '{' '}' level (renderMembers (level + 1) members)

def renderItems (level : Nat) : List Json → List Text
  | [] => []
  | item :: rest => render level item :: renderItems level rest

def renderMembers (level : Nat) : List (Text × Json) → List Text
  | [] => []
  | (name, value) :: rest =>
    (quote name ++ ": ".toList ++ render level value) :: renderMembers level rest

end

end Json
end DeepLink
