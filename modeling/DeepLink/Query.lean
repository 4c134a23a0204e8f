import DeepLink.Bindings
import DeepLink.Percent

/-!
# Queries

A query is written as items `name=value` or `name`, joined with `&`; names and values are
percent-coded. Reading skips empty pieces and cuts each other piece at its first `=`.
A name or value whose escapes are not UTF-8 is read as the empty text. A plus sign stands
for itself.
-/
namespace DeepLink

/-- One item of a query. The value is absent where the item has no `=`. -/
structure QueryItem where
  name : Text
  value : Option Text
  deriving DecidableEq, Repr

namespace Query

/-- A percent-coded name or value; empty where it is not UTF-8. -/
def decodeComponent (text : Text) : Text := (Percent.decode? text).getD []

/-- The characters written as they are: ASCII letters, digits and `-_.~`. -/
def isUnreserved (c : Char) : Bool := c.isAlphanum || ['-', '_', '.', '~'].contains c

def encodeComponent (text : Text) : Text := Percent.encode isUnreserved text

/-- One piece between `&` signs. -/
def readItem (piece : Text) : QueryItem :=
  match piece.cut? '=' with
  | some (name, value) => ⟨decodeComponent name, some (decodeComponent value)⟩
  | none => ⟨decodeComponent piece, none⟩

def items (query : Text) : List QueryItem := (query.fields '&').map readItem

/-- The values of a query by name. The last item of a name counts; an absent value is empty. -/
def values (query : Text) : Bindings :=
  .ofPairs ((items query).map fun item => (item.name, item.value.getD []))

def writeItem (item : QueryItem) : Text :=
  match item.value with
  | some value => encodeComponent item.name ++ '=' :: encodeComponent value
  | none => encodeComponent item.name

def encode (items : List QueryItem) : Text := Text.joinWith '&' (items.map writeItem)

/-- The query text of a list of names and values. -/
def encodePairs (pairs : List (Text × Text)) : Text :=
  encode (pairs.map fun pair => ⟨pair.1, some pair.2⟩)

/-- The items in ascending order of their names; items of one name keep their order. -/
def sorted (items : List QueryItem) : List QueryItem :=
  items.mergeSort fun left right => !right.name.precedes left.name

end Query
end DeepLink
