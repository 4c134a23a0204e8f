import DeepLink.Text.Order

/-!
# Bindings

A finite map from names to texts: the parameters of a route, or the values of a query.
The entries are kept in ascending order of their names, so a map has one representation,
and its list of entries is the order in which it is printed.

`insert` replaces an earlier value of the same name; `ofPairs` inserts in order, so the
last pair of a name wins.
-/
namespace DeepLink

/-- Whether the names of entries ascend, so that none occurs twice. -/
def Ascending (entries : List (Text × Text)) : Prop :=
  entries.Pairwise fun left right => left.1.precedes right.1 = true

/-- A finite map from names to texts, listed in ascending order of names. -/
structure Bindings where
  entries : List (Text × Text)
  ascending : Ascending entries
  deriving DecidableEq

namespace Bindings

def empty : Bindings := ⟨[], .nil⟩

instance : Inhabited Bindings := ⟨empty⟩

def get? (bindings : Bindings) (name : Text) : Option Text :=
  bindings.entries.lookup name

def names (bindings : Bindings) : List Text := bindings.entries.map Prod.fst

/-! ### Inserting -/

/-- Put an entry at its place, over an entry of the same name. -/
def insertEntry (name value : Text) : List (Text × Text) → List (Text × Text)
  | [] => [(name, value)]
  | (other, held) :: rest =>
    if name.precedes other then (name, value) :: (other, held) :: rest
    else if name = other then (name, value) :: rest
    else (other, held) :: insertEntry name value rest

/-- Inserting brings in no entry but the one inserted. -/
theorem mem_insertEntry {name value : Text} {entry : Text × Text} {entries : List (Text × Text)}
    (member : entry ∈ insertEntry name value entries) :
    entry = (name, value) ∨ entry ∈ entries := by
  induction entries with
  | nil => simpa [insertEntry] using member
  | cons head rest ih =>
    simp only [insertEntry] at member
    split at member
    · simpa using member
    · split at member <;> grind

theorem ascending_insertEntry (name value : Text) {entries : List (Text × Text)}
    (ascending : Ascending entries) : Ascending (insertEntry name value entries) := by
  induction entries with
  | nil => simp [insertEntry, Ascending]
  | cons head rest ih =>
    obtain ⟨below, tail⟩ := List.pairwise_cons.mp ascending
    simp only [insertEntry]
    split
    next first =>
      -- The new name comes before the first one, hence before all.
      refine List.pairwise_cons.mpr ⟨fun entry member => ?_, ascending⟩
      rcases List.mem_cons.mp member with rfl | later
      · exact first
      · exact Text.precedes_trans first (below entry later)
    next notFirst =>
      split
      next same =>
        exact List.pairwise_cons.mpr ⟨fun entry member => same ▸ below entry member, tail⟩
      next different =>
        have after : head.1.precedes name = true :=
          (Text.precedes_total different).resolve_left notFirst
        refine List.pairwise_cons.mpr ⟨fun entry member => ?_, ih tail⟩
        rcases mem_insertEntry member with rfl | later
        · exact after
        · exact below entry later

/-- The map that binds `name` to `value` and every other name as before. -/
def insert (bindings : Bindings) (name value : Text) : Bindings :=
  ⟨insertEntry name value bindings.entries, ascending_insertEntry name value bindings.ascending⟩

/-- Bind the pairs in order, so that the last value of a name is kept. -/
def ofPairs (pairs : List (Text × Text)) : Bindings :=
  pairs.foldl (fun bindings pair => bindings.insert pair.1 pair.2) empty

end Bindings
end DeepLink
