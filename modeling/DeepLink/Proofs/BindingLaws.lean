import DeepLink.Bindings
import Mathlib.Data.List.Nodup

/-!
# Laws of bindings

A map is known by the values of its names (`Bindings.ext_get?`), and making one from pairs
keeps the last value of each name (`get?_ofPairs`). When the names of the pairs are
distinct, the map holds exactly the pairs (`get?_ofPairs_eq_some_iff`). Pairs that are taken
from a map make its restriction to their names, repeated or not (`ofPairs_eq_restrict`).
-/
namespace DeepLink.Bindings

/-! ### Entries -/

theorem ne_of_precedes {left right : Text} (before : left.precedes right = true) :
    left ≠ right := by
  rintro rfl
  simp [Text.precedes_irrefl] at before

theorem nodup_names (bindings : Bindings) : bindings.names.Nodup := by
  refine List.pairwise_map.mpr (bindings.ascending.imp ?_)
  exact ne_of_precedes

theorem lookup_cons_eq_ite (name first held : Text) (rest : List (Text × Text)) :
    ((first, held) :: rest).lookup name
      = if name = first then some held else rest.lookup name := by
  by_cases same : name = first
  · simp [same]
  · have unequal : (name == first) = false := beq_eq_false_iff_ne.mpr same
    simp [List.lookup_cons, unequal, same]

theorem mem_entries_iff {bindings : Bindings} {name value : Text} :
    (name, value) ∈ bindings.entries ↔ bindings.get? name = some value := by
  obtain ⟨entries, ascending⟩ := bindings
  simp only [get?]
  induction entries with
  | nil => simp
  | cons head rest ih =>
    obtain ⟨below, tail⟩ := List.pairwise_cons.mp ascending
    obtain ⟨other, held⟩ := head
    rw [List.mem_cons, lookup_cons_eq_ite]
    by_cases same : name = other
    · subst same
      -- The names ascend, so the name of the head is not bound again.
      have absent : (name, value) ∉ rest := fun member => ne_of_precedes (below _ member) rfl
      simp [absent, eq_comm]
    · simp [same, ih tail]

/-- Two maps with the same values are the same. -/
theorem ext_get? {left right : Bindings} (same : ∀ name, left.get? name = right.get? name) :
    left = right := by
  have members (entry : Text × Text) : entry ∈ left.entries ↔ entry ∈ right.entries := by
    obtain ⟨name, value⟩ := entry
    rw [mem_entries_iff, mem_entries_iff, same]
  have perm : left.entries.Perm right.entries :=
    (List.perm_ext_iff_of_nodup (.of_map _ left.nodup_names) (.of_map _ right.nodup_names)).mpr
      members
  -- Two ascending lists with the same members are the same list.
  have equal : left.entries = right.entries := by
    refine perm.eq_of_pairwise (fun first second _ _ forward backward => ?_)
      left.ascending right.ascending
    simp [Text.precedes_asymm forward] at backward
  cases left
  cases right
  simpa using equal

/-! ### Inserting -/

theorem get?_empty (name : Text) : empty.get? name = none := rfl

theorem lookup_insertEntry (name value other : Text) (entries : List (Text × Text)) :
    (insertEntry name value entries).lookup other
      = if other = name then some value else entries.lookup other := by
  induction entries with
  | nil => simp [insertEntry]
  | cons head rest ih =>
    obtain ⟨first, held⟩ := head
    simp only [insertEntry]
    split
    · simp [lookup_cons_eq_ite]
    · split
      next same =>
        subst same
        by_cases equal : other = name <;> simp [lookup_cons_eq_ite, equal]
      next different =>
        rw [lookup_cons_eq_ite, lookup_cons_eq_ite, ih]
        by_cases equal : other = first
        · simp [equal, Ne.symm different]
        · simp [equal]

theorem get?_insert (bindings : Bindings) (name value other : Text) :
    (bindings.insert name value).get? other
      = if other = name then some value else bindings.get? other :=
  lookup_insertEntry name value other bindings.entries

/-! ### Pairs -/

theorem get?_foldl_insert (pairs : List (Text × Text)) (bindings : Bindings) (name : Text) :
    (pairs.foldl (fun bindings pair => bindings.insert pair.1 pair.2) bindings).get? name
      = (pairs.reverse.lookup name).or (bindings.get? name) := by
  induction pairs generalizing bindings with
  | nil => rfl
  | cons pair rest ih =>
    -- What is inserted later is found first, hence the reversed list.
    rw [List.foldl_cons, ih, get?_insert, List.reverse_cons, List.lookup_append, Option.or_assoc]
    rw [lookup_cons_eq_ite name pair.1 pair.2 []]
    by_cases same : name = pair.1 <;> simp [same]

/-- The last value of a name counts. -/
theorem get?_ofPairs (pairs : List (Text × Text)) (name : Text) :
    (ofPairs pairs).get? name = pairs.reverse.lookup name := by
  simp [ofPairs, get?_foldl_insert, get?_empty]

/-- Pairs that come later replace the earlier ones. -/
theorem get?_ofPairs_append (first last : List (Text × Text)) (name : Text) :
    (ofPairs (first ++ last)).get? name
      = ((ofPairs last).get? name).or ((ofPairs first).get? name) := by
  simp only [get?_ofPairs, List.reverse_append, List.lookup_append]

theorem mem_of_get?_ofPairs {pairs : List (Text × Text)} {name value : Text}
    (bound : (ofPairs pairs).get? name = some value) : (name, value) ∈ pairs := by
  rw [get?_ofPairs, List.lookup_eq_some_iff] at bound
  obtain ⟨before, after, split, -⟩ := bound
  rw [← List.mem_reverse, split]
  simp

theorem isSome_get?_ofPairs {pairs : List (Text × Text)} {name : Text} :
    ((ofPairs pairs).get? name).isSome ↔ name ∈ pairs.map Prod.fst := by
  rw [get?_ofPairs, List.lookup_isSome_iff, List.mem_map]
  simp only [List.mem_reverse, beq_iff_eq, eq_comm (a := name)]

/-- With distinct names, the bindings are the pairs. -/
theorem get?_ofPairs_eq_some_iff {pairs : List (Text × Text)} {name value : Text}
    (distinct : (pairs.map Prod.fst).Nodup) :
    (ofPairs pairs).get? name = some value ↔ (name, value) ∈ pairs := by
  refine ⟨mem_of_get?_ofPairs, fun member => ?_⟩
  -- The name is bound to a value of the pairs, and it has only one there.
  have bound : ((ofPairs pairs).get? name).isSome :=
    isSome_get?_ofPairs.mpr (List.mem_map_of_mem member)
  obtain ⟨held, found⟩ := Option.isSome_iff_exists.mp bound
  have other := mem_of_get?_ofPairs found
  have same := List.inj_on_of_nodup_map distinct member other rfl
  rw [found, (Prod.mk.inj same).2]

/-- The entries of a map in any order make the map again. -/
theorem get?_ofPairs_of_perm {pairs : List (Text × Text)} {bindings : Bindings}
    (same : pairs.Perm bindings.entries) (name : Text) :
    (ofPairs pairs).get? name = bindings.get? name := by
  have distinct : (pairs.map Prod.fst).Nodup :=
    (same.map Prod.fst).nodup_iff.mpr bindings.nodup_names
  refine Option.ext fun value => ?_
  rw [get?_ofPairs_eq_some_iff distinct, same.mem_iff, mem_entries_iff]

/-! ### Restriction -/

/-- The bindings of the given names only. -/
def restrict (bindings : Bindings) (names : List Text) : Bindings :=
  ⟨bindings.entries.filter fun entry => names.contains entry.1, bindings.ascending.filter _⟩

theorem get?_restrict_eq_some_iff {bindings : Bindings} {names : List Text} {name value : Text} :
    (bindings.restrict names).get? name = some value ↔
      name ∈ names ∧ bindings.get? name = some value := by
  rw [← mem_entries_iff, restrict, List.mem_filter, mem_entries_iff, and_comm,
    List.contains_iff_mem]

/-- Repeated names do no harm to pairs that agree with a map. -/
theorem ofPairs_eq_restrict {pairs : List (Text × Text)} {bindings : Bindings}
    (agrees : ∀ pair ∈ pairs, bindings.get? pair.1 = some pair.2) :
    ofPairs pairs = bindings.restrict (pairs.map Prod.fst) := by
  refine ext_get? fun name => Option.ext fun value => ?_
  rw [get?_restrict_eq_some_iff]
  constructor
  · intro bound
    have member := mem_of_get?_ofPairs bound
    exact ⟨List.mem_map_of_mem member, agrees _ member⟩
  · rintro ⟨inside, found⟩
    obtain ⟨held, bound⟩ := Option.isSome_iff_exists.mp (isSome_get?_ofPairs.mpr inside)
    rw [bound, ← agrees _ (mem_of_get?_ofPairs bound), found]

end DeepLink.Bindings
