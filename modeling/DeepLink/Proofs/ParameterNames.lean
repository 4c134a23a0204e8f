import DeepLink.Proofs.TableLaws
import Mathlib

/-!
# Parameters under two names

A parameter that comes from the query has two names: the key that the template binds, and the name
that the pattern declares. Between them values are moved along columns, and the same columns lead
back (`Bindings.move?_swap`), because the keys are distinct and the declared names are so too. It
does not matter whether a key is also a declared name of another parameter: values are read from
one map and bound in another.

So reading a route from bindings and giving the bindings of a route are inverse to each other, on
the bindings of exactly the bound names and the routes with exactly the declared parameters
(`NamedPattern.encode?_decode?_inverse`).
-/
namespace DeepLink

namespace Bindings

variable {bindings source : Bindings} {names : List Text} {columns : List (Text × Text)}

/-- The names that are bound are exactly the given ones. -/
def Binds (bindings : Bindings) (names : List Text) : Prop :=
  bindings.names ⊆ names ∧ names ⊆ bindings.names

instance : Decidable (bindings.Binds names) := inferInstanceAs (Decidable (_ ∧ _))

theorem mem_names_iff {name : Text} : name ∈ bindings.names ↔ (bindings.get? name).isSome := by
  rw [names, List.mem_map, Option.isSome_iff_exists]
  constructor
  · rintro ⟨⟨_, value⟩, member, rfl⟩
    exact ⟨value, mem_entries_iff.mp member⟩
  · rintro ⟨value, found⟩
    exact ⟨(name, value), mem_entries_iff.mpr found, rfl⟩

theorem binds_iff : bindings.Binds names ↔
    (∀ name, (bindings.get? name).isSome → name ∈ names) ∧
      ∀ name ∈ names, (bindings.get? name).isSome := by
  simp only [← mem_names_iff]
  rfl

/-- Values that are moved along columns are moved back along the same columns, if neither the first
names nor the second names are repeated. -/
theorem move?_swap (sources : (columns.map Prod.fst).Nodup) (targets : (columns.map Prod.snd).Nodup)
    (bound : source.Binds (columns.map Prod.fst)) :
    ∃ target, source.move? columns = some target ∧ target.Binds (columns.map Prod.snd) ∧
      target.move? (columns.map Prod.swap) = some source := by
  obtain ⟨foreign, all⟩ := binds_iff.mp bound
  obtain ⟨target, moved⟩ := Option.isSome_iff_exists.mp
    (NamedPattern.isSome_move?_iff.mpr fun column member => all _ (List.mem_map_of_mem member))
  obtain ⟨copied, only⟩ := (move?_eq_some_iff targets).mp moved
  have swapped : (columns.map Prod.swap).map Prod.snd = columns.map Prod.fst := by simp
  refine ⟨target, moved, binds_iff.mpr ⟨only, List.forall_mem_map.mpr fun column member => ?_⟩, ?_⟩
  · obtain ⟨value, _, held⟩ := copied column member
    exact Option.isSome_iff_exists.mpr ⟨value, held⟩
  -- Each column was copied as it stands, so it is copied from right to left as well.
  · refine (move?_eq_some_iff (swapped ▸ sources)).mpr
      ⟨List.forall_mem_map.mpr fun column member => ?_, swapped ▸ foreign⟩
    obtain ⟨value, given, held⟩ := copied column member
    exact ⟨value, held, given⟩

end Bindings

namespace NamedPattern

variable {named : NamedPattern} {params : Bindings} {route : TableRoute}

/-- Bindings of exactly the bound names are read as a route with exactly the declared parameters,
and are the bindings of this route. -/
theorem exists_decode? (sound : named.pattern.Sound)
    (bound : params.Binds (named.pattern.pathNames ++ named.pattern.queryKeys)) :
    ∃ route, named.decode? params = some route ∧ route.name = named.name ∧
      route.params.Binds named.pattern.names ∧ named.encode? route = some params := by
  rw [← sources_columns] at bound
  obtain ⟨moved, forth, declared, back⟩ := Bindings.move?_swap
    (sources_columns ▸ sound.bound_nodup) (targets_columns ▸ sound.names_nodup) bound
  refine ⟨⟨named.name, moved⟩, ?_, rfl, targets_columns ▸ declared, ?_⟩
  · rw [decode?_eq, forth, Option.map_some]
  · rw [encode?_eq rfl, back]

/-- A route with exactly the declared parameters has bindings of exactly the bound names, and is
read from them. -/
theorem exists_encode? (sound : named.pattern.Sound) (same : route.name = named.name)
    (declared : route.params.Binds named.pattern.names) :
    ∃ params, named.encode? route = some params ∧
      params.Binds (named.pattern.pathNames ++ named.pattern.queryKeys) ∧
      named.decode? params = some route := by
  have firsts : (named.columns.map Prod.swap).map Prod.fst = named.pattern.names := by
    rw [← targets_columns]
    simp
  have seconds : (named.columns.map Prod.swap).map Prod.snd
      = named.pattern.pathNames ++ named.pattern.queryKeys := by
    rw [← sources_columns]
    simp
  obtain ⟨moved, forth, bound, back⟩ := Bindings.move?_swap (firsts ▸ sound.names_nodup)
    (seconds ▸ sound.bound_nodup) (firsts.symm ▸ declared)
  have twice : (named.columns.map Prod.swap).map Prod.swap = named.columns := by simp
  refine ⟨moved, (encode?_eq same).trans forth, seconds ▸ bound, ?_⟩
  rw [decode?_eq, ← twice, back, Option.map_some, ← same]

/-- Reading routes from bindings and giving the bindings of routes are inverse to each other,
between the bindings of exactly the path names and query keys of a pattern and the routes of its
name with exactly the declared parameters. -/
theorem encode?_decode?_inverse {text : Text} {pattern : Pattern}
    (parsed : Pattern.parse text = .ok pattern) (name : Text) :
    let named : NamedPattern := ⟨name, pattern⟩
    (∀ params : Bindings, params.Binds (pattern.pathNames ++ pattern.queryKeys) →
      ∃ route, named.decode? params = some route ∧ route.name = name ∧
        route.params.Binds pattern.names ∧ named.encode? route = some params) ∧
    ∀ route : TableRoute, route.name = name → route.params.Binds pattern.names →
      ∃ params, named.encode? route = some params ∧
        params.Binds (pattern.pathNames ++ pattern.queryKeys) ∧
        named.decode? params = some route := by
  intro named
  have sound : named.pattern.Sound := Pattern.sound_of_parse parsed
  exact ⟨fun params => exists_decode? sound, fun route => exists_encode? sound⟩

/-- A pattern whose query keys are the declared names of each other. -/
def crossedPattern : NamedPattern where
  name := "swap".toList
  pattern :=
    { path := "swap/:c".toList
      pathNames := ["c".toList]
      query := [⟨"a".toList, "b".toList⟩, ⟨"b".toList, "a".toList⟩] }

/-- Two values change their names and change them back. -/
theorem encode?_decode?_inverse_crossed :
    let params : Bindings := .ofPairs
      [("a".toList, "1".toList), ("b".toList, "2".toList), ("c".toList, "a".toList)]
    ∃ route, crossedPattern.decode? params = some route ∧
      route.params.get? "a".toList = some "2".toList ∧
      route.params.get? "b".toList = some "1".toList ∧
      crossedPattern.encode? route = some params ∧
      ∃ again, crossedPattern.encode? route = some again ∧
        crossedPattern.decode? again = some route := by
  have parsed : Pattern.parse "swap/:c?a=$\x7bb\x7d&b=$\x7ba\x7d".toList
      = .ok crossedPattern.pattern := by cbv
  obtain ⟨reads, gives⟩ := encode?_decode?_inverse parsed "swap".toList
  obtain ⟨route, read, name, declared, back⟩ := reads
    (.ofPairs [("a".toList, "1".toList), ("b".toList, "2".toList), ("c".toList, "a".toList)])
    (by decide +kernel)
  obtain ⟨again, given, _, reread⟩ := gives route name declared
  have value : crossedPattern.decode? (.ofPairs
      [("a".toList, "1".toList), ("b".toList, "2".toList), ("c".toList, "a".toList)])
      = some ⟨"swap".toList, .ofPairs
        [("a".toList, "2".toList), ("b".toList, "1".toList), ("c".toList, "a".toList)]⟩ := by
    decide +kernel
  obtain rfl := Option.some.inj (value.symm.trans read)
  exact ⟨_, read, rfl, rfl, back, again, given, reread⟩

end NamedPattern
end DeepLink
