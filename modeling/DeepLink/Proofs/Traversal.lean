import Mathlib.Data.List.Forall2
import Mathlib.Data.List.Nodup

/-!
# Traversals

A traversal of a list that can fail succeeds exactly when it does so for each element. A
search takes the first result, so it does not depend on repetitions.
-/
namespace DeepLink

variable {α β ε : Type} {xs : List α}

theorem map_eq_self {f : α → α} (same : ∀ x ∈ xs, f x = x) : xs.map f = xs :=
  (List.map_congr_left same).trans (List.map_id' xs)

theorem bind_eq_ok_iff {first : Except ε α} {next : α → Except ε β} {result : β} :
    (first >>= next) = .ok result ↔ ∃ value, first = .ok value ∧ next value = .ok result := by
  cases first with
  | error cause => simp [bind, Except.bind]
  | ok value => simp [bind, Except.bind]

theorem exists_ok_iff {computation : Except ε α} :
    (∃ value, computation = .ok value) ↔ ∀ cause, computation ≠ .error cause := by
  cases computation <;> simp

theorem bind_eq_error_iff {first : Except ε α} {next : α → Except ε β} {cause : ε} :
    (first >>= next) = .error cause ↔
      first = .error cause ∨ ∃ value, first = .ok value ∧ next value = .error cause := by
  cases first with
  | error other => simp [bind, Except.bind]
  | ok value => simp [bind, Except.bind]

theorem mapM_eq_some_iff {f : α → Option β} {ys : List β} :
    xs.mapM f = some ys ↔ List.Forall₂ (fun x y => f x = some y) xs ys := by
  induction xs generalizing ys with
  | nil => cases ys <;> simp
  | cons x rest ih =>
    simp only [List.mapM_cons, Option.bind_eq_bind, Option.bind_eq_some_iff, Option.pure_def,
      Option.some.injEq, List.forall₂_cons_left_iff]
    constructor
    -- The first result and the results of the rest are those of a related list.
    · rintro ⟨y, first, others, traversed, rfl⟩
      exact ⟨y, others, first, ih.mp traversed, rfl⟩
    · rintro ⟨y, others, first, related, rfl⟩
      exact ⟨y, first, others, ih.mpr related, rfl⟩

theorem mapM_eq_ok_iff {f : α → Except ε β} {ys : List β} :
    xs.mapM f = .ok ys ↔ List.Forall₂ (fun x y => f x = .ok y) xs ys := by
  induction xs generalizing ys with
  | nil => cases ys <;> simp [pure, Except.pure]
  | cons x rest ih =>
    simp only [List.mapM_cons, bind_eq_ok_iff, pure, Except.pure, Except.ok.injEq,
      List.forall₂_cons_left_iff]
    constructor
    · rintro ⟨y, first, others, traversed, rfl⟩
      exact ⟨y, others, first, ih.mp traversed, rfl⟩
    · rintro ⟨y, others, first, related, rfl⟩
      exact ⟨y, first, others, ih.mpr related, rfl⟩

/-- A traversal that fails does so for the first element that fails. -/
theorem mapM_eq_error_iff {f : α → Except ε β} {cause : ε} :
    xs.mapM f = .error cause ↔
      ∃ before x after, xs = before ++ x :: after ∧ (∀ earlier ∈ before, ∃ y, f earlier = .ok y) ∧
        f x = .error cause := by
  induction xs with
  | nil => simp [pure, Except.pure]
  | cons first rest ih =>
    rw [List.mapM_cons, bind_eq_error_iff]
    constructor
    · rintro (failed | ⟨y, passed, later⟩)
      · exact ⟨[], first, rest, rfl, by simp, failed⟩
      · obtain inRest | ⟨others, _, collected⟩ := bind_eq_error_iff.mp later
        · obtain ⟨before, x, after, rfl, earlier, failed⟩ := ih.mp inRest
          exact ⟨first :: before, x, after, rfl,
            List.forall_mem_cons.mpr ⟨⟨y, passed⟩, earlier⟩, failed⟩
        · cases collected
    · rintro ⟨before, x, after, same, earlier, failed⟩
      cases before with
      | nil =>
        obtain ⟨rfl, rfl⟩ := List.cons.inj same
        exact .inl failed
      | cons other others =>
        obtain ⟨rfl, rfl⟩ := List.cons.inj same
        obtain ⟨⟨y, passed⟩, earlier⟩ := List.forall_mem_cons.mp earlier
        exact .inr ⟨y, passed,
          bind_eq_error_iff.mpr (.inl (ih.mpr ⟨others, x, after, rfl, earlier, failed⟩))⟩

/-- Traversals that fail at the same elements, one of them with a cause. -/
theorem mapM_eq_ok_iff_mapM {f : α → Except ε β} {g : α → Option β} {ys : List β}
    (same : ∀ x y, f x = .ok y ↔ g x = some y) : xs.mapM f = .ok ys ↔ xs.mapM g = some ys := by
  simp only [mapM_eq_ok_iff, mapM_eq_some_iff, same]

theorem exists_of_mem_forall₂ {relates : α → β → Prop} {ys : List β}
    (related : List.Forall₂ relates xs ys) {y : β} (member : y ∈ ys) :
    ∃ x ∈ xs, relates x y := by
  induction related with
  | nil => cases member
  | @cons x first rest others here _ ih =>
    rcases List.mem_cons.mp member with rfl | later
    · exact ⟨x, .head _, here⟩
    · obtain ⟨source, among, found⟩ := ih later
      exact ⟨source, .tail _ among, found⟩

theorem exists_forall₂ {relates : α → β → Prop} (each : ∀ x ∈ xs, ∃ y, relates x y) :
    ∃ ys, List.Forall₂ relates xs ys := by
  induction xs with
  | nil => exact ⟨[], .nil⟩
  | cons x rest ih =>
    obtain ⟨y, here⟩ := each x List.mem_cons_self
    obtain ⟨others, related⟩ := ih fun other member => each other (.tail _ member)
    exact ⟨y :: others, .cons here related⟩

/-! ### First results -/

theorem findSome?_cons_eq_or (f : α → Option β) (x : α) (xs : List α) :
    (x :: xs).findSome? f = (f x).or (xs.findSome? f) := by
  rw [List.findSome?_cons]
  cases f x <;> rfl

theorem findSome?_congr {f g : α → Option β} (same : ∀ x ∈ xs, f x = g x) :
    xs.findSome? f = xs.findSome? g := by
  induction xs with
  | nil => rfl
  | cons x rest ih =>
    rw [List.findSome?_cons, List.findSome?_cons, same x List.mem_cons_self,
      ih fun other member => same other (.tail _ member)]

theorem findSome?_filter {f : α → Option β} {keep : α → Bool}
    (useless : ∀ x, keep x = false → f x = none) :
    (xs.filter keep).findSome? f = xs.findSome? f := by
  induction xs with
  | nil => rfl
  | cons x rest ih =>
    cases kept : keep x with
    | true => rw [List.filter_cons_of_pos kept, List.findSome?_cons, List.findSome?_cons, ih]
    | false =>
      rw [List.filter_cons_of_neg (by simp [kept]), ih, List.findSome?_cons, useless x kept]

theorem findSome?_eraseDups [BEq α] [LawfulBEq α] (f : α → Option β) (xs : List α) :
    xs.eraseDups.findSome? f = xs.findSome? f := by
  -- Erasing the repetitions of the head filters the tail, so the induction is on the length.
  induction size : xs.length using Nat.strongRecOn generalizing xs with
  | _ length ih =>
    cases xs with
    | nil => rfl
    | cons x rest =>
      rw [List.eraseDups_cons, List.findSome?_cons, List.findSome?_cons]
      cases value : f x with
      | some result => rfl
      | none =>
        have shorter : (rest.filter fun y => !y == x).length < length := by
          have bound := List.length_filter_le (fun y => !y == x) rest
          rw [List.length_cons] at size
          omega
        have useless : ∀ y, (!y == x) = false → f y = none := by
          intro y same
          rw [show y = x by simpa using same, value]
        exact (ih _ shorter _ rfl).trans (findSome?_filter useless)

/-- Elements may change places, unless two of them that pass each other both have a result. -/
theorem findSome?_reorder {ys : List α} {f : α → Option β} (same : xs.Perm ys)
    (apart : ∀ x y left right, [x, y].Sublist xs → [y, x].Sublist ys → f x = some left →
      f y ≠ some right) :
    xs.findSome? f = ys.findSome? f := by
  cases found : xs.findSome? f with
  | none =>
    have misses := List.findSome?_eq_none_iff.mp found
    exact (List.findSome?_eq_none_iff.mpr fun y among => misses y (same.mem_iff.mpr among)).symm
  | some result =>
    obtain ⟨front, hit, back, rfl, hits, misses⟩ := List.findSome?_eq_some_iff.mp found
    have kept : hit ∈ ys := same.mem_iff.mp (List.mem_append_right _ List.mem_cons_self)
    obtain ⟨earlier, later, rfl, fresh⟩ := List.eq_append_cons_of_mem kept
    refine (List.findSome?_eq_some_iff.mpr
      ⟨earlier, hit, later, rfl, hits, fun other before => ?_⟩).symm
    -- What stands before the hit now stood before it already, or has passed it.
    rcases List.mem_append.mp (same.mem_iff.mpr (List.mem_append_left _ before)) with
      stayed | behind
    · exact misses other stayed
    · have passed : other ∈ back :=
        (List.mem_cons.mp behind).resolve_left fun equal => fresh (equal ▸ before)
      have was : [hit, other].Sublist (front ++ hit :: back) :=
        ((List.singleton_sublist.mpr passed).cons_cons hit).trans (List.sublist_append_right ..)
      have now : [other, hit].Sublist (earlier ++ hit :: later) :=
        (List.singleton_sublist.mpr before).append (List.singleton_sublist.mpr List.mem_cons_self)
      exact Option.eq_none_iff_forall_not_mem.mpr fun value =>
        apart hit other result value was now hits

/-- A search among the results of a traversal is a search of what was traversed. -/
theorem findSome?_of_forall₂ {γ : Type} {f : α → Except ε β} {g : β → Option γ} {ys : List β}
    (related : List.Forall₂ (fun x y => f x = .ok y) xs ys) :
    ys.findSome? g = xs.findSome? fun x => (f x).toOption.bind g := by
  induction related with
  | nil => rfl
  | cons first _ ih =>
    rw [List.findSome?_cons, List.findSome?_cons, ih, first]
    rfl

theorem bind_toOption_eq_some_iff {γ : Type} {x : Except ε β} {g : β → Option γ} {result : γ} :
    x.toOption.bind g = some result ↔ ∃ value, x = .ok value ∧ g value = some result := by
  cases x with
  | error cause => simp [Except.toOption]
  | ok value => simp [Except.toOption]

theorem findSome?_eq_of_unique {f : α → Option β} {a : α}
    (member : a ∈ xs) (others : ∀ b ∈ xs, b ≠ a → f b = none) : xs.findSome? f = f a := by
  -- Whether or not this element gives a result, no other element gives one.
  cases value : f a with
  | none =>
    refine List.findSome?_eq_none_iff.mpr fun b among => ?_
    by_cases same : b = a
    · exact same ▸ value
    · exact others b among same
  | some result =>
    cases found : xs.findSome? f with
    | none => exact (List.findSome?_eq_none_iff.mp found a member).symm.trans value
    | some first =>
      obtain ⟨b, among, here⟩ := List.exists_of_findSome?_eq_some found
      by_cases same : b = a
      · rw [← value, ← same, here]
      · rw [others b among same] at here
        cases here

/-- A result that only one element gives is found exactly if no earlier element gives any. -/
theorem findSome?_eq_some_iff_before {f : α → Option β} {a : α} {b : β} {i : Nat}
    (distinct : xs.Nodup) (found : xs[i]? = some a) (value : f a = some b)
    (only : ∀ other ∈ xs, f other = some b → other = a) :
    xs.findSome? f = some b ↔ ∀ j < i, ∀ earlier, xs[j]? = some earlier → f earlier = none := by
  obtain ⟨inside, here⟩ := List.getElem?_eq_some_iff.mp found
  constructor
  · intro first j before earlier met
    -- The first hit is the only element with this result, and it stands at one place only.
    obtain ⟨front, hit, back, rfl, hits, misses⟩ := List.findSome?_eq_some_iff.mp first
    obtain rfl := only hit (List.mem_append_right _ List.mem_cons_self) hits
    have same : (front ++ hit :: back)[i]? = (front ++ hit :: back)[front.length]? := by
      rw [found, List.getElem?_append_right (Nat.le_refl _), Nat.sub_self]
      rfl
    have index : i = front.length := (List.getElem?_inj inside distinct).mp same
    rw [List.getElem?_append_left (index ▸ before)] at met
    exact misses earlier (List.mem_of_getElem? met)
  · intro misses
    refine List.findSome?_eq_some_iff.mpr
      ⟨xs.take i, a, xs.drop (i + 1), ?_, value, fun earlier member => ?_⟩
    · rw [← here, ← List.drop_eq_getElem_cons inside, List.take_append_drop]
    -- What stands before the element are the elements at lower places.
    · obtain ⟨j, met⟩ := List.mem_iff_getElem?.mp member
      have before : j < i := by
        have bounded := (List.getElem?_eq_some_iff.mp met).1
        rw [List.length_take] at bounded
        omega
      rw [List.getElem?_take_of_lt before] at met
      exact misses j before earlier met

end DeepLink
