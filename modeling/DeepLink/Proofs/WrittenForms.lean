import DeepLink.Proofs.DecodedPath
import DeepLink.Proofs.QueryCodec

/-!
# Written normal forms

A written form starts with its scheme and ends with its query, so two forms of one scheme are
written alike only if they are the same (`render_eq_iff`). Blank items are no exception here:
each leaves a separator, which is missing when the text has been read and written again.
-/
namespace DeepLink.NormalForm

variable {form left right : NormalForm} {base other : Text}

/-! ### Queries -/

theorem withQuery_eq (form : NormalForm) (base : Text) :
    form.withQuery base = base ++ (form.queryText?.map ('?' :: ·)).getD [] := by
  unfold withQuery
  cases form.queryText? <;> simp

theorem withQuery_append (form : NormalForm) (front base : Text) :
    form.withQuery (front ++ base) = front ++ form.withQuery base := by
  rw [withQuery_eq, withQuery_eq, List.append_assoc]

theorem split_withQuery (form : NormalForm) (free : '?' ∉ base) :
    RouteText.split (form.withQuery base) = (base, Query.encode form.query) := by
  unfold withQuery queryText?
  by_cases empty : form.query = []
  · rw [if_pos empty, empty]
    exact RouteText.split_eq_self free
  · rw [if_neg empty]
    exact RouteText.split_append free _

theorem withQuery_eq_iff (free : '?' ∉ base) (otherFree : '?' ∉ other) :
    left.withQuery base = right.withQuery other ↔ base = other ∧ left.query = right.query := by
  constructor
  · intro same
    have halves := congrArg RouteText.split same
    rw [split_withQuery _ free, split_withQuery _ otherFree] at halves
    obtain ⟨rfl, encoded⟩ := Prod.mk.inj halves
    refine ⟨rfl, ?_⟩
    -- The question mark tells no query from a query of blank items.
    rw [withQuery_eq, withQuery_eq] at same
    have parts := List.append_cancel_left same
    by_cases empty : left.query = []
    · by_cases alsoEmpty : right.query = []
      · rw [empty, alsoEmpty]
      · simp [queryText?, empty, alsoEmpty] at parts
    · by_cases rightEmpty : right.query = []
      · simp [queryText?, empty, rightEmpty] at parts
      · exact Query.eq_of_encode empty rightEmpty encoded
  · rintro ⟨rfl, same⟩
    rw [withQuery_eq, withQuery_eq, queryText?, queryText?, same]

theorem hash_not_mem_withQuery (free : '#' ∉ base) : '#' ∉ form.withQuery base := by
  unfold withQuery queryText?
  by_cases empty : form.query = []
  · simpa [empty] using free
  · rw [if_neg empty]
    intro member
    rcases List.mem_append.mp member with inBase | later
    · exact free inBase
    · rcases List.mem_cons.mp later with same | inQuery
      · exact absurd same (by decide)
      · rcases Query.of_mem_encode inQuery with plain | same | same | same <;>
          exact absurd ‹_› (by decide)

/-! ### Links -/

/-- The host of a form after two slashes. -/
def authority (form : NormalForm) : Text :=
  match form.host with
  | some host => '/' :: '/' :: host
  | none => []

/-- What follows the authority where the path was cut to a given text. -/
def tail (form : NormalForm) (path : Text) : Text :=
  if form.host.isSome then if form.path = [] then [] else '/' :: path else path

/-- What is written between the scheme and the query. -/
def location (form : NormalForm) (path : Text) : Text := form.authority ++ form.tail path

theorem location_of_hostless (hostless : form.host = none) (path : Text) :
    form.location path = path := by
  simp [location, authority, tail, hostless]

theorem location_of_hosted {host : Text} (present : form.host = some host) (path : Text) :
    form.location path = '/' :: '/' :: (host ++ form.tail path) := by
  simp [location, authority, present]

theorem render_of_scheme {scheme : Text} (given : form.scheme = some scheme) :
    form.render = form.withQuery (scheme ++ ':' :: form.location form.path) := by
  simp only [render, given, location, authority, tail]
  cases form.host with
  | none => simp
  | some host => simp

/-- What holds of the normal forms of URLs. -/
structure WellFormed (form : NormalForm) : Prop where
  host : ∀ host, form.host = some host → host ≠ [] ∧ Url.Undelimited host
  clean : Url.Clean form.path
  trimmed : Text.Trimmed (· == '/') form.path
  ordered : form.query.Pairwise fun left right => Query.inOrder left right = true

theorem wellFormed_ofUrl (url : Url) : (ofUrl url).WellFormed where
  host _ present := Url.of_presentHost present
  clean := clean_decodePath url.path.clean
  trimmed := trimmed_decodePath url.path.text
  ordered := Query.sorted_pairwise _

theorem not_mem_of_undelimited {text : Text} (undelimited : Url.Undelimited text) :
    '/' ∉ text ∧ '?' ∉ text ∧ '#' ∉ text :=
  ⟨fun slash => by simpa [Url.isDelimiter] using undelimited _ slash,
    fun question => by simpa [Url.isDelimiter] using undelimited _ question,
    fun hash => by simpa [Url.isDelimiter] using undelimited _ hash⟩

theorem WellFormed.clean_location (formed : form.WellFormed) {path : Text}
    (clean : Url.Clean path) :
    Url.Clean (form.location path) := by
  intro c member
  rcases List.mem_append.mp member with inHost | inPath
  · unfold authority at inHost
    split at inHost
    next host present =>
      obtain ⟨_, noQuestion, noHash⟩ := not_mem_of_undelimited (formed.host host present).2
      simp only [List.mem_cons] at inHost
      rcases inHost with rfl | rfl | inside
      · decide
      · decide
      · exact ⟨fun same => noQuestion (same ▸ inside), fun same => noHash (same ▸ inside)⟩
    · cases inHost
  · unfold tail at inPath
    split at inPath
    · split at inPath
      · cases inPath
      · rcases List.mem_cons.mp inPath with rfl | inside
        · decide
        · exact clean c inside
    · exact clean c inPath

theorem slash_of_mem_tail {path : Text} (present : form.host.isSome = true) :
    ∀ c ∈ (form.tail path).head?, (c == '/') = true := by
  intro c first
  rw [tail, if_pos present] at first
  split at first
  · cases first
  · obtain rfl := Option.some.inj first
    rfl

/-- A host ends where the path starts. -/
theorem host_append_tail_eq_iff {host another : Text} (leftFormed : left.WellFormed)
    (rightFormed : right.WellFormed) (leftHost : left.host = some host)
    (rightHost : right.host = some another) :
    host ++ left.tail left.path = another ++ right.tail right.path ↔
      host = another ∧ left.path = right.path := by
  -- The host has no slash and the tail starts with one, so the text can be cut there.
  have split {form : NormalForm} {host : Text} (formed : form.WellFormed)
      (present : form.host = some host) :
      (host ++ form.tail form.path).span (fun c => !(c == '/')) = (host, form.tail form.path) := by
    have hosted : form.host.isSome = true := by rw [present]; rfl
    refine Text.span_append (fun c member => ?_) (slash_of_mem_tail hosted)
    have noSlash := (not_mem_of_undelimited (formed.host host present).2).1
    simpa using fun same : c = '/' => noSlash (same ▸ member)
  constructor
  · intro same
    have halves := congrArg (List.span fun c => !(c == '/')) same
    rw [split leftFormed leftHost, split rightFormed rightHost] at halves
    obtain ⟨rfl, tails⟩ := Prod.mk.inj halves
    refine ⟨rfl, ?_⟩
    simp only [tail, leftHost, rightHost, Option.isSome_some, if_true] at tails
    split at tails
    next leftEmpty =>
      split at tails
      next rightEmpty => rw [leftEmpty, rightEmpty]
      next => cases tails
    next =>
      split at tails
      next => cases tails
      next => exact (List.cons.inj tails).2
  · rintro ⟨rfl, path⟩
    simp only [tail, leftHost, rightHost, path]

theorem location_eq_iff (leftFormed : left.WellFormed) (rightFormed : right.WellFormed) :
    left.location left.path = right.location right.path ↔
      left.host = right.host ∧ left.path = right.path := by
  -- Two slashes mark a host, since no path starts with one.
  cases leftHost : left.host with
  | none =>
    rw [location_of_hostless leftHost]
    cases rightHost : right.host with
    | none => simp [location_of_hostless rightHost]
    | some host =>
      rw [location_of_hosted rightHost]
      simp [Text.ne_cons_of_trimmed leftFormed.trimmed]
  | some host =>
    rw [location_of_hosted leftHost]
    cases rightHost : right.host with
    | none =>
      rw [location_of_hostless rightHost]
      simp [(Text.ne_cons_of_trimmed rightFormed.trimmed _).symm]
    | some another =>
      have split := host_append_tail_eq_iff leftFormed rightFormed leftHost rightHost
      rw [location_of_hosted rightHost]
      simp only [List.cons.injEq, true_and, Option.some.injEq, split]

theorem WellFormed.question_not_mem (formed : form.WellFormed) {scheme : Text}
    (free : '?' ∉ scheme) : '?' ∉ scheme ++ ':' :: form.location form.path := by
  intro member
  rcases List.mem_append.mp member with inScheme | later
  · exact free inScheme
  · rcases List.mem_cons.mp later with colon | inside
    · exact absurd colon (by decide)
    · exact (formed.clean_location formed.clean _ inside).1 rfl

theorem render_eq_iff {scheme : Text} (free : '?' ∉ scheme) (leftFormed : left.WellFormed)
    (rightFormed : right.WellFormed) (leftScheme : left.scheme = some scheme)
    (rightScheme : right.scheme = some scheme) :
    left.render = right.render ↔
      (left.host = right.host ∧ left.path = right.path) ∧ left.query = right.query := by
  rw [render_of_scheme leftScheme, render_of_scheme rightScheme,
    withQuery_eq_iff (leftFormed.question_not_mem free) (rightFormed.question_not_mem free),
    List.append_right_inj, List.cons.injEq, location_eq_iff leftFormed rightFormed]
  simp

end DeepLink.NormalForm
