import DeepLink.Proofs.ParserLaws
import DeepLink.Url.Reading

/-!
# Reading the components of a URL

`Url.parse?` meets the laws for schemes and hosts: no scheme that it reads holds a colon
(`colonlessSchemes_parse?`), and it reads scheme and host from where they stand
(`readsAuthority_parse?`).

A text is cut at its first colon (`of_parse?`), the rest is cut at its first `#` and `?`
(`of_readRest?`), and what is before these is a location, read by kinds of schemes
(`of_readAuthority?`, `of_readFileHost?`).
-/
namespace DeepLink.Url

variable {scheme : Scheme} {name rest text : Text} {continued : Bool} {location : Location}
  {url : Url}

/-! ### Characters -/

theorem isTabOrNewline_iff {c : Char} :
    isTabOrNewline c = true ↔ c = '\t' ∨ c = '\n' ∨ c = '\r' := by
  simp [isTabOrNewline]

theorem unbroken_eq_self (free : ∀ c ∈ text, isTabOrNewline c = false) : unbroken text = text :=
  List.filter_eq_self.mpr fun c member => by simp [free c member]

theorem isSeparator_eq_true_iff {special : Bool} {c : Char} :
    Trail.isSeparator special c = true ↔ c = '/' ∨ special = true ∧ c = '\\' := by
  simp [Trail.isSeparator]

/-- Tabs and line breaks are no separators. -/
theorem not_isSeparator_of_isTabOrNewline {c : Char} (ignored : isTabOrNewline c = true) :
    Trail.isSeparator true c = false := by
  rcases isTabOrNewline_iff.mp ignored with rfl | rfl | rfl <;> decide

/-! ### Schemes -/

/-- Special schemes read `\` as `/` and need a host. -/
def Scheme.isSpecial (scheme : Scheme) : Bool := scheme.kind ≠ .general

/-- The scheme that is read from the text before the first colon. -/
def Scheme.named? (name : Text) : Option Scheme :=
  (Scheme.read? (name.dropWhile isControlOrSpace ++ [':'])).map Prod.fst

/-- What follows the colon does not take part in reading a scheme. -/
theorem Scheme.of_read?_append (absent : ':' ∉ name) {left : Text}
    (read : Scheme.read? (name ++ ':' :: rest) = some (scheme, left)) :
    left = rest ∧ ∀ other, Scheme.read? (name ++ ':' :: other) = some (scheme, other) := by
  simp only [Scheme.read?, Option.bind_eq_bind, Option.pure_def, Text.cut?_append absent,
    Option.bind_some] at read ⊢
  obtain ⟨first, start, read⟩ := Option.bind_eq_some_iff.mp read
  split at read
  next valid =>
    obtain ⟨rfl, rfl⟩ := Prod.mk.inj (Option.some.inj read)
    refine ⟨rfl, fun other => ?_⟩
    rw [start, Option.bind_some, dif_pos valid]
  · cases read

/-- Colons are no characters of schemes, in either case. -/
theorem Scheme.colon_not_mem_of_read?
    (read : Scheme.read? text = some (scheme, rest)) : ':' ∉ scheme.text := by
  simp only [Scheme.read?, Option.bind_eq_bind, Option.pure_def] at read
  obtain ⟨⟨source, after⟩, _, read⟩ := Option.bind_eq_some_iff.mp read
  obtain ⟨first, _, read⟩ := Option.bind_eq_some_iff.mp read
  split at read
  next valid =>
    obtain ⟨rfl, _⟩ := Prod.mk.inj (Option.some.inj read)
    intro member
    obtain ⟨c, inside, lowered⟩ := List.mem_map.mp member
    obtain rfl := eq_of_toLower_eq (by decide) lowered
    exact absurd (List.all_eq_true.mp valid.1 _ inside) (by decide)
  next => cases read

/-! ### Fragments and queries -/

theorem fst_cutOptional (separator : Char) (text : Text) :
    (cutOptional separator text).1 = text.before separator := by
  cases found : text.cut? separator with
  | none =>
    rw [cutOptional, found]
    exact (Text.before_eq_self (Text.cut?_eq_none_iff.mp found)).symm
  | some halves =>
    obtain ⟨rfl, absent⟩ := Text.eq_append_of_cut? found
    rw [cutOptional, found, Text.before_append_of_not_mem absent, Text.before_cons_self,
      List.append_nil]
    rfl

/-- What follows the colon after a scheme: location, query and fragment. -/
def readRest? (scheme : Scheme) (rest : Text) : Option Url := do
  let (body, fragment) := cutOptional '#' rest
  let (front, query) := cutOptional '?' body
  let location ← readLocation? scheme front (query.isSome || fragment.isSome)
  let keptInQuery := if scheme.kind = .general then keptInQuery else keptInSpecialQuery
  return {
    location with
    scheme
    query := query.map (Percent.encode keptInQuery ∘ unbroken)
    fragment := fragment.map (Percent.encode keptInFragment ∘ unbroken) }

theorem parse?_eq_bind (text : Text) :
    parse? text
      = (Scheme.read? (text.trimEnds isControlOrSpace)).bind fun (scheme, rest) =>
          readRest? scheme rest := rfl

theorem of_readRest? (read : readRest? scheme rest = some url) :
    url.scheme = scheme ∧
      url.query = (cutOptional '?' (rest.before '#')).2.map
        (Percent.encode (if scheme.kind = .general then keptInQuery else keptInSpecialQuery)
          ∘ unbroken) ∧
      ∃ continued, readLocation? scheme ((rest.before '#').before '?') continued
        = some url.toLocation := by
  simp only [readRest?, Option.bind_eq_bind, Option.pure_def, fst_cutOptional] at read
  obtain ⟨location, found, built⟩ := Option.bind_eq_some_iff.mp read
  obtain rfl := Option.some.inj built
  exact ⟨rfl, rfl, _, found⟩

theorem trimEnds_append_colon (name rest : Text) :
    (name ++ ':' :: rest).trimEnds isControlOrSpace
      = name.dropWhile isControlOrSpace ++ ':' :: rest.rdropWhile isControlOrSpace := by
  have colon : isControlOrSpace ':' = false := by decide
  have ends : (name ++ ':' :: rest).trimEnds isControlOrSpace
      = ((name ++ ':' :: rest).dropWhile isControlOrSpace).rdropWhile isControlOrSpace := rfl
  rw [ends, Text.dropWhile_append_cons colon, Text.rdropWhile_append_cons colon]

/-- A URL is read as a scheme, which only depends on the text before the first colon, and as what
follows that colon. -/
theorem of_parse? (absent : ':' ∉ name) (read : parse? (name ++ ':' :: rest) = some url) :
    Scheme.named? name = some url.scheme ∧
      readRest? url.scheme (rest.rdropWhile isControlOrSpace) = some url := by
  have still : ':' ∉ name.dropWhile isControlOrSpace :=
    fun member => absent ((List.dropWhile_sublist _).subset member)
  rw [parse?_eq_bind, trimEnds_append_colon] at read
  obtain ⟨⟨scheme, left⟩, found, read⟩ := Option.bind_eq_some_iff.mp read
  obtain ⟨rfl, any⟩ := Scheme.of_read?_append still found
  obtain ⟨rfl, _⟩ := of_readRest? read
  exact ⟨congrArg (Option.map Prod.fst) (any []), read⟩

theorem colonlessSchemes_parse? : Parser.ColonlessSchemes parse? := by
  intro text url read
  rw [parse?_eq_bind] at read
  obtain ⟨⟨scheme, left⟩, found, read⟩ := Option.bind_eq_some_iff.mp read
  obtain ⟨rfl, _⟩ := of_readRest? read
  exact Scheme.colon_not_mem_of_read? found

/-! ### Authorities -/

/-- The text of the host in an authority. -/
def hostSource (authority : Text) : Text := (splitHost false (splitUserInfo authority).2).1

/-- The host that is read from an authority. -/
def Scheme.host? (scheme : Scheme) (authority : Text) : Option Host :=
  if scheme.kind = .file then Host.read? true authority
  else Host.read? scheme.isSpecial (hostSource authority)

theorem splitHost_append (bracketed : Bool) (text : Text) :
    (splitHost bracketed text).1 ++ (splitHost bracketed text).2 = text := by
  induction text generalizing bracketed with
  | nil => rfl
  | cons c rest ih =>
    unfold splitHost
    split
    · rfl
    · rw [List.cons_append, ih]

/-- What stands behind the credentials is a part of the authority. -/
theorem splitUserInfo_suffix (authority : Text) : (splitUserInfo authority).2 <:+ authority := by
  unfold splitUserInfo
  split
  next userInfo address found =>
    obtain ⟨⟨back, front⟩, first, same⟩ := Option.map_eq_some_iff.mp found
    obtain ⟨rfl, rfl⟩ := Prod.mk.inj same
    -- The last sign is the first one from the end, so the address is a prefix there.
    rw [← List.reverse_prefix, List.reverse_reverse, (Text.eq_append_of_cut? first).1]
    exact List.prefix_append _ _
  · exact List.suffix_rfl

theorem backslash_mem_of_readPort? {port : Option Nat} {left : Text}
    (read : readPort? scheme text = some (port, left)) (more : left ≠ []) : '\\' ∈ text := by
  simp only [readPort?, Option.bind_eq_bind, Option.pure_def] at read
  obtain ⟨value, _, read⟩ := Option.bind_eq_some_iff.mp read
  split at read
  · cases read
  next allowed =>
    -- What is left starts with the backslash that ended the digits.
    have same : (text.span Char.isDigit).2 = left := by
      split at read <;> exact (Prod.mk.inj (Option.some.inj read)).2
    have starts : left.head? = some '\\' := by
      by_contra other
      exact allowed (.inr ⟨same ▸ more, same ▸ other⟩)
    rw [List.span_eq_takeWhile_dropWhile] at same
    exact (List.dropWhile_sublist _).subset (same ▸ List.mem_of_mem_head? starts)

/-- A host stands in its authority, and only an authority with a backslash goes on in the path.
A special scheme needs some text for its host. -/
theorem of_readAuthority? (read : readAuthority? scheme text continued = some location) :
    ∃ host left,
      Host.read? scheme.isSpecial
          (hostSource (text.takeWhile (!Trail.isSeparator scheme.isSpecial ·))) = some host ∧
      location.host = some host ∧
      (hostSource (text.takeWhile (!Trail.isSeparator scheme.isSpecial ·)) = [] →
        scheme.kind = .general) ∧
      (left ≠ [] → '\\' ∈ text.takeWhile (!Trail.isSeparator scheme.isSpecial ·)) ∧
      location.path = pathAfterAuthority scheme.isSpecial
        (left ++ text.dropWhile (!Trail.isSeparator scheme.isSpecial ·)) := by
  have halves : text.span (!Trail.isSeparator scheme.isSpecial ·)
      = (text.takeWhile (!Trail.isSeparator scheme.isSpecial ·),
        text.dropWhile (!Trail.isSeparator scheme.isSpecial ·)) :=
    List.span_eq_takeWhile_dropWhile _ _
  have special : decide (scheme.kind ≠ .general) = scheme.isSpecial := rfl
  simp only [readAuthority?, Option.bind_eq_bind, Option.pure_def, special, halves] at read
  -- Both checks are for authorities without a host.
  split at read
  · cases read
  split at read
  · cases read
  next allowed =>
    obtain ⟨host, found, rest⟩ := Option.bind_eq_some_iff.mp read
    have needed (empty : hostSource (text.takeWhile (!Trail.isSeparator scheme.isSpecial ·)) = []) :
        scheme.kind = .general := by
      by_contra other
      exact allowed ⟨empty, .inl other⟩
    split at rest
    next alone =>
      obtain rfl := Option.some.inj rest
      exact ⟨host, [], found, rfl, needed, fun filled => absurd rfl filled, rfl⟩
    next further =>
      obtain ⟨⟨port, left⟩, digits, built⟩ := Option.bind_eq_some_iff.mp rest
      obtain rfl := Option.some.inj built
      refine ⟨host, left, found, rfl, needed, fun filled => ?_, rfl⟩
      apply (splitUserInfo_suffix _).subset
      rw [← splitHost_append false (splitUserInfo _).2]
      apply List.mem_append_right
      exact List.mem_of_mem_drop (backslash_mem_of_readPort? digits filled)

/-! ### File URLs -/

theorem host_fileLocation (host : Host) (path : Text) :
    (fileLocation host path).host = some host ∨ (fileLocation host path).presentHost = none := by
  simp only [fileLocation, Location.presentHost]
  split
  · exact .inr rfl
  · exact .inl rfl

theorem presentHost_fileLocation_empty (path : Text) :
    (fileLocation .empty path).presentHost = none := by
  simp only [fileLocation, Location.presentHost]
  split <;> rfl

/-- The path of a `file` URL starts behind its host, or with the slash behind it. -/
theorem of_readFileHost? (read : readFileHost? text = some location) :
    ∃ host path, location = fileLocation host path ∧
      (host = .empty ∨
        Host.read? true (unbroken (text.takeWhile (!Trail.isSeparator true ·))) = some host) ∧
      (PathSegment.isDriveLetter (unbroken (text.takeWhile (!Trail.isSeparator true ·))) = true ∨
        path = text.dropWhile (!Trail.isSeparator true ·) ∨
        path = (text.dropWhile (!Trail.isSeparator true ·)).drop 1) := by
  have halves : text.span (!Trail.isSeparator true ·)
      = (text.takeWhile (!Trail.isSeparator true ·), text.dropWhile (!Trail.isSeparator true ·)) :=
    List.span_eq_takeWhile_dropWhile _ _
  simp only [readFileHost?, Option.bind_eq_bind, Option.pure_def, halves] at read
  split at read
  next drive => exact ⟨_, _, (Option.some.inj read).symm, .inl rfl, .inl drive⟩
  split at read
  · exact ⟨_, _, (Option.some.inj read).symm, .inl rfl, .inr (.inl rfl)⟩
  obtain ⟨host, found, rest⟩ := Option.bind_eq_some_iff.mp read
  split at rest
  · exact ⟨_, _, (Option.some.inj rest).symm, .inl rfl, .inr (.inl rfl)⟩
  · exact ⟨_, _, (Option.some.inj rest).symm, .inr found, .inr (.inr rfl)⟩

theorem unbroken_dropWhile (text : Text) :
    unbroken (text.dropWhile isTabOrNewline) = unbroken text := by
  induction text with
  | nil => rfl
  | cons c rest ih =>
    by_cases ignored : isTabOrNewline c = true
    · rw [List.dropWhile_cons_of_pos ignored, ih, unbroken, unbroken,
        List.filter_cons_of_neg (by simp [ignored])]
    · rw [List.dropWhile_cons_of_neg ignored]

/-- Tabs and line breaks before a separator are dropped with it. -/
theorem map_afterSeparator? (text : Text) :
    (afterSeparator? text).map unbroken = afterSlash? true (unbroken text) := by
  rw [← unbroken_dropWhile text, afterSeparator?]
  cases same : text.dropWhile isTabOrNewline with
  | nil => rfl
  | cons c rest =>
    have kept : isTabOrNewline c = false := Text.head?_dropWhile (by rw [same]; rfl)
    have text : unbroken (c :: rest) = c :: unbroken rest :=
      List.filter_cons_of_pos (by simp [kept])
    rw [text, afterSlash?]
    dsimp only
    split <;> rfl

/-! ### Locations -/

/-- The delimiters that end what stands between the scheme and the query. -/
def isRest (c : Char) : Bool := c ≠ '?' ∧ c ≠ '#'

theorem before_before_eq_takeWhile (text : Text) :
    (text.before '#').before '?' = text.takeWhile isRest := by
  rw [Text.before, Text.before, List.takeWhile_takeWhile]
  congr 1
  funext c
  simp [isRest]

theorem eq_cons_of_afterSlash? (found : afterSlash? false text = some rest) :
    text = '/' :: rest := by
  cases text with
  | nil => cases found
  | cons c back =>
    obtain ⟨slash, same⟩ : Trail.isSeparator false c = true ∧ back = rest := by
      simpa [afterSlash?] using found
    simpa [Trail.isSeparator, same] using slash

theorem isRest_of_isSeparator {special : Bool} {c : Char}
    (separates : Trail.isSeparator special c = true) : isRest c = true := by
  rcases isSeparator_eq_true_iff.mp separates with rfl | ⟨_, rfl⟩ <;> decide

theorem afterSlash?_takeWhile (special : Bool) (text : Text) :
    afterSlash? special (text.takeWhile isRest)
      = (afterSlash? special text).map (·.takeWhile isRest) := by
  cases text with
  | nil => rfl
  | cons c rest =>
    by_cases separates : Trail.isSeparator special c = true
    · simp [List.takeWhile_cons_of_pos (isRest_of_isSeparator separates), afterSlash?, separates]
    · rw [List.takeWhile_cons]
      split <;> simp [afterSlash?, separates]

/-- What ends a location does not belong to the slashes before the authority. -/
theorem afterSlashes?_takeWhile (kind : SchemeKind) (text : Text) :
    afterSlashes? kind (text.takeWhile isRest)
      = (afterSlashes? kind text).map (·.takeWhile isRest) := by
  have twice (special : Bool) :
      (afterSlash? special (text.takeWhile isRest)).bind (afterSlash? special)
        = ((afterSlash? special text).bind (afterSlash? special)).map (·.takeWhile isRest) := by
    rw [afterSlash?_takeWhile, Option.map_bind, Option.bind_map]
    congr 1
    funext rest
    exact afterSlash?_takeWhile special rest
  cases kind with
  | special => exact congrArg some (Text.dropWhile_takeWhile (fun _ => isRest_of_isSeparator) text)
  | general => exact twice false
  | file => exact twice true

/-- The authority of a URL lies in its location. -/
theorem authority?_eq (kind : SchemeKind) (rest : Text) :
    authority? kind rest
      = (afterSlashes? kind (unbroken (Text.before '?'
            (Text.before '#' (rest.rdropWhile isControlOrSpace))))).map
          (·.takeWhile (!Trail.isSeparator (kind ≠ .general) ·)) := by
  have either (c : Char) (lost : (!isTabOrNewline c) = false) : isRest c = true := by
    rcases isTabOrNewline_iff.mp (by simpa using lost) with rfl | rfl | rfl <;> decide
  have ends (c : Char) : (!endsAuthority kind c)
      = decide (((!Trail.isSeparator (kind ≠ .general) c) = true) ∧ isRest c = true) := by
    by_cases slash : c = '/'
    · simp [endsAuthority, slash, Trail.isSeparator]
    · simp [endsAuthority, isRest, isDelimiter, slash, Bool.decide_and]
  rw [before_before_eq_takeWhile, unbroken, Text.filter_takeWhile either, ← unbroken,
    afterSlashes?_takeWhile, Option.map_map, authority?]
  congr 1
  funext text
  rw [Function.comp_apply, List.takeWhile_takeWhile]
  congr 1
  exact funext ends

/-- Outside `file` URLs, what follows two slashes is read as an authority. -/
theorem readLocation?_of_slashes (other : scheme.kind ≠ .file)
    (slashes : afterSlashes? scheme.kind (unbroken text) = some rest) :
    readLocation? scheme text continued = readAuthority? scheme rest continued := by
  unfold readLocation?
  dsimp only
  split
  next file => exact (other file).elim
  next special =>
    rw [special] at slashes
    obtain rfl := Option.some.inj slashes
    rfl
  next general =>
    rw [general] at slashes
    obtain ⟨further, first, second⟩ := Option.bind_eq_some_iff.mp slashes
    rw [eq_cons_of_afterSlash? first, eq_cons_of_afterSlash? second]
    rfl

/-- Without two slashes, a location has no host. -/
theorem host_of_readLocation? (other : scheme.kind ≠ .file)
    (slashes : afterSlashes? scheme.kind (unbroken text) = none)
    (read : readLocation? scheme text continued = some location) : location.host = none := by
  unfold readLocation? at read
  dsimp only at read
  split at read
  next file => exact (other file).elim
  next special =>
    rw [special] at slashes
    cases slashes
  next general =>
    split at read
    next rest whole =>
      rw [general, whole] at slashes
      cases slashes
    all_goals
      obtain rfl := Option.some.inj read
      rfl

/-- The host of a `file` URL stands where its authority is, or there is none. -/
theorem host_of_readFile? (read : readFile? text = some location) :
    location.host = ((afterSlashes? .file (unbroken text)).map
        (·.takeWhile (!Trail.isSeparator true ·))).bind (Host.read? true) ∨
      location.presentHost = none := by
  have bare {path : Text} {location : Location}
      (same : some (fileLocation .empty path) = some location) : location.presentHost = none := by
    obtain rfl := Option.some.inj same
    exact presentHost_fileLocation_empty path
  have kept (c : Char) (lost : (!isTabOrNewline c) = false) :
      (!Trail.isSeparator true c) = true := by
    have ignored : isTabOrNewline c = true := by simpa using lost
    simp [not_isSeparator_of_isTabOrNewline ignored]
  unfold readFile? at read
  split at read
  · exact .inr (bare read)
  next rest first =>
    split at read
    · exact .inr (bare read)
    next further second =>
      have found : afterSlashes? .file (unbroken text) = some (unbroken further) := by
        rw [afterSlashes?, ← map_afterSeparator?, first, Option.map_some, Option.bind_some,
          ← map_afterSeparator?, second, Option.map_some]
      obtain ⟨host, path, rfl, source, _⟩ := of_readFileHost? read
      rw [found, Option.map_some, Option.bind_some]
      rcases source with rfl | same
      · exact .inr (presentHost_fileLocation_empty path)
      · rw [unbroken, Text.filter_takeWhile kept, ← unbroken] at same
        rw [same]
        exact host_fileLocation host path

theorem host_of_parse? (absent : ':' ∉ name) (read : parse? (name ++ ':' :: rest) = some url) :
    url.host = (authority? url.scheme.kind rest).bind url.scheme.host? ∨
      url.scheme.kind = .file ∧ url.presentHost = none := by
  obtain ⟨_, read⟩ := of_parse? absent read
  obtain ⟨_, _, continued, located⟩ := of_readRest? read
  rw [authority?_eq]
  by_cases file : url.scheme.kind = .file
  · have read : Host.read? true = url.scheme.host? := by
      funext authority
      exact (if_pos file).symm
    unfold readLocation? at located
    simp only [file] at located
    rw [file, ← read]
    exact (host_of_readFile? located).imp_right fun missing => ⟨rfl, missing⟩
  · left
    cases slashes : afterSlashes? url.scheme.kind (unbroken (Text.before '?'
      (Text.before '#' (rest.rdropWhile isControlOrSpace)))) with
    | some front =>
      rw [readLocation?_of_slashes file slashes] at located
      obtain ⟨host, _, found, same, _⟩ := of_readAuthority? located
      have special : decide (url.scheme.kind ≠ .general) = url.scheme.isSpecial := rfl
      rw [Option.map_some, Option.bind_some, Scheme.host?, if_neg file, special, found, same]
    | none =>
      rw [host_of_readLocation? file slashes located]
      rfl

theorem authority?_ne_of_parse? (absent : ':' ∉ name)
    (read : parse? (name ++ ':' :: rest) = some url) (special : url.scheme.kind = .special) :
    authority? .special rest ≠ some [] := by
  obtain ⟨_, read⟩ := of_parse? absent read
  obtain ⟨_, _, continued, located⟩ := of_readRest? read
  have isSpecial : url.scheme.isSpecial = true := by simp [Scheme.isSpecial, special]
  rw [authority?_eq]
  intro empty
  obtain ⟨front, slashes, bare⟩ := Option.map_eq_some_iff.mp empty
  rw [readLocation?_of_slashes (by simp [special]) (special ▸ slashes)] at located
  obtain ⟨_, _, _, _, needed, _⟩ := of_readAuthority? located
  have noHost : front.takeWhile (!Trail.isSeparator true ·) = [] := bare
  rw [isSpecial, noHost] at needed
  rw [needed rfl] at special
  cases special

theorem readsAuthority_parse? : Parser.ReadsAuthority parse? Scheme.named? Scheme.host? where
  scheme_eq absent read := (of_parse? absent read).1
  host_eq absent read := host_of_parse? absent read
  filled absent read special := authority?_ne_of_parse? absent read special

end DeepLink.Url
