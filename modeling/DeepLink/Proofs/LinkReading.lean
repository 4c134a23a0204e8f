import DeepLink.Proofs.PathReading
import DeepLink.Proofs.Traversal
import DeepLink.Proofs.Words

/-!
# Reading links of words

`Url.parse?` meets the laws for links of words (`readsLinks_parse?`, `readsBareLinks_parse?`).
Words are their own written form wherever they stand in a URL: as a scheme
(`Scheme.read?_word`), as a host (`Host.read?_word`) and, as slugs, as the parts of a path
(`text_ofSegments_slugs`).
-/
namespace DeepLink.Url

variable {scheme : Scheme} {name host query front text source : Text} {parts : List Text} {c : Char}
  {continued : Bool}

/-! ### Words as schemes and hosts -/

theorem undivided_of_isSlugChar (valid : isSlugChar c = true) :
    Trail.isSeparator true c = false ∧ isDelimiter c = false :=
  Text.forall_char (motive := fun c => isSlugChar c = true →
    Trail.isSeparator true c = false ∧ isDelimiter c = false) (by decide) c
    (toNat_lt_of_isSlugChar valid) valid

theorem of_isWordChar (valid : isWordChar c = true) :
    (isSchemeChar c = true ∧ c.toLower = c) ∧
      (isForbiddenInHost c = false ∧ isForbiddenInDomain c = false ∧ isControlFree c = true) ∧
      Domain.isRefused c = false ∧ Domain.isShapeless c = false ∧
      Domain.small (Domain.narrow c) = c :=
  Text.forall_char (motive := fun c => isWordChar c = true →
    (isSchemeChar c = true ∧ c.toLower = c) ∧
      (isForbiddenInHost c = false ∧ isForbiddenInDomain c = false ∧ isControlFree c = true) ∧
      Domain.isRefused c = false ∧ Domain.isShapeless c = false ∧
      Domain.small (Domain.narrow c) = c) (by decide) c
    (toNat_lt_of_isSlugChar (isSlugChar_of_isWordChar valid)) valid

theorem of_isLower (lower : c.isLower = true) :
    c.isAlpha = true ∧ c.isDigit = false ∧
      ∀ value, Numeral.digitValue? c = some value → 10 ≤ value := by
  have small : c.toNat < 123 := toNat_lt_of_isWordChar (by rw [isWordChar, lower, Bool.true_or])
  have each : c.isAlpha = true ∧ c.isDigit = false ∧ (Numeral.digitValue? c).all (10 ≤ ·) = true :=
    Text.forall_char (motive := fun c => c.isLower = true → c.isAlpha = true ∧ c.isDigit = false ∧
      (Numeral.digitValue? c).all (10 ≤ ·) = true) (by decide) c small lower
  refine ⟨each.1, each.2.1, fun value found => ?_⟩
  simpa [found] using each.2.2

/-- The scheme that a word is read as. -/
def Scheme.ofWord (text : Text) (word : IsWord text) : Scheme :=
  ⟨text, fun _ member => (undivided_of_isSlugChar (word.isSlug.isSlugChar member)).2⟩

theorem Scheme.read?_word (word : IsWord name) (rest : Text) :
    Scheme.read? (name ++ ':' :: rest) = some (Scheme.ofWord name word, rest) := by
  have chars (c : Char) (member : c ∈ name) := (of_isWordChar (word.isWordChar member)).1
  have halves := Text.cut?_append (word.isSlug.not_mem (c := ':') (by decide)) rest
  have whole : unbroken name = name :=
    unbroken_eq_self fun c member => (of_isSlugChar (word.isSlug.isSlugChar member)).2.2.1
  -- Its letters are small already.
  have small : name.toLower = name := map_eq_self fun c member => (chars c member).2
  have valid : name.all isSchemeChar = true :=
    List.all_eq_true.mpr fun c member => (chars c member).1
  obtain ⟨first, others, same, lower⟩ := word.exists_head
  have start : name.head? = some first := by rw [same]; rfl
  simp only [Scheme.read?, halves, whole, start, (of_isLower lower).1, valid, and_self, dif_pos,
    Option.bind_eq_bind, Option.bind_some, Option.pure_def, small]
  rfl

/-- A label of small letters and digits is its own written form. -/
theorem ascii?_word (word : IsWord text) : Domain.ascii? text = some text := by
  have chars (c : Char) (member : c ∈ text) := (of_isWordChar (word.isWordChar member)).2.2
  have accepted : text.any Domain.isRefused = false :=
    List.any_eq_false.mpr fun c member => by simp [(chars c member).1]
  have shaped : text.filter (!Domain.isShapeless ·) = text :=
    List.filter_eq_self.mpr fun c member => by simp [(chars c member).2.1]
  have small : text.map (fun c => Domain.small (Domain.narrow c)) = text :=
    map_eq_self fun c member => (chars c member).2.2
  have folded : Domain.folded? text = some text := by
    simp [Domain.folded?, accepted, shaped, small]
  have label : Domain.asciiLabel? text = some text := by
    have ascii : Domain.isAscii text = true := List.all_eq_true.mpr fun c member => by
      have bound := toNat_lt_of_isSlugChar (word.isSlug.isSlugChar member)
      exact decide_eq_true (by omega)
    unfold Domain.asciiLabel?
    split
    next written =>
      have hyphen := word.isWordChar (c := '-') (by simp)
      exact absurd hyphen (by decide)
    next => simp [ascii]
  have single : text.splitOn '.' = [text] :=
    List.splitOn_eq_singleton (word.isSlug.not_mem (by decide))
  simp [Domain.ascii?, folded, single, label]

/-- A numeral does not start with a small letter. -/
theorem read?_decimal_word (word : IsWord text) : Numeral.read? 10 text = none := by
  obtain ⟨c, rest, rfl, lower⟩ := word.exists_head
  refine Option.bind_eq_none_iff.mpr fun digits read => ?_
  obtain ⟨digit, others, first, _, rfl⟩ := List.forall₂_cons_left_iff.mp (mapM_eq_some_iff.mp read)
  have large : 10 ≤ digit := (of_isLower lower).2.2 digit first
  refine if_neg fun small => ?_
  have below : digit < 10 := of_decide_eq_true (List.all_eq_true.mp small digit (.head _))
  omega

theorem not_endsInNumber_word (word : IsWord text) : Ipv4.endsInNumber text = false := by
  obtain ⟨c, rest, same, lower⟩ := word.exists_head
  have single : text.splitOn '.' = [text] :=
    List.splitOn_eq_singleton (word.isSlug.not_mem (by decide))
  have labels : Ipv4.labels text = [text] := by simp [Ipv4.labels, single]
  have notDigits : text.all Char.isDigit = false := by
    rw [same, List.all_cons, (of_isLower lower).2.1, Bool.false_and]
  -- Octal and hexadecimal numbers start with a zero.
  have unread : Ipv4.number? text = none := by
    rw [← read?_decimal_word word]
    have notZero : c ≠ '0' := by
      rintro rfl
      exact absurd lower (by decide)
    rw [same]
    unfold Ipv4.number?
    split <;> simp_all
  simp [Ipv4.endsInNumber, labels, unread, notDigits]

theorem Host.read?_word (special : Bool) (word : IsWord text) :
    ∃ host, Host.read? special text = some host ∧ host.text = text := by
  have chars (c : Char) (member : c ∈ text) := (of_isWordChar (word.isWordChar member)).2.1
  have filled : text ≠ [] := word.isSlug.1
  have noBracket : text.head? ≠ some '[' := by
    intro first
    have bracket := word.isWordChar (List.mem_of_mem_head? first)
    exact absurd bracket (by decide)
  unfold Host.read?
  rw [if_neg noBracket]
  cases special with
  | true =>
    have same : Percent.encode isWordChar text = text :=
      Percent.encode_eq_self fun c member => word.isWordChar member
    have decoded : Percent.decode? text = some text := by
      have escaped : isWordChar '%' = false := by decide
      have back := Percent.decode?_encode escaped text
      rwa [same] at back
    have allowed : text.all (!isForbiddenInDomain ·) = true :=
      List.all_eq_true.mpr fun c member => by simp [(chars c member).2.1]
    exact ⟨⟨text, Host.undelimited_of_domain allowed⟩, by
      simp [Host.ofDomain?, decoded, ascii?_word word, filled, not_endsInNumber_word word]
      simpa using allowed, rfl⟩
  | false =>
    have allowed : text.all (!isForbiddenInHost ·) = true :=
      List.all_eq_true.mpr fun c member => by simp [(chars c member).1]
    refine ⟨_, dif_pos allowed, ?_⟩
    exact Percent.encode_eq_self fun c member => (chars c member).2.2

/-! ### Slugs as paths -/

theorem isSlugChar_of_mem_piece {piece : Text} (slugs : ∀ part ∈ parts, IsSlug part)
    (among : piece ∈ (Text.joinWith '/' parts).splitOn '/') (member : c ∈ piece) :
    isSlugChar c = true := by
  obtain ⟨noSlash, inside⟩ := Text.mem_splitOn among
  exact (of_mem_joinWith_slugs slugs (inside c member)).resolve_left fun slash =>
    noSlash (slash ▸ member)

/-- The pieces of a path of slugs are kept as they are. -/
theorem encode_piece {piece : Text} (slugs : ∀ part ∈ parts, IsSlug part)
    (among : piece ∈ (Text.joinWith '/' parts).splitOn '/') :
    Percent.encode keptInPath piece = piece :=
  Percent.encode_eq_self fun _ member =>
    (of_isSlugChar (isSlugChar_of_mem_piece slugs among member)).2.2.2

/-- A dot segment starts with a dot or an escape. -/
theorem undotted_of_head? {segment : PathSegment}
    (plain : ∀ c ∈ segment.text.head?, c ≠ '.' ∧ c ≠ '%') :
    segment.isDoubleDot = false ∧ segment.isSingleDot = false := by
  cases text : segment.text with
  | nil => simp [PathSegment.isDoubleDot, PathSegment.isSingleDot, text, Text.toLower]
  | cons c rest =>
    obtain ⟨noDot, noEscape⟩ := plain c (by rw [text]; rfl)
    have dot : c.toLower ≠ '.' := fun lowered => noDot (eq_of_toLower_eq (by decide) lowered)
    have escape : c.toLower ≠ '%' := fun lowered => noEscape (eq_of_toLower_eq (by decide) lowered)
    simp [PathSegment.isDoubleDot, PathSegment.isSingleDot, text, Text.toLower, dot, escape]

theorem inertPath_slugs (kind : SchemeKind) (slugs : ∀ part ∈ parts, IsSlug part) :
    InertPath kind (Text.joinWith '/' parts) := by
  constructor
  · intro c member
    rcases of_mem_joinWith_slugs slugs member with rfl | slug
    · decide
    · exact (of_isSlugChar slug).2.2.1
  · intro _ member
    have slug := (of_mem_joinWith_slugs slugs member).resolve_left (by decide)
    exact not_isMark_of_isSlugChar slug (by decide)
  · intro piece among
    have unbroken : ∀ c ∈ piece, isTabOrNewline c = false := fun c member =>
      (of_isSlugChar (isSlugChar_of_mem_piece slugs among member)).2.2.1
    apply undotted_of_head?
    rw [Trail.text_read unbroken, encode_piece slugs among]
    intro c first
    have slug := isSlugChar_of_mem_piece slugs among (List.mem_of_mem_head? first)
    constructor <;> rintro rfl <;> exact absurd slug (by decide)
  · intro _ letter member
    have slug := isSlugChar_of_mem_piece slugs member (c := '|') (by simp)
    exact absurd slug (by decide)

/-- A path of slugs is written as it was read. -/
theorem text_ofSegments_slugs (other : scheme.kind ≠ .file) (slugs : ∀ part ∈ parts, IsSlug part) :
    (Path.ofSegments scheme.isSpecial (Text.joinWith '/' parts)).text
      = '/' :: Text.joinWith '/' parts := by
  have written := Trail.write_read (inertPath_slugs scheme.kind slugs)
  have notFile : decide (scheme.kind = .file) = false := decide_eq_false other
  rw [notFile, Text.mapPieces_eq_self fun _ among => encode_piece slugs among] at written
  exact written

/-! ### Links of words and slugs -/

theorem Scheme.kind_ne_file {scheme : Scheme} (other : scheme.text ≠ "file".toList) :
    scheme.kind ≠ .file := by
  unfold Scheme.kind
  rw [if_neg other]
  split <;> exact SchemeKind.noConfusion

theorem keptInSpecialQuery_of_isQueryChar (valid : isQueryChar c = true) :
    keptInSpecialQuery c = true := by
  have small : c.toNat < 127 := by
    rcases Bool.or_eq_true_iff.mp valid with plain | mark
    · rcases Bool.or_eq_true_iff.mp plain with letter | mark
      · exact Nat.lt_trans (Text.toNat_lt_of_isAlphanum letter) (by decide)
      · have either : c = '-' ∨ c = '_' ∨ c = '.' ∨ c = '~' := by simpa using mark
        rcases either with rfl | rfl | rfl | rfl <;> decide
    · have either : c = '%' ∨ c = '=' ∨ c = '&' := by simpa using mark
      rcases either with rfl | rfl | rfl <;> decide
  exact Text.forall_char (motive := fun c => isQueryChar c = true → keptInSpecialQuery c = true)
    (by decide) c small valid

theorem plainHost_word (kind : SchemeKind) (word : IsWord host) (other : kind ≠ .file) :
    PlainHost kind host := by
  have slug (c : Char) (member : c ∈ host) := word.isSlug.isSlugChar member
  constructor
  · exact fun c member => undivided_of_isSlugChar (slug c member)
  · obtain ⟨c, rest, rfl, _⟩ := word.exists_head
    have first := slug c (.head _)
    exact fun _ => ⟨c, .head _, (undivided_of_isSlugChar first).1, (of_isSlugChar first).2.2.1⟩
  · exact fun file => absurd file other

theorem splitHost_word {bracketed : Text} (word : ∀ c ∈ bracketed, isWordChar c = true) :
    splitHost false bracketed = (bracketed, []) := by
  induction bracketed with
  | nil => rfl
  | cons c rest ih =>
    have first := word c (.head _)
    -- The colon and the brackets are no characters of words.
    have others : c ≠ ':' ∧ c ≠ '[' ∧ c ≠ ']' := by
      refine ⟨?_, ?_, ?_⟩ <;> rintro rfl <;> exact absurd first (by decide)
    have inner := ih fun d member => word d (.tail _ member)
    simp [splitHost, others, inner]

/-- A word before a path has no credentials and no port. -/
theorem readAuthority?_word (scheme : Scheme) (continued : Bool) (word : IsWord host)
    (source : Text) :
    ∃ location, readAuthority? scheme (host ++ '/' :: source) continued = some location ∧
      location.presentHost = some host := by
  obtain ⟨again, read, same⟩ := Host.read?_word scheme.isSpecial word
  have filled : host ≠ [] := word.isSlug.1
  have undivided (c : Char) (member : c ∈ host) :=
    (undivided_of_isSlugChar (word.isSlug.isSlugChar member)).1
  have halves : (host ++ '/' :: source).span (!Trail.isSeparator scheme.isSpecial ·)
      = (host, '/' :: source) := by
    obtain ⟨front, back⟩ := takeWhile_plain scheme.isSpecial undivided source
    rw [List.span_eq_takeWhile_dropWhile, front, back]
  have noUserInfo : splitUserInfo host = (none, host) := by
    have absent : '@' ∉ host.reverse := fun member =>
      absurd (word.isWordChar (List.mem_reverse.mp member)) (by decide)
    rw [splitUserInfo, Text.cutLast?, Text.cut?_eq_none_iff.mpr absent]
    rfl
  have special : decide (scheme.kind ≠ .general) = scheme.isSpecial := rfl
  have noCredentials : Credentials.read [] = Credentials.none := rfl
  simp only [readAuthority?, Option.bind_eq_bind, Option.pure_def, special, halves, noUserInfo,
    splitHost_word fun c member => word.isWordChar member]
  simp [filled, noCredentials, read, Location.presentHost, same]

/-- What stands between the colon and the query of a link. -/
def frontText (host : Text) (parts : List Text) : Text :=
  "//".toList ++ host ++ '/' :: Text.joinWith '/' parts

theorem linkText_eq (name host : Text) (parts : List Text) (query : Text) :
    linkText name host parts query
      = name ++ ':' :: RouteText.join (frontText host parts) query := by
  rw [← RouteText.join_append_cons]
  simp [linkText, frontText]

theorem of_mem_frontText (hosted : host = [] ∨ IsWord host) (slugs : ∀ part ∈ parts, IsSlug part)
    (member : c ∈ frontText host parts) : c = '/' ∨ isSlugChar c = true := by
  rcases List.mem_append.mp member with early | late
  · rcases List.mem_append.mp early with slashes | inHost
    · exact .inl (by simpa using slashes)
    · rcases hosted with rfl | word
      · cases inHost
      · exact .inr (word.isSlug.isSlugChar inHost)
  · rcases List.mem_cons.mp late with slash | inPath
    · exact .inl slash
    · exact of_mem_joinWith_slugs slugs inPath

/-- Nothing is dropped at the ends of a link, and its components are read as they are. -/
theorem parse?_linkText (word : IsWord name) (hosted : host = [] ∨ IsWord host)
    (slugs : ∀ part ∈ parts, IsSlug part) (valid : ∀ c ∈ query, isQueryChar c = true) :
    parse? (linkText name host parts query)
      = (readLocation? (.ofWord name word) (frontText host parts) (query ≠ [])).map
          fun location =>
            { location with scheme := .ofWord name word
                            query := if query = [] then none else some query
                            fragment := none } := by
  have kept : ∀ c ∈ query, keptInSpecialQuery c = true :=
    fun c member => keptInSpecialQuery_of_isQueryChar (valid c member)
  have visible : ∀ c ∈ linkText name host parts query, isControlOrSpace c = false := by
    rw [linkText_eq]
    intro c member
    rcases List.mem_append.mp member with inName | later
    · exact (of_isSlugChar (word.isSlug.isSlugChar inName)).2.1
    · rcases List.mem_cons.mp later with rfl | later
      · decide
      · rcases RouteText.of_mem_join later with inFront | rfl | inQuery
        · rcases of_mem_frontText hosted slugs inFront with rfl | slug
          · decide
          · exact (of_isSlugChar slug).2.1
        · decide
        · exact (of_keptInSpecialQuery (kept c inQuery)).1
  have whole : (linkText name host parts query).trimEnds isControlOrSpace
      = linkText name host parts query :=
    Text.trimEnds_eq_self ⟨fun c first => visible c (List.mem_of_mem_head? first),
      fun c last => visible c (List.mem_of_getLast? last)⟩
  have absent {c : Char} (mark : isMark c = true) (other : c ≠ '/') : c ∉ frontText host parts :=
    fun member => not_isMark_of_isSlugChar
      ((of_mem_frontText hosted slugs member).resolve_left other) mark
  rw [parse?_eq_bind, whole, linkText_eq]
  refine (congrArg (Option.bind · _) (Scheme.read?_word word _)).trans ?_
  exact readRest?_join _ (absent (by decide) (by decide)) (absent (by decide) (by decide)) kept

theorem readsLinks_parse? {IsPiece : Text → Prop} (slug : ∀ piece, IsPiece piece → IsSlug piece) :
    Parser.ReadsLinks parse? IsPiece := by
  intro name host parts query word other hosted pieces valid
  have slugs : ∀ part ∈ parts, IsSlug part := fun part member => slug part (pieces part member)
  have notFile : (Scheme.ofWord name word).kind ≠ .file := Scheme.kind_ne_file other
  have plain := plainHost_word (Scheme.ofWord name word).kind hosted notFile
  have slashes := afterSlashes?_plain plain notFile (Text.joinWith '/' parts)
  obtain ⟨location, read, present⟩ := readAuthority?_word (.ofWord name word) (query ≠ []) hosted
    (Text.joinWith '/' parts)
  have unbrokenHost : unbroken host = host := unbroken_eq_self fun c member =>
    (of_isSlugChar (hosted.isSlug.isSlugChar member)).2.2.1
  have unbrokenPath : unbroken (Text.joinWith '/' parts) = Text.joinWith '/' parts :=
    unbroken_eq_self (inertPath_slugs .general slugs).unbroken
  have located : readLocation? (.ofWord name word) (frontText host parts) (query ≠ [])
      = some location := by
    rw [frontText, readLocation?_of_slashes notFile slashes, unbrokenHost, unbrokenPath, read]
  rw [parse?_linkText word (.inr hosted) slugs valid, located, Option.map_some]
  refine ⟨_, rfl, rfl, present, ?_, ?_⟩
  · have path := path_of_readLocation? plain notFile located
    rw [unbrokenPath] at path
    exact (congrArg Path.text path).trans (text_ofSegments_slugs notFile slugs)
  · by_cases empty : query = [] <;> simp [empty]

/-- The empty host of a scheme that does without one takes nothing but a path. -/
theorem readAuthority?_slash (general : scheme.kind = .general) :
    readAuthority? scheme ['/'] continued
      = some ⟨.none, some .empty, none, .ofSegments false []⟩ := by
  have halves : ['/'].span (!Trail.isSeparator false ·) = ([], ['/']) := rfl
  have noUserInfo : splitUserInfo [] = (none, []) := rfl
  have noHost : splitHost false [] = ([], []) := rfl
  have noCredentials : Credentials.read [] = Credentials.none := rfl
  have read : Host.read? false [] = some .empty := rfl
  have path : pathAfterAuthority false ['/'] = .ofSegments false [] := rfl
  simp [readAuthority?, general, halves, noUserInfo, noHost, noCredentials, read, path,
    -List.span_eq_takeWhile_dropWhile]

theorem readsBareLinks_parse? : Parser.ReadsBareLinks parse? := by
  intro name query url word other valid read
  have notFile : (Scheme.ofWord name word).kind ≠ .file := Scheme.kind_ne_file other
  rw [parse?_linkText word (.inl rfl) (fun _ member => by cases member) valid] at read
  obtain ⟨location, located, rfl⟩ := Option.map_eq_some_iff.mp read
  refine ⟨rfl, ?_⟩
  cases kind : (Scheme.ofWord name word).kind with
  | file => exact absurd kind notFile
  | special =>
    -- All three slashes are dropped, and nothing is left for a host.
    have slashes : afterSlashes? (Scheme.ofWord name word).kind (unbroken (frontText [] []))
        = some [] := by
      rw [kind]
      decide
    rw [readLocation?_of_slashes notFile slashes] at located
    obtain ⟨_, _, _, _, needed, _⟩ := of_readAuthority? located
    rw [needed rfl] at kind
    cases kind
  | general =>
    have slashes : afterSlashes? (Scheme.ofWord name word).kind (unbroken (frontText [] []))
        = some ['/'] := by
      rw [kind]
      decide
    rw [readLocation?_of_slashes notFile slashes, readAuthority?_slash kind] at located
    obtain rfl := Option.some.inj located
    have root : (Path.ofSegments false []).text = ['/'] := by decide
    refine ⟨rfl, root, ?_⟩
    by_cases empty : query = [] <;> simp [empty]

end DeepLink.Url
