import DeepLink.Proofs.Words
import DeepLink.Query
import DeepLink.Url

/-!
# Laws of URL parsers

How a URL is read is up to the parser. What is known of every parser is the form of the URLs that
it gives: a scheme and a host without delimiters, a path without `?` and `#`. Whatever else a
theorem relies on is one of the laws in this module, and is a hypothesis of that theorem:

- no scheme holds a colon (`ColonlessSchemes`),
- the scheme is read from the text before the first colon, and the host from the text between the
  slashes behind it and the path (`ReadsAuthority`),
- a path and a query without characters and segments of a meaning are kept but for escapes
  (`KeepsPaths`),
- links of words are read as what they are made of (`ReadsLinks`, `ReadsBareLinks`).

The authority of a text with a slash behind it does not depend on what follows that slash
(`authority?_append`). So two texts that agree up to there are read under one scheme and one host
(`Parser.ReadsAuthority.host_eq_of_append`).
-/
namespace DeepLink.Url

/-! ### Authorities -/

/-- The text after a slash or, in special URLs, a backslash. -/
def afterSlash? (special : Bool) : Text → Option Text
  | [] => none
  | c :: rest => if Trail.isSeparator special c then some rest else none

/-- What follows the two slashes before an authority, if they are there. After a special scheme
it does not matter how many there are. -/
def afterSlashes? (kind : SchemeKind) (text : Text) : Option Text :=
  match kind with
  | .special => some (text.dropWhile (Trail.isSeparator true))
  | .general => (afterSlash? false text).bind (afterSlash? false)
  | .file => (afterSlash? true text).bind (afterSlash? true)

/-- The characters that end an authority. -/
def endsAuthority (kind : SchemeKind) (c : Char) : Bool :=
  Trail.isSeparator (kind ≠ .general) c || isDelimiter c

/-- The text between the slashes and the path, in what follows the colon after a scheme. -/
def authority? (kind : SchemeKind) (rest : Text) : Option Text :=
  (afterSlashes? kind (unbroken (rest.rdropWhile isControlOrSpace))).map
    (·.takeWhile (!endsAuthority kind ·))

/-- Whether a text has a character that neither separates nor is ignored. -/
def NamesHost (text : Text) : Prop :=
  ∃ c ∈ text, Trail.isSeparator true c = false ∧ isTabOrNewline c = false

instance (text : Text) : Decidable (NamesHost text) :=
  decidable_of_iff (text.any fun c => !Trail.isSeparator true c && !isTabOrNewline c)
    (by simp [NamesHost])

/-! ### Paths -/

/-- What lets a text stand between the slashes and the path of a URL: it ends there, and it is
not taken for a part of the path. -/
structure PlainHost (kind : SchemeKind) (host : Text) : Prop where
  undivided : ∀ c ∈ host, Trail.isSeparator true c = false ∧ isDelimiter c = false
  named : kind = .special → NamesHost host
  driveless : kind = .file → PathSegment.isDriveLetter (unbroken host) = false

/-- What lets a path be read as its own segments: nothing in it is dropped, and nothing takes part
in it as anything but a slash or a segment. -/
structure InertPath (kind : SchemeKind) (path : Text) : Prop where
  unbroken : ∀ c ∈ path, isTabOrNewline c = false
  unslashed : kind ≠ .general → '\\' ∉ path
  undotted : ∀ piece ∈ path.splitOn '/',
    (PathSegment.read piece).isDoubleDot = false ∧ (PathSegment.read piece).isSingleDot = false
  unbarred : kind = .file → ∀ letter, [letter, '|'] ∉ path.splitOn '/'

/-- What lets a path and a query stand at the end of a URL as they are, but for escapes. -/
structure Inert (kind : SchemeKind) (path query : Text) : Prop extends InertPath kind path where
  clean : Clean path
  ended : query = [] → ∀ c ∈ path.getLast?, isControlOrSpace c = false
  kept : ∀ c ∈ query, keptInSpecialQuery c = true

/-! ### Links -/

/-- The characters of written queries. -/
def isQueryChar (c : Char) : Bool := Query.isUnreserved c || ['%', '=', '&'].contains c

/-- A link of a scheme, a host, the parts of a path and a query. -/
def linkText (scheme host : Text) (parts : List Text) (query : Text) : Text :=
  RouteText.join (scheme ++ "://".toList ++ host ++ '/' :: Text.joinWith '/' parts) query

namespace Parser

/-! ### Laws -/

def ColonlessSchemes (parser : Parser) : Prop :=
  ∀ text url, parser text = some url → ':' ∉ url.scheme.text

/-- Schemes and hosts are read by `scheme?` and `host?` from where they stand. A special scheme
needs an authority, and a `file` URL may do without the host that is given. -/
structure ReadsAuthority (parser : Parser) (scheme? : Text → Option Scheme)
    (host? : Scheme → Text → Option Host) : Prop where
  scheme_eq : ∀ {name rest : Text} {url : Url}, ':' ∉ name →
    parser (name ++ ':' :: rest) = some url → scheme? name = some url.scheme
  host_eq : ∀ {name rest : Text} {url : Url}, ':' ∉ name →
    parser (name ++ ':' :: rest) = some url →
    url.host = (authority? url.scheme.kind rest).bind (host? url.scheme) ∨
      url.scheme.kind = .file ∧ url.presentHost = none
  filled : ∀ {name rest : Text} {url : Url}, ':' ∉ name →
    parser (name ++ ':' :: rest) = some url → url.scheme.kind = .special →
    authority? .special rest ≠ some []

/-- The segments of an inert path are escaped one by one, and its query is kept. -/
def KeepsPaths (parser : Parser) : Prop :=
  ∀ {name host path query : Text} {url : Url}, ':' ∉ name →
    parser (RouteText.join (name ++ "://".toList ++ host ++ '/' :: path) query) = some url →
    PlainHost url.scheme.kind host → Inert url.scheme.kind path query →
    url.path.text.fields '/' = (path.fields '/').map (Percent.encode keptInPath) ∧
      url.query.getD [] = query

/-- A link of words is a URL of this scheme, this host, this path and this query. Of what the
parts of the path are made is left open. -/
def ReadsLinks (parser : Parser) (IsPiece : Text → Prop) : Prop :=
  ∀ {scheme host : Text} {parts : List Text} {query : Text}, IsWord scheme →
    scheme ≠ "file".toList → IsWord host → (∀ part ∈ parts, IsPiece part) →
    (∀ c ∈ query, isQueryChar c = true) →
    ∃ url, parser (linkText scheme host parts query) = some url ∧ url.scheme.text = scheme ∧
      url.presentHost = some host ∧ url.path.text = '/' :: Text.joinWith '/' parts ∧
      url.query.getD [] = query

/-- A link with nothing but a slash behind its scheme is no URL, or one without a host. -/
def ReadsBareLinks (parser : Parser) : Prop :=
  ∀ {scheme query : Text} {url : Url}, IsWord scheme → scheme ≠ "file".toList →
    (∀ c ∈ query, isQueryChar c = true) → parser (linkText scheme [] [] query) = some url →
    url.scheme.text = scheme ∧ url.presentHost = none ∧ url.path.text = ['/'] ∧
      url.query.getD [] = query

end Parser

/-! ### What stands before a path -/

variable {kind : SchemeKind} {name address : Text}

theorem unbroken_append_slash (front back : Text) :
    unbroken (front ++ '/' :: back) = unbroken front ++ '/' :: unbroken back := by
  have kept : isTabOrNewline '/' = false := by decide
  rw [unbroken, List.filter_append, List.filter_cons_of_pos (by simp [kept]), unbroken, unbroken]

theorem endsAuthority_slash (kind : SchemeKind) : endsAuthority kind '/' = true := by
  simp [endsAuthority, Trail.isSeparator]

/-- A character that is no slash stops the search for the authority of a special URL. -/
theorem exists_afterSlashes?_special (named : NamesHost address) :
    ∃ front, ∀ back, (unbroken address ++ '/' :: back).dropWhile (Trail.isSeparator true)
      = front ++ '/' :: back := by
  obtain ⟨c, member, inner, kept⟩ := named
  have inside : c ∈ unbroken address := List.mem_filter.mpr ⟨member, by simp [kept]⟩
  obtain ⟨head, tail, split⟩ := List.append_of_mem inside
  refine ⟨head.dropWhile (Trail.isSeparator true) ++ c :: tail, fun back => ?_⟩
  rw [split, List.append_assoc, List.cons_append, Text.dropWhile_append_cons inner,
    List.append_assoc, List.cons_append]

/-- Two slashes before the slash of the path are all that is looked at for an authority. -/
theorem exists_afterSlashes? (slashes : 2 ≤ address.count '/')
    (named : kind = .special → NamesHost address) :
    (∀ back, afterSlashes? kind (unbroken address ++ '/' :: back) = none) ∨
      ∃ front, ∀ back, afterSlashes? kind (unbroken address ++ '/' :: back)
        = some (front ++ '/' :: back) := by
  have keptSlashes : (unbroken address).count '/' = address.count '/' :=
    List.count_filter (by decide)
  obtain ⟨c, d, front, same⟩ : ∃ c d front, unbroken address = c :: d :: front := by
    have long : 2 ≤ (unbroken address).length :=
      Nat.le_trans (keptSlashes ▸ slashes) List.count_le_length
    match unbroken address, long with
    | c :: d :: front, _ => exact ⟨c, d, front, rfl⟩
  -- Both slashes are looked for at the first two characters.
  have both (special : Bool) :
      (∀ back, (afterSlash? special (unbroken address ++ '/' :: back)).bind (afterSlash? special)
        = none) ∨
        ∃ front, ∀ back, (afterSlash? special (unbroken address ++ '/' :: back)).bind
          (afterSlash? special) = some (front ++ '/' :: back) := by
    rw [same]
    by_cases first : Trail.isSeparator special c = true
    · by_cases second : Trail.isSeparator special d = true
      · exact .inr ⟨front, fun back => by simp [afterSlash?, first, second]⟩
      · exact .inl fun back => by simp [afterSlash?, first, second]
    · exact .inl fun back => by simp [afterSlash?, first]
  cases kind with
  | special =>
    obtain ⟨front, stops⟩ := exists_afterSlashes?_special (named rfl)
    exact .inr ⟨front, fun back => congrArg some (stops back)⟩
  | general => exact both false
  | file => exact both true

/-- What follows the slash of the path has no part in the authority. -/
theorem authority?_append (slashes : 2 ≤ address.count '/')
    (named : kind = .special → NamesHost address) (tail other : Text) :
    authority? kind (address ++ '/' :: tail) = authority? kind (address ++ '/' :: other) := by
  have slash : isControlOrSpace '/' = false := by decide
  have ends : (!endsAuthority kind '/') = false := by simp [endsAuthority_slash]
  have text (tail : Text) : unbroken ((address ++ '/' :: tail).rdropWhile isControlOrSpace)
      = unbroken address ++ '/' :: unbroken (tail.rdropWhile isControlOrSpace) := by
    rw [Text.rdropWhile_append_cons slash, unbroken_append_slash]
  rw [authority?, authority?, text, text]
  rcases exists_afterSlashes? slashes named with missing | ⟨front, found⟩
  · rw [missing, missing]
  · rw [found, found, Option.map_some, Option.map_some, Text.takeWhile_append_cons ends,
      Text.takeWhile_append_cons ends]

/-- Where there is nothing but slashes before the path, there is no authority. -/
theorem namesHost_of_authority?
    (filled : authority? .special (address ++ ['/']) ≠ some []) : NamesHost address := by
  by_contra unnamed
  have slash : isControlOrSpace '/' = false := by decide
  have text : unbroken ((address ++ ['/']).rdropWhile isControlOrSpace)
      = unbroken address ++ ['/'] := by
    rw [Text.rdropWhile_append_cons slash, unbroken_append_slash]
    rfl
  have separators : ∀ c ∈ unbroken address ++ ['/'], Trail.isSeparator true c = true := by
    intro c member
    rcases List.mem_append.mp member with inside | last
    · obtain ⟨among, kept⟩ := List.mem_filter.mp inside
      by_contra inner
      exact unnamed ⟨c, among, by simpa using inner, by simpa using kept⟩
    · rw [List.mem_singleton.mp last]
      rfl
  apply filled
  rw [authority?, text, afterSlashes?, List.dropWhile_eq_nil_iff.mpr separators]
  rfl

/-- Two texts that agree up to the slash of the path are read under one scheme and one host,
where a special scheme finds a host to stop at. -/
theorem Parser.ReadsAuthority.host_eq_of_append {parser : Parser}
    {scheme? : Text → Option Scheme} {host? : Scheme → Text → Option Host} {tail other : Text}
    {left right : Url} (reads : parser.ReadsAuthority scheme? host?) (absent : ':' ∉ name)
    (slashes : 2 ≤ address.count '/')
    (named : left.scheme.kind = .special → NamesHost address)
    (leftRead : parser (name ++ ':' :: (address ++ '/' :: tail)) = some left)
    (rightRead : parser (name ++ ':' :: (address ++ '/' :: other)) = some right) :
    left.scheme = right.scheme ∧
      (left.host = right.host ∨
        left.scheme.kind = .file ∧ (left.presentHost = none ∨ right.presentHost = none)) := by
  have same : left.scheme = right.scheme :=
    Option.some.inj ((reads.scheme_eq absent leftRead).symm.trans
      (reads.scheme_eq absent rightRead))
  refine ⟨same, ?_⟩
  rcases reads.host_eq absent leftRead with leftHost | ⟨file, hostless⟩
  · rcases reads.host_eq absent rightRead with rightHost | ⟨file, hostless⟩
    · left
      rw [leftHost, rightHost, ← same, authority?_append slashes named tail other]
    · exact .inr ⟨same ▸ file, .inr hostless⟩
  · exact .inr ⟨file, .inl hostless⟩

end DeepLink.Url
