import DeepLink.Proofs.DecodedPath
import DeepLink.Proofs.UrlReading

/-!
# Reading paths

`Url.parse?` meets the law for paths (`keepsPaths_parse?`): the segments of an inert path are
escaped one by one, and nothing else happens to them. This is said of the trail of such a path
first (`Trail.texts_read`), and then of what follows the authority of a URL
(`path_of_readLocation?`) or the host of a `file` URL (`path_of_readFile?`).
-/
namespace DeepLink.Url

/-! ### Trails of inert paths -/

namespace Trail

open PathSegment

variable {kind : SchemeKind} {special file : Bool} {trail : Trail} {segment : PathSegment}
  {path : Text}

/-- The texts of the segments, from the first to the last. -/
def texts (trail : Trail) : List Text := trail.segments.reverse.map (·.text)

/-- Whether a segment is one or two dots. -/
def IsDotted (segment : PathSegment) : Prop :=
  ¬ (segment.isDoubleDot = false ∧ segment.isSingleDot = false)

theorem breaksAfter_eq_false {count : Nat} {source : Text}
    (unbroken : ∀ c ∈ source, isTabOrNewline c = false) : breaksAfter count source = false := by
  -- The induction is on the text that is searched for a break.
  fun_induction breaksAfter count source with
  | case1 => rfl
  | case2 c rest => exact unbroken c (.head _)
  | case3 count c rest tab ih => exact ih fun d member => unbroken d (.tail _ member)
  | case4 count c rest plain ih => exact ih fun d member => unbroken d (.tail _ member)

theorem text_read (unbroken : ∀ c ∈ path, isTabOrNewline c = false) :
    (PathSegment.read path).text = Percent.encode keptInPath path :=
  congrArg (Percent.encode keptInPath) (unbroken_eq_self unbroken)

/-- A first segment opens the trail of a path as it is, unless it is a drive letter with a bar. -/
theorem texts_start (unbroken : ∀ c ∈ path, isTabOrNewline c = false)
    (unbarred : ∀ letter, path ≠ [letter, '|']) :
    (start (PathSegment.read path)).texts = [Percent.encode keptInPath path] := by
  have whole := text_read unbroken
  have notBroken : (PathSegment.read path).broken = false := breaksAfter_eq_false unbroken
  generalize same : PathSegment.read path = segment at whole notBroken ⊢
  fun_cases start segment with
  | case1 letter mark clean broken drive =>
    -- Neither character is an escape, so both stand in the path.
    have written : Percent.encode keptInPath path = [letter, mark] := whole.symm
    have absent : '%' ∉ Percent.encode keptInPath path := by
      rw [written]
      intro member
      rcases List.mem_pair.mp member with rfl | rfl
      · exact absurd drive.1 (by decide)
      · rcases drive.2 with bar | bar <;> exact absurd bar (by decide)
    have plain := (Percent.encode_eq_self_of_not_mem absent).symm.trans written
    rw [written]
    rcases drive.2 with rfl | rfl
    · rfl
    · exact absurd plain (unbarred letter)
  | case2 letter mark clean broken other => exact congrArg (fun text => [text]) whole
  | case3 letter c rest clean alpha => cases notBroken
  | case4 letter c rest clean alpha => cases notBroken
  | case5 segment notTwo notDrive => exact congrArg (fun text => [text]) whole

/-- A segment that is no dots is added to the trail. -/
theorem step_undotted (plain : ¬ IsDotted segment) (further : trail.segments ≠ []) :
    step file trail segment = { trail with segments := segment :: trail.segments } := by
  obtain ⟨double, single⟩ := not_not.mp plain
  simp [step, double, single, further]

theorem foldl_undotted {segments : List PathSegment}
    (plain : ∀ segment ∈ segments, ¬ IsDotted segment) (further : trail.segments ≠ []) :
    (segments.foldl (step file) trail).texts = trail.texts ++ segments.map (·.text) := by
  induction segments generalizing trail with
  | nil => simp
  | cons segment rest ih =>
    rw [List.foldl_cons, step_undotted (plain segment (.head _)) further,
      ih (fun other member => plain other (.tail _ member)) (List.cons_ne_nil _ _)]
    simp [texts]

/-- Only a dot segment at the end is closed. -/
theorem closed_undotted {segments : List PathSegment}
    (plain : ∀ segment ∈ segments, ¬ IsDotted segment) : closed segments = segments := by
  rw [closed, if_neg]
  intro ends
  obtain ⟨last, found, dotted⟩ := (Option.any_eq_true _ _).mp ends
  obtain ⟨double, single⟩ := not_not.mp (plain last (List.mem_of_getLast? found))
  simp [double, single] at dotted

theorem splitOnP_isSeparator (unslashed : special = true → '\\' ∉ path) :
    path.splitOnP (isSeparator special) = path.splitOn '/' := by
  refine Text.splitOnP_congr fun c member => ?_
  cases special with
  | false => simp [isSeparator]
  | true =>
    have other : c ≠ '\\' := fun same => unslashed rfl (same ▸ member)
    simp [isSeparator, other]

/-- A first piece that is no dots opens a trail as it is. -/
theorem texts_step_start {piece : Text} (unbroken : ∀ c ∈ piece, isTabOrNewline c = false)
    (plain : ¬ IsDotted (PathSegment.read piece))
    (unbarred : kind = .file → ∀ letter, piece ≠ [letter, '|']) :
    (step (kind = .file) ⟨[], false⟩ (PathSegment.read piece)).texts
      = [Percent.encode keptInPath piece] := by
  obtain ⟨double, single⟩ := not_not.mp plain
  by_cases file : kind = .file
  · simp [step, double, single, file, texts_start unbroken (unbarred file)]
  · simp [step, double, single, file, texts, text_read unbroken]

/-- The trail of an inert path: its pieces, escaped. -/
theorem texts_read (inert : InertPath kind path) :
    (Trail.read (kind ≠ .general) (kind = .file) path).texts
      = (path.splitOn '/').map (Percent.encode keptInPath) := by
  obtain ⟨first, rest, split⟩ := List.exists_cons_of_ne_nil (List.splitOnP_ne_nil (· == '/') path)
  rw [← List.splitOn_eq_splitOnP] at split
  have unbroken : ∀ piece ∈ first :: rest, ∀ c ∈ piece, isTabOrNewline c = false :=
    fun piece member c inside => inert.unbroken c ((Text.mem_splitOn (split ▸ member)).2 c inside)
  have undotted : ∀ piece ∈ first :: rest, ¬ IsDotted (PathSegment.read piece) :=
    fun piece member => not_not.mpr (inert.undotted piece (split ▸ member))
  have segments : ∀ segment ∈ PathSegment.read first :: rest.map PathSegment.read,
      ¬ IsDotted segment := by
    rw [← List.map_cons]
    exact List.forall_mem_map.mpr undotted
  have opened : (step (kind = .file) ⟨[], false⟩ (PathSegment.read first)).texts
      = [Percent.encode keptInPath first] := by
    refine texts_step_start (unbroken first (.head _)) (undotted first (.head _)) ?_
    rintro file letter rfl
    exact inert.unbarred file letter (split ▸ .head _)
  have further : (step (kind = .file) ⟨[], false⟩ (PathSegment.read first)).segments ≠ [] := by
    intro empty
    rw [texts, empty] at opened
    cases opened
  have others :
      (rest.map PathSegment.read).map (·.text) = rest.map (Percent.encode keptInPath) := by
    rw [List.map_map]
    exact List.map_congr_left fun piece member => text_read (unbroken piece (.tail _ member))
  have unslashed : decide (kind ≠ .general) = true → '\\' ∉ path :=
    fun special => inert.unslashed (of_decide_eq_true special)
  rw [Trail.read, splitOnP_isSeparator unslashed, split, List.map_cons, closed_undotted segments,
    List.foldl_cons,
    foldl_undotted (fun segment member => segments segment (.tail _ member)) further, opened,
    others, List.map_cons, List.singleton_append]

theorem keepsPieces_encode : Text.KeepsPieces '/' (Percent.encode keptInPath) where
  absent piece free := by
    intro member
    rcases Percent.mem_encode member with same | digit | ⟨_, inside⟩
    · exact absurd same (by decide)
    · exact absurd digit (by decide)
    · exact free inside
  filled _ := Percent.encode_eq_nil_iff.mp

theorem write_read (inert : InertPath kind path) :
    (Trail.read (kind ≠ .general) (kind = .file) path).write
      = '/' :: Text.mapPieces '/' (Percent.encode keptInPath) path := by
  rw [write, ← texts, texts_read inert]
  rfl

/-- The fields of an inert path are escaped one by one. -/
theorem fields_read (inert : InertPath kind path) :
    (Trail.read (kind ≠ .general) (kind = .file) path).write.fields '/'
      = (path.fields '/').map (Percent.encode keptInPath) := by
  rw [write_read inert, Text.fields_cons_self, Text.fields_mapPieces keepsPieces_encode rfl]

end Trail

/-- A slash before an inert path only adds an empty segment. -/
theorem InertPath.cons_slash {kind : SchemeKind} {path : Text} (inert : InertPath kind path) :
    InertPath kind ('/' :: path) := by
  have pieces : ('/' :: path).splitOn '/' = [] :: path.splitOn '/' := by
    have apart : ([] ++ '/' :: path).splitOn '/' = List.splitOn '/' [] ++ path.splitOn '/' :=
      List.splitOn_append_cons_self [] path
    rwa [List.splitOn_nil] at apart
  constructor
  · exact List.forall_mem_cons.mpr ⟨by decide, inert.unbroken⟩
  · exact fun special member =>
      inert.unslashed special ((List.mem_cons.mp member).resolve_left (by decide))
  · rw [pieces]
    exact List.forall_mem_cons.mpr ⟨by decide, inert.undotted⟩
  · rw [pieces]
    exact fun file letter member =>
      inert.unbarred file letter ((List.mem_cons.mp member).resolve_left (List.cons_ne_nil _ _))

/-! ### Paths behind a host -/

variable {scheme : Scheme} {host path query source : Text} {continued : Bool}
  {location : Location} {url : Url}

theorem takeWhile_plain (special : Bool)
    (undivided : ∀ c ∈ host, Trail.isSeparator true c = false) (source : Text) :
    (host ++ '/' :: source).takeWhile (!Trail.isSeparator special ·) = host ∧
      (host ++ '/' :: source).dropWhile (!Trail.isSeparator special ·) = '/' :: source := by
  have inner : ∀ c ∈ host, (!Trail.isSeparator special c) = true := by
    intro c member
    have other := undivided c member
    cases special with
    | true => simp [other]
    | false => simp_all [Trail.isSeparator]
  rw [List.takeWhile_append_of_pos inner, List.dropWhile_append_of_pos inner]
  simp [Trail.isSeparator]

theorem path_of_readAuthority? (undivided : ∀ c ∈ host, Trail.isSeparator true c = false)
    (read : readAuthority? scheme (host ++ '/' :: source) continued = some location) :
    location.path = .ofSegments scheme.isSpecial source := by
  obtain ⟨_, left, _, _, _, cut, path⟩ := of_readAuthority? read
  obtain ⟨front, back⟩ := takeWhile_plain scheme.isSpecial undivided source
  rw [front] at cut
  -- Only a backslash in the authority would move a part of it to the path.
  have whole : left = [] := by
    by_contra filled
    exact absurd (undivided '\\' (cut filled)) (by decide)
  rw [path, back, whole]
  rfl

/-- Outside `file` URLs, what follows the two slashes is read as an authority. -/
theorem afterSlashes?_plain {kind : SchemeKind} (plain : PlainHost kind host)
    (other : kind ≠ .file) (source : Text) :
    afterSlashes? kind (unbroken ("//".toList ++ host ++ '/' :: source))
      = some (unbroken host ++ '/' :: unbroken source) := by
  have text : unbroken ("//".toList ++ host ++ '/' :: source)
      = '/' :: '/' :: (unbroken host ++ '/' :: unbroken source) := by
    rw [unbroken_append_slash]
    rfl
  rw [text]
  cases kind with
  | file => exact absurd rfl other
  | general => rfl
  | special =>
    -- The slashes before the host are dropped, and the host starts with none.
    obtain ⟨c, member, _, kept⟩ := plain.named rfl
    have filled : unbroken host ≠ [] :=
      List.ne_nil_of_mem (List.mem_filter.mpr ⟨member, by simp [kept]⟩)
    have inner : (unbroken host ++ '/' :: unbroken source).dropWhile (Trail.isSeparator true)
        = unbroken host ++ '/' :: unbroken source := by
      apply Text.dropWhile_eq_self_of_head?
      intro d first
      rw [List.head?_append_of_ne_nil _ filled] at first
      exact (plain.undivided d (List.mem_filter.mp (List.mem_of_mem_head? first)).1).1
    rw [afterSlashes?, List.dropWhile_cons_of_pos rfl, List.dropWhile_cons_of_pos rfl, inner]

theorem path_of_readLocation? (plain : PlainHost scheme.kind host) (other : scheme.kind ≠ .file)
    (read : readLocation? scheme ("//".toList ++ host ++ '/' :: source) continued
      = some location) :
    location.path = .ofSegments scheme.isSpecial (unbroken source) := by
  rw [readLocation?_of_slashes other (afterSlashes?_plain plain other source)] at read
  exact path_of_readAuthority?
    (fun c member => (plain.undivided c (List.mem_filter.mp member).1).1) read

/-- The slash behind `localhost`, or behind no host, starts the path of a `file` URL. -/
theorem path_of_readFile? (plain : PlainHost .file host)
    (read : readFile? ("//".toList ++ host ++ '/' :: source) = some location) :
    location.path = .ofFileTrail (.read true true source) ∨
      location.path = .ofFileTrail (.read true true ('/' :: source)) := by
  have text : "//".toList ++ host ++ '/' :: source = '/' :: '/' :: (host ++ '/' :: source) := by
    simp
  have behind : readFileHost? (host ++ '/' :: source) = some location := by
    rw [text] at read
    exact read
  obtain ⟨front, back⟩ :=
    takeWhile_plain true (fun c member => (plain.undivided c member).1) source
  obtain ⟨_, path, rfl, _, drive | slash | bare⟩ := of_readFileHost? behind
  · rw [front, plain.driveless rfl] at drive
    cases drive
  · rw [slash, back]
    exact .inr rfl
  · rw [bare, back]
    exact .inl rfl

theorem fields_of_readLocation? (plain : PlainHost scheme.kind host)
    (inert : InertPath scheme.kind path)
    (read : readLocation? scheme ("//".toList ++ host ++ '/' :: path) continued = some location) :
    location.path.text.fields '/' = (path.fields '/').map (Percent.encode keptInPath) := by
  by_cases file : scheme.kind = .file
  · unfold readLocation? at read
    simp only [file] at read
    rw [file] at plain inert
    have dropped (trail : Trail) :
        (Path.ofFileTrail trail).text.fields '/' = trail.write.fields '/' := by
      rw [Path.ofFileTrail, Text.fields_cons_self, Text.fields_dropWhile]
    have fields {source : Text} (inert : InertPath .file source) :
        (Trail.read true true source).write.fields '/'
          = (source.fields '/').map (Percent.encode keptInPath) := by
      simpa only [ne_eq, reduceCtorEq, not_false_eq_true, decide_true] using Trail.fields_read inert
    rcases path_of_readFile? plain read with same | same
    · rw [same, dropped, fields inert]
    · rw [same, dropped, fields inert.cons_slash, Text.fields_cons_self]
  · have fields := Trail.fields_read inert
    have notFile : decide (scheme.kind = .file) = false := decide_eq_false file
    rw [notFile] at fields
    rw [path_of_readLocation? plain file read, unbroken_eq_self inert.unbroken]
    exact fields

/-! ### Path and query -/

theorem cutOptional_of_not_mem {separator : Char} {text : Text} (absent : separator ∉ text) :
    cutOptional separator text = (text, none) := by
  rw [cutOptional, Text.cut?_eq_none_iff.mpr absent]
  rfl

theorem cutOptional_join (free : '?' ∉ path) (query : Text) :
    cutOptional '?' (RouteText.join path query)
      = (path, if query = [] then none else some query) := by
  unfold RouteText.join
  split
  · exact cutOptional_of_not_mem free
  · rw [cutOptional, Text.cut?_append free]
    rfl

theorem of_keptInSpecialQuery {c : Char} (kept : keptInSpecialQuery c = true) :
    isControlOrSpace c = false ∧ isTabOrNewline c = false ∧ keptInQuery c = true ∧ c ≠ '#' := by
  have small : c.toNat < 127 := by
    simp only [keptInSpecialQuery, keptInQuery, isControlFree, Bool.and_eq_true,
      decide_eq_true_eq] at kept
    exact kept.1.1.2
  exact Text.forall_char (motive := fun c => keptInSpecialQuery c = true →
    isControlOrSpace c = false ∧ isTabOrNewline c = false ∧ keptInQuery c = true ∧ c ≠ '#')
    (by decide) c small kept

/-- A query of characters that are kept in every URL is read as it is. -/
theorem encode_unbroken_of_kept (kind : SchemeKind)
    (kept : ∀ c ∈ query, keptInSpecialQuery c = true) :
    Percent.encode (if kind = .general then keptInQuery else keptInSpecialQuery) (unbroken query)
      = query := by
  rw [unbroken_eq_self fun c member => (of_keptInSpecialQuery (kept c member)).2.1]
  split
  · exact Percent.encode_eq_self fun c member => (of_keptInSpecialQuery (kept c member)).2.2.1
  · exact Percent.encode_eq_self kept

/-- Behind a scheme, a text without delimiters and a written query are read as they are. -/
theorem readRest?_join (scheme : Scheme) {front : Text} (noQuestion : '?' ∉ front)
    (noHash : '#' ∉ front) (kept : ∀ c ∈ query, keptInSpecialQuery c = true) :
    readRest? scheme (RouteText.join front query)
      = (readLocation? scheme front (query ≠ [])).map fun location =>
          { location with scheme, query := if query = [] then none else some query
                          fragment := none } := by
  have hashless : '#' ∉ RouteText.join front query := by
    intro member
    rcases RouteText.of_mem_join member with inFront | same | inQuery
    · exact noHash inFront
    · exact absurd same (by decide)
    · exact (of_keptInSpecialQuery (kept _ inQuery)).2.2.2 rfl
  rw [readRest?, cutOptional_of_not_mem hashless, Option.map_eq_bind]
  dsimp only
  rw [cutOptional_join noQuestion]
  by_cases empty : query = []
  · simp [empty, Function.comp_def]
  · simp [empty, encode_unbroken_of_kept scheme.kind kept, Function.comp_def]

/-- Nothing is dropped behind an inert path and its query. -/
theorem rdropWhile_inert {kind : SchemeKind} (inert : Inert kind path query) (front : Text) :
    (RouteText.join (front ++ '/' :: path) query).rdropWhile isControlOrSpace
      = RouteText.join (front ++ '/' :: path) query := by
  have slash : isControlOrSpace '/' = false := by decide
  have question : isControlOrSpace '?' = false := by decide
  unfold RouteText.join
  split
  next empty =>
    rw [Text.rdropWhile_append_cons slash, Text.rdropWhile_eq_iff_getLast?.mpr (inert.ended empty)]
  next =>
    rw [Text.rdropWhile_append_cons question,
      Text.rdropWhile_eq_self fun c member => (of_keptInSpecialQuery (inert.kept c member)).1]

theorem not_mem_front {kind : SchemeKind} {c : Char} (plain : PlainHost kind host)
    (clean : Clean path) (delimiter : c = '?' ∨ c = '#') :
    c ∉ "//".toList ++ host ++ '/' :: path := by
  intro member
  rcases List.mem_append.mp member with front | later
  · rcases List.mem_append.mp front with slashes | inHost
    · rcases delimiter with rfl | rfl <;> simp at slashes
    · have other := (plain.undivided c inHost).2
      rcases delimiter with rfl | rfl <;> exact absurd other (by decide)
  · rcases List.mem_cons.mp later with rfl | inPath
    · rcases delimiter with same | same <;> exact absurd same (by decide)
    · rcases delimiter with rfl | rfl
      · exact (clean _ inPath).1 rfl
      · exact (clean _ inPath).2 rfl

theorem keepsPaths_parse? : Parser.KeepsPaths parse? := by
  intro name host path query url absent read plain inert
  have apart : RouteText.join (name ++ "://".toList ++ host ++ '/' :: path) query
      = name ++ ':' :: RouteText.join ("//".toList ++ host ++ '/' :: path) query := by
    rw [← RouteText.join_append_cons]
    simp
  rw [apart] at read
  obtain ⟨_, read⟩ := of_parse? absent read
  rw [rdropWhile_inert inert, readRest?_join _ (not_mem_front plain inert.clean (.inl rfl))
    (not_mem_front plain inert.clean (.inr rfl)) inert.kept] at read
  obtain ⟨location, located, built⟩ := Option.map_eq_some_iff.mp read
  rw [← built]
  refine ⟨fields_of_readLocation? plain inert.toInertPath located, ?_⟩
  by_cases empty : query = [] <;> simp [empty]

end DeepLink.Url
