import DeepLink.NormalForm
import DeepLink.Proofs.PercentCodec
import DeepLink.Proofs.Splitting
import Mathlib.Data.List.Forall2

/-!
# Decoded paths

Decoding works on each piece of a path by itself: no piece becomes empty or gets a
delimiter. So the parts of a decoded path are the decoded parts (`fields_decodePath`), and a
decoded path has no slash at its ends (`trimmed_decodePath`). What a part is read as is said
without the function as well (`ReadAs`), and that parts stay apart is `parts_decodePath`.
-/
namespace DeepLink.NormalForm

open Text

variable {segment path : Text}

/-! ### Single segments -/

theorem decodeSegment_nil : decodeSegment [] = [] := by decide

theorem decodeSegment_eq_nil_iff : decodeSegment segment = [] ↔ segment = [] := by
  constructor
  · intro empty
    -- A segment with a character stands for a byte at least.
    by_contra filled
    unfold decodeSegment at empty
    split at empty
    next meaning decoded =>
      split at empty
      · exact filled empty
      · exact Percent.ne_nil_of_decode? filled decoded empty
    · exact filled empty
  · rintro rfl
    exact decodeSegment_nil

/-- Without an escape a segment stands for itself. -/
theorem decodeSegment_of_plain (plain : '%' ∉ segment) : decodeSegment segment = segment := by
  have bytes_eq (text : Text) (plain : '%' ∉ text) : Percent.bytes text = text.utf8 := by
    induction text with
    | nil => rfl
    | cons c rest ih =>
      have different : c ≠ '%' := fun same => plain (same ▸ List.mem_cons_self)
      rw [Percent.bytes_cons different, ih fun member => plain (.tail _ member), Text.utf8_cons]
  rw [decodeSegment, Percent.decode?_eq_some_iff.mpr (bytes_eq segment plain)]
  simp

theorem undelimited_decodeSegment (undelimited : Url.Undelimited segment) :
    Url.Undelimited (decodeSegment segment) := by
  unfold decodeSegment
  split
  next meaning _ =>
    split
    · exact undelimited
    next free => simpa [Url.Undelimited] using free
  · exact undelimited

theorem slash_not_mem_decodeSegment (absent : '/' ∉ segment) : '/' ∉ decodeSegment segment := by
  unfold decodeSegment
  split
  next meaning _ =>
    split
    · exact absent
    next free =>
      intro member
      exact free (List.any_eq_true.mpr ⟨'/', member, by decide⟩)
  · exact absent

theorem keepsPieces_decodeSegment : KeepsPieces '/' decodeSegment where
  absent _ := slash_not_mem_decodeSegment
  filled _ := decodeSegment_eq_nil_iff.mp

/-! ### Whole paths -/

theorem decodePath_eq (path : Text) :
    decodePath path = mapPieces '/' decodeSegment (path.trimEnds (· == '/')) := rfl

/-- The parts of a decoded path are the decoded parts of the path. -/
theorem fields_decodePath (path : Text) :
    (decodePath path).fields '/' = (path.fields '/').map decodeSegment := by
  rw [decodePath_eq, fields_mapPieces keepsPieces_decodeSegment decodeSegment_nil, fields_trimEnds]

theorem decodePath_eq_nil (partless : path.fields '/' = []) : decodePath path = [] := by
  have slashes : ∀ c ∈ path, (c == '/') = true := by
    intro c member
    by_contra different
    exact fields_ne_nil member (by simpa using different) partless
  rw [decodePath_eq, trimEnds_eq_nil_iff.mpr slashes, mapPieces_of_not_mem List.not_mem_nil,
    decodeSegment_nil]

theorem decodePath_eq_nil_iff : decodePath path = [] ↔ path.fields '/' = [] := by
  constructor
  · intro empty
    have parts := fields_decodePath path
    rw [empty, fields_nil] at parts
    exact List.map_eq_nil_iff.mp parts.symm
  · exact decodePath_eq_nil

theorem trimmed_decodePath (path : Text) : Trimmed (· == '/') (decodePath path) :=
  trimmed_mapPieces keepsPieces_decodeSegment (trimmed_trimEnds path)

theorem clean_decodePath (clean : Url.Clean path) : Url.Clean (decodePath path) := by
  intro c member
  rw [decodePath] at member
  rcases mem_joinWith member with rfl | ⟨piece, among, inside⟩
  · decide
  · obtain ⟨source, inPath, rfl⟩ := List.mem_map.mp among
    obtain ⟨noSlash, within⟩ := mem_splitOn inPath
    -- A piece has no slash because the path was split there, and the path is clean.
    have undelimited : Url.Undelimited source := by
      intro d here
      have inPath := (trimEnds_sublist path).subset (within d here)
      refine Bool.eq_false_iff.mpr fun delimiter => ?_
      rcases Url.isDelimiter_iff.mp delimiter with rfl | rfl | rfl
      · exact noSlash here
      · exact (clean _ inPath).1 rfl
      · exact (clean _ inPath).2 rfl
    have kept := undelimited_decodeSegment undelimited c inside
    constructor <;> rintro rfl <;> exact absurd kept (by decide)

/-! ### Segment by segment -/

/-- What a segment of a path is read as: its meaning, if that is a text without delimiters, or
else the segment itself. -/
inductive ReadAs (segment : Text) : Text → Prop where
  | meaning {text : Text} (decoded : Percent.decode? segment = some text)
    (undelimited : Url.Undelimited text) : ReadAs segment text
  | itself (unreadable : ∀ text, Percent.decode? segment = some text → ¬ Url.Undelimited text) :
    ReadAs segment segment

theorem exists_readAs (segment : Text) : ∃ image, ReadAs segment image := by
  by_cases readable : ∃ text, Percent.decode? segment = some text ∧ Url.Undelimited text
  · obtain ⟨text, decoded, undelimited⟩ := readable
    exact ⟨text, .meaning decoded undelimited⟩
  · exact ⟨segment, .itself fun text decoded free => readable ⟨text, decoded, free⟩⟩

theorem ReadAs.eq {image : Text} (read : ReadAs segment image) : decodeSegment segment = image := by
  have free (text : Text) : Url.Undelimited text ↔ ¬ text.any Url.isDelimiter = true := by
    simp [Url.Undelimited]
  unfold decodeSegment
  cases read with
  | meaning decoded undelimited =>
    rw [decoded]
    exact if_neg ((free _).mp undelimited)
  | itself unreadable =>
    split
    next text decoded =>
      have delimited := unreadable text decoded
      rw [free, not_not] at delimited
      exact if_pos delimited
    next => rfl

theorem readAs_iff {image : Text} : ReadAs segment image ↔ decodeSegment segment = image := by
  refine ⟨ReadAs.eq, ?_⟩
  rintro rfl
  obtain ⟨image, read⟩ := exists_readAs segment
  rwa [read.eq]

/-- Decoding a path keeps its parts apart: each is read by itself and none becomes empty. So the
path of a URL stays one, and it is empty only if it had no parts. -/
theorem parts_decodePath (path : Text) :
    (∀ segment, ∃! image, ReadAs segment image) ∧
      List.Forall₂ ReadAs (RouteText.parts path) (RouteText.parts (decodePath path)) ∧
      (∀ segment ∈ RouteText.parts path, ∀ image, ReadAs segment image → image ≠ []) ∧
      (Url.Clean path → Url.Clean (decodePath path)) ∧
      (decodePath path = [] ↔ RouteText.parts path = []) := by
  refine ⟨fun segment => ?_, ?_, ?_, clean_decodePath, decodePath_eq_nil_iff⟩
  · simp only [readAs_iff, existsUnique_eq']
  · rw [RouteText.parts, RouteText.parts, fields_decodePath, List.forall₂_map_right_iff,
      List.forall₂_same]
    exact fun segment _ => readAs_iff.mpr rfl
  · rintro segment member image read rfl
    exact (mem_fields member).1 (decodeSegment_eq_nil_iff.mp read.eq)

/-- Bytes that are no text stay, beside an escaped slash and empty segments. -/
theorem parts_decodePath_mixed :
    Url.Clean "//a%2Fb/%ff///c%20d/".toList ∧
      "%ff".toList ∈ RouteText.parts "//a%2Fb/%ff///c%20d/".toList ∧
      ReadAs "%ff".toList "%ff".toList ∧ "%ff".toList ≠ [] ∧
      Url.Clean (decodePath "//a%2Fb/%ff///c%20d/".toList) := by
  have clean : Url.Clean "//a%2Fb/%ff///c%20d/".toList := by simp [Url.Clean]
  have parts : RouteText.parts "//a%2Fb/%ff///c%20d/".toList
      = ["a%2Fb".toList, "%ff".toList, "c%20d".toList] := by decide
  have member : "%ff".toList ∈ RouteText.parts "//a%2Fb/%ff///c%20d/".toList :=
    parts ▸ .tail _ (.head _)
  have read : ReadAs "%ff".toList "%ff".toList := readAs_iff.mpr (by decide)
  obtain ⟨-, -, filled, kept, -⟩ := parts_decodePath "//a%2Fb/%ff///c%20d/".toList
  exact ⟨clean, member, read, filled _ member _ read, kept clean⟩

example : decodePath "//a%2Fb/%ff///c%20d/".toList = "a%2Fb/%ff///c d".toList := by decide

end DeepLink.NormalForm
