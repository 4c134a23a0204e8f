import DeepLink.Url.Segment

/-!
# URL paths

The path of a URL is either a sequence of segments after a slash or, for a URL without
authority, any text. The path of a `file` URL has no empty segments at its start.

No path holds `?` or `#`: `Path` carries this as its field `clean`.
-/
namespace DeepLink.Url

structure Path where
  text : Text
  clean : Clean text

namespace Path

/-- The path of a URL that has nothing after its authority. -/
def empty : Path := ⟨[], clean_nil⟩

/-- The path whose segments follow a first slash. -/
def ofSegments (special : Bool) (text : Text) : Path :=
  ⟨(Trail.read special false text).write, Trail.clean_write _⟩

/-- The path of a `file` URL with the given segments. -/
def ofFileTrail (trail : Trail) : Path :=
  ⟨'/' :: trail.write.dropWhile (· == '/'), by
    intro c member
    rcases List.mem_cons.mp member with rfl | inside
    · decide
    · exact Trail.clean_write trail c ((List.dropWhile_sublist _).subset inside)⟩

/-- The path of a URL with neither authority nor a slash after its scheme. -/
def ofRootless (text : Text) : Path :=
  ⟨Percent.encode (fun c => isControlFree c && c != '?' && c != '#') text,
    PathSegment.clean_encode (by decide) (by decide) text⟩

end Path
end DeepLink.Url
