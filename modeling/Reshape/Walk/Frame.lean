import Reshape.Json.Basic
/-!
# Frames of a walk

Every level that a walk has entered is a frame. Frames are listed innermost first, so a reference
`n` levels up is the frame at position `n`.
-/
namespace Reshape

/-- A key that a pattern accepted, with what its wildcards captured. -/
structure MatchedKey where
  raw : String
  captures : List String
  deriving Repr, DecidableEq, Inhabited

namespace MatchedKey

/-- A match without captures. -/
def plain (raw : String) : MatchedKey := ⟨raw, []⟩

/-- Group 0 is the whole key, the others are the captures from left to right. -/
def group? (m : MatchedKey) : Nat → Option String
  | 0 => some m.raw
  | n + 1 => m.captures[n]?

end MatchedKey

/-- An open level: its key, how many of its children have matched, and its value if it is in the
input. -/
structure Frame where
  key : MatchedKey
  count : Nat
  input : Option Json
  deriving Inhabited

abbrev Frames := List Frame

namespace Frames

/-- Open a level that has no matches yet. -/
def push (frames : Frames) (key : MatchedKey) (input : Option Json) : Frames :=
  ⟨key, 0, input⟩ :: frames

/-- Count one more match on the innermost level. -/
def increment : Frames → Frames
  | [] => []
  | frame :: outer => { frame with count := frame.count + 1 } :: outer

/-- The keys from the outermost level to the innermost. -/
def keys (frames : Frames) : List String := frames.reverse.map fun frame => frame.key.raw

end Frames
end Reshape
