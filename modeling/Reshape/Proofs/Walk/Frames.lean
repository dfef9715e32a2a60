import Reshape.Pattern.Element
/-!
# Keys and counts of frames

References and the patterns made of them see only the keys of the open levels, so counting a
match changes nothing of what matches.
-/
namespace Reshape

namespace Frames

/-- Count `n` more matches on the innermost level. -/
def countBy (n : Nat) : Frames → Frames
  | [] => []
  | frame :: outer => { frame with count := frame.count + n } :: outer

@[simp] theorem countBy_zero (frames : Frames) : frames.countBy 0 = frames := by
  cases frames <;> rfl

theorem increment_eq_countBy (frames : Frames) : frames.increment = frames.countBy 1 := by
  cases frames <;> rfl

@[simp] theorem countBy_countBy (n m : Nat) (frames : Frames) :
    (frames.countBy n).countBy m = frames.countBy (n + m) := by
  cases frames with
  | nil => rfl
  | cons frame outer => rw [countBy, countBy, countBy, Nat.add_assoc]

@[simp] theorem keys_countBy (n : Nat) (frames : Frames) :
    (frames.countBy n).map Frame.key = frames.map Frame.key := by
  cases frames <;> rfl

@[simp] theorem inputs_countBy (n : Nat) (frames : Frames) :
    (frames.countBy n).map Frame.input = frames.map Frame.input := by
  cases frames <;> rfl

@[simp]
theorem tail_countBy (n : Nat) (frames : Frames) : (frames.countBy n).tail = frames.tail := by
  cases frames <;> rfl

end Frames

namespace Pattern

variable {frames frames' : Frames}

theorem Reference.resolve?_congr (h : frames.map Frame.key = frames'.map Frame.key)
    (r : Reference) : r.resolve? frames = r.resolve? frames' := by
  have hlevel (frames : Frames) : r.resolve? frames =
      ((frames.map Frame.key)[r.level]?).bind fun key => key.group? r.group := by
    rw [Reference.resolve?, List.getElem?_map, Option.bind_map]
    rfl
  rw [hlevel, hlevel, h]

theorem Template.resolveSegments?_congr (h : frames.map Frame.key = frames'.map Frame.key)
    (segments : List Segment) :
    resolveSegments? frames segments = resolveSegments? frames' segments := by
  induction segments with
  | nil => rfl
  | cons segment rest ih =>
    cases segment with
    | text t => rw [resolveSegments?, resolveSegments?, ih]
    | reference r => rw [resolveSegments?, resolveSegments?, ih, r.resolve?_congr h]

/-- What an element matches depends on the keys of the open levels only. -/
theorem Element.match?_congr (h : frames.map Frame.key = frames'.map Frame.key) (e : Element)
    (key : String) : e.match? key frames = e.match? key frames' := by
  cases e with
  | reference t => rw [match?, match?, Template.resolve?, Template.resolve?,
      Template.resolveSegments?_congr h]
  | _ => rfl

@[simp] theorem Element.match?_countBy (n : Nat) (frames : Frames) (e : Element) (key : String) :
    e.match? key (frames.countBy n) = e.match? key frames :=
  e.match?_congr (frames.keys_countBy n) key

/-- A literal element matches its own text and nothing else is captured. -/
@[simp] theorem Element.match?_literal (text : String) (frames : Frames) :
    (Element.literal text).match? text frames = some (.plain text) := by
  rw [match?, if_pos (beq_self_eq_true text)]

end Pattern
end Reshape
