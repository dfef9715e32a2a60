import Reshape.Pattern.Escape
import Reshape.Text.Size
/-!
# Wildcard patterns

A glob is literal text with stars between its parts. A key matches when it can be cut into the
parts with a non-empty capture for each star. One star takes what stands between the two ends; two
stars are told apart by the first place where the part between them stands; more stars are matched
by a search that grows each capture from one character.
-/
namespace Reshape.Pattern

open Text (utf8Size)

/-- Literal parts with a star after each but the last. `Glob` stands for at least one star. -/
structure Glob where
  first : List Char
  others : List (List Char)
  deriving Repr, DecidableEq

/-- What stands between two texts at the ends of a third, if the third has room for `least` bytes
besides them. -/
def between? (least : Nat) (first last text : List Char) : Option (List Char) :=
  if utf8Size text < utf8Size first + utf8Size last + least || !first.isPrefixOf text ||
      !last.isSuffixOf text then none
  else some ((text.drop first.length).take (text.length - first.length - last.length))

/-- What follows a part that the text starts with, as the only capture. -/
def captureBehind? (part text : List Char) : Option (List (List Char)) :=
  if part.isPrefixOf text && utf8Size part < utf8Size text then some [text.drop part.length]
  else none

/-- Grow a capture by characters that it may hold until the rest of the text is accepted. -/
def shortestCapture {β : Type} (allowed : Char → Bool) (accept : List Char → Option β) :
    List Char → Option (List Char × β)
  | [] => none
  | c :: rest =>
    if allowed c then
      match accept rest with
      | some b => some ([c], b)
      | none => (shortestCapture allowed accept rest).map fun (capture, b) => (c :: capture, b)
    else none

/-- The shortest capture that leaves a text with further captures, and those. -/
def captureBefore? (allowed : Char → Bool) (further : List Char → Option (List (List Char)))
    (text : List Char) : Option (List (List Char)) :=
  (shortestCapture allowed further text).map fun (capture, captures) => capture :: captures

/-- Captures for a text that starts with a star and goes on with the given parts. -/
def capturesFrom (allowed : Char → Bool) : List (List Char) → List Char → Option (List (List Char))
  | [], text => if text.isEmpty then some [] else none
  | part :: parts, text =>
    captureBefore? allowed (fun rest => (part.isPrefixOf? rest).bind (capturesFrom allowed parts))
      text

namespace Glob

def stars (g : Glob) : Nat := g.others.length

/-- With three stars or more a capture stays on one line. -/
def allows (g : Glob) (c : Char) : Bool := g.stars < 3 || c != '\n'

/-- The texts that the stars stand for. -/
def cut? (g : Glob) (text : List Char) : Option (List (List Char)) :=
  match g.others with
  | [last] => (between? 1 g.first last text).map fun capture => [capture]
  | [part, last] =>
    (between? (utf8Size part + 2) g.first last text).bind
      (captureBefore? (fun _ => true) (captureBehind? part))
  | others => (g.first.isPrefixOf? text).bind (capturesFrom g.allows others)

/-- What the stars capture of a key that matches. -/
def captures? (g : Glob) (key : String) : Option (List String) :=
  (g.cut? key.toList).map fun captures => captures.map String.ofList

def canonical (g : Glob) : List Char :=
  escape g.first ++ g.others.flatMap fun part => '*' :: escape part

/-- Globs are compared by their canonical forms if both have three stars or more, and by their
parts if not. -/
def beq (a b : Glob) : Bool :=
  if a.stars < 3 || b.stars < 3 then decide (a = b) else a.canonical == b.canonical

instance : BEq Glob := ⟨beq⟩

end Glob
end Reshape.Pattern
