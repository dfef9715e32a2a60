import Reshape.Pattern.Cursor
import Reshape.Walk.Frame
/-!
# References to matched keys

A reference names a level of the walk, counted from the innermost, and a group of the key matched
there. A template is text with references in it.
-/
namespace Reshape.Pattern

structure Reference where
  level : Nat
  group : Nat
  deriving Repr, DecidableEq, Inhabited

namespace Reference

/-- The text referred to, if there is such a level and it has such a group. -/
def resolve? (r : Reference) (frames : Frames) : Option String :=
  frames[r.level]?.bind fun frame => frame.key.group? r.group

/-- The form with both numbers, such as `&(1,0)`. -/
def canonical (r : Reference) (sigil : Char) : List Char :=
  sigil :: '(' :: Nat.toDigits 10 r.level ++ ',' :: Nat.toDigits 10 r.group ++ [')']

end Reference

inductive Segment where
  | text (text : String)
  | reference (reference : Reference)
  deriving Repr, DecidableEq

/-- Text with references in it. -/
structure Template where
  segments : List Segment
  deriving Repr, DecidableEq

/-- Neighbouring texts become one and empty texts are dropped. -/
def mergeSegments : List Segment → List Segment
  | [] => []
  | .text t :: rest =>
    match mergeSegments rest with
    | .text u :: more => .text (t ++ u) :: more
    | more => if t.isEmpty then more else .text t :: more
  | .reference r :: rest => .reference r :: mergeSegments rest

namespace Template

def ofSegments (segments : List Segment) : Template := ⟨mergeSegments segments⟩

/-- A template without references. -/
def literal (text : String) : Template := ofSegments [.text text]

def hasReferences (t : Template) : Bool :=
  t.segments.any fun
    | .reference _ => true
    | .text _ => false

/-- The text of a template without references. -/
def literal? (t : Template) : Option String :=
  match t.segments with
  | [] => some ""
  | [.text text] => some text
  | _ => none

def resolveSegments? (frames : Frames) : List Segment → Option String
  | [] => some ""
  | .text t :: rest => (resolveSegments? frames rest).map (t ++ ·)
  | .reference r :: rest => do
    let t ← r.resolve? frames
    let more ← resolveSegments? frames rest
    some (t ++ more)

/-- The text with every reference replaced, if all of them resolve. -/
def resolve? (t : Template) (frames : Frames) : Option String :=
  resolveSegments? frames t.segments

def segmentCanonical : Segment → List Char
  | .text t => escape t.toList
  | .reference r => r.canonical '&'

/-- Escaped text, with every reference in its form with both numbers. -/
def canonical (t : Template) : List Char := t.segments.flatMap segmentCanonical

end Template

/-! ## Scanning -/

/-- What a key is made of. -/
inductive Piece where
  | text (text : String)
  | star
  | reference (reference : Reference)
  deriving Repr, DecidableEq

/-- The group number of a reference in parentheses; without one it is the whole key. -/
def groupTail : Scan Nat := do
  match ← Scan.peek with
  | some ',' =>
    let _ ← Scan.advance
    Scan.skipBlank
    let group ← Scan.number
    Scan.skipBlank
    pure group
  | _ => pure 0

/-- What follows the sigil of a reference: nothing, `n`, `(n)` or `(n,m)`. -/
def referenceTail : Scan Reference := do
  match ← Scan.peek with
  | some '(' =>
    let _ ← Scan.advance
    Scan.skipBlank
    let level ← Scan.number
    Scan.skipBlank
    let group ← groupTail
    Scan.expect ')'
    pure ⟨level, group⟩
  | some c => if Text.isDigit c then do pure ⟨← Scan.number, 0⟩ else pure ⟨0, 0⟩
  | none => pure ⟨0, 0⟩

/-- Put the text read so far, last character first, in front of the pieces. -/
def flushText (text : List Char) (pieces : List Piece) : List Piece :=
  if text.isEmpty then pieces else .text (String.ofList text.reverse) :: pieces

/-- A character that has no place inside a key. -/
def misplaced? : Char → Option ScanProblem
  | '@' => some (.sigilInside '@')
  | '$' => some (.sigilInside '$')
  | '#' => some (.sigilInside '#')
  | '[' => some .indexOutsidePath
  | ']' => some (.unbalanced ']')
  | '(' => some .strayParenthesis
  | ')' => some (.unbalanced ')')
  | '|' => some .strayBar
  | _ => none

/-- The pieces up to the end or to a stop character. Every round takes a character, so the length
of the text is enough `fuel`. -/
def piecesWithin (stars : Bool) (stop : Char → Bool) :
    (fuel : Nat) → (text : List Char) → Scan (List Piece)
  | 0, text => pure (flushText text [])
  | fuel + 1, text => do
    match ← Scan.peek with
    | none => pure (flushText text [])
    | some c =>
      if stop c then pure (flushText text [])
      else match c with
        | '\\' =>
          let _ ← Scan.advance
          match ← Scan.advance with
          | some e => piecesWithin stars stop fuel (e :: text)
          | none => Scan.fail .danglingEscape
        | '*' =>
          if stars then do
            let _ ← Scan.advance
            let more ← piecesWithin stars stop fuel []
            pure (flushText text (.star :: more))
          else Scan.fail .starOutsideKey
        | '&' =>
          let _ ← Scan.advance
          let r ← referenceTail
          let more ← piecesWithin stars stop fuel []
          pure (flushText text (.reference r :: more))
        | c =>
          match misplaced? c with
          | some problem => Scan.fail problem
          | none =>
            let _ ← Scan.advance
            piecesWithin stars stop fuel (c :: text)

/-- Text, wildcards and references up to the end or to an unescaped stop character. -/
def pieces (stars : Bool) (stop : Char → Bool) : Scan (List Piece) := do
  let text ← Scan.rest
  piecesWithin stars stop text.length []

/-- The template of the pieces; wildcards have no place in one. -/
def Template.ofPieces (pieces : List Piece) : Template :=
  .ofSegments (pieces.filterMap fun
    | .text t => some (.text t)
    | .reference r => some (.reference r)
    | .star => none)

end Reshape.Pattern
