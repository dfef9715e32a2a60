import Reshape.Pattern.Element
import Reshape.Spec.Error
/-!
# The key grammar

- `foo`: a literal key; a backslash escapes special characters
- `*`, `a*`, `a*b*c`: wildcards, each star standing for one character or more
- `&`, `&1`, `&(1,2)`, `pre-&1`: keys computed from references
- `$`, `$(1,0)`: the matched key as data
- `@`: the value of the level as data
- `@(1,path)`: a value found below the input of an outer level
- `#`, `#2`: the match count of a level; `#text` is a constant
- `a|b`: an or-group, split into sibling keys before any of them is parsed

A key with a nested spec may end in `[]`, which says that the level it matches is a list.
-/
namespace Reshape.Pattern

/-- The alternatives of an or-group, without the blanks around them. A key that is no or-group
stands for itself, blanks and all. -/
def splitAlternatives (key : String) : Except SpecError (List String) :=
  match splitTopLevel key.toList '|' with
  | .error e => .error (e.toKeyError key)
  | .ok parts =>
    if parts.length = 1 then .ok [key]
    else parts.mapM fun (part, start) =>
      let trimmed := Text.trim part
      if trimmed.isEmpty then
        .error (.unlocated (.invalidKey key "empty alternative in or-group" (some start)))
      else .ok (String.ofList trimmed)

/-- The text ends in a backslash that would escape what follows. -/
def endsWithEscape (text : List Char) : Bool :=
  (text.reverse.takeWhile (· == '\\')).length % 2 == 1

/-- Take an unescaped `[]` off the end of a key, and say whether it was there. -/
def stripArrayMarker (key : String) : String × Bool :=
  match key.toList.reverse with
  | ']' :: '[' :: rest =>
    if endsWithEscape rest.reverse then (key, false) else (String.ofList rest.reverse, true)
  | _ => (key, false)

/-- The offset of the first unescaped occurrence of a character. -/
def findUnescaped (target : Char) : (position : Nat) → List Char → Option Nat
  | _, [] => none
  | _, ['\\'] => none
  | position, '\\' :: _ :: rest => findUnescaped target (position + 2) rest
  | position, c :: rest =>
    if c == target then some position else findUnescaped target (position + 1) rest

/-- The literal parts between stars. Neighbouring stars have no meaning; `inner` says that a star
has been passed, and `part` is the part in progress. -/
def starParts (inner : Bool) (part : List Char) : List Piece → Option (List (List Char))
  | [] => some [part]
  | .star :: rest =>
    if inner && part.isEmpty then none
    else (starParts true [] rest).map (part :: ·)
  | .text t :: rest => starParts inner (part ++ t.toList) rest
  | .reference _ :: rest => starParts inner part rest

/-- A whole text read by one scan. -/
def parseWhole {α : Type} (scan : Scan α) (key : String) : Except SpecError α :=
  match scan.runOn key.toList 0 with
  | .ok a => .ok a
  | .error e => .error (e.toKeyError key)

/-- The scan of a `$` and its reference. -/
def matchedKeyScan : Scan Element := do
  let _ ← Scan.advance
  let r ← referenceTail
  match ← Scan.peek with
  | none => pure (.matchedKey r)
  | some _ => Scan.fail .afterReference

/-- What follows `#` is a level rather than a text. -/
def isCount (text : List Char) : Bool :=
  text.all Text.isDigit || (text.head? == some '(' && text.getLast? == some ')')

/-- A count of matches, or a constant text. -/
def parseCount (key : String) (tail : List Char) : Except SpecError Element :=
  if isCount tail then do
    let (r, rest) ← parseWhole (do
      let _ ← Scan.advance
      let r ← referenceTail
      let rest ← Scan.rest
      pure (r, rest)) key
    if r.group ≠ 0 || !rest.isEmpty then
      .error (.unlocated (.invalidKey key ScanProblem.countLevelOnly.message (some 1)))
    else .ok (.count r.level)
  else .ok (.constant (String.ofList (unescape tail)))

/-- A literal, a wildcard pattern or a key with references. A pattern of three stars or more is
taken to be within the size that its search may have: none is refused for being too large. -/
def parsePattern (key : String) : Except SpecError Element := do
  let read ← parseWhole (pieces true fun _ => false) key
  let hasStars := read.any fun
    | .star => true
    | _ => false
  let hasReferences := read.any fun
    | .reference _ => true
    | _ => false
  if hasStars && hasReferences then
    .error (.unlocated (.invalidKey key "cannot mix `*` and `&` in one key"
      (findUnescaped '&' 0 key.toList)))
  else if hasReferences then .ok (.reference (Template.ofPieces read))
  else
    match starParts false [] read with
    | none =>
      .error (.unlocated (.invalidKey key "consecutive `*` wildcards"
        (findUnescaped '*' 0 key.toList)))
    | some [] => .ok (.literal "")
    | some [text] => .ok (.literal (String.ofList text))
    | some [[], []] => .ok .any
    | some (first :: others) => .ok (.glob ⟨first, others⟩)

/-- Parse one key that is no or-group. -/
def parseKey (key : String) : Except SpecError Element :=
  match key.toList with
  | ['*'] => .ok .any
  | ['@'] => .ok .value
  | '@' :: _ =>
    match Lookup.parse key.toList with
    | .ok l => .ok (.lookup l)
    | .error e => .error (e.toKeyError key)
  | '$' :: _ => parseWhole matchedKeyScan key
  | '#' :: tail => parseCount key tail
  | _ => parsePattern key

end Reshape.Pattern
