import Reshape.Pattern.Escape
import Reshape.Text.Blank
import Reshape.Text.Numeral
/-!
# Scanning keys and write paths

A cursor holds the text that is still to be read and the offset of its first character. A scan
moves the cursor; one that fails says where and leaves the cursor at the place it had reached.
-/
namespace Reshape.Pattern

/-- What can be wrong with a key or a write path. -/
inductive ScanProblem where
  | expected (wanted : Char) (found : Option Char)
  | expectedNumber
  | numberTooLarge (digits : List Char)
  | danglingEscape
  | unclosed (bracket : Char)
  | unbalanced (bracket : Char)
  | starOutsideKey
  | sigilInside (sigil : Char)
  | indexOutsidePath
  | strayParenthesis
  | strayBar
  | emptySegment
  | afterIndex (found : Char)
  | indexTooLarge (index limit : Nat)
  | countLevelOnly
  | invalidIndex (found : Char)
  | afterReference
  | afterLookup
  deriving Repr, DecidableEq

namespace ScanProblem

def message : ScanProblem → String
  | expected wanted (some c) => s!"expected `{wanted}`, found `{c}`"
  | expected wanted none => s!"expected `{wanted}`, found end of input"
  | expectedNumber => "expected a number"
  | numberTooLarge digits => s!"number `{String.ofList digits}` is too large"
  | danglingEscape => "dangling escape character"
  | unclosed c => s!"unclosed `{c}`"
  | unbalanced c => s!"unbalanced `{c}`"
  | starOutsideKey => "`*` is only valid in input keys"
  | sigilInside c => s!"`{c}` is only valid at the start of a key"
  | indexOutsidePath => "array indices are only valid in write paths"
  | strayParenthesis => "`(` is only valid after a reference"
  | strayBar => "unexpected `|` outside an or-group"
  | emptySegment => "empty path segment"
  | afterIndex c => s!"unexpected `{c}` after array index"
  | indexTooLarge index limit => s!"array index {index} exceeds the limit of {limit}"
  | countLevelOnly => "`#` takes a single level argument"
  | invalidIndex c => s!"invalid array index starting with `{c}`"
  | afterReference => "unexpected characters after `$` reference"
  | afterLookup => "unexpected characters after lookup"

end ScanProblem

/-- A problem and the offset of the character it was found at. -/
structure ScanError where
  problem : ScanProblem
  position : Nat
  deriving Repr, DecidableEq

def ScanError.message (e : ScanError) : String := e.problem.message

/-- The text still to be read, and the offset of its first character. -/
structure Cursor where
  position : Nat
  rest : List Char
  deriving Repr, DecidableEq

/-- A step of reading: it moves the cursor, and may fail where it stands. -/
abbrev Scan := EStateM ScanError Cursor

/-- Run a scan over a whole text whose first character has the offset `offset`. -/
def Scan.runOn {α : Type} (scan : Scan α) (text : List Char) (offset : Nat) :
    Except ScanError α :=
  match scan.run ⟨offset, text⟩ with
  | .ok a _ => .ok a
  | .error e _ => .error e

namespace Scan

def peek : Scan (Option Char) := fun cursor => .ok cursor.rest.head? cursor

def position : Scan Nat := fun cursor => .ok cursor.position cursor

def rest : Scan (List Char) := fun cursor => .ok cursor.rest cursor

/-- Take the next character, if there is one. -/
def advance : Scan (Option Char) := fun cursor =>
  match cursor.rest with
  | [] => .ok none cursor
  | c :: rest => .ok (some c) ⟨cursor.position + 1, rest⟩

/-- Take the longest run of characters with a property. -/
def takeWhile (p : Char → Bool) : Scan (List Char) := fun cursor =>
  let taken := cursor.rest.takeWhile p
  .ok taken ⟨cursor.position + taken.length, cursor.rest.dropWhile p⟩

def failAt {α : Type} (position : Nat) (problem : ScanProblem) : Scan α :=
  throw ⟨problem, position⟩

/-- Fail at the cursor. -/
def fail {α : Type} (problem : ScanProblem) : Scan α := fun cursor =>
  .error ⟨problem, cursor.position⟩ cursor

/-- Take one given character. -/
def expect (wanted : Char) : Scan Unit := fun cursor =>
  match cursor.rest with
  | c :: rest =>
    if c == wanted then .ok () ⟨cursor.position + 1, rest⟩
    else .error ⟨.expected wanted (some c), cursor.position⟩ cursor
  | [] => .error ⟨.expected wanted none, cursor.position⟩ cursor

def skipBlank : Scan Unit := do
  let _ ← takeWhile Text.isBlank

/-- One or more ASCII digits that denote a machine word. -/
def number : Scan Nat := do
  let start ← position
  let digits ← takeWhile Text.isDigit
  match Text.digits? digits with
  | none => failAt start .expectedNumber
  | some n => if n < Text.wordSize then pure n else failAt start (.numberTooLarge digits)

/-- The rest of a parenthesized group with `depth + 1` open parentheses; `start` is the offset of
the first of them, and `inner` what was read so far, last character first. -/
def parenthesizedTail (start : Nat) :
    (depth position : Nat) → (inner text : List Char) → EStateM.Result ScanError Cursor (List Char)
  | _, position, _, [] => .error ⟨.unclosed '(', start⟩ ⟨position, []⟩
  | _, position, _, ['\\'] => .error ⟨.danglingEscape, position + 1⟩ ⟨position + 1, []⟩
  | depth, position, inner, '\\' :: c :: rest =>
    parenthesizedTail start depth (position + 2) (c :: '\\' :: inner) rest
  | depth, position, inner, '(' :: rest =>
    parenthesizedTail start (depth + 1) (position + 1) ('(' :: inner) rest
  | 0, position, inner, ')' :: rest => .ok inner.reverse ⟨position + 1, rest⟩
  | depth + 1, position, inner, ')' :: rest =>
    parenthesizedTail start depth (position + 1) (')' :: inner) rest
  | depth, position, inner, c :: rest =>
    parenthesizedTail start depth (position + 1) (c :: inner) rest

/-- A balanced group `(...)`; its inner text, escapes kept. -/
def parenthesized : Scan (List Char) := do
  let start ← position
  expect '('
  fun cursor => parenthesizedTail start 0 cursor.position [] cursor.rest

end Scan

/-- The state of a split: what was read of the part in progress, last character first, its offset,
and the offsets of the open parentheses and brackets, innermost first. -/
structure Split where
  part : List Char
  start : Nat
  parentheses : List Nat
  brackets : List Nat

/-- Split at a separator that is neither escaped nor inside parentheses or brackets. -/
def splitFrom (separator : Char) (split : Split) (position : Nat) :
    List Char → Except ScanError (List (List Char × Nat))
  | [] =>
    match split.parentheses, split.brackets with
    | start :: _, _ => .error ⟨.unclosed '(', start⟩
    | [], start :: _ => .error ⟨.unclosed '[', start⟩
    | [], [] => .ok [(split.part.reverse, split.start)]
  | ['\\'] => .error ⟨.danglingEscape, position⟩
  | '\\' :: c :: rest =>
    splitFrom separator { split with part := c :: '\\' :: split.part } (position + 2) rest
  | '(' :: rest =>
    splitFrom separator
      { split with part := '(' :: split.part, parentheses := position :: split.parentheses }
      (position + 1) rest
  | ')' :: rest =>
    match split.parentheses with
    | [] => .error ⟨.unbalanced ')', position⟩
    | _ :: outer =>
      splitFrom separator { split with part := ')' :: split.part, parentheses := outer }
        (position + 1) rest
  | '[' :: rest =>
    splitFrom separator
      { split with part := '[' :: split.part, brackets := position :: split.brackets }
      (position + 1) rest
  | ']' :: rest =>
    match split.brackets with
    | [] => .error ⟨.unbalanced ']', position⟩
    | _ :: outer =>
      splitFrom separator { split with part := ']' :: split.part, brackets := outer }
        (position + 1) rest
  | c :: rest =>
    if c == separator && split.parentheses.isEmpty && split.brackets.isEmpty then do
      let parts ← splitFrom separator ⟨[], position + 1, [], []⟩ (position + 1) rest
      pure ((split.part.reverse, split.start) :: parts)
    else splitFrom separator { split with part := c :: split.part } (position + 1) rest

/-- The parts of a text between its top-level separators, each with its offset; escapes are kept,
so that a part can be scanned again. -/
def splitTopLevel (text : List Char) (separator : Char) :
    Except ScanError (List (List Char × Nat)) :=
  splitFrom separator ⟨[], 0, [], []⟩ 0 text

end Reshape.Pattern
