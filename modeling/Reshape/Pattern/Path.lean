import Reshape.Pattern.Reference
import Reshape.Address.Basic
import Reshape.Text.Size
/-!
# Path expressions

A path expression is a dotted list of keys, lookups and list indices whose references and counts
depend on the walk. A lookup reads the input of a level, `up` levels from the innermost, at a path
of its own, so paths and lookups nest.
-/
namespace Reshape.Pattern

inductive PathStep where
  | key (template : Template)
  | lookup (up : Nat) (steps : List PathStep)
  | index (position : Nat)
  | indexReference (reference : Reference)
  | indexCount (up : Nat)
  | indexLookup (up : Nat) (steps : List PathStep)
  | append
  deriving Inhabited

/-- A read at a path below the input of a level. -/
structure Lookup where
  up : Nat
  steps : List PathStep
  deriving Inhabited

/-! ## Equality -/

mutual
def PathStep.beq : PathStep → PathStep → Bool
  | .key a, .key b => a == b
  | .lookup n a, .lookup m b => n == m && beqSteps a b
  | .index a, .index b => a == b
  | .indexReference a, .indexReference b => a == b
  | .indexCount a, .indexCount b => a == b
  | .indexLookup n a, .indexLookup m b => n == m && beqSteps a b
  | .append, .append => true
  | _, _ => false

def beqSteps : List PathStep → List PathStep → Bool
  | [], [] => true
  | a :: as, b :: bs => a.beq b && beqSteps as bs
  | _, _ => false
end

instance : BEq PathStep := ⟨PathStep.beq⟩

def Lookup.beq (a b : Lookup) : Bool := a.up == b.up && beqSteps a.steps b.steps

instance : BEq Lookup := ⟨Lookup.beq⟩

/-! ## Resolution -/

/-- The list index that a scalar stands for. -/
def scalarIndex? : Json → Option Nat
  | .num n => n.toWord?
  | .str text => Text.word? text
  | _ => none

/-- An index step, unless a list may not be that long. -/
def indexStep? (position : Nat) : Option Step :=
  if position ≤ Address.maxIndex then some (.index position) else none

/-- The value at an address below the input of a level. -/
def readLevel? (frames : Frames) (up : Nat) (address : Address) : Option Json :=
  (frames[up]?).bind fun frame => frame.input.bind fun base => base.get? address

mutual
/-- The step that a path step stands for at this point of the walk; nothing if anything it refers
to is missing. -/
def PathStep.resolve? (frames : Frames) : PathStep → Option Step
  | .key template => (template.resolve? frames).map .key
  | .lookup up steps =>
    (resolveSteps? frames steps).bind fun address =>
      (readLevel? frames up address).bind fun v => v.scalarKey?.map .key
  | .index position => indexStep? position
  | .indexReference r => ((r.resolve? frames).bind Text.word?).bind indexStep?
  | .indexCount up => frames[up]?.bind fun frame => indexStep? frame.count
  | .indexLookup up steps =>
    (resolveSteps? frames steps).bind fun address =>
      ((readLevel? frames up address).bind scalarIndex?).bind indexStep?
  | .append => some .append

/-- The address that a path stands for; nothing if any of its steps is missing. -/
def resolveSteps? (frames : Frames) : List PathStep → Option Address
  | [] => some []
  | step :: rest =>
    (step.resolve? frames).bind fun s => (resolveSteps? frames rest).map (s :: ·)
end

/-- The value that a lookup finds. -/
def Lookup.find? (l : Lookup) (frames : Frames) : Option Json :=
  (resolveSteps? frames l.steps).bind (readLevel? frames l.up)

/-! ## Canonical form -/

/-- Steps written with a dot before them, unless they come first. -/
def PathStep.isDotted : PathStep → Bool
  | .key _ => true
  | .lookup _ _ => true
  | _ => false

/-- A lookup whose path has been written. -/
def lookupText (up : Nat) (path : List Char) : List Char :=
  '@' :: '(' :: Nat.toDigits 10 up ++ ',' :: path ++ [')']

def bracketed (inner : List Char) : List Char := '[' :: inner ++ [']']

mutual
/-- A step with every reference in its form with both numbers. -/
def PathStep.canonical : PathStep → List Char
  | .key template => template.canonical
  | .lookup up steps => lookupText up (canonicalSteps [] steps)
  | .index position => bracketed (Nat.toDigits 10 position)
  | .indexReference r => bracketed (r.canonical '&')
  | .indexCount up => bracketed ('#' :: '(' :: Nat.toDigits 10 up ++ [')'])
  | .indexLookup up steps => bracketed (lookupText up (canonicalSteps [] steps))
  | .append => bracketed []

/-- The dotted path, continuing what is written already. -/
def canonicalSteps (written : List Char) : List PathStep → List Char
  | [] => written
  | step :: rest =>
    let dot := if step.isDotted && !written.isEmpty then ['.'] else []
    canonicalSteps (written ++ dot ++ step.canonical) rest
end

def Lookup.canonical (l : Lookup) : List Char := lookupText l.up (canonicalSteps [] l.steps)

/-! ## Scanning -/

/-- An index in brackets. -/
def indexWith (lookup : Scan Lookup) : Scan PathStep := do
  Scan.expect '['
  let step ← match ← Scan.peek with
    | some ']' => pure PathStep.append
    | some '&' => do
      let _ ← Scan.advance
      pure (.indexReference (← referenceTail))
    | some '#' => do
      let _ ← Scan.advance
      let r ← referenceTail
      if r.group ≠ 0 then Scan.fail .countLevelOnly
      else pure (.indexCount r.level)
    | some '@' => do
      let l ← lookup
      pure (.indexLookup l.up l.steps)
    | some c =>
      if Text.isDigit c then do
        let start ← Scan.position
        let n ← Scan.number
        if n > Address.maxIndex then Scan.failAt start (.indexTooLarge n Address.maxIndex)
        else pure (.index n)
      else Scan.fail (.invalidIndex c)
    | none => Scan.fail (.unclosed '[')
  Scan.expect ']'
  pure step

/-- The indices up to the end of a segment. Every round takes a character. -/
def indicesWith (lookup : Scan Lookup) : (fuel : Nat) → Scan (List PathStep)
  | 0 => pure []
  | fuel + 1 => do
    match ← Scan.peek with
    | none => pure []
    | some '[' => do
      let step ← indexWith lookup
      let more ← indicesWith lookup fuel
      pure (step :: more)
    | some c => Scan.fail (.afterIndex c)

/-- One segment of a path: a key or a lookup, which may be missing in front of an index, and any
number of indices. -/
def segmentWith (lookup : Scan Lookup) : Scan (List PathStep) := do
  let head ← match ← Scan.peek with
    | some '@' => do
      let l ← lookup
      pure [PathStep.lookup l.up l.steps]
    | some '[' => pure []
    | _ => do
      let read ← pieces false (· == '[')
      pure [.key (Template.ofPieces read)]
  let text ← Scan.rest
  let indices ← indicesWith lookup text.length
  pure (head ++ indices)

def segmentsWith (lookup : Scan Lookup) (offset : Nat) :
    List (List Char × Nat) → Except ScanError (List PathStep)
  | [] => .ok []
  | (segment, start) :: rest =>
    if segment.isEmpty then .error ⟨.emptySegment, offset + start⟩
    else do
      let steps ← (segmentWith lookup).runOn segment (offset + start)
      let more ← segmentsWith lookup offset rest
      pure (steps ++ more)

/-- A dotted path whose first character has the offset `offset`; no text is the empty path. -/
def stepsWith (lookup : Scan Lookup) (text : List Char) (offset : Nat) :
    Except ScanError (List PathStep) :=
  if text.isEmpty then .ok []
  else
    match splitTopLevel text '.' with
    | .error e => .error ⟨e.problem, e.position + offset⟩
    | .ok segments => segmentsWith lookup offset segments

/-- The inside of a lookup's parentheses: `n`, `n,path` or `path`. The path's offset counts the
bytes in front of it. -/
def lookupInside (lookup : Scan Lookup) (inner : List Char) (offset : Nat) :
    Except ScanError Lookup :=
  let (digits, rest) := inner.span Text.isDigit
  let tail := Text.trimStart rest
  if digits.isEmpty || !(rest.isEmpty || tail.head? == some ',') then do
    pure ⟨0, ← stepsWith lookup (Text.trim inner) offset⟩
  else
    let up := Text.digitsValue digits
    if up < Text.wordSize then do
      let path := tail.drop 1
      pure ⟨up, ← stepsWith lookup (Text.trim path)
        (offset + (Text.utf8Size inner - Text.utf8Size path))⟩
    else .error ⟨.numberTooLarge digits, offset⟩

/-- A bare name after `@`, up to the end or an unescaped bracket; `name` is what was read so far,
last character first. -/
def bareName (position : Nat) (name : List Char) :
    List Char → EStateM.Result ScanError Cursor (List Char)
  | [] => .ok name.reverse ⟨position, []⟩
  | ['\\'] => .error ⟨.danglingEscape, position + 1⟩ ⟨position + 1, []⟩
  | '\\' :: c :: rest => bareName (position + 2) (c :: '\\' :: name) rest
  | '[' :: rest => .ok name.reverse ⟨position, '[' :: rest⟩
  | ']' :: rest => .ok name.reverse ⟨position, ']' :: rest⟩
  | c :: rest => bareName (position + 1) (c :: name) rest

/-- Use the outcome of reading a text apart from the cursor. -/
def Scan.ofExcept {α : Type} : Except ScanError α → Scan α
  | .ok a => pure a
  | .error e => throw e

/-- A lookup `@`, `@name` or `@(up,path)`, in whose path lookups nest at most `depth` deep. -/
def lookupWithin : (depth : Nat) → Scan Lookup
  | 0 => do
    Scan.expect '@'
    pure ⟨0, []⟩
  | depth + 1 => do
    Scan.expect '@'
    match ← Scan.peek with
    | none => pure ⟨0, []⟩
    | some '[' => pure ⟨0, []⟩
    | some ']' => pure ⟨0, []⟩
    | some '(' => do
      let start ← Scan.position
      let inner ← Scan.parenthesized
      Scan.ofExcept (lookupInside (lookupWithin depth) inner (start + 1))
    | some _ => do
      let start ← Scan.position
      let name ← fun cursor => bareName cursor.position [] cursor.rest
      let steps ← Scan.ofExcept (stepsWith (lookupWithin depth) name start)
      pure ⟨0, steps⟩

/-- A lookup at the cursor. Each level of nesting takes characters of its own, so the length of
the text bounds the depth. -/
def Lookup.scan : Scan Lookup := do
  let text ← Scan.rest
  lookupWithin text.length

/-- A dotted path whose first character has the offset `offset`. -/
def parseSteps (text : List Char) (offset : Nat) : Except ScanError (List PathStep) :=
  stepsWith (lookupWithin text.length) text offset

/-- A whole text that is one lookup. -/
def Lookup.parse (text : List Char) : Except ScanError Lookup :=
  Scan.runOn (do
    let l ← Lookup.scan
    match ← Scan.peek with
    | none => pure l
    | some _ => Scan.fail .afterLookup) text 0

end Reshape.Pattern
