import Reshape.Regex.Escape
/-!
# Bracketed classes

A bracketed class is a union of characters, ranges, named sets and further brackets. Set operators
join the unions from left to right.
-/
namespace Reshape.Regex

inductive SetOp where
  | inter
  | diff
  | symmDiff
  deriving Repr, DecidableEq

/-- A bracket that is still open. -/
structure Bracket where
  negated : Bool
  /-- The union in progress. -/
  union : CharClass
  /-- An operator and what is on its left. -/
  pending : Option (SetOp × CharClass)

namespace Bracket

def add (bracket : Bracket) (set : CharClass) : Bracket :=
  { bracket with union := .union bracket.union set }

/-- What the bracket denotes so far. Operands are folded where case is ignored. -/
def value (flags : Flags) (bracket : Bracket) : CharClass :=
  match bracket.pending with
  | none => bracket.union
  | some (op, left) =>
    let a := flags.fold left
    let b := flags.fold bracket.union
    match op with
    | .inter => .inter a b
    | .diff => .diff a b
    | .symmDiff => .symmDiff a b

/-- Take what was read so far as the left side of an operator. -/
def operate (flags : Flags) (bracket : Bracket) (op : SetOp) : Bracket :=
  { bracket with union := .empty, pending := some (op, bracket.value flags) }

/-- The set of a bracket that is complete. Without Unicode a set has ASCII characters only, and no
negation has. -/
def close (flags : Flags) (bracket : Bracket) : Option CharClass :=
  let set := flags.fold (bracket.value flags)
  if !bracket.negated then some set
  else if flags.unicode then some (.compl set)
  else none

end Bracket

/-- Take the hyphens at the start of a bracket. -/
def leadingHyphens (flags : Flags) : (fuel : Nat) → CharClass → List Char → CharClass × List Char
  | 0, set, text => (set, text)
  | fuel + 1, set, text =>
    match text with
    | '-' :: rest => leadingHyphens flags fuel (.union set (.char '-')) (flags.skip rest)
    | text => (set, text)

/-- Read the start of a bracket: a negation, then the hyphens that stand for themselves, or else a
closing bracket that does. -/
def openBracket (flags : Flags) (text : List Char) : Option (Bracket × List Char) :=
  let text := flags.skip text
  let (negated, text) := match text with
    | '^' :: rest => (true, flags.skip rest)
    | text => (false, text)
  let (hyphens, behind) := leadingHyphens flags text.length .empty text
  match text, behind with
  | ']' :: rest, _ =>
    match flags.skip rest with
    | [] => none
    | rest => some ({ negated, union := .char ']', pending := none }, rest)
  | _, [] => none
  | _, behind => some ({ negated, union := hyphens, pending := none }, behind)

/-- Read the name of an ASCII set, behind its opening bracket; a negated one has no set without
Unicode. -/
def readAsciiSet (flags : Flags) (text : List Char) : Option (Option CharClass × List Char) :=
  match text with
  | ':' :: rest =>
    let (negated, rest) := match rest with
      | '^' :: rest => (true, rest)
      | rest => (false, rest)
    let (name, rest) := rest.span (· != ':')
    match asciiNamed? (String.ofList name), rest with
    | some set, ':' :: ']' :: rest =>
      let set := flags.fold set
      some (if !negated then some set else if flags.unicode then some (.compl set) else none, rest)
    | _, _ => none
  | _ => none

/-- A member of a bracket, which a range can have at its ends if it is a character. -/
inductive Member where
  | char (c : Char)
  | set (chars : CharClass)

def readMember (flags : Flags) : List Char → Option (Member × List Char)
  | [] => none
  | '\\' :: text =>
    match readEscape flags text with
    | some (.char c, rest) => some (.char c, rest)
    | some (.set set, rest) => some (.set set, rest)
    | _ => none
  | c :: text => some (.char c, text)

/-- A character that a class may hold. -/
def Flags.allows (flags : Flags) (c : Char) : Bool := flags.unicode || c.toNat < 0x80

/-- Read a member or a range. A hyphen before another one or before the end of the bracket is not
that of a range. -/
def readRange (flags : Flags) (text : List Char) : Option (CharClass × List Char) := do
  let (first, text) ← readMember flags text
  let alone : Option CharClass := match first with
    | .char c => if flags.allows c then some (.char c) else none
    | .set set => some set
  match flags.skip text with
  | [] => none
  | '-' :: behind =>
    match flags.skip behind with
    | [] => none
    | ']' :: _ => some (← alone, '-' :: behind)
    | '-' :: _ => some (← alone, '-' :: behind)
    | behind =>
      match first, ← readMember flags behind with
      | .char a, (.char b, rest) =>
        if a ≤ b && flags.allows a && flags.allows b then some (.range a.toNat b.toNat, rest)
        else none
      | _, _ => none
  | text => some (← alone, text)

/-- Read on in a bracket up to its end; `outer` holds the brackets around it. Every round takes a
character. -/
def readBracket (flags : Flags) : (fuel : Nat) → (outer : List Bracket) → Bracket → List Char →
    Option (CharClass × List Char)
  | 0, _, _, _ => none
  | fuel + 1, outer, bracket, text =>
    match flags.skip text with
    | [] => none
    | '[' :: rest =>
      match readAsciiSet flags rest with
      | some (set, rest) => do readBracket flags fuel outer (bracket.add (← set)) rest
      | none => do
        let (inner, rest) ← openBracket flags rest
        readBracket flags fuel (bracket :: outer) inner rest
    | ']' :: rest => do
      let set ← bracket.close flags
      match outer with
      | [] => some (set, rest)
      | around :: outer => readBracket flags fuel outer (around.add set) rest
    | '&' :: '&' :: rest => readBracket flags fuel outer (bracket.operate flags .inter) rest
    | '-' :: '-' :: rest => readBracket flags fuel outer (bracket.operate flags .diff) rest
    | '~' :: '~' :: rest => readBracket flags fuel outer (bracket.operate flags .symmDiff) rest
    | text => do
      let (set, rest) ← readRange flags text
      readBracket flags fuel outer (bracket.add set) rest

/-- Read a class behind its opening bracket. -/
def readClass (flags : Flags) (text : List Char) : Option (CharClass × List Char) := do
  let (bracket, rest) ← openBracket flags text
  readBracket flags (text.length + 1) [] bracket rest

end Reshape.Regex
