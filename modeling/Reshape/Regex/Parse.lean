import Reshape.Regex.Bracket
/-!
# Reading regular expressions

A pattern is read from left to right with the groups that are still open on a stack. A flag setting
counts to the end of the group it stands in, in the alternatives that follow as well. A text is
split at the matches of a pattern that could be read.
-/
namespace Reshape.Regex

/-- A part of an alternative. A flag setting matches the empty text and cannot be repeated. -/
inductive Part where
  | expr (e : Expr)
  | setting

def Part.toExpr : Part → Expr
  | expr e => e
  | setting => .empty

/-- A group that is still open: the alternatives before the one in progress and the parts of that
one, each list with the last first. -/
structure Level where
  flags : Flags
  branches : List Expr
  parts : List Part

namespace Level

/-- The alternative in progress. -/
def branch (level : Level) : Expr :=
  match level.parts with
  | [] => .empty
  | last :: before => before.foldl (fun e part => .seq part.toExpr e) last.toExpr

def expr (level : Level) : Expr :=
  level.branches.foldl (fun e branch => .alt branch e) level.branch

def push (level : Level) (e : Expr) : Level :=
  { level with parts := .expr e :: level.parts }

def nextBranch (level : Level) : Level :=
  { level with branches := level.branch :: level.branches, parts := [] }

/-- Repeat the last part, if there is one that can be repeated. -/
def repeatLast (level : Level) (f : Expr → Expr) : Option Level :=
  match level.parts with
  | .expr e :: before => some { level with parts := .expr (f e) :: before }
  | _ => none

end Level

def Flags.set? (flags : Flags) (letter : Char) (on : Bool) : Option Flags :=
  match letter with
  | 'i' => some { flags with ignoreCase := on }
  | 'm' => some { flags with multiLine := on }
  | 's' => some { flags with dotAll := on }
  | 'U' => some { flags with swapGreed := on }
  | 'u' => some { flags with unicode := on }
  | 'R' => some { flags with crlf := on }
  | 'x' => some { flags with verbose := on }
  | _ => none

/-- What a group starts with. -/
inductive GroupStart where
  | group (flags : Flags)
  | named (name : List Char)
  /-- Flags that are set without opening a group. -/
  | setting (flags : Flags)

/-- Read flags up to the end of the group's start. No letter and no hyphen comes twice, and a
hyphen is not the last. -/
def readFlags (seen : List Char) (on : Bool) (flags : Flags) :
    List Char → Option (GroupStart × List Char)
  | [] => none
  | c :: text =>
    if c == ':' || c == ')' then
      if seen.head? == some '-' then none
      else if c == ':' then some (.group flags, text)
      else if seen.isEmpty then none
      else some (.setting flags, text)
    else if seen.contains c then none
    else if c == '-' then readFlags (c :: seen) false flags text
    else do readFlags (c :: seen) on (← flags.set? c on) text

/-- A character that the name of a group may have. -/
def isNameChar (first : Bool) (c : Char) : Bool :=
  c == '_' || isAlphabetic c ||
    (!first && (c == '.' || c == '[' || c == ']' || (category c).startsWith "N"))

/-- Read the name of a group. -/
def groupName (text : List Char) : Option (List Char × List Char) :=
  match text.span (· != '>') with
  | (c :: name, '>' :: rest) =>
    if isNameChar true c && name.all (isNameChar false) then some (c :: name, rest) else none
  | _ => none

/-- Read what is behind an opening parenthesis. Nothing can look around. -/
def readGroupStart (flags : Flags) (text : List Char) : Option (GroupStart × List Char) :=
  match flags.skip text with
  | '?' :: 'P' :: '<' :: rest => (groupName rest).map fun (name, rest) => (.named name, rest)
  | '?' :: '<' :: rest => (groupName rest).map fun (name, rest) => (.named name, rest)
  | '?' :: rest => readFlags [] true flags rest
  | text => some (.group flags, text)

/-- Read digits. -/
def readDigits (flags : Flags) : (fuel : Nat) → (digits : List Char) → List Char →
    List Char × List Char
  | 0, digits, text => (digits.reverse, text)
  | fuel + 1, digits, text =>
    match text with
    | c :: rest =>
      if Text.isDigit c then readDigits flags fuel (c :: digits) (flags.skip rest)
      else (digits.reverse, text)
    | [] => (digits.reverse, [])

/-- Bounds of repetitions have at most 32 bits. -/
def countLimit : Nat := 0x100000000

/-- Read a bound of a repetition, with blanks around it. -/
def readBound (flags : Flags) (text : List Char) : Option (Nat × List Char) :=
  let (digits, rest) := readDigits flags text.length [] (Text.trimStart text)
  let n := Text.digitsValue digits
  if digits.isEmpty || countLimit ≤ n then none else some (n, flags.skip (Text.trimStart rest))

/-- Read the bounds of a repetition up to the closing brace. -/
def readBounds (flags : Flags) (text : List Char) :
    Option ((Nat × Option Nat) × List Char) := do
  let (least, text) ← readBound flags (flags.skip text)
  match text with
  | '\x7d' :: rest => some ((least, some least), rest)
  | ',' :: rest =>
    match flags.skip rest with
    | '\x7d' :: rest => some ((least, none), rest)
    | rest =>
      match ← readBound flags rest with
      | (most, '\x7d' :: rest) => if least ≤ most then some ((least, some most), rest) else none
      | _ => none
  | _ => none

/-- Whether a repetition is greedy: a question mark turns that round. -/
def readGreed (flags : Flags) : List Char → Bool × List Char
  | '?' :: rest => (flags.swapGreed, rest)
  | text => (!flags.swapGreed, text)

def dot? (flags : Flags) : Option CharClass :=
  if !flags.unicode then none
  else if flags.dotAll then some (.named .any)
  else some (.compl (.ofChars (if flags.crlf then ['\r', '\n'] else ['\n'])))

def lineStart (flags : Flags) : Look :=
  if !flags.multiLine then .textStart else if flags.crlf then .lineStartCrlf else .lineStart

def lineEnd (flags : Flags) : Look :=
  if !flags.multiLine then .textEnd else if flags.crlf then .lineEndCrlf else .lineEnd

/-- Read a pattern. `outer` holds the groups around the one in progress, and `names` the names of
the groups so far. Every round takes a character. -/
def readLevels : (fuel : Nat) → (outer : List Level) → Level → (names : List (List Char)) →
    List Char → Option Expr
  | 0, _, _, _, _ => none
  | fuel + 1, outer, level, names, text =>
    let flags := level.flags
    match flags.skip text with
    | [] => if outer.isEmpty then some level.expr else none
    | '(' :: rest => do
      match ← readGroupStart flags rest with
      | (.group inner, rest) =>
        readLevels fuel (level :: outer) ⟨inner, [], []⟩ names rest
      | (.named name, rest) =>
        if names.contains name then none
        else readLevels fuel (level :: outer) ⟨flags, [], []⟩ (name :: names) rest
      | (.setting flags, rest) =>
        readLevels fuel outer { level with flags, parts := .setting :: level.parts } names rest
    | ')' :: rest =>
      match outer with
      | [] => none
      | around :: outer => readLevels fuel outer (around.push level.expr) names rest
    | '|' :: rest => readLevels fuel outer level.nextBranch names rest
    | '[' :: rest => do
      let (set, rest) ← readClass flags rest
      readLevels fuel outer (level.push (.set set)) names rest
    | '?' :: rest => do
      let (greedy, rest) := readGreed flags rest
      readLevels fuel outer (← level.repeatLast fun e => e.optional greedy) names rest
    | '*' :: rest => do
      let (greedy, rest) := readGreed flags rest
      readLevels fuel outer (← level.repeatLast fun e => e.star greedy) names rest
    | '+' :: rest => do
      let (greedy, rest) := readGreed flags rest
      readLevels fuel outer (← level.repeatLast fun e => .rounds e greedy) names rest
    | '\x7b' :: rest => do
      let ((least, most), rest) ← readBounds flags rest
      let (greedy, rest) := readGreed flags (flags.skip rest)
      let level ← level.repeatLast fun e =>
        match most with
        | none => e.atLeast greedy least
        | some most => e.between greedy least most
      readLevels fuel outer level names rest
    | '.' :: rest => do readLevels fuel outer (level.push (.set (← dot? flags))) names rest
    | '^' :: rest => readLevels fuel outer (level.push (.look (lineStart flags))) names rest
    | '$' :: rest => readLevels fuel outer (level.push (.look (lineEnd flags))) names rest
    | '\\' :: rest => do
      let (escaped, rest) ← readEscape flags rest
      let e : Expr := match escaped with
        | .char c => .set (flags.fold (.char c))
        | .set set => .set set
        | .look condition => .look condition
      readLevels fuel outer (level.push e) names rest
    | c :: rest => readLevels fuel outer (level.push (.set (flags.fold (.char c)))) names rest

/-- The largest expression that is not refused. -/
def maxSize : Nat := 600000

/-- The expression that a pattern denotes, if it is well formed and not too large. -/
def parse? (pattern : String) : Option Expr :=
  let text := pattern.toList
  (readLevels (text.length + 1) [] ⟨{}, [], []⟩ [] text).filter (·.size ≤ maxSize)

/-- The pieces of a text between the matches of a pattern, if the pattern is well formed. -/
def split? (pattern text : String) : Option (List String) :=
  (parse? pattern).map fun e => (e.split text.toList).map String.ofList

end Reshape.Regex
