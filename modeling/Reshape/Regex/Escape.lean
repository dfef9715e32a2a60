import Reshape.Regex.Expr
import Reshape.Regex.Property
import Reshape.Text.Numeral
/-!
# Flags and escapes

What a backslash introduces in a pattern, under the flags in force there. Readers take the text
that is left and give back what is behind what they read; they have no value where the pattern is
malformed.
-/
namespace Reshape.Regex

/-- How a part of a pattern is read. -/
structure Flags where
  ignoreCase : Bool := false
  multiLine : Bool := false
  dotAll : Bool := false
  swapGreed : Bool := false
  unicode : Bool := true
  crlf : Bool := false
  /-- Blanks and comments do not count. -/
  verbose : Bool := false
  deriving Repr, DecidableEq

/-- The text behind blanks and comments; a comment ends with its line. -/
def skipBlanks : (inComment : Bool) → List Char → List Char
  | _, [] => []
  | true, c :: text => skipBlanks (c != '\n') text
  | false, c :: text =>
    if Text.isBlank c then skipBlanks false text
    else if c == '#' then skipBlanks true text
    else c :: text

/-- The text behind what does not count. -/
def Flags.skip (flags : Flags) (text : List Char) : List Char :=
  if flags.verbose then skipBlanks false text else text

/-- The set, closed under case if case is ignored. -/
def Flags.fold (flags : Flags) (set : CharClass) : CharClass :=
  if !flags.ignoreCase then set
  else if flags.unicode then .folded set
  else .foldedAscii set

/-- What an escape stands for. -/
inductive Escaped where
  | char (c : Char)
  | set (chars : CharClass)
  | look (condition : Look)
  deriving DecidableEq

def hexValue? (c : Char) : Option Nat :=
  if '0' ≤ c && c ≤ '9' then some (c.toNat - 48)
  else if 'a' ≤ c && c ≤ 'f' then some (c.toNat - 87)
  else if 'A' ≤ c && c ≤ 'F' then some (c.toNat - 55)
  else none

/-- The character at a code point, surrogates aside. -/
def charAt? (n : Nat) : Option Char :=
  if n < 0xD800 || (0xDFFF < n && n < 0x110000) then some (Char.ofNat n) else none

/-- Read a given number of hexadecimal digits. -/
def hexDigits (flags : Flags) : (count value : Nat) → List Char → Option (Nat × List Char)
  | 0, value, text => some (value, text)
  | count + 1, value, c :: text => do
    hexDigits flags count (16 * value + (← hexValue? c)) (flags.skip text)
  | _ + 1, _, [] => none

/-- Read hexadecimal digits up to a closing brace. -/
def bracedHex (flags : Flags) : (fuel : Nat) → (digits : List Nat) → List Char →
    Option (Nat × List Char)
  | 0, _, _ => none
  | fuel + 1, digits, text =>
    match flags.skip text with
    | '\x7d' :: rest =>
      if digits.isEmpty then none
      else some (digits.foldr (fun d n => 16 * n + d) 0, flags.skip rest)
    | c :: rest => do bracedHex flags fuel ((← hexValue? c) :: digits) rest
    | [] => none

/-- Read the character that a code point of `count` digits or one in braces stands for. One of two
digits is a byte, and only an ASCII byte is a character without Unicode. -/
def hexEscape (flags : Flags) (count : Nat) (text : List Char) : Option (Char × List Char) :=
  match flags.skip text with
  | '\x7b' :: rest => do
    let (n, rest) ← bracedHex flags (rest.length + 1) [] rest
    some (← charAt? n, rest)
  | text => do
    let (n, rest) ← hexDigits flags count 0 text
    if !flags.unicode && count == 2 && 0x7F < n then none else some (← charAt? n, rest)

/-- Read a name up to a closing brace. -/
def bracedName (flags : Flags) : (fuel : Nat) → (name : List Char) → List Char →
    Option (List Char × List Char)
  | 0, _, _ => none
  | fuel + 1, name, text =>
    match flags.skip text with
    | '\x7d' :: rest => some (name.reverse, rest)
    | c :: rest => bracedName flags fuel (c :: name) rest
    | [] => none

/-- The parts of a text before and behind its first `mark`. -/
def cutAt? (mark : List Char) : List Char → Option (List Char × List Char)
  | [] => none
  | c :: text =>
    if mark.isPrefixOf (c :: text) then some ([], (c :: text).drop mark.length)
    else (cutAt? mark text).map fun (before, behind) => (c :: before, behind)

/-- The set that the name of a property, or a property and its value, denotes. -/
def propertySet? (name : List Char) : Option CharClass :=
  match cutAt? ['!', '='] name with
  | some (property, value) => (propertyValue? property value).map .compl
  | none =>
    match (cutAt? [':'] name).or (cutAt? ['='] name) with
    | some (property, value) => propertyValue? property value
    | none => property? name

/-- Read the name of a property, one letter or a name in braces. Case is folded before the set is
negated. -/
def propertyEscape (flags : Flags) (negated : Bool) (text : List Char) :
    Option (CharClass × List Char) := do
  let (name, rest) ← match flags.skip text with
    | '\x7b' :: rest => bracedName flags (rest.length + 1) [] rest
    | '\\' :: _ => none
    | c :: rest => some ([c], flags.skip rest)
    | [] => none
  if !flags.unicode then none
  else
    let set := flags.fold (← propertySet? name)
    some (if negated then .compl set else set, rest)

/-- The sets with a letter of their own. -/
def letterSet? (flags : Flags) (letter : Char) : Option CharClass :=
  match letter with
  | 'd' => some (if flags.unicode then .named .digit else ranges [('0', '9')])
  | 's' => some (if flags.unicode then .named .space else .union (.range 9 13) (.char ' '))
  | 'w' =>
    if flags.unicode then some (.named .word)
    else some (ranges [('0', '9'), ('A', 'Z'), ('a', 'z'), ('_', '_')])
  | _ => none

/-- A character that a name of a word boundary may have. -/
def isBoundaryChar (c : Char) : Bool := c.isAlpha || c == '-'

/-- Read the rest of a word boundary's name. -/
def boundaryName (flags : Flags) : (fuel : Nat) → (name : List Char) → List Char →
    Option (List Char × List Char)
  | 0, _, _ => none
  | fuel + 1, name, c :: text =>
    if isBoundaryChar c then boundaryName flags fuel (c :: name) (flags.skip text)
    else if c == '\x7d' then some (name.reverse, text)
    else none
  | _ + 1, _, [] => none

/-- Read what may follow `\b`: a kind of boundary in braces. Braces that cannot hold a name are
left for a repetition. -/
def boundaryKind (flags : Flags) (text : List Char) : Option (Look × List Char) :=
  match text with
  | '\x7b' :: rest =>
    match flags.skip rest with
    | [] => none
    | c :: inside =>
      if !isBoundaryChar c then some (.wordBoundary !flags.unicode, text)
      else do
        let (name, rest) ← boundaryName flags (inside.length + 2) [] (c :: inside)
        let condition ← match String.ofList name with
          | "start" => some (Look.wordStart !flags.unicode)
          | "end" => some (Look.wordEnd !flags.unicode)
          | "start-half" => some (Look.wordStartHalf !flags.unicode)
          | "end-half" => some (Look.wordEndHalf !flags.unicode)
          | _ => none
        some (condition, rest)
  | text => some (.wordBoundary !flags.unicode, text)

/-- Read what follows a backslash. -/
def readEscape (flags : Flags) : List Char → Option (Escaped × List Char)
  | [] => none
  | c :: text =>
    match c with
    | 'x' => (hexEscape flags 2 text).map fun (c, rest) => (.char c, rest)
    | 'u' => (hexEscape flags 4 text).map fun (c, rest) => (.char c, rest)
    | 'U' => (hexEscape flags 8 text).map fun (c, rest) => (.char c, rest)
    | 'p' => (propertyEscape flags false text).map fun (set, rest) => (.set set, rest)
    | 'P' => (propertyEscape flags true text).map fun (set, rest) => (.set set, rest)
    | 'a' => some (.char '\x07', text)
    | 'f' => some (.char '\x0c', text)
    | 't' => some (.char '\t', text)
    | 'n' => some (.char '\n', text)
    | 'r' => some (.char '\r', text)
    | 'v' => some (.char '\x0b', text)
    | 'A' => some (.look .textStart, text)
    | 'z' => some (.look .textEnd, text)
    | 'b' => (boundaryKind flags text).map fun (condition, rest) => (.look condition, rest)
    | 'B' => some (.look (.notWordBoundary !flags.unicode), text)
    | '<' => some (.look (.wordStart !flags.unicode), text)
    | '>' => some (.look (.wordEnd !flags.unicode), text)
    | c =>
      match letterSet? flags c, letterSet? flags c.toLower with
      | some set, _ => some (.set set, text)
      | none, some set => if flags.unicode then some (.set (.compl set), text) else none
      | none, none => if c.toNat < 0x80 && !c.isAlphanum then some (.char c, text) else none

end Reshape.Regex
