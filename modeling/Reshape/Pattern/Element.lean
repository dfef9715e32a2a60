import Reshape.Pattern.Path
import Reshape.Pattern.Glob
/-!
# Pattern elements

A key of a spec is a pattern element. Literal and computed elements match keys of the input;
special elements describe the level they stand in and match no key.
-/
namespace Reshape.Pattern

inductive Element where
  /-- The exact key. -/
  | literal (text : String)
  /-- The pattern `*`, which every key matches. -/
  | any
  /-- Literal text with stars in it. -/
  | glob (pattern : Glob)
  /-- A key put together from references. -/
  | reference (template : Template)
  /-- The form `$`: the matched key becomes the data. -/
  | matchedKey (reference : Reference)
  /-- The form `@`: the value of the level becomes the data. -/
  | value
  /-- The form `#n`: a match count becomes the data. -/
  | count (up : Nat)
  /-- The form `#text`: the text becomes the data. -/
  | constant (text : String)
  /-- The form `@(n,path)`: a value found elsewhere becomes the data. -/
  | lookup (lookup : Lookup)

/-- Where an element stands in the order of matching. -/
inductive Role where
  | literal
  | computed
  | special
  deriving Repr, DecidableEq

namespace Element

def beq : Element → Element → Bool
  | .literal a, .literal b => a == b
  | .any, .any => true
  | .glob a, .glob b => a == b
  | .reference a, .reference b => a == b
  | .matchedKey a, .matchedKey b => a == b
  | .value, .value => true
  | .count a, .count b => a == b
  | .constant a, .constant b => a == b
  | .lookup a, .lookup b => a == b
  | _, _ => false

instance : BEq Element := ⟨beq⟩

def role : Element → Role
  | .literal _ => .literal
  | .any => .computed
  | .glob _ => .computed
  | .reference _ => .computed
  | .matchedKey _ => .special
  | .value => .special
  | .count _ => .special
  | .constant _ => .special
  | .lookup _ => .special

/-- Applied to the level it stands in instead of matched against its keys. -/
def isSpecial (e : Element) : Bool := e.role == .special

/-- Matched by computation instead of by the key itself. -/
def isComputed (e : Element) : Bool := e.role == .computed

def isStar : Element → Bool
  | .any => true
  | .glob _ => true
  | _ => false

/-- Only a lookup among the special elements may have a spec below it. -/
def acceptsChildren : Element → Bool
  | .lookup _ => true
  | e => !e.isSpecial

/-- The match of an input key. References resolve against the levels above the one matched. -/
def match? (e : Element) (key : String) (frames : Frames) : Option MatchedKey :=
  match e with
  | .literal text => if text == key then some (.plain key) else none
  | .any => some (.plain key)
  | .glob g => (g.captures? key).map fun captures => ⟨key, captures⟩
  | .reference t =>
    (t.resolve? frames).bind fun text => if text == key then some (.plain key) else none
  | _ => none

/-- A computed element might match this key. What references resolve to is not known beforehand,
so they might match any. -/
def couldMatch (e : Element) (key : String) : Bool :=
  match e with
  | .any => true
  | .reference _ => true
  | .glob g => (g.captures? key).isSome
  | _ => false

def canonicalChars : Element → List Char
  | .literal text => escape text.toList
  | .any => ['*']
  | .glob g => g.canonical
  | .reference t => t.canonical
  | .matchedKey r => r.canonical '$'
  | .value => ['@']
  | .count up => '#' :: '(' :: Nat.toDigits 10 up ++ [')']
  | .constant text => '#' :: escape text.toList
  | .lookup l => l.canonical

/-- The form without abbreviations; siblings of a spec may not share it. -/
def canonical (e : Element) : String := String.ofList e.canonicalChars

/-- The word for the kind of an element. -/
def kind : Element → String
  | .literal _ => "literal"
  | .any => "star-all"
  | .glob g =>
    match g.stars with
    | 0 | 1 => "star-single"
    | 2 => "star-double"
    | _ => "star-regex"
  | .reference _ => "reference"
  | .matchedKey _ => "dollar"
  | .value => "at"
  | .count _ => "hash"
  | .constant _ => "constant"
  | .lookup _ => "transpose"

/-- Lower ranks are tried first. -/
def rank : Element → Nat
  | .literal _ => 0
  | .reference _ => 1
  | .any => 2
  | .glob _ => 2
  | _ => 3

/-- The order in which siblings are tried: by rank, then the longer canonical form in bytes, then
by that form. -/
def comparePrecedence (a b : Element) : Ordering :=
  (compare a.rank b.rank).then
    ((compare b.canonical.utf8ByteSize a.canonical.utf8ByteSize).then
      (compare a.canonical b.canonical))

end Element
end Reshape.Pattern
