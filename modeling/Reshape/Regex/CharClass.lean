import Reshape.Regex.Category
import Reshape.Regex.Fold
import Reshape.Text.Blank
/-!
# Character classes

The sets of characters that a regular expression can name, closed under the set operations.
-/
namespace Reshape.Regex

/-- Sets that a standard names. -/
inductive NamedClass where
  | digit
  | space
  | word
  /-- A general category, or the first letter of several. -/
  | general (name : String)
  /-- Letters with case. -/
  | casedLetter
  | alphabetic
  | any
  deriving Repr, DecidableEq

inductive CharClass where
  | range (first last : Nat)
  | named (name : NamedClass)
  | union (a b : CharClass)
  | inter (a b : CharClass)
  | compl (a : CharClass)
  /-- All characters that differ only in case from one of the set. -/
  | folded (a : CharClass)
  /-- The same for the ASCII letters alone. -/
  | foldedAscii (a : CharClass)
  deriving Repr, DecidableEq

/-- Symbols that count as letters: circled, parenthesized and squared ones. -/
def isLetterSymbol (n : Nat) : Bool :=
  (0x24B6 ≤ n && n ≤ 0x24E9) || (0x1F130 ≤ n && n ≤ 0x1F149) || (0x1F150 ≤ n && n ≤ 0x1F169) ||
    (0x1F170 ≤ n && n ≤ 0x1F189)

def isAlphabetic (c : Char) : Bool :=
  let g := category c
  g.startsWith "L" || g == "Nl" || isLetterSymbol c.toNat

/-- Letters, marks, digits, connectors and the two joiners. -/
def isWordChar (c : Char) : Bool :=
  let g := category c
  g.startsWith "L" || g.startsWith "M" || g == "Nd" || g == "Nl" || g == "Pc" ||
    isLetterSymbol c.toNat || c.toNat == 0x200C || c.toNat == 0x200D

def isAsciiWordChar (c : Char) : Bool :=
  ('0' ≤ c && c ≤ '9') || ('A' ≤ c && c ≤ 'Z') || ('a' ≤ c && c ≤ 'z') || c == '_'

def NamedClass.contains (c : Char) : NamedClass → Bool
  | digit => category c == "Nd"
  | space => Text.isBlank c
  | word => isWordChar c
  | general name => (category c).startsWith name
  | casedLetter => ["Lu", "Ll", "Lt"].contains (category c)
  | alphabetic => isAlphabetic c
  | any => true

/-- The ASCII letter that differs from a code point in case, if there is one. -/
def asciiPartner (n : Nat) : List Nat :=
  if 65 ≤ n && n ≤ 90 then [n + 32] else if 97 ≤ n && n ≤ 122 then [n - 32] else []

namespace CharClass

def contains (c : Char) : CharClass → Bool
  | range first last => first ≤ c.toNat && c.toNat ≤ last
  | named name => name.contains c
  | union a b => a.contains c || b.contains c
  | inter a b => a.contains c && b.contains c
  | compl a => !a.contains c
  | folded a => (foldClass c.toNat).any fun n => a.contains (Char.ofNat n)
  | foldedAscii a => a.contains c || (asciiPartner c.toNat).any fun n => a.contains (Char.ofNat n)

/-- The set without characters. -/
def empty : CharClass := .range 1 0

def char (c : Char) : CharClass := .range c.toNat c.toNat

def ofChars (cs : List Char) : CharClass :=
  cs.foldl (fun set c => .union set (char c)) empty

def diff (a b : CharClass) : CharClass := .inter a (.compl b)

def symmDiff (a b : CharClass) : CharClass := .union (diff a b) (diff b a)

end CharClass
end Reshape.Regex
