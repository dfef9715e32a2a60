import Reshape.Text.CaseTable
import Reshape.Text.Runs
/-!
# Case mappings

Full Unicode case mappings of a text: a character may map to several, and a capital sigma at the
end of a word has a lower case of its own.
-/
namespace Reshape.Text

/-- The lower case of a character on its own. Only the dotted capital I has two characters. -/
def lowerChar (c : Char) : List Char :=
  if c.toNat = 0x130 then ['i', Char.ofNat 0x307]
  else [Char.ofNat (mapRuns lowerRuns c.toNat)]

def upperChar (c : Char) : List Char :=
  match upperSequences.lookup c.toNat with
  | some cs => cs.map Char.ofNat
  | none => [Char.ofNat (mapRuns upperRuns c.toNat)]

/-- The first character that is not passed over is cased. -/
def leadsToCased (text : List Char) : Bool :=
  match text.dropWhile (inRanges caseIgnorable) with
  | c :: _ => inRanges casedRanges c
  | [] => false

def capitalSigma : Char := Char.ofNat 0x3A3
def finalSigma : Char := Char.ofNat 0x3C2

/-- Lower case; `before` holds the characters passed, last first. A capital sigma becomes a final
one behind a cased character unless another cased one follows. -/
def lowerFrom (before : List Char) : List Char → List Char
  | [] => []
  | c :: rest =>
    let image :=
      if c == capitalSigma && leadsToCased before && !leadsToCased rest then [finalSigma]
      else lowerChar c
    image ++ lowerFrom (c :: before) rest

def toLower (text : String) : String := String.ofList (lowerFrom [] text.toList)

def toUpper (text : String) : String := String.ofList (text.toList.flatMap upperChar)

end Reshape.Text
