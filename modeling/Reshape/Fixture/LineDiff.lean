import Reshape.Fixture.Compare
import Reshape.Fixture.Paint
import Reshape.Json.Text
/-!
# Differences line by line

Two texts are aligned at a longest common subsequence of their lines. In each block of change the
lines that go come before the lines that come.
-/
namespace Reshape.Fixture

/-- A line with its line break, and what becomes of it. -/
inductive LineChange where
  | keep (line : String)
  | delete (line : String)
  | insert (line : String)
  deriving Repr, DecidableEq

/-- The lines of a text, each with the line break that ends it; the last may have none. -/
def linesOf (line : List Char) : List Char → List String
  | [] => if line.isEmpty then [] else [String.ofList line.reverse]
  | '\n' :: rest => String.ofList ('\n' :: line).reverse :: linesOf [] rest
  | c :: rest => linesOf (c :: line) rest

/-- The lengths of the longest common subsequences of `x` in front of some lines and each tail of
the others, from the lengths `below` for the lines without `x`. -/
def commonRow (x : String) : List String → List Nat → List Nat
  | y :: ys, n :: below =>
    let row := commonRow x ys below
    (if x == y then 1 + below.headD 0 else max n (row.headD 0)) :: row
  | _, _ => [0]

/-- The rows of lengths for every tail of the first lines, from the longest tail on. -/
def commonRows (ys : List String) : List String → List (List Nat)
  | [] => [List.replicate (ys.length + 1) 0]
  | x :: xs =>
    let rows := commonRows ys xs
    commonRow x ys (rows.headD []) :: rows

/-- Follow the rows: take a common line where there is one, and else give up a line of the side
that keeps the longer subsequence. `fuel` is the number of lines left. -/
def align : (fuel : Nat) → List String → List String → List (List Nat) → List LineChange
  | 0, _, _, _ => []
  | _, [], ys, _ => ys.map .insert
  | _, xs, [], _ => xs.map .delete
  | fuel + 1, x :: xs, y :: ys, rows =>
    if x == y then .keep x :: align fuel xs ys (rows.tail.map List.tail)
    else
      let deleted := (rows.tail.headD []).headD 0
      let inserted := (rows.headD []).tail.headD 0
      if inserted ≤ deleted then .delete x :: align fuel xs (y :: ys) rows.tail
      else .insert y :: align fuel (x :: xs) ys (rows.map List.tail)

/-- Put deletions before insertions in every block of change. -/
def orderBlocks (deleted inserted : List LineChange) : List LineChange → List LineChange
  | [] => deleted.reverse ++ inserted.reverse
  | .keep line :: rest =>
    deleted.reverse ++ inserted.reverse ++ .keep line :: orderBlocks [] [] rest
  | .delete line :: rest => orderBlocks (.delete line :: deleted) inserted rest
  | .insert line :: rest => orderBlocks deleted (.insert line :: inserted) rest

def lineChanges (old new : List String) : List LineChange :=
  orderBlocks [] [] (align (old.length + new.length) old new (commonRows new old))

/-- A line that ends in a line break. -/
def terminated (line : String) : String := if line.endsWith "\n" then line else line ++ "\n"

/-- A changed line behind the sign of its change. -/
def LineChange.show (colored : Bool) : LineChange → String
  | .keep line => " " ++ terminated line
  | .delete line => Paint.red.applyIf colored "-" ++ Paint.red.applyIf colored (terminated line)
  | .insert line => Paint.green.applyIf colored "+" ++ Paint.green.applyIf colored (terminated line)

/-- The difference of two documents in their indented forms. -/
def showDifference (o : CompareOptions) (expected actual : Json) : String :=
  let changes := lineChanges (linesOf [] (expected.indented 0)) (linesOf [] (actual.indented 0))
  let header := Paint.bold.applyIf o.colored "=== Diff Output (- expected, + actual) ===\n"
  let shown := if o.maxLines = 0 then changes else changes.take o.maxLines
  let cut := if shown.length < changes.length then "... (diff truncated) ...\n" else ""
  header ++ String.join (shown.map (LineChange.show o.colored)) ++ cut

/-- What a comparison found. -/
structure Comparison where
  agrees : Bool
  difference : String
  paths : List String

def compareDocuments (o : CompareOptions) (expected actual : Json) : Comparison :=
  if agree o expected actual then ⟨true, "", []⟩
  else ⟨false, showDifference o expected actual, differingPaths o expected actual⟩

end Reshape.Fixture
