import Reshape.Fixture.Basic
import Reshape.Fixture.LineDiff
import Reshape.Operation.Chain
/-!
# Running fixtures

A fixture runs as a chain, a single operation as a chain of one entry. It passes when the result
agrees with the expected document, or when compiling fails the way it says.
-/
namespace Reshape.Fixture

/-- What came of a fixture. -/
structure Report where
  name : String
  passed : Bool
  failure : Option String
  difference : Option String
  deriving Repr, DecidableEq, Inhabited

/-- One text stands somewhere in another. -/
def occursIn (needle : List Char) : List Char → Bool
  | [] => needle.isEmpty
  | c :: rest => needle.isPrefixOf (c :: rest) || occursIn needle rest

def containsText (text needle : String) : Bool := occursIn needle.toList text.toList

/-- The spec of a fixture as a chain. -/
def chainSpec (f : Fixture) : Json :=
  if f.operation == "chain" then f.spec
  else .arr [.ofFields [("operation", .str f.operation), ("spec", f.spec)]]

/-- The message of an error; where an entry of the chain failed, that of the entry. -/
def compileMessage : EngineError → String
  | .chainStep _ _ source => source.message
  | e => e.message

def compile (f : Fixture) : Except String Chain :=
  match Chain.compile .builtin {} (chainSpec f) with
  | .ok chain => .ok chain
  | .error e => .error (compileMessage e)

/-- The tag of fixtures whose lists are compared as multisets. -/
def unorderedTag : String := "unordered"

/-- Compile, apply and compare: the failure and the difference, if the fixture does not pass. -/
def evaluate (o : CompareOptions) (f : Fixture) : Bool × Option String × Option String :=
  match f.error, f.compile with
  | some wanted, .error message =>
    if containsText message wanted then (true, none, none)
    else (false, some s!"expected an error containing '{wanted}', got: {message}", none)
  | some wanted, .ok _ =>
    (false, some s!"expected an error containing '{wanted}', but the spec compiled", none)
  | none, .error message => (false, some message, none)
  | none, .ok chain =>
    let unordered := f.tags.contains unorderedTag
    let found := compareDocuments { o with unordered } f.expected (chain.apply f.input)
    if found.agrees then (true, none, none)
    else
      let places := ", ".intercalate found.paths
      (false, some s!"output differs at: {places}", some found.difference)

/-- Run a fixture; one that is switched off passes. -/
def run (o : CompareOptions) (f : Fixture) : Report :=
  if f.enabled then
    let (passed, failure, difference) := f.evaluate o
    { name := f.id, passed, failure, difference }
  else { name := f.id, passed := true, failure := none, difference := none }

namespace Report

/-- The lines that report a result that took some milliseconds. -/
def lines (r : Report) (verbose : Bool) (millis : Nat) : List String :=
  let status := if r.passed then Paint.boldGreen.apply "PASS" else Paint.boldRed.apply "FAIL"
  let failure := match r.failure with
    | some message => ["  " ++ Paint.red.apply "Error" ++ ": " ++ message]
    | none => []
  let difference := if verbose || !r.passed then r.difference.toList else []
  s!"{status} {r.name} ({millis}ms)" :: failure ++ difference

end Report
end Reshape.Fixture
