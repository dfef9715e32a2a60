import Reshape.Pattern.Cursor
/-!
# Errors of a spec

What can be wrong with a spec, where in the spec it is wrong, and the text that reports it. A
location is the dotted path of a spec node, empty as long as it is not known.
-/
namespace Reshape

inductive SpecProblem where
  /-- A key that does not follow the key grammar. -/
  | invalidKey (key message : String) (position : Option Nat)
  /-- A write path that does not follow the path grammar. -/
  | invalidWritePath (path message : String) (position : Option Nat)
  /-- Two siblings with one canonical form. -/
  | duplicateKey (first second canonical : String)
  /-- A nested spec below an element that takes none. -/
  | specialWithChildren (key : String)
  /-- A nested spec without keys. -/
  | emptyContainer (key : String)
  /-- A child of a list level that is neither an index nor computed. -/
  | invalidArrayKey (key : String)
  /-- A value that the operation does not accept. -/
  | invalidValue (message : String)
  /-- A call of a function that is not registered. -/
  | unknownFunction (name : String)
  /-- A spec nested deeper than the limit. -/
  | tooDeep (limit : Nat)
  /-- An entry of a chain that is not an operation. -/
  | invalidChain (index : Nat) (message : String)
  deriving Repr, DecidableEq

structure SpecError where
  problem : SpecProblem
  location : String
  deriving Repr, DecidableEq

namespace SpecProblem

/-- Chain entries have an index instead of a location. -/
def isLocated : SpecProblem → Bool
  | invalidChain _ _ => false
  | _ => true

/-- The key or write path that the error is about. -/
def key? : SpecProblem → Option String
  | invalidKey key _ _ => some key
  | invalidWritePath path _ _ => some path
  | duplicateKey _ second _ => some second
  | specialWithChildren key => some key
  | emptyContainer key => some key
  | invalidArrayKey key => some key
  | unknownFunction name => some name
  | _ => none

/-- The offset of the character that the error is about. -/
def position? : SpecProblem → Option Nat
  | invalidKey _ _ position => position
  | invalidWritePath _ _ position => position
  | _ => none

end SpecProblem

namespace SpecError

/-- An error at a place that is not known yet. -/
def unlocated (problem : SpecProblem) : SpecError := ⟨problem, ""⟩

/-- Say where the error is, unless that is known already. -/
def locatedAt (e : SpecError) (location : String) : SpecError :=
  if e.problem.isLocated && e.location.isEmpty then { e with location } else e

/-- The location of the failing node, when it is known. -/
def location? (e : SpecError) : Option String :=
  if e.problem.isLocated && !e.location.isEmpty then some e.location else none

def key? (e : SpecError) : Option String := e.problem.key?

def position? (e : SpecError) : Option Nat := e.problem.position?

def message (e : SpecError) : String :=
  let place := if e.location.isEmpty then "" else " at " ++ e.location
  match e.problem with
  | .invalidKey key message _ => s!"Invalid key '{key}'{place}: {message}"
  | .invalidWritePath path message _ => s!"Invalid write path '{path}'{place}: {message}"
  | .duplicateKey first second canonical =>
    s!"Duplicate key{place}: '{first}' and '{second}' both canonicalize to '{canonical}'"
  | .specialWithChildren key => s!"Key '{key}'{place} cannot have children"
  | .emptyContainer key => s!"Key '{key}'{place} has an empty spec"
  | .invalidArrayKey key => s!"Key '{key}'{place} is not an integer index of an array spec"
  | .invalidValue message => s!"Invalid value{place}: {message}"
  | .unknownFunction name => s!"Unknown function '{name}'{place}"
  | .tooDeep limit => s!"Spec nested deeper than {limit} levels{place}"
  | .invalidChain index message => s!"Invalid chain entry {index}: {message}"

/-- The message, and below it the text in question with a caret under the offending character. -/
def detailedMessage (e : SpecError) : String :=
  match e.key?, e.position? with
  | some input, some position =>
    let caret :=
      if position ≤ input.length then
        "\n  " ++ String.ofList (List.replicate position ' ') ++ "^"
      else ""
    e.message ++ "\n  " ++ input ++ caret
  | _, _ => e.message

end SpecError

/-- The error that a key's scan failed with. -/
def Pattern.ScanError.toKeyError (e : Pattern.ScanError) (key : String) : SpecError :=
  .unlocated (.invalidKey key e.message (some e.position))

/-- The error that a write path's scan failed with. -/
def Pattern.ScanError.toPathError (e : Pattern.ScanError) (path : String) : SpecError :=
  .unlocated (.invalidWritePath path e.message (some e.position))

/-- Why an operation could not be set up or its result not be used. -/
inductive EngineError where
  | spec (error : SpecError)
  /-- One operation of a chain failed to compile. -/
  | chainStep (index : Nat) (operation : String) (source : SpecError)
  /-- A document that does not have the type asked for. -/
  | undecodable (what : String)
  | configuration (message : String) (field : Option String)
  deriving Repr, DecidableEq

def EngineError.message : EngineError → String
  | .spec e => e.message
  | .chainStep index operation source =>
    s!"Chain step {index} ({operation}) failed to compile: {source.message}"
  | .undecodable what => s!"JSON error: {what}"
  | .configuration message _ => s!"Configuration error: {message}"

end Reshape
