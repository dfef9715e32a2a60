import Reshape.Json.Basic
import Reshape.Spec.Error
/-!
# Configuration

Settings that compiling a spec depends on. A configuration is decoded from a document: an object
with any of the fields, or a list of the fields in the order of the structure.
-/
namespace Reshape

structure Config where
  /-- How deep a spec may nest. -/
  maxSpecDepth : Nat := 64
  /-- The key of the root level, and the first step of every write path. -/
  rootKey : String := "root"
  /-- Function calls are allowed in modify specs. -/
  functions : Bool := true
  deriving Repr, DecidableEq, Inhabited

namespace Config

def validate (c : Config) : Except EngineError Config :=
  if c.maxSpecDepth = 0 then
    .error (.configuration "max_spec_depth must be at least 1" (some "max_spec_depth"))
  else if c.rootKey.isEmpty then
    .error (.configuration "root_key must not be empty" (some "root_key"))
  else .ok c

def depth? : Json → Option Nat
  | .num n => n.toWord?
  | _ => none

def flag? : Json → Option Bool
  | .bool b => some b
  | _ => none

/-- Decode a field that may be missing. -/
def fieldOr {α : Type} (decode? : Json → Option α) (default : α) : Option Json → Option α
  | none => some default
  | some v => decode? v

/-- Missing fields have their defaults and unknown ones are ignored; a list may not be longer than
there are fields. -/
def decode? (v : Json) : Option Config :=
  let ofParts (depth root functions : Option Json) : Option Config := do
    let standard : Config := {}
    let maxSpecDepth ← fieldOr depth? standard.maxSpecDepth depth
    let rootKey ← fieldOr Json.string? standard.rootKey root
    let functions ← fieldOr flag? standard.functions functions
    some { maxSpecDepth, rootKey, functions }
  match v with
  | .obj fields =>
    ofParts (fields.lookup "max_spec_depth") (fields.lookup "root_key") (fields.lookup "functions")
  | .arr elements =>
    if elements.length ≤ 3 then ofParts elements[0]? elements[1]? elements[2]? else none
  | _ => none

/-- Decode a configuration and check it. -/
def ofJson (v : Json) : Except EngineError Config :=
  match decode? v with
  | some c => c.validate
  | none => .error (.undecodable "failed to decode engine configuration")

end Config
end Reshape
