import Reshape.Order
import Reshape.Pattern.Grammar
import Reshape.Spec.Node
import Reshape.Spec.Policy
/-!
# Compiling specs

A spec is an object. Its keys are split at or-groups and parsed, nested objects become composites
and all other values leaves. Siblings may not share a canonical form.
-/
namespace Reshape

open Pattern (Element)

/-- Compiling fails with an error or goes on with the shape of what is compiled so far. -/
abbrev Build := StateT SpecStats (Except SpecError)

namespace Build

def fail {α : Type} (e : SpecError) : Build α := throw e

/-- Use a result, locating its error. -/
def locate {α : Type} (location : String) : Except SpecError α → Build α
  | .ok a => pure a
  | .error e => throw (e.locatedAt location)

/-- A level's children while its keys are gone through. -/
structure Draft (τ : Type) where
  special : List (Node τ) := []
  literal : List (String × Node τ) := []
  computed : List (Node τ) := []
  /-- The canonical forms seen so far, each with the key that had it. -/
  seen : List (String × String) := []

variable {τ : Type}

/-- The dotted path of a child. -/
def childLocation (parent key : String) : String :=
  if parent.isEmpty then key else parent ++ "." ++ key

/-- Literal children of a list level are indices. -/
def isArrayChild : Element → Bool
  | .literal text =>
    match Text.word? text with
    | some position => position ≤ Address.maxIndex
    | none => false
  | _ => true

def chooseStrategy (literal : List (String × Node τ)) (computed : List (Node τ)) : Strategy :=
  if computed.isEmpty then .literalsOnly
  else if literal.isEmpty then .computedOnly
  else if computed.any fun child => literal.any fun (key, _) => child.element.couldMatch key then
    .conflict
  else .noConflict

/-- Enter a level, unless it is too deep. -/
def openLevel (config : Config) (location : String) (depth : Nat) : Build Unit :=
  if depth > config.maxSpecDepth then fail ⟨.tooDeep config.maxSpecDepth, location⟩
  else modify fun s => s.addComposite depth

/-- Add a compiled child to its level, in the bucket of its role. -/
def addChild (isArray : Bool) (location key : String) (draft : Draft τ) (node : Node τ) :
    Build (Draft τ) := do
  if isArray && !isArrayChild node.element then
    fail ⟨.invalidArrayKey key, childLocation location key⟩
  let canonical := node.element.canonical
  match draft.seen.lookup canonical with
  | some first => fail ⟨.duplicateKey first key canonical, location⟩
  | none =>
    let draft := { draft with seen := (canonical, key) :: draft.seen }
    match node.element with
    | .literal text => do
      modify SpecStats.addLiteral
      pure { draft with literal := Fields.insert text node draft.literal }
    | element =>
      if element.isSpecial then do
        modify SpecStats.addSpecial
        pure { draft with special := draft.special ++ [node] }
      else do
        modify SpecStats.addComputed
        pure { draft with computed := draft.computed ++ [node] }

/-- Put a level together once all its children are there. -/
def closeLevel (element : Element) (rawKey : String) (isArray : Bool) (draft : Draft τ) :
    Build (Level τ) := do
  let computed := sortBy (fun a b => a.element.comparePrecedence b.element) draft.computed
  let strategy := chooseStrategy draft.literal computed
  modify fun s => s.addStrategy strategy
  pure { element, rawKey, isArray, special := draft.special, literal := draft.literal, computed,
         strategy }

mutual
/-- The node of one key; `depth` is that of the level it stands in. -/
def node (p : Policy τ) (config : Config) (rawKey location : String) (depth : Nat) :
    Json → Build (Node τ)
  | .obj fields => do
    let (key, isArray) := Pattern.stripArrayMarker rawKey
    let element ← locate location (Pattern.parseKey key)
    if !element.acceptsChildren then fail ⟨.specialWithChildren rawKey, location⟩
    if fields.isEmpty then fail ⟨.emptyContainer rawKey, location⟩
    locate location (p.validate location element)
    openLevel config location (depth + 1)
    let draft ← children p config isArray location (depth + 1) {} fields
    let level ← closeLevel element rawKey isArray draft
    pure (.composite level)
  | value => do
    let element ← locate location (Pattern.parseKey rawKey)
    locate location (p.validate location element)
    let target ← locate location (p.compileTarget config location value)
    modify SpecStats.addLeaf
    pure (.leaf element rawKey target)

/-- The children of a level, one for each alternative of each key. -/
def children (p : Policy τ) (config : Config) (isArray : Bool) (location : String) (depth : Nat)
    (draft : Draft τ) : List (String × Json) → Build (Draft τ)
  | [] => pure draft
  | (rawChild, value) :: rest => do
    let alternatives ←
      locate (childLocation location rawChild) (Pattern.splitAlternatives rawChild)
    let draft ← alternatives.foldlM
      (fun draft key => do
        let child ← node p config key (childLocation location key) depth value
        addChild isArray location key draft child)
      draft
    children p config isArray location depth draft rest
end

/-- The root level of a spec, which must be an object with keys. -/
def root (p : Policy τ) (config : Config) : Json → Build (Level τ)
  | .obj fields => do
    if fields.isEmpty then fail ⟨.emptyContainer config.rootKey, ""⟩
    openLevel config "" 0
    let draft ← children p config false "" 0 {} fields
    closeLevel (.literal config.rootKey) config.rootKey false draft
  | v => fail ⟨.invalidValue s!"a spec must be an object, found {v.typeName}", ""⟩

end Build

/-- A spec compiled for one policy. -/
structure CompiledSpec (τ : Type) where
  policy : Policy τ
  root : Level τ
  rootKey : String
  stats : SpecStats

namespace CompiledSpec

variable {τ : Type}

def compile (policy : Policy τ) (spec : Json) (config : Config) :
    Except SpecError (CompiledSpec τ) := do
  let (root, stats) ← (Build.root policy config spec).run {}
  pure { policy, root, rootKey := config.rootKey, stats }

/-- Specs are equal if their trees and root keys are. -/
instance [BEq τ] : BEq (CompiledSpec τ) :=
  ⟨fun a b => a.rootKey == b.rootKey && Node.beqLevel a.root b.root⟩

end CompiledSpec
end Reshape
