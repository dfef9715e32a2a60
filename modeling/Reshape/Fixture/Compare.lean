import Reshape.Json.Basic
/-!
# Comparing documents

Two documents agree when they have the same structure, with numbers compared up to a tolerance and
lists either in order or as multisets. Where they do not, the places that differ are listed.
-/
namespace Reshape.Fixture

structure CompareOptions where
  /-- Write differences in colour. -/
  colored : Bool := true
  /-- How far apart two numbers may be. -/
  tolerance : Float := 1e-9
  /-- Compare lists as multisets. -/
  unordered : Bool := false
  /-- The most lines of a difference that are shown; zero for all. -/
  maxLines : Nat := 100
  deriving Repr, Inhabited

/-- Numbers agree up to the tolerance. -/
def agreeNumbers (tolerance : Float) (a b : Number) : Bool :=
  (a.toFloat - b.toFloat).abs ≤ tolerance

/-- Take the first element with a property out of a list. -/
def takeFirst {α : Type} (p : α → Bool) : List α → Option (List α)
  | [] => none
  | x :: xs => if p x then some xs else (takeFirst p xs).map (x :: ·)

mutual
def agree (o : CompareOptions) : Json → Json → Bool
  | .obj expected, .obj actual =>
    expected.length == actual.length && agreeFields o expected actual
  | .arr expected, .arr actual =>
    expected.length == actual.length &&
      if o.unordered then agreeUnordered o expected actual else agreeElements o expected actual
  | .num a, .num b => agreeNumbers o.tolerance a b
  | .null, .null => true
  | .bool a, .bool b => a == b
  | .str a, .str b => a == b
  | _, _ => false

/-- Every expected field has one of its name that agrees. -/
def agreeFields (o : CompareOptions) : List (String × Json) → List (String × Json) → Bool
  | [], _ => true
  | (key, v) :: rest, actual =>
    (match actual.lookup key with
      | some w => agree o v w
      | none => false) && agreeFields o rest actual

def agreeElements (o : CompareOptions) : List Json → List Json → Bool
  | [], _ => true
  | _, [] => true
  | v :: vs, w :: ws => agree o v w && agreeElements o vs ws

/-- Every expected element takes the first of the actual ones left that agrees with it. -/
def agreeUnordered (o : CompareOptions) : List Json → List Json → Bool
  | [], _ => true
  | v :: vs, actual =>
    match takeFirst (agree o v) actual with
    | some left => agreeUnordered o vs left
    | none => false
end

/-- A field of a document at a path. -/
def fieldPath (path key : String) : String := if path.isEmpty then key else path ++ "." ++ key

/-- The name of a place; the root has no path. -/
def placeName (path : String) : String := if path.isEmpty then "<root>" else path

/-- The keys of either object, in order and each once. -/
def allKeys (expected actual : List (String × Json)) : List String :=
  ((Fields.ofPairs (expected ++ actual)).map Prod.fst)

mutual
/-- The places below `path` where two documents differ. -/
def differences (o : CompareOptions) (path : String) : Json → Json → List String
  | .obj expected, .obj actual =>
    let found := fieldDifferences o path actual expected
    (allKeys expected actual).flatMap fun key =>
      match found.lookup key with
      | some paths => paths
      | none => [fieldPath path key ++ " (extra in actual)"]
  | .arr expected, .arr actual =>
    if o.unordered then
      if agree o (.arr expected) (.arr actual) then [] else [placeName path]
    else
      elementDifferences o path 0 expected actual ++
        if expected.length == actual.length then []
        else [s!"{path} (list length mismatch: {expected.length} vs {actual.length})"]
  | v, w => if agree o v w then [] else [placeName path]

/-- The differences at each expected field, by its key. -/
def fieldDifferences (o : CompareOptions) (path : String) (actual : List (String × Json)) :
    List (String × Json) → List (String × List String)
  | [] => []
  | (key, v) :: rest =>
    let here := fieldPath path key
    let found := match actual.lookup key with
      | some w => if agree o v w then [] else differences o here v w
      | none => [here ++ " (missing in actual)"]
    (key, found) :: fieldDifferences o path actual rest

def elementDifferences (o : CompareOptions) (path : String) (position : Nat) :
    List Json → List Json → List String
  | v :: vs, w :: ws =>
    (if agree o v w then [] else differences o s!"{path}[{position}]" v w) ++
      elementDifferences o path (position + 1) vs ws
  | _, _ => []
end

/-- The places where two documents differ; none if they agree. -/
def differingPaths (o : CompareOptions) (expected actual : Json) : List String :=
  if agree o expected actual then [] else differences o "" expected actual

end Reshape.Fixture
