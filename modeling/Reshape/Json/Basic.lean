import Reshape.Json.Fields
import Reshape.Number.Basic
/-!
# Documents

A document is a JSON value. Objects hold their fields in key order, each key once, so two
documents with the same content are the same value.
-/
namespace Reshape

inductive Json where
  | null
  | bool (value : Bool)
  | num (value : Number)
  | str (value : String)
  | arr (elements : List Json)
  | obj (fields : List (String × Json))
  deriving Inhabited

namespace Json

mutual
/-- Equality of documents; floats compare by value. -/
def beq : Json → Json → Bool
  | .null, .null => true
  | .bool a, .bool b => a == b
  | .num a, .num b => a == b
  | .str a, .str b => a == b
  | .arr a, .arr b => beqElements a b
  | .obj a, .obj b => beqFields a b
  | _, _ => false

def beqElements : List Json → List Json → Bool
  | [], [] => true
  | a :: as, b :: bs => beq a b && beqElements as bs
  | _, _ => false

def beqFields : List (String × Json) → List (String × Json) → Bool
  | [], [] => true
  | (k, a) :: as, (l, b) :: bs => k == l && beq a b && beqFields as bs
  | _, _ => false
end

instance : BEq Json := ⟨beq⟩

mutual
/-- Every object of the document has its keys in strictly increasing order. -/
def WellFormed : Json → Prop
  | .arr elements => WellFormedElements elements
  | .obj fields => Fields.Sorted fields ∧ WellFormedFields fields
  | _ => True

def WellFormedElements : List Json → Prop
  | [] => True
  | v :: rest => WellFormed v ∧ WellFormedElements rest

def WellFormedFields : List (String × Json) → Prop
  | [] => True
  | (_, v) :: rest => WellFormed v ∧ WellFormedFields rest
end

def isNull : Json → Bool
  | .null => true
  | _ => false

def isString : Json → Bool
  | .str _ => true
  | _ => false

def string? : Json → Option String
  | .str text => some text
  | _ => none

def elements? : Json → Option (List Json)
  | .arr elements => some elements
  | _ => none

def fields? : Json → Option (List (String × Json))
  | .obj fields => some fields
  | _ => none

/-- The field of an object with a given key. -/
def field? (v : Json) (key : String) : Option Json :=
  v.fields?.bind (List.lookup key)

/-- An object from its fields in any order; the last field of a key wins. -/
def ofFields (fields : List (String × Json)) : Json := .obj (Fields.ofPairs fields)

def ofNat (n : Nat) : Json := .num (.int n)

def ofInt (n : Int) : Json := .num (.int n)

end Json
end Reshape
