import Reshape.Json.Text
/-!
# Fixtures

A fixture is one recorded example of an operation: its spec, an input and the document that must
come out, or a text that the error of its spec must contain.
-/
namespace Reshape

structure Fixture where
  name : String
  category : String
  description : String
  /-- The name of an operation, or `chain`. -/
  operation : String
  spec : Json
  input : Json
  expected : Json
  /-- If set, compiling must fail with a message that contains this text. -/
  error : Option String
  tags : List String
  enabled : Bool
  deriving Inhabited

namespace Fixture

/-- The category and the name, or only the name where there is no category. -/
def id (f : Fixture) : String :=
  if f.category.isEmpty then f.name else f.category ++ "/" ++ f.name

def toJson (f : Fixture) : Json :=
  .ofFields [("name", .str f.name), ("category", .str f.category),
    ("description", .str f.description), ("operation", .str f.operation), ("spec", f.spec),
    ("input", f.input), ("expected", f.expected), ("error", (f.error.map .str).getD .null),
    ("tags", .arr (f.tags.map .str)), ("enabled", .bool f.enabled)]

def text? : Json → Option String := Json.string?

def texts? (v : Json) : Option (List String) := v.elements?.bind fun vs => vs.mapM Json.string?

def flag? : Json → Option Bool
  | .bool b => some b
  | _ => none

/-- A text or null. -/
def optionalText? : Json → Option (Option String)
  | .null => some none
  | .str text => some (some text)
  | _ => none

def fieldOr {α : Type} (fields : List (String × Json)) (key : String) (decode? : Json → Option α)
    (default : α) : Option α :=
  match fields.lookup key with
  | none => some default
  | some v => decode? v

/-- Only the operation and the spec must be there; other fields than those of a fixture are
ignored. -/
def ofFields? (fields : List (String × Json)) : Option Fixture := do
  let name ← fieldOr fields "name" text? ""
  let category ← fieldOr fields "category" text? ""
  let description ← fieldOr fields "description" text? ""
  let operation ← (fields.lookup "operation").bind text?
  let spec ← fields.lookup "spec"
  let input ← fieldOr fields "input" some .null
  let expected ← fieldOr fields "expected" some .null
  let error ← fieldOr fields "error" optionalText? none
  let tags ← fieldOr fields "tags" texts? []
  let enabled ← fieldOr fields "enabled" flag? true
  some { name, category, description, operation, spec, input, expected, error, tags, enabled }

def ofJson? (v : Json) : Option Fixture := v.fields?.bind ofFields?

def fieldNames : List String :=
  ["name", "category", "description", "operation", "spec", "input", "expected", "error", "tags",
    "enabled"]

/-- No field of a fixture is given twice. -/
def namesOnce (keys : List String) : Bool :=
  fieldNames.all fun name => (keys.filter (· == name)).length ≤ 1

/-- The fixture that the members of a text's object make up. -/
def ofMembers? (members : List (String × Json)) : Option Fixture :=
  if namesOnce (members.map Prod.fst) then ofFields? members else none

end Fixture
end Reshape
