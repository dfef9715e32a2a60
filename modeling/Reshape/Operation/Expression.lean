import Reshape.Function.Registry
import Reshape.Pattern.Path
import Reshape.Spec.Config
/-!
# Expressions

A value of a modify spec is a literal, a lookup or a function call. The arguments of a call are
quoted texts, numbers, `true`, `false`, `null`, `@` for the current value, lookups, `&` references
and nested calls; a call without parentheses is made with the current value.
-/
namespace Reshape.Operation

open Pattern (Lookup Reference)

inductive Argument where
  | literal (value : Json)
  | current
  | lookup (lookup : Lookup)
  | reference (reference : Reference)
  | call (name : String) (function : Function) (args : List Argument)

/-- A call of a registered function. -/
structure Call where
  name : String
  function : Function
  args : List Argument

/-- One way to produce a value. -/
inductive Source where
  | literal (value : Json)
  | lookup (lookup : Lookup)
  | call (call : Call)

mutual
/-- Calls are equal by the function's name and their arguments. -/
def Argument.beq : Argument → Argument → Bool
  | .literal a, .literal b => a == b
  | .current, .current => true
  | .lookup a, .lookup b => a == b
  | .reference a, .reference b => a == b
  | .call n _ a, .call m _ b => n == m && beqArguments a b
  | _, _ => false

def beqArguments : List Argument → List Argument → Bool
  | [], [] => true
  | a :: as, b :: bs => a.beq b && beqArguments as bs
  | _, _ => false
end

def Source.beq : Source → Source → Bool
  | .literal a, .literal b => a == b
  | .lookup a, .lookup b => a == b
  | .call a, .call b => a.name == b.name && beqArguments a.args b.args
  | _, _ => false

instance : BEq Source := ⟨Source.beq⟩

/-! ## Evaluation -/

mutual
/-- The value of an argument; nothing if what it refers to is missing. -/
def Argument.evaluate? (current : Option Json) (frames : Frames) : Argument → Option Json
  | .literal v => some v
  | .current => current
  | .lookup l => l.find? frames
  | .reference r => (r.resolve? frames).map .str
  | .call _ f args => (evaluateAll? current frames args).bind f

def evaluateAll? (current : Option Json) (frames : Frames) : List Argument → Option (List Json)
  | [] => some []
  | a :: rest =>
    (a.evaluate? current frames).bind fun v =>
      (evaluateAll? current frames rest).map (v :: ·)
end

def Call.evaluate? (c : Call) (current : Option Json) (frames : Frames) : Option Json :=
  (evaluateAll? current frames c.args).bind c.function

def Source.evaluate? (current : Option Json) (frames : Frames) : Source → Option Json
  | .literal v => some v
  | .lookup l => l.find? frames
  | .call c => c.evaluate? current frames

/-! ## Parsing -/

/-- What can be wrong with a list of arguments. -/
inductive ArgumentProblem where
  | unbalanced
  | empty
  | unterminated
  deriving Repr, DecidableEq

def ArgumentProblem.message : ArgumentProblem → String
  | unbalanced => "unbalanced `)`"
  | empty => "empty argument"
  | unterminated => "unterminated string"

/-- An argument without the blanks around it, which has to have something left. -/
def finishArgument (part : List Char) : Except ArgumentProblem (List Char) :=
  let trimmed := Text.trim part.reverse
  if trimmed.isEmpty then .error .empty else .ok trimmed

/-- Arguments between commas outside quotes and parentheses; `part` is the argument in progress,
last character first, and `depth` the number of open parentheses. -/
def argumentsFrom (part : List Char) (depth : Nat) (quoted : Bool) :
    List Char → Except ArgumentProblem (List (List Char))
  | [] =>
    if quoted then .error .unterminated
    else (finishArgument part).map fun a => [a]
  | c :: rest =>
    if c == '\\' && quoted then
      match rest with
      | e :: rest => argumentsFrom (e :: c :: part) depth quoted rest
      | [] => .error .unterminated
    else if c == '\'' then argumentsFrom (c :: part) depth (!quoted) rest
    else if c == '(' && !quoted then argumentsFrom (c :: part) (depth + 1) quoted rest
    else if c == ')' && !quoted then
      match depth with
      | 0 => .error .unbalanced
      | depth + 1 => argumentsFrom (c :: part) depth quoted rest
    else if c == ',' && !quoted && depth == 0 then do
      let a ← finishArgument part
      let more ← argumentsFrom [] 0 false rest
      pure (a :: more)
    else argumentsFrom (c :: part) depth quoted rest

def splitArguments (inner : List Char) : Except ArgumentProblem (List (List Char)) :=
  if (Text.trim inner).isEmpty then .ok [] else argumentsFrom [] 0 false inner

def isNameStart (c : Char) : Bool :=
  ('A' ≤ c && c ≤ 'Z') || ('a' ≤ c && c ≤ 'z') || c == '_'

/-- A letter or underscore, then letters, digits and underscores. -/
def isFunctionName : List Char → Bool
  | [] => false
  | c :: rest => isNameStart c && rest.all fun c => isNameStart c || Text.isDigit c

/-- An exponent part or nothing. -/
def isExponentPart : List Char → Bool
  | [] => true
  | c :: rest =>
    (c == 'e' || c == 'E') &&
      match rest with
      | '+' :: ds => (Text.digits? ds).isSome
      | '-' :: ds => (Text.digits? ds).isSome
      | ds => (Text.digits? ds).isSome

/-- The form of a JSON number. -/
def isNumberLiteral (text : List Char) : Bool :=
  let unsigned := match text with
    | '-' :: rest => rest
    | cs => cs
  let (whole, rest) := unsigned.span Text.isDigit
  !whole.isEmpty && (whole.head? != some '0' || whole.length == 1) &&
    match rest with
    | '.' :: rest =>
      let (fraction, rest) := rest.span Text.isDigit
      !fraction.isEmpty && isExponentPart rest
    | rest => isExponentPart rest

/-- The number of a literal: an integer of the signed word, or a finite float. -/
def numberLiteral? (text : List Char) : Option Json :=
  if isNumberLiteral text then
    ((Text.int64? (String.ofList text)).map .ofInt).or
      ((Number.float? text).bind fun x => (Number.ofFloat? x).map .num)
  else none

/-- The inside of a quoted text. -/
def quoted? (text : List Char) : Option (List Char) :=
  match text with
  | '\'' :: rest =>
    if rest.getLast? == some '\'' then some (Pattern.unescape rest.dropLast) else none
  | _ => none

/-- The scan of an `&` and its reference. -/
def referenceScan : Pattern.Scan (Option Reference) := do
  let _ ← Pattern.Scan.advance
  let r ← Pattern.referenceTail
  match ← Pattern.Scan.peek with
  | none => pure (some r)
  | some _ => pure none

/-- What parsing an expression depends on: the functions, and the place in the spec for errors. -/
structure Scope where
  registry : Registry
  location : String

namespace Scope

def invalid {α : Type} (s : Scope) (message : String) : Except SpecError α :=
  .error ⟨.invalidValue message, s.location⟩

/-- One argument without blanks around it; `call` parses a nested call after its `=`. -/
def argumentWith (s : Scope) (call : List Char → Except SpecError Call) (arg : List Char) :
    Except SpecError Argument :=
  let text := String.ofList arg
  match quoted? arg with
  | some inner => .ok (.literal (.str (String.ofList inner)))
  | none =>
    match text with
    | "@" => .ok .current
    | "true" => .ok (.literal (.bool true))
    | "false" => .ok (.literal (.bool false))
    | "null" => .ok (.literal .null)
    | _ =>
      match arg with
      | '@' :: _ =>
        match Lookup.parse arg with
        | .ok l => .ok (.lookup l)
        | .error e => s.invalid s!"invalid lookup argument '{text}': {e.message}"
      | '&' :: _ =>
        match referenceScan.runOn arg 0 with
        | .ok (some r) => .ok (.reference r)
        | .ok none => s.invalid s!"invalid reference argument '{text}'"
        | .error e => s.invalid s!"invalid reference argument '{text}': {e.message}"
      | '=' :: expression =>
        (call expression).map fun c => .call c.name c.function c.args
      | _ =>
        match numberLiteral? arg with
        | some v => .ok (.literal v)
        | none => s.invalid s!"unrecognized argument '{text}'"

/-- The text before the first parenthesis, and what stands between it and a closing one at the
end. -/
def callParts (expression : List Char) : Option (List Char × Option (List Char)) :=
  let (name, rest) := expression.span (· != '(')
  match rest with
  | [] => some (name, none)
  | _ :: inner =>
    if inner.getLast? == some ')' then some (Text.trim name, some inner.dropLast) else none

/-- A call after its `=`, in whose arguments calls nest at most `depth` deep. -/
def callWithin (s : Scope) : (depth : Nat) → List Char → Except SpecError Call
  | 0, _ => s.invalid "empty expression"
  | depth + 1, text => do
    let expression := Text.trim text
    let shown := String.ofList expression
    match callParts expression with
    | none => s.invalid s!"unclosed argument list in '={shown}'"
    | some (name, inner?) =>
      let called := String.ofList name
      if !isFunctionName name then s.invalid s!"invalid function name '{called}'"
      else
        match s.registry.get? called with
        | none => .error ⟨.unknownFunction called, s.location⟩
        | some function =>
          match inner? with
          | none => pure ⟨called, function, [.current]⟩
          | some inner =>
            match splitArguments inner with
            | .error e => s.invalid s!"in '={shown}': {e.message}"
            | .ok parts => do
              let args ← parts.mapM (s.argumentWith (callWithin s depth))
              pure ⟨called, function, args⟩

/-- A call after its `=`. A nested call is shorter than the one around it, so the length bounds
the depth. -/
def call (s : Scope) (text : List Char) : Except SpecError Call :=
  s.callWithin (text.length + 1) text

/-- A value of a spec: a call after `=`, a lookup after `@`, and anything else stands for itself;
a backslash takes either sign literally. -/
def source (s : Scope) (functions : Bool) (rhs : Json) : Except SpecError Source :=
  match rhs with
  | .str text =>
    match text.toList with
    | '=' :: expression =>
      if functions then (s.call expression).map .call
      else s.invalid "function expressions are disabled"
    | '@' :: _ =>
      match Lookup.parse text.toList with
      | .ok l => .ok (.lookup l)
      | .error e => s.invalid s!"invalid lookup '{text}': {e.message}"
    | '\\' :: '@' :: rest => .ok (.literal (.str (String.ofList ('@' :: rest))))
    | '\\' :: '=' :: rest => .ok (.literal (.str (String.ofList ('=' :: rest))))
    | _ => .ok (.literal rhs)
  | _ => .ok (.literal rhs)

end Scope
end Reshape.Operation
