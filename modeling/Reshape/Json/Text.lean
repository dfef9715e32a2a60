import Reshape.Json.Basic
import Reshape.Number.Text
/-!
# The text of a document

The compact form has no blanks at all. The indented form puts every element and every field on a
line of its own, two blanks deeper than what holds it; containers without content stay on one line.
-/
namespace Reshape.Json

def hexDigit (n : Nat) : Char := "0123456789abcdef".toList.getD n '0'

/-- One character inside quotes. Control characters are escaped, all others above them but the
quote and the backslash stand for themselves. -/
def escapeChar (c : Char) : List Char :=
  match c with
  | '"' => ['\\', '"']
  | '\\' => ['\\', '\\']
  | '\n' => ['\\', 'n']
  | '\r' => ['\\', 'r']
  | '\t' => ['\\', 't']
  | '\x08' => ['\\', 'b']
  | '\x0c' => ['\\', 'f']
  | c =>
    if c.toNat < 32 then
      ['\\', 'u', '0', '0', hexDigit (c.toNat / 16), hexDigit (c.toNat % 16)]
    else [c]

def quote (text : String) : List Char :=
  '"' :: text.toList.flatMap escapeChar ++ ['"']

def boolText (b : Bool) : List Char := if b then "true".toList else "false".toList

mutual
/-- The compact form. -/
def compact : Json → List Char
  | .null => "null".toList
  | .bool b => boolText b
  | .num n => n.text
  | .str s => quote s
  | .arr [] => ['[', ']']
  | .arr (v :: rest) => '[' :: compact v ++ compactElements rest ++ [']']
  | .obj [] => ['\x7b', '\x7d']
  | .obj ((k, v) :: rest) =>
    '\x7b' :: quote k ++ ':' :: compact v ++ compactFields rest ++ ['\x7d']

def compactElements : List Json → List Char
  | [] => []
  | v :: rest => ',' :: compact v ++ compactElements rest

def compactFields : List (String × Json) → List Char
  | [] => []
  | (k, v) :: rest => ',' :: quote k ++ ':' :: compact v ++ compactFields rest
end

/-- A new line, indented to a depth. -/
def newLine (depth : Nat) : List Char := '\n' :: List.replicate (2 * depth) ' '

mutual
/-- The indented form of a value whose container stands at `depth`. -/
def indented (depth : Nat) : Json → List Char
  | .null => "null".toList
  | .bool b => boolText b
  | .num n => n.text
  | .str s => quote s
  | .arr [] => ['[', ']']
  | .arr (v :: rest) =>
    '[' :: newLine (depth + 1) ++ indented (depth + 1) v ++ indentedElements (depth + 1) rest ++
      newLine depth ++ [']']
  | .obj [] => ['\x7b', '\x7d']
  | .obj ((k, v) :: rest) =>
    '\x7b' :: newLine (depth + 1) ++ quote k ++ ':' :: ' ' :: indented (depth + 1) v ++
      indentedFields (depth + 1) rest ++ newLine depth ++ ['\x7d']

def indentedElements (depth : Nat) : List Json → List Char
  | [] => []
  | v :: rest => ',' :: newLine depth ++ indented depth v ++ indentedElements depth rest

def indentedFields (depth : Nat) : List (String × Json) → List Char
  | [] => []
  | (k, v) :: rest =>
    ',' :: newLine depth ++ quote k ++ ':' :: ' ' :: indented depth v ++ indentedFields depth rest
end

def toText (v : Json) : String := String.ofList v.compact

/-- The text that a value contributes to a longer text: strings without their quotes, all else in
compact form. -/
def display : Json → String
  | .str text => text
  | v => v.toText

/-- The key that a scalar stands for; null and containers stand for none. -/
def scalarKey? : Json → Option String
  | .str text => some text
  | .num n => some (String.ofList n.text)
  | .bool b => some (String.ofList (boolText b))
  | _ => none

end Reshape.Json
