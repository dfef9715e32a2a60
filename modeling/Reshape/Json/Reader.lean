import Reshape.Json.Basic
import Reshape.Number.Decimal
/-!
# Reading documents

A strict reader of JSON text. Containers nest at most `depthLimit` deep, a repeated key keeps its
last value, escaped surrogates must pair up, and a number too large for a float is refused.
-/
namespace Reshape.Json.Reader

/-- A reader takes what it reads off the front of a text. -/
abbrev Read (α : Type) := List Char → Option (α × List Char)

def isSpace (c : Char) : Bool := c == ' ' || c == '\n' || c == '\t' || c == '\r'

def skipSpace (text : List Char) : List Char := text.dropWhile isSpace

/-- The containers that may be open at once. -/
def depthLimit : Nat := 127

/-! ## Strings -/

def hexValue? (c : Char) : Option Nat :=
  if '0' ≤ c && c ≤ '9' then some (c.toNat - '0'.toNat)
  else if 'a' ≤ c && c ≤ 'f' then some (c.toNat - 'a'.toNat + 10)
  else if 'A' ≤ c && c ≤ 'F' then some (c.toNat - 'A'.toNat + 10)
  else none

def hexUnit? : Read Nat
  | a :: b :: c :: d :: rest => do
    let a ← hexValue? a
    let b ← hexValue? b
    let c ← hexValue? c
    let d ← hexValue? d
    some (((a * 16 + b) * 16 + c) * 16 + d, rest)
  | _ => none

/-- The character after `\u`, from one unit or a pair of surrogates. -/
def escapedUnits? : Read Char := fun text => do
  let (high, rest) ← hexUnit? text
  if 0xDC00 ≤ high && high ≤ 0xDFFF then none
  else if 0xD800 ≤ high && high ≤ 0xDBFF then
    match rest with
    | '\\' :: 'u' :: rest =>
      let (low, rest) ← hexUnit? rest
      if 0xDC00 ≤ low && low ≤ 0xDFFF then
        some (Char.ofNat (0x10000 + (high - 0xD800) * 0x400 + (low - 0xDC00)), rest)
      else none
    | _ => none
  else some (Char.ofNat high, rest)

/-- The character after a backslash. -/
def escaped? : Read Char
  | '"' :: rest => some ('"', rest)
  | '\\' :: rest => some ('\\', rest)
  | '/' :: rest => some ('/', rest)
  | 'b' :: rest => some ('\x08', rest)
  | 'f' :: rest => some ('\x0c', rest)
  | 'n' :: rest => some ('\n', rest)
  | 'r' :: rest => some ('\r', rest)
  | 't' :: rest => some ('\t', rest)
  | 'u' :: rest => escapedUnits? rest
  | _ => none

/-- The rest of a string after its opening quote. Every round takes a character, so the length of
the text is enough `fuel`. -/
def stringTail (fuel : Nat) (text : List Char) (taken : List Char) :
    Option (String × List Char) :=
  match fuel, text with
  | _, '"' :: rest => some (String.ofList taken.reverse, rest)
  | fuel + 1, '\\' :: rest =>
    match escaped? rest with
    | some (c, rest) => stringTail fuel rest (c :: taken)
    | none => none
  | fuel + 1, c :: rest => if c.toNat < 32 then none else stringTail fuel rest (c :: taken)
  | _, _ => none

def string? : Read String
  | '"' :: rest => stringTail rest.length rest []
  | _ => none

/-! ## Numbers -/

/-- Digits added to a significand as long as it stays a machine word, the digits that no longer
fit, and the rest of the text. -/
def significand : Nat → List Char → Nat × List Char × List Char
  | n, [] => (n, [], [])
  | n, c :: rest =>
    if Text.isDigit c then
      let next := 10 * n + Text.digitValue c
      if next < Text.wordSize then significand next rest
      else (n, (c :: rest).span Text.isDigit)
    else (n, [], c :: rest)

/-- The exponent part of a literal and the rest of the text; no exponent part is the exponent 0. -/
def exponent? (text : List Char) : Option (Int × List Char) :=
  let read (sign : Int) (text : List Char) : Option (Int × List Char) :=
    match text.span Text.isDigit with
    | ([], _) => none
    | (ds, rest) => some (sign * Text.digitsValue ds, rest)
  match text with
  | c :: rest =>
    if c == 'e' || c == 'E' then
      match rest with
      | '-' :: rest => read (-1) rest
      | '+' :: rest => read 1 rest
      | _ => read 1 rest
    else some (0, text)
  | [] => some (0, [])

/-- A literal after its sign. One with a fraction or an exponent is a float, and so is one out of
the range of integers; minus zero is a float. -/
def unsignedNumber? (negative : Bool) (text : List Char) : Option (Number × List Char) :=
  let (digits, afterWhole) := text.span Text.isDigit
  if digits.isEmpty || (digits.length > 1 && digits.head? == some '0') then none
  else
    let signed (x : Float) : Number := .float (if negative then -x else x)
    let (n, dropped, _) := significand 0 digits
    let float? (n : Nat) (e : Int) (rest : List Char) : Option (Number × List Char) := do
      let (e', rest) ← exponent? rest
      let x ← Number.scale? n (e + e')
      some (signed x, rest)
    match afterWhole with
    | '.' :: rest =>
      let (fraction, rest) := rest.span Text.isDigit
      if fraction.isEmpty then none
      else
        let (m, left, _) := significand n fraction
        let used : Int := fraction.length - left.length
        float? m (dropped.length - used) rest
    | _ =>
      let isFloat := match afterWhole with
        | c :: _ => c == 'e' || c == 'E'
        | [] => false
      if isFloat || !dropped.isEmpty then float? n dropped.length afterWhole
      else if !negative then some (.int n, afterWhole)
      else if n = 0 || !Text.inInt64 (-(n : Int)) then
        some (signed (Float.ofNat n), afterWhole)
      else some (.int (-(n : Int)), afterWhole)

def number? : Read Number
  | '-' :: rest => unsignedNumber? true rest
  | text => unsignedNumber? false text

/-! ## Values -/

/-- The rest of a list, from the start of an element. Every round takes a character. -/
def elements? (value? : Read Json) (fuel : Nat) (text : List Char) (taken : List Json) :
    Option (List Json × List Char) :=
  match fuel with
  | 0 => none
  | fuel + 1 =>
    match value? text with
    | none => none
    | some (v, rest) =>
      match skipSpace rest with
      | ',' :: rest => elements? value? fuel rest (v :: taken)
      | ']' :: rest => some ((v :: taken).reverse, rest)
      | _ => none

/-- The rest of an object, from the start of a key; fields in document order, repeats kept. -/
def members? (value? : Read Json) (fuel : Nat) (text : List Char)
    (taken : List (String × Json)) : Option (List (String × Json) × List Char) :=
  match fuel with
  | 0 => none
  | fuel + 1 =>
    match string? (skipSpace text) with
    | none => none
    | some (key, rest) =>
      match skipSpace rest with
      | ':' :: rest =>
        match value? rest with
        | none => none
        | some (v, rest) =>
          match skipSpace rest with
          | ',' :: rest => members? value? fuel rest ((key, v) :: taken)
          | '\x7d' :: rest => some (((key, v) :: taken).reverse, rest)
          | _ => none
      | _ => none

/-- The members of an object after its opening brace. -/
def objectTail? (value? : Read Json) : Read (List (String × Json)) := fun text =>
  match skipSpace text with
  | '\x7d' :: rest => some ([], rest)
  | _ => members? value? text.length text []

/-- One value; `depth` containers may still be opened. -/
def value? (depth : Nat) (text : List Char) : Option (Json × List Char) :=
  match skipSpace text with
  | 'n' :: 'u' :: 'l' :: 'l' :: rest => some (.null, rest)
  | 't' :: 'r' :: 'u' :: 'e' :: rest => some (.bool true, rest)
  | 'f' :: 'a' :: 'l' :: 's' :: 'e' :: rest => some (.bool false, rest)
  | '"' :: rest => (string? ('"' :: rest)).map fun (s, rest) => (.str s, rest)
  | '[' :: rest =>
    match depth with
    | 0 => none
    | depth + 1 =>
      match skipSpace rest with
      | ']' :: rest => some (.arr [], rest)
      | _ => (elements? (value? depth) rest.length rest []).map fun (vs, rest) => (.arr vs, rest)
  | '\x7b' :: rest =>
    match depth with
    | 0 => none
    | depth + 1 =>
      (objectTail? (value? depth) rest).map fun (fields, rest) => (.ofFields fields, rest)
  | text => (number? text).map fun (n, rest) => (.num n, rest)

end Reader

/-- The document that a text holds, if it is one. -/
def ofText? (text : String) : Option Json :=
  match Reader.value? Reader.depthLimit text.toList with
  | some (v, rest) => if (Reader.skipSpace rest).isEmpty then some v else none
  | none => none

/-- The members of the object that a text holds, in the order of the text and with repeats. -/
def membersOfText? (text : String) : Option (List (String × Json)) :=
  match Reader.skipSpace text.toList with
  | '\x7b' :: rest =>
    match Reader.objectTail? (Reader.value? (Reader.depthLimit - 1)) rest with
    | some (fields, rest) => if (Reader.skipSpace rest).isEmpty then some fields else none
    | none => none
  | _ => none

end Reshape.Json
