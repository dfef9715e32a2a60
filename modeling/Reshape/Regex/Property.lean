import Reshape.Regex.CharClass
/-!
# Character properties

The names that a pattern may use for sets of characters: general categories, a few binary
properties, and the bracketed names of ASCII sets.
-/
namespace Reshape.Regex

/-- General categories, each with its short name first. -/
def generalNames : List (String × List String) :=
  [("L", ["l", "letter"]), ("Lu", ["lu", "uppercaseletter"]), ("Ll", ["ll", "lowercaseletter"]),
   ("Lt", ["lt", "titlecaseletter"]), ("Lm", ["lm", "modifierletter"]),
   ("Lo", ["lo", "otherletter"]), ("M", ["m", "mark", "combiningmark"]),
   ("Mn", ["mn", "nonspacingmark"]),
   ("Mc", ["mc", "spacingmark"]), ("Me", ["me", "enclosingmark"]), ("N", ["n", "number"]),
   ("Nd", ["nd", "decimalnumber", "digit"]), ("Nl", ["nl", "letternumber"]),
   ("No", ["no", "othernumber"]), ("P", ["p", "punctuation", "punct"]),
   ("Pc", ["pc", "connectorpunctuation"]), ("Pd", ["pd", "dashpunctuation"]),
   ("Ps", ["ps", "openpunctuation"]), ("Pe", ["pe", "closepunctuation"]),
   ("Pi", ["pi", "initialpunctuation"]), ("Pf", ["pf", "finalpunctuation"]),
   ("Po", ["po", "otherpunctuation"]), ("S", ["s", "symbol"]), ("Sm", ["sm", "mathsymbol"]),
   ("Sc", ["sc", "currencysymbol"]), ("Sk", ["sk", "modifiersymbol"]),
   ("So", ["so", "othersymbol"]), ("Z", ["z", "separator"]), ("Zs", ["zs", "spaceseparator"]),
   ("Zl", ["zl", "lineseparator"]),
   ("Zp", ["zp", "paragraphseparator"]), ("C", ["c", "other"]), ("Cc", ["cc", "control", "cntrl"]),
   ("Cf", ["cf", "format"]), ("Cn", ["cn", "unassigned"]), ("Co", ["co", "privateuse"])]

/-- A name without what does not count in it: case, blanks, hyphens, underscores, and `is` in
front. -/
def plainName (name : List Char) : String :=
  let kept := (name.filter fun c => !(Text.isBlank c || c == '-' || c == '_')).map Char.toLower
  match kept with
  | 'i' :: 's' :: rest => String.ofList rest
  | kept => String.ofList kept

def general? (name : String) : Option CharClass :=
  match generalNames.find? fun (_, names) => names.contains name with
  | some (short, _) => some (.named (.general short))
  | none =>
    match name with
    | "lc" | "casedletter" => some (.named .casedLetter)
    | "any" => some (.named .any)
    | "assigned" => some (.compl (.named (.general "Cn")))
    | "ascii" => some (.range 0 0x7F)
    | _ => none

/-- The set of characters with a property. -/
def property? (name : List Char) : Option CharClass :=
  match plainName name with
  | "alphabetic" | "alpha" => some (.named .alphabetic)
  | "whitespace" | "wspace" | "space" => some (.named .space)
  | plain => general? plain

/-- The set of characters whose property has a value. -/
def propertyValue? (name value : List Char) : Option CharClass :=
  if ["gc", "generalcategory"].contains (plainName name) then general? (plainName value) else none

def ranges (bounds : List (Char × Char)) : CharClass :=
  bounds.foldl (fun set (a, b) => .union set (.range a.toNat b.toNat)) .empty

/-- The sets of ASCII characters that have a bracketed name. -/
def asciiNamed? : String → Option CharClass
  | "alnum" => some (ranges [('0', '9'), ('A', 'Z'), ('a', 'z')])
  | "alpha" => some (ranges [('A', 'Z'), ('a', 'z')])
  | "ascii" => some (.range 0 0x7F)
  | "blank" => some (.ofChars ['\t', ' '])
  | "cntrl" => some (.union (.range 0 0x1F) (.range 0x7F 0x7F))
  | "digit" => some (ranges [('0', '9')])
  | "graph" => some (ranges [('!', '~')])
  | "lower" => some (ranges [('a', 'z')])
  | "print" => some (ranges [(' ', '~')])
  | "punct" => some (ranges [('!', '/'), (':', '@'), ('[', '\x60'), ('\x7b', '~')])
  | "space" => some (.union (.range 9 13) (.char ' '))
  | "upper" => some (ranges [('A', 'Z')])
  | "word" => some (ranges [('0', '9'), ('A', 'Z'), ('a', 'z'), ('_', '_')])
  | "xdigit" => some (ranges [('0', '9'), ('A', 'F'), ('a', 'f')])
  | _ => none

end Reshape.Regex
