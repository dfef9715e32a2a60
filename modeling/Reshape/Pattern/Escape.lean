/-!
# Escaped keys

A backslash takes the character after it literally. Every character with a meaning in a key or a
write path can be escaped so that it stands for itself.
-/
namespace Reshape.Pattern

/-- Characters with a meaning in keys or write paths. -/
def specialChars : List Char := ['\\', '.', '*', '&', '$', '@', '#', '[', ']', '(', ')', '|']

def isSpecialChar (c : Char) : Bool := specialChars.contains c

/-- Put a backslash in front of every special character. -/
def escape : List Char → List Char
  | [] => []
  | c :: rest => if isSpecialChar c then '\\' :: c :: escape rest else c :: escape rest

/-- Drop the backslashes and keep what they escape; a backslash at the end is dropped. -/
def unescape : List Char → List Char
  | [] => []
  | '\\' :: c :: rest => c :: unescape rest
  | '\\' :: [] => []
  | c :: rest => c :: unescape rest

def escapeKey (text : String) : String := String.ofList (escape text.toList)

def unescapeKey (text : String) : String := String.ofList (unescape text.toList)

@[simp, grind =] theorem unescape_escape (text : List Char) : unescape (escape text) = text := by
  induction text with
  | nil => rfl
  | cons c rest ih =>
    rw [escape]
    split
    · simp [unescape, ih]
    · rename_i h
      have hc : c ≠ '\\' := by rintro rfl; exact h (by decide)
      rw [unescape, ih]
      · intro d tail he _; exact hc he
      · intro he _; exact hc he

end Reshape.Pattern
