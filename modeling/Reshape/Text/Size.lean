/-!
# Sizes in bytes

How many bytes a text takes in UTF-8.
-/
namespace Reshape.Text

def utf8Size (text : List Char) : Nat := text.foldr (fun c n => c.utf8Size + n) 0

@[simp, grind =] theorem utf8Size_append (text more : List Char) :
    utf8Size (text ++ more) = utf8Size text + utf8Size more := by
  induction text with
  | nil => rw [List.nil_append, utf8Size, utf8Size, List.foldr_nil, Nat.zero_add]
  | cons c text ih =>
    change c.utf8Size + utf8Size (text ++ more) = c.utf8Size + utf8Size text + utf8Size more
    rw [ih, Nat.add_assoc]

@[simp] theorem utf8Size_pos_iff {text : List Char} : 0 < utf8Size text ↔ text ≠ [] := by
  cases text with
  | nil => exact ⟨fun h => absurd h (Nat.lt_irrefl 0), fun h => absurd rfl h⟩
  | cons c text =>
    exact ⟨fun _ => List.cons_ne_nil c text, fun _ => Nat.add_pos_left c.utf8Size_pos _⟩

end Reshape.Text
