import Reshape.Pattern.Path
import Reshape.Proofs.Pattern.Scan
/-!
# Balanced texts

In a balanced text every parenthesis and every bracket that is not escaped is closed, and those
inside it too. A split passes over a balanced text without a cut, and a group in parentheses is read
as a whole.
-/
namespace Reshape.Pattern

/-- Characters that open or close a group, or escape the next one. -/
def groupChars : List Char := ['\\', '(', ')', '[', ']']

theorem special_of_group {c : Char} (h : c ∈ groupChars) :
    isSpecialChar c = true ∧ Text.isDigit c = false := by
  have hall : groupChars.all (fun c => isSpecialChar c && !Text.isDigit c) = true := by decide
  simpa using List.all_eq_true.mp hall c h

/-- The groups of the text are closed. The separator stands outside of them only if `nested` says
that the text is itself inside of a group. -/
inductive Balanced (separator : Char) : (nested : Bool) → List Char → Prop
  | nil {nested : Bool} : Balanced separator nested []
  | char {nested : Bool} {c : Char} {text : List Char} (plain : c ∉ groupChars)
    (cut : c ≠ separator ∨ nested = true) (tail : Balanced separator nested text) :
    Balanced separator nested (c :: text)
  | escaped {nested : Bool} {c : Char} {text : List Char}
    (tail : Balanced separator nested text) : Balanced separator nested ('\\' :: c :: text)
  | parentheses {nested : Bool} {inner text : List Char} (inside : Balanced separator true inner)
    (tail : Balanced separator nested text) :
    Balanced separator nested ('(' :: (inner ++ ')' :: text))
  | brackets {nested : Bool} {inner text : List Char} (inside : Balanced separator true inner)
    (tail : Balanced separator nested text) :
    Balanced separator nested ('[' :: (inner ++ ']' :: text))

namespace Balanced

variable {separator : Char} {nested : Bool} {text more : List Char}

theorem append (h : Balanced separator nested text) (hm : Balanced separator nested more) :
    Balanced separator nested (text ++ more) := by
  induction h with
  | nil => exact hm
  | char plain cut _ ih => exact .char plain cut (ih hm)
  | escaped _ ih => exact .escaped (ih hm)
  | parentheses inside _ _ ih =>
    rw [List.cons_append, List.append_assoc]
    exact .parentheses inside (ih hm)
  | brackets inside _ _ ih =>
    rw [List.cons_append, List.append_assoc]
    exact .brackets inside (ih hm)

theorem parenthesized (h : Balanced separator true text) :
    Balanced separator nested ('(' :: text ++ [')']) :=
  .parentheses h .nil

theorem bracketed (h : Balanced separator true text) :
    Balanced separator nested (Pattern.bracketed text) :=
  .brackets h .nil

theorem escape (hs : isSpecialChar separator = true) (key : List Char) :
    Balanced separator nested (Pattern.escape key) := by
  induction key with
  | nil => exact .nil
  | cons c key ih =>
    rw [Pattern.escape]
    cases hc : isSpecialChar c with
    | true => exact .escaped ih
    | false =>
      refine .char ?_ (.inl ?_) ih
      · intro hm
        rw [(special_of_group hm).1] at hc
        cases hc
      · intro he
        rw [he, hs] at hc
        cases hc

theorem digits {digits : List Char} (hs : Text.isDigit separator = false)
    (h : ∀ c ∈ digits, Text.isDigit c = true) : Balanced separator nested digits := by
  induction digits with
  | nil => exact .nil
  | cons c digits ih =>
    have hc := h c List.mem_cons_self
    refine .char ?_ (.inl ?_) (ih fun d hd => h d (List.mem_cons_of_mem c hd))
    · intro hm
      rw [(special_of_group hm).2] at hc
      cases hc
    · intro he
      rw [he, hs] at hc
      cases hc

section Split

variable {part rest : List Char} {start position opened : Nat} {parentheses brackets : List Nat}

theorem splitFrom_escaped {c : Char} :
    splitFrom separator ⟨part, start, parentheses, brackets⟩ position ('\\' :: c :: rest) =
      splitFrom separator ⟨c :: '\\' :: part, start, parentheses, brackets⟩ (position + 2)
        rest := by
  rw [splitFrom]

theorem splitFrom_parenthesis :
    splitFrom separator ⟨part, start, parentheses, brackets⟩ position ('(' :: rest) =
      splitFrom separator ⟨'(' :: part, start, position :: parentheses, brackets⟩ (position + 1)
        rest := by
  rw [splitFrom]

theorem splitFrom_parenthesis_closed :
    splitFrom separator ⟨part, start, opened :: parentheses, brackets⟩ position (')' :: rest) =
      splitFrom separator ⟨')' :: part, start, parentheses, brackets⟩ (position + 1) rest := by
  rw [splitFrom]

theorem splitFrom_bracket :
    splitFrom separator ⟨part, start, parentheses, brackets⟩ position ('[' :: rest) =
      splitFrom separator ⟨'[' :: part, start, parentheses, position :: brackets⟩ (position + 1)
        rest := by
  rw [splitFrom]

theorem splitFrom_bracket_closed :
    splitFrom separator ⟨part, start, parentheses, opened :: brackets⟩ position (']' :: rest) =
      splitFrom separator ⟨']' :: part, start, parentheses, brackets⟩ (position + 1) rest := by
  rw [splitFrom]

/-- A character that opens or closes no group is where a split may cut. -/
theorem splitFrom_char {c : Char} (h : c ∉ groupChars) :
    splitFrom separator ⟨part, start, parentheses, brackets⟩ position (c :: rest) =
      if c == separator && parentheses.isEmpty && brackets.isEmpty then do
        let parts ← splitFrom separator ⟨[], position + 1, [], []⟩ (position + 1) rest
        pure ((part.reverse, start) :: parts)
      else splitFrom separator ⟨c :: part, start, parentheses, brackets⟩ (position + 1) rest := by
  simp only [groupChars, List.mem_cons, List.not_mem_nil, or_false, not_or] at h
  obtain ⟨h1, h2, h3, h4, h5⟩ := h
  rw [splitFrom]
  all_goals intros; contradiction

end Split

/-- A split passes over a balanced text and keeps it as part of what is in progress. -/
theorem splitFrom_eq (h : Balanced separator nested text) {part : List Char} {start : Nat}
    {parentheses brackets : List Nat}
    (hn : nested = true → parentheses ≠ [] ∨ brackets ≠ []) (position : Nat)
    (rest : List Char) :
    splitFrom separator ⟨part, start, parentheses, brackets⟩ position (text ++ rest) =
      splitFrom separator ⟨text.reverse ++ part, start, parentheses, brackets⟩
        (position + text.length) rest := by
  induction h generalizing part parentheses brackets position rest with
  | nil => rfl
  | @char nested c text plain cut _ ih =>
    have hkeep : (c == separator && parentheses.isEmpty && brackets.isEmpty) = false := by
      cases hc : c == separator with
      | false => rfl
      | true =>
        rcases hn (cut.resolve_left fun hne => hne (beq_iff_eq.mp hc)) with hp | hb
        · rw [List.isEmpty_eq_false_iff.mpr hp]
          rfl
        · rw [List.isEmpty_eq_false_iff.mpr hb, Bool.and_false]
    rw [List.cons_append, splitFrom_char plain, hkeep, if_neg Bool.false_ne_true, ih hn]
    simp [Nat.add_comm, Nat.add_left_comm]
  | @escaped nested c text _ ih =>
    rw [List.cons_append, List.cons_append, splitFrom_escaped, ih hn]
    simp [Nat.add_comm, Nat.add_left_comm]
  | @parentheses nested inner text _ _ ihi ih =>
    rw [List.cons_append, List.append_assoc, splitFrom_parenthesis,
      ihi fun _ => .inl (List.cons_ne_nil _ _), List.cons_append, splitFrom_parenthesis_closed,
      ih hn]
    simp [Nat.add_comm, Nat.add_left_comm]
  | @brackets nested inner text _ _ ihi ih =>
    rw [List.cons_append, List.append_assoc, splitFrom_bracket,
      ihi fun _ => .inr (List.cons_ne_nil _ _), List.cons_append, splitFrom_bracket_closed, ih hn]
    simp [Nat.add_comm, Nat.add_left_comm]

/-- Outside of all groups too, if the text has the separator in groups only. -/
theorem splitFrom_top (h : Balanced separator false text) (part : List Char)
    (start position : Nat) (rest : List Char) :
    splitFrom separator ⟨part, start, [], []⟩ position (text ++ rest) =
      splitFrom separator ⟨text.reverse ++ part, start, [], []⟩ (position + text.length) rest :=
  h.splitFrom_eq (fun hn => absurd hn Bool.false_ne_true) position rest

theorem parenthesizedTail_char {c : Char} (hb : c ≠ '\\') (ho : c ≠ '(') (hc : c ≠ ')')
    (start depth position : Nat) (inner rest : List Char) :
    Scan.parenthesizedTail start depth position inner (c :: rest) =
      Scan.parenthesizedTail start depth (position + 1) (c :: inner) rest := by
  rw [Scan.parenthesizedTail]
  all_goals intros; contradiction

/-- So does the reading of a group in parentheses. -/
theorem parenthesizedTail_eq (h : Balanced separator nested text) (start depth position : Nat)
    (inner rest : List Char) :
    Scan.parenthesizedTail start depth position inner (text ++ rest) =
      Scan.parenthesizedTail start depth (position + text.length) (text.reverse ++ inner) rest := by
  induction h generalizing depth position inner rest with
  | nil => rfl
  | char plain _ _ ih =>
    simp only [groupChars, List.mem_cons, not_or] at plain
    obtain ⟨hb, ho, hc, -⟩ := plain
    rw [List.cons_append, parenthesizedTail_char hb ho hc, ih]
    simp [Nat.add_comm, Nat.add_left_comm]
  | escaped _ ih =>
    rw [List.cons_append, List.cons_append, Scan.parenthesizedTail, ih]
    simp [Nat.add_comm, Nat.add_left_comm]
  | parentheses _ _ ihi ih =>
    rw [List.cons_append, List.append_assoc, Scan.parenthesizedTail, ihi, List.cons_append,
      Scan.parenthesizedTail, ih]
    simp [Nat.add_comm, Nat.add_left_comm]
  | brackets _ _ ihi ih =>
    rw [List.cons_append, List.append_assoc, parenthesizedTail_char (by decide) (by decide)
      (by decide), ihi, List.cons_append, parenthesizedTail_char (by decide) (by decide)
      (by decide), ih]
    simp [Nat.add_comm, Nat.add_left_comm]

theorem reads_parenthesized (h : Balanced separator nested text) (rest : List Char) :
    Scan.Reads Scan.parenthesized ('(' :: (text ++ ')' :: rest)) text rest := by
  refine Scan.reads_position fun start => ?_
  refine Scan.Reads.bind (Scan.reads_expect '(' _) fun position => ?_
  refine ⟨position + text.length + 1, ?_⟩
  rw [h.parenthesizedTail_eq, Scan.parenthesizedTail, List.append_nil, List.reverse_reverse]

end Balanced
end Reshape.Pattern
