import Mathlib.Data.List.TakeWhile
import Reshape.Operation.Expression
import Reshape.Proofs.Pattern.Lookup
/-!
# Splitting arguments

A list of arguments is cut at the commas outside of quotes and parentheses. The splitting passes
over a text that is enclosed in this sense, so arguments that are joined by commas come apart as
they were.
-/
namespace Reshape.Operation

open Pattern (Trimmed)

/-- The characters that the splitting of arguments counts outside of quotes. -/
def groupingChars : List Char := ['\'', '(', ')']

/-- Put a backslash in front of every quote and every backslash. -/
def escapeQuotes : List Char → List Char
  | [] => []
  | c :: rest =>
    if c == '\'' || c == '\\' then '\\' :: c :: escapeQuotes rest else c :: escapeQuotes rest

/-- A text in quotes. -/
def quote (text : List Char) : List Char := '\'' :: escapeQuotes text ++ ['\'']

theorem unescape_escapeQuotes (text : List Char) :
    Pattern.unescape (escapeQuotes text) = text := by
  induction text with
  | nil => rfl
  | cons c rest ih =>
    rw [escapeQuotes]
    split
    · rw [Pattern.unescape, ih]
    · rename_i hc
      have hplain : c ≠ '\\' := by
        rintro rfl
        exact hc rfl
      rw [Pattern.unescape, ih]
      · exact fun _ _ he _ => hplain he
      · exact fun he _ => hplain he

/-- Quotes and parentheses of the text are closed in it. A comma stands outside of them only if
`nested` says that the text is itself inside of parentheses. -/
inductive Enclosed : (nested : Bool) → List Char → Prop
  | nil {nested : Bool} : Enclosed nested []
  | char {nested : Bool} {c : Char} {text : List Char} (plain : c ∉ groupingChars)
    (cut : c ≠ ',' ∨ nested = true) (tail : Enclosed nested text) : Enclosed nested (c :: text)
  | quoted {nested : Bool} (inner : List Char) {text : List Char} (tail : Enclosed nested text) :
    Enclosed nested (quote inner ++ text)
  | parentheses {nested : Bool} {inner text : List Char} (inside : Enclosed true inner)
    (tail : Enclosed nested text) : Enclosed nested ('(' :: (inner ++ ')' :: text))

section Split

variable {part rest : List Char} {depth : Nat} {quoted : Bool}

theorem argumentsFrom_escaped (c : Char) :
    argumentsFrom part depth true ('\\' :: c :: rest) =
      argumentsFrom (c :: '\\' :: part) depth true rest := by
  rw [argumentsFrom.eq_def]
  rfl

theorem argumentsFrom_quote :
    argumentsFrom part depth quoted ('\'' :: rest) =
      argumentsFrom ('\'' :: part) depth (!quoted) rest := by
  rw [argumentsFrom.eq_def]
  rfl

theorem argumentsFrom_quoted_char {c : Char} (hq : c ≠ '\'') (hb : c ≠ '\\') :
    argumentsFrom part depth true (c :: rest) = argumentsFrom (c :: part) depth true rest := by
  rw [argumentsFrom.eq_def]
  simp [hq, hb]

theorem argumentsFrom_open :
    argumentsFrom part depth false ('(' :: rest) =
      argumentsFrom ('(' :: part) (depth + 1) false rest := by
  rw [argumentsFrom.eq_def]
  rfl

theorem argumentsFrom_close :
    argumentsFrom part (depth + 1) false (')' :: rest) =
      argumentsFrom (')' :: part) depth false rest := by
  rw [argumentsFrom.eq_def]
  rfl

theorem argumentsFrom_cut :
    argumentsFrom part 0 false (',' :: rest) = (do
      let a ← finishArgument part
      let more ← argumentsFrom [] 0 false rest
      pure (a :: more)) := by
  rw [argumentsFrom.eq_def]
  rfl

theorem argumentsFrom_char {c : Char} (plain : c ∉ groupingChars) (cut : c ≠ ',' ∨ depth ≠ 0) :
    argumentsFrom part depth false (c :: rest) = argumentsFrom (c :: part) depth false rest := by
  simp only [groupingChars, List.mem_cons, List.not_mem_nil, or_false, not_or] at plain
  obtain ⟨hq, ho, hc⟩ := plain
  have hkeep : (c == ',' && depth == 0) = false := by
    rw [Bool.and_eq_false_iff, beq_eq_false_iff_ne, beq_eq_false_iff_ne]
    exact cut
  rw [argumentsFrom.eq_def]
  simp [hq, ho, hc, hkeep]

/-- The quotes of an escaped text do not end it. -/
theorem argumentsFrom_escapeQuotes (text : List Char) :
    argumentsFrom part depth true (escapeQuotes text ++ rest) =
      argumentsFrom ((escapeQuotes text).reverse ++ part) depth true rest := by
  induction text generalizing part with
  | nil => rfl
  | cons c text ih =>
    rw [escapeQuotes]
    split
    · rw [List.cons_append, List.cons_append, argumentsFrom_escaped, ih]
      simp
    · rename_i hc
      rw [Bool.or_eq_true, beq_iff_eq, beq_iff_eq, not_or] at hc
      rw [List.cons_append, argumentsFrom_quoted_char hc.1 hc.2, ih]
      simp

end Split

namespace Enclosed

variable {nested : Bool} {text more : List Char}

theorem append (h : Enclosed nested text) (hm : Enclosed nested more) :
    Enclosed nested (text ++ more) := by
  induction h with
  | nil => exact hm
  | char plain cut _ ih => exact .char plain cut (ih hm)
  | quoted inner _ ih =>
    rw [List.append_assoc]
    exact .quoted inner (ih hm)
  | parentheses inside _ _ ih =>
    rw [List.cons_append, List.append_assoc]
    exact .parentheses inside (ih hm)

/-- Characters that are neither counted nor cut at. -/
theorem plain (h : ∀ c ∈ text, c ∉ ',' :: groupingChars) : Enclosed nested text := by
  induction text with
  | nil => exact .nil
  | cons c text ih =>
    have hc := h c List.mem_cons_self
    rw [List.mem_cons, not_or] at hc
    exact .char hc.2 (.inl hc.1) (ih fun d hd => h d (List.mem_cons_of_mem c hd))

theorem quote (inner : List Char) : Enclosed nested (quote inner) := by
  have h : Enclosed nested (Operation.quote inner ++ []) := .quoted inner .nil
  rwa [List.append_nil] at h

theorem parenthesized (h : Enclosed true text) : Enclosed nested ('(' :: (text ++ [')'])) :=
  .parentheses h .nil

theorem of_false (h : Enclosed false text) : Enclosed true text := by
  generalize hn : false = outer at h
  clear hn
  induction h with
  | nil => exact .nil
  | char plain _ _ ih => exact .char plain (.inr rfl) ih
  | quoted inner _ ih => exact .quoted inner ih
  | parentheses inside _ _ ih => exact .parentheses inside ih

/-- The splitting passes over an enclosed text and keeps it as part of the argument in progress. -/
theorem argumentsFrom_eq (h : Enclosed nested text) {part : List Char} {depth : Nat}
    (hn : nested = true → depth ≠ 0) (rest : List Char) :
    argumentsFrom part depth false (text ++ rest) =
      argumentsFrom (text.reverse ++ part) depth false rest := by
  induction h generalizing part depth rest with
  | nil => rfl
  | char plain cut _ ih =>
    rw [List.cons_append, argumentsFrom_char plain (cut.imp_right hn), ih hn]
    simp
  | quoted inner _ ih =>
    rw [Operation.quote, List.append_assoc, List.append_assoc, List.cons_append,
      argumentsFrom_quote, Bool.not_false, argumentsFrom_escapeQuotes, List.singleton_append,
      List.cons_append, argumentsFrom_quote, Bool.not_true, ih hn]
    simp
  | parentheses _ _ ihi ih =>
    rw [List.cons_append, List.append_assoc, argumentsFrom_open,
      ihi fun _ => Nat.succ_ne_zero _, List.cons_append, argumentsFrom_close, ih hn]
    simp

/-- Outside of parentheses too, if the text has commas inside of them only. -/
theorem argumentsFrom_top (h : Enclosed false text) (part rest : List Char) :
    argumentsFrom part 0 false (text ++ rest) =
      argumentsFrom (text.reverse ++ part) 0 false rest :=
  h.argumentsFrom_eq (fun hn => absurd hn Bool.false_ne_true) rest

end Enclosed

/-- A text that stands for one argument among others. -/
structure ArgumentText (text : List Char) : Prop where
  enclosed : Enclosed false text
  trimmed : Trimmed text
  ne_nil : text ≠ []

/-- The arguments between commas, with a blank after each comma. -/
def joinArguments (texts : List (List Char)) : List Char := List.intercalate [',', ' '] texts

theorem joinArguments_cons (c : Char) (text : List Char) (texts : List (List Char)) :
    ∃ more, joinArguments ((c :: text) :: texts) = c :: more := by
  cases texts with
  | nil => exact ⟨text, List.intercalate_singleton ..⟩
  | cons next texts => exact ⟨_, List.intercalate_cons_cons ..⟩

/-- A character that is not blank stays. -/
theorem trim_cons_ne_nil {c : Char} (hc : Text.isBlank c = false) (text : List Char) :
    Text.trim (c :: text) ≠ [] := by
  rw [Text.trim, Text.trimStart, List.dropWhile_cons_of_neg (ne_true_of_eq_false hc), Text.trimEnd,
    ne_eq, List.reverse_eq_nil_iff, List.dropWhile_eq_nil_iff]
  intro hall
  have hblank : Text.isBlank c = true := hall c (List.mem_reverse.mpr List.mem_cons_self)
  rw [hc] at hblank
  cases hblank

namespace ArgumentText

variable {text : List Char} {texts : List (List Char)}

/-- A blank in front of an argument is trimmed off. -/
theorem trim_blank (h : ArgumentText text) : Text.trim (' ' :: text) = text := by
  have hb : Text.isBlank ' ' = true := by decide
  have htrim := h.trimmed.trim_eq
  rw [Text.trim, Text.trimStart] at htrim ⊢
  rwa [List.dropWhile_cons_of_pos hb]

/-- It is what is left of it and a blank in front. -/
theorem finishArgument_eq (h : ArgumentText text) {part : List Char}
    (hp : part = [] ∨ part = [' ']) : finishArgument (text.reverse ++ part) = .ok text := by
  have htrim : Text.trim (text.reverse ++ part).reverse = text := by
    rcases hp with rfl | rfl
    · rw [List.append_nil, List.reverse_reverse, h.trimmed.trim_eq]
    · rw [List.reverse_append, List.reverse_reverse]
      exact h.trim_blank
  rw [finishArgument, htrim, List.isEmpty_eq_false_iff.mpr h.ne_nil]
  rfl

/-- The arguments come apart again. The argument in progress is empty at the start and a blank
after a comma. -/
theorem argumentsFrom_join {part : List Char} (h : ∀ t ∈ text :: texts, ArgumentText t)
    (hp : part = [] ∨ part = [' ']) :
    argumentsFrom part 0 false (joinArguments (text :: texts)) = .ok (text :: texts) := by
  induction texts generalizing text part with
  | nil =>
    have ht := h text List.mem_cons_self
    have hpass := ht.enclosed.argumentsFrom_top part []
    rw [List.append_nil] at hpass
    rw [joinArguments, List.intercalate_singleton, hpass, argumentsFrom,
      if_neg Bool.false_ne_true, ht.finishArgument_eq hp]
    rfl
  | cons next texts ih =>
    have ht := h text List.mem_cons_self
    have hnext : ∀ t ∈ next :: texts, ArgumentText t := fun t hm => h t (List.mem_cons_of_mem _ hm)
    have hfinish := ht.finishArgument_eq hp
    have hmore : argumentsFrom [] 0 false (' ' :: joinArguments (next :: texts)) =
        .ok (next :: texts) := by
      rw [argumentsFrom_char (by decide) (.inl (by decide))]
      exact ih hnext (.inr rfl)
    rw [joinArguments, List.intercalate_cons_cons, List.append_assoc,
      ht.enclosed.argumentsFrom_top, List.cons_append, argumentsFrom_cut, hfinish]
    exact congrArg (Except.map (text :: ·)) hmore

/-- Texts that stand for one argument each are split as they were joined. -/
theorem splitArguments_join (h : ∀ t ∈ texts, ArgumentText t) :
    splitArguments (joinArguments texts) = .ok texts := by
  rw [splitArguments]
  cases texts with
  | nil => rfl
  | cons text texts =>
    have ht := h text List.mem_cons_self
    obtain ⟨c, more, rfl⟩ := List.exists_cons_of_ne_nil ht.ne_nil
    have hkept : Text.trim (joinArguments ((c :: more) :: texts)) ≠ [] := by
      obtain ⟨joined, hj⟩ := joinArguments_cons c more texts
      rw [hj]
      exact trim_cons_ne_nil (ht.trimmed.head c rfl) _
    rw [List.isEmpty_eq_false_iff.mpr hkept, if_neg Bool.false_ne_true]
    exact argumentsFrom_join h (.inl rfl)

end ArgumentText
end Reshape.Operation
