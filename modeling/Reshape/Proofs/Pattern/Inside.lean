import Mathlib.Data.List.TakeWhile
import Reshape.Proofs.Pattern.Lookup
/-!
# The inside of a lookup

Between the parentheses of a lookup stands a level, a level and a path, or a path. A level counts
only in front of everything else, so a blank before it makes the whole a path.
-/
namespace Reshape

namespace Text

variable {text more : List Char}

theorem trimStart_blanks (h : ∀ c ∈ text, isBlank c = true) (more : List Char) :
    trimStart (text ++ more) = trimStart more :=
  List.dropWhile_append_of_pos h

/-- What a trim takes off stands at the two ends. -/
theorem exists_trim (text : List Char) :
    ∃ trailing, text = text.takeWhile isBlank ++ (trim text ++ trailing) := by
  refine ⟨((trimStart text).reverse.takeWhile isBlank).reverse, ?_⟩
  rw [trim, trimEnd, ← List.reverse_append, List.takeWhile_append_dropWhile, List.reverse_reverse]
  exact List.takeWhile_append_dropWhile.symm

theorem trim_length_le (text : List Char) : (trim text).length ≤ text.length := by
  obtain ⟨trailing, h⟩ := exists_trim text
  have hlength := congrArg List.length h
  simp only [List.length_append] at hlength
  omega

/-- A digit takes one byte. -/
theorem utf8Size_digits (h : ∀ c ∈ text, isDigit c = true) : utf8Size text = text.length := by
  induction text with
  | nil => rfl
  | cons c text ih =>
    have hascii : c.val.toNat ≤ 127 :=
      Nat.le_trans (isDigit_iff.mp (h c List.mem_cons_self)).2 (by decide)
    have hone : c.utf8Size = 1 := Char.utf8Size_eq_one_iff.mpr (UInt32.le_iff_toNat_le.mpr hascii)
    have hcons : utf8Size (c :: text) = c.utf8Size + utf8Size text := rfl
    rw [hcons, hone, ih fun d hd => h d (List.mem_cons_of_mem c hd), List.length_cons,
      Nat.add_comm]

theorem length_le_utf8Size (text : List Char) : text.length ≤ utf8Size text := by
  induction text with
  | nil => exact Nat.le_refl 0
  | cons c text ih =>
    have hcons : utf8Size (c :: text) = c.utf8Size + utf8Size text := rfl
    have hpos := c.utf8Size_pos
    rw [hcons, List.length_cons]
    omega

end Text

namespace Pattern

/-- A level with a comma behind it starts the inside of a lookup: what stands between the two, and
the path behind the comma. -/
def afterLevel? (inner : List Char) : Option (List Char × List Char) :=
  let rest := inner.dropWhile Text.isDigit
  match inner.takeWhile Text.isDigit, Text.trimStart rest with
  | _ :: _, ',' :: path => some (rest.takeWhile Text.isBlank, path)
  | _, _ => none

/-- The inside of a lookup has the form of a level, with or without a path. -/
def namesLevel (inner : List Char) : Bool :=
  (!inner.isEmpty && inner.all Text.isDigit) || (afterLevel? inner).isSome

/-- A level, what stands between it and its comma, and a path. -/
structure LevelAndPath (level gap path inner : List Char) : Prop where
  level_ne_nil : level ≠ []
  level_digit : ∀ c ∈ level, Text.isDigit c = true
  gap_blank : ∀ c ∈ gap, Text.isBlank c = true
  inner_eq : inner = level ++ (gap ++ ',' :: path)

section

variable {level gap path inner more : List Char}

theorem LevelAndPath.append (h : LevelAndPath level gap path inner) (more : List Char) :
    LevelAndPath level gap (path ++ more) (inner ++ more) where
  level_ne_nil := h.level_ne_nil
  level_digit := h.level_digit
  gap_blank := h.gap_blank
  inner_eq := by
    rw [h.inner_eq]
    simp

theorem LevelAndPath.rest_head (h : LevelAndPath level gap path inner) :
    ∀ c ∈ (gap ++ ',' :: path).head?, Text.isDigit c = false := by
  intro c hc
  cases gap with
  | nil =>
    cases hc
    rfl
  | cons d gap =>
    obtain rfl := Option.some.inj hc
    rw [Bool.eq_false_iff]
    intro hd
    have hblank := h.gap_blank _ List.mem_cons_self
    rw [Text.isBlank_of_isDigit hd] at hblank
    cases hblank

theorem span_digits {rest : List Char} (hlevel : ∀ c ∈ level, Text.isDigit c = true)
    (hrest : ∀ c ∈ rest.head?, Text.isDigit c = false) :
    (level ++ rest).takeWhile Text.isDigit = level ∧
      (level ++ rest).dropWhile Text.isDigit = rest := by
  rw [List.takeWhile_append_of_pos hlevel, List.dropWhile_append_of_pos hlevel]
  cases rest with
  | nil => exact ⟨List.append_nil _, rfl⟩
  | cons c rest =>
    have hc := ne_true_of_eq_false (hrest c rfl)
    rw [List.takeWhile_cons_of_neg hc, List.dropWhile_cons_of_neg hc, List.append_nil]
    exact ⟨rfl, rfl⟩

theorem span_comma (hgap : ∀ c ∈ gap, Text.isBlank c = true) (rest : List Char) :
    (gap ++ ',' :: rest).takeWhile Text.isBlank = gap ∧
      Text.trimStart (gap ++ ',' :: rest) = ',' :: rest := by
  rw [Text.trimStart_blanks hgap, List.takeWhile_append_of_pos hgap,
    List.takeWhile_cons_of_neg (by decide), List.append_nil]
  exact ⟨rfl, rfl⟩

theorem afterLevel?_eq_some :
    afterLevel? inner = some (gap, path) ↔ ∃ level, LevelAndPath level gap path inner := by
  constructor
  · intro h
    rw [afterLevel?] at h
    split at h
    · rename_i c digits path' hdigits htail
      obtain ⟨rfl, rfl⟩ := Prod.mk.inj (Option.some.inj h)
      refine ⟨inner.takeWhile Text.isDigit, ?_, ?_, ?_, ?_⟩
      · rw [hdigits]
        exact List.cons_ne_nil c digits
      · exact fun d hd => List.mem_takeWhile_imp hd
      · exact fun d hd => List.mem_takeWhile_imp hd
      · rw [← htail, Text.trimStart, List.takeWhile_append_dropWhile,
          List.takeWhile_append_dropWhile]
    · cases h
  · rintro ⟨level, h⟩
    obtain ⟨hlevel, hrest⟩ := span_digits h.level_digit h.rest_head
    obtain ⟨hgap, htail⟩ := span_comma h.gap_blank path
    obtain ⟨c, digits, rfl⟩ := List.exists_cons_of_ne_nil h.level_ne_nil
    rw [afterLevel?, h.inner_eq, hlevel, hrest, htail]
    exact congrArg (fun gap => some (gap, path)) hgap

variable {lookup : Scan Lookup} {offset : Nat}

/-- The lookup at a level whose path is this text without the blanks at its ends. -/
def lookupAtLevel (lookup : Scan Lookup) (up : Nat) (path : List Char) (offset : Nat) :
    Except ScanError Lookup :=
  (stepsWith lookup (Text.trim path) offset).map (Lookup.mk up)

/-- The lookup whose level is written out, at the offset `start`. -/
def lookupAtDigits (lookup : Scan Lookup) (level path : List Char) (start offset : Nat) :
    Except ScanError Lookup :=
  if Text.digitsValue level < Text.wordSize then
    lookupAtLevel lookup (Text.digitsValue level) path offset
  else .error ⟨.numberTooLarge level, start⟩

theorem lookupInside_level (hne : inner ≠ []) (h : ∀ c ∈ inner, Text.isDigit c = true) :
    lookupInside lookup inner offset =
      lookupAtDigits lookup inner [] offset (offset + Text.utf8Size inner) := by
  have hspan : (inner ++ []).takeWhile Text.isDigit = inner ∧
      (inner ++ []).dropWhile Text.isDigit = [] := span_digits h nofun
  rw [List.append_nil] at hspan
  rw [lookupInside, List.span_eq_takeWhile_dropWhile, hspan.1, hspan.2]
  dsimp only
  rw [List.isEmpty_eq_false_iff.mpr hne]
  rfl

theorem lookupInside_levelAndPath (h : LevelAndPath level gap path inner) :
    lookupInside lookup inner offset = lookupAtDigits lookup level path offset
      (offset + (level.length + Text.utf8Size gap + 1)) := by
  obtain ⟨hlevel, hrest⟩ := span_digits h.level_digit h.rest_head
  obtain ⟨-, htail⟩ := span_comma h.gap_blank path
  have hsize : Text.utf8Size inner - Text.utf8Size path =
      level.length + Text.utf8Size gap + 1 := by
    have hcomma : Text.utf8Size (',' :: path) = 1 + Text.utf8Size path := rfl
    rw [h.inner_eq, Text.utf8Size_append, Text.utf8Size_append, hcomma,
      Text.utf8Size_digits h.level_digit]
    omega
  have hform : (level.isEmpty || !((gap ++ ',' :: path).isEmpty ||
      (',' :: path).head? == some ',')) = false := by
    rw [List.isEmpty_eq_false_iff.mpr h.level_ne_nil, List.head?_cons, beq_self_eq_true,
      Bool.or_true]
    rfl
  rw [lookupInside, List.span_eq_takeWhile_dropWhile, ← hsize, h.inner_eq, hlevel, hrest]
  dsimp only
  rw [htail, hform]
  rfl

theorem lookupInside_path (h : namesLevel inner = false) :
    lookupInside lookup inner offset = lookupAtLevel lookup 0 inner offset := by
  have hpath : ((inner.takeWhile Text.isDigit).isEmpty ||
      !((inner.dropWhile Text.isDigit).isEmpty ||
        (Text.trimStart (inner.dropWhile Text.isDigit)).head? == some ',')) = true := by
    by_contra hnot
    simp only [Bool.or_eq_true, Bool.not_eq_true', Bool.or_eq_false_iff, not_or, not_and,
      Bool.not_eq_false, List.isEmpty_iff, List.isEmpty_eq_false_iff, beq_iff_eq] at hnot
    obtain ⟨hdigits, htail⟩ := hnot
    rw [namesLevel, Bool.or_eq_false_iff] at h
    by_cases hrest : inner.dropWhile Text.isDigit = []
    · have hall : inner.all Text.isDigit = true :=
        List.all_eq_true.mpr (List.dropWhile_eq_nil_iff.mp hrest)
      have hne : inner.isEmpty = false := by
        rw [List.isEmpty_eq_false_iff]
        rintro rfl
        exact hdigits rfl
      rw [hall, hne] at h
      exact absurd h.1 (by decide)
    · obtain ⟨path, hcomma⟩ := List.head?_eq_some_iff.mp (htail hrest)
      obtain ⟨c, digits, hc⟩ := List.exists_cons_of_ne_nil hdigits
      have hafter := h.2
      rw [afterLevel?, hc, hcomma] at hafter
      cases hafter
  rw [lookupInside, List.span_eq_takeWhile_dropWhile]
  dsimp only
  rw [hpath]
  rfl

end

end Pattern
end Reshape
