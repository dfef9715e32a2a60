import Reshape.Proofs.Pattern.Inside
/-!
# Where an error points

An error of a scan points into the text, and at the character that it names, but for two slips of
a lookup in parentheses: the blanks in front of its path are not counted, and those in front of its
comma are counted in bytes. What the slips come to is added up over the lookups of a text.
-/
namespace Reshape.Pattern

/-! ## Slips -/

/-- What an amount is for the lookup in parentheses that a text starts with. -/
def ofLookup (amount : List Char → Nat) : List Char → Nat
  | '@' :: '(' :: inner => amount inner
  | _ => 0

/-- The sum of an amount over the lookups in parentheses of a text. -/
def overLookups (amount : List Char → Nat) : List Char → Nat
  | [] => 0
  | c :: text => ofLookup amount (c :: text) + overLookups amount text

def leadingBlanks (text : List Char) : Nat := (text.takeWhile Text.isBlank).length

/-- The blanks in front of the path of a lookup. -/
def blanksBeforePath (inner : List Char) : Nat :=
  match afterLevel? inner with
  | some (_, path) => leadingBlanks path
  | none => leadingBlanks inner

/-- The bytes that the blanks in front of the comma of a lookup have beyond one each. -/
def extraBytes (inner : List Char) : Nat :=
  match afterLevel? inner with
  | some (gap, _) => Text.utf8Size gap - gap.length
  | none => 0

/-- How far at most a position may fall short. -/
def shortfall (text : List Char) : Nat := overLookups blanksBeforePath text

/-- How far at most a position may exceed. -/
def excess (text : List Char) : Nat := overLookups extraBytes text

section Slips

variable {amount : List Char → Nat}

theorem ofLookup_append (hmono : ∀ inner more, amount inner ≤ amount (inner ++ more))
    (text more : List Char) : ofLookup amount text ≤ ofLookup amount (text ++ more) := by
  fun_cases ofLookup amount text with
  | case1 inner => exact hmono inner more
  | case2 => exact Nat.zero_le _

theorem overLookups_append (hmono : ∀ inner more, amount inner ≤ amount (inner ++ more))
    (text more : List Char) :
    overLookups amount text + overLookups amount more ≤ overLookups amount (text ++ more) := by
  induction text with
  | nil =>
    rw [overLookups, List.nil_append, Nat.zero_add]
  | cons c text ih =>
    have hfirst := ofLookup_append hmono (c :: text) more
    rw [List.cons_append] at hfirst ⊢
    rw [overLookups, overLookups]
    omega

/-- A lookup in parentheses counts itself and everything inside of it. -/
theorem le_overLookups_group (hmono : ∀ inner more, amount inner ≤ amount (inner ++ more))
    (before mid after rest : List Char) :
    amount (before ++ mid ++ after) + overLookups amount mid ≤
      overLookups amount ('@' :: '(' :: (before ++ mid ++ after ++ rest)) := by
  have hself := hmono (before ++ mid ++ after) rest
  have hright := overLookups_append hmono mid (after ++ rest)
  have hleft := overLookups_append hmono before (mid ++ (after ++ rest))
  have htext : before ++ mid ++ after ++ rest = before ++ (mid ++ (after ++ rest)) := by simp
  rw [overLookups, ofLookup, overLookups, htext]
  rw [htext] at hself
  omega

theorem leadingBlanks_append (text more : List Char) :
    leadingBlanks text ≤ leadingBlanks (text ++ more) := by
  rw [leadingBlanks, leadingBlanks, List.takeWhile_append]
  split
  · rw [List.length_append]
    exact Nat.le_add_right_of_le (List.takeWhile_prefix _).length_le
  · exact Nat.le_refl _

theorem afterLevel?_append {inner gap path : List Char} (h : afterLevel? inner = some (gap, path))
    (more : List Char) : afterLevel? (inner ++ more) = some (gap, path ++ more) := by
  obtain ⟨level, h⟩ := afterLevel?_eq_some.mp h
  exact afterLevel?_eq_some.mpr ⟨level, h.append more⟩

theorem blanksBeforePath_append (inner more : List Char) :
    blanksBeforePath inner ≤ blanksBeforePath (inner ++ more) := by
  cases h : afterLevel? inner with
  | some found =>
    obtain ⟨gap, path⟩ := found
    rw [blanksBeforePath, blanksBeforePath, h, afterLevel?_append h]
    exact leadingBlanks_append path more
  | none =>
    rw [blanksBeforePath, h]
    rcases inner with _ | ⟨c, inner⟩
    · exact Nat.zero_le _
    · cases hc : Text.isBlank c with
      | false =>
        rw [leadingBlanks, List.takeWhile_cons_of_neg (ne_true_of_eq_false hc)]
        exact Nat.zero_le _
      | true =>
        have hdigit : ¬ Text.isDigit c = true := by
          intro hd
          rw [Text.isBlank_of_isDigit hd] at hc
          cases hc
        have hnone : afterLevel? (c :: inner ++ more) = none := by
          rw [afterLevel?, List.cons_append, List.takeWhile_cons_of_neg hdigit]
        rw [blanksBeforePath, hnone]
        exact leadingBlanks_append _ more

theorem extraBytes_append (inner more : List Char) :
    extraBytes inner ≤ extraBytes (inner ++ more) := by
  cases h : afterLevel? inner with
  | some found =>
    obtain ⟨gap, path⟩ := found
    rw [extraBytes, extraBytes, h, afterLevel?_append h]
  | none =>
    rw [extraBytes, h]
    exact Nat.zero_le _

end Slips

/-! ## Where an error points -/

/-- The character of the text that the problem is about, if its message names one. -/
def ScanProblem.culprit? : ScanProblem → Option Char
  | .expected _ found => found
  | .sigilInside sigil => some sigil
  | .afterIndex found => some found
  | .invalidIndex found => some found
  | _ => none

/-- An error of reading a text whose first character has the offset `start`: up to the slips it
stands inside of the text or at its end, and where it names a character there is that character. -/
def Points (text : List Char) (start : Nat) (e : ScanError) : Prop :=
  ∃ k ≤ text.length, start + k ≤ e.position + shortfall text ∧
    e.position ≤ start + k + excess text ∧ ∀ c ∈ e.problem.culprit?, text[k]? = some c

namespace Points

variable {text mid : List Char} {start k : Nat} {e : ScanError}

/-- An error without a slip. -/
theorem at_offset {problem : ScanProblem} (hk : k ≤ text.length)
    (hc : ∀ c ∈ problem.culprit?, text[k]? = some c) : Points text start ⟨problem, start + k⟩ :=
  ⟨k, hk, Nat.le_add_right _ _, Nat.le_add_right _ _, hc⟩

/-- An error that names no character. -/
theorem of_nameless {problem : ScanProblem} (hk : k ≤ text.length)
    (hc : problem.culprit? = none) : Points text start ⟨problem, start + k⟩ :=
  at_offset hk fun c h => by rw [hc] at h; cases h

theorem getElem?_mid (before after : List Char) (hk : k < mid.length) :
    (before ++ mid ++ after)[before.length + k]? = mid[k]? := by
  rw [List.append_assoc, List.getElem?_append_right (Nat.le_add_right _ _),
    Nat.add_sub_cancel_left, List.getElem?_append_left hk]

/-- An error that points into a part of a text points into the text, where what is lost of the
offset and what is won is accounted for. -/
theorem widen {start' : Nat} (h : Points mid start' e) {before after : List Char}
    (hshort : start + before.length + shortfall mid ≤ start' + shortfall (before ++ mid ++ after))
    (hexcess : start' + excess mid ≤ start + before.length + excess (before ++ mid ++ after)) :
    Points (before ++ mid ++ after) start e := by
  obtain ⟨k, hk, hlow, hhigh, hc⟩ := h
  refine ⟨before.length + k, ?_, by omega, by omega, fun c he => ?_⟩
  · simp only [List.length_append]
    omega
  · have hlt : k < mid.length := (List.getElem?_eq_some_iff.mp (hc c he)).1
    rw [getElem?_mid before after hlt]
    exact hc c he

/-- The offset of a part counts what stands before it. -/
theorem of_part {before after : List Char} (h : Points mid (start + before.length) e) :
    Points (before ++ mid ++ after) start e := by
  have hparts : ∀ {amount : List Char → Nat},
      (∀ inner more, amount inner ≤ amount (inner ++ more)) →
        overLookups amount mid ≤ overLookups amount (before ++ mid ++ after) := by
    intro amount hmono
    have hright := overLookups_append hmono (before ++ mid) after
    have hleft := overLookups_append hmono before mid
    omega
  have hshort := hparts blanksBeforePath_append
  have hexcess := hparts extraBytes_append
  rw [← shortfall, ← shortfall] at hshort
  rw [← excess, ← excess] at hexcess
  exact h.widen (by omega) (by omega)

end Points

end Reshape.Pattern
