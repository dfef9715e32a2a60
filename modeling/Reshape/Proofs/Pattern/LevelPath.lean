import Reshape.Proofs.Pattern.Joined
import Reshape.Proofs.Pattern.Path
/-!
# The path of the keys of the open levels

A path that refers to every open level below the root, the outermost first, resolves to the keys
that these levels were entered with.
-/
namespace Reshape.Pattern

open Scan

/-- A reference to the whole key of a level, with or without parentheses. -/
def levelText (wrapped : Bool) (level : Nat) : String :=
  if wrapped then s!"&({level})" else s!"&{level}"

/-- The references to the innermost levels, the outermost of them first. -/
def levelsText (wrapped : Nat → Bool) (count : Nat) : String :=
  ".".intercalate ((List.range count).reverse.map fun level => levelText (wrapped level) level)

def levelStep (level : Nat) : PathStep := .key ⟨[.reference ⟨level, 0⟩]⟩

def levelSteps (count : Nat) : List PathStep := (List.range count).reverse.map levelStep

/-- What stands behind the sigil of a reference to a level. -/
def levelTail (wrapped : Bool) (level : Nat) : List Char :=
  if wrapped then '(' :: (Nat.toDigits 10 level ++ [')']) else Nat.toDigits 10 level

theorem toList_levelText (wrapped : Bool) (level : Nat) :
    (levelText wrapped level).toList = '&' :: levelTail wrapped level := by
  cases wrapped <;> simp [levelText, levelTail, toString, Nat.repr]

theorem reads_levelTail {level : Nat} (h : level < Text.wordSize) (wrapped : Bool) :
    Reads referenceTail (levelTail wrapped level) ⟨level, 0⟩ [] := by
  cases wrapped with
  | true => exact reads_referenceTail_level h []
  | false =>
    obtain ⟨c, digits, hd, hc⟩ := exists_toDigits_eq_cons level
    have hnumber : Reads number (Nat.toDigits 10 level ++ []) level [] := reads_number h nofun
    rw [List.append_nil, hd] at hnumber
    rw [levelTail, if_neg Bool.false_ne_true, hd]
    refine Reads.peek ?_
    dsimp only [List.head?_cons]
    split
    · rename_i heq
      obtain rfl := Option.some.inj heq
      exact absurd hc (by decide)
    · rename_i d heq
      obtain rfl := Option.some.inj heq
      rw [if_pos hc]
      exact Reads.bind hnumber (.pure _ _)
    · rename_i heq
      cases heq

theorem levelText_balanced (wrapped : Bool) (level : Nat) :
    Balanced '.' false ('&' :: levelTail wrapped level) := by
  refine .char (by decide) (.inl (by decide)) ?_
  cases wrapped with
  | true => exact (toDigits_balanced level).parenthesized
  | false => exact toDigits_balanced level

/-- A reference that is read to its end is a whole segment. -/
theorem reads_segment_reference {lookup : Scan Lookup} {tail : List Char} {r : Reference}
    (h : Reads referenceTail tail r []) :
    Reads (segmentWith lookup) ('&' :: tail) [.key ⟨[.reference r]⟩] [] := by
  have hpieces : Reads (pieces false (· == '[')) ('&' :: tail) [.reference r] [] := by
    refine Reads.bind (reads_rest _) ?_
    refine Reads.peek (Reads.bind (reads_advance '&' tail) (Reads.bind h ?_))
    have hdone : ReadsPieces false (· == '[') [] [] [] [] := .done nofun
    exact Reads.bind (hdone tail.length (Nat.zero_le _)) (.pure _ _)
  refine Reads.peek (Reads.bind hpieces (Reads.bind (.pure _ _) ?_))
  exact Reads.bind (reads_rest []) (Reads.bind (.pure [] []) (.pure _ _))

theorem segmentsWith_levels {lookup : Scan Lookup} {wrapped : Nat → Bool} {offset : Nat}
    {levels : List Nat} (h : ∀ level ∈ levels, level < Text.wordSize)
    {parts : List (List Char × Nat)}
    (hparts : parts.map Prod.fst = levels.map fun level => '&' :: levelTail (wrapped level) level) :
    segmentsWith lookup offset parts = .ok (levels.map levelStep) := by
  induction levels generalizing parts with
  | nil =>
    obtain rfl := List.map_eq_nil_iff.mp hparts
    rfl
  | cons level levels ih =>
    obtain ⟨⟨segment, start⟩, parts, rfl, hsegment, hrest⟩ := List.map_eq_cons_iff.mp hparts
    obtain ⟨hlevel, hlevels⟩ := List.forall_mem_cons.mp h
    dsimp only at hsegment
    subst hsegment
    have hread : Reads (segmentWith lookup) ('&' :: levelTail (wrapped level) level)
        [levelStep level] [] :=
      reads_segment_reference (reads_levelTail hlevel _)
    rw [segmentsWith, if_neg (by simp), hread.runOn, ih hlevels hrest]
    rfl

/-- The references to the levels are read as such. -/
theorem parseSteps_levels {count : Nat} (hpos : 0 < count) (h : count ≤ Text.wordSize)
    (wrapped : Nat → Bool) :
    parseSteps (levelsText wrapped count).toList 0 = .ok (levelSteps count) := by
  have hlevels : ∀ level ∈ (List.range count).reverse, level < Text.wordSize := by
    intro level hl
    rw [List.mem_reverse, List.mem_range] at hl
    omega
  have htext : (levelsText wrapped count).toList = ['.'].intercalate
      ((List.range count).reverse.map fun level => '&' :: levelTail (wrapped level) level) := by
    rw [levelsText, String.toList_intercalate, List.map_map]
    exact congrArg _ (List.map_congr_left fun level _ => toList_levelText _ level)
  obtain ⟨first, rest, hlist⟩ : ∃ first rest, (List.range count).reverse = first :: rest :=
    List.exists_cons_of_ne_nil (by simp; omega)
  have hne : ¬ (levelsText wrapped count).toList.isEmpty = true := by
    rw [htext, hlist]
    cases rest <;> simp [List.intercalate_cons_cons]
  have hsingle : ∀ part ∈ (List.range count).reverse.map
      (fun level => '&' :: levelTail (wrapped level) level), IsSinglePart '.' part := by
    intro part hpart
    obtain ⟨level, -, rfl⟩ := List.mem_map.mp hpart
    exact (levelText_balanced _ level).isSinglePart
  obtain ⟨found, hfound, hparts⟩ := splitTopLevel_intercalate (by decide) (by simp [hlist]) hsingle
  rw [← htext] at hfound
  rw [parseSteps, stepsWith, if_neg hne, hfound]
  exact segmentsWith_levels hlevels hparts

theorem resolve?_levelStep (frames : Frames) (level : Nat) :
    (levelStep level).resolve? frames = (frames[level]?).map fun frame => .key frame.key.raw := by
  rw [levelStep, PathStep.resolve?, Template.resolve?, Template.resolveSegments?,
    Reference.resolve?]
  cases frames[level]? with
  | none => rfl
  | some frame =>
    rw [Option.bind_some, MatchedKey.group?, Template.resolveSegments?]
    exact congrArg (fun text => some (Step.key text)) String.append_empty

/-- The path of levels resolves to the keys of the innermost levels, the outermost first. -/
theorem resolveSteps?_levelSteps {frames : Frames} {count : Nat} (h : count ≤ frames.length) :
    resolveSteps? frames (levelSteps count) =
      some ((frames.take count).reverse.map fun frame => .key frame.key.raw) := by
  induction count with
  | zero => rfl
  | succ count ih =>
    have hrange : levelSteps (count + 1) = levelStep count :: levelSteps count := by
      rw [levelSteps, List.range_succ, List.reverse_append]
      rfl
    rw [hrange, resolveSteps?, resolve?_levelStep, ih (Nat.le_of_succ_le h),
      List.getElem?_eq_getElem h, List.take_succ_eq_append_getElem h, List.reverse_append]
    rfl

end Reshape.Pattern
