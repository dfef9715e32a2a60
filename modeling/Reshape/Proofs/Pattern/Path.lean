import Reshape.Proofs.Pattern.Balanced
import Reshape.Proofs.Pattern.Pieces
/-!
# Reading paths back

A path is well-formed if its keys are normal templates and its numbers fit. The canonical form of a
well-formed path is balanced, so the split at its dots cuts it into the segments it was put together
from, and each of them is read back. Here the scan of lookups is any that reads the lookups of the
path back.
-/
namespace Reshape.Pattern

open Scan

/-! ## Equality -/

mutual
theorem PathStep.eq_of_beq {a b : PathStep} (h : a.beq b = true) : a = b := by
  cases a with
  | lookup n steps =>
    cases b with
    | lookup m more =>
      obtain ⟨hn, hs⟩ := Bool.and_eq_true_iff.mp h
      rw [LawfulBEq.eq_of_beq hn, eq_of_beqSteps hs]
    | _ => cases h
  | indexLookup n steps =>
    cases b with
    | indexLookup m more =>
      obtain ⟨hn, hs⟩ := Bool.and_eq_true_iff.mp h
      rw [LawfulBEq.eq_of_beq hn, eq_of_beqSteps hs]
    | _ => cases h
  | append =>
    cases b with
    | append => rfl
    | _ => cases h
  | key a =>
    cases b with
    | key b => rw [LawfulBEq.eq_of_beq h]
    | _ => cases h
  | index n =>
    cases b with
    | index m => rw [LawfulBEq.eq_of_beq h]
    | _ => cases h
  | indexReference r =>
    cases b with
    | indexReference s => rw [LawfulBEq.eq_of_beq h]
    | _ => cases h
  | indexCount n =>
    cases b with
    | indexCount m => rw [LawfulBEq.eq_of_beq h]
    | _ => cases h

theorem eq_of_beqSteps {a b : List PathStep} (h : beqSteps a b = true) : a = b := by
  match a, b with
  | [], [] => rfl
  | [], _ :: _ => cases h
  | _ :: _, [] => cases h
  | a :: as, b :: bs =>
    obtain ⟨ha, hs⟩ := Bool.and_eq_true_iff.mp h
    rw [PathStep.eq_of_beq ha, eq_of_beqSteps hs]
end

mutual
theorem PathStep.beq_self : ∀ a : PathStep, a.beq a = true
  | .key _ => BEq.refl _
  | .index _ => BEq.refl _
  | .indexReference _ => BEq.refl _
  | .indexCount _ => BEq.refl _
  | .append => rfl
  | .lookup _ steps => Bool.and_eq_true_iff.mpr ⟨BEq.refl _, beqSteps_self steps⟩
  | .indexLookup _ steps => Bool.and_eq_true_iff.mpr ⟨BEq.refl _, beqSteps_self steps⟩

theorem beqSteps_self : ∀ steps : List PathStep, beqSteps steps steps = true
  | [] => rfl
  | a :: as => Bool.and_eq_true_iff.mpr ⟨a.beq_self, beqSteps_self as⟩
end

instance : LawfulBEq PathStep where
  eq_of_beq := PathStep.eq_of_beq
  rfl := PathStep.beq_self _

instance : DecidableEq PathStep := instDecidableEqOfLawfulBEq

deriving instance DecidableEq for Lookup

/-! ## Well-formed paths -/

mutual
/-- A step that reading can give. -/
def PathStep.WellFormed : PathStep → Prop
  | .key template => template.Normal
  | .lookup up steps => up < Text.wordSize ∧ WellFormedSteps steps
  | .index position => position ≤ Address.maxIndex
  | .indexReference r => r.InRange
  | .indexCount up => up < Text.wordSize
  | .indexLookup up steps => up < Text.wordSize ∧ WellFormedSteps steps
  | .append => True

def WellFormedSteps : List PathStep → Prop
  | [] => True
  | step :: rest => step.WellFormed ∧ WellFormedSteps rest
end

structure Lookup.WellFormed (l : Lookup) : Prop where
  up_lt : l.up < Text.wordSize
  steps : WellFormedSteps l.steps

theorem wellFormedSteps_iff (steps : List PathStep) :
    WellFormedSteps steps ↔ ∀ step ∈ steps, step.WellFormed := by
  induction steps with
  | nil => simp [WellFormedSteps]
  | cons step rest ih => simp [WellFormedSteps, ih]

/-- The lookup that a step makes, if it makes one. -/
def PathStep.lookup? : PathStep → Option Lookup
  | .lookup up steps => some ⟨up, steps⟩
  | .indexLookup up steps => some ⟨up, steps⟩
  | _ => none

theorem PathStep.WellFormed.lookup? {step : PathStep} (h : step.WellFormed) :
    ∀ l ∈ step.lookup?, l.WellFormed := by
  intro l hl
  cases step with
  | lookup up steps | indexLookup up steps =>
    obtain rfl := Option.some.inj hl
    rw [PathStep.WellFormed] at h
    exact ⟨h.1, h.2⟩
  | _ => cases hl

/-! ## Canonical forms -/

/-- The text of steps that come after others. -/
def continued : List PathStep → List Char
  | [] => []
  | step :: rest => (if step.isDotted then ['.'] else []) ++ step.canonical ++ continued rest

theorem continued_of_dotted {step : PathStep} (h : step.isDotted = true) (rest : List PathStep) :
    continued (step :: rest) = '.' :: (step.canonical ++ continued rest) := by
  rw [continued, h]
  rfl

theorem continued_of_not_dotted {step : PathStep} (h : step.isDotted = false)
    (rest : List PathStep) : continued (step :: rest) = step.canonical ++ continued rest := by
  rw [continued, h]
  rfl

@[simp] theorem continued_append (steps more : List PathStep) :
    continued (steps ++ more) = continued steps ++ continued more := by
  induction steps with
  | nil => rfl
  | cons step rest ih =>
    rw [List.cons_append, continued, ih, continued, List.append_assoc _ _ (continued more)]

theorem PathStep.WellFormed.canonical_ne_nil {step : PathStep} (h : step.WellFormed) :
    step.canonical ≠ [] := by
  cases step with
  | key template =>
    rw [PathStep.WellFormed] at h
    exact h.canonical_ne_nil
  | _ => exact List.cons_ne_nil _ _

/-- An index is written in brackets. -/
theorem canonical_of_not_dotted {step : PathStep} (h : step.isDotted = false) :
    ∃ inner, step.canonical = '[' :: inner := by
  cases step with
  | key | lookup => cases h
  | _ => exact ⟨_, rfl⟩

/-- What follows the first step of a segment are brackets. -/
theorem head_continued {steps : List PathStep} (h : ∀ step ∈ steps, step.isDotted = false) :
    ∀ c ∈ (continued steps).head?, c = '[' := by
  intro c hc
  cases steps with
  | nil => cases hc
  | cons step rest =>
    obtain ⟨inner, hinner⟩ := canonical_of_not_dotted (h step List.mem_cons_self)
    rw [continued_of_not_dotted (h step List.mem_cons_self), hinner] at hc
    exact (Option.some.inj hc).symm

theorem canonicalSteps_of_ne_nil {written : List Char} (hw : written ≠ []) {steps : List PathStep}
    (h : WellFormedSteps steps) : canonicalSteps written steps = written ++ continued steps := by
  induction steps generalizing written with
  | nil => rw [canonicalSteps, continued, List.append_nil]
  | cons step rest ih =>
    have hempty : written.isEmpty = false := List.isEmpty_eq_false_iff.mpr hw
    have hdot : (if step.isDotted && !written.isEmpty then ['.'] else []) =
        if step.isDotted then ['.'] else [] := by
      rw [hempty, Bool.not_false, Bool.and_true]
    rw [WellFormedSteps] at h
    rw [canonicalSteps, hdot, ih ?_ h.2, continued, List.append_assoc, List.append_assoc,
      List.append_assoc]
    exact fun he => hw (List.append_eq_nil_iff.mp (List.append_eq_nil_iff.mp he).1).1

theorem canonicalSteps_cons {step : PathStep} {rest : List PathStep}
    (h : WellFormedSteps (step :: rest)) :
    canonicalSteps [] (step :: rest) = step.canonical ++ continued rest := by
  rw [WellFormedSteps] at h
  have hdot : (if step.isDotted && !([] : List Char).isEmpty then ['.'] else []) = [] := by
    rw [List.isEmpty_nil, Bool.not_true, Bool.and_false]
    rfl
  rw [canonicalSteps, hdot, List.append_nil, List.nil_append,
    canonicalSteps_of_ne_nil h.1.canonical_ne_nil h.2]

theorem canonical_length_le_continued {steps : List PathStep} {step : PathStep}
    (hm : step ∈ steps) : step.canonical.length ≤ (continued steps).length := by
  induction steps with
  | nil => cases hm
  | cons first rest ih =>
    rw [continued, List.length_append, List.length_append]
    rcases List.mem_cons.mp hm with rfl | hm
    · omega
    · have := ih hm
      omega

/-- A step is written in full in the canonical form of a path. -/
theorem canonical_length_le {steps : List PathStep} (h : WellFormedSteps steps) {step : PathStep}
    (hm : step ∈ steps) : step.canonical.length ≤ (canonicalSteps [] steps).length := by
  cases steps with
  | nil => cases hm
  | cons first rest =>
    rw [canonicalSteps_cons h, List.length_append]
    rcases List.mem_cons.mp hm with rfl | hm
    · omega
    · have := canonical_length_le_continued hm
      omega

/-! ### Balance -/

section Balance

variable {nested : Bool}

theorem toDigits_balanced (n : Nat) : Balanced '.' nested (Nat.toDigits 10 n) :=
  .digits rfl fun _ hc => isDigit_of_mem_toDigits hc

/-- Two parts with a comma between them, in parentheses. -/
theorem Balanced.pair {a b : List Char} (ha : Balanced '.' true a) (hb : Balanced '.' true b) :
    Balanced '.' nested ('(' :: a ++ ',' :: b ++ [')']) := by
  have hinner : Balanced '.' true (a ++ ',' :: b) :=
    ha.append (.char (by decide) (.inl (by decide)) hb)
  have htext : '(' :: a ++ ',' :: b ++ [')'] = '(' :: (a ++ ',' :: b) ++ [')'] := by simp
  rw [htext]
  exact hinner.parenthesized

theorem Reference.canonical_balanced (r : Reference) :
    Balanced '.' nested (r.canonical '&') :=
  .char (by decide) (.inl (by decide)) (.pair (toDigits_balanced _) (toDigits_balanced _))

theorem Template.canonical_balanced (t : Template) : Balanced '.' nested t.canonical := by
  obtain ⟨segments⟩ := t
  induction segments with
  | nil => exact .nil
  | cons segment segments ih =>
    refine Balanced.append ?_ ih
    cases segment with
    | text t => exact .escape rfl t.toList
    | reference r => exact r.canonical_balanced

theorem lookupText_balanced (up : Nat) {path : List Char} (h : Balanced '.' true path) :
    Balanced '.' nested (lookupText up path) :=
  .char (by decide) (.inl (by decide)) (.pair (toDigits_balanced up) h)

mutual
theorem PathStep.canonical_balanced {nested : Bool} :
    ∀ step : PathStep, Balanced '.' nested step.canonical
  | .key template => template.canonical_balanced
  | .lookup up steps => lookupText_balanced up (canonicalSteps_balanced steps .nil)
  | .index position => (toDigits_balanced position).bracketed
  | .indexReference r => r.canonical_balanced.bracketed
  | .indexCount up =>
    (Balanced.char (by decide) (.inl (by decide)) (toDigits_balanced up).parenthesized).bracketed
  | .indexLookup up steps =>
    (lookupText_balanced up (canonicalSteps_balanced steps .nil)).bracketed
  | .append => Balanced.nil.bracketed

theorem canonicalSteps_balanced : ∀ (steps : List PathStep) {written : List Char},
    Balanced '.' true written → Balanced '.' true (canonicalSteps written steps)
  | [], _, h => h
  | step :: rest, _, h => by
    rw [canonicalSteps]
    refine canonicalSteps_balanced rest ((h.append ?_).append step.canonical_balanced)
    split
    · exact .char (by decide) (.inr rfl) .nil
    · exact .nil
end

end Balance

/-! ## Reading a path back -/

/-- The scan of lookups reads the lookup of a step back, if it makes one. -/
def PathStep.ReadBy (lookup : Scan Lookup) (step : PathStep) : Prop :=
  ∀ l ∈ step.lookup?, ∀ rest, Reads lookup (l.canonical ++ rest) l rest

section ReadBack

variable {lookup : Scan Lookup}

theorem reads_closing (step : PathStep) (rest : List Char) :
    Reads (do Scan.expect ']'; pure step) (']' :: rest) step rest :=
  Reads.bind (reads_expect ']' rest) (.pure step rest)

/-- A position is read back. -/
theorem reads_indexPosition {position : Nat} (h : position ≤ Address.maxIndex) (rest : List Char) :
    Reads (indexWith lookup) ((PathStep.index position).canonical ++ rest) (.index position)
      rest := by
  have htext : (PathStep.index position).canonical ++ rest =
      '[' :: (Nat.toDigits 10 position ++ ']' :: rest) := by
    simp [PathStep.canonical, bracketed]
  have hnumber : Reads number (Nat.toDigits 10 position ++ ']' :: rest) position (']' :: rest) :=
    reads_number (Nat.lt_of_le_of_lt h (by decide)) fun c hc => by cases hc; rfl
  obtain ⟨c, digits, hc, hdigit⟩ := exists_toDigits_eq_cons position
  rw [htext]
  refine Reads.bind (reads_expect '[' _) (Reads.peek ?_)
  rw [hc] at hnumber ⊢
  rw [List.cons_append] at hnumber ⊢
  -- A digit is none of the other characters that an index may start with.
  have hother (d : Char) (hd : Text.isDigit d = false) :
      (c :: (digits ++ ']' :: rest)).head? ≠ some d := by
    intro he
    obtain rfl := Option.some.inj he
    rw [hdigit] at hd
    cases hd
  split
  · exact absurd ‹_› (hother ']' rfl)
  · exact absurd ‹_› (hother '&' rfl)
  · exact absurd ‹_› (hother '#' rfl)
  · exact absurd ‹_› (hother '@' rfl)
  · rename_i he
    obtain rfl := Option.some.inj he
    rw [if_pos hdigit]
    refine reads_position fun start => ?_
    refine Reads.bind hnumber ?_
    rw [if_neg (Nat.not_lt_of_le h)]
    exact Reads.bind (.pure _ _) (reads_closing _ rest)
  · rename_i he
    cases he

/-- An index in brackets is read back. -/
theorem reads_index {step : PathStep} (hw : step.WellFormed) (hl : step.ReadBy lookup)
    (hd : step.isDotted = false) (rest : List Char) :
    Reads (indexWith lookup) (step.canonical ++ rest) step rest := by
  cases step with
  | key | lookup => cases hd
  | index position =>
    rw [PathStep.WellFormed] at hw
    exact reads_indexPosition hw rest
  | indexReference r =>
    have htext : (PathStep.indexReference r).canonical ++ rest =
        '[' :: '&' :: (r.tailCanonical ++ ']' :: rest) := by
      simp [PathStep.canonical, bracketed, Reference.canonical_eq]
    rw [htext]
    rw [PathStep.WellFormed] at hw
    refine Reads.bind (reads_expect '[' _) (Reads.peek ?_)
    refine Reads.bind (reads_advance '&' _) ?_
    refine Reads.bind (reads_referenceTail hw _) ?_
    exact Reads.bind (.pure _ _) (reads_closing _ rest)
  | indexCount up =>
    rw [PathStep.WellFormed] at hw
    have htext : (PathStep.indexCount up).canonical ++ rest =
        '[' :: '#' :: '(' :: (Nat.toDigits 10 up ++ ')' :: ']' :: rest) := by
      simp [PathStep.canonical, bracketed]
    rw [htext]
    refine Reads.bind (reads_expect '[' _) (Reads.peek ?_)
    refine Reads.bind (reads_advance '#' _) ?_
    refine Reads.bind (reads_referenceTail_level hw _) ?_
    exact Reads.bind (.pure _ _) (reads_closing _ rest)
  | indexLookup up steps =>
    have htext : (PathStep.indexLookup up steps).canonical ++ rest =
        '[' :: ((Lookup.mk up steps).canonical ++ ']' :: rest) := by
      simp [PathStep.canonical, bracketed, Lookup.canonical]
    rw [htext]
    refine Reads.bind (reads_expect '[' _) (Reads.peek ?_)
    refine Reads.bind (hl ⟨up, steps⟩ rfl _) ?_
    exact Reads.bind (.pure _ _) (reads_closing _ rest)
  | append =>
    refine Reads.bind (reads_expect '[' _) (Reads.peek ?_)
    exact Reads.bind (.pure _ _) (reads_closing _ rest)

/-- The indices at the end of a segment are read back. -/
theorem reads_indices {steps : List PathStep} (hw : WellFormedSteps steps)
    (hl : ∀ step ∈ steps, step.ReadBy lookup) (hd : ∀ step ∈ steps, step.isDotted = false)
    {fuel : Nat} (hf : (continued steps).length ≤ fuel) :
    Reads (indicesWith lookup fuel) (continued steps) steps [] := by
  induction steps generalizing fuel with
  | nil =>
    cases fuel with
    | zero => exact .pure _ _
    | succ fuel => exact Reads.peek (.pure _ _)
  | cons step rest ih =>
    obtain ⟨inner, hinner⟩ := canonical_of_not_dotted (hd step List.mem_cons_self)
    rw [WellFormedSteps] at hw
    rw [continued_of_not_dotted (hd step List.mem_cons_self)] at hf ⊢
    have hlength : step.canonical.length ≠ 0 := by simp [hinner]
    rw [List.length_append] at hf
    have hfuel : fuel ≠ 0 := by omega
    obtain ⟨fuel, rfl⟩ := Nat.exists_eq_add_one_of_ne_zero hfuel
    have hstep : Reads (indexWith lookup) (step.canonical ++ continued rest) step
        (continued rest) :=
      reads_index hw.1 (hl step List.mem_cons_self) (hd step List.mem_cons_self) _
    have hrest : Reads (indicesWith lookup fuel) (continued rest) rest [] :=
      ih hw.2 (fun s hs => hl s (List.mem_cons_of_mem step hs))
        (fun s hs => hd s (List.mem_cons_of_mem step hs)) (by omega)
    refine Reads.peek ?_
    rw [hinner] at hstep ⊢
    exact Reads.bind hstep (Reads.bind hrest (.pure _ _))

/-- A segment that starts with an index has no head to read. -/
theorem reads_segment_of_index {first : PathStep} {indices : List PathStep}
    (hw : WellFormedSteps (first :: indices)) (hl : ∀ step ∈ first :: indices, step.ReadBy lookup)
    (hd : ∀ step ∈ first :: indices, step.isDotted = false) :
    Reads (segmentWith lookup) (first.canonical ++ continued indices) (first :: indices) [] := by
  have hfirst : first.isDotted = false := hd first List.mem_cons_self
  have hread : Reads (indicesWith lookup (continued (first :: indices)).length)
      (continued (first :: indices)) (first :: indices) [] :=
    reads_indices hw hl hd (Nat.le_refl _)
  obtain ⟨inner, hinner⟩ := canonical_of_not_dotted hfirst
  rw [continued_of_not_dotted hfirst, hinner, List.cons_append] at hread
  rw [hinner, List.cons_append]
  refine Reads.peek (Reads.bind (.pure _ _) (Reads.bind (reads_rest _) ?_))
  exact Reads.bind hread (.pure _ _)

/-- A segment is read back: a step and the indices after it. -/
theorem reads_segment {first : PathStep} {indices : List PathStep}
    (hw : WellFormedSteps (first :: indices)) (hl : ∀ step ∈ first :: indices, step.ReadBy lookup)
    (hd : ∀ step ∈ indices, step.isDotted = false) :
    Reads (segmentWith lookup) (first.canonical ++ continued indices) (first :: indices) [] := by
  have hsteps : first.WellFormed ∧ WellFormedSteps indices := by rwa [WellFormedSteps] at hw
  have hindices : Reads (indicesWith lookup (continued indices).length) (continued indices)
      indices [] :=
    reads_indices hsteps.2 (fun s hs => hl s (List.mem_cons_of_mem first hs)) hd (Nat.le_refl _)
  cases first with
  | key template =>
    have hnormal : template.Normal := by
      have hfirst := hsteps.1
      rwa [PathStep.WellFormed] at hfirst
    have hread : Reads (pieces false (· == '[')) (template.canonical ++ continued indices)
        (template.segments.map Segment.piece) (continued indices) := by
      rw [Template.canonical_eq]
      refine hnormal.pieces.reads (fun c hc => ?_) rfl rfl rfl
        (.inr (Template.star_not_mem _)) fun c hc => ?_
      · obtain rfl := eq_of_beq hc
        rfl
      · rw [head_continued hd c hc]
        rfl
    have hhead (d : Char) (hd : d = '@' ∨ d = '[') :
        (template.canonical ++ continued indices).head? ≠ some d := by
      intro he
      obtain ⟨c, more, hc⟩ := List.exists_cons_of_ne_nil hnormal.canonical_ne_nil
      have hd' := hnormal.head_canonical (c := d) (by rw [hc] at he ⊢; exact he)
      rcases hd with rfl | rfl <;> revert hd' <;> decide
    refine Reads.peek ?_
    rw [PathStep.canonical]
    split
    · exact absurd ‹_› (hhead '@' (.inl rfl))
    · exact absurd ‹_› (hhead '[' (.inr rfl))
    · refine Reads.bind hread ?_
      rw [Template.ofPieces_normal hnormal.pieces]
      exact Reads.bind (.pure _ _) (Reads.bind (reads_rest _) (Reads.bind hindices (.pure _ _)))
  | lookup up steps =>
    refine Reads.peek ?_
    refine Reads.bind (hl _ List.mem_cons_self ⟨up, steps⟩ rfl _) ?_
    exact Reads.bind (.pure _ _) (Reads.bind (reads_rest _) (Reads.bind hindices (.pure _ _)))
  | index | indexReference | indexCount | indexLookup | append =>
    exact reads_segment_of_index hw hl (List.forall_mem_cons.mpr ⟨rfl, hd⟩)

theorem segmentsWith_cons {first : PathStep} {indices more : List PathStep}
    (hw : ∀ step ∈ first :: indices, step.WellFormed)
    (hl : ∀ step ∈ first :: indices, step.ReadBy lookup)
    (hd : ∀ step ∈ indices, step.isDotted = false) {parts : List (List Char × Nat)} {offset : Nat}
    (hm : segmentsWith lookup offset parts = .ok more) (start : Nat) :
    segmentsWith lookup offset ((first.canonical ++ continued indices, start) :: parts) =
      .ok (first :: indices ++ more) := by
  have hfirst : first.canonical ≠ [] := (hw first List.mem_cons_self).canonical_ne_nil
  have hne : ¬ (first.canonical ++ continued indices).isEmpty = true := fun he =>
    hfirst (List.append_eq_nil_iff.mp (List.isEmpty_iff.mp he)).1
  have hsegment : Reads (segmentWith lookup) (first.canonical ++ continued indices)
      (first :: indices) [] :=
    reads_segment ((wellFormedSteps_iff _).mpr hw) hl hd
  rw [segmentsWith, if_neg hne, hsegment.runOn, hm]
  rfl

/-- From inside of a segment on, the split at the dots cuts the path into segments that are read
back. -/
theorem segments_continued {steps : List PathStep} (hs : ∀ step ∈ steps, step.WellFormed)
    (hls : ∀ step ∈ steps, step.ReadBy lookup) {first : PathStep} {indices : List PathStep}
    (hw : ∀ step ∈ first :: indices, step.WellFormed)
    (hl : ∀ step ∈ first :: indices, step.ReadBy lookup)
    (hd : ∀ step ∈ indices, step.isDotted = false) (start position offset : Nat) :
    ∃ parts,
      splitFrom '.' ⟨(first.canonical ++ continued indices).reverse, start, [], []⟩ position
        (continued steps) = .ok parts ∧
      segmentsWith lookup offset parts = .ok (first :: indices ++ steps) := by
  induction steps generalizing first indices start position with
  | nil =>
    refine ⟨[(first.canonical ++ continued indices, start)], ?_, ?_⟩
    · rw [continued, splitFrom, List.reverse_reverse]
    · exact segmentsWith_cons hw hl hd rfl start
  | cons step rest ih =>
    obtain ⟨hstep, hrest⟩ := List.forall_mem_cons.mp hs
    obtain ⟨hlstep, hlrest⟩ := List.forall_mem_cons.mp hls
    have hbalanced : Balanced '.' false step.canonical := step.canonical_balanced
    cases hdot : step.isDotted with
    | false =>
      -- The step is one more index of the segment in progress.
      have hmem : ∀ s ∈ first :: (indices ++ [step]), s ∈ first :: indices ∨ s = step := by
        intro s h
        simpa [or_assoc] using h
      obtain ⟨parts, hsplit, hparts⟩ := @ih hrest hlrest first (indices ++ [step])
        (fun s h => (hmem s h).elim (hw s) fun he => he ▸ hstep)
        (fun s h => (hmem s h).elim (hl s) fun he => he ▸ hlstep)
        (fun s h => (List.mem_append.mp h).elim (hd s) fun h => List.mem_singleton.mp h ▸ hdot)
        start (position + step.canonical.length)
      refine ⟨parts, ?_, ?_⟩
      · rw [continued_of_not_dotted hdot, hbalanced.splitFrom_top, ← hsplit, continued_append,
          continued_of_not_dotted hdot]
        simp [continued]
      · rw [hparts]
        simp
    | true =>
      -- The dot ends the segment in progress, and the step starts the next.
      obtain ⟨parts, hsplit, hparts⟩ := @ih hrest hlrest step []
        (fun s h => List.mem_singleton.mp h ▸ hstep) (fun s h => List.mem_singleton.mp h ▸ hlstep)
        (List.forall_mem_nil _) (position + 1) (position + 1 + step.canonical.length)
      refine ⟨(first.canonical ++ continued indices, start) :: parts, ?_, ?_⟩
      · have hrest : splitFrom '.' ⟨[], position + 1, [], []⟩ (position + 1)
            (step.canonical ++ continued rest) = .ok parts := by
          rw [hbalanced.splitFrom_top, ← hsplit, continued, List.append_nil, List.append_nil]
        rw [continued_of_dotted hdot, Balanced.splitFrom_char (by decide), hrest,
          List.reverse_reverse]
        rfl
      · exact segmentsWith_cons hw hl hd hparts start

/-- A path is read back from its canonical form, if its lookups are. -/
theorem stepsWith_canonical {steps : List PathStep} (hs : WellFormedSteps steps)
    (hl : ∀ step ∈ steps, step.ReadBy lookup) (offset : Nat) :
    stepsWith lookup (canonicalSteps [] steps) offset = .ok steps := by
  cases steps with
  | nil => rfl
  | cons first rest =>
    obtain ⟨hfirst, hrest⟩ := List.forall_mem_cons.mp ((wellFormedSteps_iff _).mp hs)
    obtain ⟨hlfirst, hlrest⟩ := List.forall_mem_cons.mp hl
    have hall {P : PathStep → Prop} (h : P first) : ∀ step ∈ [first], P step :=
      List.forall_mem_singleton.mpr h
    obtain ⟨parts, hsplit, hparts⟩ := segments_continued hrest hlrest (hall hfirst) (hall hlfirst)
      nofun 0 (0 + first.canonical.length) offset
    have hne : ¬ (first.canonical ++ continued rest).isEmpty = true := fun he =>
      hfirst.canonical_ne_nil (List.append_eq_nil_iff.mp (List.isEmpty_iff.mp he)).1
    have hbalanced : Balanced '.' false first.canonical := first.canonical_balanced
    rw [continued, List.append_nil] at hsplit
    rw [canonicalSteps_cons hs, stepsWith, if_neg hne, splitTopLevel,
      hbalanced.splitFrom_top, List.append_nil, hsplit]
    exact hparts

end ReadBack

end Reshape.Pattern
