import Mathlib.Data.List.TakeDrop
import Reshape.Proofs.Pattern.Path
/-!
# Reading lookups back

The path of a lookup is trimmed before it is read, so a lookup is read back if no key in it has a
blank at either end. With that the scan of lookups is one that paths are read back with. Everything
that the scans give is well-formed, hence a path that has been read is read back.
-/
namespace Reshape.Pattern

open Scan

/-! ## Keys without blanks at their ends -/

/-- The text has no blank at either end. -/
structure Trimmed (text : List Char) : Prop where
  head : ∀ c ∈ text.head?, Text.isBlank c = false
  last : ∀ c ∈ text.getLast?, Text.isBlank c = false

theorem Trimmed.trim_eq {text : List Char} (h : Trimmed text) : Text.trim text = text := by
  have hkeep : ∀ text : List Char, (∀ c ∈ text.head?, Text.isBlank c = false) →
      text.dropWhile Text.isBlank = text := by
    intro text h
    cases text with
    | nil => rfl
    | cons c text => exact List.dropWhile_cons_of_neg (ne_true_of_eq_false (h c rfl))
  rw [Text.trim, Text.trimStart, hkeep text h.head, Text.trimEnd, hkeep text.reverse,
    List.reverse_reverse]
  rw [List.head?_reverse]
  exact h.last

def Segment.text? : Segment → Option String
  | .text t => some t
  | .reference _ => none

def startsBlank (text : String) : Bool := text.toList.head?.any Text.isBlank

def endsBlank (text : String) : Bool := text.toList.getLast?.any Text.isBlank

/-- The text of the key neither starts nor ends with a blank. -/
structure Template.Tight (t : Template) : Prop where
  head : ∀ text ∈ t.segments.head?.bind Segment.text?, startsBlank text = false
  last : ∀ text ∈ t.segments.getLast?.bind Segment.text?, endsBlank text = false

instance (t : Template) : Decidable t.Tight :=
  decidable_of_iff
    ((∀ text ∈ t.segments.head?.bind Segment.text?, startsBlank text = false) ∧
      ∀ text ∈ t.segments.getLast?.bind Segment.text?, endsBlank text = false)
    ⟨fun h => ⟨h.1, h.2⟩, fun h => ⟨h.head, h.last⟩⟩

mutual
/-- The keys of the step are tight, those inside of its lookup included. -/
def PathStep.Tight : PathStep → Prop
  | .key template => template.Tight
  | .lookup _ steps => TightSteps steps
  | .indexLookup _ steps => TightSteps steps
  | .index _ => True
  | .indexReference _ => True
  | .indexCount _ => True
  | .append => True

def TightSteps : List PathStep → Prop
  | [] => True
  | step :: rest => step.Tight ∧ TightSteps rest
end

mutual
def PathStep.decidableTight : (step : PathStep) → Decidable step.Tight
  | .key template => inferInstanceAs (Decidable template.Tight)
  | .lookup _ steps => decidableTightSteps steps
  | .indexLookup _ steps => decidableTightSteps steps
  | .index _ => .isTrue trivial
  | .indexReference _ => .isTrue trivial
  | .indexCount _ => .isTrue trivial
  | .append => .isTrue trivial

def decidableTightSteps : (steps : List PathStep) → Decidable (TightSteps steps)
  | [] => .isTrue trivial
  | step :: rest => @instDecidableAnd _ _ step.decidableTight (decidableTightSteps rest)
end

instance (steps : List PathStep) : Decidable (TightSteps steps) := decidableTightSteps steps

theorem tightSteps_iff (steps : List PathStep) :
    TightSteps steps ↔ ∀ step ∈ steps, step.Tight := by
  induction steps with
  | nil => simp [TightSteps]
  | cons step rest ih => simp [TightSteps, ih]

theorem PathStep.Tight.lookup? {step : PathStep} (h : step.Tight) :
    ∀ l ∈ step.lookup?, TightSteps l.steps := by
  intro l hl
  cases step with
  | lookup up steps | indexLookup up steps =>
    obtain rfl := Option.some.inj hl
    rwa [PathStep.Tight] at h
  | _ => cases hl

@[simp] theorem getLast?_escape (text : List Char) : (escape text).getLast? = text.getLast? := by
  induction text with
  | nil => rfl
  | cons c text ih =>
    rw [escape]
    split <;> simp [List.getLast?_cons, ih]

theorem trimmed_concat {opening closing : Char} {text : List Char}
    (hh : text.head? = some opening) (ho : Text.isBlank opening = false)
    (hc : Text.isBlank closing = false) : Trimmed (text ++ [closing]) where
  head c h := by
    rw [List.head?_append, hh] at h
    obtain rfl := Option.some.inj h
    exact ho
  last c h := by
    rw [List.getLast?_concat] at h
    obtain rfl := Option.some.inj h
    exact hc

theorem Template.canonical_trimmed {t : Template} (hn : t.Normal) (ht : t.Tight) :
    Trimmed t.canonical := by
  obtain ⟨segments⟩ := t
  have htext : ∀ text, .text text ∈ segments → escape text.toList ≠ [] := fun text hm =>
    escape_ne_nil fun he => hn.pieces.text_ne_empty (List.mem_map_of_mem (f := Segment.piece) hm)
      (String.toList_eq_nil_iff.mp he)
  constructor
  · intro c hc
    obtain ⟨segment, more, rfl⟩ := List.exists_cons_of_ne_nil hn.ne_nil
    rw [canonical, List.flatMap_cons] at hc
    cases segment with
    | text text =>
      obtain ⟨d, rest, hd⟩ := List.exists_cons_of_ne_nil (htext text List.mem_cons_self)
      rw [segmentCanonical, hd] at hc
      have hhead : c ∈ (escape text.toList).head? := by
        rw [hd]
        exact hc
      rcases head_escape hhead with rfl | ⟨-, hc⟩
      · rfl
      · have hblank : startsBlank text = false := ht.head text rfl
        rwa [startsBlank, hc] at hblank
    | reference r =>
      cases hc
      rfl
  · intro c hc
    obtain ⟨last, hlast⟩ := Option.isSome_iff_exists.mp (List.getLast?_isSome.mpr hn.ne_nil)
    obtain ⟨init, rfl⟩ := List.getLast?_eq_some_iff.mp hlast
    rw [canonical, List.flatMap_append, List.flatMap_singleton, List.getLast?_append] at hc
    cases last with
    | text text =>
      obtain ⟨d, hd⟩ := Option.isSome_iff_exists.mp (List.getLast?_isSome.mpr
        (htext text (List.mem_append_right init List.mem_cons_self)))
      rw [segmentCanonical, hd] at hc
      obtain rfl := Option.some.inj hc
      have hblank : endsBlank text = false := ht.last text (by rw [hlast]; rfl)
      rwa [endsBlank, ← getLast?_escape, hd] at hblank
    | reference r =>
      rw [segmentCanonical, Reference.canonical, List.getLast?_concat] at hc
      cases hc
      rfl

theorem PathStep.canonical_trimmed {step : PathStep} (hw : step.WellFormed) (ht : step.Tight) :
    Trimmed step.canonical := by
  cases step with
  | key template =>
    rw [PathStep.WellFormed] at hw
    rw [PathStep.Tight] at ht
    exact Template.canonical_trimmed hw ht
  | _ => exact trimmed_concat rfl rfl rfl

/-- So has a path with tight keys. -/
theorem canonicalSteps_trimmed {steps : List PathStep} (hw : WellFormedSteps steps)
    (ht : TightSteps steps) : Trimmed (canonicalSteps [] steps) := by
  have hlast : ∀ {steps : List PathStep} {written : List Char}, WellFormedSteps steps →
      TightSteps steps → (∀ c ∈ written.getLast?, Text.isBlank c = false) →
      ∀ c ∈ (canonicalSteps written steps).getLast?, Text.isBlank c = false := by
    intro steps
    induction steps with
    | nil => exact fun _ _ h => h
    | cons step rest ih =>
      intro written hw ht hwritten
      rw [WellFormedSteps] at hw
      rw [TightSteps] at ht
      rw [canonicalSteps]
      refine ih hw.2 ht.2 fun c hc => ?_
      obtain ⟨d, hd⟩ := Option.isSome_iff_exists.mp
        (List.getLast?_isSome.mpr hw.1.canonical_ne_nil)
      rw [List.getLast?_append, hd] at hc
      exact (PathStep.canonical_trimmed hw.1 ht.1).last c (hd.trans hc)
  refine ⟨fun c hc => ?_, hlast hw ht (by simp)⟩
  cases steps with
  | nil => cases hc
  | cons step rest =>
    rw [canonicalSteps_cons hw] at hc
    rw [WellFormedSteps] at hw
    rw [TightSteps] at ht
    obtain ⟨d, more, hd⟩ := List.exists_cons_of_ne_nil hw.1.canonical_ne_nil
    rw [hd] at hc
    exact (PathStep.canonical_trimmed hw.1 ht.1).head c (hd ▸ hc)

/-! ## Reading lookups back -/

theorem PathStep.lookup_length {step : PathStep} :
    ∀ l ∈ step.lookup?, l.canonical.length ≤ step.canonical.length := by
  intro l hl
  cases step with
  | lookup up steps =>
    obtain rfl := Option.some.inj hl
    exact Nat.le_refl _
  | indexLookup up steps =>
    obtain rfl := Option.some.inj hl
    have hlength : (bracketed (lookupText up (canonicalSteps [] steps))).length =
        (lookupText up (canonicalSteps [] steps)).length + 2 := by simp [bracketed]
    rw [PathStep.canonical, hlength]
    exact Nat.le_add_right _ 2
  | _ => cases hl

namespace Lookup

variable {l : Lookup}

/-- What stands between the parentheses. -/
def inside (l : Lookup) : List Char := Nat.toDigits 10 l.up ++ ',' :: canonicalSteps [] l.steps

theorem canonical_append (l : Lookup) (rest : List Char) :
    l.canonical ++ rest = '@' :: '(' :: (l.inside ++ ')' :: rest) := by
  simp [canonical, lookupText, inside]

theorem inside_balanced (l : Lookup) : Balanced '.' true l.inside :=
  (toDigits_balanced l.up).append
    (.char (by decide) (.inl (by decide)) (canonicalSteps_balanced l.steps .nil))

theorem span_inside (l : Lookup) :
    l.inside.span Text.isDigit = (Nat.toDigits 10 l.up, ',' :: canonicalSteps [] l.steps) := by
  have hdigits : ∀ c ∈ Nat.toDigits 10 l.up, Text.isDigit c = true :=
    fun c hc => isDigit_of_mem_toDigits hc
  rw [inside, List.span_eq_takeWhile_dropWhile, List.takeWhile_append_of_pos hdigits,
    List.dropWhile_append_of_pos hdigits, List.takeWhile_cons_of_neg (by decide),
    List.dropWhile_cons_of_neg (by decide), List.append_nil]

/-- The lookups inside of a lookup are shorter. -/
theorem WellFormed.length_lt (h : l.WellFormed) {step : PathStep} (hs : step ∈ l.steps)
    {inner : Lookup} (hi : inner ∈ step.lookup?) :
    inner.canonical.length < l.canonical.length := by
  have hstep : inner.canonical.length ≤ step.canonical.length := step.lookup_length inner hi
  have hpath : step.canonical.length ≤ (canonicalSteps [] l.steps).length :=
    canonical_length_le h.steps hs
  have hwhole : (canonicalSteps [] l.steps).length < l.canonical.length := by
    simp only [canonical, lookupText, List.length_append, List.length_cons]
    omega
  omega

end Lookup

theorem lookupInside_inside {lookup : Scan Lookup} {l : Lookup} (hw : l.WellFormed)
    (ht : TightSteps l.steps) (hl : ∀ step ∈ l.steps, step.ReadBy lookup) (offset : Nat) :
    lookupInside lookup l.inside offset = .ok l := by
  have hempty : (Nat.toDigits 10 l.up).isEmpty = false :=
    List.isEmpty_eq_false_iff.mpr Nat.toDigits_ne_nil
  have htail : Text.trimStart (',' :: canonicalSteps [] l.steps) =
      ',' :: canonicalSteps [] l.steps := rfl
  have hcomma (path : List Char) :
      (false || !((',' :: path).isEmpty || (',' :: path).head? == some ',')) = false := rfl
  rw [lookupInside, l.span_inside]
  dsimp only
  rw [htail, hempty, hcomma, digitsValue_toDigits, if_neg Bool.false_ne_true, if_pos hw.up_lt,
    List.drop_one, List.tail_cons, (canonicalSteps_trimmed hw.steps ht).trim_eq,
    stepsWith_canonical hw.steps hl]
  rfl

/-- A lookup with tight keys is read back from its canonical form, at a depth that its length
bounds. -/
theorem reads_lookupWithin (depth : Nat) {l : Lookup} (hw : l.WellFormed) (ht : TightSteps l.steps)
    (hdepth : l.canonical.length ≤ depth) (rest : List Char) :
    Reads (lookupWithin depth) (l.canonical ++ rest) l rest := by
  induction depth generalizing l rest with
  | zero => cases hdepth
  | succ depth ih =>
    have hread : ∀ step ∈ l.steps, step.ReadBy (lookupWithin depth) := by
      intro step hs inner hi rest
      have hstep : step.WellFormed := (wellFormedSteps_iff _).mp hw.steps step hs
      have htight : step.Tight := (tightSteps_iff _).mp ht step hs
      have hlength : inner.canonical.length < l.canonical.length := hw.length_lt hs hi
      exact ih (hstep.lookup? inner hi) (htight.lookup? inner hi) (by omega) rest
    rw [l.canonical_append]
    refine Reads.bind (reads_expect '@' _) (Reads.peek ?_)
    refine reads_position fun start => ?_
    refine Reads.bind (l.inside_balanced.reads_parenthesized rest) ?_
    rw [lookupInside_inside hw ht hread]
    exact .pure l rest

theorem reads_lookup {l : Lookup} (hw : l.WellFormed) (ht : TightSteps l.steps)
    (rest : List Char) : Reads Lookup.scan (l.canonical ++ rest) l rest := by
  refine Reads.bind (reads_rest _) (reads_lookupWithin _ hw ht ?_ rest)
  rw [List.length_append]
  exact Nat.le_add_right _ _

/-- A lookup is read back as a whole text. -/
theorem Lookup.parse_canonical {l : Lookup} (hw : l.WellFormed) (ht : TightSteps l.steps) :
    Lookup.parse l.canonical = .ok l := by
  have hread : Reads Lookup.scan l.canonical l [] := by
    have h := reads_lookup hw ht []
    rwa [List.append_nil] at h
  exact Reads.runOn (Reads.bind hread (Reads.peek (.pure l []))) 0

/-- A path is read back, if the keys inside of its lookups are tight. -/
theorem parseSteps_canonicalSteps {steps : List PathStep} (hw : WellFormedSteps steps)
    (ht : ∀ step ∈ steps, ∀ l ∈ step.lookup?, TightSteps l.steps) (offset : Nat) :
    parseSteps (canonicalSteps [] steps) offset = .ok steps := by
  refine stepsWith_canonical hw (fun step hs l hl rest => ?_) offset
  have hstep : step.WellFormed := (wellFormedSteps_iff _).mp hw step hs
  refine reads_lookupWithin _ (hstep.lookup? l hl) (ht step hs l hl) ?_ rest
  exact Nat.le_trans (step.lookup_length l hl) (canonical_length_le hw hs)

/-! ## What is read -/

section Inversion

variable {lookup : Scan Lookup}

theorem indexWith_wellFormed (hl : Ensures lookup Lookup.WellFormed) :
    Ensures (indexWith lookup) PathStep.WellFormed := by
  have hclose {scan : Scan PathStep} (h : Ensures scan PathStep.WellFormed) :
      Ensures (do let step ← scan; Scan.expect ']'; pure step) PathStep.WellFormed :=
    Ensures.bind h fun _ hstep => Ensures.then fun _ => .pure hstep
  refine Ensures.then fun _ => Ensures.then fun next => ?_
  split
  · exact hclose (.pure trivial)
  · -- A reference.
    refine Ensures.then fun _ => Ensures.bind referenceTail_inRange fun r hr => ?_
    exact hclose (.pure hr)
  · -- A count.
    refine Ensures.then fun _ => Ensures.bind referenceTail_inRange fun r hr => ?_
    split
    · exact hclose (.fail _)
    · exact hclose (.pure hr.level_lt)
  · -- A lookup.
    exact Ensures.bind hl fun l hl => hclose (.pure ⟨hl.up_lt, hl.steps⟩)
  · split
    · -- A position.
      refine Ensures.then fun start => Ensures.then fun n => ?_
      split
      · exact hclose (.failAt _ _)
      · rename_i hn
        exact hclose (.pure (Nat.le_of_not_lt hn))
    · exact hclose (.fail _)
  · exact hclose (.fail _)

/-- Indices are well-formed. -/
theorem indicesWith_wellFormed (hl : Ensures lookup Lookup.WellFormed) (fuel : Nat) :
    Ensures (indicesWith lookup fuel) WellFormedSteps := by
  induction fuel with
  | zero => exact .pure trivial
  | succ fuel ih =>
    refine Ensures.then fun next => ?_
    split
    · exact .pure trivial
    · refine Ensures.bind (indexWith_wellFormed hl) fun step hstep => ?_
      exact Ensures.bind ih fun more hmore => .pure ⟨hstep, hmore⟩
    · exact .fail _

theorem WellFormedSteps.append {steps more : List PathStep} (hs : WellFormedSteps steps)
    (hm : WellFormedSteps more) : WellFormedSteps (steps ++ more) := by
  rw [wellFormedSteps_iff] at hs hm ⊢
  exact fun step h => (List.mem_append.mp h).elim (hs step) (hm step)

theorem segmentWith_wellFormed (hl : Ensures lookup Lookup.WellFormed) {cursor : Cursor}
    (hc : cursor.rest ≠ []) : EnsuresAt (segmentWith lookup) cursor WellFormedSteps := by
  have hindices {scan : Scan (List PathStep)} (h : Ensures scan WellFormedSteps) :
      Ensures (do
        let head ← scan
        let text ← Scan.rest
        let indices ← indicesWith lookup text.length
        pure (head ++ indices)) WellFormedSteps :=
    Ensures.bind h fun _ hhead => Ensures.then fun text =>
      Ensures.bind (indicesWith_wellFormed hl text.length) fun _ hi => .pure (hhead.append hi)
  refine EnsuresAt.peek ?_
  split
  · refine Ensures.bind hl (fun l hl => hindices (.pure ?_)) cursor
    exact ⟨⟨hl.up_lt, hl.steps⟩, trivial⟩
  · refine hindices (.pure ?_) cursor
    trivial
  · -- The segment is not empty and starts with no bracket, so its key is not empty.
    rename_i hbracket
    refine EnsuresAt.bind fun ps cursor' hread => ?_
    have hne : ps ≠ [] := by
      refine pieces_ne_nil ?_ hread
      obtain ⟨c, rest, hrest⟩ := List.exists_cons_of_ne_nil hc
      rw [hrest] at hbracket ⊢
      exact ⟨c, rfl, beq_eq_false_iff_ne.mpr fun he => hbracket (congrArg some he)⟩
    have hnormal : (Template.ofPieces ps).Normal :=
      Template.normal_of_scanned (pieces_scanned _ _ ps hread) hne
    refine hindices (.pure ?_) cursor'
    exact ⟨hnormal, trivial⟩

theorem except_bind_eq_ok {ε α β : Type} {x : Except ε α} {f : α → Except ε β} {b : β} :
    (x >>= f) = .ok b ↔ ∃ a, x = .ok a ∧ f a = .ok b := by
  cases x with
  | ok a => exact ⟨fun h => ⟨a, rfl, h⟩, fun ⟨_, he, h⟩ => Except.ok.inj he ▸ h⟩
  | error e => exact ⟨nofun, fun ⟨_, he, _⟩ => nomatch he⟩

theorem segmentsWith_wellFormed (hl : Ensures lookup Lookup.WellFormed) {offset : Nat}
    {parts : List (List Char × Nat)} {steps : List PathStep}
    (h : segmentsWith lookup offset parts = .ok steps) : WellFormedSteps steps := by
  induction parts generalizing steps with
  | nil =>
    obtain rfl := Except.ok.inj h
    trivial
  | cons part parts ih =>
    obtain ⟨segment, start⟩ := part
    rw [segmentsWith] at h
    split at h
    · cases h
    · rename_i hempty
      obtain ⟨head, hhead, h⟩ := except_bind_eq_ok.mp h
      obtain ⟨more, hmore, h⟩ := except_bind_eq_ok.mp h
      obtain rfl := Except.ok.inj h
      have hne : segment ≠ [] := fun he => hempty (List.isEmpty_iff.mpr he)
      exact ((segmentWith_wellFormed hl hne).of_runOn hhead).append (ih hmore)

theorem stepsWith_wellFormed (hl : Ensures lookup Lookup.WellFormed) {text : List Char}
    {offset : Nat} {steps : List PathStep} (h : stepsWith lookup text offset = .ok steps) :
    WellFormedSteps steps := by
  rw [stepsWith] at h
  split at h
  · obtain rfl := Except.ok.inj h
    trivial
  · split at h
    · cases h
    · exact segmentsWith_wellFormed hl h

theorem lookupInside_wellFormed (hl : Ensures lookup Lookup.WellFormed) {inner : List Char}
    {offset : Nat} {l : Lookup} (h : lookupInside lookup inner offset = .ok l) : l.WellFormed := by
  rw [lookupInside] at h
  dsimp only at h
  split at h
  · obtain ⟨steps, hsteps, h⟩ := except_bind_eq_ok.mp h
    obtain rfl := Except.ok.inj h
    exact ⟨Text.wordSize_pos, stepsWith_wellFormed hl hsteps⟩
  · split at h
    · rename_i hup
      obtain ⟨steps, hsteps, h⟩ := except_bind_eq_ok.mp h
      obtain rfl := Except.ok.inj h
      exact ⟨hup, stepsWith_wellFormed hl hsteps⟩
    · cases h

theorem Ensures.ofExcept {α : Type} {P : α → Prop} {result : Except ScanError α}
    (h : ∀ a, result = .ok a → P a) : Ensures (Scan.ofExcept result) P := by
  cases result with
  | ok a => exact .pure (h a rfl)
  | error e => exact fun _ _ _ he => nomatch he

theorem lookupWithin_wellFormed (depth : Nat) : Ensures (lookupWithin depth) Lookup.WellFormed := by
  induction depth with
  | zero => exact Ensures.then fun _ => .pure ⟨Text.wordSize_pos, trivial⟩
  | succ depth ih =>
    refine Ensures.then fun _ => Ensures.then fun next => ?_
    split
    · exact .pure ⟨Text.wordSize_pos, trivial⟩
    · exact .pure ⟨Text.wordSize_pos, trivial⟩
    · exact .pure ⟨Text.wordSize_pos, trivial⟩
    · refine Ensures.then fun start => Ensures.then fun inner => ?_
      exact Ensures.ofExcept fun l hread => lookupInside_wellFormed ih hread
    · refine Ensures.then fun start => Ensures.then fun name => ?_
      refine Ensures.bind (Ensures.ofExcept fun steps hsteps => stepsWith_wellFormed ih hsteps) ?_
      exact fun steps hsteps => .pure ⟨Text.wordSize_pos, hsteps⟩

end Inversion

theorem parseSteps_wellFormed {text : List Char} {offset : Nat} {steps : List PathStep}
    (h : parseSteps text offset = .ok steps) : WellFormedSteps steps :=
  stepsWith_wellFormed (lookupWithin_wellFormed text.length) h

theorem Lookup.parse_wellFormed {text : List Char} {l : Lookup} (h : Lookup.parse text = .ok l) :
    l.WellFormed := by
  refine Ensures.of_runOn ?_ h
  refine Ensures.bind (Ensures.then fun text => lookupWithin_wellFormed text.length) fun l hl => ?_
  refine Ensures.then fun next => ?_
  cases next with
  | none => exact .pure hl
  | some c => exact .fail _

/-! ## The round trip -/

/-- A path that has been read is read back from its canonical form, and any text but the empty one
is a key when it is escaped. -/
theorem path_roundtrip :
    (∀ raw steps, parseSteps raw 0 = .ok steps →
      (∀ step ∈ steps, ∀ l ∈ step.lookup?, TightSteps l.steps) →
      parseSteps (canonicalSteps [] steps) 0 = .ok steps) ∧
    ∀ text : String, text ≠ "" →
      parseSteps (escapeKey text).toList 0 = .ok [.key (.literal text)] := by
  constructor
  · exact fun raw steps h ht => parseSteps_canonicalSteps (parseSteps_wellFormed h) ht 0
  · intro text hne
    have hwell : WellFormedSteps [.key (.literal text)] := ⟨Template.literal_normal hne, trivial⟩
    have htext : canonicalSteps [] [.key (.literal text)] = (escapeKey text).toList := by
      rw [canonicalSteps_cons hwell, continued, List.append_nil, PathStep.canonical,
        Template.canonical_literal hne, escapeKey, String.toList_ofList]
    have hnone : ∀ step ∈ [PathStep.key (.literal text)], ∀ l ∈ step.lookup?,
        TightSteps l.steps := by
      intro step hs l hl
      cases List.mem_singleton.mp hs
      cases hl
    rw [← htext]
    exact parseSteps_canonicalSteps hwell hnone 0

/-- A path with an index, and with a lookup in whose path there is another. -/
theorem path_roundtrip_nested :
    let steps := [.key (.literal "a"), .index 2,
      .lookup 1 [.key ⟨[.text "b", .reference ⟨1, 0⟩]⟩, .indexLookup 0 [.key (.literal "c")]],
      .append]
    parseSteps "a[2].@(1, b&1[@c])[]".toList 0 = .ok steps ∧
      (∀ step ∈ steps, ∀ l ∈ step.lookup?, TightSteps l.steps) ∧
      parseSteps (canonicalSteps [] steps) 0 = .ok steps ∧
      "x.y" ≠ "" ∧ parseSteps (escapeKey "x.y").toList 0 = .ok [.key (.literal "x.y")] := by
  intro steps
  have hparse : parseSteps "a[2].@(1, b&1[@c])[]".toList 0 = .ok steps := by decide +kernel
  have htight : ∀ step ∈ steps, ∀ l ∈ step.lookup?, TightSteps l.steps := by decide +kernel
  exact ⟨hparse, htight, path_roundtrip.1 _ _ hparse htight, by decide,
    path_roundtrip.2 "x.y" (by decide)⟩

end Reshape.Pattern
