import Reshape.Pattern.Reference
/-!
# What scans read

Two views of a scan that succeeds: the text it takes off the front, wherever that stands, and a
property of everything it can give. With them a printed number or reference is read back, and all
that is read fits a machine word. Nothing is said about the positions of problems.
-/
namespace Reshape

namespace Text

theorem wordSize_pos : 0 < wordSize := by decide

theorem isDigit_iff {c : Char} : isDigit c = true ↔ 48 ≤ c.toNat ∧ c.toNat ≤ 57 := by
  rw [isDigit, Bool.and_eq_true, decide_eq_true_eq, decide_eq_true_eq]
  exact Iff.rfl

theorem isBlank_of_isDigit {c : Char} (h : isDigit c = true) : isBlank c = false := by
  have hrange := isDigit_iff.mp h
  simp only [isBlank, Bool.or_eq_false_iff, Bool.and_eq_false_iff, decide_eq_false_iff_not,
    beq_eq_false_iff_ne]
  omega

end Text

namespace Pattern

namespace Scan

variable {α β : Type}

/-- The scan takes a result off the front of a text and leaves the rest, whatever the offset. -/
def Reads (scan : Scan α) (text : List Char) (a : α) (rest : List Char) : Prop :=
  ∀ position, ∃ position', scan ⟨position, text⟩ = .ok a ⟨position', rest⟩

/-- Every result of the scan at this cursor has a property. -/
def EnsuresAt (scan : Scan α) (cursor : Cursor) (P : α → Prop) : Prop :=
  ∀ (cursor' : Cursor) (a : α), scan cursor = .ok a cursor' → P a

/-- Every result of the scan has a property. -/
def Ensures (scan : Scan α) (P : α → Prop) : Prop :=
  ∀ cursor, EnsuresAt scan cursor P

theorem bind_eq_ok {x : Scan α} {f : α → Scan β} {cursor cursor'' : Cursor} {b : β} :
    (x >>= f) cursor = .ok b cursor'' ↔
      ∃ a cursor', x cursor = .ok a cursor' ∧ f a cursor' = .ok b cursor'' := by
  change EStateM.bind x f cursor = _ ↔ _
  rw [EStateM.bind]
  cases hx : x cursor with
  | ok a cursor' =>
    constructor
    · exact fun hf => ⟨a, cursor', rfl, hf⟩
    · rintro ⟨_, _, he, hf⟩
      obtain ⟨rfl, rfl⟩ := EStateM.Result.ok.inj he
      exact hf
  | error e cursor' => exact ⟨nofun, fun ⟨_, _, he, _⟩ => nomatch he⟩

section Reads

variable {text mid rest : List Char} {a : α} {b : β}

theorem Reads.pure (a : α) (text : List Char) : Reads (Pure.pure a) text a text :=
  fun position => ⟨position, rfl⟩

theorem Reads.bind {x : Scan α} {f : α → Scan β} (hx : Reads x text a mid)
    (hf : Reads (f a) mid b rest) : Reads (x >>= f) text b rest := by
  intro position
  obtain ⟨position', hx⟩ := hx position
  obtain ⟨position'', hf⟩ := hf position'
  exact ⟨position'', bind_eq_ok.mpr ⟨a, _, hx, hf⟩⟩

/-- Looking at the next character moves nothing. -/
theorem Reads.peek {f : Option Char → Scan β} (hf : Reads (f text.head?) text b rest) :
    Reads (Scan.peek >>= f) text b rest :=
  Reads.bind (fun position => ⟨position, rfl⟩) hf

/-- Two results of one scan on one text are the same. -/
theorem Reads.unique {scan : Scan α} {a a' : α} {rest' : List Char} (h : Reads scan text a rest)
    (h' : Reads scan text a' rest') : a = a' ∧ rest = rest' := by
  obtain ⟨_, h⟩ := h 0
  obtain ⟨_, h'⟩ := h' 0
  obtain ⟨ha, hc⟩ := EStateM.Result.ok.inj (h.symm.trans h')
  exact ⟨ha, (Cursor.mk.inj hc).2⟩

theorem Reads.runOn {scan : Scan α} (h : Reads scan text a []) (offset : Nat) :
    scan.runOn text offset = .ok a := by
  obtain ⟨_, h⟩ := h offset
  rw [Scan.runOn, EStateM.run, h]

theorem reads_advance (c : Char) (rest : List Char) : Reads advance (c :: rest) (some c) rest :=
  fun position => ⟨position + 1, rfl⟩

theorem reads_rest (text : List Char) : Reads Scan.rest text text text :=
  fun position => ⟨position, rfl⟩

theorem reads_position {f : Nat → Scan β} (hf : ∀ n, Reads (f n) text b rest) :
    Reads (Scan.position >>= f) text b rest := by
  intro position
  exact hf position position

theorem reads_expect (c : Char) (rest : List Char) : Reads (expect c) (c :: rest) () rest := by
  intro position
  refine ⟨position + 1, ?_⟩
  rw [expect]
  exact if_pos (beq_self_eq_true c)

theorem reads_takeWhile {p : Char → Bool} {taken : List Char} (ht : ∀ c ∈ taken, p c = true)
    (hr : ∀ c ∈ rest.head?, p c = false) : Reads (takeWhile p) (taken ++ rest) taken rest := by
  have hstop : rest.takeWhile p = [] ∧ rest.dropWhile p = rest := by
    cases rest with
    | nil => exact ⟨rfl, rfl⟩
    | cons c rest =>
      have hc : ¬ p c = true := by simpa using hr c rfl
      exact ⟨List.takeWhile_cons_of_neg hc, List.dropWhile_cons_of_neg hc⟩
  intro position
  refine ⟨position + taken.length, ?_⟩
  rw [takeWhile, List.takeWhile_append_of_pos ht, List.dropWhile_append_of_pos ht, hstop.1,
    hstop.2, List.append_nil]

/-- There is nothing to skip in front of a character that is not blank. -/
theorem reads_skipBlank {c : Char} (hc : Text.isBlank c = false) (rest : List Char) :
    Reads skipBlank (c :: rest) () (c :: rest) := by
  have hnone : Reads (takeWhile Text.isBlank) ([] ++ c :: rest) [] (c :: rest) :=
    reads_takeWhile nofun fun d hd => by cases hd; exact hc
  exact Reads.bind hnone (.pure () _)

end Reads

section Ensures

variable {P : α → Prop} {Q : β → Prop}

theorem Ensures.pure {a : α} (h : P a) : Ensures (Pure.pure a) P := by
  intro _ _ b hb
  obtain ⟨rfl, -⟩ := EStateM.Result.ok.inj hb
  exact h

theorem Ensures.bind {x : Scan α} {f : α → Scan β} (hx : Ensures x P)
    (hf : ∀ a, P a → Ensures (f a) Q) : Ensures (x >>= f) Q := by
  intro _ _ b hb
  obtain ⟨a, _, ha, hb⟩ := bind_eq_ok.mp hb
  exact hf a (hx _ _ a ha) _ _ b hb

/-- Nothing need be known of the first step. -/
theorem Ensures.then {x : Scan α} {f : α → Scan β} (hf : ∀ a, Ensures (f a) Q) :
    Ensures (x >>= f) Q :=
  Ensures.bind (P := fun _ => True) (fun _ _ _ _ => trivial) fun a _ => hf a

theorem Ensures.fail (problem : ScanProblem) : Ensures (Scan.fail problem) P := by
  intro _ _ _ h
  cases h

theorem Ensures.failAt (position : Nat) (problem : ScanProblem) :
    Ensures (Scan.failAt position problem) P := by
  intro _ _ _ h
  cases h

theorem EnsuresAt.of_runOn {scan : Scan α} {text : List Char} {offset : Nat} {a : α}
    (h : EnsuresAt scan ⟨offset, text⟩ P) (ha : scan.runOn text offset = .ok a) : P a := by
  rw [Scan.runOn] at ha
  split at ha
  · rename_i b _ hb
    obtain rfl := Except.ok.inj ha
    exact h _ b hb
  · cases ha

theorem Ensures.of_runOn {scan : Scan α} (h : Ensures scan P) {text : List Char} {offset : Nat}
    {a : α} (ha : scan.runOn text offset = .ok a) : P a :=
  (h _).of_runOn ha

theorem EnsuresAt.peek {f : Option Char → Scan β} {cursor : Cursor}
    (h : EnsuresAt (f cursor.rest.head?) cursor Q) : EnsuresAt (Scan.peek >>= f) cursor Q :=
  h

theorem EnsuresAt.bind {x : Scan α} {f : α → Scan β} {cursor : Cursor}
    (h : ∀ a cursor', x cursor = .ok a cursor' → EnsuresAt (f a) cursor' Q) :
    EnsuresAt (x >>= f) cursor Q := by
  intro _ b hb
  obtain ⟨a, cursor', ha, hb⟩ := bind_eq_ok.mp hb
  exact h a cursor' ha _ b hb

end Ensures

/-! ## Numbers -/

theorem isDigit_of_mem_toDigits {n : Nat} {c : Char} (h : c ∈ Nat.toDigits 10 n) :
    Text.isDigit c = true := by
  have hc : c.isDigit = true := Nat.isDigit_of_mem_toDigits (by decide) (by decide) h
  rw [Char.isDigit, Bool.and_eq_true, decide_eq_true_eq, decide_eq_true_eq] at hc
  exact Text.isDigit_iff.mpr hc

theorem exists_toDigits_eq_cons (n : Nat) :
    ∃ c digits, Nat.toDigits 10 n = c :: digits ∧ Text.isDigit c = true := by
  obtain ⟨c, digits, hd⟩ := List.exists_cons_of_ne_nil (Nat.toDigits_ne_nil (n := n) (b := 10))
  exact ⟨c, digits, hd, isDigit_of_mem_toDigits (hd ▸ List.mem_cons_self)⟩

/-- The digits printed for a number denote it. -/
@[simp] theorem digitsValue_toDigits (n : Nat) : Text.digitsValue (Nat.toDigits 10 n) = n :=
  Nat.ofDigitChars_ten_toDigits

@[simp] theorem digits?_toDigits (n : Nat) : Text.digits? (Nat.toDigits 10 n) = some n := by
  have hne : (Nat.toDigits 10 n).isEmpty = false :=
    List.isEmpty_eq_false_iff.mpr Nat.toDigits_ne_nil
  have hall : (Nat.toDigits 10 n).all Text.isDigit = true :=
    List.all_eq_true.mpr fun c hc => isDigit_of_mem_toDigits hc
  rw [Text.digits?, hne, hall, digitsValue_toDigits]
  rfl

theorem reads_number {n : Nat} (hn : n < Text.wordSize) {rest : List Char}
    (hr : ∀ c ∈ rest.head?, Text.isDigit c = false) :
    Reads number (Nat.toDigits 10 n ++ rest) n rest := by
  refine reads_position fun start => ?_
  refine Reads.bind (reads_takeWhile (fun c hc => isDigit_of_mem_toDigits hc) hr) ?_
  rw [digits?_toDigits]
  dsimp only
  rw [if_pos hn]
  exact .pure n rest

theorem number_lt : Ensures number (· < Text.wordSize) := by
  refine Ensures.then fun start => Ensures.then fun digits => ?_
  split
  · exact .failAt _ _
  · split
    · exact .pure ‹_›
    · exact .failAt _ _

end Scan

/-! ## References -/

/-- Both numbers fit a machine word. -/
structure Reference.InRange (r : Reference) : Prop where
  level_lt : r.level < Text.wordSize
  group_lt : r.group < Text.wordSize

namespace Reference

/-- The canonical form of a reference without its sigil. -/
def tailCanonical (r : Reference) : List Char :=
  '(' :: Nat.toDigits 10 r.level ++ ',' :: Nat.toDigits 10 r.group ++ [')']

theorem canonical_eq (r : Reference) (sigil : Char) :
    r.canonical sigil = sigil :: r.tailCanonical := rfl

end Reference

section

open Scan

/-- No digit of a printed number is blank. -/
theorem reads_skipBlank_toDigits (n : Nat) (rest : List Char) :
    Reads skipBlank (Nat.toDigits 10 n ++ rest) () (Nat.toDigits 10 n ++ rest) := by
  obtain ⟨c, digits, hd, hc⟩ := exists_toDigits_eq_cons n
  rw [hd, List.cons_append]
  exact reads_skipBlank (Text.isBlank_of_isDigit hc) _

theorem reads_groupTail {group : Nat} (h : group < Text.wordSize) (rest : List Char) :
    Reads groupTail (',' :: (Nat.toDigits 10 group ++ ')' :: rest)) group (')' :: rest) := by
  refine Reads.peek ?_
  refine Reads.bind (reads_advance ',' _) ?_
  refine Reads.bind (reads_skipBlank_toDigits group _) ?_
  refine Reads.bind (reads_number h fun c hc => by cases hc; rfl) ?_
  exact Reads.bind (reads_skipBlank rfl rest) (.pure group _)

/-- A reference is read back from its canonical form, whatever follows. -/
theorem reads_referenceTail {r : Reference} (h : r.InRange) (rest : List Char) :
    Reads referenceTail (r.tailCanonical ++ rest) r rest := by
  have htext : r.tailCanonical ++ rest =
      '(' :: (Nat.toDigits 10 r.level ++ ',' :: (Nat.toDigits 10 r.group ++ ')' :: rest)) := by
    simp [Reference.tailCanonical]
  rw [htext]
  refine Reads.peek ?_
  refine Reads.bind (reads_advance '(' _) ?_
  refine Reads.bind (reads_skipBlank_toDigits r.level _) ?_
  refine Reads.bind (reads_number h.level_lt fun c hc => by cases hc; rfl) ?_
  refine Reads.bind (reads_skipBlank rfl _) ?_
  refine Reads.bind (reads_groupTail h.group_lt rest) ?_
  exact Reads.bind (reads_expect ')' rest) (.pure r rest)

/-- A level alone is read as a reference to the whole key. -/
theorem reads_referenceTail_level {level : Nat} (h : level < Text.wordSize) (rest : List Char) :
    Reads referenceTail ('(' :: (Nat.toDigits 10 level ++ ')' :: rest)) ⟨level, 0⟩ rest := by
  refine Reads.peek ?_
  refine Reads.bind (reads_advance '(' _) ?_
  refine Reads.bind (reads_skipBlank_toDigits level _) ?_
  refine Reads.bind (reads_number h fun c hc => by cases hc; rfl) ?_
  refine Reads.bind (reads_skipBlank rfl _) ?_
  refine Reads.bind (Reads.peek (.pure 0 _)) ?_
  exact Reads.bind (reads_expect ')' rest) (.pure _ rest)

theorem groupTail_lt : Ensures groupTail (· < Text.wordSize) := by
  refine Ensures.then fun next => ?_
  split
  · refine Ensures.then fun _ => Ensures.then fun _ => ?_
    refine Ensures.bind number_lt fun group hgroup => ?_
    exact Ensures.then fun _ => .pure hgroup
  · exact .pure Text.wordSize_pos

theorem referenceTail_inRange : Ensures referenceTail Reference.InRange := by
  refine Ensures.then fun next => ?_
  split
  · refine Ensures.then fun _ => Ensures.then fun _ => ?_
    refine Ensures.bind number_lt fun level hlevel => ?_
    refine Ensures.then fun _ => ?_
    refine Ensures.bind groupTail_lt fun group hgroup => ?_
    exact Ensures.then fun _ => .pure ⟨hlevel, hgroup⟩
  · split
    · exact Ensures.bind number_lt fun level hlevel => .pure ⟨hlevel, Text.wordSize_pos⟩
    · exact .pure ⟨Text.wordSize_pos, Text.wordSize_pos⟩
  · exact .pure ⟨Text.wordSize_pos, Text.wordSize_pos⟩

end

end Pattern
end Reshape
