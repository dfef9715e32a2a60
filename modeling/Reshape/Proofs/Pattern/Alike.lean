import Reshape.Proofs.Pattern.Position
/-!
# Runs that end alike

Two runs of a scan over one text end alike wherever the text starts: both take the same part of it
and give the same result, or both fail. A failure points into the text. The two runs may also be
of different scans, as those of lookups that may nest to different depths.
-/
namespace Reshape.Pattern

/-- The outcomes of two runs over one text that starts at the offsets `p` and `q`. -/
inductive Alike {α : Type} (text : List Char) (p q : Nat) :
    EStateM.Result ScanError Cursor α → EStateM.Result ScanError Cursor α → Prop
  | ok (a : α) {taken rest : List Char} (split : text = taken ++ rest) :
    Alike text p q (.ok a ⟨p + taken.length, rest⟩) (.ok a ⟨q + taken.length, rest⟩)
  | error {e e' : ScanError} {cursor cursor' : Cursor} (points : Points text p e) :
    Alike text p q (.error e cursor) (.error e' cursor')

/-- So do two readings that leave no cursor. -/
inductive AlikeExcept {α : Type} (text : List Char) (p : Nat) :
    Except ScanError α → Except ScanError α → Prop
  | ok (a : α) : AlikeExcept text p (.ok a) (.ok a)
  | error {e e' : ScanError} (points : Points text p e) : AlikeExcept text p (.error e) (.error e')

/-- Neither run takes anything. -/
theorem Alike.stay {α : Type} (a : α) {text : List Char} {p q : Nat} :
    Alike text p q (.ok a ⟨p, text⟩) (.ok a ⟨q, text⟩) :=
  have split : text = [] ++ text := rfl
  .ok a split

/-- Both runs take the first character. -/
theorem Alike.first {α : Type} (a : α) {c : Char} {rest : List Char} {p q : Nat} :
    Alike (c :: rest) p q (.ok a ⟨p + 1, rest⟩) (.ok a ⟨q + 1, rest⟩) :=
  have split : c :: rest = [c] ++ rest := rfl
  .ok a split

theorem Alike.after {α : Type} {text taken rest : List Char} {p q : Nat}
    {r r' : EStateM.Result ScanError Cursor α} (split : text = taken ++ rest)
    (h : Alike rest (p + taken.length) (q + taken.length) r r') : Alike text p q r r' := by
  cases h with
  | @ok a taken' rest' split' =>
    have hsplit : text = (taken ++ taken') ++ rest' := by rw [split, split', List.append_assoc]
    have hok := Alike.ok (p := p) (q := q) a hsplit
    rwa [List.length_append, ← Nat.add_assoc, ← Nat.add_assoc] at hok
  | error points =>
    have hwhole : Points (taken ++ rest ++ []) p _ := points.of_part
    rw [List.append_nil, ← split] at hwhole
    exact .error hwhole

theorem Alike.bind {α β : Type} {text : List Char} {x y : Scan α} {f g : α → Scan β}
    {p q : Nat} {cursor cursor' : Cursor} (hx : Alike text p q (x cursor) (y cursor'))
    (hf : ∀ a taken rest, text = taken ++ rest →
      Alike text p q (f a ⟨p + taken.length, rest⟩) (g a ⟨q + taken.length, rest⟩)) :
    Alike text p q ((x >>= f) cursor) ((y >>= g) cursor') := by
  change Alike text p q (EStateM.bind x f _) (EStateM.bind y g _)
  rw [EStateM.bind, EStateM.bind]
  generalize x cursor = r at hx
  generalize y cursor' = r' at hx
  cases hx with
  | @ok a taken rest split => exact hf a taken rest split
  | error points => exact .error points

namespace Scan

variable {α β : Type} {text : List Char} {x y : Scan α} {f g : α → Scan β}

/-- Runs of two scans over this text end alike, wherever each of them starts. -/
def AlikeOn (x y : Scan α) (text : List Char) : Prop :=
  ∀ p q, Alike text p q (x ⟨p, text⟩) (y ⟨q, text⟩)

/-- Where the text starts does not matter to this scan. -/
def Steady (x : Scan α) (text : List Char) : Prop := AlikeOn x x text

/-- Over any text of at most this length. -/
def AlikeUpTo (limit : Nat) (x y : Scan α) : Prop :=
  ∀ text, text.length ≤ limit → AlikeOn x y text

theorem AlikeOn.pure (a : α) (text : List Char) : AlikeOn (pure a) (pure a) text :=
  fun _ _ => .stay a

theorem AlikeOn.bind (hx : AlikeOn x y text)
    (hf : ∀ a taken rest, text = taken ++ rest → AlikeOn (f a) (g a) rest) :
    AlikeOn (x >>= f) (y >>= g) text :=
  fun p q => (hx p q).bind fun a taken rest split => (hf a taken rest split _ _).after split

theorem Steady.bind (hx : Steady x text) (hf : ∀ a rest, Steady (f a) rest) :
    Steady (x >>= f) text :=
  AlikeOn.bind hx fun a _ rest _ => hf a rest

/-- What is done next depends on the character ahead. -/
theorem AlikeOn.peek {f g : Option Char → Scan β} (h : AlikeOn (f text.head?) (g text.head?) text) :
    AlikeOn (Scan.peek >>= f) (Scan.peek >>= g) text :=
  h

theorem Steady.peek {f : Option Char → Scan β} (h : Steady (f text.head?) text) :
    Steady (Scan.peek >>= f) text :=
  AlikeOn.peek h

theorem AlikeOn.position {f g : Nat → Scan β}
    (h : ∀ p q, Alike text p q (f p ⟨p, text⟩) (g q ⟨q, text⟩)) :
    AlikeOn (Scan.position >>= f) (Scan.position >>= g) text :=
  h

theorem AlikeOn.rest {f g : List Char → Scan β} (h : AlikeOn (f text) (g text) text) :
    AlikeOn (Scan.rest >>= f) (Scan.rest >>= g) text :=
  h

theorem Steady.pure (a : α) (text : List Char) : Steady (Pure.pure a) text :=
  AlikeOn.pure a text

theorem Steady.fail {problem : ScanProblem} (h : ∀ c ∈ problem.culprit?, text.head? = some c) :
    Steady (Scan.fail problem : Scan α) text := by
  intro p q
  refine .error (Points.at_offset (k := 0) (Nat.zero_le _) fun c hc => ?_)
  rw [← List.head?_eq_getElem?]
  exact h c hc

theorem steady_advance (text : List Char) : Steady advance text := by
  intro p q
  cases text with
  | nil => exact .stay none
  | cons c rest => exact .first (some c)

theorem steady_takeWhile (property : Char → Bool) (text : List Char) :
    Steady (takeWhile property) text :=
  fun _ _ => .ok (text.takeWhile property) List.takeWhile_append_dropWhile.symm

theorem steady_skipBlank (text : List Char) : Steady skipBlank text :=
  (steady_takeWhile Text.isBlank text).bind fun _ rest => Steady.pure () rest

theorem steady_expect (wanted : Char) (text : List Char) : Steady (expect wanted) text := by
  intro p q
  cases text with
  | nil => exact .error (Points.at_offset (k := 0) (Nat.zero_le _) nofun)
  | cons c rest =>
    rw [expect, expect]
    dsimp only
    split
    · exact .first ()
    · exact .error (Points.at_offset (k := 0) (Nat.zero_le _) fun d hd => hd)

theorem AlikeOn.expect {c : Char} {rest : List Char} {f g : Unit → Scan β}
    (h : AlikeOn (f ()) (g ()) rest) :
    AlikeOn (Scan.expect c >>= f) (Scan.expect c >>= g) (c :: rest) := by
  have htake (p : Nat) : Scan.expect c ⟨p, c :: rest⟩ = .ok () ⟨p + [c].length, rest⟩ := by
    rw [Scan.expect]
    exact if_pos (beq_self_eq_true c)
  intro p q
  change Alike _ p q (EStateM.bind _ f _) (EStateM.bind _ g _)
  rw [EStateM.bind, EStateM.bind, htake, htake]
  exact (h _ _).after rfl

/-- An error about all that was read stands where the reading started. -/
theorem AlikeOn.failAt {p q k : Nat} {problem : ScanProblem} {cursor cursor' : Cursor}
    (hk : k ≤ text.length) (hc : problem.culprit? = none) :
    Alike text p q ((Scan.failAt (p + k) problem : Scan α) cursor)
      (Scan.failAt (q + k) problem cursor') :=
  .error (Points.of_nameless hk hc)

/-- The number that was read from `start` on. -/
def numberOf (start : Nat) (digits : List Char) : Scan Nat :=
  match Text.digits? digits with
  | none => Scan.failAt start .expectedNumber
  | some n => if n < Text.wordSize then pure n else Scan.failAt start (.numberTooLarge digits)

theorem steady_number (text : List Char) : Steady number text := by
  intro p q
  change Alike text p q
    (numberOf p _ ⟨p + (text.takeWhile Text.isDigit).length, text.dropWhile Text.isDigit⟩)
    (numberOf q _ ⟨q + (text.takeWhile Text.isDigit).length, text.dropWhile Text.isDigit⟩)
  rw [numberOf, numberOf]
  cases Text.digits? (text.takeWhile Text.isDigit) with
  | none => exact AlikeOn.failAt (k := 0) (Nat.zero_le _) rfl
  | some n =>
    dsimp only
    split
    · exact .ok n List.takeWhile_append_dropWhile.symm
    · exact AlikeOn.failAt (k := 0) (Nat.zero_le _) rfl

end Scan

open Scan

/-! ## References and pieces -/

theorem steady_groupTail (text : List Char) : Steady groupTail text := by
  refine Steady.peek ?_
  split
  · refine (steady_advance text).bind fun _ rest => (steady_skipBlank rest).bind fun _ rest => ?_
    refine (steady_number rest).bind fun group rest => (steady_skipBlank rest).bind fun _ rest => ?_
    exact .pure group rest
  · exact .pure 0 text

theorem steady_referenceTail (text : List Char) : Steady referenceTail text := by
  refine Steady.peek ?_
  split
  · refine (steady_advance text).bind fun _ rest => (steady_skipBlank rest).bind fun _ rest => ?_
    refine (steady_number rest).bind fun level rest => (steady_skipBlank rest).bind fun _ rest => ?_
    refine (steady_groupTail rest).bind fun group rest => ?_
    exact (steady_expect ')' rest).bind fun _ rest => .pure _ rest
  · split
    · exact (steady_number text).bind fun level rest => .pure _ rest
    · exact .pure _ text
  · exact .pure _ text

theorem culprit?_of_misplaced {c : Char} {problem : ScanProblem} (h : misplaced? c = some problem) :
    ∀ d ∈ problem.culprit?, d = c := by
  unfold misplaced? at h
  split at h <;> cases h <;> intro d hd <;> cases hd <;> rfl

theorem steady_piecesWithin (stars : Bool) (stop : Char → Bool) (fuel : Nat)
    (read text : List Char) : Steady (piecesWithin stars stop fuel read) text := by
  induction fuel generalizing read text with
  | zero => exact .pure _ text
  | succ fuel ih =>
    rw [piecesWithin]
    refine Steady.peek ?_
    cases hhead : text.head? with
    | none => exact .pure _ text
    | some c =>
      dsimp only
      split
      · exact .pure _ text
      · split
        · refine (steady_advance text).bind fun _ rest => ?_
          refine (steady_advance rest).bind fun next rest => ?_
          cases next with
          | none => exact .fail nofun
          | some e => exact ih (e :: read) rest
        · split
          · refine (steady_advance text).bind fun _ rest => (ih [] rest).bind fun more rest => ?_
            exact .pure _ rest
          · exact .fail nofun
        · refine (steady_advance text).bind fun _ rest => ?_
          refine (steady_referenceTail rest).bind fun r rest => ?_
          refine (ih [] rest).bind fun more rest => ?_
          exact .pure _ rest
        · split
          · rename_i problem hproblem
            refine .fail fun d hd => ?_
            rw [culprit?_of_misplaced hproblem d hd, hhead]
          · exact (steady_advance text).bind fun _ rest => ih (c :: read) rest

theorem steady_pieces (stars : Bool) (stop : Char → Bool) (text : List Char) :
    Steady (pieces stars stop) text :=
  AlikeOn.rest (steady_piecesWithin stars stop text.length [] text)

/-! ## Groups and names -/

/-- The outcomes of two runs that gather text up to what closes it and put it behind what was read
before, last character first. A failure stands at `start` or at the end of the text. -/
inductive Gathered (closing : List Char) (start position position' : Nat) (read text : List Char) :
    EStateM.Result ScanError Cursor (List Char) → EStateM.Result ScanError Cursor (List Char) → Prop
  | ok {taken rest : List Char} (split : text = taken ++ (closing ++ rest)) :
    Gathered closing start position position' read text
      (.ok (read.reverse ++ taken) ⟨position + (taken ++ closing).length, rest⟩)
      (.ok (read.reverse ++ taken) ⟨position' + (taken ++ closing).length, rest⟩)
  | error {problem problem' : ScanProblem} {error error' : Nat} {cursor cursor' : Cursor}
    (nameless : problem.culprit? = none) (place : error = start ∨ error = position + text.length) :
    Gathered closing start position position' read text (.error ⟨problem, error⟩ cursor)
      (.error ⟨problem', error'⟩ cursor')

section Gathered

variable {closing read text : List Char} {start position position' : Nat}
  {r r' : EStateM.Result ScanError Cursor (List Char)}

/-- The text closes at once. -/
theorem Gathered.closed (closing : List Char) (start position position' : Nat)
    (read rest : List Char) :
    Gathered closing start position position' read (closing ++ rest)
      (.ok read.reverse ⟨position + closing.length, rest⟩)
      (.ok read.reverse ⟨position' + closing.length, rest⟩) := by
  have hsplit : closing ++ rest = [] ++ (closing ++ rest) := rfl
  have hok : Gathered closing start position position' read (closing ++ rest) _ _ := .ok hsplit
  rwa [List.append_nil] at hok

theorem Gathered.cons {c : Char}
    (h : Gathered closing start (position + 1) (position' + 1) (c :: read) text r r') :
    Gathered closing start position position' read (c :: text) r r' := by
  cases h with
  | @ok taken rest split =>
    have hsplit : c :: text = (c :: taken) ++ (closing ++ rest) := congrArg (c :: ·) split
    have hok : Gathered closing start position position' read (c :: text) _ _ := .ok hsplit
    rw [List.reverse_cons, List.append_assoc, Nat.add_assoc, Nat.add_assoc, Nat.add_comm 1]
    exact hok
  | error nameless place =>
    refine .error nameless (place.imp_right fun h => ?_)
    rw [h, List.length_cons, Nat.add_assoc, Nat.add_comm 1]

theorem gathered_parenthesizedTail (start start' depth position position' : Nat)
    (read text : List Char) :
    Gathered [')'] start position position' read text
      (parenthesizedTail start depth position read text)
      (parenthesizedTail start' depth position' read text) := by
  induction depth, position, read, text using parenthesizedTail.induct generalizing position' with
  | case1 depth position read =>
    rw [parenthesizedTail, parenthesizedTail]
    exact .error rfl (.inl rfl)
  | case2 depth position read =>
    rw [parenthesizedTail, parenthesizedTail]
    exact .error rfl (.inr rfl)
  | case3 depth position read c rest ih =>
    rw [parenthesizedTail, parenthesizedTail]
    exact (ih _).cons.cons
  | case4 depth position read rest ih =>
    rw [parenthesizedTail, parenthesizedTail]
    exact (ih _).cons
  | case5 position read rest =>
    rw [parenthesizedTail, parenthesizedTail]
    exact .closed [')'] start position position' read rest
  | case6 depth position read rest ih =>
    rw [parenthesizedTail, parenthesizedTail]
    exact (ih _).cons
  | case7 depth position read c rest hdangling hescape hopen hlast hclose ih =>
    rw [parenthesizedTail, parenthesizedTail]
    · exact (ih _).cons
    all_goals assumption

theorem gathered_bareName (start position position' : Nat) (read text : List Char) :
    Gathered [] start position position' read text (bareName position read text)
      (bareName position' read text) := by
  induction position, read, text using bareName.induct generalizing position' with
  | case1 position read =>
    rw [bareName, bareName]
    exact .closed [] start position position' read []
  | case2 position read =>
    rw [bareName, bareName]
    exact .error rfl (.inr rfl)
  | case3 position read c rest ih =>
    rw [bareName, bareName]
    exact (ih _).cons.cons
  | case4 position read rest =>
    rw [bareName, bareName]
    exact .closed [] start position position' read ('[' :: rest)
  | case5 position read rest =>
    rw [bareName, bareName]
    exact .closed [] start position position' read (']' :: rest)
  | case6 position read c rest hdangling hescape hopen hclose ih =>
    rw [bareName, bareName]
    · exact (ih _).cons
    all_goals assumption

end Gathered

/-! ## Parts -/

/-- The state of a split over a whole text of which `text` is still to be read. -/
structure Split.Over (split : Split) (position : Nat) (whole text : List Char) : Prop where
  part : ∃ before, whole = before ++ (split.part.reverse ++ text) ∧ before.length = split.start
  position : position + text.length = whole.length
  parentheses : ∀ opened ∈ split.parentheses, opened ≤ whole.length
  brackets : ∀ opened ∈ split.brackets, opened ≤ whole.length

namespace Split.Over

variable {split : Split} {position : Nat} {whole rest : List Char} {c : Char}

theorem position_le {text : List Char} (h : split.Over position whole text) :
    position ≤ whole.length := by
  have hposition := h.position
  omega

/-- Taking a character, which may open or close a group. -/
theorem push {parentheses brackets : List Nat} (h : split.Over position whole (c :: rest))
    (hp : ∀ opened ∈ parentheses, opened = position ∨ opened ∈ split.parentheses)
    (hb : ∀ opened ∈ brackets, opened = position ∨ opened ∈ split.brackets) :
    Split.Over ⟨c :: split.part, split.start, parentheses, brackets⟩ (position + 1) whole rest where
  part := by
    obtain ⟨before, hwhole, hstart⟩ := h.part
    refine ⟨before, ?_, hstart⟩
    rw [hwhole]
    simp
  position := by
    rw [← h.position, List.length_cons]
    omega
  parentheses opened ho := (hp opened ho).elim (fun he => he ▸ h.position_le) (h.parentheses opened)
  brackets opened ho := (hb opened ho).elim (fun he => he ▸ h.position_le) (h.brackets opened)

theorem push_same (h : split.Over position whole (c :: rest)) :
    Split.Over { split with part := c :: split.part } (position + 1) whole rest :=
  h.push (fun _ ho => .inr ho) (fun _ ho => .inr ho)

/-- Behind a separator a new part starts. -/
theorem cut (h : split.Over position whole (c :: rest)) :
    Split.Over ⟨[], position + 1, [], []⟩ (position + 1) whole rest where
  part := by
    obtain ⟨before, hwhole, hstart⟩ := h.part
    have hposition := h.position
    refine ⟨before ++ split.part.reverse ++ [c], ?_, ?_⟩
    · rw [hwhole]
      simp
    · rw [hwhole] at hposition
      simp only [List.length_append, List.length_cons, List.length_nil] at hposition ⊢
      omega
  position := by
    rw [← h.position, List.length_cons]
    omega
  parentheses := nofun
  brackets := nofun

end Split.Over

/-- A part of a text, with its offset. -/
def PartOf (whole : List Char) (part : List Char × Nat) : Prop :=
  ∃ before after, whole = before ++ part.1 ++ after ∧ before.length = part.2

/-- The outcome of a split: the parts are parts of the text, and an error stands inside of it and
names no character. -/
def SplitOf (whole : List Char) : Except ScanError (List (List Char × Nat)) → Prop
  | .ok parts => ∀ part ∈ parts, PartOf whole part
  | .error e => e.problem.culprit? = none ∧ e.position ≤ whole.length

theorem Split.Over.splitOf {separator : Char} {split : Split} {position : Nat}
    {whole text : List Char} (h : split.Over position whole text) :
    SplitOf whole (splitFrom separator split position text) := by
  fun_induction splitFrom separator split position text with
  | case1 split position start outer hp =>
    exact ⟨rfl, h.parentheses start (by rw [hp]; exact List.mem_cons_self)⟩
  | case2 split position start outer hb hp =>
    exact ⟨rfl, h.brackets start (by rw [hb]; exact List.mem_cons_self)⟩
  | case3 split position hp hb =>
    obtain ⟨before, hwhole, hstart⟩ := h.part
    intro part hm
    obtain rfl := List.mem_singleton.mp hm
    exact ⟨before, [], by rw [hwhole, List.append_assoc], hstart⟩
  | case4 split position => exact ⟨rfl, h.position_le⟩
  | case5 split position c rest ih => exact ih h.push_same.push_same
  | case6 split position rest ih =>
    exact ih (h.push (fun _ ho => List.mem_cons.mp ho) fun _ ho => .inr ho)
  | case7 split position rest hp => exact ⟨rfl, h.position_le⟩
  | case8 split position rest first outer hp ih =>
    refine ih (h.push (fun opened ho => .inr ?_) fun _ ho => .inr ho)
    rw [hp]
    exact List.mem_cons_of_mem first ho
  | case9 split position rest ih =>
    exact ih (h.push (fun _ ho => .inr ho) fun _ ho => List.mem_cons.mp ho)
  | case10 split position rest hb => exact ⟨rfl, h.position_le⟩
  | case11 split position rest first outer hb ih =>
    refine ih (h.push (fun _ ho => .inr ho) fun opened ho => .inr ?_)
    rw [hb]
    exact List.mem_cons_of_mem first ho
  | case12 split position c rest _ _ _ _ _ _ hcut ih =>
    have hparts := ih h.cut
    cases hrest : splitFrom separator ⟨[], position + 1, [], []⟩ (position + 1) rest with
    | error e =>
      rw [hrest] at hparts
      exact hparts
    | ok parts =>
      rw [hrest] at hparts
      obtain ⟨before, hwhole, hstart⟩ := h.part
      have hfirst : PartOf whole (split.part.reverse, split.start) :=
        ⟨before, c :: rest, by rw [hwhole, List.append_assoc], hstart⟩
      intro part hm
      rcases List.mem_cons.mp hm with rfl | hm
      · exact hfirst
      · exact hparts part hm
  | case13 split position c rest _ _ _ _ _ _ hcut ih => exact ih h.push_same

theorem splitTopLevel_splitOf (separator : Char) (text : List Char) :
    SplitOf text (splitTopLevel text separator) :=
  Split.Over.splitOf
    { part := ⟨[], rfl, rfl⟩, position := Nat.zero_add _, parentheses := nofun, brackets := nofun }

end Reshape.Pattern
