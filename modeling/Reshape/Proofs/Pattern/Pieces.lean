import Reshape.Proofs.Pattern.Scan
/-!
# Keys in pieces

A key is scanned into texts, stars and references. Pieces that a scan gives are normal: no text is
empty, no two texts are neighbours and references are in range. Normal pieces are read back from
their canonical form up to a stop character, so templates are too.
-/
namespace Reshape.Pattern

open Scan

/-! ## Escaped texts -/

theorem misplaced?_eq_none {c : Char} (h : isSpecialChar c = false) : misplaced? c = none := by
  unfold misplaced?
  split
  case h_9 => rfl
  -- Every character that is misplaced is special.
  all_goals cases h

section Steps

variable {stars : Bool} {stop : Char → Bool} {taken text rest : List Char} {ps : List Piece}

/-- With `taken` in hand the pieces of a text are read off it, given fuel for its length. -/
def ReadsPieces (stars : Bool) (stop : Char → Bool) (taken text : List Char) (ps : List Piece)
    (rest : List Char) : Prop :=
  ∀ fuel, text.length ≤ fuel → Reads (piecesWithin stars stop fuel taken) text ps rest

theorem ReadsPieces.done (h : ∀ c ∈ text.head?, stop c = true) :
    ReadsPieces stars stop taken text (flushText taken []) text := by
  intro fuel _
  cases fuel with
  | zero => exact .pure _ _
  | succ fuel =>
    refine Reads.peek ?_
    cases text with
    | nil => exact .pure _ _
    | cons c text =>
      dsimp only [List.head?_cons]
      rw [if_pos (h c rfl)]
      exact .pure _ _

theorem ReadsPieces.char {c : Char} (hc : isSpecialChar c = false) (hs : stop c = false)
    (h : ReadsPieces stars stop (c :: taken) text ps rest) :
    ReadsPieces stars stop taken (c :: text) ps rest := by
  intro fuel hf
  obtain ⟨fuel, rfl⟩ := Nat.exists_eq_add_one_of_ne_zero (Nat.ne_of_gt (Nat.zero_lt_of_lt hf))
  refine Reads.peek ?_
  dsimp only [List.head?_cons]
  rw [if_neg (ne_true_of_eq_false hs)]
  split
  · cases hc
  · cases hc
  · cases hc
  · rw [misplaced?_eq_none hc]
    exact Reads.bind (reads_advance c text) (h fuel (Nat.le_of_succ_le_succ hf))

theorem ReadsPieces.escaped {c : Char} (hs : stop '\\' = false)
    (h : ReadsPieces stars stop (c :: taken) text ps rest) :
    ReadsPieces stars stop taken ('\\' :: c :: text) ps rest := by
  intro fuel hf
  obtain ⟨fuel, rfl⟩ := Nat.exists_eq_add_one_of_ne_zero (Nat.ne_of_gt (Nat.zero_lt_of_lt hf))
  rw [List.length_cons, List.length_cons] at hf
  refine Reads.peek ?_
  dsimp only [List.head?_cons]
  rw [if_neg (ne_true_of_eq_false hs)]
  refine Reads.bind (reads_advance '\\' (c :: text)) ?_
  exact Reads.bind (reads_advance c text) (h fuel (by omega))

theorem ReadsPieces.star (hs : stop '*' = false) (h : ReadsPieces true stop [] text ps rest) :
    ReadsPieces true stop taken ('*' :: text) (flushText taken (.star :: ps)) rest := by
  intro fuel hf
  obtain ⟨fuel, rfl⟩ := Nat.exists_eq_add_one_of_ne_zero (Nat.ne_of_gt (Nat.zero_lt_of_lt hf))
  refine Reads.peek ?_
  dsimp only [List.head?_cons]
  rw [if_neg (ne_true_of_eq_false hs)]
  refine Reads.bind (reads_advance '*' text) ?_
  exact Reads.bind (h fuel (Nat.le_of_succ_le_succ hf)) (.pure _ _)

theorem ReadsPieces.reference {r : Reference} (hr : r.InRange) (hs : stop '&' = false)
    (h : ReadsPieces stars stop [] text ps rest) :
    ReadsPieces stars stop taken (r.canonical '&' ++ text)
      (flushText taken (.reference r :: ps)) rest := by
  intro fuel hf
  rw [Reference.canonical_eq, List.cons_append] at hf ⊢
  obtain ⟨fuel, rfl⟩ := Nat.exists_eq_add_one_of_ne_zero (Nat.ne_of_gt (Nat.zero_lt_of_lt hf))
  rw [List.length_cons, List.length_append] at hf
  refine Reads.peek ?_
  dsimp only [List.head?_cons]
  rw [if_neg (ne_true_of_eq_false hs)]
  refine Reads.bind (reads_advance '&' (r.tailCanonical ++ text)) ?_
  refine Reads.bind (reads_referenceTail hr text) ?_
  exact Reads.bind (h fuel (by omega)) (.pure _ _)

/-- An escaped text is taken character by character. -/
theorem ReadsPieces.escape (hs : ∀ c, stop c = true → isSpecialChar c = true)
    (hb : stop '\\' = false) {key : List Char}
    (h : ReadsPieces stars stop (key.reverse ++ taken) text ps rest) :
    ReadsPieces stars stop taken (escape key ++ text) ps rest := by
  induction key generalizing taken with
  | nil => exact h
  | cons c key ih =>
    rw [List.reverse_cons, List.append_assoc] at h
    rw [Pattern.escape]
    cases hc : isSpecialChar c with
    | true => exact .escaped hb (ih h)
    | false =>
      have hstop : stop c = false := by
        cases hstop : stop c with
        | false => rfl
        | true => rw [hs c hstop] at hc; cases hc
      exact .char hc hstop (ih h)

end Steps

/-! ## Normal pieces -/

/-- The first piece is a text. -/
def startsWithText : List Piece → Bool
  | .text _ :: _ => true
  | _ => false

/-- No text is empty, no two texts are neighbours, and references are in range. -/
def NormalPieces : List Piece → Prop
  | [] => True
  | .text t :: rest => t ≠ "" ∧ startsWithText rest = false ∧ NormalPieces rest
  | .star :: rest => NormalPieces rest
  | .reference r :: rest => r.InRange ∧ NormalPieces rest

/-- A piece as it stands in a canonical form. -/
def Piece.canonical : Piece → List Char
  | .text t => escape t.toList
  | .star => ['*']
  | .reference r => r.canonical '&'

theorem flushText_reverse {text : String} (h : text ≠ "") (ps : List Piece) :
    flushText (text.toList.reverse ++ []) ps = .text text :: ps := by
  have hne : (text.toList.reverse ++ []).isEmpty = false := by
    rw [List.append_nil, List.isEmpty_reverse, List.isEmpty_eq_false_iff]
    exact fun he => h (String.toList_eq_nil_iff.mp he)
  rw [flushText, hne, List.append_nil, List.reverse_reverse, String.ofList_toList]
  rfl

section Normal

variable {stars : Bool} {stop : Char → Bool} {ps : List Piece}

theorem NormalPieces.text_ne_empty (h : NormalPieces ps) {t : String} (ht : .text t ∈ ps) :
    t ≠ "" := by
  induction ps with
  | nil => cases ht
  | cons p ps ih =>
    cases ht with
    | head => exact h.1
    | tail _ ht =>
      cases p with
      | text _ => exact ih h.2.2 ht
      | star => exact ih h ht
      | reference _ => exact ih h.2 ht

theorem NormalPieces.flushText (h : NormalPieces ps) (hs : startsWithText ps = false)
    (taken : List Char) : NormalPieces (flushText taken ps) := by
  cases taken with
  | nil => exact h
  | cons c taken =>
    refine ⟨fun he => ?_, hs, h⟩
    rw [String.ofList_eq_empty_iff, List.reverse_eq_nil_iff] at he
    cases he

/-- Normal pieces are read back from their canonical form, up to the end or a stop character. With a
text in hand the first piece must not be one. -/
theorem NormalPieces.readsPieces (hs : ∀ c, stop c = true → isSpecialChar c = true)
    (hb : stop '\\' = false) (hstar : stop '*' = false) (hamp : stop '&' = false)
    (h : NormalPieces ps) (hstars : stars = true ∨ .star ∉ ps) {rest : List Char}
    (hr : ∀ c ∈ rest.head?, stop c = true) :
    ∀ {taken : List Char}, (startsWithText ps = true → taken = []) →
      ReadsPieces stars stop taken (ps.flatMap Piece.canonical ++ rest)
        (Pattern.flushText taken ps) rest := by
  induction ps with
  | nil => exact fun _ => .done hr
  | cons p ps ih =>
    intro taken htaken
    have hstars' : stars = true ∨ .star ∉ ps :=
      hstars.imp_right fun hm hps => hm (List.mem_cons_of_mem p hps)
    rw [List.flatMap_cons, List.append_assoc]
    cases p with
    | text t =>
      obtain rfl := htaken rfl
      obtain ⟨hne, hnext, hps⟩ := h
      refine .escape hs hb ?_
      have hread : ReadsPieces stars stop (t.toList.reverse ++ []) _ _ rest :=
        ih hps hstars' fun he => by rw [hnext] at he; cases he
      rw [flushText_reverse hne] at hread
      exact hread
    | star =>
      have htrue : stars = true := hstars.resolve_right fun hm => hm List.mem_cons_self
      subst htrue
      exact .star hstar (ih h hstars' fun _ => rfl)
    | reference r => exact .reference h.1 hamp (ih h.2 hstars' fun _ => rfl)

theorem NormalPieces.reads (hs : ∀ c, stop c = true → isSpecialChar c = true)
    (hb : stop '\\' = false) (hstar : stop '*' = false) (hamp : stop '&' = false)
    (h : NormalPieces ps) (hstars : stars = true ∨ .star ∉ ps) {rest : List Char}
    (hr : ∀ c ∈ rest.head?, stop c = true) :
    Reads (pieces stars stop) (ps.flatMap Piece.canonical ++ rest) ps rest :=
  Reads.bind (reads_rest _)
    (h.readsPieces hs hb hstar hamp hstars hr (fun _ => rfl) _ (Nat.le_refl _))

/-- An escaped text starts with a backslash or with a character that needs none. -/
theorem head_escape {text : List Char} {c : Char} (h : c ∈ (escape text).head?) :
    c = '\\' ∨ isSpecialChar c = false ∧ text.head? = some c := by
  cases text with
  | nil => cases h
  | cons d text =>
    rw [escape] at h
    split at h
    · exact .inl (Option.some.inj h).symm
    · rename_i hd
      obtain rfl := Option.some.inj h
      exact .inr ⟨Bool.eq_false_iff.mpr hd, rfl⟩

theorem escape_ne_nil {text : List Char} (h : text ≠ []) : escape text ≠ [] := by
  intro he
  have hu := unescape_escape text
  rw [he] at hu
  exact h hu.symm

theorem NormalPieces.canonical_ne_nil (h : NormalPieces ps) (hne : ps ≠ []) :
    ps.flatMap Piece.canonical ≠ [] := by
  obtain ⟨p, ps, rfl⟩ := List.exists_cons_of_ne_nil hne
  rw [List.flatMap_cons]
  refine List.append_ne_nil_of_left_ne_nil ?_ _
  cases p with
  | text t => exact escape_ne_nil fun he => h.1 (String.toList_eq_nil_iff.mp he)
  | star | reference r => exact List.cons_ne_nil _ _

/-- A canonical form starts with no other special character. -/
theorem NormalPieces.head_canonical (h : NormalPieces ps) {c : Char}
    (hc : c ∈ (ps.flatMap Piece.canonical).head?) :
    c = '\\' ∨ c = '*' ∨ c = '&' ∨ isSpecialChar c = false := by
  cases ps with
  | nil => cases hc
  | cons p ps =>
    rw [List.flatMap_cons] at hc
    cases p with
    | text t =>
      obtain ⟨d, more, hd⟩ := List.exists_cons_of_ne_nil
        (escape_ne_nil fun he => h.1 (String.toList_eq_nil_iff.mp he))
      have hhead : c ∈ (escape t.toList).head? := by
        rw [Piece.canonical, hd] at hc
        rw [hd]
        exact hc
      rcases head_escape hhead with rfl | ⟨hc, -⟩
      · exact .inl rfl
      · exact .inr (.inr (.inr hc))
    | star => exact .inr (.inl (Option.some.inj hc).symm)
    | reference r => exact .inr (.inr (.inl (Option.some.inj hc).symm))

/-- What a scan for pieces may give: normal pieces, with stars only where they are allowed. -/
structure Scanned (stars : Bool) (ps : List Piece) : Prop where
  normal : NormalPieces ps
  star_allowed : stars = true ∨ .star ∉ ps

theorem Scanned.flushText (h : Scanned stars ps) (hs : startsWithText ps = false)
    (taken : List Char) : Scanned stars (Pattern.flushText taken ps) := by
  refine ⟨h.normal.flushText hs taken, h.star_allowed.imp_right fun hm hps => hm ?_⟩
  cases taken with
  | nil => exact hps
  | cons c taken => exact (List.mem_cons.mp hps).resolve_left nofun

theorem Scanned.nil (stars : Bool) : Scanned stars [] := ⟨trivial, .inr nofun⟩

theorem piecesWithin_scanned (fuel : Nat) (taken : List Char) :
    Ensures (piecesWithin stars stop fuel taken) (Scanned stars) := by
  induction fuel generalizing taken with
  | zero => exact .pure ((Scanned.nil stars).flushText rfl taken)
  | succ fuel ih =>
    refine Ensures.then fun next => ?_
    cases next with
    | none => exact .pure ((Scanned.nil stars).flushText rfl taken)
    | some c =>
      dsimp only
      split
      · exact .pure ((Scanned.nil stars).flushText rfl taken)
      · split
        · -- A backslash.
          refine Ensures.then fun _ => Ensures.then fun next => ?_
          cases next with
          | none => exact .fail _
          | some e => exact ih (e :: taken)
        · -- A star.
          split
          · refine Ensures.then fun _ => Ensures.bind (ih []) fun ps hps => ?_
            have hstar : Scanned stars (.star :: ps) := ⟨hps.normal, .inl ‹_›⟩
            exact .pure (hstar.flushText rfl taken)
          · exact .fail _
        · -- A reference.
          refine Ensures.then fun _ => Ensures.bind referenceTail_inRange fun r hr => ?_
          refine Ensures.bind (ih []) fun ps hps => ?_
          have hreference : Scanned stars (.reference r :: ps) :=
            ⟨⟨hr, hps.normal⟩, hps.star_allowed.imp_right fun hm hs =>
              hm ((List.mem_cons.mp hs).resolve_left nofun)⟩
          exact .pure (hreference.flushText rfl taken)
        · split
          · exact .fail _
          · exact Ensures.then fun _ => ih _

theorem pieces_scanned : Ensures (pieces stars stop) (Scanned stars) :=
  Ensures.then fun text => piecesWithin_scanned text.length []

theorem flushText_ne_nil {taken : List Char} (h : taken ≠ [] ∨ ps ≠ []) :
    Pattern.flushText taken ps ≠ [] := by
  cases taken with
  | nil => exact h.resolve_left (absurd rfl)
  | cons c taken => exact List.cons_ne_nil _ _

/-- With a text in hand, or one to be read before the next stop character, there are pieces. -/
theorem piecesWithin_ne_nil (fuel : Nat) (taken : List Char) {cursor cursor' : Cursor}
    (hc : taken ≠ [] ∨ fuel ≠ 0 ∧ ∃ c ∈ cursor.rest.head?, stop c = false)
    (h : piecesWithin stars stop fuel taken cursor = .ok ps cursor') : ps ≠ [] := by
  induction fuel generalizing taken cursor with
  | zero =>
    obtain ⟨rfl, -⟩ := EStateM.Result.ok.inj h
    exact flushText_ne_nil (.inl (hc.resolve_right fun hc => hc.1 rfl))
  | succ fuel ih =>
    obtain ⟨next, _, hnext, h⟩ := bind_eq_ok.mp h
    obtain ⟨rfl, rfl⟩ := EStateM.Result.ok.inj hnext
    -- Every round that does not end the scan adds a piece or takes a character into the text.
    cases hhead : cursor.rest.head? with
    | none =>
      rw [hhead] at h hc
      obtain ⟨rfl, -⟩ := EStateM.Result.ok.inj h
      exact flushText_ne_nil (.inl (hc.resolve_right fun ⟨_, _, hc, _⟩ => nomatch hc))
    | some c =>
      rw [hhead] at h hc
      dsimp only at h
      split at h
      · rename_i hstop
        obtain ⟨rfl, -⟩ := EStateM.Result.ok.inj h
        refine flushText_ne_nil (.inl (hc.resolve_right fun ⟨_, d, hd, hds⟩ => ?_))
        obtain rfl := Option.some.inj hd
        rw [hstop] at hds
        cases hds
      · split at h
        · obtain ⟨_, _, -, h⟩ := bind_eq_ok.mp h
          obtain ⟨_, _, -, h⟩ := bind_eq_ok.mp h
          split at h
          · exact ih (_ :: taken) (.inl (List.cons_ne_nil _ _)) h
          · cases h
        · split at h
          · obtain ⟨_, _, -, h⟩ := bind_eq_ok.mp h
            obtain ⟨more, _, -, h⟩ := bind_eq_ok.mp h
            obtain ⟨rfl, -⟩ := EStateM.Result.ok.inj h
            exact flushText_ne_nil (.inr (List.cons_ne_nil _ more))
          · cases h
        · obtain ⟨_, _, -, h⟩ := bind_eq_ok.mp h
          obtain ⟨_, _, -, h⟩ := bind_eq_ok.mp h
          obtain ⟨more, _, -, h⟩ := bind_eq_ok.mp h
          obtain ⟨rfl, -⟩ := EStateM.Result.ok.inj h
          exact flushText_ne_nil (.inr (List.cons_ne_nil _ more))
        · cases hm : misplaced? c with
          | some problem => rw [hm] at h; cases h
          | none =>
            rw [hm] at h
            obtain ⟨_, _, -, h⟩ := bind_eq_ok.mp h
            exact ih (c :: taken) (.inl (List.cons_ne_nil _ _)) h

theorem pieces_ne_nil {cursor cursor' : Cursor} (hc : ∃ c ∈ cursor.rest.head?, stop c = false)
    (h : pieces stars stop cursor = .ok ps cursor') : ps ≠ [] := by
  obtain ⟨text, _, ht, h⟩ := bind_eq_ok.mp h
  obtain ⟨rfl, rfl⟩ := EStateM.Result.ok.inj ht
  refine piecesWithin_ne_nil _ [] (.inr ⟨?_, hc⟩) h
  obtain ⟨c, hc, -⟩ := hc
  intro hnil
  rw [List.length_eq_zero_iff.mp hnil] at hc
  cases hc

end Normal

/-! ## Templates -/

def Segment.piece : Segment → Piece
  | .text t => .text t
  | .reference r => .reference r

/-- A template that a scan can give: its segments are normal pieces, and there are some. -/
structure Template.Normal (t : Template) : Prop where
  ne_nil : t.segments ≠ []
  pieces : NormalPieces (t.segments.map Segment.piece)

namespace Template

theorem canonical_eq (t : Template) :
    t.canonical = (t.segments.map Segment.piece).flatMap Piece.canonical := by
  rw [canonical, List.flatMap_map]
  congr 1
  funext segment
  cases segment <;> rfl

theorem Normal.canonical_ne_nil {t : Template} (h : t.Normal) : t.canonical ≠ [] := by
  rw [canonical_eq]
  exact h.pieces.canonical_ne_nil fun he => h.ne_nil (List.map_eq_nil_iff.mp he)

theorem Normal.head_canonical {t : Template} (h : t.Normal) {c : Char}
    (hc : c ∈ t.canonical.head?) : c = '\\' ∨ c = '*' ∨ c = '&' ∨ isSpecialChar c = false :=
  h.pieces.head_canonical (t.canonical_eq ▸ hc)

theorem star_not_mem (segments : List Segment) : .star ∉ segments.map Segment.piece := by
  intro h
  obtain ⟨segment, -, h⟩ := List.mem_map.mp h
  cases segment <;> cases h

/-- Pieces without stars are the pieces of segments. -/
theorem exists_segments {ps : List Piece} (h : .star ∉ ps) :
    ∃ segments : List Segment, ps = segments.map Segment.piece := by
  induction ps with
  | nil => exact ⟨[], rfl⟩
  | cons p ps ih =>
    obtain ⟨segments, rfl⟩ := ih fun hm => h (List.mem_cons_of_mem p hm)
    cases p with
    | text t => exact ⟨.text t :: segments, rfl⟩
    | star => exact absurd List.mem_cons_self h
    | reference r => exact ⟨.reference r :: segments, rfl⟩

theorem mergeSegments_normal {segments : List Segment}
    (h : NormalPieces (segments.map Segment.piece)) : mergeSegments segments = segments := by
  induction segments with
  | nil => rfl
  | cons segment segments ih =>
    cases segment with
    | text t =>
      obtain ⟨hne, hnext, hrest⟩ := h
      have hempty : ¬ t.isEmpty = true := fun he => hne (String.isEmpty_iff.mp he)
      rw [mergeSegments, ih hrest]
      split
      · cases hnext
      · rw [if_neg hempty]
    | reference r => rw [mergeSegments, ih h.2]

theorem ofPieces_normal {segments : List Segment}
    (h : NormalPieces (segments.map Segment.piece)) :
    Template.ofPieces (segments.map Segment.piece) = ⟨segments⟩ := by
  have hsegments : Template.ofPieces (segments.map Segment.piece) = .ofSegments segments := by
    refine congrArg ofSegments ?_
    clear h
    induction segments with
    | nil => rfl
    | cons segment rest ih => cases segment <;> exact congrArg (_ :: ·) ih
  rw [hsegments, ofSegments, mergeSegments_normal h]

theorem literal_eq {text : String} (h : text ≠ "") : literal text = ⟨[.text text]⟩ := by
  have hsegments : NormalPieces ([.text text].map Segment.piece) := ⟨h, rfl, trivial⟩
  rw [literal, ofSegments, mergeSegments_normal hsegments]

theorem literal_normal {text : String} (h : text ≠ "") : (literal text).Normal := by
  rw [literal_eq h]
  exact ⟨List.cons_ne_nil _ _, h, rfl, trivial⟩

theorem canonical_literal {text : String} (h : text ≠ "") :
    (literal text).canonical = escape text.toList := by
  rw [literal_eq h, canonical, List.flatMap_singleton, segmentCanonical]

/-- The template of pieces that a scan without stars gives. -/
theorem normal_of_scanned {ps : List Piece} (h : Scanned false ps) (hne : ps ≠ []) :
    (Template.ofPieces ps).Normal := by
  obtain ⟨segments, rfl⟩ := exists_segments (h.star_allowed.resolve_left Bool.false_ne_true)
  rw [ofPieces_normal h.normal]
  exact ⟨fun he => hne (List.map_eq_nil_iff.mpr he), h.normal⟩

end Template
end Reshape.Pattern
