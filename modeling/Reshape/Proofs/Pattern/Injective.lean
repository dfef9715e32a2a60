import Reshape.Proofs.Pattern.Element
/-!
# Canonical forms tell elements apart

Well-formed elements with one canonical form are equal. For most of them that follows from parsing,
which reads them back. Numerals and blanks at the ends of keys are not read back, so constants are
compared by their text, and lookups are read by a scan of canonical forms that trims nothing.
-/
namespace Reshape.Pattern

open Scan

/-- The scan of canonical lookups only, nested at most `depth` deep. -/
def canonicalLookup : (depth : Nat) → Scan Lookup
  | 0 => Scan.fail .afterLookup
  | depth + 1 => do
    Scan.expect '@'
    let inner ← Scan.parenthesized
    let (digits, path) := inner.span Text.isDigit
    let steps ← Scan.ofExcept (stepsWith (canonicalLookup depth) (path.drop 1) 0)
    pure ⟨Text.digitsValue digits, steps⟩

/-- It reads every well-formed lookup. -/
theorem reads_canonicalLookup (depth : Nat) {l : Lookup} (hw : l.WellFormed)
    (hdepth : l.canonical.length ≤ depth) (rest : List Char) :
    Reads (canonicalLookup depth) (l.canonical ++ rest) l rest := by
  induction depth generalizing l rest with
  | zero => cases hdepth
  | succ depth ih =>
    have hread : ∀ step ∈ l.steps, step.ReadBy (canonicalLookup depth) := by
      intro step hs inner hi rest
      have hstep : step.WellFormed := (wellFormedSteps_iff _).mp hw.steps step hs
      have hlength : inner.canonical.length < l.canonical.length := hw.length_lt hs hi
      exact ih (hstep.lookup? inner hi) (by omega) rest
    rw [l.canonical_append]
    refine Reads.bind (reads_expect '@' _) ?_
    refine Reads.bind (l.inside_balanced.reads_parenthesized rest) ?_
    rw [l.span_inside]
    dsimp only
    rw [List.drop_one, List.tail_cons, stepsWith_canonical hw.steps hread, digitsValue_toDigits]
    exact .pure l rest

theorem Lookup.canonical_injective {a b : Lookup} (ha : a.WellFormed) (hb : b.WellFormed)
    (h : a.canonical = b.canonical) : a = b := by
  have hreada : Reads (canonicalLookup a.canonical.length) (a.canonical ++ []) a [] :=
    reads_canonicalLookup _ ha (Nat.le_refl _) []
  have hreadb : Reads (canonicalLookup a.canonical.length) (a.canonical ++ []) b [] := by
    rw [h]
    exact reads_canonicalLookup _ hb (Nat.le_refl _) []
  exact (hreada.unique hreadb).1

theorem escape_injective {a b : List Char} (h : escape a = escape b) : a = b := by
  rw [← unescape_escape a, ← unescape_escape b, h]

/-- Where an escaped text ends at a star or at the end, it tells itself and what follows. -/
theorem escape_append_inj {a b x y : List Char} (hx : ∀ c ∈ x.head?, c = '*')
    (hy : ∀ c ∈ y.head?, c = '*') (h : escape a ++ x = escape b ++ y) : a = b ∧ x = y := by
  have hstart (c : Char) (text rest : List Char) :
      ∃ d tail, escape (c :: text) ++ rest = d :: tail ∧ d ≠ '*' := by
    rw [escape]
    split
    · exact ⟨'\\', _, rfl, by decide⟩
    · rename_i hc
      refine ⟨c, _, rfl, ?_⟩
      rintro rfl
      exact hc (by decide)
  induction a generalizing b with
  | nil =>
    cases b with
    | nil => exact ⟨rfl, h⟩
    | cons c text =>
      obtain ⟨d, tail, he, hd⟩ := hstart c text y
      have hhead : x = d :: tail := h.trans he
      exact absurd (hx d (by rw [hhead]; rfl)) hd
  | cons c text ih =>
    cases b with
    | nil =>
      obtain ⟨d, tail, he, hd⟩ := hstart c text x
      have hhead : y = d :: tail := h.symm.trans he
      exact absurd (hy d (by rw [hhead]; rfl)) hd
    | cons c' text' =>
      rw [escape, escape] at h
      have hcons : c = c' ∧ escape text ++ x = escape text' ++ y := by
        split at h <;> split at h <;> simp only [List.cons_append, List.cons.injEq] at h
        · exact h.2
        · rename_i hc hc'
          rw [← h.1] at hc'
          exact absurd (by decide) hc'
        · rename_i hc hc'
          rw [h.1] at hc
          exact absurd (by decide) hc
        · exact h
      obtain ⟨rfl, hrest⟩ := hcons
      obtain ⟨rfl, hxy⟩ := ih hrest
      exact ⟨rfl, hxy⟩

theorem head_starText (parts : List (List Char)) :
    ∀ c ∈ (parts.flatMap fun part => '*' :: escape part).head?, c = '*' := by
  cases parts with
  | nil => nofun
  | cons part rest =>
    intro c hc
    exact (Option.mem_some.mp hc).symm

theorem starText_injective {a b : List (List Char)}
    (h : (a.flatMap fun part => '*' :: escape part) = b.flatMap fun part => '*' :: escape part) :
    a = b := by
  induction a generalizing b with
  | nil =>
    cases b with
    | nil => rfl
    | cons part rest => cases h
  | cons part rest ih =>
    cases b with
    | nil => cases h
    | cons part' rest' =>
      rw [List.flatMap_cons, List.flatMap_cons, List.cons_append, List.cons_append] at h
      obtain ⟨rfl, hrest⟩ :=
        escape_append_inj (head_starText rest) (head_starText rest') (List.cons.inj h).2
      rw [ih hrest]

theorem Glob.canonical_injective {a b : Glob} (h : a.canonical = b.canonical) : a = b := by
  obtain ⟨first, others⟩ := a
  obtain ⟨first', others'⟩ := b
  obtain ⟨rfl, hothers⟩ := escape_append_inj (head_starText others) (head_starText others') h
  rw [starText_injective hothers]

/-- Comparing the canonical forms of globs or their parts comes to the same. -/
theorem Glob.eq_of_beq {a b : Glob} (h : (a == b) = true) : a = b := by
  change Glob.beq a b = true at h
  rw [Glob.beq] at h
  split at h
  · exact of_decide_eq_true h
  · exact Glob.canonical_injective (LawfulBEq.eq_of_beq h)

namespace Element

theorem canonicalChars_eq {a b : Element} (h : a.canonical = b.canonical) :
    a.canonicalChars = b.canonicalChars := by
  have hchars := congrArg String.toList h
  rwa [canonical, canonical, String.toList_ofList, String.toList_ofList] at hchars

/-- An element that is not special is written in normal pieces. -/
theorem exists_pieces {e : Element} (hw : e.WellFormed) (hs : e.isSpecial = false) :
    ∃ ps, NormalPieces ps ∧ e.canonicalChars = ps.flatMap Piece.canonical := by
  cases e with
  | literal text =>
    refine ⟨(Glob.mk text.toList []).pieces, Glob.pieces_normal _, ?_⟩
    rw [← Glob.canonical_eq, Glob.canonical, List.flatMap_nil, List.append_nil]
    rfl
  | any => exact ⟨[.star], trivial, rfl⟩
  | glob g => exact ⟨g.pieces, g.pieces_normal, g.canonical_eq⟩
  | reference t => exact ⟨_, hw.1.pieces, t.canonical_eq⟩
  | matchedKey | value | count | constant | lookup => cases hs

/-- It does not start like a constant or a lookup. -/
theorem canonicalChars_ne_cons {e : Element} (hw : e.WellFormed) (hs : e.isSpecial = false)
    {c : Char} (hc : c = '#' ∨ c = '@') (tail : List Char) : e.canonicalChars ≠ c :: tail := by
  intro he
  obtain ⟨ps, hps, hcanonical⟩ := exists_pieces hw hs
  have hhead : c ∈ (ps.flatMap Piece.canonical).head? := by
    rw [← hcanonical, he]
    rfl
  have hspecial := hps.head_canonical hhead
  rcases hc with rfl | rfl <;> revert hspecial <;> decide

theorem eq_constant {text : String} {e : Element} (hw : e.WellFormed)
    (h : e.canonical = (Element.constant text).canonical) : e = .constant text := by
  have hchars : e.canonicalChars = '#' :: escape text.toList := canonicalChars_eq h
  cases e with
  | literal | any | glob | reference =>
    exact absurd hchars (canonicalChars_ne_cons hw rfl (.inl rfl) _)
  | matchedKey | value | lookup => cases hchars
  | count up =>
    exact absurd (congrArg List.head? (List.cons.inj hchars).2).symm (head_escape_ne _)
  | constant other =>
    have htext : other.toList = text.toList := escape_injective (List.cons.inj hchars).2
    rw [String.toList_inj.mp htext]

theorem eq_lookup {l : Lookup} (hl : l.WellFormed) {e : Element} (hw : e.WellFormed)
    (h : e.canonical = (Element.lookup l).canonical) : e = .lookup l := by
  have hchars : e.canonicalChars = l.canonical := canonicalChars_eq h
  cases e with
  | literal | any | glob | reference =>
    exact absurd hchars (canonicalChars_ne_cons hw rfl (.inr rfl) _)
  | matchedKey | value | count | constant => cases hchars
  | lookup other => rw [Lookup.canonical_injective hw hl hchars]

/-- Two elements with one canonical form are the same. -/
theorem canonical_injective {a b : Element} (ha : a.WellFormed) (hb : b.WellFormed)
    (h : a.canonical = b.canonical) : a = b := by
  have hparse (hna : a.isNumeral = false) (hta : a.Tight) (hnb : b.isNumeral = false)
      (htb : b.Tight) : a = b := by
    have hreada : parseKey b.canonical = .ok a := h ▸ parseKey_canonical ha hna hta
    exact Except.ok.inj (hreada.symm.trans (parseKey_canonical hb hnb htb))
  cases b with
  | constant text => exact eq_constant ha h
  | lookup l => exact eq_lookup hb ha h
  | _ =>
    cases a with
    | constant text => exact (eq_constant hb h.symm).symm
    | lookup l => exact (eq_lookup ha hb h.symm).symm
    | _ => exact hparse rfl trivial rfl trivial

end Element

end Reshape.Pattern
