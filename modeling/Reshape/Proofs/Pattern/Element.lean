import Reshape.Pattern.Grammar
import Reshape.Proofs.Pattern.Lookup
/-!
# Reading keys back

Every key that is parsed gives a well-formed element. A well-formed element is parsed back from its
canonical form, with two exceptions: a constant whose text is a numeral is taken for a count, and
the path of a lookup is trimmed.
-/
namespace Reshape.Pattern

open Scan

deriving instance DecidableEq for Element

/-! ## Well-formed elements -/

/-- A wildcard pattern that parsing can give: no two stars are neighbours, and it is not one star
alone. -/
structure Glob.WellFormed (g : Glob) : Prop where
  star : g.others ≠ []
  inner : ∀ part ∈ g.others.dropLast, part ≠ []
  not_any : ¬ (g.first = [] ∧ g.others = [[]])

/-- An element that parsing can give. -/
def Element.WellFormed : Element → Prop
  | .literal _ => True
  | .any => True
  | .glob g => g.WellFormed
  | .reference t => t.Normal ∧ t.hasReferences = true
  | .matchedKey r => r.InRange
  | .value => True
  | .count up => up < Text.wordSize
  | .constant _ => True
  | .lookup l => l.WellFormed

/-! ## Wildcards -/

/-- The pieces from the first star on. -/
def starPieces : List (List Char) → List Piece
  | [] => []
  | part :: parts => .star :: flushText part.reverse (starPieces parts)

/-- The pieces of literal text with stars in it. -/
def Glob.pieces (g : Glob) : List Piece := flushText g.first.reverse (starPieces g.others)

@[simp] theorem startsWithText_starPieces (parts : List (List Char)) :
    startsWithText (starPieces parts) = false := by
  cases parts <;> rfl

theorem flatMap_canonical_flushText (part : List Char) (ps : List Piece) :
    (flushText part.reverse ps).flatMap Piece.canonical =
      escape part ++ ps.flatMap Piece.canonical := by
  cases part with
  | nil => rfl
  | cons c part =>
    have hne : (c :: part).reverse.isEmpty = false := by simp
    rw [flushText, hne, if_neg Bool.false_ne_true, List.flatMap_cons, Piece.canonical,
      String.toList_ofList, List.reverse_reverse]

theorem starPieces_normal (parts : List (List Char)) : NormalPieces (starPieces parts) := by
  induction parts with
  | nil => trivial
  | cons part parts ih => exact ih.flushText (startsWithText_starPieces parts) part.reverse

theorem Glob.pieces_normal (g : Glob) : NormalPieces g.pieces :=
  (starPieces_normal g.others).flushText (startsWithText_starPieces g.others) g.first.reverse

theorem starPieces_canonical (parts : List (List Char)) :
    (starPieces parts).flatMap Piece.canonical = parts.flatMap fun part => '*' :: escape part := by
  induction parts with
  | nil => rfl
  | cons part parts ih =>
    rw [starPieces, List.flatMap_cons, flatMap_canonical_flushText, ih]
    rfl

theorem Glob.canonical_eq (g : Glob) : g.canonical = g.pieces.flatMap Piece.canonical := by
  rw [Glob.canonical, Glob.pieces, flatMap_canonical_flushText, starPieces_canonical]

theorem starParts_flushText (inner : Bool) (part more : List Char) (ps : List Piece) :
    starParts inner part (flushText more.reverse ps) = starParts inner (part ++ more) ps := by
  cases more with
  | nil => rw [List.append_nil]; rfl
  | cons c more =>
    have hne : (c :: more).reverse.isEmpty = false := by simp
    rw [flushText, hne, if_neg Bool.false_ne_true, starParts, String.toList_ofList,
      List.reverse_reverse]

/-- The parts are read back from the stars, if those between two stars are not empty. -/
theorem starParts_starPieces {inner : Bool} {part : List Char} {parts : List (List Char)}
    (hpart : inner = true → parts ≠ [] → part ≠ []) (hparts : ∀ p ∈ parts.dropLast, p ≠ []) :
    starParts inner part (starPieces parts) = some (part :: parts) := by
  induction parts generalizing inner part with
  | nil => rfl
  | cons next parts ih =>
    have hkeep : ¬ (inner && part.isEmpty) = true := by
      intro h
      obtain ⟨hinner, hempty⟩ := Bool.and_eq_true_iff.mp h
      exact hpart hinner (List.cons_ne_nil _ _) (List.isEmpty_iff.mp hempty)
    have hnext : starParts true next (starPieces parts) = some (next :: parts) := by
      cases parts with
      | nil => rfl
      | cons _ _ =>
        obtain ⟨hne, hmore⟩ := List.forall_mem_cons.mp hparts
        exact ih (fun _ _ => hne) hmore
    rw [starPieces, starParts, if_neg hkeep, starParts_flushText, List.nil_append, hnext]
    rfl

/-- Parts that are found have no empty one between two stars. -/
theorem starParts_eq_some {inner : Bool} {part : List Char} {ps : List Piece}
    {parts : List (List Char)} (h : starParts inner part ps = some parts) :
    ∃ first others, parts = first :: others ∧ (inner = true → others ≠ [] → first ≠ []) ∧
      ∀ p ∈ others.dropLast, p ≠ [] := by
  induction ps generalizing inner part parts with
  | nil =>
    obtain rfl := Option.some.inj h
    exact ⟨part, [], rfl, fun _ h => absurd rfl h, nofun⟩
  | cons p ps ih =>
    cases p with
    | text t => exact ih h
    | reference r => exact ih h
    | star =>
      rw [starParts] at h
      split at h
      · cases h
      · rename_i hkeep
        obtain ⟨found, hfound, rfl⟩ := Option.map_eq_some_iff.mp h
        obtain ⟨first, others, rfl, hfirst, hothers⟩ := ih hfound
        refine ⟨part, first :: others, rfl, fun hinner _ he => hkeep ?_, ?_⟩
        · rw [hinner, he]
          rfl
        · cases others with
          | nil => exact nofun
          | cons _ _ => exact List.forall_mem_cons.mpr ⟨hfirst rfl (List.cons_ne_nil _ _), hothers⟩

/-! ## Keys from pieces -/

section Pieces

variable {ps : List Piece}

/-- A canonical form as a key. -/
def keyOf (ps : List Piece) : String := String.ofList (ps.flatMap Piece.canonical)

theorem parseWhole_pieces (h : NormalPieces ps) :
    parseWhole (pieces true fun _ => false) (keyOf ps) = .ok ps := by
  have hread : Reads (pieces true fun _ => false) (keyOf ps).toList ps [] := by
    have hreads : Reads (pieces true fun _ => false) (ps.flatMap Piece.canonical ++ []) ps [] :=
      h.reads (fun _ h => absurd h Bool.false_ne_true) rfl rfl rfl (.inl rfl) nofun
    rw [keyOf, String.toList_ofList]
    rwa [List.append_nil] at hreads
  rw [parseWhole, hread.runOn]

/-- A key in pieces has none of the forms that are told by their first character. -/
theorem parseKey_pieces (h : NormalPieces ps) : parseKey (keyOf ps) = parsePattern (keyOf ps) := by
  have hnone {c : Char} {tail : List Char} (hc : c = '@' ∨ c = '$' ∨ c = '#') :
      (keyOf ps).toList ≠ c :: tail := by
    intro he
    rw [keyOf, String.toList_ofList] at he
    have hhead : c ∈ (ps.flatMap Piece.canonical).head? := by
      rw [he]
      rfl
    have hplain := h.head_canonical hhead
    rcases hc with rfl | rfl | rfl <;> revert hplain <;> decide
  rw [parseKey]
  split
  · rename_i he
    have hstar : keyOf ps = "*" := by rw [← String.ofList_toList (s := keyOf ps), he]
    rw [hstar]
    rfl
  · exact absurd ‹_› (hnone (by decide))
  · exact absurd ‹_› (hnone (by decide))
  · exact absurd ‹_› (hnone (by decide))
  · exact absurd ‹_› (hnone (by decide))
  · rfl

end Pieces

def Piece.isStar : Piece → Bool
  | .star => true
  | _ => false

def Piece.isReference : Piece → Bool
  | .reference _ => true
  | _ => false

/-- The literal or the pattern with these parts between its stars. -/
def Element.ofParts : List (List Char) → Element
  | [] => .literal ""
  | [text] => .literal (String.ofList text)
  | [[], []] => .any
  | first :: others => .glob ⟨first, others⟩

/-- Without both stars and references, the pieces of a key say what it is. -/
theorem parsePattern_eq_ok {key : String} {ps : List Piece} {e : Element}
    (h : parseWhole (pieces true fun _ => false) key = .ok ps) :
    parsePattern key = .ok e ↔
      (ps.any Piece.isStar = false ∧ ps.any Piece.isReference = true ∧
        e = .reference (Template.ofPieces ps)) ∨
      (ps.any Piece.isReference = false ∧
        ∃ parts, starParts false [] ps = some parts ∧ e = .ofParts parts) := by
  have hok (a : Element) : (.ok a : Except SpecError Element) = .ok e ↔ e = a :=
    ⟨fun he => (Except.ok.inj he).symm, fun he => congrArg _ he.symm⟩
  rw [parsePattern, h]
  change (if (ps.any Piece.isStar && ps.any Piece.isReference) = true then _
    else if ps.any Piece.isReference = true then _ else _) = _ ↔ _
  cases hr : ps.any Piece.isReference with
  | true =>
    cases hs : ps.any Piece.isStar with
    | true => simp
    | false => simpa using hok _
  | false =>
    rw [Bool.and_false, if_neg Bool.false_ne_true, if_neg Bool.false_ne_true]
    simp only [Bool.false_eq_true, false_and, and_false, false_or, true_and]
    cases hp : starParts false [] ps with
    | none => simp
    | some parts =>
      simp only [Option.some.injEq, exists_eq_left']
      -- The shapes that the two definitions tell apart.
      rcases parts with _ | ⟨first, _ | ⟨second, more⟩⟩
      · exact hok _
      · exact hok _
      · cases first <;> cases second <;> cases more <;> exact hok _

theorem any_isStar_eq_false {ps : List Piece} : ps.any Piece.isStar = false ↔ .star ∉ ps := by
  rw [List.any_eq_false]
  constructor
  · exact fun h hm => h .star hm rfl
  · intro h p hp hs
    cases p with
    | star => exact h hp
    | text t | reference r => cases hs

theorem any_isReference_segments (segments : List Segment) :
    (segments.map Segment.piece).any Piece.isReference =
      (Template.mk segments).hasReferences := by
  rw [List.any_map, Template.hasReferences]
  congr 1
  funext segment
  cases segment <;> rfl

@[simp] theorem any_isReference_flushText (text : List Char) (ps : List Piece) :
    (flushText text ps).any Piece.isReference = ps.any Piece.isReference := by
  cases text <;> rfl

@[simp] theorem any_isReference_starPieces (parts : List (List Char)) :
    (starPieces parts).any Piece.isReference = false := by
  induction parts with
  | nil => rfl
  | cons part parts ih =>
    rw [starPieces, List.any_cons, any_isReference_flushText, ih]
    rfl

/-! ## The round trip -/

/-- Literal text, and literal text with stars in it, is read back in parts. -/
theorem parseKey_parts {first : List Char} {others : List (List Char)}
    (h : ∀ part ∈ others.dropLast, part ≠ []) :
    parseKey (String.ofList (Glob.mk first others).canonical) =
      .ok (.ofParts (first :: others)) := by
  have hnormal : NormalPieces (Glob.mk first others).pieces := Glob.pieces_normal _
  have hparts : starParts false [] (Glob.mk first others).pieces = some (first :: others) := by
    rw [Glob.pieces, starParts_flushText, List.nil_append]
    exact starParts_starPieces nofun h
  have hreferences : (Glob.mk first others).pieces.any Piece.isReference = false := by
    rw [Glob.pieces, any_isReference_flushText, any_isReference_starPieces]
  rw [Glob.canonical_eq]
  refine (parseKey_pieces hnormal).trans ?_
  exact (parsePattern_eq_ok (parseWhole_pieces hnormal)).mpr (.inr ⟨hreferences, _, hparts, rfl⟩)

theorem parseKey_literal (text : String) :
    parseKey (Element.literal text).canonical = .ok (.literal text) := by
  have hcanonical : (Element.literal text).canonical =
      String.ofList (Glob.mk text.toList []).canonical := by
    rw [Element.canonical, Element.canonicalChars, Glob.canonical, List.flatMap_nil,
      List.append_nil]
  have hparts : Element.ofParts [text.toList] = .literal text := by
    rw [Element.ofParts, String.ofList_toList]
  rw [hcanonical, ← hparts]
  exact parseKey_parts nofun

theorem Glob.WellFormed.ofParts_eq {g : Glob} (h : g.WellFormed) :
    Element.ofParts (g.first :: g.others) = .glob g := by
  obtain ⟨first, others⟩ := g
  obtain ⟨part, parts, rfl⟩ := List.exists_cons_of_ne_nil h.star
  cases parts with
  | cons next parts => cases first <;> cases part <;> rfl
  | nil =>
    cases first with
    | cons c first => cases part <;> rfl
    | nil =>
      cases part with
      | cons c part => rfl
      | nil => exact absurd ⟨rfl, rfl⟩ h.not_any

theorem parseKey_glob {g : Glob} (h : g.WellFormed) :
    parseKey (Element.glob g).canonical = .ok (.glob g) :=
  (parseKey_parts h.inner).trans (congrArg Except.ok h.ofParts_eq)

theorem parseKey_reference {t : Template} (hn : t.Normal) (hr : t.hasReferences = true) :
    parseKey (Element.reference t).canonical = .ok (.reference t) := by
  have hstars : (t.segments.map Segment.piece).any Piece.isStar = false :=
    any_isStar_eq_false.mpr (Template.star_not_mem t.segments)
  have hreferences : (t.segments.map Segment.piece).any Piece.isReference = true := by
    rw [any_isReference_segments]
    exact hr
  have hkey : (Element.reference t).canonical = keyOf (t.segments.map Segment.piece) := by
    rw [keyOf, ← Template.canonical_eq]
    rfl
  rw [hkey, parseKey_pieces hn.pieces, parsePattern_eq_ok (parseWhole_pieces hn.pieces)]
  exact .inl ⟨hstars, hreferences, by rw [Template.ofPieces_normal hn.pieces]⟩

theorem parseKey_matchedKey {r : Reference} (h : r.InRange) :
    parseKey (Element.matchedKey r).canonical = .ok (.matchedKey r) := by
  have hscan : Reads matchedKeyScan ('$' :: (r.tailCanonical ++ [])) (.matchedKey r) [] :=
    Reads.bind (reads_advance '$' _)
      (Reads.bind (reads_referenceTail h []) (Reads.peek (.pure _ _)))
  have htext : (Element.matchedKey r).canonical.toList = '$' :: (r.tailCanonical ++ []) := by
    rw [Element.canonical, String.toList_ofList, List.append_nil]
    rfl
  rw [parseKey, htext]
  change parseWhole matchedKeyScan _ = _
  rw [parseWhole, htext, hscan.runOn]

theorem parseKey_count {up : Nat} (h : up < Text.wordSize) :
    parseKey (Element.count up).canonical = .ok (.count up) := by
  have htext : (Element.count up).canonical.toList =
      '#' :: '(' :: (Nat.toDigits 10 up ++ ')' :: []) := by
    rw [Element.canonical, String.toList_ofList]
    rfl
  have hcount : isCount ('(' :: (Nat.toDigits 10 up ++ ')' :: [])) = true := by
    have hlast : ('(' :: (Nat.toDigits 10 up ++ ')' :: [])).getLast? = some ')' := by
      rw [← List.cons_append, List.getLast?_concat]
    rw [isCount, hlast, List.head?_cons]
    simp
  have hscan : Reads (do
      let _ ← Scan.advance
      let r ← referenceTail
      let rest ← Scan.rest
      pure (r, rest)) ('#' :: '(' :: (Nat.toDigits 10 up ++ ')' :: [])) (⟨up, 0⟩, []) [] :=
    Reads.bind (reads_advance '#' _) (Reads.bind (reads_referenceTail_level h [])
      (Reads.bind (reads_rest []) (.pure _ _)))
  rw [parseKey, htext]
  change parseCount _ _ = _
  rw [parseCount, if_pos hcount, parseWhole, htext, hscan.runOn]
  rfl

theorem mem_escape {text : List Char} {c : Char} (h : c ∈ text) : c ∈ escape text := by
  induction text with
  | nil => cases h
  | cons d text ih =>
    have hmem : c ∈ d :: escape text := by
      rcases List.mem_cons.mp h with rfl | h
      · exact List.mem_cons_self
      · exact List.mem_cons_of_mem d (ih h)
    rw [escape]
    split
    · exact List.mem_cons_of_mem _ hmem
    · exact hmem

theorem head_escape_ne (text : List Char) : (escape text).head? ≠ some '(' := by
  intro he
  rcases head_escape he with h | ⟨h, -⟩ <;> revert h <;> decide

/-- A text that is not all digits does not look like a level when it is escaped. -/
theorem isCount_escape {text : List Char} (h : text.all Text.isDigit = false) :
    isCount (escape text) = false := by
  have hdigits : (escape text).all Text.isDigit = false := by
    obtain ⟨c, hc, hdigit⟩ := List.all_eq_false.mp h
    exact List.all_eq_false.mpr ⟨c, mem_escape hc, hdigit⟩
  have hhead : ((escape text).head? == some '(') = false :=
    beq_eq_false_iff_ne.mpr (head_escape_ne text)
  rw [isCount, hdigits, hhead]
  rfl

theorem parseKey_constant {text : String} (h : text.toList.all Text.isDigit = false) :
    parseKey (Element.constant text).canonical = .ok (.constant text) := by
  have htext : (Element.constant text).canonical.toList = '#' :: escape text.toList := by
    rw [Element.canonical, String.toList_ofList]
    rfl
  rw [parseKey, htext]
  change parseCount _ _ = _
  rw [parseCount, isCount_escape h, if_neg Bool.false_ne_true, unescape_escape,
    String.ofList_toList]

theorem parseKey_lookup {l : Lookup} (hw : l.WellFormed) (ht : TightSteps l.steps) :
    parseKey (Element.lookup l).canonical = .ok (.lookup l) := by
  have htext : (Element.lookup l).canonical.toList = l.canonical := by
    rw [Element.canonical, String.toList_ofList]
    rfl
  obtain ⟨inner, hinner⟩ : ∃ inner, l.canonical = '@' :: '(' :: inner := ⟨_, rfl⟩
  have hread : Lookup.parse ('@' :: '(' :: inner) = .ok l := by
    rw [← hinner, Lookup.parse_canonical hw ht]
  simp only [parseKey, htext, hinner, hread]

/-! ## What is parsed -/

theorem parseWhole_eq_ok {α : Type} {scan : Scan α} {key : String} {a : α}
    (h : parseWhole scan key = .ok a) : scan.runOn key.toList 0 = .ok a := by
  rw [parseWhole] at h
  split at h
  · rename_i b hb
    rw [hb, Except.ok.inj h]
  · cases h

theorem Element.ofParts_wellFormed {first : List Char} {others : List (List Char)}
    (h : ∀ part ∈ others.dropLast, part ≠ []) : (ofParts (first :: others)).WellFormed := by
  by_cases hothers : others = []
  · subst hothers
    trivial
  · by_cases hany : first = [] ∧ others = [[]]
    · obtain ⟨rfl, rfl⟩ := hany
      trivial
    · have hglob : (Glob.mk first others).WellFormed := ⟨hothers, h, hany⟩
      have helement : ofParts (first :: others) = .glob ⟨first, others⟩ := hglob.ofParts_eq
      rw [helement]
      exact hglob

theorem parsePattern_wellFormed {key : String} {e : Element} (h : parsePattern key = .ok e) :
    e.WellFormed := by
  cases hread : parseWhole (pieces true fun _ => false) key with
  | error problem =>
    rw [parsePattern, hread] at h
    cases h
  | ok ps =>
    have hscanned : Scanned true ps := pieces_scanned.of_runOn (parseWhole_eq_ok hread)
    rcases (parsePattern_eq_ok hread).mp h with ⟨hs, hr, rfl⟩ | ⟨-, parts, hparts, rfl⟩
    · obtain ⟨segments, rfl⟩ := Template.exists_segments (any_isStar_eq_false.mp hs)
      rw [any_isReference_segments] at hr
      have hne : segments ≠ [] := by
        rintro rfl
        cases hr
      rw [Template.ofPieces_normal hscanned.normal]
      exact ⟨⟨hne, hscanned.normal⟩, hr⟩
    · obtain ⟨first, others, rfl, -, hothers⟩ := starParts_eq_some hparts
      exact Element.ofParts_wellFormed hothers

theorem parseCount_wellFormed {key : String} {tail : List Char} {e : Element}
    (h : parseCount key tail = .ok e) : e.WellFormed := by
  rw [parseCount] at h
  split at h
  · obtain ⟨⟨r, rest⟩, hread, h⟩ := except_bind_eq_ok.mp h
    have hr : r.InRange := by
      refine Ensures.of_runOn (P := fun read : Reference × List Char => read.1.InRange) ?_
        (parseWhole_eq_ok hread)
      refine Ensures.then fun _ => Ensures.bind referenceTail_inRange fun r hr => ?_
      exact Ensures.then fun rest => .pure hr
    dsimp only at h
    split at h
    · cases h
    · obtain rfl := Except.ok.inj h
      exact hr.level_lt
  · obtain rfl := Except.ok.inj h
    trivial

theorem matchedKeyScan_wellFormed : Ensures matchedKeyScan Element.WellFormed := by
  refine Ensures.then fun _ => Ensures.bind referenceTail_inRange fun r hr => ?_
  refine Ensures.then fun next => ?_
  cases next with
  | none => exact .pure hr
  | some c => exact .fail _

/-- Every key that is parsed gives a well-formed element. -/
theorem parseKey_wellFormed {key : String} {e : Element} (h : parseKey key = .ok e) :
    e.WellFormed := by
  rw [parseKey] at h
  split at h
  · obtain rfl := Except.ok.inj h
    trivial
  · obtain rfl := Except.ok.inj h
    trivial
  · split at h
    · rename_i hl
      obtain rfl := Except.ok.inj h
      exact Lookup.parse_wellFormed hl
    · cases h
  · exact matchedKeyScan_wellFormed.of_runOn (parseWhole_eq_ok h)
  · exact parseCount_wellFormed h
  · exact parsePattern_wellFormed h

theorem Element.ofParts_ne_value (parts : List (List Char)) : Element.ofParts parts ≠ .value := by
  rw [Element.ofParts.eq_def]
  split <;> exact nofun

theorem parsePattern_ne_value (key : String) : parsePattern key ≠ .ok .value := by
  intro h
  cases hread : parseWhole (pieces true fun _ => false) key with
  | error problem =>
    rw [parsePattern, hread] at h
    cases h
  | ok ps =>
    rcases (parsePattern_eq_ok hread).mp h with ⟨-, -, he⟩ | ⟨-, parts, -, he⟩
    · cases he
    · exact Element.ofParts_ne_value parts he.symm

theorem parseCount_ne_value (key : String) (tail : List Char) :
    parseCount key tail ≠ .ok .value := by
  intro h
  rw [parseCount] at h
  split at h
  · obtain ⟨⟨r, rest⟩, -, h⟩ := except_bind_eq_ok.mp h
    dsimp only at h
    split at h <;> cases h
  · cases h

theorem matchedKeyScan_ne_value : Ensures matchedKeyScan (· ≠ .value) := by
  refine Ensures.then fun _ => Ensures.then fun r => Ensures.then fun next => ?_
  cases next with
  | none => exact .pure nofun
  | some c => exact .fail _

/-- Only one key stands for the value of a level. -/
theorem eq_at_of_parseKey {key : String} (h : parseKey key = .ok .value) : key = "@" := by
  rw [parseKey] at h
  split at h
  · cases h
  · rename_i hkey
    exact String.toList_inj.mp hkey
  · split at h <;> cases h
  · exact absurd rfl (matchedKeyScan_ne_value.of_runOn (parseWhole_eq_ok h))
  · exact absurd h (parseCount_ne_value _ _)
  · exact absurd h (parsePattern_ne_value _)

/-- The keys in the lookup of the element, if it is one, have no blanks at their ends. -/
def Element.Tight : Element → Prop
  | .lookup l => TightSteps l.steps
  | _ => True

/-- The text of a constant that is written like a count. -/
def Element.isNumeral : Element → Bool
  | .constant text => text.toList.all Text.isDigit
  | _ => false

theorem parseKey_canonical {e : Element} (hw : e.WellFormed) (hn : e.isNumeral = false)
    (ht : e.Tight) : parseKey e.canonical = .ok e := by
  cases e with
  | literal text => exact parseKey_literal text
  | any => rfl
  | glob g => exact parseKey_glob hw
  | reference t => exact parseKey_reference hw.1 hw.2
  | matchedKey r => exact parseKey_matchedKey hw
  | value => rfl
  | count up => exact parseKey_count hw
  | constant text => exact parseKey_constant hn
  | lookup l => exact parseKey_lookup hw ht

/-- A key that has been parsed is parsed back from its canonical form, unless it is a constant that
reads like a count or has a lookup with a key that has a blank at one of its ends. -/
theorem key_roundtrip {raw : String} {e : Element} (h : parseKey raw = .ok e)
    (hn : e.isNumeral = false) (ht : e.Tight) : parseKey e.canonical = .ok e :=
  parseKey_canonical (parseKey_wellFormed h) hn ht

/-- A lookup whose path has a reference and another lookup in it. -/
theorem key_roundtrip_lookup :
    let e : Element := .lookup ⟨1, [.key (.literal "a.b"), .key ⟨[.reference ⟨0, 0⟩]⟩,
      .indexLookup 0 [.key (.literal "c")]]⟩
    parseKey "@(1 , a\\.b.&[@c])" = .ok e ∧ e.isNumeral = false ∧ e.Tight ∧
      parseKey e.canonical = .ok e := by
  intro e
  have hparse : parseKey "@(1 , a\\.b.&[@c])" = .ok e := by decide +kernel
  have htight : TightSteps [.key (.literal "a.b"), .key ⟨[.reference ⟨0, 0⟩]⟩,
      .indexLookup 0 [.key (.literal "c")]] := by
    decide +kernel
  exact ⟨hparse, rfl, htight, key_roundtrip hparse rfl htight⟩

end Reshape.Pattern
