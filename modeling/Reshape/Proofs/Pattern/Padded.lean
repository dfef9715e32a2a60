import Reshape.Proofs.Pattern.AlikePath
/-!
# Blanks inside of a lookup's parentheses

The inside of a lookup is read after the blanks at its ends are gone, but whether it names a level
is decided before. So blanks change nothing in a path, and blanks that hide a level make it a path.
-/
namespace Reshape

namespace Text

variable {text blanks : List Char}

theorem trim_blanks_append (h : ∀ c ∈ blanks, isBlank c = true) (text : List Char) :
    trim (blanks ++ text) = trim text := by
  rw [trim, trim, trimStart_blanks h]

theorem trimEnd_append_blanks (h : ∀ c ∈ blanks, isBlank c = true) (text : List Char) :
    trimEnd (text ++ blanks) = trimEnd text := by
  have hreverse : ∀ c ∈ blanks.reverse, isBlank c = true :=
    fun c hc => h c (List.mem_reverse.mp hc)
  rw [trimEnd, trimEnd, List.reverse_append, List.dropWhile_append_of_pos hreverse]

theorem trim_append_blanks (h : ∀ c ∈ blanks, isBlank c = true) (text : List Char) :
    trim (text ++ blanks) = trim text := by
  rw [trim, trimStart, List.dropWhile_append]
  split
  · rename_i hnil
    have hstart : trimStart text = [] := List.isEmpty_iff.mp hnil
    have hblanks : blanks.dropWhile isBlank = [] := List.dropWhile_eq_nil_iff.mpr h
    rw [hblanks, trim, hstart]
  · exact trimEnd_append_blanks h _

theorem ne_of_isBlank {c d : Char} (hc : isBlank c = true) (hd : isBlank d = false) : c ≠ d := by
  rintro rfl
  rw [hc] at hd
  cases hd

end Text

namespace Pattern

/-- Every parenthesis of the text is closed, with this many open in front of it, and none is closed
that is not open. -/
def parenthesesClose : (opened : Nat) → List Char → Bool
  | opened, [] => opened == 0
  | opened, '(' :: rest => parenthesesClose (opened + 1) rest
  | 0, ')' :: _ => false
  | opened + 1, ')' :: rest => parenthesesClose opened rest
  | opened, _ :: rest => parenthesesClose opened rest

/-- A lookup with a text in parentheses. -/
def inParentheses (inner : List Char) : List Char := '@' :: '(' :: (inner ++ [')'])

section

variable {text blanks inner : List Char} {opened : Nat}

theorem parenthesesClose_blanks (h : ∀ c ∈ blanks, Text.isBlank c = true) (opened : Nat)
    (text : List Char) :
    parenthesesClose opened (blanks ++ text) = parenthesesClose opened text := by
  induction blanks with
  | nil => rfl
  | cons c blanks ih =>
    have hc := h c List.mem_cons_self
    have hopen : c ≠ '(' := Text.ne_of_isBlank hc (by decide)
    have hclose : c ≠ ')' := Text.ne_of_isBlank hc (by decide)
    rw [List.cons_append, parenthesesClose]
    · exact ih fun d hd => h d (List.mem_cons_of_mem c hd)
    · exact hopen
    · exact fun _ => hclose
    · exact fun _ _ => hclose

theorem parenthesesClose_append (h : ∀ c ∈ blanks, Text.isBlank c = true)
    (hc : parenthesesClose opened text = true) :
    parenthesesClose opened (text ++ blanks) = true := by
  fun_induction parenthesesClose opened text with
  | case1 opened =>
    have hblanks := parenthesesClose_blanks h opened []
    rw [List.append_nil] at hblanks
    rwa [List.nil_append, hblanks]
  | case2 opened rest ih =>
    rw [List.cons_append, parenthesesClose]
    exact ih hc
  | case3 rest => cases hc
  | case4 rest opened ih =>
    rw [List.cons_append, parenthesesClose]
    exact ih hc
  | case5 opened c rest hopen hfirst hclose ih =>
    rw [List.cons_append, parenthesesClose]
    · exact ih hc
    all_goals assumption

/-- A group whose parentheses close is read up to the parenthesis behind it. -/
theorem parenthesizedTail_of_close (hc : parenthesesClose opened text = true) (hb : '\\' ∉ text)
    (start position : Nat) (read rest : List Char) :
    Scan.parenthesizedTail start opened position read (text ++ rest) =
      Scan.parenthesizedTail start 0 (position + text.length) (text.reverse ++ read) rest := by
  fun_induction parenthesesClose opened text generalizing position read with
  | case1 opened =>
    rw [beq_iff_eq.mp hc]
    rfl
  | case2 opened text ih =>
    rw [List.cons_append, Scan.parenthesizedTail, ih hc (List.not_mem_of_not_mem_cons hb)]
    simp [Nat.add_comm, Nat.add_left_comm]
  | case3 text => cases hc
  | case4 text opened ih =>
    rw [List.cons_append, Scan.parenthesizedTail, ih hc (List.not_mem_of_not_mem_cons hb)]
    simp [Nat.add_comm, Nat.add_left_comm]
  | case5 opened c text hopen hfirst hclose ih =>
    have hslash : c ≠ '\\' := fun he => hb (he ▸ List.mem_cons_self)
    have hparen : c ≠ ')' := by
      cases opened with
      | zero => exact hfirst rfl
      | succ opened => exact hclose opened rfl
    rw [List.cons_append, Balanced.parenthesizedTail_char hslash hopen hparen,
      ih hc (List.not_mem_of_not_mem_cons hb)]
    simp [Nat.add_comm, Nat.add_left_comm]

theorem parse_inParentheses (hc : parenthesesClose 0 inner = true) (hb : '\\' ∉ inner) :
    Lookup.parse (inParentheses inner) =
      lookupInside (lookupWithin (inner.length + 2)) inner 2 := by
  have hgroup : Scan.parenthesizedTail 1 0 2 [] (inner ++ [')']) =
      .ok inner ⟨2 + inner.length + 1, []⟩ := by
    rw [parenthesizedTail_of_close hc hb, Scan.parenthesizedTail, List.append_nil,
      List.reverse_reverse]
  have hscan : Lookup.scan ⟨0, inParentheses inner⟩ =
      Scan.ofExcept (lookupInside (lookupWithin (inner.length + 2)) inner 2)
        ⟨2 + inner.length + 1, []⟩ := by
    have hlength : (inParentheses inner).length = inner.length + 2 + 1 := by
      simp [inParentheses]
    change lookupWithin (inParentheses inner).length ⟨0, inParentheses inner⟩ = _
    rw [hlength, inParentheses, lookupWithin_eq_group, Nat.zero_add, Nat.zero_add, hgroup]
    rfl
  -- Nothing is left behind the group.
  have hrun (f : Lookup → Scan Lookup) : (Lookup.scan >>= f) ⟨0, inParentheses inner⟩ =
      EStateM.bind (Scan.ofExcept (lookupInside (lookupWithin (inner.length + 2)) inner 2)) f
        ⟨2 + inner.length + 1, []⟩ := by
    change EStateM.bind Lookup.scan f _ = _
    rw [EStateM.bind, hscan]
    rfl
  rw [Lookup.parse, Scan.runOn, EStateM.run, hrun]
  cases lookupInside (lookupWithin (inner.length + 2)) inner 2 with
  | ok l => rfl
  | error e => rfl

end

/-! ## What the inside of a lookup says -/

section

variable {depth offset start up : Nat} {inner level gap path : List Char} {l : Lookup}

theorem AlikeExcept.ok_iff {α : Type} {text : List Char} {p : Nat} {r r' : Except ScanError α}
    (h : AlikeExcept text p r r') (a : α) : r = .ok a ↔ r' = .ok a := by
  cases h with
  | ok b => exact Iff.rfl
  | error points => exact ⟨nofun, nofun⟩

/-- A path reads the same at any depth and offset. -/
theorem lookupAtLevel_eq_ok (hd : path.length ≤ depth) :
    lookupAtLevel (lookupWithin depth) up path offset = .ok l ↔
      l.up = up ∧ parseSteps (Text.trim path) 0 = .ok l.steps := by
  have hlength := Text.trim_length_le path
  have hsteps := (stepsWith_alike (lookupWithin_alike (Text.trim path).length
    (Nat.le_trans hlength hd) (Nat.le_refl _)) offset 0).ok_iff
  rw [parseSteps, ← hsteps, lookupAtLevel]
  cases stepsWith (lookupWithin depth) (Text.trim path) offset with
  | error e => exact ⟨nofun, nofun⟩
  | ok steps =>
    constructor
    · intro h
      cases h
      exact ⟨rfl, rfl⟩
    · rintro ⟨rfl, h⟩
      cases h
      rfl

theorem lookupAtDigits_eq_ok (hd : path.length ≤ depth) :
    lookupAtDigits (lookupWithin depth) level path start offset = .ok l ↔
      (Text.digitsValue level < Text.wordSize ∧ l.up = Text.digitsValue level) ∧
        parseSteps (Text.trim path) 0 = .ok l.steps := by
  rw [lookupAtDigits]
  split
  · rename_i hword
    rw [lookupAtLevel_eq_ok hd]
    exact ⟨fun h => ⟨⟨hword, h.1⟩, h.2⟩, fun h => ⟨h.1.2, h.2⟩⟩
  · rename_i hword
    constructor
    · intro h
      cases h
    · exact fun h => absurd h.1.1 hword

/-- In parentheses, a path. -/
theorem parse_path (hc : parenthesesClose 0 inner = true) (hb : '\\' ∉ inner)
    (h : namesLevel inner = false) :
    Lookup.parse (inParentheses inner) = .ok l ↔
      l.up = 0 ∧ parseSteps (Text.trim inner) 0 = .ok l.steps := by
  rw [parse_inParentheses hc hb, lookupInside_path h,
    lookupAtLevel_eq_ok (Nat.le_add_right _ 2)]

/-- In parentheses, a level and a path. -/
theorem parse_levelAndPath (hc : parenthesesClose 0 inner = true) (hb : '\\' ∉ inner)
    (h : LevelAndPath level gap path inner) :
    Lookup.parse (inParentheses inner) = .ok l ↔
      (Text.digitsValue level < Text.wordSize ∧ l.up = Text.digitsValue level) ∧
        parseSteps (Text.trim path) 0 = .ok l.steps := by
  have hd : path.length ≤ inner.length + 2 := by
    rw [h.inner_eq]
    simp only [List.length_append, List.length_cons]
    omega
  rw [parse_inParentheses hc hb, lookupInside_levelAndPath h, lookupAtDigits_eq_ok hd]

end

/-! ## Padding -/

/-- With these blanks around it a level is no longer where a level is looked for. -/
def hidesLevel (text before after : List Char) : Bool :=
  namesLevel text && (!before.isEmpty || (!after.isEmpty && text.all Text.isDigit))

section

variable {text before after : List Char}

theorem not_isDigit_of_isBlank {c : Char} (h : Text.isBlank c = true) : Text.isDigit c = false := by
  rw [Bool.eq_false_iff]
  intro hd
  rw [Text.isBlank_of_isDigit hd] at h
  cases h

theorem namesLevel_of_blank_head {c : Char} (h : Text.isBlank c = true) (rest : List Char) :
    namesLevel (c :: rest) = false := by
  have hc := not_isDigit_of_isBlank h
  rw [namesLevel, List.all_cons, hc, afterLevel?,
    List.takeWhile_cons_of_neg (ne_true_of_eq_false hc)]
  rfl

/-- Blanks behind a text are no part of its level. -/
theorem afterLevel?_of_append {gap path : List Char} (ha : ∀ c ∈ after, Text.isBlank c = true)
    (h : afterLevel? (text ++ after) = some (gap, path)) :
    ',' ∈ text ∧ ∃ more, afterLevel? text = some (gap, more) := by
  obtain ⟨level, h⟩ := afterLevel?_eq_some.mp h
  have hsplit : text ++ after = (level ++ gap ++ [',']) ++ path := by
    rw [h.inner_eq]
    simp
  have hfound {more : List Char} (htext : text = level ++ gap ++ [','] ++ more) :
      ',' ∈ text ∧ ∃ more, afterLevel? text = some (gap, more) := by
    refine ⟨by rw [htext]; simp, more, afterLevel?_eq_some.mpr ⟨level, ?_⟩⟩
    exact ⟨h.level_ne_nil, h.level_digit, h.gap_blank, by rw [htext]; simp⟩
  rcases List.append_eq_append_iff.mp hsplit with ⟨blanks, hfront, hafter⟩ | ⟨more, htext, -⟩
  · rcases List.eq_nil_or_concat blanks with rfl | ⟨init, c, rfl⟩
    · rw [List.append_nil] at hfront
      have htext : text = level ++ gap ++ [','] ++ [] := by rw [List.append_nil, hfront]
      exact hfound htext
    · -- The comma would be one of the blanks.
      rw [List.concat_eq_append, ← List.append_assoc] at hfront
      obtain rfl := (List.cons.inj (List.append_inj_right' hfront rfl)).1
      have hblank := ha ',' (by rw [hafter]; simp)
      cases hblank
  · exact hfound htext

theorem afterLevel?_isSome_append (ha : ∀ c ∈ after, Text.isBlank c = true) :
    (afterLevel? (text ++ after)).isSome = (afterLevel? text).isSome := by
  rw [Bool.eq_iff_iff]
  constructor
  · intro h
    obtain ⟨⟨gap, path⟩, hsome⟩ := Option.isSome_iff_exists.mp h
    obtain ⟨-, more, hmore⟩ := afterLevel?_of_append ha hsome
    rw [hmore]
    rfl
  · intro h
    obtain ⟨⟨gap, path⟩, hsome⟩ := Option.isSome_iff_exists.mp h
    rw [afterLevel?_append hsome]
    rfl

/-- A padded text names a level where the text does and the blanks do not hide it. -/
theorem namesLevel_padded (hb : ∀ c ∈ before, Text.isBlank c = true)
    (ha : ∀ c ∈ after, Text.isBlank c = true) :
    namesLevel (before ++ text ++ after) =
      (namesLevel text && !hidesLevel text before after) := by
  rcases before with _ | ⟨c, before⟩
  · rcases after with _ | ⟨d, after⟩
    · simp [hidesLevel]
    · have hd := not_isDigit_of_isBlank (ha d List.mem_cons_self)
      have hall : (text ++ d :: after).all Text.isDigit = false := by
        rw [List.all_append, List.all_cons, hd, Bool.false_and, Bool.and_false]
      rw [List.nil_append, namesLevel, hall, Bool.and_false, Bool.false_or,
        afterLevel?_isSome_append ha]
      cases hdigits : text.all Text.isDigit with
      | false => simp [hidesLevel, namesLevel, hdigits]
      | true =>
        have hnone : (afterLevel? text).isSome = false := by
          rw [Bool.eq_false_iff]
          intro h
          obtain ⟨⟨gap, path⟩, hsome⟩ := Option.isSome_iff_exists.mp h
          obtain ⟨level, h⟩ := afterLevel?_eq_some.mp hsome
          have hcomma : ',' ∈ text := by
            rw [h.inner_eq]
            simp
          exact absurd (List.all_eq_true.mp hdigits ',' hcomma) (by decide)
        simp [hidesLevel, namesLevel, hdigits, hnone]
  · have hc := hb c List.mem_cons_self
    rw [List.cons_append, List.cons_append, namesLevel_of_blank_head hc]
    simp [hidesLevel]

theorem not_mem_of_blank {c : Char} (h : ∀ d ∈ after, Text.isBlank d = true)
    (hc : Text.isBlank c = false) : c ∉ after := fun hm => Text.ne_of_isBlank (h c hm) hc rfl

/-- Blanks inside of the parentheses, in front of a text and behind it, change nothing unless they
hide a level; then the lookup starts at the level that it stands in, and what would have been the
level is the start of its path. -/
theorem parse_padded (ht : Trimmed text) (hslash : '\\' ∉ text)
    (hclose : parenthesesClose 0 text = true) (hb : ∀ c ∈ before, Text.isBlank c = true)
    (ha : ∀ c ∈ after, Text.isBlank c = true) (l : Lookup) :
    (hidesLevel text before after = false →
      (Lookup.parse (inParentheses (before ++ text ++ after)) = .ok l ↔
        Lookup.parse (inParentheses text) = .ok l)) ∧
    (hidesLevel text before after = true →
      (Lookup.parse (inParentheses (before ++ text ++ after)) = .ok l ↔
        l.up = 0 ∧ parseSteps text 0 = .ok l.steps)) := by
  have hclosed : parenthesesClose 0 (before ++ text ++ after) = true := by
    rw [List.append_assoc, parenthesesClose_blanks hb]
    exact parenthesesClose_append ha hclose
  have hescape : '\\' ∉ before ++ text ++ after := by
    simp only [List.mem_append, not_or]
    exact ⟨⟨not_mem_of_blank hb (by decide), hslash⟩, not_mem_of_blank ha (by decide)⟩
  have htrim : Text.trim (before ++ text ++ after) = Text.trim text := by
    rw [Text.trim_append_blanks ha, Text.trim_blanks_append hb]
  have hlevel : namesLevel (before ++ text ++ after) = _ := namesLevel_padded hb ha
  constructor
  · intro hides
    rw [hides, Bool.not_false, Bool.and_true] at hlevel
    cases hname : namesLevel text with
    | false =>
      rw [hname] at hlevel
      rw [parse_path hclosed hescape hlevel, parse_path hclose hslash hname, htrim]
    | true =>
      rw [hidesLevel, hname, Bool.true_and, Bool.or_eq_false_iff, Bool.not_eq_false',
        List.isEmpty_iff] at hides
      obtain ⟨rfl, hafter⟩ := hides
      rw [List.nil_append] at hclosed hescape ⊢
      rw [namesLevel, Bool.or_eq_true, Bool.and_eq_true] at hname
      rcases hname with ⟨-, hdigits⟩ | hsome
      · rw [hdigits, Bool.and_true, Bool.not_eq_false', List.isEmpty_iff] at hafter
        rw [hafter, List.append_nil]
      · obtain ⟨⟨gap, path⟩, hsome⟩ := Option.isSome_iff_exists.mp hsome
        obtain ⟨level, h⟩ := afterLevel?_eq_some.mp hsome
        rw [parse_levelAndPath hclosed hescape (h.append after),
          parse_levelAndPath hclose hslash h, Text.trim_append_blanks ha]
  · intro hides
    rw [hides, Bool.not_true, Bool.and_false] at hlevel
    rw [parse_path hclosed hescape hlevel, htrim, ht.trim_eq]

/-- A blank behind a path changes nothing, and in front of a level it hides the level. -/
theorem parse_padded_level :
    let text := ['1', ',', 'a']
    let leveled : Lookup := ⟨1, [.key (.literal "a")]⟩
    let keyed : Lookup := ⟨0, [.key (.literal "1,a")]⟩
    Trimmed text ∧ hidesLevel text [] [' '] = false ∧
      (Lookup.parse (inParentheses ([] ++ text ++ [' '])) = .ok leveled ↔
        Lookup.parse (inParentheses text) = .ok leveled) ∧
      hidesLevel text [' '] [] = true ∧
      (Lookup.parse (inParentheses ([' '] ++ text ++ [])) = .ok keyed ↔
        keyed.up = 0 ∧ parseSteps text 0 = .ok keyed.steps) := by
  intro text leveled keyed
  have ht : Trimmed text := ⟨fun c hc => by cases hc; rfl, fun c hc => by cases hc; rfl⟩
  have hslash : '\\' ∉ text := by decide
  have hblank : ∀ c ∈ [' '], Text.isBlank c = true := List.forall_mem_singleton.mpr rfl
  have hnone : ∀ c ∈ ([] : List Char), Text.isBlank c = true := List.forall_mem_nil _
  have hafter : hidesLevel text [] [' '] = false := by decide
  have hbefore : hidesLevel text [' '] [] = true := by decide
  exact ⟨ht, hafter, (parse_padded ht hslash rfl hnone hblank leveled).1 hafter, hbefore,
    (parse_padded ht hslash rfl hblank hnone keyed).2 hbefore⟩

/-- A level alone is hidden by a blank on either side. -/
theorem parse_padded_key :
    Lookup.parse "@(1)".toList = .ok ⟨1, []⟩ ∧
      Lookup.parse "@( 1)".toList = .ok ⟨0, [.key (.literal "1")]⟩ ∧
      Lookup.parse "@(1 )".toList = .ok ⟨0, [.key (.literal "1")]⟩ := by
  decide +kernel

end

end Pattern
end Reshape
