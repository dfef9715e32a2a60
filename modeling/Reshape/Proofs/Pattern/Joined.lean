import Reshape.Proofs.Pattern.Balanced
/-!
# Parts joined by a separator

A text that a split leaves whole is a single part wherever it stands. So parts that are whole, with
separators between them, are split into these parts again.
-/
namespace Reshape.Pattern

/-- With a number of open parentheses and open brackets in front of it, the text is read to its end
without a cut, and all of them are closed there. -/
inductive Whole (separator : Char) : (parentheses brackets : Nat) → List Char → Prop
  | nil : Whole separator 0 0 []
  | escaped {p b : Nat} {c : Char} {text : List Char} (tail : Whole separator p b text) :
    Whole separator p b ('\\' :: c :: text)
  | parenthesis {p b : Nat} {text : List Char} (tail : Whole separator (p + 1) b text) :
    Whole separator p b ('(' :: text)
  | parenthesisClosed {p b : Nat} {text : List Char} (tail : Whole separator p b text) :
    Whole separator (p + 1) b (')' :: text)
  | bracket {p b : Nat} {text : List Char} (tail : Whole separator p (b + 1) text) :
    Whole separator p b ('[' :: text)
  | bracketClosed {p b : Nat} {text : List Char} (tail : Whole separator p b text) :
    Whole separator p (b + 1) (']' :: text)
  | char {p b : Nat} {c : Char} {text : List Char} (plain : c ∉ groupChars)
    (kept : ¬ (c = separator ∧ p = 0 ∧ b = 0)) (tail : Whole separator p b text) :
    Whole separator p b (c :: text)

variable {separator : Char}

/-- What a split makes of the text behind its part in progress: it takes a beginning of the text to
the part, and goes on behind the separator, if one follows. -/
structure Split.Takes (separator : Char) (split : Split) (position : Nat) (text : List Char)
    (taken : List Char) (rest : List (List Char × Nat)) : Prop where
  whole : Whole separator split.parentheses.length split.brackets.length taken
  behind : text = taken ∧ rest = [] ∨ ∃ behind, text = taken ++ separator :: behind ∧
    splitFrom separator ⟨[], position + taken.length + 1, [], []⟩ (position + taken.length + 1)
      behind = .ok rest

namespace Split.Takes

variable {split : Split} {position : Nat} {text taken : List Char}
  {rest : List (List Char × Nat)}

/-- A split takes a few characters more than the one that goes on behind them. -/
theorem prepend {next : Split} (more : List Char)
    (h : next.Takes separator (position + more.length) text taken rest)
    (hwhole : Whole separator split.parentheses.length split.brackets.length (more ++ taken)) :
    split.Takes separator position (more ++ text) (more ++ taken) rest := by
  refine ⟨hwhole, ?_⟩
  rcases h.behind with ⟨rfl, rfl⟩ | ⟨behind, rfl, hrest⟩
  · exact .inl ⟨rfl, rfl⟩
  · refine .inr ⟨behind, (List.append_assoc _ _ _).symm, ?_⟩
    rwa [List.length_append, ← Nat.add_assoc]

end Split.Takes

/-- The first part of a split goes on with what is taken, and there is a cut behind it unless the
text ends there. -/
theorem takes_of_splitFrom {split : Split} {position : Nat} {text : List Char}
    {parts : List (List Char × Nat)} (h : splitFrom separator split position text = .ok parts) :
    ∃ taken rest, parts = (split.part.reverse ++ taken, split.start) :: rest ∧
      split.Takes separator position text taken rest := by
  fun_induction splitFrom separator split position text generalizing parts with
  | case1 | case2 | case4 | case7 | case10 => cases h
  | case3 split position hb hp =>
    cases h
    refine ⟨[], [], by rw [List.append_nil], ?_, .inl ⟨rfl, rfl⟩⟩
    rw [hp, hb]
    exact .nil
  | case5 split position c rest ih =>
    obtain ⟨taken, more, rfl, htakes⟩ := ih h
    exact ⟨'\\' :: c :: taken, more, by simp, htakes.prepend ['\\', c] (.escaped htakes.whole)⟩
  | case6 split position rest ih =>
    obtain ⟨taken, more, rfl, htakes⟩ := ih h
    exact ⟨'(' :: taken, more, by simp, htakes.prepend ['('] (.parenthesis htakes.whole)⟩
  | case8 split position rest first outer hp ih =>
    obtain ⟨taken, more, rfl, htakes⟩ := ih h
    refine ⟨')' :: taken, more, by simp, htakes.prepend [')'] ?_⟩
    rw [hp]
    exact .parenthesisClosed htakes.whole
  | case9 split position rest ih =>
    obtain ⟨taken, more, rfl, htakes⟩ := ih h
    exact ⟨'[' :: taken, more, by simp, htakes.prepend ['['] (.bracket htakes.whole)⟩
  | case11 split position rest first outer hb ih =>
    obtain ⟨taken, more, rfl, htakes⟩ := ih h
    refine ⟨']' :: taken, more, by simp, htakes.prepend [']'] ?_⟩
    rw [hb]
    exact .bracketClosed htakes.whole
  | case12 split position c rest _ _ _ _ _ _ hcut _ =>
    simp only [Bool.and_eq_true, beq_iff_eq, List.isEmpty_iff] at hcut
    obtain ⟨⟨rfl, hp⟩, hb⟩ := hcut
    cases hrest : splitFrom c ⟨[], position + 1, [], []⟩ (position + 1) rest with
    | error e => rw [hrest] at h; cases h
    | ok more =>
      rw [hrest] at h
      cases h
      refine ⟨[], more, by rw [List.append_nil], ?_, .inr ⟨rest, rfl, hrest⟩⟩
      rw [hp, hb]
      exact .nil
  | case13 split position c rest hend hescape hopen hclose hopen' hclose' hcut ih =>
    obtain ⟨taken, more, rfl, htakes⟩ := ih h
    refine ⟨c :: taken, more, by simp, htakes.prepend [c] (.char ?_ ?_ htakes.whole)⟩
    · simp only [groupChars, List.mem_cons, List.not_mem_nil, or_false, not_or]
      refine ⟨fun hc => ?_, hopen, hclose, hopen', hclose'⟩
      cases rest with
      | nil => exact hend hc rfl
      | cons d rest => exact hescape d rest hc rfl
    · rintro ⟨rfl, hp, hb⟩
      rw [List.length_eq_zero_iff.mp hp, List.length_eq_zero_iff.mp hb] at hcut
      exact hcut (by simp)

namespace Whole

theorem splitFrom_ne_nil (separator : Char) (split : Split) (position : Nat) (text : List Char) :
    splitFrom separator split position text ≠ .ok [] := by
  intro h
  obtain ⟨taken, rest, hparts, -⟩ := takes_of_splitFrom h
  cases hparts

/-- A text with one part is whole. -/
theorem of_splitFrom {split : Split} {position : Nat} {text : List Char}
    {part : List Char × Nat} (h : splitFrom separator split position text = .ok [part]) :
    Whole separator split.parentheses.length split.brackets.length text := by
  obtain ⟨taken, rest, hparts, htakes⟩ := takes_of_splitFrom h
  cases hparts
  rcases htakes.behind with ⟨rfl, -⟩ | ⟨behind, -, hrest⟩
  · exact htakes.whole
  · exact absurd hrest (splitFrom_ne_nil separator _ _ behind)

/-- A split passes over a whole text and keeps it as part of what is in progress. -/
theorem splitFrom_eq {text : List Char} {p b : Nat} (h : Whole separator p b text)
    {part : List Char} {start : Nat} {parentheses brackets : List Nat}
    (hp : parentheses.length = p) (hb : brackets.length = b) (position : Nat)
    (rest : List Char) :
    splitFrom separator ⟨part, start, parentheses, brackets⟩ position (text ++ rest) =
      splitFrom separator ⟨text.reverse ++ part, start, [], []⟩ (position + text.length) rest := by
  induction h generalizing part parentheses brackets position with
  | nil =>
    rw [List.length_eq_zero_iff.mp hp, List.length_eq_zero_iff.mp hb]
    rfl
  | escaped _ ih =>
    rw [List.cons_append, List.cons_append, Balanced.splitFrom_escaped, ih hp hb]
    simp [Nat.add_comm, Nat.add_left_comm]
  | parenthesis _ ih =>
    rw [List.cons_append, Balanced.splitFrom_parenthesis, ih (congrArg (· + 1) hp) hb]
    simp [Nat.add_comm, Nat.add_left_comm]
  | parenthesisClosed _ ih =>
    obtain ⟨opened, parentheses, rfl⟩ := List.exists_cons_of_length_eq_add_one hp
    rw [List.cons_append, Balanced.splitFrom_parenthesis_closed, ih (Nat.succ.inj hp) hb]
    simp [Nat.add_comm, Nat.add_left_comm]
  | bracket _ ih =>
    rw [List.cons_append, Balanced.splitFrom_bracket, ih hp (congrArg (· + 1) hb)]
    simp [Nat.add_comm, Nat.add_left_comm]
  | bracketClosed _ ih =>
    obtain ⟨opened, brackets, rfl⟩ := List.exists_cons_of_length_eq_add_one hb
    rw [List.cons_append, Balanced.splitFrom_bracket_closed, ih hp (Nat.succ.inj hb)]
    simp [Nat.add_comm, Nat.add_left_comm]
  | @char p b c text plain kept _ ih =>
    have hkeep : (c == separator && parentheses.isEmpty && brackets.isEmpty) = false := by
      rw [Bool.eq_false_iff]
      intro hcut
      simp only [Bool.and_eq_true, beq_iff_eq, List.isEmpty_iff] at hcut
      obtain ⟨⟨hc, rfl⟩, rfl⟩ := hcut
      exact kept ⟨hc, hp.symm, hb.symm⟩
    rw [List.cons_append, Balanced.splitFrom_char plain, hkeep, if_neg Bool.false_ne_true,
      ih hp hb]
    simp [Nat.add_comm, Nat.add_left_comm]

theorem splitFrom_top {text : List Char} (h : Whole separator 0 0 text) (start position : Nat)
    (rest : List Char) :
    splitFrom separator ⟨[], start, [], []⟩ position (text ++ rest) =
      splitFrom separator ⟨text.reverse, start, [], []⟩ (position + text.length) rest := by
  have hpass : splitFrom separator ⟨[], start, [], []⟩ position (text ++ rest) =
      splitFrom separator ⟨text.reverse ++ [], start, [], []⟩ (position + text.length) rest :=
    h.splitFrom_eq rfl rfl position rest
  rwa [List.append_nil] at hpass

end Whole

/-- A text that a split leaves as it is. -/
def IsSinglePart (separator : Char) (text : List Char) : Prop :=
  splitTopLevel text separator = .ok [(text, 0)]

theorem Balanced.isSinglePart {text : List Char}
    (h : Balanced separator false text) : IsSinglePart separator text := by
  have htop := h.splitFrom_top [] 0 0 []
  rw [List.append_nil, List.append_nil] at htop
  rw [IsSinglePart, splitTopLevel, htop, splitFrom, List.reverse_reverse]

theorem Whole.isSinglePart {text : List Char} (h : Whole separator 0 0 text) :
    IsSinglePart separator text := by
  have htop := h.splitFrom_top 0 0 []
  rw [List.append_nil] at htop
  rw [IsSinglePart, splitTopLevel, htop, splitFrom, List.reverse_reverse]

/-- Single parts with separators between them are split into these parts. -/
theorem splitTopLevel_intercalate (hs : separator ∉ groupChars)
    {parts : List (List Char)} (hne : parts ≠ [])
    (h : ∀ part ∈ parts, IsSinglePart separator part) :
    ∃ found, splitTopLevel ([separator].intercalate parts) separator = .ok found ∧
      found.map Prod.fst = parts := by
  obtain ⟨first, parts, rfl⟩ := List.exists_cons_of_ne_nil hne
  -- The offset of a part depends on those before it, so the induction is on every offset.
  have hfrom : ∀ start position, ∃ found,
      splitFrom separator ⟨[], start, [], []⟩ position
        ([separator].intercalate (first :: parts)) = .ok found ∧
      found.map Prod.fst = first :: parts := by
    induction parts generalizing first with
    | nil =>
      intro start position
      have hwhole : Whole separator 0 0 first := .of_splitFrom (h first List.mem_cons_self)
      have hpass := hwhole.splitFrom_top start position []
      refine ⟨[(first, start)], ?_, rfl⟩
      rw [List.append_nil] at hpass
      rw [List.intercalate_singleton, hpass, splitFrom, List.reverse_reverse]
    | cons next parts ih =>
      intro start position
      obtain ⟨hfirst, hrest⟩ := List.forall_mem_cons.mp h
      have hwhole : Whole separator 0 0 first := .of_splitFrom hfirst
      obtain ⟨found, hfound, hparts⟩ := ih next (List.cons_ne_nil _ _) hrest
        (position + first.length + 1) (position + first.length + 1)
      refine ⟨(first, start) :: found, ?_, congrArg (first :: ·) hparts⟩
      rw [List.intercalate_cons_cons, List.append_assoc, List.singleton_append,
        hwhole.splitFrom_top, Balanced.splitFrom_char hs, if_pos (by simp), hfound,
        List.reverse_reverse]
      rfl
  exact hfrom 0 0

end Reshape.Pattern
