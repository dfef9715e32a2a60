import Reshape.Proofs.Pattern.Joined
/-!
# Where a text is cut

A split that succeeds cuts its text at the separators that stand outside of all groups, and nowhere
else. Its parts with separators between them are the text again, and none of them can be cut
further.
-/
namespace Reshape.Pattern

variable {separator : Char}

/-- The parts of a text that starts at an offset, each a whole one, and each with its own offset. -/
inductive Cuts (separator : Char) : (start : Nat) → List Char → List (List Char × Nat) → Prop
  | last {start : Nat} {part : List Char} (whole : Whole separator 0 0 part) :
    Cuts separator start part [(part, start)]
  | cut {start : Nat} {part behind : List Char} {rest : List (List Char × Nat)}
    (whole : Whole separator 0 0 part)
    (tail : Cuts separator (start + part.length + 1) behind rest) :
    Cuts separator start (part ++ separator :: behind) ((part, start) :: rest)

/-- A split from the start of a part cuts the rest of the text. The induction is on the parts. -/
theorem cuts_of_splitFrom {start : Nat} {text : List Char} {parts : List (List Char × Nat)}
    (h : splitFrom separator ⟨[], start, [], []⟩ start text = .ok parts) :
    Cuts separator start text parts := by
  induction parts generalizing start text with
  | nil => exact absurd h (Whole.splitFrom_ne_nil separator _ start text)
  | cons part rest ih =>
    obtain ⟨taken, more, hparts, htakes⟩ := takes_of_splitFrom h
    cases hparts
    rcases htakes.behind with ⟨rfl, rfl⟩ | ⟨behind, rfl, hrest⟩
    · exact .last htakes.whole
    · exact .cut htakes.whole (ih hrest)

namespace Cuts

variable {start : Nat} {text : List Char} {parts : List (List Char × Nat)}

theorem ne_nil (h : Cuts separator start text parts) : parts ≠ [] := by
  cases h <;> exact List.cons_ne_nil _ _

theorem intercalate_eq (h : Cuts separator start text parts) :
    [separator].intercalate (parts.map Prod.fst) = text := by
  induction h with
  | last _ => exact List.intercalate_singleton
  | cut _ tail ih =>
    rw [List.map_cons, List.intercalate_cons_of_ne_nil (by simpa using tail.ne_nil), ih,
      List.append_assoc, List.singleton_append]

theorem cons_eq_flatMap (h : Cuts separator start text parts) :
    separator :: text = parts.flatMap fun p => separator :: p.1 := by
  induction h with
  | last _ => rw [List.flatMap_singleton]
  | cut _ tail ih => rw [List.flatMap_cons, ← ih, List.cons_append]

theorem whole (h : Cuts separator start text parts) :
    ∀ part ∈ parts, Whole separator 0 0 part.1 := by
  induction h with
  | last whole => exact List.forall_mem_singleton.mpr whole
  | cut whole _ ih => exact List.forall_mem_cons.mpr ⟨whole, ih⟩

/-- A part stands behind the parts before it and a separator for each of them, and its offset is the
length of that. -/
theorem placed (h : Cuts separator start text parts) {before after : List (List Char × Nat)}
    {part : List Char} {position : Nat} (hparts : parts = before ++ (part, position) :: after) :
    text = (before.flatMap fun p => p.1 ++ [separator]) ++ part ++
        after.flatMap (fun p => separator :: p.1) ∧
      position = start + (before.flatMap fun p => p.1 ++ [separator]).length := by
  induction h generalizing before with
  | last _ =>
    cases before with
    | nil =>
      cases hparts
      exact ⟨by rw [List.flatMap_nil, List.flatMap_nil, List.nil_append, List.append_nil], rfl⟩
    | cons _ before =>
      have hnil := (List.cons.inj hparts).2
      exact absurd hnil.symm (List.append_ne_nil_of_right_ne_nil before (List.cons_ne_nil _ _))
  | @cut start first behind rest _ tail ih =>
    cases before with
    | nil =>
      cases hparts
      exact ⟨by rw [List.flatMap_nil, List.nil_append, ← tail.cons_eq_flatMap], rfl⟩
    | cons _ before =>
      obtain ⟨rfl, hrest⟩ := List.cons.inj hparts
      obtain ⟨htext, hposition⟩ := ih hrest
      refine ⟨by simp [htext], ?_⟩
      rw [hposition, List.flatMap_cons, List.length_append, List.length_append,
        List.length_singleton, ← Nat.add_assoc, Nat.add_assoc start]

end Cuts

/-- **A split is undone by joining.** The parts of a split, with separators between them, are the
text; each of them starts at its offset, behind the parts before it; and none of them can be split
further. No other indivisible parts make up the text, unless the separator opens or closes a group
or escapes. -/
theorem intercalate_splitTopLevel {text : List Char} {parts : List (List Char × Nat)}
    (h : splitTopLevel text separator = .ok parts) :
    [separator].intercalate (parts.map Prod.fst) = text ∧
      (∀ before part start after, parts = before ++ (part, start) :: after →
        text = (before.flatMap fun p => p.1 ++ [separator]) ++ part ++
            after.flatMap (fun p => separator :: p.1) ∧
          start = (before.flatMap fun p => p.1 ++ [separator]).length) ∧
      (∀ part ∈ parts, splitTopLevel part.1 separator = .ok [(part.1, 0)]) ∧
      (separator ∉ groupChars → ∀ texts, texts ≠ [] →
        (∀ part ∈ texts, splitTopLevel part separator = .ok [(part, 0)]) →
        [separator].intercalate texts = text → texts = parts.map Prod.fst) := by
  have hcuts : Cuts separator 0 text parts := cuts_of_splitFrom h
  refine ⟨hcuts.intercalate_eq, fun before part start after hparts => ?_,
    fun part hm => (hcuts.whole part hm).isSinglePart, fun hs texts hne hsingle hjoin => ?_⟩
  · have hplaced := hcuts.placed hparts
    rwa [Nat.zero_add] at hplaced
  · obtain ⟨found, hfound, htexts⟩ := splitTopLevel_intercalate hs hne hsingle
    rw [hjoin, h] at hfound
    cases hfound
    exact htexts.symm

/-- Groups of both kinds that interleave, an escaped separator, and an empty part at the end. -/
theorem intercalate_splitTopLevel_groups :
    splitTopLevel "(a[b).c]\\..d.".toList '.' =
        .ok [("(a[b).c]\\.".toList, 0), ("d".toList, 11), ([], 13)] ∧
      ['.'].intercalate ["(a[b).c]\\.".toList, "d".toList, []] = "(a[b).c]\\..d.".toList ∧
      splitTopLevel "(a[b).c]\\.".toList '.' = .ok [("(a[b).c]\\.".toList, 0)] := by
  have h : splitTopLevel "(a[b).c]\\..d.".toList '.' =
      .ok [("(a[b).c]\\.".toList, 0), ("d".toList, 11), ([], 13)] := rfl
  obtain ⟨hjoin, -, hsingle, -⟩ := intercalate_splitTopLevel h
  exact ⟨h, hjoin, hsingle _ List.mem_cons_self⟩

end Reshape.Pattern
