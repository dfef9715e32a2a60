import Reshape.Pattern.Grammar
import Reshape.Proofs.Pattern.Scan
/-!
# The marker of a list and the escapes before it

A key is read from the left, and a backslash takes the character after it. The marker is looked for
from the right instead, by the parity of the backslashes before it. Both agree: the run of
backslashes at the end of a text is odd if and only if a reading from the left has a backslash left
over. Canonical forms leave none over and do not end in a marker of their own.
-/
namespace Reshape.Pattern

/-! ## Reading from the left -/

/-- The characters of a text, and whether a backslash takes them when the text is read from the
left. -/
def leftReading : List Char → List (Char × Bool)
  | [] => []
  | '\\' :: c :: rest => ('\\', false) :: (c, true) :: leftReading rest
  | c :: rest => (c, false) :: leftReading rest

/-- A text is put together from escapes and other characters, with a backslash left over or not. -/
theorem escapes_induction {motive : List Char → Prop} (nil : motive [])
    (dangling : motive ['\\'])
    (escaped : ∀ c rest, motive rest → motive ('\\' :: c :: rest))
    (char : ∀ c rest, c ≠ '\\' → motive rest → motive (c :: rest)) (text : List Char) :
    motive text := by
  fun_induction leftReading text with
  | case1 => exact nil
  | case2 c rest ih => exact escaped c rest ih
  | case3 c rest hescape ih =>
    by_cases hc : c = '\\'
    · subst hc
      cases rest with
      | nil => exact dangling
      | cons d rest => exact absurd rfl (hescape d rest rfl)
    · exact char c rest hc ih

@[simp] theorem leftReading_char {c : Char} (h : c ≠ '\\') (rest : List Char) :
    leftReading (c :: rest) = (c, false) :: leftReading rest := by
  rw [leftReading]
  exact fun _ _ hc _ => h hc

@[simp] theorem unescape_char {c : Char} (h : c ≠ '\\') (rest : List Char) :
    unescape (c :: rest) = c :: unescape rest := by
  rw [unescape]
  · exact fun _ _ hc _ => h hc
  · exact fun hc _ => h hc

/-- Unescaping keeps what a backslash takes, and of the other characters those that are no
backslashes. -/
theorem unescape_eq_filter (text : List Char) :
    unescape text = ((leftReading text).filter fun p => p.2 || p.1 != '\\').map Prod.fst := by
  induction text using escapes_induction with
  | nil | dangling => rfl
  | escaped c rest ih => simp [unescape, leftReading, ih]
  | char c rest hc ih => simp [hc, ih]

/-! ## Backslashes at the end -/

@[simp] theorem endsWithEscape_escaped (c : Char) (rest : List Char) :
    endsWithEscape ('\\' :: c :: rest) = endsWithEscape rest := by
  have hreverse : ('\\' :: c :: rest).reverse = rest.reverse ++ [c, '\\'] := by simp
  rw [endsWithEscape, endsWithEscape, hreverse, List.takeWhile_append]
  split
  · -- The rest is a run of backslashes, which this one and `c` make longer by two or by none.
    rename_i hrun
    by_cases hc : c = '\\'
    · simp [hc, hrun, Nat.add_mod_right]
    · simp [hc, hrun]
  · rfl

@[simp] theorem endsWithEscape_char {c : Char} (h : c ≠ '\\') (rest : List Char) :
    endsWithEscape (c :: rest) = endsWithEscape rest := by
  rw [endsWithEscape, endsWithEscape, List.reverse_cons, List.takeWhile_append]
  split
  · rename_i hrun
    simp [h, hrun]
  · rfl

theorem endsWithEscape_append {text : List Char} (h : endsWithEscape text = false)
    (more : List Char) : endsWithEscape (text ++ more) = endsWithEscape more := by
  induction text using escapes_induction with
  | nil => rfl
  | dangling => cases h
  | escaped c rest ih =>
    rw [endsWithEscape_escaped] at h
    exact (endsWithEscape_escaped c _).trans (ih h)
  | char c rest hc ih =>
    rw [endsWithEscape_char hc] at h
    exact (endsWithEscape_char hc _).trans (ih h)

/-- A text that leaves no backslash over does not change how what follows is read. -/
theorem leftReading_append {text : List Char} (h : endsWithEscape text = false)
    (more : List Char) : leftReading (text ++ more) = leftReading text ++ leftReading more := by
  induction text using escapes_induction with
  | nil => rfl
  | dangling => cases h
  | escaped c rest ih =>
    rw [endsWithEscape_escaped] at h
    simp [leftReading, ih h]
  | char c rest hc ih =>
    rw [endsWithEscape_char hc] at h
    simp [hc, ih h]

/-- The parity of the backslashes at the end says whether the next character is taken. -/
theorem leftReading_next (text : List Char) (c : Char) (more : List Char) :
    (leftReading (text ++ c :: more))[text.length]? = some (c, endsWithEscape text) := by
  induction text using escapes_induction with
  | nil =>
    by_cases hc : c = '\\'
    · subst hc
      cases more <;> rfl
    · rw [List.nil_append, leftReading_char hc]
      rfl
  | dangling => rfl
  | escaped d rest ih =>
    rw [endsWithEscape_escaped, ← ih]
    rfl
  | char d rest hd ih =>
    rw [endsWithEscape_char hd, ← ih, List.cons_append, leftReading_char hd]
    rfl

/-! ## The marker -/

theorem stripArrayMarker_append (name : String) :
    stripArrayMarker (name ++ "[]") =
      if endsWithEscape name.toList then (name ++ "[]", false) else (name, true) := by
  have hreverse : (name ++ "[]").toList.reverse = ']' :: '[' :: name.toList.reverse := by simp
  simp only [stripArrayMarker, hreverse, List.reverse_reverse, String.ofList_toList]

theorem stripArrayMarker_of_ne {key : String} (h : ∀ name, key ≠ name ++ "[]") :
    stripArrayMarker key = (key, false) := by
  rw [stripArrayMarker]
  split
  · rename_i text htext
    refine absurd ?_ (h (String.ofList text.reverse))
    rw [List.reverse_eq_iff] at htext
    rw [← String.toList_inj, htext]
    simp
  · rfl

theorem stripArrayMarker_eq_marked_iff {key name : String} :
    stripArrayMarker key = (name, true) ↔
      key = name ++ "[]" ∧ endsWithEscape name.toList = false := by
  by_cases h : ∃ text, key = text ++ "[]"
  · obtain ⟨text, rfl⟩ := h
    rw [stripArrayMarker_append, String.append_left_inj]
    cases hescape : endsWithEscape text.toList with
    | true =>
      refine ⟨nofun, ?_⟩
      rintro ⟨rfl, hname⟩
      rw [hescape] at hname
      cases hname
    | false =>
      rw [if_neg Bool.false_ne_true, Prod.mk.injEq]
      refine and_congr_right ?_
      rintro rfl
      simp [hescape]
  · rw [not_exists] at h
    rw [stripArrayMarker_of_ne h]
    exact ⟨nofun, fun ⟨hkey, _⟩ => absurd hkey (h name)⟩

/-- Every backslash of the text takes a character, and every opening bracket is taken by one. -/
structure Bracketless (text : List Char) : Prop where
  closed : endsWithEscape text = false
  escaped : ('[', false) ∉ leftReading text

namespace Bracketless

variable {text more : List Char}

theorem nil : Bracketless [] := ⟨rfl, nofun⟩

theorem char {c : Char} (hb : c ≠ '\\') (ho : c ≠ '[') (h : Bracketless text) :
    Bracketless (c :: text) := by
  refine ⟨(endsWithEscape_char hb text).trans h.closed, fun hm => ?_⟩
  rw [leftReading_char hb] at hm
  rcases List.mem_cons.mp hm with he | hm
  · exact ho (Prod.mk.inj he).1.symm
  · exact h.escaped hm

theorem append (h : Bracketless text) (hm : Bracketless more) : Bracketless (text ++ more) := by
  refine ⟨(endsWithEscape_append h.closed more).trans hm.closed, ?_⟩
  rw [leftReading_append h.closed, List.mem_append]
  exact not_or.mpr ⟨h.escaped, hm.escaped⟩

theorem flatMap {α : Type} {f : α → List Char} (h : ∀ a, Bracketless (f a)) (l : List α) :
    Bracketless (l.flatMap f) := by
  induction l with
  | nil => exact nil
  | cons a l ih => exact (h a).append ih

theorem escape (text : List Char) : Bracketless (Pattern.escape text) := by
  induction text with
  | nil => exact nil
  | cons c text ih =>
    rw [Pattern.escape]
    split
    · refine ⟨(endsWithEscape_escaped c _).trans ih.closed, ?_⟩
      simp [leftReading, ih.escaped]
    · rename_i hspecial
      refine ih.char ?_ ?_ <;> rintro rfl <;> exact hspecial (by decide)

theorem digits {digits : List Char} (h : ∀ c ∈ digits, Text.isDigit c = true) :
    Bracketless digits := by
  induction digits with
  | nil => exact nil
  | cons c digits ih =>
    obtain ⟨hc, hdigits⟩ := List.forall_mem_cons.mp h
    refine (ih hdigits).char ?_ ?_ <;> rintro rfl <;> revert hc <;> decide

theorem toDigits (n : Nat) : Bracketless (Nat.toDigits 10 n) :=
  .digits fun _ => Scan.isDigit_of_mem_toDigits

/-- No marker can be taken off. -/
theorem stripArrayMarker_eq (h : Bracketless text) :
    stripArrayMarker (String.ofList text) = (String.ofList text, false) := by
  by_cases hmarked : ∃ name, String.ofList text = name ++ "[]"
  · obtain ⟨name, hname⟩ := hmarked
    have htext : text = name.toList ++ ['[', ']'] := by
      rw [← String.toList_ofList (l := text), hname, String.toList_append]
      rfl
    have hmem : ('[', endsWithEscape name.toList) ∈ leftReading text := by
      rw [htext]
      exact List.mem_of_getElem? (leftReading_next name.toList '[' [']'])
    have hescape : endsWithEscape name.toList = true := by
      refine (Bool.eq_false_or_eq_true _).resolve_right fun hfree => h.escaped ?_
      rwa [hfree] at hmem
    rw [hname, stripArrayMarker_append, if_pos hescape]
  · exact stripArrayMarker_of_ne (not_exists.mp hmarked)

end Bracketless

/-! ## Canonical forms -/

theorem Reference.canonical_bracketless (r : Reference) : Bracketless (r.canonical '&') := by
  refine .char (by decide) (by decide) (.append (.append ?_ ?_) ?_)
  · exact .char (by decide) (by decide) (.toDigits r.level)
  · exact .char (by decide) (by decide) (.toDigits r.group)
  · exact .char (by decide) (by decide) .nil

theorem Template.canonical_bracketless (t : Template) : Bracketless t.canonical := by
  refine .flatMap (fun segment => ?_) t.segments
  cases segment with
  | text text => exact .escape text.toList
  | reference r => exact r.canonical_bracketless

theorem Glob.canonical_bracketless (g : Glob) : Bracketless g.canonical := by
  refine (Bracketless.escape g.first).append (.flatMap (fun part => ?_) g.others)
  exact .char (by decide) (by decide) (.escape part)

namespace Element

/-- Brackets stand in a canonical form behind backslashes or between parentheses. -/
theorem canonicalChars_cases (e : Element) :
    Bracketless e.canonicalChars ∨ ∃ inner, e.canonicalChars = inner ++ [')'] := by
  cases e with
  | literal text => exact .inl (.escape text.toList)
  | any => exact .inl (.char (by decide) (by decide) .nil)
  | glob g => exact .inl g.canonical_bracketless
  | reference t => exact .inl t.canonical_bracketless
  | matchedKey r => exact .inr ⟨_, rfl⟩
  | value => exact .inl (.char (by decide) (by decide) .nil)
  | count up => exact .inr ⟨_, rfl⟩
  | constant text => exact .inl (.char (by decide) (by decide) (.escape text.toList))
  | lookup l => exact .inr ⟨_, rfl⟩

@[simp]
theorem endsWithEscape_canonical (e : Element) : endsWithEscape e.canonical.toList = false := by
  rw [canonical, String.toList_ofList]
  rcases e.canonicalChars_cases with h | ⟨inner, h⟩
  · exact h.closed
  · rw [h, endsWithEscape, List.reverse_append]
    rfl

@[simp] theorem stripArrayMarker_canonical (e : Element) :
    stripArrayMarker e.canonical = (e.canonical, false) := by
  rcases e.canonicalChars_cases with h | ⟨inner, h⟩
  · exact h.stripArrayMarker_eq
  · -- There may be open brackets inside of a lookup, but what ends in `)` has no `[]` at its end.
    refine stripArrayMarker_of_ne fun name he => ?_
    have hlast := congrArg (fun key => key.toList.getLast?) he
    simp [canonical, h] at hlast

@[simp] theorem stripArrayMarker_canonical_append (e : Element) :
    stripArrayMarker (e.canonical ++ "[]") = (e.canonical, true) :=
  stripArrayMarker_eq_marked_iff.mpr ⟨rfl, e.endsWithEscape_canonical⟩

end Element

/-- **The marker of a list agrees with the escapes.** A key is marked if and only if it ends in `[]`
and a reading from the left finds that no backslash takes the bracket. It is the reading that
unescaping follows. The canonical form of any element, in particular of one that a key gives and
that may have a spec below it, is not marked, and a marker put behind it is found. -/
theorem arrayMarker_agrees :
    (∀ key name : String, stripArrayMarker key = (name, true) ↔
      key = name ++ "[]" ∧ (leftReading key.toList)[name.length]? = some ('[', false)) ∧
    (∀ text : List Char,
      unescape text = ((leftReading text).filter fun p => p.2 || p.1 != '\\').map Prod.fst) ∧
    ∀ e : Element, stripArrayMarker e.canonical = (e.canonical, false) ∧
      stripArrayMarker (e.canonical ++ "[]") = (e.canonical, true) := by
  refine ⟨fun key name => ?_, unescape_eq_filter, fun e =>
    ⟨e.stripArrayMarker_canonical, e.stripArrayMarker_canonical_append⟩⟩
  rw [stripArrayMarker_eq_marked_iff]
  refine and_congr_right ?_
  rintro rfl
  have hnext : (leftReading (name ++ "[]").toList)[name.length]? =
      some ('[', endsWithEscape name.toList) := by
    rw [String.toList_append, ← String.length_toList]
    exact leftReading_next name.toList '[' [']']
  rw [hnext, Option.some.injEq, Prod.mk.injEq]
  exact (and_iff_right rfl).symm

/-- Two backslashes take each other, three take the bracket. -/
example : stripArrayMarker "a\\\\[]" = ("a\\\\", true) ∧
    stripArrayMarker "a\\\\\\[]" = ("a\\\\\\[]", false) := by
  decide

end Reshape.Pattern
