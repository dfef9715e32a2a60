import Reshape.Proofs.Order
import Reshape.Proofs.Pattern.Escaped
import Reshape.Proofs.Pattern.Wildcard
/-!
# The more specific pattern is tried first

The canonical form of a pattern is no longer than any key that it matches, escaped, and as long as
the key in which every star stands for one plain character. So a pattern that matches whatever
another one matches is at most as long, and precedence does not prefer it.
-/
namespace Reshape

@[simp] theorem Text.utf8ByteSize_ofList (text : List Char) :
    (String.ofList text).utf8ByteSize = utf8Size text := by
  induction text with
  | nil => rfl
  | cons c text ih =>
    rw [String.ofList_cons, String.utf8ByteSize_append, String.utf8ByteSize_singleton, ih]
    rfl

namespace Pattern

open Text (utf8Size utf8Size_append utf8Size_pos_iff)

@[simp] theorem Element.utf8ByteSize_canonical (e : Element) :
    e.canonical.utf8ByteSize = utf8Size e.canonicalChars :=
  Text.utf8ByteSize_ofList _

theorem utf8Size_escape_append (text more : List Char) :
    utf8Size (escape (text ++ more)) = utf8Size (escape text) + utf8Size (escape more) := by
  rw [escape_append, utf8Size_append]

/-! ## Matched keys are long enough -/

/-- Each capture makes up for its star. -/
theorem Woven.utf8Size_le {parts captures : List (List Char)} {text : List Char}
    (h : Woven parts captures text) :
    utf8Size (parts.flatMap fun part => '*' :: escape part) ≤ utf8Size (escape text) := by
  induction h with
  | nil => exact Nat.le_refl _
  | @cons part capture rest parts captures hne _ ih =>
    have hcapture : 0 < utf8Size (escape capture) := utf8Size_pos_iff.mpr (escape_ne_nil hne)
    have hstar : utf8Size ('*' :: escape part) = 1 + utf8Size (escape part) := rfl
    rw [List.flatMap_cons, utf8Size_append, hstar, utf8Size_escape_append, utf8Size_escape_append]
    omega

theorem Glob.Cuts.utf8Size_le {g : Glob} {text : List Char} {captures : List (List Char)}
    (h : g.Cuts text captures) : utf8Size g.canonical ≤ utf8Size (escape text) := by
  obtain ⟨rest, rfl, hwoven⟩ := h
  have hrest := hwoven.utf8Size_le
  rw [Glob.canonical, utf8Size_append, utf8Size_escape_append]
  omega

/-! ## The shortest key that is matched -/

/-- The parts with one plain character for each star. -/
def filled : List (List Char) → List Char
  | [] => []
  | part :: parts => 'x' :: (part ++ filled parts)

def Glob.leastKey (g : Glob) : List Char := g.first ++ filled g.others

theorem woven_filled (parts : List (List Char)) :
    Woven parts (List.replicate parts.length ['x']) (filled parts) := by
  induction parts with
  | nil => exact .nil
  | cons part parts ih => exact .cons (List.cons_ne_nil 'x' []) ih

theorem Glob.cuts_leastKey (g : Glob) :
    g.Cuts g.leastKey (List.replicate g.others.length ['x']) :=
  ⟨_, rfl, woven_filled g.others⟩

theorem utf8Size_escape_filled (parts : List (List Char)) :
    utf8Size (escape (filled parts)) =
      utf8Size (parts.flatMap fun part => '*' :: escape part) := by
  induction parts with
  | nil => rfl
  | cons part parts ih =>
    have hstar (text : List Char) : utf8Size ('*' :: text) = 1 + utf8Size text := rfl
    have hplain (text : List Char) : utf8Size (escape ('x' :: text)) = 1 + utf8Size (escape text) :=
      rfl
    rw [filled, hplain, utf8Size_escape_append, ih, List.flatMap_cons, List.cons_append, hstar,
      utf8Size_append]

theorem Glob.utf8Size_leastKey (g : Glob) :
    utf8Size (escape g.leastKey) = utf8Size g.canonical := by
  rw [leastKey, utf8Size_escape_append, utf8Size_escape_filled, canonical, utf8Size_append]

theorem Glob.isSome_captures?_iff {g : Glob} {key : String} :
    (g.captures? key).isSome = true ↔ ∃ captures : List String,
      g.Cuts key.toList (captures.map String.toList) ∧
        ∀ capture ∈ captures.map String.toList, ∀ c ∈ capture, g.allows c = true :=
  (g.captures?_shortest key).isSome_iff

/-- The plain character is no line feed, so any number of stars allow it. -/
theorem Glob.captures?_leastKey (g : Glob) :
    (g.captures? (String.ofList g.leastKey)).isSome = true := by
  have htexts : (List.replicate g.others.length "x").map String.toList =
      List.replicate g.others.length ['x'] := List.map_replicate
  refine isSome_captures?_iff.mpr ⟨List.replicate g.others.length "x", ?_, ?_⟩
  · rw [htexts, String.toList_ofList]
    exact g.cuts_leastKey
  · rw [htexts]
    intro capture hcapture c hc
    rw [List.eq_of_mem_replicate hcapture, List.mem_singleton] at hc
    rw [hc, allows, Bool.or_eq_true]
    exact .inr rfl

/-! ## Elements -/

namespace Element

variable {e p q : Element} {frames : Frames}

/-- A key that a pattern matches is at least as long, escaped, except that the single star matches
the empty key too. -/
theorem utf8Size_le_of_match? (hstar : e.isStar = true) {key : String}
    (h : (e.match? key frames).isSome = true) :
    utf8Size e.canonicalChars ≤ max 1 (utf8Size (escape key.toList)) := by
  cases e with
  | any => exact Nat.le_max_left _ _
  | glob g =>
    rw [match?, Option.isSome_map] at h
    obtain ⟨captures, hcuts, -⟩ := Glob.isSome_captures?_iff.mp h
    exact Nat.le_trans hcuts.utf8Size_le (Nat.le_max_right _ _)
  | _ => cases hstar

theorem WellFormed.canonicalChars_pos (hw : e.WellFormed) (hstar : e.isStar = true) :
    1 ≤ utf8Size e.canonicalChars := by
  cases e with
  | any => decide
  | glob g =>
    obtain ⟨part, parts, hothers⟩ := List.exists_cons_of_ne_nil hw.star
    refine utf8Size_pos_iff.mpr fun he => ?_
    rw [canonicalChars, Glob.canonical, hothers] at he
    exact List.cons_ne_nil _ _ (List.append_eq_nil_iff.mp he).2
  | _ => cases hstar

/-- Some key is matched that is no longer, escaped, than the pattern. -/
theorem exists_least_match? (hstar : e.isStar = true) (frames : Frames) :
    ∃ key : String, (e.match? key frames).isSome = true ∧
      utf8Size (escape key.toList) ≤ utf8Size e.canonicalChars := by
  cases e with
  | any => exact ⟨"", rfl, Nat.zero_le _⟩
  | glob g =>
    refine ⟨String.ofList g.leastKey, ?_, ?_⟩
    · rw [match?, Option.isSome_map]
      exact g.captures?_leastKey
    · rw [String.toList_ofList, g.utf8Size_leastKey]
      exact Nat.le_refl _
  | _ => cases hstar

theorem rank_of_isStar (hstar : e.isStar = true) : e.rank = 2 := by
  cases e with
  | any | glob g => rfl
  | _ => cases hstar

/-- Of two patterns the longer one comes first. -/
theorem comparePrecedence_of_lt (hp : p.isStar = true) (hq : q.isStar = true)
    (h : q.canonical.utf8ByteSize < p.canonical.utf8ByteSize) :
    p.comparePrecedence q = .lt := by
  have hrank : compare p.rank q.rank = .eq := by
    rw [rank_of_isStar hp, rank_of_isStar hq]
    rfl
  rw [comparePrecedence, hrank, Nat.compare_eq_lt.mpr h]
  rfl

end Element

/-- **The more specific pattern is tried first.** If every key that a pattern `p` matches is matched
by a pattern `q`, the canonical form of `p` has at least as many bytes, and unless both have the
same number, `p` comes before `q`. -/
theorem specific_first {raw : String} {p q : Element} (hparse : parseKey raw = .ok p)
    (hp : p.isStar = true) (hq : q.isStar = true) {frames : Frames}
    (h : ∀ key, (p.match? key frames).isSome = true → (q.match? key frames).isSome = true) :
    q.canonical.utf8ByteSize ≤ p.canonical.utf8ByteSize ∧
    (q.canonical.utf8ByteSize ≠ p.canonical.utf8ByteSize →
      p.comparePrecedence q = .lt ∧ q.comparePrecedence p = .gt) := by
  have hle : q.canonical.utf8ByteSize ≤ p.canonical.utf8ByteSize := by
    obtain ⟨key, hmatch, hkey⟩ := Element.exists_least_match? hp frames
    have hsize := Element.utf8Size_le_of_match? hq (h key hmatch)
    have hpos := (parseKey_wellFormed hparse).canonicalChars_pos hp
    rw [Element.utf8ByteSize_canonical, Element.utf8ByteSize_canonical]
    omega
  refine ⟨hle, fun hne => ?_⟩
  have hlt := Element.comparePrecedence_of_lt hp hq (Nat.lt_of_le_of_ne hle hne)
  exact ⟨hlt, Std.OrientedCmp.gt_iff_lt.mpr hlt⟩

/-- A pattern with two stars and an escaped character, and one that has lost its end. -/
theorem specific_first_two_stars :
    let p : Element := .glob ⟨['é', '.'], [['-'], ['x']]⟩
    let q : Element := .glob ⟨['é', '.'], [[]]⟩
    parseKey "é\\.*-*x" = .ok p ∧ parseKey "é\\.*" = .ok q ∧ p.isStar = true ∧ q.isStar = true ∧
    (∀ key, (p.match? key []).isSome = true → (q.match? key []).isSome = true) ∧
    q.canonical.utf8ByteSize ≤ p.canonical.utf8ByteSize ∧
    (q.canonical.utf8ByteSize ≠ p.canonical.utf8ByteSize →
      p.comparePrecedence q = .lt ∧ q.comparePrecedence p = .gt) := by
  intro p q
  have hparseP : parseKey "é\\.*-*x" = .ok p := by decide +kernel
  have hparseQ : parseKey "é\\.*" = .ok q := by decide +kernel
  have hmatch : ∀ key, (p.match? key []).isSome = true → (q.match? key []).isSome = true := by
    intro key hkey
    rw [Element.match?, Option.isSome_map] at hkey ⊢
    obtain ⟨captures, ⟨rest, htext, hwoven⟩, -⟩ := Glob.isSome_captures?_iff.mp hkey
    obtain ⟨capture, more, tail, -, hne, rfl, -⟩ := woven_cons.mp hwoven
    refine Glob.isSome_captures?_iff.mpr
      ⟨[String.ofList (capture ++ (['-'] ++ tail))], ⟨_, htext, ?_⟩, fun _ _ _ _ => rfl⟩
    refine woven_singleton.mpr ⟨capture ++ (['-'] ++ tail), by simp, by simp [hne], by simp⟩
  exact ⟨hparseP, hparseQ, rfl, rfl, hmatch, specific_first hparseP rfl rfl hmatch⟩

end Pattern
end Reshape
