import Reshape.Proofs.Pattern.Element
import Reshape.Proofs.Pattern.Marker
/-!
# Escaped keys stand for themselves

An escaped key is no or-group, has no marker behind it and is parsed to a literal with its text.
Escaped texts with dots between them are the path of these texts.
-/
namespace Reshape.Pattern

@[simp] theorem escape_append (text more : List Char) :
    escape (text ++ more) = escape text ++ escape more := by
  induction text with
  | nil => rfl
  | cons c text ih =>
    rw [List.cons_append, escape, escape, ih]
    split <;> rfl

@[simp] theorem toList_escapeKey (key : String) : (escapeKey key).toList = escape key.toList :=
  String.toList_ofList

@[simp] theorem parseKey_escapeKey (key : String) : parseKey (escapeKey key) = .ok (.literal key) :=
  parseKey_literal key

/-- A key whose bars are all inside of groups or escaped is no or-group. -/
theorem splitAlternatives_of_balanced {key : String} (h : Balanced '|' false key.toList) :
    splitAlternatives key = .ok [key] := by
  have hsplit : splitTopLevel key.toList '|' = .ok [(key.toList, 0)] := by
    have htop := h.splitFrom_top [] 0 0 []
    rw [List.append_nil, List.append_nil] at htop
    rw [splitTopLevel, htop, splitFrom, List.reverse_reverse]
  rw [splitAlternatives, hsplit]
  rfl

@[simp] theorem splitAlternatives_escapeKey (key : String) :
    splitAlternatives (escapeKey key) = .ok [escapeKey key] := by
  refine splitAlternatives_of_balanced ?_
  rw [toList_escapeKey]
  exact .escape rfl key.toList

/-- A bracket at the end of an escaped key has a backslash before it. -/
@[simp] theorem stripArrayMarker_escapeKey (key : String) :
    stripArrayMarker (escapeKey key) = (escapeKey key, false) :=
  (Element.literal key).stripArrayMarker_canonical

/-! ## The key of a list -/

/-- The key of a list: its escaped name with `[]` behind it. -/
def listKey (name : String) : String := String.ofList (escape name.toList ++ ['[', ']'])

@[simp]
theorem toList_listKey (name : String) : (listKey name).toList = escape name.toList ++ ['[', ']'] :=
  String.toList_ofList

theorem listKey_eq (name : String) : listKey name = escapeKey name ++ "[]" :=
  String.ofList_append

@[simp] theorem stripArrayMarker_listKey (name : String) :
    stripArrayMarker (listKey name) = (escapeKey name, true) := by
  rw [listKey_eq]
  exact (Element.literal name).stripArrayMarker_canonical_append

@[simp] theorem splitAlternatives_listKey (name : String) :
    splitAlternatives (listKey name) = .ok [listKey name] := by
  refine splitAlternatives_of_balanced ?_
  rw [toList_listKey]
  exact (Balanced.escape rfl name.toList).append (.brackets .nil .nil)

/-! ## Paths of texts -/

/-- The steps of a path of texts. -/
def textSteps (texts : List String) : List PathStep := texts.map fun text => .key (.literal text)

theorem textSteps_wellFormed {texts : List String} (h : ∀ text ∈ texts, text ≠ "") :
    WellFormedSteps (textSteps texts) := by
  rw [wellFormedSteps_iff]
  intro step hs
  obtain ⟨text, ht, rfl⟩ := List.mem_map.mp hs
  exact Template.literal_normal (h text ht)

theorem continued_textSteps {texts : List String} (h : ∀ text ∈ texts, text ≠ "")
    (first : List Char) :
    first ++ continued (textSteps texts) =
      ['.'].intercalate (first :: texts.map fun text => escape text.toList) := by
  induction texts generalizing first with
  | nil => simp [textSteps, continued]
  | cons text rest ih =>
    obtain ⟨htext, hrest⟩ := List.forall_mem_cons.mp h
    have hcanonical : (PathStep.key (.literal text)).canonical = escape text.toList :=
      Template.canonical_literal htext
    rw [textSteps, List.map_cons, continued_of_dotted rfl, hcanonical, ← textSteps, ih hrest,
      List.map_cons, List.intercalate_cons_cons, List.append_assoc]
    rfl

theorem canonicalSteps_textSteps {texts : List String} (h : ∀ text ∈ texts, text ≠ "") :
    canonicalSteps [] (textSteps texts) =
      ['.'].intercalate (texts.map fun text => escape text.toList) := by
  cases texts with
  | nil => rfl
  | cons first rest =>
    obtain ⟨hfirst, hrest⟩ := List.forall_mem_cons.mp h
    have hcanonical : (PathStep.key (.literal first)).canonical = escape first.toList :=
      Template.canonical_literal hfirst
    have hcontinued := continued_textSteps hrest (escape first.toList)
    rw [← hcanonical] at hcontinued
    rw [List.map_cons, ← hcanonical, ← hcontinued]
    exact canonicalSteps_cons (textSteps_wellFormed h)

theorem toList_escapedPath {texts : List String} (h : ∀ text ∈ texts, text ≠ "") :
    (".".intercalate (texts.map escapeKey)).toList = canonicalSteps [] (textSteps texts) := by
  rw [canonicalSteps_textSteps h, String.toList_intercalate, List.map_map]
  exact congrArg _ (List.map_congr_left fun text _ => toList_escapeKey text)

theorem textSteps_lookup? {texts : List String} {step : PathStep} (h : step ∈ textSteps texts) :
    step.lookup? = none := by
  obtain ⟨text, -, rfl⟩ := List.mem_map.mp h
  rfl

/-- Escaped texts with dots between them are read as the path of the texts. -/
theorem parseSteps_escaped {texts : List String} (h : ∀ text ∈ texts, text ≠ "") :
    parseSteps (".".intercalate (texts.map escapeKey)).toList 0 = .ok (textSteps texts) := by
  rw [toList_escapedPath h]
  refine parseSteps_canonicalSteps (textSteps_wellFormed h) ?_ 0
  intro step hs l hl
  rw [textSteps_lookup? hs] at hl
  cases hl

theorem canonicalSteps_append (written : List Char) (steps : List PathStep) :
    canonicalSteps written (steps ++ [.append]) = canonicalSteps written steps ++ ['[', ']'] := by
  induction steps generalizing written with
  | nil => simp [canonicalSteps, PathStep.isDotted, PathStep.canonical, bracketed]
  | cons step rest ih => exact ih _

/-- Empty brackets behind such a path are the end of the list there. -/
theorem parseSteps_escaped_append {texts : List String} (h : ∀ text ∈ texts, text ≠ "") :
    parseSteps (".".intercalate (texts.map escapeKey) ++ "[]").toList 0 =
      .ok (textSteps texts ++ [.append]) := by
  have htext : (".".intercalate (texts.map escapeKey) ++ "[]").toList =
      canonicalSteps [] (textSteps texts ++ [.append]) := by
    rw [String.toList_append, toList_escapedPath h, canonicalSteps_append]
    rfl
  have happend : WellFormedSteps [.append] := ⟨trivial, trivial⟩
  rw [htext]
  refine parseSteps_canonicalSteps ((textSteps_wellFormed h).append happend) ?_ 0
  intro step hs l hl
  rcases List.mem_append.mp hs with hs | hs
  · rw [textSteps_lookup? hs] at hl
    cases hl
  · obtain rfl := List.mem_singleton.mp hs
    cases hl

@[simp] theorem Template.resolve?_literal (text : String) (frames : Frames) :
    (Template.literal text).resolve? frames = some text := by
  by_cases h : text = ""
  · subst h
    rfl
  · rw [literal_eq h, resolve?, resolveSegments?, resolveSegments?, Option.map_some,
      String.append_empty]

/-- A path of texts resolves to their keys, in front of what stands behind them. -/
theorem resolveSteps?_textSteps_append (texts : List String) (steps : List PathStep)
    (frames : Frames) :
    resolveSteps? frames (textSteps texts ++ steps) =
      (resolveSteps? frames steps).map (texts.map .key ++ ·) := by
  induction texts with
  | nil =>
    rw [textSteps, List.map_nil, List.nil_append]
    exact Option.map_id'.symm
  | cons text rest ih =>
    rw [textSteps, List.map_cons, ← textSteps, List.cons_append, resolveSteps?, ih,
      PathStep.resolve?, Template.resolve?_literal]
    cases resolveSteps? frames steps <;> rfl

@[simp] theorem resolveSteps?_textSteps (texts : List String) (frames : Frames) :
    resolveSteps? frames (textSteps texts) = some (texts.map .key) := by
  have happend := resolveSteps?_textSteps_append texts [] frames
  rw [List.append_nil] at happend
  rw [happend, resolveSteps?, Option.map_some, List.append_nil]

end Reshape.Pattern
