import Reshape.Pattern.Grammar
import Reshape.Pattern.WritePath
import Reshape.Proofs.Pattern.AlikePath
/-!
# Where the caret stands

The position that a rejected key or write path is reported with is an offset of its text. Where no
lookup slips the caret is drawn, and a character that the message names stands above it.
-/
namespace Reshape.Pattern

open Scan

/-! ## Messages that name a character -/

/-- The message says that this character is where it should not be. -/
def NamesCharacter (message : String) (c : Char) : Prop :=
  message = s!"`{c}` is only valid at the start of a key" ∨
    (∃ wanted : Char, message = s!"expected `{wanted}`, found `{c}`") ∨
      message = s!"unexpected `{c}` after array index" ∨
        message = s!"invalid array index starting with `{c}`"

/-- What the messages of a kind of problem start and end with. -/
def ScanProblem.frame : ScanProblem → String × String
  | .expected _ (some _) => ("expected `", "`")
  | .expected _ none => ("expected `", "`, found end of input")
  | .numberTooLarge _ => ("number `", "` is too large")
  | .unclosed _ => ("unclosed `", "`")
  | .unbalanced _ => ("unbalanced `", "`")
  | .sigilInside _ => ("`", "` is only valid at the start of a key")
  | .afterIndex _ => ("unexpected `", "` after array index")
  | .indexTooLarge _ _ => ("array index ", "")
  | .invalidIndex _ => ("invalid array index starting with `", "`")
  | problem => (problem.message, problem.message)

/-- The text starts and ends like this. -/
def Framed (frame : String × String) (text : String) : Prop :=
  frame.1.toList <+: text.toList ∧ frame.2.toList <:+ text.toList

/-- A text may start and end like both. -/
def Compatible (a b : String × String) : Prop :=
  (a.1.toList <+: b.1.toList ∨ b.1.toList <+: a.1.toList) ∧
    (a.2.toList <:+ b.2.toList ∨ b.2.toList <:+ a.2.toList)

instance (a b : String × String) : Decidable (Compatible a b) :=
  inferInstanceAs (Decidable (_ ∧ _))

theorem Framed.compatible {a b : String × String} {text : String} (ha : Framed a text)
    (hb : Framed b text) : Compatible a b :=
  ⟨List.prefix_or_prefix_of_prefix ha.1 hb.1, List.suffix_or_suffix_of_suffix ha.2 hb.2⟩

/-- The frames of the messages that name a character. -/
def culpritFrames : List (String × String) :=
  [("`", "` is only valid at the start of a key"), ("expected `", "`"),
    ("unexpected `", "` after array index"), ("invalid array index starting with `", "`")]

/-- The messages that are one text each: those of a scan and those of a pattern as a whole. -/
def fixedMessages : List String :=
  ["expected a number", "dangling escape character", "`*` is only valid in input keys",
    "array indices are only valid in write paths", "`(` is only valid after a reference",
    "unexpected `|` outside an or-group", "empty path segment",
    "`#` takes a single level argument", "unexpected characters after `$` reference",
    "unexpected characters after lookup", "cannot mix `*` and `&` in one key",
    "consecutive `*` wildcards"]

/-- The frames of the messages that name none. -/
def namelessFrames : List (String × String) :=
  [("expected `", "`, found end of input"), ("number `", "` is too large"), ("unclosed `", "`"),
    ("unbalanced `", "`"), ("array index ", "")] ++
    fixedMessages.map fun message => (message, message)

/-- No text has a frame of each of the two lists. -/
theorem not_compatible_nameless :
    ∀ a ∈ namelessFrames, ∀ b ∈ culpritFrames, ¬ Compatible a b := by
  decide +kernel

theorem eq_of_compatible_culprit :
    ∀ a ∈ culpritFrames, ∀ b ∈ culpritFrames, Compatible a b → a = b := by
  decide +kernel

section Messages

variable {text : String}

theorem start_self (text : String) : text.toList <+: (toString text).toList :=
  List.prefix_rfl

theorem start_append {opening : String} (h : opening.toList <+: text.toList) (more : String) :
    opening.toList <+: (text ++ more).toList := by
  rw [String.toList_append]
  exact h.trans (List.prefix_append _ _)

theorem end_append (text closing : String) :
    closing.toList <:+ (text ++ toString closing).toList := by
  rw [String.toList_append]
  exact List.suffix_append _ _

theorem ScanProblem.framed_message (problem : ScanProblem) :
    Framed problem.frame problem.message := by
  fun_cases ScanProblem.frame problem with
  | case1 wanted found =>
    dsimp only [ScanProblem.message]
    exact ⟨start_append (start_append (start_append (start_append (start_self _) _) _) _) _,
      end_append _ _⟩
  | case8 index limit =>
    dsimp only [ScanProblem.message]
    exact ⟨start_append (start_append (start_append (start_self _) _) _) _, List.nil_suffix⟩
  | case10 => exact ⟨List.prefix_rfl, List.suffix_rfl⟩
  | _ =>
    dsimp only [ScanProblem.message]
    exact ⟨start_append (start_append (start_self _) _) _, end_append _ _⟩

/-- Texts with one end and one character in front of it. -/
theorem char_eq_of_end {before before' closing : String} {c d : Char}
    (h : before ++ toString c ++ toString closing = before' ++ toString d ++ toString closing) :
    c = d := by
  have hlist := congrArg String.toList h
  simp only [String.toList_append, List.append_assoc] at hlist
  have hchar (c : Char) : (toString c).toList = [c] := String.toList_singleton c
  rw [hchar, hchar] at hlist
  exact (List.cons.inj (List.append_inj_right' hlist (by simp))).1

theorem NamesCharacter.exists_problem {c : Char} (h : NamesCharacter text c) :
    ∃ named : ScanProblem, named.culprit? = some c ∧ text = named.message := by
  rcases h with h | ⟨wanted, h⟩ | h | h
  · exact ⟨.sigilInside c, rfl, h⟩
  · exact ⟨.expected wanted (some c), rfl, h⟩
  · exact ⟨.afterIndex c, rfl, h⟩
  · exact ⟨.invalidIndex c, rfl, h⟩

theorem ScanProblem.frame_mem_culpritFrames {problem : ScanProblem} {c : Char}
    (h : problem.culprit? = some c) : problem.frame ∈ culpritFrames := by
  cases problem with
  | expected wanted found =>
    cases h
    simp only [frame, culpritFrames, List.mem_cons, true_or, or_true]
  | sigilInside | afterIndex | invalidIndex =>
    simp only [frame, culpritFrames, List.mem_cons, true_or, or_true]
  | _ => cases h

theorem ScanProblem.frame_mem_namelessFrames {problem : ScanProblem}
    (h : problem.culprit? = none) : problem.frame ∈ namelessFrames := by
  cases problem with
  | expected wanted found =>
    cases h
    simp only [frame, namelessFrames, List.cons_append, List.mem_cons, true_or]
  | sigilInside | afterIndex | invalidIndex => cases h
  | _ =>
    dsimp only [frame, message]
    simp [namelessFrames, fixedMessages]

/-- The character stands right before the end of the frame. -/
theorem ScanProblem.message_eq_append {problem : ScanProblem} {c : Char}
    (h : problem.culprit? = some c) :
    ∃ before, problem.message = before ++ toString c ++ toString problem.frame.2 := by
  cases problem with
  | expected wanted found =>
    cases h
    dsimp only [message, frame]
    exact ⟨_, rfl⟩
  | sigilInside | afterIndex | invalidIndex =>
    cases h
    dsimp only [message, frame]
    exact ⟨_, rfl⟩
  | _ => cases h

theorem not_namesCharacter_of_framed {frame : String × String} (hm : frame ∈ namelessFrames)
    (hf : Framed frame text) (c : Char) : ¬ NamesCharacter text c := by
  intro hn
  obtain ⟨named, hc, rfl⟩ := hn.exists_problem
  exact not_compatible_nameless _ hm _ (ScanProblem.frame_mem_culpritFrames hc)
    (hf.compatible named.framed_message)

/-- A problem whose message names a character is about that character. -/
theorem culprit?_of_names {problem : ScanProblem} {c : Char}
    (h : NamesCharacter problem.message c) : problem.culprit? = some c := by
  cases hd : problem.culprit? with
  | none =>
    exact absurd h (not_namesCharacter_of_framed (ScanProblem.frame_mem_namelessFrames hd)
      problem.framed_message c)
  | some d =>
    obtain ⟨named, hc, hmessage⟩ := h.exists_problem
    have hframe : problem.frame = named.frame :=
      eq_of_compatible_culprit _ (ScanProblem.frame_mem_culpritFrames hd) _
        (ScanProblem.frame_mem_culpritFrames hc)
        (problem.framed_message.compatible (hmessage ▸ named.framed_message))
    obtain ⟨before, hbefore⟩ := ScanProblem.message_eq_append hd
    obtain ⟨before', hbefore'⟩ := ScanProblem.message_eq_append hc
    rw [hmessage, hbefore', hframe] at hbefore
    rw [char_eq_of_end hbefore]

/-- The errors of a pattern as a whole name no character. -/
theorem not_namesCharacter_pattern (c : Char) :
    ¬ NamesCharacter "cannot mix `*` and `&` in one key" c ∧
      ¬ NamesCharacter "consecutive `*` wildcards" c := by
  have hnot {text : String} (h : text ∈ fixedMessages) : ¬ NamesCharacter text c :=
    not_namesCharacter_of_framed
      (List.mem_append_right _ (List.mem_map_of_mem h)) ⟨List.prefix_rfl, List.suffix_rfl⟩ c
  exact ⟨hnot (by simp [fixedMessages]), hnot (by simp [fixedMessages])⟩

end Messages

/-! ## Positions -/

/-- A position in a raw text that is reported with this message, up to the slips of its lookups. -/
structure Located (raw : List Char) (message : String) (p : Nat) : Prop where
  position_le : p ≤ raw.length + excess raw
  named : ∀ c, NamesCharacter message c →
    ∃ k, raw[k]? = some c ∧ k ≤ p + shortfall raw ∧ p ≤ k + excess raw

theorem Located.of_points {raw : List Char} {e : ScanError} (h : Points raw 0 e) :
    Located raw e.message e.position := by
  obtain ⟨k, hk, hlow, hhigh, hc⟩ := h
  rw [Nat.zero_add] at hlow hhigh
  refine ⟨by omega, fun c hn => ⟨k, ?_, hlow, hhigh⟩⟩
  exact hc c (culprit?_of_names hn)

theorem Located.of_nameless {raw : List Char} {message : String} {p : Nat} (hp : p ≤ raw.length)
    (hn : ∀ c, ¬ NamesCharacter message c) : Located raw message p :=
  ⟨Nat.le_add_right_of_le hp, fun c h => absurd h (hn c)⟩

theorem Scan.Steady.points {α : Type} {scan : Scan α} {raw : List Char} {e : ScanError}
    (h : Steady scan raw) (he : scan.runOn raw 0 = .error e) : Points raw 0 e := by
  have hrun := AlikeOn.runOn h 0 0
  rw [he] at hrun
  cases hrun with
  | error points => exact points

theorem Lookup.parse_points {raw : List Char} {e : ScanError} (h : Lookup.parse raw = .error e) :
    Points raw 0 e := by
  have hscan : Steady Lookup.scan raw :=
    AlikeOn.rest (lookupWithin_alike raw.length (Nat.le_refl _) (Nat.le_refl _) raw (Nat.le_refl _))
  refine Steady.points (hscan.bind fun l rest => Steady.peek ?_) h
  split
  · exact .pure l rest
  · exact .fail nofun

theorem parseSteps_points {raw : List Char} {e : ScanError} (h : parseSteps raw 0 = .error e) :
    Points raw 0 e := by
  have hrun := stepsWith_alike (lookupWithin_alike raw.length (Nat.le_refl _) (Nat.le_refl _)) 0 0
  rw [← parseSteps, h] at hrun
  cases hrun with
  | error points => exact points

theorem findUnescaped_lt {target : Char} {position k : Nat} {text : List Char}
    (h : findUnescaped target position text = some k) : k < position + text.length := by
  fun_induction findUnescaped target position text with
  | case1 => cases h
  | case2 => cases h
  | case3 position c rest ih =>
    have hk := ih h
    simp only [List.length_cons]
    omega
  | case4 position c rest _ _ _ =>
    obtain rfl := Option.some.inj h
    simp only [List.length_cons]
    omega
  | case5 position c rest _ _ _ ih =>
    have hk := ih h
    simp only [List.length_cons]
    omega

/-- A key is rejected with an error about it that stands where it should, up to the slips. -/
def RejectedKey (key : String) (e : SpecError) : Prop :=
  ∃ message position, e = .unlocated (.invalidKey key message position) ∧
    ∀ p ∈ position, Located key.toList message p

theorem RejectedKey.of_points {key : String} {e : ScanError} (h : Points key.toList 0 e) :
    RejectedKey key (e.toKeyError key) := by
  refine ⟨e.message, some e.position, rfl, fun p hp => ?_⟩
  cases hp
  exact .of_points h

theorem parseWhole_rejected {α : Type} {scan : Scan α} {key : String} {e : SpecError}
    (hs : Steady scan key.toList) (h : parseWhole scan key = .error e) : RejectedKey key e := by
  rw [parseWhole] at h
  split at h
  · cases h
  · rename_i he
    cases h
    exact .of_points (hs.points he)

theorem steady_matchedKeyScan (text : List Char) : Steady matchedKeyScan text := by
  refine (steady_advance text).bind fun _ rest => (steady_referenceTail rest).bind fun r rest => ?_
  refine Steady.peek ?_
  split
  · exact .pure _ rest
  · exact .fail nofun

theorem except_bind_eq_error {ε α β : Type} {x : Except ε α} {f : α → Except ε β} {e : ε}
    (h : (x >>= f) = .error e) : x = .error e ∨ ∃ a, x = .ok a ∧ f a = .error e := by
  cases x with
  | ok a => exact .inr ⟨a, rfl, h⟩
  | error e' => exact .inl (congrArg Except.error (Except.error.inj h))

theorem parseCount_rejected {key : String} {tail : List Char} {e : SpecError}
    (htail : key.toList = '#' :: tail) (h : parseCount key tail = .error e) :
    RejectedKey key e := by
  rw [parseCount] at h
  split at h
  · rcases except_bind_eq_error h with h | ⟨⟨r, rest⟩, -, h⟩
    · refine parseWhole_rejected ?_ h
      refine (steady_advance _).bind fun _ rest => (steady_referenceTail rest).bind fun r rest => ?_
      exact AlikeOn.rest (AlikeOn.pure _ rest)
    · dsimp only at h
      split at h
      · cases h
        refine ⟨_, _, rfl, fun p hp => ?_⟩
        cases hp
        refine .of_nameless ?_ fun c hn => ?_
        · rw [htail, List.length_cons]
          exact Nat.le_add_left _ _
        · cases culprit?_of_names hn
      · cases h
  · cases h

theorem parsePattern_rejected {key : String} {e : SpecError} (h : parsePattern key = .error e) :
    RejectedKey key e := by
  have hoffset {target : Char} {message : String} (hn : ∀ c, ¬ NamesCharacter message c) :
      RejectedKey key
        (.unlocated (.invalidKey key message (findUnescaped target 0 key.toList))) := by
    refine ⟨_, _, rfl, fun p hp => .of_nameless ?_ hn⟩
    have hlt := findUnescaped_lt hp
    omega
  rw [parsePattern] at h
  rcases except_bind_eq_error h with h | ⟨read, -, h⟩
  · exact parseWhole_rejected (steady_pieces true _ _) h
  · dsimp only at h
    split at h
    · cases h
      exact hoffset fun c => (not_namesCharacter_pattern c).1
    · split at h
      · cases h
      · split at h
        · cases h
          exact hoffset fun c => (not_namesCharacter_pattern c).2
        all_goals cases h

theorem parseKey_rejected {key : String} {e : SpecError} (h : parseKey key = .error e) :
    RejectedKey key e := by
  rw [parseKey] at h
  split at h
  · cases h
  · cases h
  · split at h
    · cases h
    · rename_i he
      cases h
      exact .of_points (Lookup.parse_points he)
  · exact parseWhole_rejected (steady_matchedKeyScan _) h
  · rename_i htail
    exact parseCount_rejected htail h
  · exact parsePattern_rejected h

/-! ## The caret -/

/-- The error is about this raw text, which is a key or a write path. -/
inductive IsAbout (raw message : String) (position : Option Nat) : SpecError → Prop
  | key : IsAbout raw message position (.unlocated (.invalidKey raw message position))
  | path : IsAbout raw message position (.unlocated (.invalidWritePath raw message position))

theorem IsAbout.detailedMessage {raw message : String} {p : Nat} {e : SpecError}
    (h : IsAbout raw message (some p) e) (hp : p ≤ raw.length) :
    e.detailedMessage = e.message ++ "\n  " ++ raw ++
      ("\n  " ++ String.ofList (List.replicate p ' ') ++ "^") := by
  cases h with
  | key =>
    rw [SpecError.detailedMessage]
    dsimp only [SpecError.key?, SpecError.position?, SpecProblem.key?, SpecProblem.position?,
      SpecError.unlocated]
    rw [if_pos hp]
  | path =>
    rw [SpecError.detailedMessage]
    dsimp only [SpecError.key?, SpecError.position?, SpecProblem.key?, SpecProblem.position?,
      SpecError.unlocated]
    rw [if_pos hp]

/-- What is reported of a raw text: the position is an offset of it and where the message names a
character that character stands there, both up to the blanks that the lookups of the text drop in
front of their paths and the bytes that they count in front of their commas. -/
structure ReportedAt (raw : String) (e : SpecError) (message : String) (p : Nat) : Prop where
  located : Located raw.toList message p
  caret : excess raw.toList = 0 → e.detailedMessage = e.message ++ "\n  " ++ raw ++
    ("\n  " ++ String.ofList (List.replicate p ' ') ++ "^")
  exact : shortfall raw.toList = 0 → excess raw.toList = 0 →
    ∀ c, NamesCharacter message c → raw.toList[p]? = some c

theorem Located.reportedAt {raw message : String} {p : Nat} {e : SpecError}
    (h : Located raw.toList message p) (habout : IsAbout raw message (some p) e) :
    ReportedAt raw e message p where
  located := h
  caret hexcess := by
    refine habout.detailedMessage ?_
    have hle := h.position_le
    rwa [hexcess, String.length_toList] at hle
  exact hshort hexcess c hn := by
    obtain ⟨k, hk, hlow, hhigh⟩ := h.named c hn
    rw [hshort] at hlow
    rw [hexcess] at hhigh
    rwa [Nat.le_antisymm hhigh hlow]

/-- Every error of a key or of a write path is about that text, and the position in it is that of
the character that the message names, if it names one. -/
theorem rejected_position {raw : String} {e : SpecError}
    (h : parseKey raw = .error e ∨ ∃ rootKey, WritePath.parse raw rootKey = .error e) :
    ∃ message position, IsAbout raw message position e ∧
      ∀ p ∈ position, ReportedAt raw e message p := by
  have hlocated : ∃ message position, IsAbout raw message position e ∧
      ∀ p ∈ position, Located raw.toList message p := by
    rcases h with h | ⟨rootKey, h⟩
    · obtain ⟨message, position, rfl, hp⟩ := parseKey_rejected h
      exact ⟨message, position, .key, hp⟩
    · rw [WritePath.parse] at h
      split at h
      · cases h
      · rename_i e' he
        cases h
        refine ⟨e'.message, some e'.position, .path, fun p hp => ?_⟩
        cases hp
        exact .of_points (parseSteps_points he)
  obtain ⟨message, position, habout, hp⟩ := hlocated
  refine ⟨message, position, habout, fun p hm => ?_⟩
  have hl := hp p hm
  cases hm
  exact hl.reportedAt habout

/-- The error that a key is rejected with. -/
def rejection? (key : String) : Option SpecError :=
  match parseKey key with
  | .ok _ => none
  | .error e => some e

theorem parseKey_of_rejection? {key : String} {e : SpecError} (h : rejection? key = some e) :
    parseKey key = .error e := by
  rw [rejection?] at h
  split at h
  · cases h
  · rename_i he
    rw [he, Option.some.inj h]

/-- A key whose lookup does not slip. -/
theorem rejected_position_index :
    let raw := "@(1,b[x])"
    let e : SpecError :=
      .unlocated (.invalidKey raw "invalid array index starting with `x`" (some 6))
    parseKey raw = .error e ∧ shortfall raw.toList = 0 ∧ excess raw.toList = 0 ∧
      ∃ message position, IsAbout raw message position e ∧
        ∀ p ∈ position, ReportedAt raw e message p := by
  intro raw e
  have hkey : parseKey raw = .error e := parseKey_of_rejection? (by decide +kernel)
  exact ⟨hkey, by decide +kernel, by decide +kernel, rejected_position (.inl hkey)⟩

/-- The blank that a lookup drops is missing from the position, which is that of another character;
the bytes of the blanks in front of its comma take the position out of the text. -/
theorem rejected_position_slips :
    (parseKey "@( a@b)" = .error (.unlocated (.invalidKey "@( a@b)"
        "`@` is only valid at the start of a key" (some 3))) ∧
      NamesCharacter "`@` is only valid at the start of a key" '@' ∧
      "@( a@b)".toList[3]? = some 'a') ∧
    parseKey "@(1\u3000\u3000,a@)" = .error (.unlocated (.invalidKey "@(1\u3000\u3000,a@)"
        "`@` is only valid at the start of a key" (some 11))) ∧
      "@(1\u3000\u3000,a@)".length = 9 := by
  refine ⟨⟨parseKey_of_rejection? (by decide +kernel), .inl (by decide +kernel), by decide +kernel⟩,
    parseKey_of_rejection? (by decide +kernel), by decide +kernel⟩

end Reshape.Pattern
