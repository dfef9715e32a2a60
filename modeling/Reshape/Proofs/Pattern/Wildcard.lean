import Reshape.Proofs.Pattern.Element
import Mathlib.Data.List.Basic
/-!
# What a wildcard pattern matches

One star, two stars and more are matched in three ways that mean the same: a key matches if it is
the parts of the pattern with a non-empty text for each star, and of all such texts those with the
least lengths are captured, the first star first. From three stars on they hold no line feed.
-/
namespace Reshape.Pattern

open Text (utf8Size utf8Size_append utf8Size_pos_iff)

/-! ## Texts cut by a pattern -/

/-- The text is a capture and a part in turns, and no capture is empty. -/
inductive Woven : List (List Char) → List (List Char) → List Char → Prop
  | nil : Woven [] [] []
  | cons {part capture rest : List Char} {parts captures : List (List Char)}
    (ne : capture ≠ []) (more : Woven parts captures rest) :
    Woven (part :: parts) (capture :: captures) (capture ++ (part ++ rest))

/-- The text is the first part, and then for each star a non-empty capture and the part behind. -/
def Glob.Cuts (g : Glob) (text : List Char) (captures : List (List Char)) : Prop :=
  ∃ rest, text = g.first ++ rest ∧ Woven g.others captures rest

section Woven

variable {part text : List Char} {parts captures : List (List Char)}

theorem Woven.length_eq (h : Woven parts captures text) : captures.length = parts.length := by
  induction h with
  | nil => rfl
  | cons _ _ ih => rw [List.length_cons, List.length_cons, ih]

theorem Woven.mem_of_mem (h : Woven parts captures text) :
    ∀ capture ∈ captures, ∀ c ∈ capture, c ∈ text := by
  induction h with
  | nil => exact nofun
  | cons _ _ ih =>
    refine List.forall_mem_cons.mpr ⟨fun c hc => List.mem_append_left _ hc, ?_⟩
    exact fun other ho c hc => List.mem_append_right _ (List.mem_append_right _ (ih other ho c hc))

@[simp] theorem woven_nil : Woven [] captures text ↔ captures = [] ∧ text = [] := by
  constructor
  · rintro ⟨⟩
    exact ⟨rfl, rfl⟩
  · rintro ⟨rfl, rfl⟩
    exact .nil

theorem woven_cons :
    Woven (part :: parts) captures text ↔ ∃ capture more rest, captures = capture :: more ∧
      capture ≠ [] ∧ text = capture ++ (part ++ rest) ∧ Woven parts more rest := by
  constructor
  · rintro ⟨⟩
    rename_i hne more
    exact ⟨_, _, _, rfl, hne, rfl, more⟩
  · rintro ⟨capture, more, rest, rfl, hne, rfl, h⟩
    exact .cons hne h

theorem woven_singleton :
    Woven [part] captures text ↔
      ∃ capture, captures = [capture] ∧ capture ≠ [] ∧ text = capture ++ part := by
  rw [woven_cons]
  constructor
  · rintro ⟨capture, more, rest, rfl, hne, rfl, h⟩
    obtain ⟨rfl, rfl⟩ := woven_nil.mp h
    exact ⟨capture, rfl, hne, by rw [List.append_nil]⟩
  · rintro ⟨capture, rfl, hne, rfl⟩
    exact ⟨capture, [], [], rfl, hne, by rw [List.append_nil], .nil⟩

end Woven

/-! ## The shortest captures -/

/-- The captures have the property, and any others with it are longer at the first star where the
lengths differ. -/
def Shortest {α : Type} (length : α → Nat) (P : List α → Prop) (captures : List α) : Prop :=
  P captures ∧ ∀ others, P others → others = captures ∨ captures.map length < others.map length

/-- The answer of a search is the shortest captures with the property, or none if none have it. -/
def FindsShortest {α : Type} (length : α → Nat) (P : List α → Prop) : Option (List α) → Prop
  | some captures => Shortest length P captures
  | none => ∀ captures, ¬ P captures

section FindsShortest

variable {α : Type} {length : α → Nat} {P Q : List α → Prop} {found : Option (List α)}

theorem FindsShortest.congr (hfind : FindsShortest length P found)
    (h : ∀ captures, P captures ↔ Q captures) : FindsShortest length Q found := by
  cases found with
  | none => exact fun captures hq => hfind captures ((h captures).mpr hq)
  | some captures =>
    exact ⟨(h captures).mp hfind.1, fun others ho => hfind.2 others ((h others).mpr ho)⟩

theorem findsShortest_eq (captures : List α) :
    FindsShortest length (· = captures) (some captures) :=
  ⟨rfl, fun _ h => .inl h⟩

theorem FindsShortest.isSome_iff (hfind : FindsShortest length P found) :
    found.isSome = true ↔ ∃ captures, P captures := by
  cases found with
  | none => exact ⟨nofun, fun ⟨captures, hp⟩ => absurd hp (hfind captures)⟩
  | some captures => exact ⟨fun _ => ⟨captures, hfind.1⟩, fun _ => rfl⟩

theorem FindsShortest.ofList {P : List (List Char) → Prop} {found : Option (List (List Char))}
    (hfind : FindsShortest List.length P found) :
    FindsShortest String.length (fun captures => P (captures.map String.toList))
      (found.map fun captures => captures.map String.ofList) := by
  cases found with
  | none => exact fun captures hp => hfind _ hp
  | some captures =>
    have htexts : (captures.map String.ofList).map String.toList = captures := by
      simp [Function.comp_def]
    refine ⟨?_, fun others ho => ?_⟩
    · change P ((captures.map String.ofList).map String.toList)
      rw [htexts]
      exact hfind.1
    · rcases hfind.2 _ ho with he | hlt
      · refine .inl ?_
        rw [← he]
        simp [Function.comp_def]
      · refine .inr ?_
        have hlengths (texts : List String) :
            texts.map String.length = (texts.map String.toList).map List.length := by
          simp [String.length_toList]
        rw [hlengths, hlengths, htexts]
        exact hlt

end FindsShortest

section Search

variable {P : List Char → List (List Char) → Prop} {find : List Char → Option (List (List Char))}

/-- The search goes on in a text of which there is one or none. -/
theorem FindsShortest.bind {Q : List Char → Prop} {rest? : Option (List Char)}
    (hrest : ∀ rest, rest? = some rest ↔ Q rest)
    (h : ∀ rest, FindsShortest List.length (P rest) (find rest)) :
    FindsShortest List.length (fun captures => ∃ rest, Q rest ∧ P rest captures)
      (rest?.bind find) := by
  cases rest? with
  | none =>
    rintro captures ⟨rest, hq, -⟩
    cases (hrest rest).mpr hq
  | some rest =>
    refine (h rest).congr fun captures => ⟨fun hp => ⟨rest, (hrest rest).mp rfl, hp⟩, ?_⟩
    rintro ⟨other, hq, hp⟩
    obtain rfl := Option.some.inj ((hrest other).mpr hq)
    exact hp

theorem isPrefixOf?_eq_some {part text rest : List Char} :
    part.isPrefixOf? text = some rest ↔ text = part ++ rest :=
  List.isPrefixOf?_eq_some_iff_append_eq.trans eq_comm

/-- A part in front of what is searched. -/
theorem FindsShortest.isPrefixOf? (h : ∀ rest, FindsShortest List.length (P rest) (find rest))
    (part text : List Char) :
    FindsShortest List.length (fun captures => ∃ rest, text = part ++ rest ∧ P rest captures)
      ((part.isPrefixOf? text).bind find) :=
  .bind (fun _ => isPrefixOf?_eq_some) h

theorem take_drop_between (first middle last : List Char) :
    ((first ++ (middle ++ last)).drop first.length).take
      ((first ++ (middle ++ last)).length - first.length - last.length) = middle := by
  have hlength :
      (first ++ (middle ++ last)).length - first.length - last.length = middle.length := by
    rw [List.length_append, List.length_append]
    omega
  rw [hlength, List.drop_left, List.take_left]

/-- Room for one byte is enough for the two ends not to overlap. -/
theorem between?_eq_some {least : Nat} (hleast : 0 < least) {first last text middle : List Char} :
    between? least first last text = some middle ↔
      text = first ++ (middle ++ last) ∧ least ≤ utf8Size middle := by
  have hfits : (utf8Size text < utf8Size first + utf8Size last + least || !first.isPrefixOf text ||
      !last.isSuffixOf text) = false ↔
      utf8Size first + utf8Size last + least ≤ utf8Size text ∧ first <+: text ∧ last <:+ text := by
    simp [and_assoc]
  rw [between?]
  constructor
  · intro h
    split at h
    · cases h
    · rename_i hif
      obtain ⟨hsize, ⟨rest, rfl⟩, ⟨front, hfront⟩⟩ := hfits.mp (Bool.not_eq_true _ ▸ hif)
      -- The ends stand apart, since there is no room for them if they overlap.
      rcases List.append_eq_append_iff.mp hfront with ⟨overlap, rfl, rfl⟩ | ⟨inner, rfl, rfl⟩
      · rw [utf8Size_append overlap, utf8Size_append (front ++ overlap)] at hsize
        omega
      · rw [take_drop_between] at h
        obtain rfl := Option.some.inj h
        rw [utf8Size_append, utf8Size_append] at hsize
        exact ⟨rfl, by omega⟩
  · rintro ⟨rfl, hsize⟩
    have hends : first <+: first ++ (middle ++ last) ∧ last <:+ first ++ (middle ++ last) :=
      ⟨List.prefix_append _ _, (List.suffix_append middle last).trans (List.suffix_append _ _)⟩
    have hroom : utf8Size first + utf8Size last + least ≤ utf8Size (first ++ (middle ++ last)) := by
      rw [utf8Size_append, utf8Size_append]
      omega
    rw [hfits.mpr ⟨hroom, hends⟩, if_neg Bool.false_ne_true, take_drop_between]

theorem FindsShortest.between? {least : Nat} (hleast : 0 < least)
    (h : ∀ rest, FindsShortest List.length (P rest) (find rest)) (first last text : List Char) :
    FindsShortest List.length
      (fun captures => ∃ middle, (text = first ++ (middle ++ last) ∧ least ≤ utf8Size middle) ∧
        P middle captures)
      ((between? least first last text).bind find) :=
  .bind (fun _ => between?_eq_some hleast) h

theorem captureBehind?_shortest (part text : List Char) :
    FindsShortest List.length
      (fun captures => ∃ behind, captures = [behind] ∧ behind ≠ [] ∧ text = part ++ behind)
      (captureBehind? part text) := by
  have hfits : (part.isPrefixOf text && decide (utf8Size part < utf8Size text)) = true ↔
      ∃ behind, behind ≠ [] ∧ text = part ++ behind := by
    rw [Bool.and_eq_true, List.isPrefixOf_iff_prefix, decide_eq_true_eq]
    constructor
    · rintro ⟨⟨behind, rfl⟩, hsize⟩
      rw [utf8Size_append] at hsize
      exact ⟨behind, utf8Size_pos_iff.mp (by omega), rfl⟩
    · rintro ⟨behind, hne, rfl⟩
      have hpos := utf8Size_pos_iff.mpr hne
      rw [utf8Size_append]
      exact ⟨List.prefix_append part behind, by omega⟩
  rw [captureBehind?]
  split
  case isFalse hif => exact fun captures ⟨behind, _, h⟩ => hif (hfits.mpr ⟨behind, h⟩)
  case isTrue hif =>
  obtain ⟨behind, hne, rfl⟩ := hfits.mp hif
  rw [List.drop_left]
  refine (findsShortest_eq [behind]).congr fun captures => ⟨fun h => ⟨behind, h, hne, rfl⟩, ?_⟩
  rintro ⟨other, rfl, -, hother⟩
  rw [List.append_cancel_left hother]

/-! ## A capture that grows -/

/-- The first capture is of allowed characters, and what is left of the text has the others. -/
def Grown (allowed : Char → Bool) (P : List Char → List (List Char) → Prop) (text : List Char)
    (captures : List (List Char)) : Prop :=
  ∃ capture more rest, captures = capture :: more ∧ capture ≠ [] ∧
    (∀ c ∈ capture, allowed c = true) ∧ text = capture ++ rest ∧ P rest more

variable {allowed : Char → Bool} {c : Char} {rest capture : List Char}
  {more captures : List (List Char)}

theorem not_grown_nil : ¬ Grown allowed P [] captures := by
  rintro ⟨capture, more, rest, -, hne, -, htext, -⟩
  exact hne (List.append_eq_nil_iff.mp htext.symm).1

theorem Grown.capture_ne (h : Grown allowed P rest (capture :: more)) : capture ≠ [] := by
  obtain ⟨_, _, _, he, hne, -⟩ := h
  rwa [(List.cons.inj he).1]

/-- The first capture is one character, or it grows on in the rest of the text. -/
theorem grown_cons :
    Grown allowed P (c :: rest) captures ↔ allowed c = true ∧
      ((∃ more, captures = [c] :: more ∧ P rest more) ∨
        ∃ capture more, captures = (c :: capture) :: more ∧
          Grown allowed P rest (capture :: more)) := by
  constructor
  · rintro ⟨capture, more, rest', rfl, hne, hall, htext, hmore⟩
    obtain ⟨d, capture, rfl⟩ := List.exists_cons_of_ne_nil hne
    obtain ⟨rfl, rfl⟩ := List.cons.inj htext
    obtain ⟨hc, hall⟩ := List.forall_mem_cons.mp hall
    refine ⟨hc, ?_⟩
    cases capture with
    | nil => exact .inl ⟨more, rfl, hmore⟩
    | cons e capture =>
      have hne : e :: capture ≠ [] := List.cons_ne_nil e capture
      exact .inr ⟨_, more, rfl, e :: capture, more, rest', rfl, hne, hall, rfl, hmore⟩
  · rintro ⟨hc, ⟨more, rfl, hmore⟩ | ⟨capture, more, rfl, h⟩⟩
    · have hall : ∀ d ∈ [c], allowed d = true := List.forall_mem_singleton.mpr hc
      exact ⟨[c], more, rest, rfl, List.cons_ne_nil c [], hall, rfl, hmore⟩
    · obtain ⟨_, _, rest', he, hne, hall, rfl, hmore⟩ := h
      obtain ⟨rfl, rfl⟩ := List.cons.inj he
      have hall : ∀ d ∈ c :: capture, allowed d = true := List.forall_mem_cons.mpr ⟨hc, hall⟩
      exact ⟨c :: capture, more, rest', rfl, List.cons_ne_nil c capture, hall, rfl, hmore⟩

/-- A capture of one character is shorter than one that grows on. -/
theorem Shortest.one (hc : allowed c = true) (h : Shortest List.length (P rest) more) :
    Shortest List.length (Grown allowed P (c :: rest)) ([c] :: more) := by
  refine ⟨grown_cons.mpr ⟨hc, .inl ⟨more, rfl, h.1⟩⟩, fun others ho => ?_⟩
  obtain ⟨-, ⟨more', rfl, hmore⟩ | ⟨capture, more', rfl, hmore⟩⟩ := grown_cons.mp ho
  · rcases h.2 more' hmore with rfl | hlt
    · exact .inl rfl
    · exact .inr (List.cons_lt_cons_iff.mpr (.inr ⟨rfl, hlt⟩))
  · have hlonger : [c].length < (c :: capture).length :=
      Nat.succ_lt_succ (List.length_pos_of_ne_nil hmore.capture_ne)
    exact .inr (List.cons_lt_cons_iff.mpr (.inl hlonger))

/-- A capture grows on where one character is not enough. -/
theorem Shortest.grow (hc : allowed c = true) (hone : ∀ more, ¬ P rest more)
    (h : Shortest List.length (Grown allowed P rest) (capture :: more)) :
    Shortest List.length (Grown allowed P (c :: rest)) ((c :: capture) :: more) := by
  refine ⟨grown_cons.mpr ⟨hc, .inr ⟨capture, more, rfl, h.1⟩⟩, fun others ho => ?_⟩
  obtain ⟨-, ⟨more', -, hmore⟩ | ⟨capture', more', rfl, hmore⟩⟩ := grown_cons.mp ho
  · exact absurd hmore (hone more')
  · rcases h.2 _ hmore with he | hlt
    · obtain ⟨rfl, rfl⟩ := List.cons.inj he
      exact .inl rfl
    · rcases List.cons_lt_cons_iff.mp hlt with hlt | ⟨he, hlt⟩
      · exact .inr (List.cons_lt_cons_iff.mpr (.inl (Nat.succ_lt_succ hlt)))
      · exact .inr (List.cons_lt_cons_iff.mpr (.inr ⟨congrArg Nat.succ he, hlt⟩))

theorem captureBefore?_shortest (allowed : Char → Bool)
    (h : ∀ rest, FindsShortest List.length (P rest) (find rest)) (text : List Char) :
    FindsShortest List.length (Grown allowed P text) (captureBefore? allowed find text) := by
  induction text with
  | nil => exact fun captures => not_grown_nil
  | cons c rest ih =>
    have hrest := h rest
    rw [captureBefore?] at ih ⊢
    rw [shortestCapture]
    split
    case isFalse hc => exact fun captures hp => hc (grown_cons.mp hp).1
    case isTrue hc =>
    cases hfind : find rest with
    | some more =>
      rw [hfind] at hrest
      exact Shortest.one hc hrest
    | none =>
      rw [hfind] at hrest
      cases hgrow : shortestCapture allowed find rest with
      | some found =>
        rw [hgrow] at ih
        exact Shortest.grow hc hrest ih
      | none =>
        rw [hgrow] at ih
        intro captures hp
        obtain ⟨-, ⟨more, -, hmore⟩ | ⟨capture, more, -, hmore⟩⟩ := grown_cons.mp hp
        · exact hrest more hmore
        · exact ih _ hmore

end Search

/-! ## One meaning -/

/-- Growing each capture in turn finds the shortest; a capture that leaves no match for the parts
behind it grows on. -/
theorem capturesFrom_shortest (allowed : Char → Bool) (parts : List (List Char))
    (text : List Char) :
    FindsShortest List.length (fun captures => Woven parts captures text ∧
        ∀ capture ∈ captures, ∀ c ∈ capture, allowed c = true)
      (capturesFrom allowed parts text) := by
  induction parts generalizing text with
  | nil =>
    rw [capturesFrom]
    split
    case isTrue hempty =>
      obtain rfl := List.isEmpty_iff.mp hempty
      refine (findsShortest_eq []).congr fun captures => ⟨?_, fun h => (woven_nil.mp h.1).1⟩
      rintro rfl
      exact ⟨.nil, nofun⟩
    case isFalse hempty =>
      exact fun captures h => hempty (List.isEmpty_iff.mpr (woven_nil.mp h.1).2)
  | cons part parts ih =>
    refine (captureBefore?_shortest allowed (FindsShortest.isPrefixOf? ih part) text).congr ?_
    intro captures
    constructor
    · rintro ⟨capture, more, _, rfl, hne, hall, rfl, rest, rfl, hwoven, hmore⟩
      exact ⟨.cons hne hwoven, List.forall_mem_cons.mpr ⟨hall, hmore⟩⟩
    · rintro ⟨hwoven, hall⟩
      obtain ⟨capture, more, rest, rfl, hne, rfl, hrest⟩ := woven_cons.mp hwoven
      obtain ⟨hall, hmore⟩ := List.forall_mem_cons.mp hall
      exact ⟨capture, more, _, rfl, hne, hall, rfl, rest, rfl, hrest, hmore⟩

namespace Glob

section Cuts

variable {first part last text : List Char} {captures : List (List Char)}

theorem cuts_one :
    (Glob.mk first [last]).Cuts text captures ↔
      ∃ capture, (text = first ++ (capture ++ last) ∧ 1 ≤ utf8Size capture) ∧
        captures = [capture] := by
  constructor
  · rintro ⟨rest, rfl, h⟩
    obtain ⟨capture, rfl, hne, rfl⟩ := woven_singleton.mp h
    exact ⟨capture, ⟨rfl, utf8Size_pos_iff.mpr hne⟩, rfl⟩
  · rintro ⟨capture, ⟨rfl, hsize⟩, rfl⟩
    exact ⟨_, rfl, woven_singleton.mpr ⟨capture, rfl, utf8Size_pos_iff.mp hsize, rfl⟩⟩

theorem cuts_two :
    (Glob.mk first [part, last]).Cuts text captures ↔
      ∃ middle, (text = first ++ (middle ++ last) ∧ utf8Size part + 2 ≤ utf8Size middle) ∧
        Grown (fun _ => true)
          (fun rest more => ∃ behind, more = [behind] ∧ behind ≠ [] ∧ rest = part ++ behind)
          middle captures := by
  constructor
  · rintro ⟨_, rfl, h⟩
    obtain ⟨capture, _, _, rfl, hne, rfl, hmore⟩ := woven_cons.mp h
    obtain ⟨behind, rfl, hbehind, rfl⟩ := woven_singleton.mp hmore
    refine ⟨capture ++ (part ++ behind), ⟨by simp only [List.append_assoc], ?_⟩, capture, [behind],
      part ++ behind, rfl, hne, fun _ _ => rfl, rfl, behind, rfl, hbehind, rfl⟩
    have hcapture := utf8Size_pos_iff.mpr hne
    have hrest := utf8Size_pos_iff.mpr hbehind
    rw [utf8Size_append, utf8Size_append]
    omega
  · rintro ⟨_, ⟨rfl, -⟩, capture, _, _, rfl, hne, -, rfl, behind, rfl, hbehind, rfl⟩
    have hrest : Woven [last] [behind] (behind ++ last) :=
      woven_singleton.mpr ⟨behind, rfl, hbehind, rfl⟩
    exact ⟨_, by simp only [List.append_assoc], .cons hne hrest⟩

theorem Cuts.length_eq {g : Glob} (h : g.Cuts text captures) : captures.length = g.stars := by
  obtain ⟨rest, -, hwoven⟩ := h
  exact hwoven.length_eq

/-- The captures are pieces of the text. -/
theorem Cuts.mem_of_mem {g : Glob} (h : g.Cuts text captures) :
    ∀ capture ∈ captures, ∀ c ∈ capture, c ∈ text := by
  obtain ⟨rest, rfl, hwoven⟩ := h
  exact fun capture hcapture c hc =>
    List.mem_append_right _ (hwoven.mem_of_mem capture hcapture c hc)

end Cuts

/-- The three ways of matching find the shortest captures that the pattern allows. -/
theorem cut?_shortest (g : Glob) (text : List Char) :
    FindsShortest List.length
      (fun captures => g.Cuts text captures ∧
        ∀ capture ∈ captures, ∀ c ∈ capture, g.allows c = true)
      (g.cut? text) := by
  obtain ⟨first, others⟩ := g
  -- From three stars on the answer is that of the search.
  have hsearch : FindsShortest List.length
      (fun captures => (Glob.mk first others).Cuts text captures ∧
        ∀ capture ∈ captures, ∀ c ∈ capture, (Glob.mk first others).allows c = true)
      ((first.isPrefixOf? text).bind (capturesFrom (allows ⟨first, others⟩) others)) := by
    refine (FindsShortest.isPrefixOf? (capturesFrom_shortest _ others) first text).congr ?_
    intro captures
    constructor
    · rintro ⟨rest, rfl, hwoven, hall⟩
      exact ⟨⟨rest, rfl, hwoven⟩, hall⟩
    · rintro ⟨⟨rest, rfl, hwoven⟩, hall⟩
      exact ⟨rest, rfl, hwoven, hall⟩
  rcases others with _ | ⟨part, _ | ⟨last, _ | ⟨next, others⟩⟩⟩
  · exact hsearch
  · have hone := FindsShortest.between? Nat.one_pos (fun capture => findsShortest_eq [capture])
      first part text
    have hcut : (Glob.mk first [part]).cut? text =
        (between? 1 first part text).bind fun capture => some [capture] := Option.map_eq_bind
    rw [hcut]
    exact hone.congr fun captures => cuts_one.symm.trans (and_iff_left fun _ _ _ _ => rfl).symm
  · have htwo := FindsShortest.between? (Nat.succ_pos (utf8Size part + 1))
      (captureBefore?_shortest (fun _ => true) (captureBehind?_shortest part)) first last text
    exact htwo.congr fun captures => cuts_two.symm.trans (and_iff_left fun _ _ _ _ => rfl).symm
  · exact hsearch

theorem captures?_shortest (g : Glob) (key : String) :
    FindsShortest String.length
      (fun captures => g.Cuts key.toList (captures.map String.toList) ∧
        ∀ capture ∈ captures.map String.toList, ∀ c ∈ capture, g.allows c = true)
      (g.captures? key) :=
  (g.cut?_shortest key.toList).ofList

theorem captures?_length {g : Glob} {key : String} {captures : List String}
    (h : g.captures? key = some captures) : captures.length = g.stars := by
  have hfind := g.captures?_shortest key
  rw [h] at hfind
  rw [← hfind.1.1.length_eq, List.length_map]

/-- A line feed is told apart only where it stands in the key. -/
theorem Cuts.allows {g : Glob} {text : List Char} {captures : List (List Char)}
    (h : g.Cuts text captures) (hline : '\n' ∈ text → g.stars < 3) :
    ∀ capture ∈ captures, ∀ c ∈ capture, g.allows c = true := by
  intro capture hcapture c hc
  have hmem := h.mem_of_mem capture hcapture c hc
  by_cases hfeed : c = '\n'
  · have hstars : g.stars < 3 := hline (hfeed ▸ hmem)
    rw [Glob.allows, decide_eq_true hstars, Bool.true_or]
  · rw [Glob.allows, bne_iff_ne.mpr hfeed, Bool.or_true]

end Glob

/-- **All stars mean the same.** A pattern with any number of stars matches a key that is its parts
with a non-empty text for each star, and captures those of the least lengths; a key with a line
feed is left out from three stars on. -/
theorem stars_match {g : Glob} (hg : g.WellFormed) :
    parseKey (String.ofList g.canonical) = .ok (.glob g) ∧
    ∀ {key : String} (frames : Frames), ('\n' ∈ key.toList → g.stars < 3) →
      (((Element.glob g).match? key frames).isSome = true ↔
        ∃ captures : List String, g.Cuts key.toList (captures.map String.toList)) ∧
      ∀ {matched : MatchedKey}, (Element.glob g).match? key frames = some matched →
        matched.raw = key ∧ matched.captures.length = g.stars ∧
        Shortest String.length
          (fun captures => g.Cuts key.toList (captures.map String.toList)) matched.captures := by
  refine ⟨parseKey_glob hg, fun {key} frames hline => ?_⟩
  have hfind := (g.captures?_shortest key).congr fun captures =>
    and_iff_left_of_imp fun h => h.allows hline
  constructor
  · rw [Element.match?, Option.isSome_map]
    exact hfind.isSome_iff
  · intro matched hmatch
    obtain ⟨captures, hcaptures, rfl⟩ := Option.map_eq_some_iff.mp hmatch
    rw [hcaptures] at hfind
    exact ⟨rfl, g.captures?_length hcaptures, hfind⟩

/-- The last text grows past the first place where the pattern could end. -/
theorem stars_match_three :
    let g : Glob := ⟨['é'], [['-'], ['-', '-'], ['é']]⟩
    let key := "éa-b-c--d-é--é"
    let matched : MatchedKey := ⟨key, ["a", "b-c", "d-é--"]⟩
    g.WellFormed ∧ ('\n' ∈ key.toList → g.stars < 3) ∧
    parseKey "é*-*--*é" = .ok (.glob g) ∧ (Element.glob g).match? key [] = some matched ∧
    Shortest String.length
      (fun captures => g.Cuts key.toList (captures.map String.toList)) matched.captures := by
  intro g key matched
  have hg : g.WellFormed := ⟨by decide, by decide, by decide⟩
  have hline : '\n' ∈ key.toList → g.stars < 3 := fun h => absurd h (by decide +kernel)
  have hmatch : (Element.glob g).match? key [] = some matched := by decide +kernel
  obtain ⟨hparse, hmatches⟩ := stars_match hg
  exact ⟨hg, hline, hparse, hmatch, ((hmatches [] hline).2 hmatch).2.2⟩

end Reshape.Pattern
