import Reshape.Proofs.Edit.Container
import Reshape.Proofs.Pattern.Scan
import Reshape.Walk.Walker
/-!
# Filling the holes of a level

A level of defaults hands the members of a container, and the members that it lacks, to its
children, each of which fills in values below its own member. In a container that was filled every
hole is one that was there before, and its child has nothing left to do. So filling a level twice is
filling it once, if that holds for each of its children.
-/
namespace Reshape

open Pattern (Element)

/-- A child of a level of defaults: its element, and the values that it sets below a value. What is
missing counts as null. -/
structure Filler where
  element : Element
  fills : Json → List (Address × Json)

namespace Filler

/-- The value with the values of the child set. -/
def filled (filler : Filler) (v : Json) : Json := v.setAll (filler.fills v)

/-- Filling in values twice is filling them in once. -/
def Settles (filler : Filler) : Prop :=
  ∀ v : Json, v.WellFormed → filler.filled (filler.filled v) = filler.filled v

end Filler

/-- A member of a level with its value, null if it is missing, and the child that fills it in. -/
structure Hole where
  step : Step
  value : Json
  filler : Filler
  member : step ≠ .append

namespace Hole

def key (name : String) (value : Json) (filler : Filler) : Hole :=
  ⟨.key name, value, filler, by simp⟩

def index (position : Nat) (value : Json) (filler : Filler) : Hole :=
  ⟨.index position, value, filler, by simp⟩

/-- What is set below the member. -/
def group (hole : Hole) : Json.Group := ⟨hole.step, hole.filler.fills hole.value, hole.member⟩

end Hole

/-- The hole of a key that is missing. -/
def Slot.hole? (filler : Filler) : Slot → Option Hole
  | .key name => some (.key name .null filler)
  | .index position => some (.index position .null filler)
  | _ => none

/-- The key that a member is offered with. -/
def Step.text : Step → String
  | .key name => name
  | .index position => toString position
  | .append => ""

namespace Composite

section

variable (level : Composite Filler)

/-- The child that a key is handed to. -/
def taker? (key : String) : Option Filler :=
  (level.literal.lookup key).or
    (level.computed.find? fun filler => (filler.element.match? key []).isSome)

/-- The members of a value that are handed to a child. -/
def present : Json → List Hole
  | .obj fields =>
    if level.computed.isEmpty then
      level.literal.filterMap fun (key, filler) =>
        (fields.lookup key).map fun v => .key key v filler
    else fields.filterMap fun (key, v) => (level.taker? key).map fun filler => .key key v filler
  | .arr elements =>
    elements.zipIdx.filterMap fun (v, position) =>
      (level.taker? (toString position)).map fun filler => .index position v filler
  | _ => []

/-- The members that a value lacks, for the literal children of their names. -/
def lacking (v : Json) : List Hole :=
  level.literal.filterMap fun (key, filler) =>
    (missingSlot? level.isArray (some v) key).bind fun slot => slot.hole? filler

def holes (v : Json) : List Hole := level.present v ++ level.lacking v

/-- The values that the children of a level set below a value, in order. -/
def fills (v : Json) : List (Address × Json) :=
  ((level.holes v).map Hole.group).flatMap Json.Group.all

def filled (v : Json) : Json := v.setAll (level.fills v)

end

/-- No key of the level can be handed to two children: literal children do not stand with computed
ones, and no two of them stand for one index. -/
structure Separated {α : Type} (level : Composite α) : Prop where
  sorted : Fields.Sorted level.literal
  one_kind : level.literal = [] ∨ level.computed = []
  indices : (level.literal.filterMap fun field => Text.word? field.1).Nodup

/-- A step that a literal child of a container stands for while the container lacks it. A key of a
list level is an index even for an object, where it does not fit. -/
inductive Lacks (isArray : Bool) : Json → String → Step → Prop
  | key {fields : List (String × Json)} {key : String} (plain : isArray = false)
    (missing : fields.lookup key = none) : Lacks isArray (.obj fields) key (.key key)
  | stray {fields : List (String × Json)} {key : String} {position : Nat} (array : isArray = true)
    (missing : fields.lookup key = none) (word : Text.word? key = some position) :
    Lacks isArray (.obj fields) key (.index position)
  | index {elements : List Json} {key : String} {position : Nat}
    (word : Text.word? key = some position) (beyond : elements.length ≤ position) :
    Lacks isArray (.arr elements) key (.index position)

theorem Lacks.member?_eq_none {isArray : Bool} {v : Json} {key : String} {step : Step}
    (h : Lacks isArray v key step) : v.member? step = none := by
  cases h with
  | key _ missing => exact missing
  | stray _ _ _ => rfl
  | index _ beyond => exact List.getElem?_eq_none beyond

section Missing

variable {isArray : Bool} {v : Json} {key : String} {step : Step} {filler : Filler} {hole : Hole}

theorem lacks_of_hole? (hv : v.Container)
    (h : ((missingSlot? isArray (some v) key).bind fun slot => slot.hole? filler) = some hole) :
    Lacks isArray v key hole.step ∧ hole.value = .null ∧ hole.filler = filler := by
  obtain ⟨slot, hslot, hhole⟩ := Option.bind_eq_some_iff.mp h
  cases hv with
  | @obj fields _ =>
    rw [missingSlot?] at hslot
    split at hslot
    · cases hslot
    · rename_i hcontains
      have hmissing : fields.lookup key = none :=
        Fields.contains_eq_false.mp (Bool.eq_false_iff.mpr hcontains)
      cases isArray with
      | true =>
        obtain ⟨position, hword, rfl⟩ := Option.map_eq_some_iff.mp hslot
        obtain rfl := Option.some.inj hhole
        exact ⟨.stray rfl hmissing hword, rfl, rfl⟩
      | false =>
        obtain rfl := Option.some.inj hslot
        obtain rfl := Option.some.inj hhole
        exact ⟨.key rfl hmissing, rfl, rfl⟩
  | arr elements =>
    obtain ⟨position, hword, hslot⟩ := Option.bind_eq_some_iff.mp hslot
    split at hslot
    · cases hslot
    · rename_i hlength
      obtain rfl := Option.some.inj hslot
      obtain rfl := Option.some.inj hhole
      exact ⟨.index hword (Nat.le_of_not_lt hlength), rfl, rfl⟩

theorem Lacks.exists_hole? (h : Lacks isArray v key step) (filler : Filler) :
    ∃ hole : Hole, ((missingSlot? isArray (some v) key).bind fun slot => slot.hole? filler) =
      some hole ∧ hole.step = step ∧ hole.filler = filler := by
  cases h with
  | key plain missing =>
    have hcontains := Fields.contains_eq_false.mpr missing
    refine ⟨.key key .null filler, ?_, rfl, rfl⟩
    rw [missingSlot?, hcontains, plain]
    rfl
  | @stray fields _ position array missing word =>
    have hcontains := Fields.contains_eq_false.mpr missing
    refine ⟨.index position .null filler, ?_, rfl, rfl⟩
    rw [missingSlot?, hcontains, array]
    simp only [word]
    rfl
  | @index elements _ position word beyond =>
    refine ⟨.index position .null filler, ?_, rfl, rfl⟩
    rw [missingSlot?, word, Option.bind_some, if_neg (Nat.not_lt.mpr beyond)]
    rfl

end Missing

/-! ## What is a hole -/

section Members

variable {level : Composite Filler} {v : Json} {hole : Hole}

theorem taker?_of_literal (hcomputed : level.computed = []) (key : String) :
    level.taker? key = level.literal.lookup key := by
  rw [taker?, hcomputed, List.find?_nil, Option.or_none]

/-- The holes of members that are there are those members that a child takes. -/
theorem mem_present (hlevel : level.Separated) (hv : v.Container) :
    hole ∈ level.present v ↔
      v.member? hole.step = some hole.value ∧ level.taker? hole.step.text = some hole.filler := by
  cases hv with
  | @obj fields sorted =>
    rw [present]
    split
    · rename_i hcomputed
      have htaker := taker?_of_literal (List.isEmpty_iff.mp hcomputed)
      constructor
      · intro h
        obtain ⟨⟨key, filler⟩, hm, hhole⟩ := List.mem_filterMap.mp h
        obtain ⟨v, hv, rfl⟩ := Option.map_eq_some_iff.mp hhole
        exact ⟨hv, (htaker key).trans (Fields.lookup_of_mem hlevel.sorted hm)⟩
      · obtain ⟨step, value, filler, -⟩ := hole
        rintro ⟨hv, htake⟩
        cases step with
        | key name =>
          have hm := Fields.mem_of_lookup ((htaker name).symm.trans htake)
          exact List.mem_filterMap.mpr
            ⟨(name, filler), hm, Option.map_eq_some_iff.mpr ⟨value, hv, rfl⟩⟩
        | index _ | append => cases hv
    · constructor
      · intro h
        obtain ⟨⟨key, v⟩, hm, hhole⟩ := List.mem_filterMap.mp h
        obtain ⟨filler, htake, rfl⟩ := Option.map_eq_some_iff.mp hhole
        exact ⟨Fields.lookup_of_mem sorted hm, htake⟩
      · obtain ⟨step, value, filler, -⟩ := hole
        rintro ⟨hv, htake⟩
        cases step with
        | key name =>
          exact List.mem_filterMap.mpr ⟨(name, value), Fields.mem_of_lookup hv,
            Option.map_eq_some_iff.mpr ⟨filler, htake, rfl⟩⟩
        | index _ | append => cases hv
  | arr elements =>
    constructor
    · intro h
      obtain ⟨⟨v, position⟩, hm, hhole⟩ := List.mem_filterMap.mp h
      obtain ⟨filler, htake, rfl⟩ := Option.map_eq_some_iff.mp hhole
      exact ⟨List.mk_mem_zipIdx_iff_getElem?.mp hm, htake⟩
    · obtain ⟨step, value, filler, -⟩ := hole
      rintro ⟨hv, htake⟩
      cases step with
      | index position =>
        exact List.mem_filterMap.mpr ⟨(value, position), List.mk_mem_zipIdx_iff_getElem?.mpr hv,
          Option.map_eq_some_iff.mpr ⟨filler, htake, rfl⟩⟩
      | key _ | append => cases hv

theorem lacks_of_mem_lacking (hv : v.Container) (h : hole ∈ level.lacking v) :
    ∃ key, (key, hole.filler) ∈ level.literal ∧ Lacks level.isArray v key hole.step ∧
      hole.value = .null := by
  obtain ⟨⟨key, filler⟩, hm, hhole⟩ := List.mem_filterMap.mp h
  obtain ⟨hlacks, hvalue, rfl⟩ := lacks_of_hole? hv hhole
  exact ⟨key, hm, hlacks, hvalue⟩

theorem exists_mem_lacking {key : String} {filler : Filler} {step : Step}
    (hm : (key, filler) ∈ level.literal) (h : Lacks level.isArray v key step) :
    ∃ hole ∈ level.lacking v, hole.step = step ∧ hole.filler = filler := by
  obtain ⟨hole, hhole, hstep, hfiller⟩ := h.exists_hole? filler
  exact ⟨hole, List.mem_filterMap.mpr ⟨(key, filler), hm, hhole⟩, hstep, hfiller⟩

/-- The value of a hole is that of its member. -/
theorem value_eq_memberAt (hlevel : level.Separated) (hv : v.Container) (h : hole ∈ level.holes v) :
    hole.value = v.memberAt hole.step := by
  rcases List.mem_append.mp h with h | h
  · obtain ⟨hvalue, -⟩ := (mem_present hlevel hv).mp h
    exact (Json.memberAt_of_member? hvalue).symm
  · obtain ⟨key, -, hlacks, hvalue⟩ := lacks_of_mem_lacking hv h
    rw [hvalue, Json.memberAt_of_none hlacks.member?_eq_none]

/-! ## Every member is one hole -/

theorem pairwise_zipIdx {α : Type} (xs : List α) :
    xs.zipIdx.Pairwise fun a b => a.2 ≠ b.2 := by
  have hrange := List.nodup_range' (s := 0) (n := xs.length)
  rw [← List.zipIdx_map_snd 0 xs] at hrange
  exact List.pairwise_map.mp hrange

theorem present_distinct (hlevel : level.Separated) (hv : v.Container) :
    (level.present v).Pairwise fun a b => a.step ≠ b.step := by
  cases hv with
  | @obj fields sorted =>
    rw [present]
    split
    · refine List.pairwise_filterMap.mpr (hlevel.sorted.imp ?_)
      intro a b hlt hole hh hole' hh'
      obtain ⟨v, -, rfl⟩ := Option.map_eq_some_iff.mp hh
      obtain ⟨v', -, rfl⟩ := Option.map_eq_some_iff.mp hh'
      exact fun he => String.ne_of_lt hlt (Step.key.inj he)
    · refine List.pairwise_filterMap.mpr (sorted.imp ?_)
      intro a b hlt hole hh hole' hh'
      obtain ⟨v, -, rfl⟩ := Option.map_eq_some_iff.mp hh
      obtain ⟨v', -, rfl⟩ := Option.map_eq_some_iff.mp hh'
      exact fun he => String.ne_of_lt hlt (Step.key.inj he)
  | arr elements =>
    refine List.pairwise_filterMap.mpr ((pairwise_zipIdx elements).imp ?_)
    intro a b hne hole hh hole' hh'
    obtain ⟨v, -, rfl⟩ := Option.map_eq_some_iff.mp hh
    obtain ⟨v', -, rfl⟩ := Option.map_eq_some_iff.mp hh'
    exact fun he => hne (Step.index.inj he)

theorem lacking_distinct (hlevel : level.Separated) (hv : v.Container) :
    (level.lacking v).Pairwise fun a b => a.step ≠ b.step := by
  have hindices := List.pairwise_filterMap.mp hlevel.indices
  refine List.pairwise_filterMap.mpr (List.Pairwise.imp ?_ (hlevel.sorted.and hindices))
  rintro ⟨a, _⟩ ⟨b, _⟩ ⟨hlt, hindex⟩ hole hh hole' hh'
  obtain ⟨hlacks, -, -⟩ := lacks_of_hole? hv hh
  obtain ⟨hlacks', -, -⟩ := lacks_of_hole? hv hh'
  intro he
  rw [← he] at hlacks'
  generalize hole.step = step at hlacks hlacks'
  cases hlacks with
  | key plain _ =>
    cases hlacks' with
    | key _ _ => exact String.lt_irrefl _ hlt
  | stray _ _ word =>
    cases hlacks' with
    | stray _ _ word' => exact hindex _ word _ word' rfl
  | index word _ =>
    cases hlacks' with
    | index word' _ => exact hindex _ word _ word' rfl

theorem holes_distinct (hlevel : level.Separated) (hv : v.Container) :
    (level.holes v).Pairwise fun a b => a.step ≠ b.step := by
  refine List.pairwise_append.mpr
    ⟨present_distinct hlevel hv, lacking_distinct hlevel hv, ?_⟩
  intro a ha b hb he
  obtain ⟨hvalue, -⟩ := (mem_present hlevel hv).mp ha
  obtain ⟨key, -, hlacks, -⟩ := lacks_of_mem_lacking hv hb
  have hnone := hlacks.member?_eq_none
  rw [← he, hvalue] at hnone
  cases hnone

end Members

/-! ## Filling twice -/

/-- What a filled container lacks it lacked before. -/
theorem Lacks.of_extends {isArray : Bool} {v w : Json} {key : String} {step : Step}
    (hv : v.Container) (hext : v.Extends w) (h : Lacks isArray w key step) :
    Lacks isArray v key step := by
  have hkeeps : ∀ step : Step, w.member? step = none → v.member? step = none := by
    intro step hnone
    by_contra hsome
    have hw := hext.keeps step (Option.isSome_iff_ne_none.mpr hsome)
    rw [hnone] at hw
    cases hw
  cases hv with
  | @obj fields sorted =>
    cases h with
    | @key _ key plain missing => exact .key plain (hkeeps (.key key) missing)
    | @stray _ key position array missing word =>
      exact .stray array (hkeeps (.key key) missing) word
    | index _ _ => cases (hext.admits (.key "")).mpr (.key sorted "")
  | arr elements =>
    cases h with
    | @index _ _ position word beyond =>
      have hnone := hkeeps (.index position) (List.getElem?_eq_none beyond)
      exact .index word (List.getElem?_eq_none_iff.mp hnone)
    | key _ _ | stray _ _ _ => cases (hext.admits (.index 0)).mpr (.index (Nat.zero_le _) elements)

/-- The digits of a number are read as the number, if it is not too large. -/
theorem word?_toString_eq (n : Nat) :
    Text.word? (toString n) = (some n).filter fun n => n < Text.wordSize := by
  have hlist : (toString n).toList = Nat.toDigits 10 n := String.toList_ofList
  have hword : Text.digitsWord? (Nat.toDigits 10 n) =
      (some n).filter fun n => n < Text.wordSize := by
    rw [Text.digitsWord?, Pattern.Scan.digits?_toDigits]
  obtain ⟨c, digits, hdigits, hc⟩ := Pattern.Scan.exists_toDigits_eq_cons n
  rw [Text.word?, hlist]
  rw [hdigits] at hword ⊢
  split
  · rename_i hplus
    obtain rfl := (List.cons.inj hplus).1
    cases hc
  · exact hword

theorem word?_toString {position : Nat} (h : position ≤ Address.maxIndex) :
    Text.word? (toString position) = some position := by
  have hlt : position < Text.wordSize := Nat.lt_of_le_of_lt h (by decide)
  rw [word?_toString_eq, Option.filter_some, if_pos (decide_eq_true hlt)]

section Twice

variable {level : Composite Filler} {v : Json} {hole : Hole}

theorem extends_filled (level : Composite Filler) (hv : v.Container) :
    v.Extends (level.filled v) :=
  hv.extends_groups _

/-- A literal child that a container lacks and gets is one of a level without computed children,
and the container is the one that the level makes. -/
theorem lacks_of_filled (hlevel : level.Separated) (hv : v.Container) {step : Step}
    {filler : Filler} (hnone : v.member? step = none)
    (hsome : ((level.filled v).member? step).isSome = true)
    (htake : level.taker? step.text = some filler) :
    (step.text, filler) ∈ level.literal ∧ Lacks level.isArray v step.text step := by
  -- Some hole is a member that is missing and can be made.
  obtain ⟨made, hmade, hmissing, hadmits⟩ : ∃ made ∈ level.holes v,
      v.member? made.step = none ∧ v.Admits made.step := by
    by_contra hall
    have hgroups : ∀ group ∈ (level.holes v).map Hole.group,
        (v.member? group.step).isSome = true ∨ ¬ v.Admits group.step := by
      intro group hg
      obtain ⟨made, hm, rfl⟩ := List.mem_map.mp hg
      by_contra hnot
      obtain ⟨hmissing, hadmits⟩ := not_or.mp hnot
      exact hall ⟨made, hm, Option.not_isSome_iff_eq_none.mp hmissing, not_not.mp hadmits⟩
    have hold := hv.isSome_of_groups hgroups hsome
    rw [hnone] at hold
    cases hold
  obtain ⟨key, hkey, hlacks⟩ : ∃ key, (key, made.filler) ∈ level.literal ∧
      Lacks level.isArray v key made.step := by
    rcases List.mem_append.mp hmade with hpresent | hlacking
    · have hvalue := ((mem_present hlevel hv).mp hpresent).1
      rw [hmissing] at hvalue
      cases hvalue
    · obtain ⟨key, hkey, hlacks, -⟩ := lacks_of_mem_lacking hv hlacking
      exact ⟨key, hkey, hlacks⟩
  have hcomputed : level.computed = [] :=
    hlevel.one_kind.resolve_left (List.ne_nil_of_mem hkey)
  rw [taker?_of_literal hcomputed] at htake
  refine ⟨Fields.mem_of_lookup htake, ?_⟩
  have hstep : v.Admits step := by
    rcases (level.extends_filled hv).adds step hsome with hold | ha
    · rw [hnone] at hold
      cases hold
    · exact ha
  generalize made.step = place at hadmits hlacks
  cases hstep with
  | key sorted name =>
    cases hlacks with
    | key plain _ => exact .key plain hnone
    | stray _ _ _ => cases hadmits
  | @index position hmax elements =>
    exact .index (word?_toString hmax) (List.getElem?_eq_none_iff.mp hnone)

/-- The holes of a filled container are holes that it had before. -/
theorem holes_filled (hlevel : level.Separated) (hv : v.Container)
    (h : hole ∈ level.holes (level.filled v)) :
    ∃ old ∈ level.holes v, old.step = hole.step ∧ old.filler = hole.filler := by
  have hext := level.extends_filled hv
  rcases List.mem_append.mp h with h | h
  · obtain ⟨hvalue, htake⟩ := (mem_present hlevel hext.container).mp h
    cases hold : v.member? hole.step with
    | some value =>
      exact ⟨⟨hole.step, value, hole.filler, hole.member⟩,
        List.mem_append_left _ ((mem_present hlevel hv).mpr ⟨hold, htake⟩), rfl, rfl⟩
    | none =>
      have hsome : ((level.filled v).member? hole.step).isSome = true := by
        rw [hvalue]
        rfl
      obtain ⟨hm, hlacks⟩ := lacks_of_filled hlevel hv hold hsome htake
      obtain ⟨old, ho, hstep, hfiller⟩ := exists_mem_lacking hm hlacks
      exact ⟨old, List.mem_append_right _ ho, hstep, hfiller⟩
  · obtain ⟨key, hm, hlacks, -⟩ := lacks_of_mem_lacking hext.container h
    obtain ⟨old, ho, hstep, hfiller⟩ := exists_mem_lacking hm (hlacks.of_extends hv hext)
    exact ⟨old, List.mem_append_right _ ho, hstep, hfiller⟩

/-- What a child fills in below its member, in a container where its level was filled. -/
theorem memberAt_filled (hlevel : level.Separated) (hv : v.Container) (h : hole ∈ level.holes v)
    (ha : v.Admits hole.step) :
    (level.filled v).memberAt hole.step = hole.filler.filled hole.value ∧
      (hole.filler.fills hole.value ≠ [] →
        ((level.filled v).member? hole.step).isSome = true) := by
  have hdistinct : ((level.holes v).map Hole.group).Pairwise fun a b => a.step ≠ b.step :=
    List.pairwise_map.mpr (holes_distinct hlevel hv)
  have hmember : hole.group ∈ (level.holes v).map Hole.group := List.mem_map_of_mem h
  have hgroups : (level.filled v).memberAt hole.step =
        (v.memberAt hole.step).setAll (hole.filler.fills hole.value) ∧
      (hole.filler.fills hole.value ≠ [] →
        ((level.filled v).member? hole.step).isSome = true) :=
    Json.Admits.memberAt_groups ha hmember hdistinct
  rw [← value_eq_memberAt hlevel hv h] at hgroups
  exact hgroups

/-- A child finds what it would fill in to be there, in a container where its level was filled. -/
theorem setAll_hole_filled (hlevel : level.Separated) (hv : v.Container)
    (hsettle : ∀ hole ∈ level.holes v, hole.filler.filled (hole.filler.filled hole.value) =
      hole.filler.filled hole.value)
    (h : hole ∈ level.holes (level.filled v)) :
    (level.filled v).setAll hole.group.all = level.filled v := by
  have hext := level.extends_filled hv
  rcases hext.container.setAll_cases hole.group with ⟨hsame, -⟩ | ⟨ha, hne, hput⟩
  · exact hsame
  · obtain ⟨old, ho, hstep, hfiller⟩ := holes_filled hlevel hv h
    have hadmits : v.Admits old.step := by
      rw [hstep]
      exact (hext.admits hole.step).mp ha
    obtain ⟨hmember, hmade⟩ := memberAt_filled hlevel hv ho hadmits
    rw [hstep, hfiller] at hmember
    rw [hstep, hfiller] at hmade
    have hvalue : hole.value = (level.filled v).memberAt hole.step :=
      value_eq_memberAt hlevel hext.container h
    have hidem : hole.filler.filled hole.value = hole.value := by
      have hold := hsettle old ho
      rw [hfiller, ← hmember, ← hvalue] at hold
      exact hold
    have hthere : ((level.filled v).member? hole.step).isSome = true := by
      -- If the member were missing still, the child would have had nothing to set below it.
      by_contra hmissing
      have hnothing : hole.filler.fills old.value = [] := by
        by_contra hsomething
        exact hmissing (hmade hsomething)
      rw [Filler.filled, hnothing] at hmember
      refine hne ?_
      rw [Hole.group, hvalue, hmember]
      exact hnothing
    have hwritten : ((level.filled v).memberAt hole.step).setAll (hole.filler.fills hole.value) =
        (level.filled v).memberAt hole.step := by
      rw [← hvalue]
      exact hidem
    obtain ⟨child, hchild⟩ := Option.isSome_iff_exists.mp hthere
    rw [Json.memberAt_of_member? hchild] at hwritten
    rw [hput]
    refine ha.put_member (hchild.trans (congrArg some ?_))
    rw [← hwritten, ← Json.memberAt_of_member? hchild]
    rfl

/-- The child of a hole is one of its level. -/
theorem filler_mem_children (hlevel : level.Separated) (hv : v.Container)
    (h : hole ∈ level.holes v) : hole.filler ∈ level.children := by
  rcases List.mem_append.mp h with h | h
  · obtain ⟨-, htake⟩ := (mem_present hlevel hv).mp h
    rcases Option.or_eq_some_iff.mp htake with hliteral | ⟨-, hcomputed⟩
    · exact mem_children_of_literal (Fields.mem_of_lookup hliteral)
    · exact mem_children_of_computed (List.mem_of_find?_eq_some hcomputed)
  · obtain ⟨key, hm, -, -⟩ := lacks_of_mem_lacking hv h
    exact mem_children_of_literal hm

theorem value_wellFormed (hlevel : level.Separated) (hv : v.Container) (hwell : v.WellFormed)
    (h : hole ∈ level.holes v) : hole.value.WellFormed := by
  rw [value_eq_memberAt hlevel hv h]
  cases hmember : v.member? hole.step with
  | some child =>
    rw [Json.memberAt_of_member? hmember]
    exact hwell.child? (Json.child?_of_member? hmember)
  | none =>
    rw [Json.memberAt_of_none hmember]
    trivial

theorem filled_filled_container (hlevel : level.Separated) (hv : v.Container)
    (hwell : v.WellFormed) (hsettle : ∀ filler ∈ level.children, filler.Settles) :
    level.filled (level.filled v) = level.filled v := by
  have hholes : ∀ hole ∈ level.holes v, hole.filler.filled (hole.filler.filled hole.value) =
      hole.filler.filled hole.value := fun hole ho =>
    hsettle hole.filler (filler_mem_children hlevel hv ho) hole.value
      (value_wellFormed hlevel hv hwell ho)
  refine Json.setAll_groups_eq ?_
  intro group hg
  obtain ⟨hole, ho, rfl⟩ := List.mem_map.mp hg
  exact setAll_hole_filled hlevel hv hholes ho

/-! ## Null and scalars -/

/-- The empty container that null gives way to. -/
def empty (level : Composite Filler) : Json := if level.isArray then .arr [] else .obj []

theorem container_empty (level : Composite Filler) : level.empty.Container := by
  rw [empty]
  split
  · exact .arr []
  · exact .obj List.Pairwise.nil

theorem wellFormed_empty (level : Composite Filler) : level.empty.WellFormed := by
  rw [empty]
  split
  · trivial
  · exact ⟨List.Pairwise.nil, trivial⟩

theorem present_empty (level : Composite Filler) : level.present level.empty = [] := by
  rw [empty]
  split
  · rfl
  · rw [present]
    split
    · exact List.filterMap_eq_nil_iff.mpr fun _ _ => rfl
    · rfl

/-- Null lacks what the empty container lacks. -/
theorem holes_null (level : Composite Filler) : level.holes .null = level.holes level.empty := by
  have hpresent : level.present .null = level.present level.empty := level.present_empty.symm
  have hlacking : level.lacking .null = level.lacking level.empty := by
    refine List.filterMap_congr ?_
    rintro ⟨key, filler⟩ -
    rw [empty]
    cases level.isArray with
    | false => rfl
    | true =>
      have hslot : missingSlot? true (some .null) key = missingSlot? true (some (.arr [])) key := by
        rw [missingSlot?, missingSlot?, if_pos rfl]
        cases Text.word? key <;> rfl
      exact congrArg (fun slot => slot.bind fun slot => slot.hole? filler) hslot
  rw [holes, holes, hpresent, hlacking]

theorem emptyContainer_step (h : hole ∈ level.holes level.empty) :
    hole.step.emptyContainer = level.empty := by
  have hlacking : hole ∈ level.lacking level.empty := by
    rw [holes, present_empty] at h
    exact h
  obtain ⟨key, -, hlacks, -⟩ := lacks_of_mem_lacking level.container_empty hlacking
  generalize hole.step = step at hlacks
  rw [empty] at hlacks ⊢
  split at hlacks
  · cases hlacks with
    | index _ _ => rw [if_pos ‹_›]; rfl
  · cases hlacks with
    | key _ _ => rw [if_neg ‹_›]; rfl
    | stray array _ _ => exact absurd array ‹_›

/-- Setting values in null is setting them in the empty container, unless there are none. -/
theorem filled_null (level : Composite Filler) :
    level.filled .null = .null ∨ level.filled .null = level.filled level.empty := by
  have hfills : level.fills .null = level.fills level.empty := by
    rw [fills, fills, holes_null]
  cases hall : level.fills level.empty with
  | nil =>
    rw [filled, hfills, hall]
    exact .inl rfl
  | cons fill rest =>
    have hfirst : fill ∈ level.fills level.empty := hall ▸ List.mem_cons_self
    obtain ⟨group, hg, hfill⟩ := List.mem_flatMap.mp hfirst
    obtain ⟨hole, ho, rfl⟩ := List.mem_map.mp hg
    obtain ⟨⟨location, value⟩, -, rfl⟩ := List.mem_map.mp hfill
    have hset : Json.null.set (hole.step :: location) value =
        level.empty.set (hole.step :: location) value := by
      rw [← emptyContainer_step ho]
      cases hole.step <;> rfl
    right
    rw [filled, filled, hfills, hall]
    exact congrArg (fun v : Json × Bool => v.1.setAll rest) hset

theorem filled_of_missing {v : Json} (hpresent : level.present v = [])
    (hmissing : ∀ key, missingSlot? level.isArray (some v) key = none) : level.filled v = v := by
  have hlacking : level.lacking v = [] := by
    refine List.filterMap_eq_nil_iff.mpr ?_
    rintro ⟨key, filler⟩ -
    exact congrArg (fun slot => slot.bind fun slot => slot.hole? filler) (hmissing key)
  rw [filled, fills, holes, hpresent, hlacking]
  rfl

/-- **Filling a level twice is filling it once**, if that holds for each of its children. -/
theorem filled_filled (hlevel : level.Separated) (hwell : v.WellFormed)
    (hsettle : ∀ filler ∈ level.children, filler.Settles) :
    level.filled (level.filled v) = level.filled v := by
  cases v with
  | obj fields => exact filled_filled_container hlevel (.obj hwell.sorted) hwell hsettle
  | arr elements => exact filled_filled_container hlevel (.arr elements) hwell hsettle
  | null =>
    rcases level.filled_null with hsame | hempty
    · rw [hsame, hsame]
    · rw [hempty]
      exact filled_filled_container hlevel level.container_empty level.wellFormed_empty hsettle
  | bool _ | num _ | str _ =>
    exact congrArg level.filled (filled_of_missing rfl fun _ => rfl)

end Twice

end Composite
end Reshape
