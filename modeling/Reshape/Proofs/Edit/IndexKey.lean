import Reshape.Proofs.Edit.Defaults
import Reshape.Proofs.Edit.Landing
import Reshape.Proofs.Spec.Single
import Reshape.Proofs.Spec.Targets
/-!
# Keys that stand for a position of a list

A key of a list level is taken for a position by reading its text as a number, but elements that are
there are offered with the digits of their position. So a key with leading zeros or a sign fills in
a missing element only.
-/
namespace Reshape

open Pattern (Element)

/-! ## The spec of one position -/

namespace Build

variable {τ : Type} {p : Policy τ} {config : Config} {location key : String} {depth : Nat}
  {value : Json}

/-- The only child of a level that compiles is that of its only key. -/
theorem gives_only {isArray : Bool} {draft : Draft τ}
    (hkey : Pattern.splitAlternatives key = .ok [key])
    (h : Gives (children p config isArray location depth {} [(key, value)]) draft) :
    ∃ child, Gives (Build.node p config key (childLocation location key) depth value) child ∧
      (isArray = true → isArrayChild child.element = true) ∧
      draft = ({} : Draft τ).put key child := by
  rw [children] at h
  obtain ⟨alternatives, halternatives, h⟩ := h.bind
  obtain rfl := Except.ok.inj (hkey.symm.trans halternatives.locate)
  obtain ⟨next, hnext, h⟩ := h.bind
  rw [List.foldlM_cons] at hnext
  obtain ⟨added, hadded, hnext⟩ := hnext.bind
  obtain ⟨child, hchild, hadd⟩ := hadded.bind
  obtain ⟨harray, -, rfl⟩ := gives_addChild hadd
  rw [children] at h
  rw [List.foldlM_nil] at hnext
  exact ⟨child, hchild, harray, h.pure.trans hnext.pure⟩

end Build

/-- The level of a list that fills in one position. -/
def Composite.index (name text indexKey : String) (value : Json) : Level Json :=
  ⟨.literal name, Pattern.listKey name, true, [], [(text, .leaf (.literal text) indexKey value)],
    [], .literalsOnly⟩

theorem isArrayChild_literal {text : String} (h : Build.isArrayChild (.literal text) = true) :
    ∃ position ≤ Address.maxIndex, Text.word? text = some position := by
  rw [Build.isArrayChild] at h
  split at h
  · exact ⟨_, of_decide_eq_true h, ‹_›⟩
  · cases h

/-- What compiles for one position of a list. -/
theorem root_of_index {config : Config} {name indexKey text : String} {value : Json}
    {spec : CompiledSpec Json} (hvalue : ∀ fields, value = .obj fields → False)
    (hsplit : Pattern.splitAlternatives indexKey = .ok [indexKey])
    (hparse : Pattern.parseKey indexKey = .ok (.literal text))
    (h : CompiledSpec.compile Operation.default
      (.obj [(Pattern.listKey name, .obj [(indexKey, value)])]) config = .ok spec) :
    (∃ position ≤ Address.maxIndex, Text.word? text = some position) ∧
      spec.root = .single (.literal config.rootKey) config.rootKey name
        (.composite (.index name text indexKey value)) := by
  have hroot := CompiledSpec.gives_root h
  rw [Build.root] at hroot
  obtain ⟨-, hroot⟩ := Build.Gives.guard hroot
  obtain ⟨_, -, hroot⟩ := hroot.bind
  obtain ⟨draft, hd, hroot⟩ := hroot.bind
  obtain ⟨list, hlist, -, rfl⟩ := Build.gives_only (Pattern.splitAlternatives_listKey name) hd
  obtain ⟨rawKey, isArray, element, inner, hstrip, helement, -, -, hinner, rfl⟩ :=
    Build.gives_composite hlist
  obtain ⟨rfl, rfl⟩ := Prod.mk.inj ((Pattern.stripArrayMarker_listKey name).symm.trans hstrip)
  obtain rfl := Except.ok.inj ((Pattern.parseKey_escapeKey name).symm.trans helement)
  obtain ⟨leaf, hleaf, hposition, rfl⟩ := Build.gives_only hsplit hinner
  obtain ⟨element, target, helement, -, htarget, rfl⟩ := Build.gives_leaf hvalue hleaf
  obtain rfl := Except.ok.inj (hparse.symm.trans helement)
  obtain rfl := Except.ok.inj htarget
  refine ⟨isArrayChild_literal (hposition rfl), ?_⟩
  rw [Build.gives_closeLevel hroot]
  rfl

/-! ## What is filled in -/

/-- Going through a list with positions, where only one position gives something. -/
theorem filterMap_zipIdx_of_unique {α β : Type} {f : α × Nat → Option β} {position start : Nat}
    (h : ∀ x i, i ≠ start + position → f (x, i) = none) (xs : List α) :
    (xs.zipIdx start).filterMap f =
      (xs[position]?.bind fun x => f (x, start + position)).toList := by
  induction xs generalizing position start with
  | nil => rfl
  | cons x xs ih =>
    rw [List.zipIdx_cons, List.filterMap_cons]
    cases position with
    | zero =>
      have hnone : (xs.zipIdx (start + 1)).filterMap f = [] := by
        refine List.filterMap_eq_nil_iff.mpr ?_
        rintro ⟨y, i⟩ hm
        have hle := List.le_snd_of_mem_zipIdx hm
        exact h y i (by omega)
      rw [hnone, List.getElem?_cons_zero, Option.bind_some]
      cases f (x, start) <;> rfl
    | succ position =>
      have hplace : start + (position + 1) = start + 1 + position := by omega
      rw [h x start (by omega), List.getElem?_cons_succ, hplace]
      exact ih (hplace ▸ h)

namespace Composite

theorem eq_of_word?_toString {i position : Nat}
    (h : Text.word? (toString i) = some position) : i = position := by
  rw [word?_toString_eq] at h
  exact Option.some.inj (Option.filter_eq_some_iff.mp h).1

section Index

variable {level : Composite Filler} {text : String} {filler : Filler} {position : Nat}
  (hliteral : level.literal = [(text, filler)])
include hliteral

/-- The position is lacking in a list that is too short. -/
theorem lacking_index (hword : Text.word? text = some position) (elements : List Json) :
    level.lacking (.arr elements) =
      if position < elements.length then [] else [.index position .null filler] := by
  by_cases hlt : position < elements.length
  all_goals
    rw [lacking, hliteral]
    simp only [List.filterMap_cons, List.filterMap_nil, missingSlot?, hword, Option.bind_some,
      hlt, if_true, if_false]
    rfl

variable (hcomputed : level.computed = []) (hword : Text.word? text = some position)
include hcomputed hword

/-- An element that is there is offered with the digits of its position, so the key takes it only if
it has these. -/
theorem present_index (elements : List Json) :
    level.present (.arr elements) =
      (elements[position]?.bind fun v => if text = toString position then
        some (Hole.index position v filler) else none).toList := by
  have htaker : ∀ key, level.taker? key = if text = key then some filler else none := by
    intro key
    rw [taker?_of_literal hcomputed, hliteral, List.lookup_cons, List.lookup_nil]
    by_cases hkey : text = key
    · rw [if_pos hkey, hkey, beq_self_eq_true]
    · rw [if_neg hkey, beq_false_of_ne (Ne.symm hkey)]
  have hother : ∀ v i, i ≠ 0 + position →
      ((level.taker? (toString i)).map fun filler => Hole.index i v filler) = none := by
    intro v i hne
    have htext : text ≠ toString i := by
      rintro rfl
      exact hne ((eq_of_word?_toString hword).trans (Nat.zero_add position).symm)
    rw [htaker, if_neg htext]
    rfl
  rw [present, filterMap_zipIdx_of_unique hother, Nat.zero_add]
  cases elements[position]? with
  | none => rfl
  | some v =>
    rw [Option.bind_some, Option.bind_some]
    dsimp only
    rw [htaker]
    split <;> rfl

theorem holes_index (elements : List Json) :
    level.holes (.arr elements) =
      match elements[position]? with
      | some v => if text = toString position then [.index position v filler] else []
      | none => [.index position .null filler] := by
  rw [holes, present_index hliteral hcomputed hword, lacking_index hliteral hword]
  cases hget : elements[position]? with
  | none =>
    have hlength := List.getElem?_eq_none_iff.mp hget
    rw [if_neg (Nat.not_lt.mpr hlength)]
    rfl
  | some v =>
    obtain ⟨hlength, -⟩ := List.getElem?_eq_some_iff.mp hget
    rw [if_pos hlength, Option.bind_some, List.append_nil]
    dsimp only
    split <;> rfl

/-- Null stays at the position of a key that has other digits. -/
theorem filled_index_null (htext : text ≠ toString position) {elements : List Json}
    (hnull : elements[position]? = some .null) :
    level.filled (.arr elements) = .arr elements := by
  have hholes := holes_index hliteral hcomputed hword elements
  rw [hnull] at hholes
  dsimp only at hholes
  rw [filled, fills, hholes, if_neg htext]
  rfl

/-- Any other list gets the value where it has nothing or null at the position. -/
theorem filled_index {value : Json}
    (hfills : ∀ v, filler.fills v = if v.isNull then [([], value)] else [])
    (hmax : position ≤ Address.maxIndex) {elements : List Json}
    (h : text = toString position ∨ elements[position]? ≠ some .null) :
    level.filled (.arr elements) = .arr ((Json.padTo position elements).set position
      (Operation.ModifyMode.default.landed value elements[position]?)) := by
  have hholes := holes_index hliteral hcomputed hword elements
  have hgroup : ∀ v, (Hole.index position v filler).group.all =
      if v.isNull then [([.index position], value)] else [] := by
    intro v
    have hall : (Hole.index position v filler).group.all =
        (Step.index position).lower (filler.fills v) := rfl
    rw [hall, hfills]
    split <;> rfl
  have hset : (Json.arr elements).setAll [([.index position], value)] =
      .arr ((Json.padTo position elements).set position value) :=
    Json.set_index hmax elements [] value
  rw [filled, fills]
  cases hget : elements[position]? with
  | none =>
    rw [hget] at hholes
    rw [hholes, List.map_singleton, List.flatMap_singleton, hgroup]
    exact hset
  | some v =>
    rw [hget] at hholes h
    dsimp only at hholes
    cases hv : v.isNull with
    | true =>
      obtain rfl := Json.eq_null_of_isNull hv
      rw [hholes, if_pos (h.resolve_right (fun hne => hne rfl)), List.map_singleton,
        List.flatMap_singleton, hgroup]
      exact hset
    | false =>
      obtain ⟨hlength, rfl⟩ := List.getElem?_eq_some_iff.mp hget
      have hkept : Operation.ModifyMode.default.landed value (some elements[position]) =
          elements[position] := by
        rw [Operation.ModifyMode.landed, Option.filter_some, hv]
        rfl
      have hnothing :
          ((level.holes (.arr elements)).map Hole.group).flatMap Json.Group.all = [] := by
        rw [hholes]
        split
        · rw [List.map_singleton, List.flatMap_singleton, hgroup, hv]
          rfl
        · rfl
      rw [hnothing, hkept, Json.padTo_eq_self hlength, List.set_getElem_self]
      rfl

end Index

end Composite

/-- A level with one child, which is literal, is separated. -/
theorem Node.isSeparated_of_literal {level : Level Json} {text : String} {child : Node Json}
    (hliteral : level.literal = [(text, child)]) (hspecial : level.special = [])
    (hcomputed : level.computed = []) (hchild : child.isSeparated = true) :
    (Node.composite level).isSeparated = true := by
  have hlevel : level.isSeparated = true := by
    rw [Composite.isSeparated, hliteral, hcomputed, List.filterMap_cons]
    cases Text.word? text <;> rfl
  rw [isSeparated, fold_composite, Composite.isSeparated_map, hlevel, Composite.children_map,
    Composite.children, hspecial, hliteral, hcomputed, Bool.true_and]
  exact Bool.and_eq_true_iff.mpr ⟨hchild, rfl⟩

/-- A spec with one key fills in its field. -/
theorem Composite.filled_single {element : Element} {rawKey name : String} {child : Node Json}
    (v : Json) :
    ((Composite.single element rawKey name child).map Node.filler).filled (.obj [(name, v)]) =
      .obj [(name, child.filler.filled v)] := by
  have hholes : ((Composite.single element rawKey name child).map Node.filler).holes
      (.obj [(name, v)]) = [Hole.key name v child.filler] := by
    simp [holes, present, lacking, Composite.map, single, missingSlot?, Fields.contains]
  have hsorted : Fields.Sorted [(name, v)] := List.pairwise_singleton _ _
  rw [filled, fills, hholes, List.map_singleton, List.flatMap_singleton]
  rcases (Json.Container.obj hsorted).setAll_cases (Hole.key name v child.filler).group with
    ⟨hsame, hnil | hnot⟩ | ⟨-, -, hput⟩
  · have hnothing : child.filler.fills v = [] := hnil
    rw [hsame, Filler.filled, hnothing]
    rfl
  · exact absurd (.key hsorted name) hnot
  · have hmember : (Json.obj [(name, v)]).memberAt (.key name) = v :=
      Json.memberAt_of_member? List.lookup_cons_self
    have hinsert : ∀ w : Json, Fields.insert name w [(name, v)] = [(name, w)] := by
      intro w
      rw [Fields.insert, if_neg (String.lt_irrefl name), if_pos rfl]
    refine hput.trans ?_
    have hstep : (Hole.key name v child.filler).group.step = .key name := rfl
    rw [hstep, hmember]
    exact congrArg Json.obj (hinsert _)

namespace Operation

/-- **A key of a list level stands for its position.** A default for one key of a list, if it
compiles, has the position that the text of the key is read as. The list holds the element that it
had at the position, if that is not null, and the default otherwise, with everything else as it was
and nulls in between. Only null stays where the key is not written with the digits of the position:
the element is there, so it is offered with these digits and not taken. -/
theorem applyDefault_index {config : Config} {name indexKey text : String} {value : Json}
    {spec : CompiledSpec Json} (hvalue : ∀ fields, value = .obj fields → False)
    (hsplit : Pattern.splitAlternatives indexKey = .ok [indexKey])
    (hparse : Pattern.parseKey indexKey = .ok (.literal text))
    (h : CompiledSpec.compile default
      (.obj [(Pattern.listKey name, .obj [(indexKey, value)])]) config = .ok spec) :
    ∃ position ≤ Address.maxIndex, Text.word? text = some position ∧ ∀ elements : List Json,
      let filled := (Json.padTo position elements).set position
        (ModifyMode.default.landed value elements[position]?)
      filled[position]? = some (ModifyMode.default.landed value elements[position]?) ∧
        (text = toString position ∨ elements[position]? ≠ some .null →
          applyDefault spec (.obj [(name, .arr elements)]) = .obj [(name, .arr filled)]) ∧
        (text ≠ toString position → elements[position]? = some .null →
          applyDefault spec (.obj [(name, .arr elements)]) = .obj [(name, .arr elements)]) := by
  obtain ⟨⟨position, hmax, hword⟩, hroot⟩ := root_of_index hvalue hsplit hparse h
  have hsep : spec.isSeparated = true := by
    rw [CompiledSpec.isSeparated, hroot]
    exact Node.isSeparated_of_literal rfl rfl rfl (Node.isSeparated_of_literal rfl rfl rfl rfl)
  have happlied : ∀ elements : List Json, applyDefault spec (.obj [(name, .arr elements)]) =
      .obj [(name, ((Composite.index name text indexKey value).map Node.filler).filled
        (.arr elements))] := by
    intro elements
    rw [applyDefault_eq_filled h hsep, hroot, Composite.filled_single, Node.filler_composite]
    rfl
  have hfills : ∀ v, (Node.leaf (.literal text) indexKey value).filler.fills v =
      if v.isNull then [([], value)] else [] := fun _ => rfl
  refine ⟨position, hmax, hword, fun elements => ⟨?_, fun hdigits => ?_, fun htext hnull => ?_⟩⟩
  · rw [List.getElem?_set_self (Json.lt_padTo_length position elements)]
  · rw [happlied, Composite.filled_index rfl rfl hword hfills hmax hdigits]
  · rw [happlied, Composite.filled_index_null rfl rfl hword htext hnull]

/-- A key with a leading zero, for a list that is too short. -/
theorem applyDefault_index_beyond :
    Pattern.splitAlternatives "01" = .ok ["01"] ∧ Pattern.parseKey "01" = .ok (.literal "01") ∧
      ∃ spec : CompiledSpec Json,
        CompiledSpec.compile default
          (.obj [(Pattern.listKey "k", .obj [("01", .str "d")])]) {} = .ok spec ∧
        applyDefault spec (.obj [("k", .arr [])]) = .obj [("k", .arr [.null, .str "d"])] := by
  have hsplit : Pattern.splitAlternatives "01" = .ok ["01"] := by rfl
  have hparse : Pattern.parseKey "01" = .ok (.literal "01") := by rfl
  have hcompiles : (CompiledSpec.compile default
      (.obj [(Pattern.listKey "k", .obj [("01", .str "d")])]) {}).toOption.map (fun _ => ()) =
        some () := by
    decide +kernel
  obtain ⟨spec, hspec, -⟩ := CompiledSpec.exists_of_map hcompiles
  have hvalue : ∀ fields, Json.str "d" = .obj fields → False := nofun
  obtain ⟨position, -, hword, hlists⟩ := applyDefault_index hvalue hsplit hparse hspec
  obtain rfl : 1 = position := Option.some.inj hword
  exact ⟨hsplit, hparse, spec, hspec, (hlists []).2.1 (.inr (by simp))⟩

/-- A key with a leading zero, where the list has null. -/
theorem applyDefault_index_zeros :
    ∃ spec : CompiledSpec Json,
      CompiledSpec.compile default
        (.obj [(Pattern.listKey "k", .obj [("00", .str "d")])]) {} = .ok spec ∧
      Text.word? "00" = some 0 ∧
      (applyDefault spec (.obj [("k", .arr [.null])])).get? [.key "k", .index 0] = some .null := by
  have hcompiles : (CompiledSpec.compile default
      (.obj [(Pattern.listKey "k", .obj [("00", .str "d")])]) {}).toOption.map (fun spec =>
        ((applyDefault spec (.obj [("k", .arr [.null])])).get? [.key "k", .index 0]).map
          Json.isNull) = some (some true) := by
    decide +kernel
  obtain ⟨spec, hspec, hread⟩ := CompiledSpec.exists_of_map hcompiles
  obtain ⟨v, hread, hnull⟩ := Option.map_eq_some_iff.mp hread
  obtain rfl := Json.eq_null_of_isNull hnull
  exact ⟨spec, hspec, rfl, hread⟩

end Operation
end Reshape
