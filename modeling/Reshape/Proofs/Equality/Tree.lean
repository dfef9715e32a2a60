import Mathlib
import Reshape.Operation.Modify
import Reshape.Proofs.Pattern.Injective
import Reshape.Proofs.Spec.Targets
/-!
# Equal specs up to the signs of zeros

Two trees that compare equal are the same, except for what the comparison does not see: the
function of a call, which its name tells if both come from one registry, and the sign of a zero
among the literal values. So they have as many zeros, and they are the same if these are.
-/
namespace Reshape

open Operation
open Pattern (Element WritePath)

/-- Two values with as many zeros, which are the same if the zeros are. -/
structure Alike {α : Type} (zeros : α → List Float) (a b : α) : Prop where
  length_eq : (zeros a).length = (zeros b).length
  eq : zeros a = zeros b → a = b

namespace Alike

variable {α β γ : Type}

theorem of_eq (zeros : α → List Float) {a b : α} (h : a = b) : Alike zeros a b :=
  ⟨by rw [h], fun _ => h⟩

/-- A value that holds another one and nothing else with a zero in it. -/
theorem map {zeros : α → List Float} {zeros' : β → List Float} (f : α → β)
    (hf : ∀ a, zeros' (f a) = zeros a) {a b : α} (h : Alike zeros a b) :
    Alike zeros' (f a) (f b) := by
  constructor
  · rw [hf, hf]
    exact h.length_eq
  · intro hz
    rw [hf, hf] at hz
    rw [h.eq hz]

/-- A value that holds two others, the zeros of the first before those of the second. -/
theorem map₂ {zeros : α → List Float} {zeros' : β → List Float} {zeros'' : γ → List Float}
    (f : α → β → γ) (hf : ∀ a b, zeros'' (f a b) = zeros a ++ zeros' b) {a a' : α} {b b' : β}
    (ha : Alike zeros a a') (hb : Alike zeros' b b') : Alike zeros'' (f a b) (f a' b') := by
  constructor
  · rw [hf, hf, List.length_append, List.length_append, ha.length_eq, hb.length_eq]
  · intro hz
    rw [hf, hf] at hz
    obtain ⟨hza, hzb⟩ := List.append_inj hz ha.length_eq
    rw [ha.eq hza, hb.eq hzb]

end Alike

/-! ## Documents -/

def Number.floatZeros : Number → List Float
  | .int _ => []
  | .float x => if x == 0 then [x] else []

theorem Number.alike_zeros {x y : Float} (hx : (x == 0) = true) (hy : (y == 0) = true) :
    Alike floatZeros (.float x) (.float y) := by
  have hzx : floatZeros (.float x) = [x] := if_pos hx
  have hzy : floatZeros (.float y) = [y] := if_pos hy
  refine ⟨by rw [hzx, hzy]; rfl, fun hz => ?_⟩
  rw [hzx, hzy] at hz
  rw [List.singleton_inj.mp hz]

theorem Number.alike_of_beq {a b : Number} (h : (a == b) = true) : Alike Number.floatZeros a b := by
  cases a with
  | int n =>
    cases b with
    | int m => exact .of_eq _ (congrArg Number.int (LawfulBEq.eq_of_beq h))
    | float y => cases h
  | float x =>
    cases b with
    | int m => cases h
    | float y =>
      obtain ⟨-, -, hxy⟩ := Float.beq_iff_ne_nan_and_eq.mp h
      rcases hxy with rfl | ⟨rfl, rfl⟩ | ⟨rfl, rfl⟩
      · exact .of_eq _ rfl
      · exact alike_zeros (by decide) (by decide)
      · exact alike_zeros (by decide) (by decide)

namespace Json

mutual
/-- The zeros among the floats of a document, in its order. -/
def floatZeros : Json → List Float
  | .num n => n.floatZeros
  | .arr elements => elementsZeros elements
  | .obj fields => fieldsZeros fields
  | _ => []

def elementsZeros : List Json → List Float
  | [] => []
  | v :: rest => v.floatZeros ++ elementsZeros rest

def fieldsZeros : List (String × Json) → List Float
  | [] => []
  | (_, v) :: rest => v.floatZeros ++ fieldsZeros rest
end

mutual
theorem alike_of_beq {a b : Json} (h : a.beq b = true) : Alike floatZeros a b := by
  cases a with
  | null =>
    cases b with
    | null => exact .of_eq _ rfl
    | _ => cases h
  | bool v =>
    cases b with
    | bool w => exact .of_eq _ (congrArg Json.bool (LawfulBEq.eq_of_beq h))
    | _ => cases h
  | num n =>
    cases b with
    | num m => exact (Number.alike_of_beq h).map Json.num fun _ => rfl
    | _ => cases h
  | str s =>
    cases b with
    | str t => exact .of_eq _ (congrArg Json.str (LawfulBEq.eq_of_beq h))
    | _ => cases h
  | arr elements =>
    cases b with
    | arr others => exact (alike_of_beqElements h).map Json.arr fun _ => rfl
    | _ => cases h
  | obj fields =>
    cases b with
    | obj others => exact (alike_of_beqFields h).map Json.obj fun _ => rfl
    | _ => cases h

theorem alike_of_beqElements {a b : List Json} (h : beqElements a b = true) :
    Alike elementsZeros a b := by
  match a, b with
  | [], [] => exact .of_eq _ rfl
  | [], _ :: _ => cases h
  | _ :: _, [] => cases h
  | v :: rest, w :: more =>
    obtain ⟨hv, hrest⟩ := Bool.and_eq_true_iff.mp h
    exact (alike_of_beq hv).map₂ List.cons (fun _ _ => rfl) (alike_of_beqElements hrest)

theorem alike_of_beqFields {a b : List (String × Json)} (h : beqFields a b = true) :
    Alike fieldsZeros a b := by
  match a, b with
  | [], [] => exact .of_eq _ rfl
  | [], _ :: _ => cases h
  | _ :: _, [] => cases h
  | (k, v) :: rest, (l, w) :: more =>
    obtain ⟨hfield, hrest⟩ := Bool.and_eq_true_iff.mp h
    obtain ⟨hk, hv⟩ := Bool.and_eq_true_iff.mp hfield
    obtain rfl := LawfulBEq.eq_of_beq hk
    exact (alike_of_beq hv).map₂ (fun v rest => (k, v) :: rest) (fun _ _ => rfl)
      (alike_of_beqFields hrest)
end

end Json

/-! ## Elements -/

namespace Pattern

theorem Lookup.eq_of_beq {a b : Lookup} (h : a.beq b = true) : a = b := by
  obtain ⟨up, steps⟩ := a
  obtain ⟨up', steps'⟩ := b
  obtain ⟨hu, hs⟩ := Bool.and_eq_true_iff.mp h
  obtain rfl : up = up' := LawfulBEq.eq_of_beq hu
  exact congrArg (Lookup.mk up) (eq_of_beqSteps hs)

theorem Element.eq_of_beq {a b : Element} (h : a.beq b = true) : a = b := by
  cases a with
  | literal s =>
    cases b with
    | literal t => exact congrArg Element.literal (LawfulBEq.eq_of_beq h)
    | _ => cases h
  | any =>
    cases b with
    | any => rfl
    | _ => cases h
  | glob g =>
    cases b with
    | glob g' => exact congrArg Element.glob (Glob.eq_of_beq h)
    | _ => cases h
  | reference t =>
    cases b with
    | reference t' => exact congrArg Element.reference (LawfulBEq.eq_of_beq h)
    | _ => cases h
  | matchedKey r =>
    cases b with
    | matchedKey r' => exact congrArg Element.matchedKey (LawfulBEq.eq_of_beq h)
    | _ => cases h
  | value =>
    cases b with
    | value => rfl
    | _ => cases h
  | count n =>
    cases b with
    | count m => exact congrArg Element.count (LawfulBEq.eq_of_beq h)
    | _ => cases h
  | constant s =>
    cases b with
    | constant t => exact congrArg Element.constant (LawfulBEq.eq_of_beq h)
    | _ => cases h
  | lookup l =>
    cases b with
    | lookup l' => exact congrArg Element.lookup (Lookup.eq_of_beq h)
    | _ => cases h

theorem WritePath.eq_of_beq {a b : WritePath} (h : (a == b) = true) : a = b := by
  obtain ⟨raw, steps⟩ := a
  obtain ⟨raw', steps'⟩ := b
  obtain ⟨hr, hs⟩ := Bool.and_eq_true_iff.mp h
  obtain rfl : raw = raw' := LawfulBEq.eq_of_beq hr
  exact congrArg (WritePath.mk raw) (eq_of_beqSteps hs)

end Pattern

/-! ## Modify targets -/

namespace Operation

mutual
def Argument.floatZeros : Argument → List Float
  | .literal v => v.floatZeros
  | .call _ _ args => argumentsZeros args
  | _ => []

def argumentsZeros : List Argument → List Float
  | [] => []
  | a :: rest => a.floatZeros ++ argumentsZeros rest
end

mutual
/-- The functions of the argument are those that the registry has under their names. -/
def Argument.Registered (registry : Registry) : Argument → Prop
  | .call name function args =>
    registry.get? name = some function ∧ RegisteredArguments registry args
  | _ => True

def RegisteredArguments (registry : Registry) : List Argument → Prop
  | [] => True
  | a :: rest => a.Registered registry ∧ RegisteredArguments registry rest
end

structure Call.Registered (registry : Registry) (c : Call) : Prop where
  function : registry.get? c.name = some c.function
  args : RegisteredArguments registry c.args

mutual
theorem Argument.alike_of_beq {registry : Registry} {a b : Argument} (h : a.beq b = true)
    (ha : a.Registered registry) (hb : b.Registered registry) : Alike Argument.floatZeros a b := by
  cases a with
  | literal v =>
    cases b with
    | literal w => exact (Json.alike_of_beq h).map Argument.literal fun _ => rfl
    | _ => cases h
  | current =>
    cases b with
    | current => exact .of_eq _ rfl
    | _ => cases h
  | lookup l =>
    cases b with
    | lookup m => exact .of_eq _ (congrArg Argument.lookup (Pattern.Lookup.eq_of_beq h))
    | _ => cases h
  | reference r =>
    cases b with
    | reference q => exact .of_eq _ (congrArg Argument.reference (LawfulBEq.eq_of_beq h))
    | _ => cases h
  | call name function args =>
    cases b with
    | call other function' args' =>
      obtain ⟨hn, hargs⟩ := Bool.and_eq_true_iff.mp h
      obtain rfl := LawfulBEq.eq_of_beq hn
      obtain rfl := Option.some.inj (ha.1.symm.trans hb.1)
      exact (alike_of_beqArguments hargs ha.2 hb.2).map (Argument.call name function) fun _ => rfl
    | _ => cases h

theorem alike_of_beqArguments {registry : Registry} {a b : List Argument}
    (h : beqArguments a b = true) (ha : RegisteredArguments registry a)
    (hb : RegisteredArguments registry b) : Alike argumentsZeros a b := by
  match a, b with
  | [], [] => exact .of_eq _ rfl
  | [], _ :: _ => cases h
  | _ :: _, [] => cases h
  | a :: rest, b :: more =>
    obtain ⟨hfirst, hrest⟩ := Bool.and_eq_true_iff.mp h
    exact (Argument.alike_of_beq hfirst ha.1 hb.1).map₂ List.cons (fun _ _ => rfl)
      (alike_of_beqArguments hrest ha.2 hb.2)
end

namespace Source

def floatZeros : Source → List Float
  | .literal v => v.floatZeros
  | .lookup _ => []
  | .call c => argumentsZeros c.args

def Registered (registry : Registry) : Source → Prop
  | .call c => c.Registered registry
  | _ => True

theorem alike_of_beq {registry : Registry} {a b : Source} (h : a.beq b = true)
    (ha : a.Registered registry) (hb : b.Registered registry) : Alike floatZeros a b := by
  cases a with
  | literal v =>
    cases b with
    | literal w => exact (Json.alike_of_beq h).map Source.literal fun _ => rfl
    | _ => cases h
  | lookup l =>
    cases b with
    | lookup m => exact .of_eq _ (congrArg Source.lookup (Pattern.Lookup.eq_of_beq h))
    | _ => cases h
  | call c =>
    cases b with
    | call d =>
      obtain ⟨name, function, args⟩ := c
      obtain ⟨other, function', args'⟩ := d
      obtain ⟨hn, hargs⟩ := Bool.and_eq_true_iff.mp h
      obtain rfl := LawfulBEq.eq_of_beq hn
      obtain rfl := Option.some.inj (ha.function.symm.trans hb.function)
      exact (alike_of_beqArguments hargs ha.args hb.args).map
        (fun args => Source.call ⟨name, function, args⟩) fun _ => rfl
    | _ => cases h

end Source
end Operation

/-! ## Trees -/

variable {τ : Type}

section Zeros

variable (zeros : τ → List Float)

mutual
/-- The zeros of the targets of a tree, level by level. -/
def Node.floatZeros : Node τ → List Float
  | .leaf _ _ target => zeros target
  | .composite level => levelZeros level

def levelZeros : Composite (Node τ) → List Float
  | ⟨_, _, _, special, literal, computed, _⟩ =>
    nodesZeros special ++ namedZeros literal ++ nodesZeros computed

def nodesZeros : List (Node τ) → List Float
  | [] => []
  | node :: rest => node.floatZeros ++ nodesZeros rest

def namedZeros : List (String × Node τ) → List Float
  | [] => []
  | (_, node) :: rest => node.floatZeros ++ namedZeros rest
end

end Zeros

/-- Targets with a property that compare equal are alike. -/
def TargetsTold [BEq τ] (P : τ → Prop) (zeros : τ → List Float) : Prop :=
  ∀ s t : τ, (s == t) = true → P s → P t → Alike zeros s t

section Alike

variable [BEq τ] {P : τ → Prop} {zeros : τ → List Float}

/-- The node is alike to every tree of such targets that it compares equal to. -/
def Node.Told (P : τ → Prop) (zeros : τ → List Float) (a : Node τ) : Prop :=
  ∀ {b : Node τ}, a.beq b = true → b.Targets P → Alike (Node.floatZeros zeros) a b

theorem nodes_alike_of_beq {a b : List (Node τ)} (ha : ∀ node ∈ a, node.Told P zeros)
    (hb : ∀ node ∈ b, node.Targets P) (h : Node.beqList a b = true) :
    Alike (nodesZeros zeros) a b := by
  induction a generalizing b with
  | nil =>
    cases b with
    | nil => exact .of_eq _ rfl
    | cons other more => simp [Node.beqList] at h
  | cons node rest ih =>
    cases b with
    | nil => simp [Node.beqList] at h
    | cons other more =>
      rw [Node.beqList, Bool.and_eq_true] at h
      obtain ⟨hfirst, hrest⟩ := List.forall_mem_cons.mp ha
      obtain ⟨hother, hmore⟩ := List.forall_mem_cons.mp hb
      refine (hfirst h.1 hother).map₂ List.cons (fun _ _ => ?_) (ih hrest hmore h.2)
      rw [nodesZeros]

theorem named_alike_of_beq {a b : List (String × Node τ)}
    (ha : ∀ field ∈ a, field.2.Told P zeros) (hb : ∀ field ∈ b, field.2.Targets P)
    (h : Node.beqFields a b = true) : Alike (namedZeros zeros) a b := by
  induction a generalizing b with
  | nil =>
    cases b with
    | nil => exact .of_eq _ rfl
    | cons other more => simp [Node.beqFields] at h
  | cons field rest ih =>
    cases b with
    | nil => simp [Node.beqFields] at h
    | cons other more =>
      obtain ⟨key, node⟩ := field
      obtain ⟨key', node'⟩ := other
      rw [Node.beqFields, Bool.and_eq_true, Bool.and_eq_true] at h
      obtain ⟨⟨hk, hn⟩, hrest⟩ := h
      obtain rfl : key = key' := LawfulBEq.eq_of_beq hk
      obtain ⟨hfirst, ha⟩ := List.forall_mem_cons.mp ha
      obtain ⟨hother, hb⟩ := List.forall_mem_cons.mp hb
      refine (hfirst hn hother).map₂ (fun node rest => (key, node) :: rest) (fun _ _ => ?_)
        (ih ha hb hrest)
      rw [namedZeros]

/-- Levels that compare equal are alike if their children are. -/
theorem level_alike_of_beq {a b : Level τ} (ha : ∀ child ∈ a.children, child.Told P zeros)
    (hb : ∀ child ∈ b.children, child.Targets P) (h : Node.beqLevel a b = true) :
    Alike (levelZeros zeros) a b := by
  obtain ⟨element, rawKey, isArray, special, literal, computed, strategy⟩ := a
  obtain ⟨element', rawKey', isArray', special', literal', computed', strategy'⟩ := b
  simp only [Node.beqLevel, Bool.and_eq_true] at h
  obtain ⟨⟨⟨⟨⟨⟨he, hk⟩, harray⟩, hs⟩, hl⟩, hc⟩, hstrategy⟩ := h
  obtain rfl := Element.eq_of_beq he
  obtain rfl : rawKey = rawKey' := LawfulBEq.eq_of_beq hk
  obtain rfl : isArray = isArray' := LawfulBEq.eq_of_beq harray
  obtain rfl : strategy = strategy' := LawfulBEq.eq_of_beq hstrategy
  have hspecial : Alike (nodesZeros zeros) special special' := nodes_alike_of_beq
    (fun node hm => ha node (Composite.mem_children_of_special hm))
    (fun node hm => hb node (Composite.mem_children_of_special hm)) hs
  have hliteral : Alike (namedZeros zeros) literal literal' := named_alike_of_beq
    (fun field hm => ha field.2 (Composite.mem_children_of_literal hm))
    (fun field hm => hb field.2 (Composite.mem_children_of_literal hm)) hl
  have hcomputed : Alike (nodesZeros zeros) computed computed' := nodes_alike_of_beq
    (fun node hm => ha node (Composite.mem_children_of_computed hm))
    (fun node hm => hb node (Composite.mem_children_of_computed hm)) hc
  have hpair : Alike (fun pair => nodesZeros zeros pair.1 ++ namedZeros zeros pair.2)
      (special, literal) (special', literal') :=
    hspecial.map₂ Prod.mk (fun _ _ => rfl) hliteral
  refine hpair.map₂ (fun pair computed =>
    (⟨element, rawKey, isArray, pair.1, pair.2, computed, strategy⟩ : Level τ)) (fun _ _ => ?_)
      hcomputed
  rw [levelZeros]

theorem Node.alike_of_beq (hτ : TargetsTold P zeros) {a : Node τ} (ha : a.Targets P) :
    a.Told P zeros := by
  induction ha with
  | @leaf element rawKey target ht =>
    intro b h hb
    cases hb with
    | leaf ht' =>
      rw [Node.beq, Bool.and_eq_true, Bool.and_eq_true] at h
      obtain ⟨⟨he, hk⟩, htarget⟩ := h
      obtain rfl := Element.eq_of_beq he
      obtain rfl := LawfulBEq.eq_of_beq hk
      refine (hτ _ _ htarget ht ht').map (Node.leaf element rawKey) fun _ => ?_
      rw [Node.floatZeros]
    | composite _ => simp [Node.beq] at h
  | composite _ ih =>
    intro b h hb
    cases hb with
    | leaf _ => simp [Node.beq] at h
    | composite hchildren =>
      rw [Node.beq] at h
      refine (level_alike_of_beq ih hchildren h).map Node.composite fun _ => ?_
      rw [Node.floatZeros]

end Alike

end Reshape
