import Reshape.Proofs.Fields
import Reshape.Proofs.Order
import Reshape.Spec.Compile
/-!
# Levels that compiling gives

What a compilation that succeeds says about every level of its tree: the children are in the
bucket of their role, literal ones under their own text in key order, computed ones in order of
precedence, and the policy allows their elements. Nothing is said about the errors of a
compilation that fails.
-/
namespace Reshape

open Pattern (Element)

variable {τ : Type}

theorem Pattern.Element.role_cases (e : Element) :
    (∃ text, e = .literal text) ∨ e.isSpecial = true ∨ e.isComputed = true := by
  cases e with
  | literal text => exact .inl ⟨text, rfl⟩
  | any | glob _ | reference _ => exact .inr (.inr rfl)
  | _ => exact .inr (.inl rfl)

theorem Pattern.Element.isSpecial_of_isComputed {e : Element} (h : e.isComputed = true) :
    e.isSpecial = false := by
  cases e with
  | any | glob _ | reference _ => rfl
  | _ => cases h

/-- The children of a level from all of its buckets. -/
def Composite.children {α : Type} (level : Composite α) : List α :=
  level.special ++ level.literal.map Prod.snd ++ level.computed

/-- What holds of a node if it holds of its children holds of every node. -/
theorem Node.of_children {motive : Node τ → Prop}
    (leaf : ∀ element rawKey target, motive (.leaf element rawKey target))
    (composite : ∀ level : Level τ, (∀ child ∈ level.children, motive child) →
      motive (.composite level)) (node : Node τ) : motive node :=
  match node with
  | .leaf element rawKey target => leaf element rawKey target
  | .composite level => composite level fun child _ => Node.of_children leaf composite child
termination_by sizeOf node
decreasing_by
  obtain ⟨element, rawKey, isArray, special, literal, computed, strategy⟩ := level
  rw [Node.composite.sizeOf_spec, Composite.mk.sizeOf_spec]
  have hchild : child ∈ special ++ literal.map Prod.snd ++ computed := ‹_›
  rcases List.mem_append.mp hchild with h | h
  · rcases List.mem_append.mp h with h | h
    · have hlt := List.sizeOf_lt_of_mem h
      omega
    · obtain ⟨field, hf, rfl⟩ := List.mem_map.mp h
      have hlt := List.sizeOf_lt_of_mem hf
      have hfield : sizeOf field = 1 + sizeOf field.1 + sizeOf field.2 := rfl
      omega
  · have hlt := List.sizeOf_lt_of_mem h
    omega

/-- Every bucket of a level holds what belongs there, in order, and the strategy fits. -/
structure Composite.Ordered (level : Level τ) : Prop where
  special_role : ∀ child ∈ level.special, child.element.isSpecial
  literal_element : ∀ field ∈ level.literal, field.2.element = .literal field.1
  literal_sorted : Fields.Sorted level.literal
  computed_role : ∀ child ∈ level.computed, child.element.isComputed
  computed_sorted : level.computed.Pairwise fun a b =>
    (a.element.comparePrecedence b.element).isLE
  strategy_eq : level.strategy = Build.chooseStrategy level.literal level.computed

theorem Policy.accepts_of_ok {operation location : String} {accepts : Element → Bool} {e : Element}
    (h : Policy.accepting operation accepts location e = .ok ()) : accepts e = true := by
  rw [Policy.accepting] at h
  split at h
  · assumption
  · cases h

/-- The policy has a meaning for an element somewhere in a spec. -/
def Policy.Allows (p : Policy τ) (e : Element) : Prop :=
  ∃ location, p.validate location e = .ok ()

/-- A node of a tree that was compiled for a policy. -/
inductive Node.Compiled (p : Policy τ) : Node τ → Prop
  | leaf {element : Element} {rawKey : String} {target : τ} (allowed : p.Allows element) :
    Node.Compiled p (.leaf element rawKey target)
  | composite {level : Level τ} (allowed : p.Allows level.element)
    (accepts : level.element.acceptsChildren) (ordered : level.Ordered)
    (children : ∀ child ∈ level.children, Node.Compiled p child) :
    Node.Compiled p (.composite level)

/-- A level of a tree that was compiled for a policy; the element of the root is not checked. -/
structure Composite.Compiled (p : Policy τ) (level : Level τ) : Prop where
  ordered : level.Ordered
  children : ∀ child ∈ level.children, child.Compiled p

namespace Composite

variable {α : Type} {level : Composite α} {child : α}

theorem mem_children_of_special (h : child ∈ level.special) : child ∈ level.children :=
  List.mem_append_left _ (List.mem_append_left _ h)

theorem mem_children_of_literal {key : String} (h : (key, child) ∈ level.literal) :
    child ∈ level.children :=
  List.mem_append_left _ (List.mem_append_right _ (List.mem_map_of_mem h))

theorem mem_children_of_computed (h : child ∈ level.computed) : child ∈ level.children :=
  List.mem_append_right _ h

end Composite

namespace Build

variable {α β : Type}

/-- A step of compiling can succeed with a result. -/
def Gives (x : Build α) (a : α) : Prop := ∃ s s', x.run s = .ok (a, s')

theorem Gives.bind {x : Build α} {f : α → Build β} {b : β} (h : Gives (x >>= f) b) :
    ∃ a, Gives x a ∧ Gives (f a) b := by
  obtain ⟨s, s', h⟩ := h
  rw [StateT.run_bind] at h
  cases hx : x.run s with
  | error e => rw [hx] at h; cases h
  | ok r =>
    rw [hx] at h
    exact ⟨r.1, ⟨s, r.2, hx⟩, ⟨r.2, s', h⟩⟩

theorem Gives.pure {a b : α} (h : Gives (Pure.pure a) b) : b = a := by
  obtain ⟨s, s', h⟩ := h
  cases h
  rfl

theorem not_gives_fail {e : SpecError} {a : α} : ¬ Gives (fail e) a := by
  rintro ⟨s, s', h⟩
  cases h

theorem Gives.locate {location : String} {r : Except SpecError α} {a : α}
    (h : Gives (locate location r) a) : r = .ok a := by
  cases r with
  | ok b => rw [h.pure]
  | error e => exact absurd h not_gives_fail

/-- What comes after a refusal is only reached where its condition fails. -/
theorem Gives.guard {c : Prop} [Decidable c] {e : SpecError} {f : Unit → Build β} {b : β}
    (h : Gives (if c then fail e >>= f else f ()) b) : ¬ c ∧ Gives (f ()) b := by
  by_cases hc : c
  · rw [if_pos hc] at h
    obtain ⟨a, ha, -⟩ := h.bind
    exact absurd ha not_gives_fail
  · rw [if_neg hc] at h
    exact ⟨hc, h⟩

/-- What every step of a fold keeps, the fold keeps; `I` says what is known when some of the
elements are done. -/
theorem Gives.foldlM {f : β → α → Build β} {I : List α → β → Prop}
    (hstep : ∀ done x b b', I done b → Gives (f b x) b' → I (done ++ [x]) b') {xs : List α}
    (done : List α) {b b' : β} (hb : I done b) (h : Gives (xs.foldlM f b) b') :
    I (done ++ xs) b' := by
  induction xs generalizing done b with
  | nil =>
    rw [h.pure, List.append_nil]
    exact hb
  | cons x xs ih =>
    rw [List.foldlM_cons] at h
    obtain ⟨c, hc, h⟩ := h.bind
    have hI : I (done ++ [x]) c := hstep done x b c hb hc
    rw [← List.singleton_append, ← List.append_assoc]
    exact ih (done ++ [x]) hI h

theorem run_bind_of_ok {x : Build α} {f : α → Build β} {s t : SpecStats} {a : α}
    (h : x.run s = .ok (a, t)) : (x >>= f).run s = (f a).run t := by
  rw [StateT.run_bind, h]
  rfl

/-- A step of compiling fails whatever was compiled before. -/
def Refuses (x : Build α) : Prop := ∀ s, ∃ e, x.run s = .error e

theorem Refuses.bind {x : Build α} (h : Refuses x) (f : α → Build β) : Refuses (x >>= f) := by
  intro s
  obtain ⟨e, he⟩ := h s
  refine ⟨e, ?_⟩
  rw [StateT.run_bind, he]
  rfl

theorem Refuses.after (x : Build α) {f : α → Build β} (h : ∀ a, Refuses (f a)) :
    Refuses (x >>= f) := by
  intro s
  cases hx : x.run s with
  | error e =>
    refine ⟨e, ?_⟩
    rw [StateT.run_bind, hx]
    rfl
  | ok r =>
    rw [run_bind_of_ok hx]
    exact h r.1 r.2

/-- A draft with one more child, in the bucket of its role. -/
def Draft.put (draft : Draft τ) (key : String) (node : Node τ) : Draft τ :=
  let seen := (node.element.canonical, key) :: draft.seen
  match node.element with
  | .literal text => { draft with literal := Fields.insert text node draft.literal, seen }
  | element =>
    if element.isSpecial then { draft with special := draft.special ++ [node], seen }
    else { draft with computed := draft.computed ++ [node], seen }

namespace Draft

variable {draft : Draft τ} {key : String} {node : Node τ}

theorem put_literal {text : String} (h : node.element = .literal text) :
    draft.put key node = { draft with
      literal := Fields.insert text node draft.literal
      seen := (node.element.canonical, key) :: draft.seen } := by
  simp only [put, h]

theorem put_special (h : node.element.isSpecial = true) :
    draft.put key node = { draft with
      special := draft.special ++ [node]
      seen := (node.element.canonical, key) :: draft.seen } := by
  rw [put]
  split
  · rename_i text he
    rw [he] at h
    cases h
  · rw [if_pos h]

theorem put_computed (h : node.element.isComputed = true) :
    draft.put key node = { draft with
      computed := draft.computed ++ [node]
      seen := (node.element.canonical, key) :: draft.seen } := by
  rw [put]
  split
  · rename_i text he
    rw [he] at h
    cases h
  · rw [Element.isSpecial_of_isComputed h, if_neg Bool.false_ne_true]

end Draft

/-- The level that a draft becomes. -/
def Draft.level (draft : Draft τ) (element : Element) (rawKey : String) (isArray : Bool) :
    Level τ :=
  let computed := sortBy (fun a b => a.element.comparePrecedence b.element) draft.computed
  ⟨element, rawKey, isArray, draft.special, draft.literal, computed,
    chooseStrategy draft.literal computed⟩

/-- A child is added under a canonical form that is new, and to a list only where it is an index
or computed. -/
theorem gives_addChild {isArray : Bool} {location key : String} {draft draft' : Draft τ}
    {node : Node τ} (h : Gives (addChild isArray location key draft node) draft') :
    (isArray = true → isArrayChild node.element = true) ∧
      draft.seen.lookup node.element.canonical = none ∧ draft' = draft.put key node := by
  simp only [addChild] at h
  obtain ⟨hguard, h⟩ := Gives.guard h
  have harray : isArray = true → isArrayChild node.element = true := by
    intro ha
    simpa [ha] using hguard
  refine ⟨harray, ?_⟩
  split at h
  · exact absurd h not_gives_fail
  · rename_i hseen
    refine ⟨hseen, ?_⟩
    split at h
    · rename_i text he
      obtain ⟨_, -, h⟩ := h.bind
      rw [h.pure, Draft.put_literal he]
    · rename_i hne
      split at h
      · rename_i hs
        obtain ⟨_, -, h⟩ := h.bind
        rw [h.pure, Draft.put_special hs]
      · rename_i hs
        have hc : node.element.isComputed = true :=
          (node.element.role_cases.resolve_left fun ⟨text, he⟩ => hne text he).resolve_left hs
        obtain ⟨_, -, h⟩ := h.bind
        rw [h.pure, Draft.put_computed hc]

/-- The count of one more child with an element. -/
def bucket (e : Element) : SpecStats → SpecStats :=
  match e.role with
  | .literal => SpecStats.addLiteral
  | .special => SpecStats.addSpecial
  | .computed => SpecStats.addComputed

/-- A level can take one more child with an element. -/
def Draft.Admits (isArray : Bool) (draft : Draft τ) (e : Element) : Prop :=
  (isArray = true → isArrayChild e = true) ∧ draft.seen.lookup e.canonical = none

/-- A child that there is room for is put into the draft and counted. -/
theorem addChild_of_admits {isArray : Bool} {draft : Draft τ} {node : Node τ}
    (h : draft.Admits isArray node.element) (location key : String) :
    addChild isArray location key draft node =
      (do modify (bucket node.element); pure (draft.put key node)) := by
  have harray : (isArray && !isArrayChild node.element) = false := by
    cases ha : isArray with
    | false => rfl
    | true => rw [h.1 ha]; rfl
  simp only [addChild, harray, Bool.false_eq_true, if_false, h.2]
  cases node with
  | leaf e rawKey target => cases e <;> rfl
  | composite level =>
    rcases level with ⟨e, rawKey, isArray, special, literal, computed, strategy⟩
    cases e <;> rfl

theorem addChild_of_not_admits {isArray : Bool} {draft : Draft τ} {node : Node τ}
    (h : ¬ draft.Admits isArray node.element) (location key : String) :
    Refuses (addChild isArray location key draft node) := by
  intro s
  simp only [addChild]
  by_cases harray : (isArray && !isArrayChild node.element) = true
  · rw [if_pos harray]
    exact ⟨_, rfl⟩
  · rw [if_neg harray]
    have hseen : draft.seen.lookup node.element.canonical ≠ none := by
      intro hnone
      refine h ⟨fun ha => ?_, hnone⟩
      simpa [ha] using harray
    obtain ⟨first, hfirst⟩ := Option.ne_none_iff_exists'.mp hseen
    rw [hfirst]
    exact ⟨_, rfl⟩

theorem gives_closeLevel {element : Element} {rawKey : String} {isArray : Bool}
    {draft : Draft τ} {level : Level τ}
    (h : Gives (closeLevel element rawKey isArray draft) level) :
    level = draft.level element rawKey isArray := by
  obtain ⟨_, -, h⟩ := h.bind
  exact h.pure

/-- What a draft keeps while the keys of its level are gone through. -/
structure Draft.Ordered (p : Policy τ) (draft : Draft τ) : Prop where
  special_role : ∀ child ∈ draft.special, child.element.isSpecial
  literal_element : ∀ field ∈ draft.literal, field.2.element = .literal field.1
  literal_sorted : Fields.Sorted draft.literal
  computed_role : ∀ child ∈ draft.computed, child.element.isComputed
  special_compiled : ∀ child ∈ draft.special, child.Compiled p
  literal_compiled : ∀ field ∈ draft.literal, field.2.Compiled p
  computed_compiled : ∀ child ∈ draft.computed, child.Compiled p

namespace Draft.Ordered

variable {p : Policy τ} {draft : Draft τ} {node : Node τ}

theorem empty : Draft.Ordered p ({} : Draft τ) := by
  constructor <;> first | exact List.Pairwise.nil | exact fun _ h => nomatch h

theorem put (h : draft.Ordered p) (key : String) (hn : node.Compiled p) :
    (draft.put key node).Ordered p := by
  rcases node.element.role_cases with ⟨text, he⟩ | hs | hc
  · rw [Draft.put_literal he]
    refine { h with literal_element := ?_, literal_sorted := ?_, literal_compiled := ?_ }
    · intro field hf
      rcases Fields.mem_insert hf with rfl | hf
      · exact he
      · exact h.literal_element field hf
    · exact Fields.insert_sorted text node h.literal_sorted
    · intro field hf
      rcases Fields.mem_insert hf with rfl | hf
      · exact hn
      · exact h.literal_compiled field hf
  · rw [Draft.put_special hs]
    refine { h with special_role := ?_, special_compiled := ?_ }
    · exact List.forall_mem_append.mpr ⟨h.special_role, List.forall_mem_singleton.mpr hs⟩
    · exact List.forall_mem_append.mpr ⟨h.special_compiled, List.forall_mem_singleton.mpr hn⟩
  · rw [Draft.put_computed hc]
    refine { h with computed_role := ?_, computed_compiled := ?_ }
    · exact List.forall_mem_append.mpr ⟨h.computed_role, List.forall_mem_singleton.mpr hc⟩
    · exact List.forall_mem_append.mpr ⟨h.computed_compiled, List.forall_mem_singleton.mpr hn⟩

/-- Putting a level together sorts its computed children and chooses the strategy. -/
theorem level (h : draft.Ordered p) (element : Element) (rawKey : String) (isArray : Bool) :
    (draft.level element rawKey isArray).Compiled p := by
  let cmp := fun a b : Node τ => a.element.comparePrecedence b.element
  have htrans : Std.TransCmp cmp := transCmp_on Element.comparePrecedence Node.element
  have hperm : (sortBy cmp draft.computed).Perm draft.computed := sortBy_perm cmp draft.computed
  constructor
  · refine ⟨h.special_role, h.literal_element, h.literal_sorted, ?_, ?_, rfl⟩
    · exact fun child hc => h.computed_role child (hperm.mem_iff.mp hc)
    · exact sortBy_pairwise cmp draft.computed
  · intro child hc
    rcases List.mem_append.mp hc with hc | hc
    · rcases List.mem_append.mp hc with hc | hc
      · exact h.special_compiled child hc
      · obtain ⟨field, hf, rfl⟩ := List.mem_map.mp hc
        exact h.literal_compiled field hf
    · exact h.computed_compiled child (hperm.mem_iff.mp hc)

end Draft.Ordered

section

variable {p : Policy τ} {config : Config} {rawKey location : String} {depth : Nat}
  {node : Node τ}

theorem gives_leaf {rhs : Json} (hrhs : ∀ fields, rhs = .obj fields → False)
    (h : Gives (Build.node p config rawKey location depth rhs) node) :
    ∃ element target, Pattern.parseKey rawKey = .ok element ∧
      p.validate location element = .ok () ∧ p.compileTarget config location rhs = .ok target ∧
      node = .leaf element rawKey target := by
  rw [Build.node.eq_2 _ _ _ _ _ _ hrhs] at h
  obtain ⟨element, he, h⟩ := h.bind
  obtain ⟨⟨⟩, hv, h⟩ := h.bind
  obtain ⟨target, ht, h⟩ := h.bind
  obtain ⟨_, -, h⟩ := h.bind
  exact ⟨element, target, he.locate, hv.locate, ht.locate, h.pure⟩

theorem gives_composite {fields : List (String × Json)}
    (h : Gives (Build.node p config rawKey location depth (.obj fields)) node) :
    ∃ key isArray element draft, Pattern.stripArrayMarker rawKey = (key, isArray) ∧
      Pattern.parseKey key = .ok element ∧ element.acceptsChildren = true ∧
      p.validate location element = .ok () ∧
      Gives (children p config isArray location (depth + 1) {} fields) draft ∧
      node = .composite (draft.level element rawKey isArray) := by
  rw [Build.node] at h
  rcases hstrip : Pattern.stripArrayMarker rawKey with ⟨key, isArray⟩
  rw [hstrip] at h
  obtain ⟨element, he, h⟩ := h.bind
  obtain ⟨haccepts, h⟩ := Gives.guard h
  obtain ⟨-, h⟩ := Gives.guard h
  obtain ⟨⟨⟩, hv, h⟩ := h.bind
  obtain ⟨_, -, h⟩ := h.bind
  obtain ⟨draft, hd, h⟩ := h.bind
  obtain ⟨level, hl, h⟩ := h.bind
  have haccepts' : element.acceptsChildren = true := by simpa using haccepts
  rw [gives_closeLevel hl] at h
  exact ⟨key, isArray, element, draft, rfl, he.locate, haccepts', hv.locate, hd, h.pure⟩

theorem leaf_compiled {rhs : Json}
    (h : Gives (Build.node p config rawKey location depth rhs) node)
    (hrhs : ∀ fields, rhs = .obj fields → False) : node.Compiled p := by
  obtain ⟨element, target, -, hv, -, rfl⟩ := gives_leaf hrhs h
  exact .leaf ⟨location, hv⟩

end

mutual
/-- What compiles is a compiled node. The recursion is that of the compiler over the spec. -/
theorem node_compiled {p : Policy τ} {config : Config} {rawKey location : String} {depth : Nat}
    {node : Node τ} :
    ∀ {rhs : Json}, Gives (Build.node p config rawKey location depth rhs) node → node.Compiled p
  | .obj fields, h => by
    obtain ⟨key, isArray, element, draft, -, -, haccepts, hv, hd, rfl⟩ := gives_composite h
    have hlevel := (children_ordered .empty hd).level element rawKey isArray
    exact .composite ⟨location, hv⟩ haccepts hlevel.ordered hlevel.children
  | .null, h => leaf_compiled h nofun
  | .bool _, h => leaf_compiled h nofun
  | .num _, h => leaf_compiled h nofun
  | .str _, h => leaf_compiled h nofun
  | .arr _, h => leaf_compiled h nofun

theorem children_ordered {p : Policy τ} {config : Config} {isArray : Bool} {location : String}
    {depth : Nat} {draft draft' : Draft τ} (hd : draft.Ordered p) :
    ∀ {fields : List (String × Json)},
      Gives (children p config isArray location depth draft fields) draft' → draft'.Ordered p
  | [], h => by
    rw [children] at h
    rw [h.pure]
    exact hd
  | (rawChild, value) :: rest, h => by
    rw [children] at h
    obtain ⟨alternatives, -, h⟩ := h.bind
    obtain ⟨next, hnext, h⟩ := h.bind
    have hkeep : next.Ordered p := by
      refine Gives.foldlM (I := fun _ => Draft.Ordered p) ?_ [] hd hnext
      intro _ key c c' hc hstep
      obtain ⟨child, hchild, hadd⟩ := hstep.bind
      obtain ⟨-, -, rfl⟩ := gives_addChild hadd
      exact hc.put key (node_compiled hchild)
    exact children_ordered hkeep h
end

theorem root_compiled {p : Policy τ} {config : Config} {spec : Json} {level : Level τ}
    (h : Gives (root p config spec) level) : level.Compiled p := by
  cases spec with
  | obj fields =>
    rw [root] at h
    obtain ⟨-, h⟩ := Gives.guard h
    obtain ⟨_, -, h⟩ := h.bind
    obtain ⟨draft, hd, h⟩ := h.bind
    rw [gives_closeLevel h]
    exact (children_ordered .empty hd).level _ _ _
  | _ => exact absurd h not_gives_fail

theorem root_element {p : Policy τ} {config : Config} {spec : Json} {level : Level τ}
    (h : Gives (root p config spec) level) : level.element = .literal config.rootKey := by
  cases spec with
  | obj fields =>
    rw [root] at h
    obtain ⟨-, h⟩ := Gives.guard h
    obtain ⟨_, -, h⟩ := h.bind
    obtain ⟨draft, -, h⟩ := h.bind
    rw [gives_closeLevel h]
    rfl
  | _ => exact absurd h not_gives_fail

end Build

/-! ## What compiling depends on -/

namespace Build

section Congr

variable {p q : Policy τ} {config : Config}

theorem leaf_congr (ht : p.compileTarget = q.compileTarget) (hv : p.validate = q.validate)
    (rawKey location : String) (depth : Nat) {rhs : Json}
    (hrhs : ∀ fields, rhs = .obj fields → False) :
    Build.node p config rawKey location depth rhs =
      Build.node q config rawKey location depth rhs := by
  rw [Build.node.eq_2 _ _ _ _ _ _ hrhs, Build.node.eq_2 _ _ _ _ _ _ hrhs, ht, hv]

mutual
theorem node_congr (ht : p.compileTarget = q.compileTarget) (hv : p.validate = q.validate)
    (rawKey location : String) (depth : Nat) :
    ∀ rhs : Json, Build.node p config rawKey location depth rhs =
      Build.node q config rawKey location depth rhs
  | .obj fields => by
    have hchildren := fun isArray => children_congr ht hv isArray location (depth + 1) {} fields
    simp only [Build.node, hv, hchildren]
  | .null => leaf_congr ht hv rawKey location depth nofun
  | .bool _ => leaf_congr ht hv rawKey location depth nofun
  | .num _ => leaf_congr ht hv rawKey location depth nofun
  | .str _ => leaf_congr ht hv rawKey location depth nofun
  | .arr _ => leaf_congr ht hv rawKey location depth nofun

theorem children_congr (ht : p.compileTarget = q.compileTarget) (hv : p.validate = q.validate)
    (isArray : Bool) (location : String) (depth : Nat) (draft : Draft τ) :
    ∀ fields : List (String × Json), children p config isArray location depth draft fields =
      children q config isArray location depth draft fields
  | [] => by rw [children, children]
  | (rawChild, value) :: rest => by
    have hnode := fun key => node_congr ht hv key (childLocation location key) depth value
    have hrest := fun next => children_congr ht hv isArray location depth next rest
    simp only [children, hnode, hrest]
end

/-- A level is compiled from the targets and the refusals of a policy; its decisions do not
matter. -/
theorem root_congr (ht : p.compileTarget = q.compileTarget) (hv : p.validate = q.validate)
    (spec : Json) : root p config spec = root q config spec := by
  cases spec with
  | obj fields => simp only [root, children_congr ht hv]
  | _ => rfl

end Congr

end Build

namespace CompiledSpec

variable {p : Policy τ} {raw : Json} {config : Config} {spec : CompiledSpec τ}

/-- A policy that compiles and refuses alike gives the same spec. -/
theorem compile_congr {q : Policy τ} (ht : p.compileTarget = q.compileTarget)
    (hv : p.validate = q.validate) (h : compile p raw config = .ok spec) :
    compile q raw config = .ok { spec with policy := q } := by
  rw [compile, Build.root_congr ht hv] at h
  rw [compile]
  cases hr : (Build.root q config raw).run {} with
  | error e => rw [hr] at h; cases h
  | ok r =>
    rw [hr] at h
    cases h
    rfl

/-- A compiled spec has the policy and the root key that it was compiled with, and a compiled
root level. -/
theorem of_compile (h : compile p raw config = .ok spec) :
    spec.policy = p ∧ spec.rootKey = config.rootKey ∧ spec.root.Compiled p := by
  rw [compile] at h
  cases hr : (Build.root p config raw).run {} with
  | error e => rw [hr] at h; cases h
  | ok r =>
    rw [hr] at h
    cases h
    exact ⟨rfl, rfl, Build.root_compiled ⟨{}, r.2, hr⟩⟩

/-- The root level stands for the root key. -/
theorem root_element (h : compile p raw config = .ok spec) :
    spec.root.element = .literal spec.rootKey := by
  rw [compile] at h
  cases hr : (Build.root p config raw).run {} with
  | error e => rw [hr] at h; cases h
  | ok r =>
    rw [hr] at h
    cases h
    exact Build.root_element ⟨{}, r.2, hr⟩

/-- A spec compiles if something can be computed from what it compiles to. -/
theorem exists_of_map {α : Type} {f : CompiledSpec τ → α} {b : α}
    (h : (compile p raw config).toOption.map f = some b) :
    ∃ spec, compile p raw config = .ok spec ∧ f spec = b := by
  cases hc : compile p raw config with
  | error e =>
    rw [hc] at h
    cases h
  | ok spec =>
    rw [hc] at h
    exact ⟨spec, rfl, Option.some.inj h⟩

theorem exists_of_isSome (h : (compile p raw config).toOption.isSome = true) :
    ∃ spec, compile p raw config = .ok spec := by
  cases hc : compile p raw config with
  | error e =>
    rw [hc] at h
    cases h
  | ok spec => exact ⟨spec, rfl⟩

end CompiledSpec
end Reshape
