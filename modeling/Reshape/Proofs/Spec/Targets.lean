import Reshape.Proofs.Spec.Levels
/-!
# Targets of a compiled spec

The leaves of a compiled spec carry targets that the policy compiled. What holds of everything it
compiles therefore holds throughout the tree.
-/
namespace Reshape

variable {τ : Type}

/-- If there is a result, it has a property. -/
def Returns {ε α : Type} (P : α → Prop) (result : Except ε α) : Prop :=
  ∀ a, result = .ok a → P a

namespace Returns

variable {ε α β : Type} {P : α → Prop} {Q : β → Prop}

theorem ok {a : α} (h : P a) : Returns P (.ok a : Except ε α) := by
  rintro _ ⟨⟩
  exact h

theorem error (e : ε) : Returns P (.error e : Except ε α) := nofun

theorem bind {x : Except ε α} {f : α → Except ε β} (hx : Returns P x)
    (hf : ∀ a, P a → Returns Q (f a)) : Returns Q (x >>= f) := by
  cases x with
  | ok a => exact hf a (hx a rfl)
  | error e => exact error e

theorem map {x : Except ε α} {f : α → β} (hx : Returns P x) (hf : ∀ {a}, P a → Q (f a)) :
    Returns Q (x.map f) := by
  cases x with
  | ok a => exact ok (hf (hx a rfl))
  | error e => exact error e

theorem mapM {f : α → Except ε β} {xs : List α} (hf : ∀ a ∈ xs, Returns Q (f a)) :
    Returns (fun ys => ∀ b ∈ ys, Q b) (xs.mapM f) := by
  induction xs with
  | nil => exact ok (List.forall_mem_nil _)
  | cons x xs ih =>
    obtain ⟨hx, hxs⟩ := List.forall_mem_cons.mp hf
    rw [List.mapM_cons]
    exact bind hx fun b hb => bind (ih hxs) fun bs hbs => ok (List.forall_mem_cons.mpr ⟨hb, hbs⟩)

end Returns

/-- Every leaf of the tree has a target with a property. -/
inductive Node.Targets (P : τ → Prop) : Node τ → Prop
  | leaf {element : Pattern.Element} {rawKey : String} {target : τ} (holds : P target) :
    Node.Targets P (.leaf element rawKey target)
  | composite {level : Level τ} (children : ∀ child ∈ level.children, Node.Targets P child) :
    Node.Targets P (.composite level)

/-- What the policy compiles right-hand sides to has a property. -/
def Policy.Yields (p : Policy τ) (P : τ → Prop) : Prop :=
  ∀ (config : Config) (location : String) (rhs : Json),
    Returns P (p.compileTarget config location rhs)

namespace Build

theorem Draft.mem_children_put {draft : Draft τ} {key : String} {node child : Node τ}
    (h : child ∈ (draft.put key node).children) : child = node ∨ child ∈ draft.children := by
  rcases node.element.role_cases with ⟨text, he⟩ | hs | hc
  · rw [Draft.put_literal he] at h
    rcases List.mem_append.mp h with h | h
    · rcases List.mem_append.mp h with h | h
      · exact .inr (List.mem_append_left _ (List.mem_append_left _ h))
      · obtain ⟨field, hf, rfl⟩ := List.mem_map.mp h
        rcases Fields.mem_insert hf with rfl | hf
        · exact .inl rfl
        · refine .inr (List.mem_append_left _ (List.mem_append_right _ ?_))
          exact List.mem_map_of_mem hf
    · exact .inr (List.mem_append_right _ h)
  · rw [Draft.put_special hs] at h
    simp only [Draft.children, List.mem_append, List.mem_singleton] at h ⊢
    tauto
  · rw [Draft.put_computed hc] at h
    simp only [Draft.children, List.mem_append, List.mem_singleton] at h ⊢
    tauto

theorem Draft.mem_children_of_level {draft : Draft τ} {element : Pattern.Element}
    {rawKey : String} {isArray : Bool} {child : Node τ}
    (h : child ∈ (draft.level element rawKey isArray).children) : child ∈ draft.children := by
  rcases List.mem_append.mp h with h | h
  · exact List.mem_append_left _ h
  · exact List.mem_append_right _ ((sortBy_perm _ draft.computed).mem_iff.mp h)

section Targets

variable {p : Policy τ} {P : τ → Prop} {config : Config}

theorem leaf_targets (hp : p.Yields P) {rawKey location : String} {depth : Nat} {rhs : Json}
    {node : Node τ} (h : Gives (Build.node p config rawKey location depth rhs) node)
    (hrhs : ∀ fields, rhs = .obj fields → False) : node.Targets P := by
  obtain ⟨element, target, -, -, ht, rfl⟩ := gives_leaf hrhs h
  exact .leaf (hp config location rhs target ht)

mutual
/-- What compiles has targets of the policy. The recursion is that of the compiler. -/
theorem node_targets (hp : p.Yields P) {rawKey location : String} {depth : Nat} {node : Node τ} :
    ∀ {rhs : Json}, Gives (Build.node p config rawKey location depth rhs) node → node.Targets P
  | .obj fields, h => by
    obtain ⟨key, isArray, element, draft, -, -, -, -, hd, rfl⟩ := gives_composite h
    have hchildren := children_targets hp (List.forall_mem_nil _) hd
    exact .composite fun child hc => hchildren child (Draft.mem_children_of_level hc)
  | .null, h => leaf_targets hp h nofun
  | .bool _, h => leaf_targets hp h nofun
  | .num _, h => leaf_targets hp h nofun
  | .str _, h => leaf_targets hp h nofun
  | .arr _, h => leaf_targets hp h nofun

theorem children_targets (hp : p.Yields P) {isArray : Bool} {location : String} {depth : Nat}
    {draft draft' : Draft τ} (hd : ∀ child ∈ draft.children, child.Targets P) :
    ∀ {fields : List (String × Json)},
      Gives (children p config isArray location depth draft fields) draft' →
      ∀ child ∈ draft'.children, child.Targets P
  | [], h => by
    rw [children] at h
    rw [h.pure]
    exact hd
  | (rawChild, value) :: rest, h => by
    rw [children] at h
    obtain ⟨alternatives, -, h⟩ := h.bind
    obtain ⟨next, hnext, h⟩ := h.bind
    have hkeep : ∀ child ∈ next.children, child.Targets P := by
      refine Gives.foldlM (I := fun _ (c : Draft τ) => ∀ child ∈ c.children, child.Targets P)
        ?_ [] hd hnext
      intro _ key c c' hc hstep
      obtain ⟨node, hnode, hadd⟩ := hstep.bind
      obtain ⟨-, -, rfl⟩ := gives_addChild hadd
      intro child hchild
      rcases Draft.mem_children_put hchild with rfl | hold
      · exact node_targets hp hnode
      · exact hc child hold
    exact children_targets hp hkeep h
end

end Targets
end Build

namespace CompiledSpec

variable {p : Policy τ} {raw : Json} {config : Config} {spec : CompiledSpec τ}

/-- The root level of a compiled spec is what its object compiles to. -/
theorem gives_root (h : compile p raw config = .ok spec) :
    Build.Gives (Build.root p config raw) spec.root := by
  rw [compile] at h
  cases hr : (Build.root p config raw).run {} with
  | error e => rw [hr] at h; cases h
  | ok r =>
    rw [hr] at h
    cases h
    exact ⟨{}, r.2, hr⟩

/-- Every target of a compiled spec has what all targets of the policy have. -/
theorem root_targets {P : τ → Prop} (hp : p.Yields P) (h : compile p raw config = .ok spec) :
    ∀ child ∈ spec.root.children, child.Targets P := by
  have hroot := gives_root h
  cases raw with
  | obj fields =>
    rw [Build.root] at hroot
    obtain ⟨-, hroot⟩ := Build.Gives.guard hroot
    obtain ⟨_, -, hroot⟩ := hroot.bind
    obtain ⟨draft, hd, hroot⟩ := hroot.bind
    have hchildren := Build.children_targets hp (List.forall_mem_nil _) hd
    intro child hc
    rw [Build.gives_closeLevel hroot] at hc
    exact hchildren child (Build.Draft.mem_children_of_level hc)
  | _ => exact absurd hroot Build.not_gives_fail

end CompiledSpec
end Reshape
