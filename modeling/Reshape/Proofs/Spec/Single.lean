import Reshape.Proofs.Pattern.Escaped
import Reshape.Proofs.Spec.Compiled
/-!
# Specs with one key at each level

A spec that nests escaped keys compiles to a tree with one literal child at each level, for every
policy that accepts literal keys and the right-hand side, if it is not too deep.
-/
namespace Reshape

open Pattern (Element escapeKey)

variable {τ : Type}

/-- A value below keys, one inside the other. -/
def Json.nested : List String → Json → Json
  | [], v => v
  | key :: rest, v => .obj [(key, Json.nested rest v)]

/-- A level with one literal child. -/
def Composite.single (element : Element) (rawKey key : String) (child : Node τ) : Level τ :=
  ⟨element, rawKey, false, [], [(key, child)], [], .literalsOnly⟩

/-- The node of an escaped key, with a leaf below further keys. -/
def Node.along (key : String) : List String → τ → Node τ
  | [], target => .leaf (.literal key) (escapeKey key) target
  | next :: rest, target =>
    .composite (.single (.literal key) (escapeKey key) next (Node.along next rest target))

@[simp] theorem Node.element_along (key : String) (rest : List String) (target : τ) :
    (Node.along key rest target).element = .literal key := by
  cases rest <;> rfl

namespace Build

variable {α β : Type}

/-- A step of compiling succeeds with a result, whatever was compiled before. -/
def Yields (x : Build α) (a : α) : Prop := ∀ s, ∃ s', x.run s = .ok (a, s')

theorem Yields.pure (a : α) : Yields (Pure.pure a) a := fun s => ⟨s, rfl⟩

theorem Yields.bind {x : Build α} {f : α → Build β} {a : α} {b : β} (hx : Yields x a)
    (hf : Yields (f a) b) : Yields (x >>= f) b := by
  intro s
  obtain ⟨s', hx⟩ := hx s
  obtain ⟨s'', hf⟩ := hf s'
  refine ⟨s'', ?_⟩
  rw [StateT.run_bind, hx]
  exact hf

theorem Yields.modify (f : SpecStats → SpecStats) : Yields (modify f) () := fun s => ⟨f s, rfl⟩

theorem Yields.locate {location : String} {r : Except SpecError α} {a : α} (h : r = .ok a) :
    Yields (locate location r) a := by
  rw [h]
  exact .pure a

theorem yields_openLevel {config : Config} {depth : Nat} (h : depth ≤ config.maxSpecDepth)
    (location : String) : Yields (openLevel config location depth) () := by
  rw [openLevel, if_neg (Nat.not_lt.mpr h)]
  exact .modify _

section

variable {p : Policy τ} {config : Config} {target : τ} {key location : String} {depth : Nat}
  {element : Element} {value : Json}

theorem yields_leaf (hvalue : ∀ fields, value = .obj fields → False)
    (hparse : Pattern.parseKey key = .ok element)
    (hvalidate : p.validate location element = .ok ())
    (htarget : p.compileTarget config location value = .ok target) :
    Yields (Build.node p config key location depth value) (.leaf element key target) := by
  rw [Build.node.eq_2 _ _ _ _ _ _ hvalue]
  refine Yields.bind (.locate hparse) ?_
  refine Yields.bind (.locate hvalidate) ?_
  refine Yields.bind (.locate htarget) ?_
  exact Yields.bind (.modify _) (.pure _)

/-- The level of one child. -/
def only (element : Element) (rawKey key : String) (child : Node τ) : Level τ :=
  (({} : Draft τ).put key child).level element rawKey false

variable {below : String} {child : Node τ}

/-- The only child of a level is that of its only key. -/
theorem yields_children (hkey : Pattern.splitAlternatives key = .ok [key])
    (hnode : Yields (Build.node p config key (childLocation location key) depth value) child) :
    Yields (children p config false location depth {} [(key, value)])
      (({} : Draft τ).put key child) := by
  have hadd : Yields (addChild false location key {} child) (({} : Draft τ).put key child) := by
    have hadmits : Draft.Admits false ({} : Draft τ) child.element := ⟨nofun, rfl⟩
    rw [addChild_of_admits hadmits]
    exact Yields.bind (.modify _) (.pure _)
  rw [children]
  refine Yields.bind (.locate hkey) ?_
  refine Yields.bind ?_ (by rw [children]; exact .pure _)
  rw [List.foldlM_cons]
  exact Yields.bind (Yields.bind hnode hadd) (.pure _)

/-- An object with one key compiles to the level of one child. -/
theorem yields_composite (hstrip : Pattern.stripArrayMarker key = (key, false))
    (hparse : Pattern.parseKey key = .ok element) (haccepts : element.acceptsChildren = true)
    (hvalidate : p.validate location element = .ok ()) (hdepth : depth + 1 ≤ config.maxSpecDepth)
    (hkey : Pattern.splitAlternatives below = .ok [below])
    (hnode : Yields (Build.node p config below (childLocation location below) (depth + 1) value)
      child) :
    Yields (Build.node p config key location depth (.obj [(below, value)]))
      (.composite (only element key below child)) := by
  rw [Build.node, hstrip]
  refine Yields.bind (.locate hparse) ?_
  rw [haccepts]
  refine Yields.bind (.locate hvalidate) ?_
  refine Yields.bind (yields_openLevel hdepth location) ?_
  refine Yields.bind (yields_children hkey hnode) ?_
  exact Yields.bind (Yields.bind (.modify _) (.pure _)) (.pure _)

end

/-- The policy accepts literal keys and gives a right-hand side a target. -/
structure Accepts (p : Policy τ) (config : Config) (rhs : Json) (target : τ) : Prop where
  validate : ∀ location text, p.validate location (.literal text) = .ok ()
  compileTarget : ∀ location, p.compileTarget config location rhs = .ok target

theorem only_literal (element : Element) (rawKey key text : String) {child : Node τ}
    (h : child.element = .literal text) :
    only element rawKey key child = .single element rawKey text child := by
  rw [only, Draft.put_literal h]
  rfl

/-- Nested escaped keys compile to the nodes along them. -/
theorem yields_along {p : Policy τ} {config : Config} {target : τ} {rhs : Json}
    (ha : Accepts p config rhs target) (hrhs : ∀ fields, rhs = .obj fields → False) (key : String)
    (rest : List String) (location : String) (depth : Nat)
    (hdepth : depth + rest.length ≤ config.maxSpecDepth) :
    Yields (Build.node p config (escapeKey key) location depth
      (Json.nested (rest.map escapeKey) rhs)) (.along key rest target) := by
  induction rest generalizing key location depth with
  | nil =>
    exact yields_leaf hrhs (Pattern.parseKey_escapeKey key) (ha.validate location key)
      (ha.compileTarget location)
  | cons next rest ih =>
    rw [List.length_cons] at hdepth
    have hchild : Yields (Build.node p config (escapeKey next)
        (childLocation location (escapeKey next)) (depth + 1)
        (Json.nested (rest.map escapeKey) rhs)) (.along next rest target) :=
      ih next _ (depth + 1) (by omega)
    have hnode := yields_composite (Pattern.stripArrayMarker_escapeKey key)
      (Pattern.parseKey_escapeKey key) rfl (ha.validate location key) (by omega)
      (Pattern.splitAlternatives_escapeKey next) hchild
    rwa [only_literal _ _ _ next (Node.element_along next rest target)] at hnode

end Build

namespace CompiledSpec

variable {p : Policy τ} {config : Config}

/-- A spec with one key compiles to the root level of one child. -/
theorem compile_only {key : String} {value : Json} {child : Node τ}
    (hkey : Pattern.splitAlternatives key = .ok [key])
    (hnode : Build.Yields (Build.node p config key (Build.childLocation "" key) 0 value) child) :
    ∃ stats, compile p (.obj [(key, value)]) config =
      .ok ⟨p, Build.only (.literal config.rootKey) config.rootKey key child, config.rootKey,
        stats⟩ := by
  have hroot : Build.Yields (Build.root p config (.obj [(key, value)]))
      (Build.only (.literal config.rootKey) config.rootKey key child) := by
    rw [Build.root]
    refine Build.Yields.bind (Build.yields_openLevel (Nat.zero_le _) "") ?_
    refine Build.Yields.bind (Build.yields_children hkey hnode) ?_
    exact Build.Yields.bind (.modify _) (.pure _)
  obtain ⟨stats, hrun⟩ := hroot {}
  refine ⟨stats, ?_⟩
  rw [compile, hrun]
  rfl

/-- **Every key can be addressed.** A spec that nests escaped keys compiles to the tree with one
literal child at each level, whatever the texts of the keys. -/
theorem compile_along {rhs : Json} {target : τ} (ha : Build.Accepts p config rhs target)
    (hrhs : ∀ fields, rhs = .obj fields → False) (key : String) (rest : List String)
    (hdepth : rest.length ≤ config.maxSpecDepth) :
    ∃ stats, compile p (Json.nested ((key :: rest).map escapeKey) rhs) config =
      .ok ⟨p, .single (.literal config.rootKey) config.rootKey key (.along key rest target),
        config.rootKey, stats⟩ := by
  obtain ⟨stats, hcompile⟩ := compile_only (Pattern.splitAlternatives_escapeKey key)
    (Build.yields_along ha hrhs key rest _ 0 (by omega))
  rw [Build.only_literal _ _ _ key (Node.element_along key rest target)] at hcompile
  exact ⟨stats, hcompile⟩

end CompiledSpec
end Reshape
