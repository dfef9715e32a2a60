import Reshape.Proofs.Spec.Compiled
/-!
# Levels that lose nothing

A level of a compiled spec has one child for each alternative of each key of its object, and its
children have different elements. None of them is lost when literal children are put under their
text, because siblings with one canonical form are refused.
-/
namespace Reshape

open Pattern (Element)

variable {τ : Type}

namespace Build

/-- The element of a key. A key of an object may have a marker behind it that is no part of it. -/
def keyElement (key : String) : Json → Except SpecError Element
  | .obj _ => Pattern.parseKey (Pattern.stripArrayMarker key).1
  | _ => Pattern.parseKey key

theorem keyElement_of_plain {key : String} {value : Json}
    (h : ∀ fields, value = .obj fields → False) : keyElement key value = Pattern.parseKey key := by
  cases value with
  | obj fields => exact absurd rfl (h fields)
  | _ => rfl

theorem keyElement_congr {v w : Json} (h : v.fields?.isSome = w.fields?.isSome) (key : String) :
    keyElement key v = keyElement key w := by
  have hcases (v : Json) : keyElement key v =
      if v.fields?.isSome then Pattern.parseKey (Pattern.stripArrayMarker key).1
      else Pattern.parseKey key := by
    cases v <;> rfl
  rw [hcases, hcases, h]

/-- The alternatives of all keys of an object, each with the value of its key. -/
def expand : List (String × Json) → Except SpecError (List (String × Json))
  | [] => .ok []
  | (rawKey, value) :: rest => do
    let keys ← Pattern.splitAlternatives rawKey
    let more ← expand rest
    pure (keys.map (·, value) ++ more)

end Build

/-- A level has as many children as there are alternatives, and no two of them are equal. -/
structure Composite.Exact (level : Level τ) (alternatives : Nat) : Prop where
  ordered : level.Ordered
  count_eq : level.childCount = alternatives
  distinct : level.children.Pairwise fun a b => a.element ≠ b.element
  increasing : level.computed.Pairwise fun a b =>
    a.element.comparePrecedence b.element = .lt

/-- An alternative of a key and the value of the key, with the node that they became. -/
structure Build.Alternative (τ : Type) where
  key : String
  value : Json
  node : Node τ

def Build.Alternative.field (a : Build.Alternative τ) : String × Json := (a.key, a.value)

mutual
/-- A node is what became of a key and its value. -/
inductive Node.From : String → Json → Node τ → Prop
  | leaf {key : String} {value : Json} {element : Element} {target : τ}
    (plain : ∀ fields, value ≠ .obj fields) (parsed : Build.keyElement key value = .ok element) :
    Node.From key value (.leaf element key target)
  | composite {key : String} {fields : List (String × Json)} {level : Level τ}
    (parsed : Build.keyElement key (.obj fields) = .ok level.element) (raw : level.rawKey = key)
    (marked : level.isArray = (Pattern.stripArrayMarker key).2)
    (level_from : Composite.From fields level) :
    Node.From key (.obj fields) (.composite level)

/-- A level is what became of the fields of an object: its children are the nodes of all
alternatives, one for each. -/
inductive Composite.From : List (String × Json) → Level τ → Prop
  | intro {fields : List (String × Json)} {level : Level τ} {entries : List (Build.Alternative τ)}
    (expanded : Build.expand fields = .ok (entries.map Build.Alternative.field))
    (each : ∀ entry ∈ entries, Node.From entry.key entry.value entry.node)
    (children : level.children.Perm (entries.map Build.Alternative.node))
    (exact : level.Exact entries.length) : Composite.From fields level
end

theorem Node.From.keyElement_eq {key : String} {value : Json} {node : Node τ}
    (h : Node.From key value node) : Build.keyElement key value = .ok node.element := by
  cases h with
  | leaf _ parsed => exact parsed
  | composite parsed _ _ _ => exact parsed

namespace Composite.From

variable {level inner : Level τ} {fields : List (String × Json)}

theorem exists_exact (h : level.From fields) : ∃ n, level.Exact n := by
  cases h with
  | intro _ _ _ exact => exact ⟨_, exact⟩

/-- Every child of a level is what became of a key and its value. -/
theorem child (h : level.From fields) {child : Node τ} (hc : child ∈ level.children) :
    ∃ key value, Node.From key value child := by
  cases h with
  | intro _ each children _ =>
    obtain ⟨entry, hm, rfl⟩ := List.mem_map.mp (children.mem_iff.mp hc)
    exact ⟨entry.key, entry.value, each entry hm⟩

theorem exists_exact_child (h : level.From fields) (hc : .composite inner ∈ level.children) :
    ∃ n, inner.Exact n := by
  obtain ⟨_, _, hfrom⟩ := h.child hc
  cases hfrom with
  | composite _ _ _ level_from => exact level_from.exists_exact

end Composite.From

theorem Pattern.Element.canonical_eq_of_comparePrecedence {a b : Element}
    (h : a.comparePrecedence b = .eq) : a.canonical = b.canonical := by
  rw [comparePrecedence, Ordering.then_eq_eq, Ordering.then_eq_eq] at h
  exact Std.LawfulEqCmp.eq_of_compare h.2.2

theorem Composite.childCount_eq (level : Level τ) : level.childCount = level.children.length := by
  simp only [childCount, children, List.length_append, List.length_map]

namespace Build

def Draft.children (draft : Draft τ) : List (Node τ) :=
  draft.special ++ draft.literal.map Prod.snd ++ draft.computed

/-- What a draft keeps of the alternatives that are done. -/
structure Draft.Keeps (draft : Draft τ) (entries : List (Alternative τ)) : Prop where
  each : ∀ entry ∈ entries, Node.From entry.key entry.value entry.node
  children : draft.children.Perm (entries.map Alternative.node)
  distinct : entries.Pairwise fun a b => a.node.element.canonical ≠ b.node.element.canonical
  seen : draft.seen = (entries.map fun entry =>
    (entry.node.element.canonical, entry.key)).reverse

namespace Draft

variable {p : Policy τ} {draft : Draft τ} {entries : List (Alternative τ)}

theorem Keeps.empty : Draft.Keeps ({} : Draft τ) [] :=
  ⟨nofun, .refl _, .nil, rfl⟩

/-- A literal child with a new canonical form is put under a new key. -/
theorem insert_perm_of_literal {node : Node τ} {text : String} (h : draft.Ordered p)
    (hnew : ∀ child ∈ draft.children, child.element.canonical ≠ node.element.canonical)
    (he : node.element = .literal text) :
    (Fields.insert text node draft.literal).Perm ((text, node) :: draft.literal) := by
  refine Fields.insert_perm (fun field hf hkey => ?_) node
  have helement : field.2.element = .literal field.1 := h.literal_element field hf
  refine hnew field.2 ?_ (by rw [helement, he, hkey])
  exact List.mem_append_left _ (List.mem_append_right _ (List.mem_map_of_mem hf))

/-- A child with a new canonical form takes the place of no other. -/
theorem children_put {node : Node τ} (h : draft.Ordered p)
    (hnew : ∀ child ∈ draft.children, child.element.canonical ≠ node.element.canonical)
    (key : String) : (draft.put key node).children.Perm (node :: draft.children) := by
  rcases node.element.role_cases with ⟨text, he⟩ | hs | hc
  · have hliteral : ((Fields.insert text node draft.literal).map Prod.snd).Perm
        (node :: draft.literal.map Prod.snd) :=
      (insert_perm_of_literal h hnew he).map Prod.snd
    rw [put_literal he]
    exact ((hliteral.append_left draft.special).append_right draft.computed).trans
      (List.perm_middle.append_right draft.computed)
  · rw [put_special hs, children, children, List.append_assoc, List.append_assoc,
      List.append_assoc]
    exact List.perm_middle
  · rw [put_computed hc, children, ← List.append_assoc]
    exact List.perm_append_singleton node draft.children

@[simp] theorem seen_put (draft : Draft τ) (key : String) (node : Node τ) :
    (draft.put key node).seen = (node.element.canonical, key) :: draft.seen := by
  rcases node.element.role_cases with ⟨text, he⟩ | hs | hc
  · rw [put_literal he]
  · rw [put_special hs]
  · rw [put_computed hc]

theorem Keeps.ne_of_not_seen (h : draft.Keeps entries) {canonical : String}
    (hnew : draft.seen.lookup canonical = none) {entry : Alternative τ} (hm : entry ∈ entries) :
    entry.node.element.canonical ≠ canonical := by
  intro he
  have hseen : (entry.node.element.canonical, entry.key) ∈ draft.seen := by
    rw [h.seen, List.mem_reverse]
    exact List.mem_map_of_mem hm
  have hne := List.lookup_eq_none_iff.mp hnew _ hseen
  simp [he] at hne

/-- No child of a draft has a canonical form that was not seen. -/
theorem Keeps.children_ne (h : draft.Keeps entries) {canonical : String}
    (hnew : draft.seen.lookup canonical = none) :
    ∀ child ∈ draft.children, child.element.canonical ≠ canonical := by
  intro child hc
  obtain ⟨entry, hm, rfl⟩ := List.mem_map.mp (h.children.mem_iff.mp hc)
  exact h.ne_of_not_seen hnew hm

theorem Keeps.put (h : draft.Keeps entries) (ho : draft.Ordered p) (entry : Alternative τ)
    (hfrom : Node.From entry.key entry.value entry.node)
    (hnew : draft.seen.lookup entry.node.element.canonical = none) :
    (draft.put entry.key entry.node).Keeps (entries ++ [entry]) := by
  have hother : ∀ other ∈ entries,
      other.node.element.canonical ≠ entry.node.element.canonical :=
    fun other hm => h.ne_of_not_seen hnew hm
  constructor
  · exact List.forall_mem_append.mpr ⟨h.each, List.forall_mem_singleton.mpr hfrom⟩
  · rw [List.map_append, List.map_singleton]
    exact (children_put ho (h.children_ne hnew) entry.key).trans
      ((h.children.cons entry.node).trans (List.perm_append_singleton _ _).symm)
  · refine List.pairwise_append.mpr ⟨h.distinct, List.pairwise_singleton _ _, ?_⟩
    exact fun other hm _ hentry => List.mem_singleton.mp hentry ▸ hother other hm
  · rw [seen_put, h.seen, List.map_append, List.reverse_append]
    rfl

/-- The level of a draft has the children of the draft, all of them different. -/
theorem Keeps.level (h : draft.Keeps entries) (ho : draft.Ordered p) (element : Element)
    (rawKey : String) (isArray : Bool) :
    (draft.level element rawKey isArray).children.Perm (entries.map Alternative.node) ∧
      (draft.level element rawKey isArray).Exact entries.length := by
  have hordered : (draft.level element rawKey isArray).Ordered :=
    (ho.level element rawKey isArray).ordered
  have hperm : (draft.level element rawKey isArray).children.Perm (entries.map Alternative.node) :=
    ((sortBy_perm _ draft.computed).append_left _).trans h.children
  have hcanonical : (draft.level element rawKey isArray).children.Pairwise fun a b =>
      a.element.canonical ≠ b.element.canonical := by
    rw [hperm.pairwise_iff fun hne => Ne.symm hne, List.pairwise_map]
    exact h.distinct
  refine ⟨hperm, hordered, ?_, ?_, ?_⟩
  · rw [Composite.childCount_eq, hperm.length_eq, List.length_map]
  · exact hcanonical.imp fun hne he => hne (congrArg Element.canonical he)
  · have hdistinct := hcanonical.sublist (List.sublist_append_right _ _)
    refine (hordered.computed_sorted.and hdistinct).imp fun {a b} hab => ?_
    obtain ⟨hle, hne⟩ := hab
    cases hcmp : a.element.comparePrecedence b.element with
    | lt => rfl
    | eq => exact absurd (Element.canonical_eq_of_comparePrecedence hcmp) hne
    | gt =>
      rw [hcmp] at hle
      cases hle

end Draft

section

variable {p : Policy τ} {config : Config} {rawKey location : String} {depth : Nat}
  {node : Node τ}

theorem leaf_from {rhs : Json} (hrhs : ∀ fields, rhs = .obj fields → False)
    (h : Gives (Build.node p config rawKey location depth rhs) node) : node.From rawKey rhs := by
  obtain ⟨element, target, hparse, -, -, rfl⟩ := gives_leaf hrhs h
  exact .leaf hrhs (hparse ▸ keyElement_of_plain hrhs)

end

/-- What is known when some alternatives of one key are added to those done before. -/
structure Draft.Extends (p : Policy τ) (done : List (Alternative τ)) (value : Json)
    (keys : List String) (draft : Draft τ) : Prop where
  ordered : draft.Ordered p
  keeps : ∃ entries : List (Alternative τ),
    entries.map Alternative.field = keys.map (·, value) ∧ draft.Keeps (done ++ entries)

theorem Draft.Extends.start {p : Policy τ} {draft : Draft τ} {done : List (Alternative τ)}
    (ho : draft.Ordered p) (hd : draft.Keeps done) (value : Json) :
    draft.Extends p done value [] :=
  ⟨ho, [], rfl, (List.append_nil done).symm ▸ hd⟩

/-- One more alternative is kept, if its node is what became of it. -/
theorem Draft.Extends.step {p : Policy τ} {config : Config} {isArray : Bool}
    {location : String} {depth : Nat} {value : Json} {draft draft' : Draft τ}
    {done : List (Alternative τ)} {keys : List String} {key : String}
    (hnode : ∀ {location : String} {child : Node τ},
      Gives (Build.node p config key location depth value) child → Node.From key value child)
    (h : draft.Extends p done value keys)
    (hstep : Gives (do
      let child ← Build.node p config key (childLocation location key) depth value
      addChild isArray location key draft child) draft') :
    draft'.Extends p done value (keys ++ [key]) := by
  obtain ⟨entries, hentries, hkeeps⟩ := h.keeps
  obtain ⟨child, hchild, hadd⟩ := hstep.bind
  obtain ⟨-, hnew, rfl⟩ := gives_addChild hadd
  refine ⟨h.ordered.put key (node_compiled hchild), entries ++ [⟨key, value, child⟩], ?_, ?_⟩
  · rw [List.map_append, List.map_append, hentries]
    rfl
  · rw [← List.append_assoc]
    exact hkeeps.put h.ordered ⟨key, value, child⟩ (hnode hchild) hnew

mutual
theorem node_from {p : Policy τ} {config : Config} {rawKey location : String} {depth : Nat}
    {node : Node τ} :
    ∀ {rhs : Json}, Gives (Build.node p config rawKey location depth rhs) node →
      Node.From rawKey rhs node
  | .obj fields, h => by
    obtain ⟨key, isArray, element, draft, hstrip, hparse, -, -, hd, rfl⟩ := gives_composite h
    obtain ⟨entries, hexpand, hkeeps⟩ := children_keeps .empty .empty hd
    rw [List.nil_append] at hkeeps
    obtain ⟨hperm, hexact⟩ := hkeeps.level (children_ordered .empty hd) element rawKey isArray
    have hparsed : keyElement rawKey (.obj fields) = .ok element := by
      rw [keyElement, hstrip]
      exact hparse
    have hmarked : isArray = (Pattern.stripArrayMarker rawKey).2 := by rw [hstrip]
    exact .composite hparsed rfl hmarked (.intro hexpand hkeeps.each hperm hexact)
  | .null, h => leaf_from nofun h
  | .bool _, h => leaf_from nofun h
  | .num _, h => leaf_from nofun h
  | .str _, h => leaf_from nofun h
  | .arr _, h => leaf_from nofun h

theorem children_keeps {p : Policy τ} {config : Config} {isArray : Bool} {location : String}
    {depth : Nat} {draft draft' : Draft τ} {done : List (Alternative τ)} (hd : draft.Keeps done)
    (ho : draft.Ordered p) :
    ∀ {fields : List (String × Json)},
      Gives (children p config isArray location depth draft fields) draft' →
      ∃ entries, expand fields = .ok (entries.map Alternative.field) ∧
        draft'.Keeps (done ++ entries)
  | [], h => by
    rw [children] at h
    rw [h.pure]
    exact ⟨[], rfl, (List.append_nil done).symm ▸ hd⟩
  | (rawChild, value) :: rest, h => by
    rw [children] at h
    obtain ⟨alternatives, halternatives, h⟩ := h.bind
    obtain ⟨next, hnext, h⟩ := h.bind
    obtain ⟨hordered, entries, hentries, hkeeps⟩ : next.Extends p done value alternatives :=
      Gives.foldlM (I := fun keys draft => draft.Extends p done value keys)
        (fun keys key c c' hc hstep => hc.step (fun hchild => node_from hchild) hstep) []
        (.start ho hd value) hnext
    obtain ⟨more, hmore, hall⟩ := children_keeps hkeeps hordered h
    refine ⟨entries ++ more, ?_, List.append_assoc done entries more ▸ hall⟩
    rw [expand, halternatives.locate, hmore, List.map_append, hentries]
    rfl
end

/-- A root level that compiles is what became of the object that is the spec. -/
theorem root_from {p : Policy τ} {config : Config} {spec : Json} {level : Level τ}
    (h : Gives (root p config spec) level) :
    ∃ fields, spec = .obj fields ∧ level.From fields := by
  cases spec with
  | obj fields =>
    rw [root] at h
    obtain ⟨-, h⟩ := Gives.guard h
    obtain ⟨_, -, h⟩ := h.bind
    obtain ⟨draft, hd, h⟩ := h.bind
    obtain ⟨entries, hexpand, hkeeps⟩ := children_keeps .empty .empty hd
    rw [List.nil_append] at hkeeps
    obtain ⟨hperm, hexact⟩ := hkeeps.level (children_ordered .empty hd)
      (.literal config.rootKey) config.rootKey false
    rw [gives_closeLevel h]
    exact ⟨fields, rfl, .intro hexpand hkeeps.each hperm hexact⟩
  | _ => exact absurd h not_gives_fail

end Build
end Reshape
