import Reshape.Proofs.Pattern.Injective
import Reshape.Proofs.Spec.Levels
import Reshape.Proofs.Spec.Policies
/-!
# Duplicate keys

Compiling reports a duplicate key only where two alternatives of the keys of one object have equal
elements. It compares canonical forms, which no two different elements share, and remembers only
alternatives of the level that it is on.
-/
namespace Reshape

open Pattern (Element)

variable {τ : Type}

/-! ## What a failure says -/

namespace Build

/-- The alternatives of all keys of an object that can be taken apart. -/
def alternatives (fields : List (String × Json)) : List (String × Json) :=
  fields.flatMap fun field =>
    ((Pattern.splitAlternatives field.1).toOption.getD []).map (·, field.2)

/-- Of two alternatives of the keys of an object, the second has the element of the first. -/
def Duplicate (fields : List (String × Json)) (first second canonical : String) : Prop :=
  ∃ v w element, [(first, v), (second, w)].Sublist (alternatives fields) ∧
    keyElement first v = .ok element ∧ keyElement second w = .ok element ∧
    element.canonical = canonical

end Build

/-- An object of the spec has two alternatives with one element. -/
inductive Json.HasDuplicate (first second canonical : String) : Json → Prop
  | here {fields : List (String × Json)} (h : Build.Duplicate fields first second canonical) :
    HasDuplicate first second canonical (.obj fields)
  | inside {fields : List (String × Json)} {key : String} {value : Json}
    (mem : (key, value) ∈ fields) (h : HasDuplicate first second canonical value) :
    HasDuplicate first second canonical (.obj fields)

namespace Build

variable {α β : Type}

/-- A step of compiling can fail with an error. -/
def Fails (x : Build α) (e : SpecError) : Prop := ∃ s, x.run s = .error e

theorem Fails.bind {x : Build α} {f : α → Build β} {e : SpecError} (h : Fails (x >>= f) e) :
    Fails x e ∨ ∃ a, Gives x a ∧ Fails (f a) e := by
  obtain ⟨s, h⟩ := h
  rw [StateT.run_bind] at h
  cases hx : x.run s with
  | error e' =>
    rw [hx] at h
    cases h
    exact .inl ⟨s, hx⟩
  | ok r =>
    rw [hx] at h
    exact .inr ⟨r.1, ⟨s, r.2, hx⟩, ⟨r.2, h⟩⟩

theorem not_fails_pure {a : α} {e : SpecError} : ¬ Fails (pure a : Build α) e := by
  rintro ⟨s, h⟩
  cases h

theorem not_fails_modify {f : SpecStats → SpecStats} {e : SpecError} :
    ¬ Fails (modify f : Build Unit) e := by
  rintro ⟨s, h⟩
  cases h

/-- Counting does not fail. -/
theorem not_fails_counted {f : SpecStats → SpecStats} {a : α} {e : SpecError} :
    ¬ Fails (do modify f; pure a) e := by
  intro h
  rcases h.bind with h | ⟨_, -, h⟩
  · exact not_fails_modify h
  · exact not_fails_pure h

theorem Fails.fail {e e' : SpecError} (h : Fails (Build.fail e' : Build α) e) : e = e' := by
  obtain ⟨s, h⟩ := h
  cases h
  rfl

@[simp] theorem locatedAt_problem (e : SpecError) (location : String) :
    (e.locatedAt location).problem = e.problem := by
  rw [SpecError.locatedAt]
  split <;> rfl

theorem Fails.locate {location : String} {r : Except SpecError α} {e : SpecError}
    (h : Fails (locate location r) e) : ∃ e', r = .error e' ∧ e.problem = e'.problem := by
  cases r with
  | ok a => exact absurd h not_fails_pure
  | error e' =>
    obtain rfl := Fails.fail h
    exact ⟨e', rfl, locatedAt_problem e' location⟩

/-- A refusal fails with its error, or is passed. -/
theorem Fails.guard {c : Prop} [Decidable c] {e e' : SpecError} {f : Unit → Build β}
    (h : Fails (if c then Build.fail e' >>= f else f ()) e) : e = e' ∨ Fails (f ()) e := by
  by_cases hc : c
  · rw [if_pos hc] at h
    exact .inl (h.bind.resolve_right fun ⟨_, ha, _⟩ => not_gives_fail ha).fail
  · rw [if_neg hc] at h
    exact .inr h

/-- A fold fails at one of its elements, with what the elements before it kept. -/
theorem Fails.foldlM {f : β → α → Build β} {I : List α → β → Prop}
    (hstep : ∀ done x b b', I done b → Gives (f b x) b' → I (done ++ [x]) b') {xs : List α}
    (done : List α) {b : β} (hb : I done b) {e : SpecError} (h : Fails (xs.foldlM f b) e) :
    ∃ before x after c, xs = before ++ x :: after ∧ I (done ++ before) c ∧ Fails (f c x) e := by
  induction xs generalizing done b with
  | nil => exact absurd h not_fails_pure
  | cons x xs ih =>
    rw [List.foldlM_cons] at h
    rcases h.bind with h | ⟨c, hc, h⟩
    · exact ⟨[], x, xs, b, rfl, (List.append_nil done).symm ▸ hb, h⟩
    · obtain ⟨before, y, after, c', rfl, hI, hf⟩ := ih (done ++ [x]) (hstep done x b c hb hc) h
      rw [List.append_assoc, List.singleton_append] at hI
      exact ⟨x :: before, y, after, c', rfl, hI, hf⟩

@[simp] theorem alternatives_append (fields more : List (String × Json)) :
    alternatives (fields ++ more) = alternatives fields ++ alternatives more :=
  List.flatMap_append

theorem alternatives_cons {rawKey : String} {keys : List String}
    (h : Pattern.splitAlternatives rawKey = .ok keys) (value : Json)
    (rest : List (String × Json)) :
    alternatives ((rawKey, value) :: rest) = keys.map (·, value) ++ alternatives rest := by
  rw [alternatives, List.flatMap_cons, h]
  rfl

/-- Adding a child fails where a list cannot hold it, or on a canonical form that was seen. -/
theorem fails_addChild {isArray : Bool} {location key : String} {draft : Draft τ}
    {node : Node τ} {e : SpecError} (h : Fails (addChild isArray location key draft node) e) :
    e.problem = .invalidArrayKey key ∨ ∃ first,
      draft.seen.lookup node.element.canonical = some first ∧
        e.problem = .duplicateKey first key node.element.canonical := by
  simp only [addChild] at h
  rcases Fails.guard h with rfl | h
  · exact .inl rfl
  · split at h
    · rename_i first hseen
      rw [h.fail]
      exact .inr ⟨first, hseen, rfl⟩
    · -- The child is put somewhere and counted.
      split at h
      · exact absurd h not_fails_counted
      · split at h
        · exact absurd h not_fails_counted
        · exact absurd h not_fails_counted

theorem not_fails_closeLevel {element : Element} {rawKey : String} {isArray : Bool}
    {draft : Draft τ} {e : SpecError} :
    ¬ Fails (closeLevel element rawKey isArray draft) e :=
  not_fails_counted

section Steps

variable {p : Policy τ} {config : Config} {location : String} {e : SpecError}
  {first second canonical : String}

theorem not_fails_locate {r : Except SpecError α} (hr : NoDuplicate r)
    (he : e.problem = .duplicateKey first second canonical) : ¬ Fails (locate location r) e := by
  intro h
  obtain ⟨e', hr', hproblem⟩ := h.locate
  have hfalse : e'.problem.isDuplicate = false := hr e' hr'
  rw [← hproblem, he] at hfalse
  cases hfalse

theorem not_fails_openLevel {depth : Nat} (he : e.problem = .duplicateKey first second canonical) :
    ¬ Fails (openLevel config location depth) e := by
  intro h
  rw [openLevel] at h
  split at h
  · obtain rfl := h.fail
    cases he
  · exact not_fails_modify h

theorem fails_validate {element : Element}
    (h : Fails (locate location (p.validate location element)) e) : p.Raises config e.problem := by
  obtain ⟨e', he', hproblem⟩ := h.locate
  exact ⟨location, e', hproblem.symm, .inl ⟨element, he'⟩⟩

theorem fails_compileTarget {rhs : Json}
    (h : Fails (locate location (p.compileTarget config location rhs)) e) :
    p.Raises config e.problem := by
  obtain ⟨e', he', hproblem⟩ := h.locate
  exact ⟨location, e', hproblem.symm, .inr ⟨rhs, he'⟩⟩

/-- A leaf has no alternatives, so only the policy can report a duplicate there. -/
theorem leaf_duplicate {rawKey : String} {depth : Nat} {rhs : Json}
    (he : e.problem = .duplicateKey first second canonical)
    (h : Fails (Build.node p config rawKey location depth rhs) e)
    (hrhs : ∀ fields, rhs = .obj fields → False) : p.Raises config e.problem := by
  rw [Build.node.eq_2 _ _ _ _ _ _ hrhs] at h
  rcases h.bind with h | ⟨element, -, h⟩
  · exact absurd h (not_fails_locate (Pattern.parseKey_noDuplicate _) he)
  rcases h.bind with h | ⟨⟨⟩, -, h⟩
  · exact fails_validate h
  rcases h.bind with h | ⟨target, -, h⟩
  · exact fails_compileTarget h
  · exact absurd h not_fails_counted

end Steps

/-- The alternative that was seen under a canonical form has an element with that form. -/
theorem Draft.Keeps.exists_first {draft : Draft τ} {done : List (Alternative τ)}
    (h : draft.Keeps done) {first canonical : String}
    (hseen : draft.seen.lookup canonical = some first) :
    ∃ a ∈ done, a.key = first ∧ a.node.element.canonical = canonical := by
  have hmem : (canonical, first) ∈ draft.seen := Fields.mem_of_lookup hseen
  rw [h.seen, List.mem_reverse] at hmem
  obtain ⟨a, ha, he⟩ := List.mem_map.mp hmem
  cases he
  exact ⟨a, ha, rfl, rfl⟩

theorem keyElement_wellFormed {key : String} {value : Json} {element : Element}
    (h : keyElement key value = .ok element) : element.WellFormed := by
  unfold keyElement at h
  split at h
  · exact Pattern.parseKey_wellFormed h
  · exact Pattern.parseKey_wellFormed h

/-- The alternative of the canonical form that was seen has the element of the one that is added. -/
theorem duplicate_of_seen {before rest : List (String × Json)} {rawKey key first : String}
    {value : Json} {earlier after : List String} {draft : Draft τ}
    {done entries : List (Alternative τ)} {child : Node τ}
    (hsplit : Pattern.splitAlternatives rawKey = .ok (earlier ++ key :: after))
    (hbefore : alternatives before = done.map Alternative.field)
    (hentries : entries.map Alternative.field = earlier.map (·, value))
    (hkeeps : draft.Keeps (done ++ entries)) (hchild : Node.From key value child)
    (hseen : draft.seen.lookup child.element.canonical = some first) :
    Duplicate (before ++ (rawKey, value) :: rest) first key child.element.canonical := by
  obtain ⟨a, ha, rfl, hcanonical⟩ := hkeeps.exists_first hseen
  have hfirst : keyElement a.key a.value = .ok a.node.element := (hkeeps.each a ha).keyElement_eq
  have hsecond : keyElement key value = .ok child.element := hchild.keyElement_eq
  have heq : a.node.element = child.element :=
    Element.canonical_injective (keyElement_wellFormed hfirst) (keyElement_wellFormed hsecond)
      hcanonical
  have hall : alternatives (before ++ (rawKey, value) :: rest) =
      (done ++ entries).map Alternative.field ++
        (key, value) :: (after.map (·, value) ++ alternatives rest) := by
    rw [alternatives_append, alternatives_cons hsplit, hbefore, List.map_append, List.map_append,
      hentries]
    simp
  refine ⟨a.value, value, child.element, ?_, heq ▸ hfirst, hsecond, rfl⟩
  rw [hall]
  have hmem : a.field ∈ (done ++ entries).map Alternative.field := List.mem_map_of_mem ha
  exact (List.singleton_sublist.mpr hmem).append
    (List.singleton_sublist.mpr (List.mem_cons_self (a := (key, value))))

mutual
theorem node_duplicate {p : Policy τ} {config : Config} {rawKey location : String} {depth : Nat}
    {e : SpecError} {first second canonical : String}
    (he : e.problem = .duplicateKey first second canonical) :
    ∀ {rhs : Json}, Fails (Build.node p config rawKey location depth rhs) e →
      rhs.HasDuplicate first second canonical ∨ p.Raises config e.problem
  | .obj fields, h => by
    rw [Build.node] at h
    rcases hstrip : Pattern.stripArrayMarker rawKey with ⟨key, isArray⟩
    rw [hstrip] at h
    rcases h.bind with h | ⟨element, -, h⟩
    · exact absurd h (not_fails_locate (Pattern.parseKey_noDuplicate _) he)
    rcases Fails.guard h with rfl | h
    · cases he
    rcases Fails.guard h with rfl | h
    · cases he
    rcases h.bind with h | ⟨⟨⟩, -, h⟩
    · exact .inr (fails_validate h)
    rcases h.bind with h | ⟨⟨⟩, -, h⟩
    · exact absurd h (not_fails_openLevel he)
    rcases h.bind with h | ⟨draft, -, h⟩
    · have hnone : alternatives [] = ([] : List (Alternative τ)).map Alternative.field := rfl
      exact children_duplicate he hnone .empty .empty h
    rcases h.bind with h | ⟨level, -, h⟩
    · exact absurd h not_fails_closeLevel
    · exact absurd h not_fails_pure
  | .null, h => .inr (leaf_duplicate he h nofun)
  | .bool _, h => .inr (leaf_duplicate he h nofun)
  | .num _, h => .inr (leaf_duplicate he h nofun)
  | .str _, h => .inr (leaf_duplicate he h nofun)
  | .arr _, h => .inr (leaf_duplicate he h nofun)

theorem children_duplicate {p : Policy τ} {config : Config} {isArray : Bool} {location : String}
    {depth : Nat} {draft : Draft τ} {e : SpecError} {first second canonical : String}
    (he : e.problem = .duplicateKey first second canonical) {before : List (String × Json)}
    {done : List (Alternative τ)} (hbefore : alternatives before = done.map Alternative.field)
    (ho : draft.Ordered p) (hd : draft.Keeps done) :
    ∀ {fields : List (String × Json)},
      Fails (children p config isArray location depth draft fields) e →
      (Json.obj (before ++ fields)).HasDuplicate first second canonical ∨
        p.Raises config e.problem
  | [], h => by
    rw [children] at h
    exact absurd h not_fails_pure
  | (rawChild, value) :: rest, h => by
    rw [children] at h
    rcases h.bind with h | ⟨keys, hkeys, h⟩
    · exact absurd h (not_fails_locate (Pattern.splitAlternatives_noDuplicate _) he)
    have hsplit : Pattern.splitAlternatives rawChild = .ok keys := hkeys.locate
    have hstep (keys : List String) (key : String) (c c' : Draft τ)
        (hc : c.Extends p done value keys)
        (hgives : Gives (do
          let child ← Build.node p config key (childLocation location key) depth value
          addChild isArray location key c child) c') : c'.Extends p done value (keys ++ [key]) :=
      hc.step (fun hchild => node_from hchild) hgives
    rcases h.bind with h | ⟨next, hnext, h⟩
    · -- One of the alternatives fails, or cannot be added to its level.
      obtain ⟨earlier, key, after, c, rfl, hc, h⟩ :=
        Fails.foldlM (I := fun keys draft => draft.Extends p done value keys) hstep []
          (.start ho hd value) h
      rcases h.bind with h | ⟨child, hchild, h⟩
      · have hmem : (rawChild, value) ∈ before ++ (rawChild, value) :: rest :=
          List.mem_append_right before List.mem_cons_self
        exact (node_duplicate he h).imp_left fun hinside => .inside hmem hinside
      · rcases fails_addChild h with hp | ⟨seen, hseen, hp⟩
        · rw [he] at hp
          cases hp
        · rw [he] at hp
          cases hp
          obtain ⟨entries, hentries, hkeeps⟩ := hc.keeps
          have hchild : Node.From second value child := node_from hchild
          exact .inl (.here (duplicate_of_seen hsplit hbefore hentries hkeeps hchild hseen))
    · obtain ⟨hordered, entries, hentries, hkeeps⟩ : next.Extends p done value keys :=
        Gives.foldlM hstep [] (.start ho hd value) hnext
      have hdone : alternatives (before ++ [(rawChild, value)]) =
          (done ++ entries).map Alternative.field := by
        rw [alternatives_append, alternatives_cons hsplit, hbefore, List.map_append, hentries]
        exact congrArg _ (List.append_nil _)
      have hrest := children_duplicate he hdone hordered hkeeps h
      rwa [List.append_assoc, List.singleton_append] at hrest
end

theorem root_duplicate {p : Policy τ} {config : Config} {spec : Json} {e : SpecError}
    {first second canonical : String} (he : e.problem = .duplicateKey first second canonical)
    (h : Fails (root p config spec) e) :
    spec.HasDuplicate first second canonical ∨ p.Raises config e.problem := by
  cases spec with
  | obj fields =>
    rw [root] at h
    rcases Fails.guard h with rfl | h
    · cases he
    rcases h.bind with h | ⟨⟨⟩, -, h⟩
    · exact absurd h (not_fails_openLevel he)
    rcases h.bind with h | ⟨draft, -, h⟩
    · have hnone : alternatives [] = ([] : List (Alternative τ)).map Alternative.field := rfl
      exact children_duplicate he hnone .empty .empty h
    · exact absurd h not_fails_closeLevel
  | null | bool | num | str | arr =>
    obtain rfl := h.fail
    cases he

/-! ## Compiling is exact -/

/-- A spec that compiles loses none of its alternatives on any level. One that fails on a duplicate
key has two alternatives with one element, or the policy says so itself, which the policy of no
operation does. No two different elements have one canonical form. -/
theorem levels_exact (p : Policy τ) (config : Config) (spec : Json) :
    (∀ level stats, (root p config spec).run {} = .ok (level, stats) →
      ∃ fields, spec = .obj fields ∧ level.From fields) ∧
    (∀ e first second canonical, (root p config spec).run {} = .error e →
      e.problem = .duplicateKey first second canonical →
      spec.HasDuplicate first second canonical ∨ p.Raises config e.problem) ∧
    (∀ first second canonical,
      ¬ Operation.shift.Raises config (.duplicateKey first second canonical) ∧
      ¬ Operation.default.Raises config (.duplicateKey first second canonical) ∧
      ¬ Operation.remove.Raises config (.duplicateKey first second canonical) ∧
      (∀ mode registry, ¬ (Operation.modify mode registry).Raises config
        (.duplicateKey first second canonical)) ∧
      ¬ Operation.cardinality.Raises config (.duplicateKey first second canonical)) ∧
    ∀ a b x y, Pattern.parseKey a = .ok x → Pattern.parseKey b = .ok y →
      x.canonical = y.canonical → x = y := by
  refine ⟨?_, ?_, ?_, ?_⟩
  · exact fun level stats h => root_from ⟨{}, stats, h⟩
  · exact fun e first second canonical h he => root_duplicate he ⟨{}, h⟩
  · intro first second canonical
    exact ⟨Operation.shift_findsNoDuplicate.not_raises config rfl,
      Operation.default_findsNoDuplicate.not_raises config rfl,
      Operation.remove_findsNoDuplicate.not_raises config rfl,
      fun mode registry => (Operation.modify_findsNoDuplicate mode registry).not_raises config rfl,
      Operation.cardinality_findsNoDuplicate.not_raises config rfl⟩
  · exact fun a b x y hx hy h => Element.canonical_injective (Pattern.parseKey_wellFormed hx)
      (Pattern.parseKey_wellFormed hy) h

/-- An or-group above a nested level, and one reference in two spellings. -/
theorem levels_exact_references :
    let grouped : Json := .obj [("@", .str "w"), ("a|b*", .obj [("#c", .str "x"), ("d", .str "y")])]
    let doubled : Json := .obj [("&(1,0)", .str "x"), ("&1", .str "y")]
    (∃ level stats, (root Operation.shift {} grouped).run {} = .ok (level, stats) ∧
      ∃ fields, grouped = .obj fields ∧ level.From fields) ∧
    (∃ e, (root Operation.shift {} doubled).run {} = .error e ∧
      e.problem = .duplicateKey "&(1,0)" "&1" "&(1,0)" ∧
      (doubled.HasDuplicate "&(1,0)" "&1" "&(1,0)" ∨ Operation.shift.Raises {} e.problem)) ∧
    ∃ x y, Pattern.parseKey "&(1,0)" = .ok x ∧ Pattern.parseKey "&1" = .ok y ∧
      x.canonical = y.canonical ∧ x = y := by
  intro grouped doubled
  refine ⟨?_, ?_, ?_⟩
  · have hsome : ((root Operation.shift {} grouped).run {}).toOption.isSome = true := by
      decide +kernel
    cases hrun : (root Operation.shift {} grouped).run {} with
    | error e =>
      rw [hrun] at hsome
      cases hsome
    | ok r => exact ⟨r.1, r.2, rfl, (levels_exact Operation.shift {} grouped).1 r.1 r.2 hrun⟩
  · have hproblem : (match (root Operation.shift {} doubled).run {} with
        | .error e => some e.problem
        | .ok _ => none) = some (.duplicateKey "&(1,0)" "&1" "&(1,0)") := by
      decide +kernel
    cases hrun : (root Operation.shift {} doubled).run {} with
    | error e =>
      rw [hrun] at hproblem
      have he : e.problem = .duplicateKey "&(1,0)" "&1" "&(1,0)" := Option.some.inj hproblem
      exact ⟨e, rfl, he, (levels_exact Operation.shift {} doubled).2.1 e _ _ _ hrun he⟩
    | ok r =>
      rw [hrun] at hproblem
      cases hproblem
  · have hx : Pattern.parseKey "&(1,0)" = .ok (.reference ⟨[.reference ⟨1, 0⟩]⟩) := by
      decide +kernel
    have hy : Pattern.parseKey "&1" = .ok (.reference ⟨[.reference ⟨1, 0⟩]⟩) := by
      decide +kernel
    exact ⟨_, _, hx, hy, rfl,
      (levels_exact Operation.shift {} grouped).2.2.2 "&(1,0)" "&1" _ _ hx hy rfl⟩

end Build

end Reshape
