import Reshape.Proofs.Edit.Members
import Reshape.Proofs.Pattern.Element
/-!
# Wrapping values and unwrapping them again

A leaf with `ONE` gets back what one with `MANY` made of anything but a list. Since a level sets
values in each member by itself, it gets back what a level with the same elements made of its value,
if its children get back what those made of the members.
-/
namespace Reshape

open Operation
open Pattern (Element)

namespace Json

/-- The second values, given what the first ones make of a document, get the document back. -/
structure Restored (fills more : Json → List (Address × Json)) (v : Json) : Prop where
  wellFormed : (v.setAll (fills v)).WellFormed
  restored : (v.setAll (fills v)).setAll (more (v.setAll (fills v))) = v

/-- Nothing is set, and so nothing has to be got back. -/
theorem Restored.of_nil {fills more : Json → List (Address × Json)} {v : Json}
    (hv : v.WellFormed) (hfills : fills v = []) (hmore : more v = []) : v.Restored fills more := by
  have hsame : v.setAll (fills v) = v := by
    rw [hfills]
    rfl
  constructor
  · rwa [hsame]
  · rw [hsame, hmore]
    rfl

end Json

/-! ## Leaves that are reached with no list -/

/-- None of the leaves is reached with a list. -/
def NoLists (arrivals : List (Arrival Multiplicity)) : Prop :=
  ∀ elements, some (Json.arr elements) ∉ arrivals.map Arrival.data

namespace NoLists

variable {as bs : List (Arrival Multiplicity)} {site site' : Site}

theorem of_subset (h : NoLists as) (hsub : ∀ a ∈ bs, a ∈ as) : NoLists bs := by
  intro elements hm
  obtain ⟨a, ha, hdata⟩ := List.mem_map.mp hm
  exact h elements (List.mem_map.mpr ⟨a, hsub a ha, hdata⟩)

theorem of_alike (h : NoLists as) (halike : List.Forall₂ (Arrival.Alike site site') as bs) :
    NoLists bs := by
  have hdata : as.map Arrival.data = bs.map Arrival.data := by
    rw [← List.forall₂_eq_eq_eq, List.forall₂_map_left_iff, List.forall₂_map_right_iff]
    exact halike.imp fun _ _ hab => hab.data
  intro elements
  rw [← hdata]
  exact h elements

/-- The leaves below a child that takes a member are among those of the level. -/
theorem of_claim {level : Level Multiplicity} {node : Node Multiplicity} {v child : Json}
    {step : Step} {matched : MatchedKey}
    (h : NoLists ((branchLevel false level).arrivals false (some v) site))
    (hv : v.Container) (hmember : v.member? step = some child) (hlocal : node.Local false)
    (hclaim : (branchLevel false level).claimOf? (Site.bare site.keys).frames (step.offer child) =
      some ⟨node.branch false, step.offer child, matched⟩) :
    NoLists ((node.branch false).arrivals step.text (some child) (some child)
      (Site.bare (matched :: site.keys))) := by
  rw [Composite.claimOf?_congr (Site.keys_bare site.keys)] at hclaim
  let claim : Claim Multiplicity := ⟨node.branch false, step.offer child, matched⟩
  have hmem : claim ∈ (branchLevel false level).claims site.frames (some v) :=
    List.mem_filterMap.mpr ⟨_, hv.mem_offers.mpr ⟨step, child, hmember, rfl⟩, hclaim⟩
  obtain ⟨n, hn⟩ := List.mem_iff_getElem?.mp hmem
  have hbelow : NoLists (claim.arrivals (site.counted n)) := by
    refine h.of_subset fun a ha => ?_
    refine List.mem_append_right _ (List.mem_flatMap.mpr ⟨(claim, n), ?_, ha⟩)
    rw [Composite.allClaims, if_neg Bool.false_ne_true, List.append_nil]
    exact List.mk_mem_zipIdx_iff_getElem?.mpr hn
  rw [Claim.arrivals, Step.offer_key, Step.offer_input] at hbelow
  refine hbelow.of_alike (hlocal ?_ _ _ _)
  rw [Site.keys_enter, Site.keys_counted, Site.keys_bare]

end NoLists

/-! ## Nodes that get values back -/

/-- What the leaves below the second node set gets back what those below the first one made of a
value, if none of these was reached with a list. -/
structure Node.Restores (a b : Node Multiplicity) : Prop where
  element_eq : a.element = b.element
  ordinary : a.element.isSpecial = false
  compiled : a.Compiled cardinality
  compiled' : b.Compiled cardinality
  restored : ∀ (keys : List MatchedKey) (key : String) {v : Json}, keys ≠ [] → v.WellFormed →
    NoLists ((a.branch false).arrivals key (some v) (some v) (Site.bare keys)) →
      v.Restored (a.fills keys key) (b.fills keys key)

namespace Node

theorem Compiled.acceptsInPlace {node : Node Multiplicity} (h : node.Compiled cardinality) :
    Policy.acceptsInPlace node.element = true := by
  cases h with
  | leaf allowed => exact cardinality_staysInPlace _ allowed
  | composite allowed _ _ _ => exact cardinality_staysInPlace _ allowed

theorem isSpecial_of_acceptsInPlace {e : Element} (h : Policy.acceptsInPlace e = true)
    (hvalue : e ≠ .value) : e.isSpecial = false := by
  cases e with
  | value => exact absurd rfl hvalue
  | literal _ | any | glob _ | reference _ => rfl
  | _ => cases h

theorem fills_leaf (element : Element) (rawKey : String) (target : Multiplicity)
    (keys : List MatchedKey) (key : String) (v : Json) :
    (Node.leaf element rawKey target).fills keys key v =
      (target.normalize? v).toList.map fun value => ([], value) := by
  have hfill : (Arrival.mk element target key (some v) (Site.bare keys)).fill? =
      (target.normalize? v).map fun value => ([], value) := rfl
  have hfills : (Node.leaf element rawKey target).fills keys key v =
      [Arrival.mk element target key (some v) (Site.bare keys)].filterMap Arrival.fill? := rfl
  rw [hfills, List.filterMap_cons, hfill]
  cases target.normalize? v <;> rfl

namespace Restores

theorem leaf {element : Element} {rawKey : String}
    (compiled : (Node.leaf element rawKey Multiplicity.many).Compiled cardinality)
    (compiled' : (Node.leaf element rawKey Multiplicity.one).Compiled cardinality)
    (hvalue : element ≠ .value) :
    Node.Restores (.leaf element rawKey .many) (.leaf element rawKey .one) where
  element_eq := rfl
  ordinary := isSpecial_of_acceptsInPlace compiled.acceptsInPlace hvalue
  compiled := compiled
  compiled' := compiled'
  restored := by
    intro keys key v _ hv hplain
    have hfirst := fills_leaf element rawKey .many keys key
    have hsecond := fills_leaf element rawKey .one keys key
    constructor
    · rw [hfirst]
      cases v with
      | null => trivial
      | arr elements => exact absurd List.mem_cons_self (hplain elements)
      | _ => exact ⟨hv, trivial⟩
    · rw [hsecond, hfirst]
      cases v with
      | arr elements => exact absurd List.mem_cons_self (hplain elements)
      | _ => rfl

end Restores
end Node

namespace Composite

variable {a b : Level Multiplicity} {keys : List MatchedKey} {v : Json}

/-- Neither of two related levels has a special child. -/
theorem Rel.special_eq_nil (h : a.Rel Node.Restores b) (ha : a.Ordered) :
    a.special = [] ∧ b.special = [] := by
  have hspecial := h.special
  cases hs : a.special with
  | nil =>
    rw [hs] at hspecial
    exact ⟨rfl, List.forall₂_nil_left_iff.mp hspecial⟩
  | cons first rest =>
    have hrole := ha.special_role first (hs ▸ List.mem_cons_self)
    rw [hs] at hspecial
    obtain ⟨_, _, hfirst, -, -⟩ := List.forall₂_cons_left_iff.mp hspecial
    rw [hfirst.ordinary] at hrole
    cases hrole

/-- What a level makes of a member is got back by a related level. -/
theorem restored_below (h : a.Rel Node.Restores b) {site : Site} (hv : v.Container)
    (hwell : v.WellFormed)
    (hplain : NoLists ((branchLevel false a).arrivals false (some v) site)) {step : Step}
    {child : Json} (hmember : v.member? step = some child) :
    child.Restored (a.below site.keys step) (b.below site.keys step) := by
  have hchild : child.WellFormed := hwell.child? (Json.child?_of_member? hmember)
  have hs := Json.ne_append_of_member? hmember
  rcases claims_rel h (fun _ _ hab => hab.element_eq) site.keys step with
    hnone | ⟨x, y, matched, hxy, hclaims⟩
  · exact .of_nil hchild (below_of_unclaimed (hnone child).1) (below_of_unclaimed (hnone child).2)
  · have hlocal : x.Local false := hxy.compiled.local cardinality_staysInPlace false
    have hbelow := hplain.of_claim hv hmember hlocal (hclaims child).1
    have hfirst : a.below site.keys step = x.fills (matched :: site.keys) step.text :=
      funext fun w => below_of_claim hs (hclaims w).1
    have hsecond : b.below site.keys step = y.fills (matched :: site.keys) step.text :=
      funext fun w => below_of_claim hs (hclaims w).2
    rw [hfirst, hsecond]
    exact hxy.restored _ _ (List.cons_ne_nil _ _) hchild hbelow

/-- A container is got back if each of its members is. -/
theorem restored_of_members (hfirst : a.special = []) (hsecond : b.special = [])
    (hv : v.Container) (hwell : v.WellFormed)
    (h : ∀ step child, v.member? step = some child →
      child.Restored (a.below keys step) (b.below keys step)) :
    v.Restored (a.shapes keys) (b.shapes keys) := by
  have hextends := extends_shapes hfirst hv keys
  have hw := hextends.container
  constructor
  · refine hw.wellFormed fun step child hm => ?_
    by_cases hs : v.Admits step
    · rw [member?_shapes hfirst hv hs] at hm
      obtain ⟨old, hold, rfl⟩ := Option.map_eq_some_iff.mp hm
      exact (h step old hold).wellFormed
    · rw [member?_shapes_of_not_admits hfirst hv hs] at hm
      exact hwell.child? (Json.child?_of_member? hm)
  · refine (hextends.trans (extends_shapes hsecond hw keys)).eq_of_member? hv fun step => ?_
    -- The second level finds the container with the members that the first one has left.
    by_cases hs : v.Admits step
    · rw [member?_shapes hsecond hw ((hextends.admits step).mpr hs), member?_shapes hfirst hv hs]
      cases hm : v.member? step with
      | none => rfl
      | some child => exact congrArg some (h step child hm).restored
    · rw [member?_shapes_of_not_admits hsecond hw (mt (hextends.admits step).mp hs),
        member?_shapes_of_not_admits hfirst hv hs]

/-- **What a level makes of its value is got back by a related level.** -/
theorem restored (h : a.Rel Node.Restores b) (ha : a.Ordered) {site : Site} (hwell : v.WellFormed)
    (hplain : NoLists ((branchLevel false a).arrivals false (some v) site)) :
    v.Restored (a.shapes site.keys) (b.shapes site.keys) := by
  obtain ⟨hfirst, hsecond⟩ := h.special_eq_nil ha
  by_cases hv : v.Container
  · exact restored_of_members hfirst hsecond hv hwell fun step child hm =>
      restored_below h hv hwell hplain hm
  · have hnothing {level : Level Multiplicity} (hs : level.special = []) :
        level.shapes site.keys v = [] := by
      rw [shapes_eq hs, groups_eq_nil hv hwell]
      rfl
    exact .of_nil hwell (hnothing hfirst) (hnothing hsecond)

end Composite

theorem Node.fills_composite {level : Level Multiplicity}
    (h : (Node.composite level).Compiled cardinality) {keys : List MatchedKey} (hkeys : keys ≠ [])
    (key : String) : (Node.composite level).fills keys key = level.shapes keys := by
  cases h with
  | composite _ _ ordered children =>
    have hlocal : ∀ child ∈ level.children, child.Local false :=
      fun child hc => (children child hc).local cardinality_staysInPlace false
    have hvalued : level.Valued := Composite.Compiled.valued ⟨ordered, children⟩
    have hsite : (Site.bare keys).keys ≠ [] := by rwa [Site.keys_bare]
    funext v
    have hfills := Composite.fillsOf_arrivals hvalued hlocal rfl hsite v
    rw [Site.keys_bare] at hfills
    exact hfills

theorem Node.Restores.composite {a b : Level Multiplicity}
    (compiled : (Node.composite a).Compiled cardinality)
    (compiled' : (Node.composite b).Compiled cardinality) (h : a.Rel Node.Restores b) :
    Node.Restores (.composite a) (.composite b) where
  element_eq := h.element_eq
  ordinary := by
    refine isSpecial_of_acceptsInPlace compiled.acceptsInPlace ?_
    cases compiled with
    | composite _ accepts _ _ =>
      intro hvalue
      have hvalue : a.element = .value := hvalue
      rw [hvalue] at accepts
      cases accepts
  compiled := compiled
  compiled' := compiled'
  restored := by
    intro keys key v hkeys hwell hplain
    rw [fills_composite compiled hkeys, fills_composite compiled' hkeys]
    cases compiled with
    | composite _ _ ordered _ =>
      have hrestored := Composite.restored h ordered hwell hplain
      rw [Site.keys_bare] at hrestored
      exact hrestored

/-! ## Specs that are narrowed -/

namespace Operation

mutual
/-- The second spec is the first one with `ONE` in place of `MANY`, which all leaves of the first
one have. No key of either is `@` or has it as an alternative. -/
inductive Narrowed : Json → Json → Prop
  | leaf {v w : Json} (many : Multiplicity.ofTarget v = .ok .many)
    (one : Multiplicity.ofTarget w = .ok .one) : Narrowed v w
  | level {fields fields' : List (String × Json)} (each : NarrowedFields fields fields') :
    Narrowed (.obj fields) (.obj fields')

inductive NarrowedFields : List (String × Json) → List (String × Json) → Prop
  | nil : NarrowedFields [] []
  | cons {key : String} {v w : Json} {rest rest' : List (String × Json)}
    (ordinary : ∀ keys, Pattern.splitAlternatives key = .ok keys → "@" ∉ keys)
    (narrowed : Narrowed v w) (others : NarrowedFields rest rest') :
    NarrowedFields ((key, v) :: rest) ((key, w) :: rest')
end

theorem ne_obj_of_ofTarget {v : Json} {m : Multiplicity} (h : Multiplicity.ofTarget v = .ok m)
    (fields : List (String × Json)) : v ≠ .obj fields := by
  rintro rfl
  cases h

section Agree

variable {config : Config} {key : String}

theorem Narrowed.leaf_agree {v w : Json} (many : Multiplicity.ofTarget v = .ok .many)
    (one : Multiplicity.ofTarget w = .ok .one) (hkey : key ≠ "@") (location : String)
    (depth : Nat) :
    Build.Agree Node.Restores (Build.node cardinality config key location depth v)
      (Build.node cardinality config key location depth w) := by
  have hleaves : Build.Agree
      (fun a b => ∃ e, a = Node.leaf e key Multiplicity.many ∧ b = Node.leaf e key .one)
      (Build.node cardinality config key location depth v)
      (Build.node cardinality config key location depth w) := by
    have hmany : cardinality.compileTarget config location v = .ok .many := many
    have hone : cardinality.compileTarget config location w = .ok .one := one
    rw [Build.node.eq_2 _ _ _ _ _ _ (ne_obj_of_ofTarget many),
      Build.node.eq_2 _ _ _ _ _ _ (ne_obj_of_ofTarget one), hmany, hone]
    refine Build.Agree.bind_same _ fun e => Build.Agree.bind_same _ fun _ => ?_
    rw [Build.locate_ok_bind, Build.locate_ok_bind]
    exact Build.Agree.bind_same _ fun _ => .pure ⟨e, rfl, rfl⟩
  refine hleaves.gives.imp ?_
  rintro _ _ ⟨⟨e, rfl, rfl⟩, hv, hw⟩
  refine .leaf (Build.node_compiled hv) (Build.node_compiled hw) ?_
  rintro rfl
  obtain ⟨_, _, hparse, -, -, he⟩ := Build.gives_leaf (ne_obj_of_ofTarget many) hv
  obtain ⟨rfl, -, -⟩ := Node.leaf.inj he
  exact hkey (Pattern.eq_at_of_parseKey hparse)

mutual
/-- The nodes of narrowed values agree. The recursion is that of the narrowing. -/
theorem Narrowed.agree :
    ∀ {v w : Json}, Narrowed v w → ∀ {key : String}, key ≠ "@" → ∀ location depth,
      Build.Agree Node.Restores (Build.node cardinality config key location depth v)
        (Build.node cardinality config key location depth w)
  | _, _, .leaf many one, _, hkey, location, depth =>
    Narrowed.leaf_agree many one hkey location depth
  | .obj fields, .obj fields', .level each, key, _, location, depth => by
    have hfields := NarrowedFields.agree each
    have hnode : Build.Agree (Build.Node.OnLevels fun a b => a.Rel Node.Restores b)
        (Build.node cardinality config key location depth (.obj fields))
        (Build.node cardinality config key location depth (.obj fields')) := by
      refine Build.node_agree (Build.isEmpty_eq_of_forall₂ hfields) fun element _ isArray => ?_
      exact (Build.level_agree (fun _ _ hab => hab.element_eq) hfields isArray location _ element
        key).imp fun _ _ hab => hab.2
    refine hnode.gives.imp ?_
    rintro _ _ ⟨⟨hrel⟩, hv, hw⟩
    exact .composite (Build.node_compiled hv) (Build.node_compiled hw) hrel

theorem NarrowedFields.agree :
    ∀ {fields fields' : List (String × Json)}, NarrowedFields fields fields' →
      List.Forall₂ (Build.FieldAgree cardinality config Node.Restores) fields fields'
  | [], [], .nil => .nil
  | _, _, .cons ordinary narrowed others => by
    refine .cons ⟨rfl, ?_⟩ (NarrowedFields.agree others)
    intro keys hkeys key hk location depth
    have hkey : key ≠ "@" := fun he => ordinary keys hkeys (he ▸ hk)
    exact Narrowed.agree narrowed hkey location depth
end

end Agree

/-- **`ONE` takes back what `MANY` did.** If a cardinality spec compiles that has `MANY` at all its
leaves and no `@` keys, so does the one with `ONE` in its place, and applied after it that one gives
every document back in which the first one matches no list at a leaf. -/
theorem applyCardinality_restores {config : Config} {raw raw' : Json}
    {spec : CompiledSpec Multiplicity}
    (h : CompiledSpec.compile cardinality raw config = .ok spec) (hnarrowed : Narrowed raw raw') :
    ∃ spec', CompiledSpec.compile cardinality raw' config = .ok spec' ∧
      ∀ {document : Json}, document.WellFormed →
        (∀ v ∈ spec.visits document, ∀ elements, v.data ≠ some (.arr elements)) →
        applyCardinality spec' (applyCardinality spec document) = document := by
  obtain ⟨fields, rfl, -⟩ := Build.root_from (CompiledSpec.gives_root h)
  cases hnarrowed with
  | leaf many _ => exact absurd rfl (ne_obj_of_ofTarget many fields)
  | @level _ fields' each =>
    have hfields : List.Forall₂ (Build.FieldAgree cardinality config Node.Restores) fields
        fields' := each.agree
    have hroot := Build.root_agree (Build.isEmpty_eq_of_forall₂ hfields)
      (Build.level_agree (fun _ _ hab => hab.element_eq) hfields false "" 0
        (.literal config.rootKey) config.rootKey)
    obtain ⟨spec', h', hrel⟩ := (CompiledSpec.compile_agree hroot).of_ok h
    refine ⟨spec', h', fun {document} hdoc hplain => ?_⟩
    obtain ⟨hpolicy, -, hcompiled⟩ := CompiledSpec.of_compile h
    have hmissing : spec.policy.visitsMissing = false := by rw [hpolicy]; rfl
    have hleaves : NoLists ((branchLevel false spec.root).arrivals false (some document)
        (Site.root spec.rootKey document)) := by
      intro elements hm
      obtain ⟨a, ha, hdata⟩ := List.mem_map.mp hm
      have harrival : a ∈ spec.arrivals document := by
        rw [CompiledSpec.arrivals, hmissing]
        exact ha
      refine hplain a.visit ?_ elements hdata
      rw [CompiledSpec.visits_eq h hdoc]
      exact List.mem_map_of_mem harrival
    have hrestored : document.Restored (spec.root.shapes [.plain spec.rootKey])
        (spec'.root.shapes [.plain spec.rootKey]) :=
      Composite.restored hrel.root.2 hcompiled.ordered hdoc hleaves
    have hfirst := applyCardinality_eq_shaped h hdoc
    rw [applyCardinality_eq_shaped h' (hfirst ▸ hrestored.wellFormed), hfirst, ← hrel.rootKey_eq]
    exact hrestored.restored

/-- The alternatives of a key, computed. -/
theorem at_not_mem_alternatives {key : String}
    (h : ((Pattern.splitAlternatives key).toOption.map fun keys => decide ("@" ∈ keys)) =
      some false) : ∀ keys, Pattern.splitAlternatives key = .ok keys → "@" ∉ keys := by
  intro keys hkeys
  rw [hkeys] at h
  exact of_decide_eq_false (Option.some.inj h)

/-- The same multiplicity for a key with a reference to the level above and for an or-group. -/
def sameForAll (multiplicity : String) : Json :=
  .obj [("*", .obj [("*", .obj [("&1", .str multiplicity)]), ("id|no", .str multiplicity)])]

/-- In an object and in a list, next to a list that no leaf matches. -/
theorem applyCardinality_restores_references :
    let document : Json :=
      .obj [("a", .obj [("id", .bool true), ("x", .obj [("a", .obj []), ("b", .arr [])])]),
        ("l", .arr [.obj [("l", .bool false)], .null])]
    ∃ spec, CompiledSpec.compile cardinality (sameForAll "MANY") {} = .ok spec ∧
      Narrowed (sameForAll "MANY") (sameForAll "one") ∧ document.WellFormed ∧
      (∀ v ∈ spec.visits document, ∀ elements, v.data ≠ some (.arr elements)) ∧
      ((applyCardinality spec document).get? [.key "l", .index 0, .key "l"]).map Json.toText =
        some "[false]" ∧
      ∃ spec', CompiledSpec.compile cardinality (sameForAll "one") {} = .ok spec' ∧
        applyCardinality spec' (applyCardinality spec document) = document := by
  intro document
  have hcompiles : (CompiledSpec.compile cardinality (sameForAll "MANY") {}).toOption.map
      (fun spec => ((spec.visits document).all fun v => (v.data.bind Json.elements?).isNone,
        ((applyCardinality spec document).get? [.key "l", .index 0, .key "l"]).map
          Json.toText)) = some (true, some "[false]") := by
    decide +kernel
  have hnarrowed : Narrowed (sameForAll "MANY") (sameForAll "one") := by
    have hleaf : Narrowed (.str "MANY") (.str "one") := .leaf rfl rfl
    refine .level (.cons (at_not_mem_alternatives (by decide +kernel)) (.level ?_) .nil)
    refine .cons (at_not_mem_alternatives (by decide +kernel)) (.level ?_) ?_
    · exact .cons (at_not_mem_alternatives (by decide +kernel)) hleaf .nil
    · exact .cons (at_not_mem_alternatives (by decide +kernel)) hleaf .nil
  have hwell : document.WellFormed :=
    ⟨by decide, ⟨by decide, trivial, ⟨by decide, ⟨List.Pairwise.nil, trivial⟩, trivial, trivial⟩,
      trivial⟩, ⟨⟨by decide, trivial, trivial⟩, trivial, trivial⟩, trivial⟩
  obtain ⟨spec, hspec, hresult⟩ := CompiledSpec.exists_of_map hcompiles
  obtain ⟨hvisits, htext⟩ := Prod.mk.inj hresult
  have hplain : ∀ v ∈ spec.visits document, ∀ elements, v.data ≠ some (.arr elements) := by
    intro v hv elements hdata
    have hnone := List.all_eq_true.mp hvisits v hv
    rw [hdata] at hnone
    cases hnone
  obtain ⟨spec', hspec', hback⟩ := applyCardinality_restores hspec hnarrowed
  exact ⟨spec, hspec, hnarrowed, hwell, hplain, htext, spec', hspec', hback hwell hplain⟩

end Operation
end Reshape
