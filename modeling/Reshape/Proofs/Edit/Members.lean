import Reshape.Proofs.Edit.FirstElement
import Reshape.Proofs.Walk.Parallel
/-!
# Levels member by member

A level of a cardinality spec without special children sets values in each member of a container by
itself, below the child that takes the step to the member. Which child that is does not depend on
the value of the member, and levels with the same elements give it to children in the same place.
-/
namespace Reshape

open Operation
open Pattern (Element)

/-! ## Members as they are offered -/

/-- A member, as its container offers it. -/
def Step.offer (child : Json) : Step → Offer
  | .key name => ⟨name, some child, .key name⟩
  | .index position => ⟨toString position, some child, .index position⟩
  | .append => ⟨"", some child, .detached⟩

theorem Step.step?_offer {step : Step} (h : step ≠ .append) (child : Json) :
    (step.offer child).slot.step? = some step := by
  cases step with
  | key _ | index _ => rfl
  | append => exact absurd rfl h

@[simp]
theorem Step.offer_key (step : Step) (child : Json) : (step.offer child).key = step.text := by
  cases step <;> rfl

@[simp] theorem Step.offer_input (step : Step) (child : Json) :
    (step.offer child).input = some child := by
  cases step <;> rfl

section Offers

variable {v child : Json} {step : Step}

theorem Json.ne_append_of_member? (h : v.member? step = some child) : step ≠ .append := by
  rintro rfl
  cases v <;> cases h

theorem Json.Container.mem_offers (hv : v.Container) {offer : Offer} :
    offer ∈ offers (some v) ↔
      ∃ step child, v.member? step = some child ∧ offer = step.offer child := by
  cases hv with
  | @obj fields sorted =>
    constructor
    · intro ho
      obtain ⟨⟨key, child⟩, hm, rfl⟩ := List.mem_map.mp ho
      exact ⟨.key key, child, Fields.lookup_of_mem sorted hm, rfl⟩
    · rintro ⟨step, child, hm, rfl⟩
      cases step with
      | key name => exact List.mem_map_of_mem (Fields.mem_of_lookup hm)
      | index _ | append => cases hm
  | arr elements =>
    constructor
    · intro ho
      obtain ⟨⟨child, position⟩, hm, rfl⟩ := List.mem_map.mp ho
      exact ⟨.index position, child, List.mem_zipIdx_iff_getElem?.mp hm, rfl⟩
    · rintro ⟨step, child, hm, rfl⟩
      cases step with
      | index position => exact List.mem_map_of_mem (List.mk_mem_zipIdx_iff_getElem?.mpr hm)
      | key _ | append => cases hm

end Offers

/-! ## Levels member by member -/

/-- What the leaves below a node set in a value that it is entered with. -/
def Node.fills (node : Node Multiplicity) (keys : List MatchedKey) (key : String) (v : Json) :
    List (Address × Json) :=
  fillsOf ((node.branch false).arrivals key (some v) (some v) (Site.bare keys))

namespace Composite

variable {level : Level Multiplicity} {keys : List MatchedKey} {v child : Json} {step : Step}

/-- What a level sets in the member at a step. -/
def below (level : Level Multiplicity) (keys : List MatchedKey) (step : Step) (child : Json) :
    List (Address × Json) :=
  ((level.groupOf? keys (step.offer child)).map Json.Group.fills).getD []

theorem mem_groups (hv : v.Container) {group : Json.Group} :
    group ∈ level.groups keys v ↔ ∃ child, v.member? group.step = some child ∧
      level.groupOf? keys (group.step.offer child) = some group := by
  rw [groups_eq, List.mem_filterMap]
  constructor
  · rintro ⟨offer, ho, hgroup⟩
    obtain ⟨step, child, hm, rfl⟩ := hv.mem_offers.mp ho
    have hstep := step_of_groupOf? hgroup
    rw [Step.step?_offer (Json.ne_append_of_member? hm)] at hstep
    obtain rfl := Option.some.inj hstep
    exact ⟨child, hm, hgroup⟩
  · rintro ⟨child, hm, hgroup⟩
    exact ⟨_, hv.mem_offers.mpr ⟨group.step, child, hm, rfl⟩, hgroup⟩

/-- A value that is no container has no members to set anything in. -/
theorem groups_eq_nil (hv : ¬ v.Container) (hwell : v.WellFormed) : level.groups keys v = [] := by
  rw [groups_eq]
  refine List.filterMap_eq_nil_iff.mpr fun offer ho => ?_
  have hslot : offer.slot = .detached := by
    cases v with
    | obj fields => exact absurd (.obj hwell.sorted) hv
    | arr elements => exact absurd (.arr elements) hv
    | _ =>
      obtain ⟨key, -, rfl⟩ := List.mem_map.mp ho
      rfl
  by_contra hsome
  obtain ⟨group, hgroup⟩ := Option.ne_none_iff_exists'.mp hsome
  have hstep := step_of_groupOf? hgroup
  rw [hslot] at hstep
  cases hstep

theorem shapes_eq (hs : level.special = []) (keys : List MatchedKey) (v : Json) :
    level.shapes keys v = (level.groups keys v).flatMap Json.Group.all := by
  rw [shapes, ownFills, hs]
  rfl

theorem extends_shapes (hs : level.special = []) (hv : v.Container) (keys : List MatchedKey) :
    v.Extends (v.setAll (level.shapes keys v)) := by
  rw [shapes_eq hs]
  exact hv.extends_groups _

theorem isSome_of_mem_groups (hv : v.Container) :
    ∀ group ∈ level.groups keys v, (v.member? group.step).isSome = true := by
  intro group hg
  obtain ⟨child, hm, -⟩ := (mem_groups hv).mp hg
  rw [hm]
  rfl

/-- A level without special children sets values in each member by itself. -/
theorem member?_shapes (hs : level.special = []) (hv : v.Container) (ha : v.Admits step) :
    (v.setAll (level.shapes keys v)).member? step =
      (v.member? step).map fun child => child.setAll (level.below keys step child) := by
  rw [shapes_eq hs, hv.member?_groups (isSome_of_mem_groups hv)]
  cases hm : v.member? step with
  | none => rfl
  | some child =>
    refine congrArg some ?_
    dsimp only
    rw [below]
    cases hgroup : level.groupOf? keys (step.offer child) with
    | none =>
      have hne : ∀ group ∈ level.groups keys v, group.step ≠ step := by
        rintro group hg rfl
        obtain ⟨other, ho, hsome⟩ := (mem_groups hv).mp hg
        obtain rfl := Option.some.inj (hm.symm.trans ho)
        rw [hgroup] at hsome
        cases hsome
      rw [hv.memberAt_groups_of_ne hne, Json.memberAt_of_member? hm]
      rfl
    | some group =>
      have hstep := step_of_groupOf? hgroup
      rw [Step.step?_offer (Json.ne_append_of_member? hm)] at hstep
      obtain rfl := Option.some.inj hstep
      have hmem := (mem_groups hv).mpr ⟨child, hm, hgroup⟩
      rw [(ha.memberAt_groups hmem (groups_distinct hv)).1, Json.memberAt_of_member? hm]
      rfl

/-- A member past the greatest index stays as it is. -/
theorem member?_shapes_of_not_admits (hs : level.special = []) (hv : v.Container)
    (ha : ¬ v.Admits step) : (v.setAll (level.shapes keys v)).member? step = v.member? step := by
  rw [shapes_eq hs, hv.member?_groups (isSome_of_mem_groups hv),
    hv.memberAt_groups_of_not_admits ha]
  cases hm : v.member? step with
  | none => rfl
  | some child => exact congrArg some (Json.memberAt_of_member? hm)

section Owner

variable {node : Node Multiplicity} {matched : MatchedKey}

/-- What is set in a member is set below the child that takes its step. -/
theorem below_of_claim (hs : step ≠ .append)
    (hclaim : (branchLevel false level).claimOf? (Site.bare keys).frames (step.offer child) =
      some ⟨node.branch false, step.offer child, matched⟩) :
    level.below keys step child = node.fills (matched :: keys) step.text child := by
  rw [below, groupOf?, hclaim]
  cases step with
  | key _ | index _ => rfl
  | append => exact absurd rfl hs

theorem below_of_unclaimed
    (hclaim : (branchLevel false level).claimOf? (Site.bare keys).frames (step.offer child) =
      none) : level.below keys step child = [] := by
  rw [below, groupOf?, hclaim]
  rfl

end Owner

/-- Related levels give a member to related children, whatever its value is, or to none. -/
theorem claims_rel {R : Node Multiplicity → Node Multiplicity → Prop}
    {level' : Level Multiplicity} (h : level.Rel R level')
    (hR : ∀ a b, R a b → a.element = b.element) (keys : List MatchedKey) (step : Step) :
    (∀ child, (branchLevel false level).claimOf? (Site.bare keys).frames (step.offer child) =
        none ∧
      (branchLevel false level').claimOf? (Site.bare keys).frames (step.offer child) = none) ∨
    ∃ a b matched, R a b ∧ ∀ child,
      (branchLevel false level).claimOf? (Site.bare keys).frames (step.offer child) =
        some ⟨a.branch false, step.offer child, matched⟩ ∧
      (branchLevel false level').claimOf? (Site.bare keys).frames (step.offer child) =
        some ⟨b.branch false, step.offer child, matched⟩ := by
  have howners := owner?_rel (fun _ _ hab => Node.BranchRel.element_eq hR hab)
    (branchLevel_rel h) (rfl : (Site.bare keys).frames.map Frame.key = _) step.text
  simp only [claimOf?, Branch.claim?, Step.offer_key]
  generalize (branchLevel false level).owner? (Site.bare keys).frames step.text = owner at howners
  generalize (branchLevel false level').owner? (Site.bare keys).frames step.text = owner'
    at howners
  cases howners with
  | none => exact .inl fun _ => ⟨rfl, rfl⟩
  | some hbranch =>
    obtain ⟨a, b, hab, rfl, rfl⟩ := hbranch
    simp only [Option.bind_some, Node.branch_element, ← hR a b hab]
    cases a.element.match? step.text (Site.bare keys).frames with
    | none => exact .inl fun _ => ⟨rfl, rfl⟩
    | some matched => exact .inr ⟨a, b, matched, hab, fun _ => ⟨rfl, rfl⟩⟩

end Composite
end Reshape
