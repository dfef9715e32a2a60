import Reshape.Operation.Cardinality
import Reshape.Proofs.Edit.Defaults
import Reshape.Proofs.Spec.Levels
import Reshape.Proofs.Walk.Local
/-!
# What a cardinality spec sets

A cardinality spec is applied by setting values in the order of the walk. A level sets a value for
itself first, where one of its special children changes the level, and then one group of values
below each member that is claimed. What is set below a member depends on the member and on the
keys that lead to it, and on nothing else of the document.
-/
namespace Reshape

open Operation
open Pattern (Element)

/-- What a leaf sets, where it is reached in the document. -/
def Arrival.fill? (a : Arrival Multiplicity) : Option (Address × Json) :=
  a.site.location.bind fun location =>
    (a.data.bind a.target.normalize?).map fun value => (location, value)

/-- What leaves set, in the order in which they are reached. -/
def fillsOf (arrivals : List (Arrival Multiplicity)) : List (Address × Json) :=
  arrivals.filterMap Arrival.fill?

@[simp] theorem fillsOf_append (as bs : List (Arrival Multiplicity)) :
    fillsOf (as ++ bs) = fillsOf as ++ fillsOf bs :=
  List.filterMap_append

theorem fillsOf_flatMap {α : Type} (f : α → List (Arrival Multiplicity)) (xs : List α) :
    fillsOf (xs.flatMap f) = xs.flatMap fun x => fillsOf (f x) :=
  List.filterMap_flatMap

/-! ## Leaves below a site -/

section Below

variable {site bare : Site} {as bs : List (Arrival Multiplicity)}

/-- What is set below a site is set below its place. -/
theorem fillsOf_attached (h : List.Forall₂ (Arrival.Alike site bare) as bs)
    (hbare : bare.openings = []) (hd : site.isDetached = false) :
    fillsOf as = (fillsOf bs).map fun fill => (site.place ++ fill.1, fill.2) := by
  have hfill {a b : Arrival Multiplicity} (hab : Arrival.Alike site bare a b) :
      a.fill? = b.fill?.map fun fill => (site.place ++ fill.1, fill.2) := by
    obtain ⟨below, ha, hb⟩ := hab.openings
    rw [hbare, List.append_nil] at hb
    have hdetached : a.site.isDetached = b.site.isDetached := by
      rw [Site.isDetached, Site.isDetached, ha, hb, List.any_append, ← Site.isDetached, hd,
        Bool.or_false]
    have hsteps : a.site.steps.reverse = site.place ++ b.site.steps.reverse := by
      rw [Site.steps, Site.steps, ha, hb, List.filterMap_append, List.reverse_append]
      rfl
    rw [Arrival.fill?, Arrival.fill?, hab.target, hab.data, Site.location, Site.location,
      hdetached, hsteps]
    cases b.site.isDetached with
    | true => rfl
    | false => cases b.data.bind b.target.normalize? <;> rfl
  induction h with
  | nil => rfl
  | @cons a b as bs hab _ ih =>
    have hcons (a : Arrival Multiplicity) (as : List (Arrival Multiplicity)) :
        fillsOf (a :: as) = a.fill?.toList ++ fillsOf as := by
      rw [fillsOf, List.filterMap_cons]
      cases a.fill? <;> rfl
    rw [hcons, hcons, hfill hab, ih, List.map_append]
    cases b.fill? <;> rfl

/-- Nothing is set below a site that is detached. -/
theorem fillsOf_detached (h : List.Forall₂ (Arrival.Alike site bare) as bs)
    (hd : site.isDetached = true) : fillsOf as = [] := by
  induction h with
  | nil => rfl
  | @cons a b as bs hab _ ih =>
    obtain ⟨below, ha, -⟩ := hab.openings
    have hnone : a.fill? = none := by
      rw [Arrival.fill?, Site.location, Site.isDetached, ha, List.any_append, ← Site.isDetached,
        hd, Bool.or_true]
      rfl
    rw [fillsOf, List.filterMap_cons_none hnone]
    exact ih

end Below

/-! ## Levels -/

theorem Step.key_ne_append (name : String) : Step.key name ≠ .append := by simp

theorem Step.index_ne_append (position : Nat) : Step.index position ≠ .append := by simp

namespace Claim

variable (keys : List MatchedKey) (claim : Claim Multiplicity)

/-- What is set below the member that is claimed. -/
def fills : List (Address × Json) :=
  fillsOf (claim.branch.arrivals claim.offer.key claim.offer.input claim.offer.input
    (Site.bare (claim.matched :: keys)))

/-- What is set below a level through the member, unless the member is not in the document. -/
def group? : Option Json.Group :=
  match claim.offer.slot with
  | .key name => some ⟨.key name, claim.fills keys, Step.key_ne_append name⟩
  | .index position => some ⟨.index position, claim.fills keys, Step.index_ne_append position⟩
  | _ => none

theorem fillsOf_arrivals {child : Node Multiplicity} (hbranch : claim.branch = child.branch false)
    (hlocal : child.Local false) (hslot : claim.offer.slot ≠ .same) {site : Site}
    (hsite : site.openings = []) (n : Nat) :
    fillsOf (claim.arrivals (site.counted n)) =
      (claim.group? site.keys).toList.flatMap Json.Group.all := by
  let entered : Site := (site.counted n).enter claim.branch.element claim.offer.slot claim.matched
    claim.offer.input
  have hkeys : entered.keys = (Site.bare (claim.matched :: site.keys)).keys := by
    rw [Site.keys_enter, Site.keys_counted, Site.keys_bare]
  have hopenings : entered.openings = [⟨claim.branch.element, claim.offer.slot⟩] :=
    congrArg (_ :: ·) hsite
  have halike := hlocal hkeys claim.offer.key claim.offer.input claim.offer.input
  rw [← hbranch] at halike
  have hplace (step : Step) (hstep : claim.offer.slot.step? = some step)
      (hattached : claim.offer.slot.isDetached = false) :
      fillsOf (claim.arrivals (site.counted n)) = step.lower (claim.fills site.keys) := by
    have hdetached : entered.isDetached = false := by
      rw [Site.isDetached, hopenings, List.any_cons, hattached]
      rfl
    have hsteps : entered.steps = [step] := by
      rw [Site.steps, hopenings]
      exact List.filterMap_cons_some hstep
    have hstart : entered.place = [step] := congrArg List.reverse hsteps
    have hfills := fillsOf_attached halike rfl hdetached
    rw [hstart] at hfills
    exact hfills
  have hnowhere (hdetached : claim.offer.slot.isDetached = true) :
      fillsOf (claim.arrivals (site.counted n)) = [] := by
    refine fillsOf_detached halike ?_
    rw [Site.isDetached, hopenings, List.any_cons, hdetached]
    rfl
  cases hs : claim.offer.slot with
  | key name =>
    rw [hplace (.key name) (by rw [hs]; rfl) (by rw [hs]; rfl), group?, hs]
    exact (List.append_nil _).symm
  | index position =>
    rw [hplace (.index position) (by rw [hs]; rfl) (by rw [hs]; rfl), group?, hs]
    exact (List.append_nil _).symm
  | same => exact absurd hs hslot
  | detached =>
    rw [hnowhere (by rw [hs]; rfl), group?, hs]
    rfl

end Claim

namespace Composite

/-- What the special children of a level set for its value. -/
def ownFills (level : Level Multiplicity) (v : Json) : List (Address × Json) :=
  level.special.flatMap fun
    | .leaf _ _ target => (target.normalize? v).toList.map fun value => ([], value)
    | .composite _ => []

/-- What is set below the members of a value, group by group. -/
def groups (level : Level Multiplicity) (keys : List MatchedKey) (v : Json) : List Json.Group :=
  ((branchLevel false level).claims (Site.bare keys).frames (some v)).filterMap
    (Claim.group? keys)

/-- Everything that a level sets, given the keys that lead to it and its value. -/
def shapes (level : Level Multiplicity) (keys : List MatchedKey) (v : Json) :
    List (Address × Json) :=
  level.ownFills v ++ (level.groups keys v).flatMap Json.Group.all

/-- The special children of a level are leaves for its value. -/
def Valued (level : Level Multiplicity) : Prop :=
  ∀ child ∈ level.special, ∃ rawKey target, child = .leaf .value rawKey target

theorem fillsOf_described {level : Level Multiplicity} (hvalued : level.Valued) {site : Site}
    (hsite : site.openings = []) (hkeys : site.keys ≠ []) (v : Json) :
    fillsOf ((level.special.map (Node.branch false)).flatMap fun branch =>
      branch.described (some v) site) = level.ownFills v := by
  rw [fillsOf_flatMap, List.flatMap_map, ownFills]
  refine List.flatMap_congr fun child hc => ?_
  obtain ⟨rawKey, target, rfl⟩ := hvalued child hc
  obtain ⟨frames, openings⟩ := site
  obtain rfl : openings = [] := hsite
  cases frames with
  | nil => exact absurd rfl hkeys
  | cons frame outer =>
    cases hv : target.normalize? v with
    | none => simp [Branch.described, Node.branch, Element.describe?, fillsOf, Arrival.fill?, hv]
    | some value =>
      simp [Branch.described, Node.branch, Element.describe?, fillsOf, Arrival.fill?, hv,
        Site.location, Site.isDetached, Site.steps, Site.enter, Slot.isDetached, Slot.step?]

/-- What the leaves below a level set is what the level sets. -/
theorem fillsOf_arrivals {level : Level Multiplicity} (hvalued : level.Valued)
    (hlocal : ∀ child ∈ level.children, child.Local false) {site : Site}
    (hsite : site.openings = []) (hkeys : site.keys ≠ []) (v : Json) :
    fillsOf ((branchLevel false level).arrivals false (some v) site) =
      level.shapes site.keys v := by
  have hclaims (n : Nat) : ∀ claim ∈ (branchLevel false level).claims site.frames (some v),
      fillsOf (claim.arrivals (site.counted n)) =
        (claim.group? site.keys).toList.flatMap Json.Group.all := by
    intro claim hm
    obtain ⟨child, hc, hbranch, ho, -⟩ := claim_of_mem_claims hm
    have hoffered : Offered false level.isArray (some v) claim.offer := .inl ho
    exact claim.fillsOf_arrivals hbranch (hlocal child hc) hoffered.slot_ne_same hsite n
  have hbare : (branchLevel false level).claims (Site.bare site.keys).frames (some v) =
      (branchLevel false level).claims site.frames (some v) := by
    have hcongr : (branchLevel false level).claimOf? (Site.bare site.keys).frames =
        (branchLevel false level).claimOf? site.frames :=
      funext fun offer => claimOf?_congr (Site.keys_bare site.keys) offer
    rw [claims, hcongr]
    rfl
  rw [arrivals, fillsOf_append, branchLevel_special, fillsOf_described hvalued hsite hkeys, shapes,
    groups, hbare, allClaims, if_neg Bool.false_ne_true, List.append_nil, fillsOf_flatMap]
  refine congrArg (level.ownFills v ++ ·) ?_
  generalize (branchLevel false level).claims site.frames (some v) = claims at hclaims
  generalize 0 = start
  induction claims generalizing start with
  | nil => rfl
  | cons claim rest ih =>
    obtain ⟨hfirst, hrest⟩ : _ ∧ _ := ⟨hclaims start claim List.mem_cons_self,
      fun n c hc => hclaims n c (List.mem_cons_of_mem _ hc)⟩
    rw [List.zipIdx_cons, List.flatMap_cons, hfirst, ih hrest, List.filterMap_cons]
    cases claim.group? site.keys <;> simp

end Composite

/-! ## Compiled specs -/

namespace Operation

theorem cardinality_staysInPlace : cardinality.StaysInPlace := Policy.accepting_staysInPlace rfl

end Operation

namespace Composite

variable {level : Level Multiplicity}

/-- A special child of a compiled level is a leaf, since only lookups have children. -/
theorem Compiled.valued (h : level.Compiled cardinality) : level.Valued := by
  intro child hc
  have hspecial := h.ordered.special_role child hc
  cases h.children child (mem_children_of_special hc) with
  | @leaf element rawKey target allowed =>
    have haccepts := cardinality_staysInPlace element allowed
    cases element with
    | value => exact ⟨rawKey, target, rfl⟩
    | literal _ | any | glob _ | reference _ => cases hspecial
    | _ => cases haccepts
  | @composite inner allowed accepts _ _ =>
    have haccepts := cardinality_staysInPlace inner.element allowed
    change inner.element.isSpecial = true at hspecial
    cases he : inner.element with
    | value => rw [he] at accepts; cases accepts
    | literal _ | any | glob _ | reference _ => rw [he] at hspecial; cases hspecial
    | _ => rw [he] at haccepts; cases haccepts

/-- A level has at most one special child, since its children are different. -/
theorem Valued.special_cases (h : level.Valued) {n : Nat} (hexact : level.Exact n) :
    level.special = [] ∨ ∃ rawKey target, level.special = [.leaf .value rawKey target] := by
  have hdistinct := hexact.distinct
  rw [children, List.append_assoc] at hdistinct
  have hspecial := (List.pairwise_append.mp hdistinct).1
  cases hs : level.special with
  | nil => exact .inl rfl
  | cons first rest =>
    right
    obtain ⟨rawKey, target, rfl⟩ := h first (hs ▸ List.mem_cons_self)
    cases rest with
    | nil => exact ⟨rawKey, target, rfl⟩
    | cons second more =>
      have hsecond : second ∈ level.special := by simp [hs]
      obtain ⟨rawKey', target', rfl⟩ := h second hsecond
      rw [hs] at hspecial
      have hne := (List.pairwise_cons.mp hspecial).1 _ List.mem_cons_self
      exact absurd rfl hne

end Composite

theorem Arrival.replacement?_visit (a : Arrival Multiplicity) :
    (Outcome.edit? a.visit (cardinality.decide a.visit)).bind Outcome.replacement? = a.fill? := by
  have hdecide : cardinality.decide a.visit =
      (a.data.bind a.target.normalize?).elim .skip .replace := by
    rw [cardinality]
    dsimp only [visit]
    cases a.data.bind a.target.normalize? <;> rfl
  have hlocation : a.visit.location = a.site.location := rfl
  rw [hdecide, Arrival.fill?]
  cases a.data.bind a.target.normalize? with
  | none => cases a.site.location <;> rfl
  | some value =>
    rw [Option.elim_some, Outcome.edit?, hlocation]
    cases a.site.location <;> rfl

namespace CompiledSpec

variable {config : Config} {raw document : Json} {spec : CompiledSpec Multiplicity}

/-- The edits of a cardinality walk are what the root level sets. -/
theorem replacements_cardinality (h : compile cardinality raw config = .ok spec)
    (hdoc : document.WellFormed) :
    (spec.walk document).edits.filterMap Outcome.replacement? =
      spec.root.shapes [.plain spec.rootKey] document := by
  obtain ⟨hpolicy, -, hroot⟩ := of_compile h
  have hmissing : spec.policy.visitsMissing = false := by rw [hpolicy]; rfl
  have hlocal : ∀ child ∈ spec.root.children, child.Local false :=
    fun child hc => (hroot.children child hc).local cardinality_staysInPlace false
  have hfills : fillsOf (spec.arrivals document) =
      spec.root.shapes [.plain spec.rootKey] document := by
    rw [arrivals, hmissing]
    have hkeys : (Site.root spec.rootKey document).keys ≠ [] := List.cons_ne_nil _ _
    exact Composite.fillsOf_arrivals hroot.valued hlocal rfl hkeys document
  rw [← hfills, walk, visits_eq h hdoc, hpolicy, Outcome.ofVisits, List.filterMap_map,
    List.filterMap_filterMap, fillsOf]
  exact congrArg (List.filterMap · _) (funext Arrival.replacement?_visit)

theorem exists_edit (h : compile cardinality raw config = .ok spec) (hdoc : document.WellFormed)
    {fill : Address × Json} (hf : fill ∈ spec.root.shapes [.plain spec.rootKey] document) :
    ∃ e ∈ (spec.walk document).edits, e.location = fill.1 := by
  rw [← replacements_cardinality h hdoc] at hf
  obtain ⟨e, he, hreplacement⟩ := List.mem_filterMap.mp hf
  rw [Outcome.replacement?] at hreplacement
  split at hreplacement
  · exact ⟨e, he, (Prod.mk.inj (Option.some.inj hreplacement)).1⟩
  · cases hreplacement

end CompiledSpec

/-- **Cardinality sets values level by level.** What a cardinality spec makes of a document is the
document with everything set that the root level sets for it. -/
theorem Operation.applyCardinality_eq_shaped {config : Config} {raw document : Json}
    {spec : CompiledSpec Multiplicity} (h : CompiledSpec.compile cardinality raw config = .ok spec)
    (hdoc : document.WellFormed) :
    applyCardinality spec document =
      document.setAll (spec.root.shapes [.plain spec.rootKey] document) := by
  have hkeep (v : Visit Multiplicity) : cardinality.decide v ≠ .remove := by
    rw [cardinality]
    dsimp only
    cases v.data.bind v.target.normalize? <;> simp
  rw [applyCardinality, CompiledSpec.edited_eq_setAll h hkeep,
    CompiledSpec.replacements_cardinality h hdoc]

end Reshape
