import Mathlib.Data.List.Forall2
import Reshape.Proofs.Walk.Place
/-!
# Leaves below a node

In a spec whose only special elements are the values of levels, what is reached below a node
depends on the levels above it only through their keys. So the leaves below a node are found in
the same way wherever it is entered with the same keys, a key, its data and its input.
-/
namespace Reshape

open Pattern (Element)

variable {τ : Type}

/-- The policy allows no special elements but the values of levels. -/
def Policy.StaysInPlace (p : Policy τ) : Prop := ∀ e, p.Allows e → Policy.acceptsInPlace e = true

theorem Policy.accepting_staysInPlace {p : Policy τ} {operation : String}
    (h : p.validate = Policy.accepting operation Policy.acceptsInPlace) : p.StaysInPlace := by
  rintro e ⟨location, he⟩
  rw [h] at he
  exact Policy.accepts_of_ok he

namespace Site

/-- The keys of the levels, innermost first. -/
def keys (site : Site) : List MatchedKey := site.frames.map Frame.key

/-- A site with nothing to it but the keys of its levels. -/
def bare (keys : List MatchedKey) : Site := ⟨keys.map fun key => ⟨key, 0, none⟩, []⟩

variable (site : Site) (element : Element) (slot : Slot) (key : MatchedKey) (input : Option Json)

@[simp] theorem keys_bare (keys : List MatchedKey) : (bare keys).keys = keys := by
  rw [Site.keys, bare, List.map_map]
  exact List.map_id keys

@[simp] theorem keys_counted (n : Nat) : (site.counted n).keys = site.keys :=
  Frames.keys_countBy n site.frames

@[simp] theorem keys_enter : (site.enter element slot key input).keys = key :: site.keys := rfl

end Site

namespace Pattern.Element

variable {e : Element} {frames frames' : Frames}

/-- The value of a level is described by the key of the level. -/
theorem describe?_congr (h : frames.map Frame.key = frames'.map Frame.key)
    (he : Policy.acceptsInPlace e = true) (input : Option Json) :
    e.describe? frames input = e.describe? frames' input := by
  have hhead := congrArg List.head? h
  rw [List.head?_map, List.head?_map] at hhead
  have hkey (frames : Frames) : Element.value.describe? frames input =
      (frames.head?.map Frame.key).map fun key => ⟨key.raw, input, input, .same⟩ := by
    cases frames <;> rfl
  have hnone (frames : Frames) (h : e.isSpecial = false) : e.describe? frames input = none := by
    cases e with
    | literal _ | any | glob _ | reference _ => cases frames <;> rfl
    | _ => cases h
  cases e with
  | value => rw [hkey, hkey, hhead]
  | literal _ | any | glob _ | reference _ => rw [hnone _ rfl, hnone _ rfl]
  | _ => cases he

end Pattern.Element

namespace Composite

variable {missing : Bool} {level : Composite (Branch τ)} {frames frames' : Frames}

theorem claim?_congr (h : frames.map Frame.key = frames'.map Frame.key) (branch : Branch τ)
    (offer : Offer) : branch.claim? frames offer = branch.claim? frames' offer := by
  rw [Branch.claim?, Branch.claim?, Element.match?_congr h]

theorem claimOf?_congr (h : frames.map Frame.key = frames'.map Frame.key) (offer : Offer) :
    level.claimOf? frames offer = level.claimOf? frames' offer := by
  have haccepts : (fun branch : Branch τ => branch.accepts frames offer.key) =
      fun branch => branch.accepts frames' offer.key :=
    funext fun branch => congrArg Option.isSome (Element.match?_congr h _ _)
  have hclaim : (fun branch : Branch τ => branch.claim? frames offer) =
      fun branch => branch.claim? frames' offer :=
    funext fun branch => claim?_congr h branch offer
  rw [claimOf?, claimOf?, owner?, owner?, haccepts, hclaim]

/-- Which keys are claimed, and by which children, depends on the keys of the levels above. -/
theorem allClaims_congr (h : frames.map Frame.key = frames'.map Frame.key)
    (input : Option Json) :
    level.allClaims missing frames input = level.allClaims missing frames' input := by
  have hclaims : level.claimOf? frames = level.claimOf? frames' :=
    funext fun offer => claimOf?_congr h offer
  rw [allClaims, allClaims, claims, claims, hclaims, missingClaims, missingClaims]
  simp only [claim?_congr h]

end Composite

/-- Two leaves that are reached below two sites in the same way, with the same data. -/
structure Arrival.Alike (outer outer' : Site) (a b : Arrival τ) : Prop where
  target : a.target = b.target
  data : a.data = b.data
  openings : ∃ below, a.site.openings = below ++ outer.openings ∧
    b.site.openings = below ++ outer'.openings

/-- The openings between two sites count as openings below the outer one. -/
theorem Arrival.Alike.of_enter {outer outer' : Site} {a b : Arrival τ} {element : Element}
    {slot : Slot} {key : MatchedKey} {input : Option Json}
    (h : Arrival.Alike (outer.enter element slot key input) (outer'.enter element slot key input)
      a b) : Arrival.Alike outer outer' a b := by
  obtain ⟨below, ha, hb⟩ := h.openings
  refine ⟨h.target, h.data, below ++ [⟨element, slot⟩], ?_, ?_⟩
  · rw [ha, List.append_assoc]
    rfl
  · rw [hb, List.append_assoc]
    rfl

theorem forall₂_flatMap {α β : Type} {R : β → β → Prop} {f g : α → List β} {xs : List α}
    (h : ∀ x ∈ xs, List.Forall₂ R (f x) (g x)) : List.Forall₂ R (xs.flatMap f) (xs.flatMap g) := by
  induction xs with
  | nil => exact .nil
  | cons x xs ih =>
    obtain ⟨hx, hxs⟩ := List.forall_mem_cons.mp h
    rw [List.flatMap_cons, List.flatMap_cons]
    exact List.rel_append hx (ih hxs)

/-- The leaves below the node are the same ones at any two sites with the same keys. -/
def Node.Local (missing : Bool) (node : Node τ) : Prop :=
  ∀ {site site' : Site}, site.keys = site'.keys →
    ∀ (key : String) (data input : Option Json),
      List.Forall₂ (Arrival.Alike site site')
        ((node.branch missing).arrivals key data input site)
        ((node.branch missing).arrivals key data input site')

/-- The leaves below a level are the same ones at two sites with the same keys, if that holds for
its children. -/
theorem Composite.arrivals_local {missing : Bool} {level : Level τ}
    (hplace : ∀ child ∈ level.special, Policy.acceptsInPlace child.element = true)
    (hlocal : ∀ child ∈ level.children, child.Local missing) {site site' : Site}
    (h : site.keys = site'.keys) (input : Option Json) :
    List.Forall₂ (Arrival.Alike site site')
      ((branchLevel missing level).arrivals missing input site)
      ((branchLevel missing level).arrivals missing input site') := by
  refine List.rel_append ?_ ?_
  · refine forall₂_flatMap fun branch hb => ?_
    rw [branchLevel_special] at hb
    obtain ⟨child, hc, rfl⟩ := List.mem_map.mp hb
    rw [Branch.described, Branch.described, Node.branch_element,
      Element.describe?_congr h (hplace child hc)]
    cases child.element.describe? site'.frames input with
    | none => exact .nil
    | some d =>
      refine (hlocal child (mem_children_of_special hc) ?_ _ _ _).imp fun _ _ => .of_enter
      exact congrArg (MatchedKey.plain d.key :: ·) h
  · rw [allClaims_congr h]
    refine forall₂_flatMap fun numbered hm => ?_
    obtain ⟨claim, n⟩ := numbered
    obtain ⟨child, hc, hbranch, -, -⟩ :=
      Composite.claim_of_mem_allClaims (List.fst_mem_of_mem_zipIdx hm)
    dsimp only
    rw [Claim.arrivals, Claim.arrivals, hbranch]
    refine (hlocal child hc ?_ _ _ _).imp fun _ _ hab => ?_
    · rw [Site.keys_enter, Site.keys_enter, Site.keys_counted, Site.keys_counted, h]
    · obtain ⟨below, ha, hb⟩ := hab.of_enter.openings
      exact ⟨hab.target, hab.data, below, ha, hb⟩

/-- By induction on the node. -/
theorem Node.Compiled.local {p : Policy τ} (hp : p.StaysInPlace) (missing : Bool) {node : Node τ}
    (hn : node.Compiled p) : node.Local missing := by
  induction hn with
  | leaf _ =>
    intro site site' _ key data _
    exact .cons ⟨rfl, rfl, [], rfl, rfl⟩ .nil
  | @composite level _ _ hordered hchildren ih =>
    intro site site' h _ _ input
    refine Composite.arrivals_local (fun child hc => ?_) ih h input
    have hcompiled := hchildren child (Composite.mem_children_of_special hc)
    cases hcompiled with
    | leaf hallowed => exact hp _ hallowed
    | composite hallowed _ _ _ => exact hp _ hallowed

end Reshape
