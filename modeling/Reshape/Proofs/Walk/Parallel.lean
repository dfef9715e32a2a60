import Mathlib.Data.List.Forall2
import Reshape.Proofs.Spec.Agreement
import Reshape.Proofs.Walk.Strategy
/-!
# Walks side by side

Two levels with the same elements claim the same keys wherever the keys above them are the same. So
the leaves below them are related one by one, if those below their children are.
-/
namespace Reshape

open Pattern (Element)

variable {τ : Type}

section Lists

variable {α β : Type} {R : α → β → Prop}

theorem forall₂_zipIdx {xs : List α} {ys : List β} (h : List.Forall₂ R xs ys) (n : Nat) :
    List.Forall₂ (fun x y => R x.1 y.1 ∧ x.2 = y.2) (xs.zipIdx n) (ys.zipIdx n) := by
  induction h generalizing n with
  | nil => exact .nil
  | cons hxy _ ih => exact .cons ⟨hxy, rfl⟩ (ih (n + 1))

theorem find?_rel {p : α → Bool} {q : β → Bool} {xs : List α} {ys : List β}
    (h : List.Forall₂ R xs ys) (hpq : ∀ x y, R x y → p x = q y) :
    Option.Rel R (xs.find? p) (ys.find? q) := by
  induction h with
  | nil => exact .none
  | @cons x y _ _ hxy _ ih =>
    rw [List.find?_cons, List.find?_cons, hpq x y hxy]
    cases q y with
    | true => exact .some hxy
    | false => exact ih

theorem all_rel {p : α → Bool} {q : β → Bool} {xs : List α} {ys : List β}
    (h : List.Forall₂ R xs ys) (hpq : ∀ x y, R x y → p x = q y) : xs.all p = ys.all q := by
  induction h with
  | nil => rfl
  | cons hxy _ ih => rw [List.all_cons, List.all_cons, hpq _ _ hxy, ih]

theorem lookup_rel (key : String) {xs : List (String × α)} {ys : List (String × β)}
    (h : List.Forall₂ (fun x y => x.1 = y.1 ∧ R x.2 y.2) xs ys) :
    Option.Rel R (xs.lookup key) (ys.lookup key) := by
  induction h with
  | nil => exact .none
  | @cons x y _ _ hxy _ ih =>
    obtain ⟨k, v⟩ := x
    obtain ⟨k', w⟩ := y
    obtain ⟨rfl, hvw⟩ := hxy
    rw [List.lookup_cons, List.lookup_cons]
    cases key == k with
    | true => exact .some hvw
    | false => exact ih

theorem or_rel {a a' : Option α} {b b' : Option β} (h : Option.Rel R a b)
    (h' : Option.Rel R a' b') : Option.Rel R (a.or a') (b.or b') := by
  cases h with
  | none => exact h'
  | some hab => exact .some hab

theorem bind_rel {γ δ : Type} {S : γ → δ → Prop} {a : Option α} {b : Option β}
    {f : α → Option γ} {g : β → Option δ} (h : Option.Rel R a b)
    (hfg : ∀ x y, R x y → Option.Rel S (f x) (g y)) : Option.Rel S (a.bind f) (b.bind g) := by
  cases h with
  | none => exact .none
  | some hab => exact hfg _ _ hab

end Lists

/-- Two claims of related offers with one match, by related branches. -/
structure Claim.Rel (R : Branch τ → Branch τ → Prop) (O : Offer → Offer → Prop) (a b : Claim τ) :
    Prop where
  branch : R a.branch b.branch
  offer : O a.offer b.offer
  matched_eq : a.matched = b.matched

namespace Composite

variable {R : Branch τ → Branch τ → Prop} {level level' : Composite (Branch τ)}
  {frames frames' : Frames}

/-- A key is handed to related branches. -/
theorem owner?_rel (hR : ∀ a b, R a b → a.element = b.element) (h : level.Rel R level')
    (hf : frames.map Frame.key = frames'.map Frame.key) (key : String) :
    Option.Rel R (level.owner? frames key) (level'.owner? frames' key) := by
  have haccepts (a b : Branch τ) (hab : R a b) :
      a.accepts frames key = b.accepts frames' key := by
    rw [Branch.accepts, Branch.accepts, hR a b hab, Element.match?_congr hf]
  have hmatching : List.Forall₂ R
      (level.computed.filter fun branch => branch.accepts frames key)
      (level'.computed.filter fun branch => branch.accepts frames' key) :=
    List.rel_filter (fun {a b} hab => iff_of_eq (congrArg (· = true) (haccepts a b hab)))
      h.computed
  have hleast := find?_rel hmatching fun a b hab =>
    all_rel (p := fun y => a.element.comparePrecedence y.element != .gt)
      (q := fun y => b.element.comparePrecedence y.element != .gt) hmatching
      fun c d hcd => by rw [hR a b hab, hR c d hcd]
  exact or_rel (lookup_rel key h.literal) hleast

theorem claimOf?_rel (hR : ∀ a b, R a b → a.element = b.element) (h : level.Rel R level')
    (hf : frames.map Frame.key = frames'.map Frame.key) {O : Offer → Offer → Prop}
    {offer offer' : Offer} (ho : O offer offer') (hkey : offer.key = offer'.key) :
    Option.Rel (Claim.Rel R O) (level.claimOf? frames offer) (level'.claimOf? frames' offer') := by
  rw [claimOf?, claimOf?, ← hkey]
  refine bind_rel (owner?_rel hR h hf offer.key) fun a b hab => ?_
  rw [Branch.claim?, Branch.claim?, ← hkey, ← hR a b hab, ← Element.match?_congr hf]
  cases a.element.match? offer.key frames with
  | none => exact .none
  | some matched => exact .some ⟨hab, ho, rfl⟩

/-- The leaves below two levels are related if those below their special children and their claims
are. -/
theorem arrivals_rel {A : Arrival τ → Arrival τ → Prop} {input input' : Option Json}
    {site site' : Site}
    (hspecial : List.Forall₂ (fun a b => List.Forall₂ A (a.described input site)
      (b.described input' site')) level.special level'.special)
    (hclaims : List.Forall₂ (fun a b => ∀ n, List.Forall₂ A (a.arrivals (site.counted n))
      (b.arrivals (site'.counted n))) (level.claims site.frames input)
        (level'.claims site'.frames input')) :
    List.Forall₂ A (level.arrivals false input site) (level'.arrivals false input' site') := by
  rw [arrivals, arrivals, allClaims, allClaims, if_neg Bool.false_ne_true, List.append_nil,
    if_neg Bool.false_ne_true, List.append_nil]
  refine List.rel_append (List.rel_flatMap hspecial fun {a b} hab => hab) ?_
  refine List.rel_flatMap (forall₂_zipIdx hclaims 0) ?_
  rintro ⟨a, n⟩ ⟨b, m⟩ ⟨hab, rfl⟩
  exact hab n

end Composite

/-! ## Levels of nodes -/

section Nodes

variable {R : Node τ → Node τ → Prop} {level level' : Level τ}

/-- The branches of two related nodes. -/
def Node.BranchRel (R : Node τ → Node τ → Prop) (a b : Branch τ) : Prop :=
  ∃ node node', R node node' ∧ a = node.branch false ∧ b = node'.branch false

theorem branchLevel_rel (h : level.Rel R level') :
    (branchLevel false level).Rel (Node.BranchRel R) (branchLevel false level') := by
  have hnodes {nodes nodes' : List (Node τ)} (h : List.Forall₂ R nodes nodes') :
      List.Forall₂ (Node.BranchRel R) (nodes.map (Node.branch false))
        (nodes'.map (Node.branch false)) := by
    rw [List.forall₂_map_left_iff, List.forall₂_map_right_iff]
    exact h.imp fun a b hab => ⟨a, b, hab, rfl, rfl⟩
  rw [branchLevel_eq, branchLevel_eq]
  refine ⟨h.element_eq, h.rawKey_eq, h.isArray_eq, h.strategy_eq, hnodes h.special, ?_,
    hnodes h.computed⟩
  rw [List.forall₂_map_left_iff, List.forall₂_map_right_iff]
  exact h.literal.imp fun a b hab => ⟨hab.1, a.2, b.2, hab.2, rfl, rfl⟩

theorem Node.BranchRel.element_eq (hR : ∀ a b, R a b → a.element = b.element) {a b : Branch τ}
    (h : Node.BranchRel R a b) : a.element = b.element := by
  obtain ⟨node, node', hab, rfl, rfl⟩ := h
  rw [Node.branch_element, Node.branch_element, hR node node' hab]

/-- The leaves below two levels at one site are related if those below related children are,
wherever these are entered from the site. -/
theorem Composite.Rel.arrivals {A : Arrival τ → Arrival τ → Prop} (h : level.Rel R level')
    (hR : ∀ a b, R a b → a.element = b.element) {site : Site}
    (henter : ∀ a b, R a b → ∀ n slot matched key data input, List.Forall₂ A
      ((a.branch false).arrivals key data input
        ((site.counted n).enter a.element slot matched input))
      ((b.branch false).arrivals key data input
        ((site.counted n).enter a.element slot matched input)))
    (input : Option Json) :
    List.Forall₂ A ((branchLevel false level).arrivals false input site)
      ((branchLevel false level').arrivals false input site) := by
  have hlevel := branchLevel_rel h
  have helement (a b : Branch τ) (hab : Node.BranchRel R a b) : a.element = b.element :=
    hab.element_eq hR
  refine Composite.arrivals_rel ?_ ?_
  · refine hlevel.special.imp ?_
    rintro _ _ ⟨a, b, hab, rfl, rfl⟩
    rw [Branch.described, Branch.described, Node.branch_element, Node.branch_element, ← hR a b hab]
    cases a.element.describe? site.frames input with
    | none => exact .nil
    | some d =>
      have hbelow := henter a b hab 0 d.slot (.plain d.key) d.key d.data d.input
      rwa [Site.counted, Frames.countBy_zero] at hbelow
  · have hclaims : List.Forall₂ (Claim.Rel (Node.BranchRel R) (· = ·))
        ((branchLevel false level).claims site.frames input)
        ((branchLevel false level').claims site.frames input) := by
      refine List.rel_filterMap (R := fun x y => x = y) ?_ (List.forall₂_refl _)
      rintro offer _ rfl
      exact Composite.claimOf?_rel helement hlevel rfl rfl rfl
    refine hclaims.imp ?_
    rintro ⟨_, offer, matched⟩ ⟨_, _, _⟩ ⟨⟨a, b, hab, rfl, rfl⟩, rfl, rfl⟩ n
    rw [Claim.arrivals, Claim.arrivals, Node.branch_element, Node.branch_element, ← hR a b hab]
    exact henter a b hab n offer.slot matched offer.key offer.input offer.input

end Nodes
end Reshape
