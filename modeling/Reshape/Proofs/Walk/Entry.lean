import Reshape.Proofs.Spec.Compiled
import Reshape.Proofs.Walk.Plain
/-!
# Leaves by induction on the entries

Every leaf of a walk is reached by entering a child of the root level, a child of that, and so on.
What holds of the root and is kept by one entry therefore holds of every leaf.
-/
namespace Reshape

open Pattern (Element)

variable {τ : Type}

/-- What a level or a leaf is entered with: a key, the data of a visit, the input of the level
itself, and the site that it makes. -/
structure Entry where
  key : String
  data : Option Json
  input : Option Json
  site : Site

namespace Entry

def root (rootKey : String) (document : Json) : Entry :=
  ⟨rootKey, some document, some document, Site.root rootKey document⟩

/-- A leaf that is entered. -/
def arrival (entry : Entry) (element : Element) (target : τ) : Arrival τ :=
  ⟨element, target, entry.key, entry.data, entry.site⟩

/-- The leaves reached below a node that is entered. -/
def arrivals (missing : Bool) (node : Node τ) (entry : Entry) : List (Arrival τ) :=
  (node.branch missing).arrivals entry.key entry.data entry.input entry.site

end Entry

/-- A key that a level offers to its children: one of its input, or one that the input lacks. -/
def Offered (missing isArray : Bool) (input : Option Json) (offer : Offer) : Prop :=
  offer ∈ offers input ∨ missing = true ∧ offer.input = none ∧
    missingSlot? isArray input offer.key = some offer.slot

/-- The ways into a child of a level. -/
inductive Composite.Enters (missing : Bool) (level : Level τ) (parent : Entry) :
    Node τ → Entry → Prop
  | special {child : Node τ} {d : Described} (mem : child ∈ level.children)
    (described : child.element.describe? parent.site.frames parent.input = some d) :
    Composite.Enters missing level parent child
      ⟨d.key, d.data, d.input,
        parent.site.enter child.element d.slot (.plain d.key) d.input⟩
  | keyed {child : Node τ} {offer : Offer} {matched : MatchedKey} (n : Nat)
    (mem : child ∈ level.children) (offered : Offered missing level.isArray parent.input offer)
    (accepted : child.element.match? offer.key parent.site.frames = some matched) :
    Composite.Enters missing level parent child
      ⟨offer.key, offer.input, offer.input,
        (parent.site.counted n).enter child.element offer.slot matched offer.input⟩

theorem least?_mem {α : Type} {cmp : α → α → Ordering} {xs : List α} {x : α}
    (h : least? cmp xs = some x) : x ∈ xs :=
  List.mem_of_find?_eq_some h

theorem Pattern.Element.isSpecial_of_match? {e : Element} {key : String} {frames : Frames}
    {matched : MatchedKey} (h : e.match? key frames = some matched) : e.isSpecial = false := by
  cases e with
  | literal _ | any | glob _ | reference _ => rfl
  | _ => cases h

namespace Composite

variable {missing : Bool} {level : Level τ} {frames : Frames}

/-- The branch that owns a key is that of a child. -/
theorem owner?_mem {key : String} {branch : Branch τ}
    (h : (branchLevel missing level).owner? frames key = some branch) :
    ∃ child ∈ level.children, branch = child.branch missing := by
  rw [owner?, branchLevel_eq, Option.or_eq_some_iff] at h
  rcases h with h | ⟨-, h⟩
  · rw [Fields.lookup_map, Option.map_eq_some_iff] at h
    obtain ⟨child, hc, rfl⟩ := h
    exact ⟨child, mem_children_of_literal (Fields.mem_of_lookup hc), rfl⟩
  · have hm := (List.mem_filter.mp (least?_mem h)).1
    obtain ⟨child, hc, rfl⟩ := List.mem_map.mp hm
    exact ⟨child, mem_children_of_computed hc, rfl⟩

/-- A claim keeps the offer that it is made of. -/
theorem offer_of_claimOf? {level : Composite (Branch τ)} {offer : Offer} {claim : Claim τ}
    (h : level.claimOf? frames offer = some claim) : claim.offer = offer := by
  obtain ⟨branch, -, hc⟩ := Option.bind_eq_some_iff.mp h
  obtain ⟨matched, -, rfl⟩ := Option.map_eq_some_iff.mp hc
  rfl

theorem claim_of_mem_claims {input : Option Json} {claim : Claim τ}
    (h : claim ∈ (branchLevel missing level).claims frames input) :
    ∃ child ∈ level.children, claim.branch = child.branch missing ∧
      claim.offer ∈ offers input ∧
      child.element.match? claim.offer.key frames = some claim.matched := by
  obtain ⟨offer, ho, hc⟩ := List.mem_filterMap.mp h
  obtain ⟨branch, hb, hc⟩ := Option.bind_eq_some_iff.mp hc
  obtain ⟨matched, hm, rfl⟩ := Option.map_eq_some_iff.mp hc
  obtain ⟨child, hchild, rfl⟩ := owner?_mem hb
  rw [Node.branch_element] at hm
  exact ⟨child, hchild, rfl, ho, hm⟩

theorem claim_of_mem_missingClaims {input : Option Json} {claim : Claim τ}
    (h : claim ∈ (branchLevel missing level).missingClaims frames input) :
    ∃ child ∈ level.children, claim.branch = child.branch missing ∧
      (claim.offer.input = none ∧
        missingSlot? level.isArray input claim.offer.key = some claim.offer.slot) ∧
      child.element.match? claim.offer.key frames = some claim.matched := by
  rw [missingClaims, branchLevel_eq] at h
  obtain ⟨⟨key, branch⟩, hb, hc⟩ := List.mem_filterMap.mp h
  obtain ⟨⟨key', child⟩, hm, he⟩ := List.mem_map.mp hb
  obtain ⟨rfl, rfl⟩ := Prod.mk.inj he
  obtain ⟨slot, hs, hc⟩ := Option.bind_eq_some_iff.mp hc
  obtain ⟨matched, hmatch, rfl⟩ := Option.map_eq_some_iff.mp hc
  rw [Node.branch_element] at hmatch
  exact ⟨child, mem_children_of_literal hm, rfl, ⟨rfl, hs⟩, hmatch⟩

/-- A claim of a level is made by a child that accepts a key offered to it. -/
theorem claim_of_mem_allClaims {input : Option Json} {claim : Claim τ}
    (h : claim ∈ (branchLevel missing level).allClaims missing frames input) :
    ∃ child ∈ level.children, claim.branch = child.branch missing ∧
      Offered missing level.isArray input claim.offer ∧
      child.element.match? claim.offer.key frames = some claim.matched := by
  rcases List.mem_append.mp h with h | h
  · obtain ⟨child, hc, hb, ho, hm⟩ := claim_of_mem_claims h
    exact ⟨child, hc, hb, .inl ho, hm⟩
  · cases hmissing : missing with
    | false => rw [hmissing] at h; cases h
    | true =>
      rw [hmissing, if_pos rfl] at h
      obtain ⟨child, hc, hb, ho, hm⟩ := claim_of_mem_missingClaims h
      exact ⟨child, hc, hb, .inr ⟨rfl, ho⟩, hm⟩

/-- A leaf below a level is a leaf below one of the children entered from it. -/
theorem mem_arrivals {parent : Entry} {a : Arrival τ}
    (h : a ∈ (branchLevel missing level).arrivals missing parent.input parent.site) :
    ∃ child ∈ level.children, ∃ entry, level.Enters missing parent child entry ∧
      a ∈ entry.arrivals missing child := by
  rcases List.mem_append.mp h with h | h
  · obtain ⟨branch, hb, ha⟩ := List.mem_flatMap.mp h
    rw [branchLevel_special] at hb
    obtain ⟨child, hc, rfl⟩ := List.mem_map.mp hb
    rw [Branch.described, Node.branch_element] at ha
    cases hd : child.element.describe? parent.site.frames parent.input with
    | none => rw [hd] at ha; cases ha
    | some d =>
      rw [hd] at ha
      exact ⟨child, mem_children_of_special hc, _, .special (mem_children_of_special hc) hd, ha⟩
  · obtain ⟨⟨claim, n⟩, hcn, ha⟩ := List.mem_flatMap.mp h
    obtain ⟨child, hc, hb, ho, hm⟩ := claim_of_mem_allClaims (List.fst_mem_of_mem_zipIdx hcn)
    dsimp only at ha
    rw [Claim.arrivals, hb, Node.branch_element] at ha
    exact ⟨child, hc, _, .keyed n hc ho hm, ha⟩

end Composite

/-- The arrival is at a leaf of the policy that was entered so, with nothing but levels above. -/
def Entry.Reaches (p : Policy τ) (entry : Entry) (a : Arrival τ) : Prop :=
  p.Allows a.element ∧ a = entry.arrival a.element a.target ∧
    ∃ slot outer, a.site.openings = ⟨a.element, slot⟩ :: outer ∧
      ∀ opening ∈ outer, opening.element.acceptsChildren = true

section Induction

variable {p : Policy τ} {missing : Bool} {K : Node τ → Entry → Prop}

/-- The children of a level are entered one opening below it. -/
theorem Composite.Enters.openings_eq {level : Level τ} {parent entry : Entry} {child : Node τ}
    (h : level.Enters missing parent child entry) :
    ∃ slot, entry.site.openings = ⟨child.element, slot⟩ :: parent.site.openings := by
  cases h with
  | special => exact ⟨_, rfl⟩
  | keyed => exact ⟨_, rfl⟩

/-- What every entry keeps holds where a leaf below a compiled node is entered. The induction is
on the node. -/
theorem Node.Compiled.reaches
    (hstep : ∀ {level : Level τ} {parent entry : Entry} {child : Node τ},
      level.Enters missing parent child entry → K (.composite level) parent → K child entry)
    {node : Node τ} (hn : node.Compiled p) :
    ∀ {entry : Entry} {slot : Slot} {outer : List Opening} {a : Arrival τ}, K node entry →
      entry.site.openings = ⟨node.element, slot⟩ :: outer →
      (∀ opening ∈ outer, opening.element.acceptsChildren = true) →
      a ∈ entry.arrivals missing node →
      ∃ (rawKey : String) (leaf : Entry), K (.leaf a.element rawKey a.target) leaf ∧
        leaf.Reaches p a := by
  induction hn with
  | @leaf element rawKey target hallowed =>
    intro entry slot outer a hk hopen houter ha
    obtain rfl := List.mem_singleton.mp ha
    exact ⟨rawKey, entry, hk, hallowed, rfl, slot, outer, hopen, houter⟩
  | @composite level _ haccepts _ _ ih =>
    intro entry slot outer a hk hopen houter ha
    obtain ⟨child, hc, next, henters, ha⟩ := Composite.mem_arrivals ha
    obtain ⟨slot', hnext⟩ := henters.openings_eq
    refine ih child hc (hstep henters hk) hnext ?_ ha
    rw [hopen]
    exact List.forall_mem_cons.mpr ⟨haccepts, houter⟩

end Induction

namespace CompiledSpec

variable {policy : Policy τ} {config : Config} {raw document : Json} {spec : CompiledSpec τ}

/-- What holds of the root level and is kept by every entry holds where a leaf is entered. -/
theorem reaches_of_mem_arrivals (h : compile policy raw config = .ok spec)
    {K : Node τ → Entry → Prop}
    (hroot : K (.composite spec.root) (Entry.root spec.rootKey document))
    (hstep : ∀ {level : Level τ} {parent entry : Entry} {child : Node τ},
      level.Enters policy.visitsMissing parent child entry → K (.composite level) parent →
        K child entry)
    {a : Arrival τ} (ha : a ∈ spec.arrivals document) :
    ∃ (rawKey : String) (leaf : Entry), K (.leaf a.element rawKey a.target) leaf ∧
      leaf.Reaches policy a := by
  obtain ⟨rfl, -, hlevel⟩ := of_compile h
  have hmem : a ∈ (branchLevel spec.policy.visitsMissing spec.root).arrivals
      spec.policy.visitsMissing (Entry.root spec.rootKey document).input
        (Entry.root spec.rootKey document).site := ha
  obtain ⟨child, hc, entry, henters, ha⟩ := Composite.mem_arrivals hmem
  obtain ⟨slot, hopen⟩ := henters.openings_eq
  exact (hlevel.children child hc).reaches hstep (hstep henters hroot) hopen nofun ha

end CompiledSpec
end Reshape
