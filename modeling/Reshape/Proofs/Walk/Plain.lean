import Reshape.Proofs.Spec.Compiled
import Reshape.Proofs.Walk.Frames
import Reshape.Walk.Outcome
/-!
# The plain walk

A walk without strategies and without state. Every level hands the keys of its input, in their
order, to the literal child of that name or else to the computed child that comes first in
precedence among those that match. An arrival at a leaf is recorded with the levels that were
entered on the way, so its place in the input is read off them.
-/
namespace Reshape

open Pattern (Element)

variable {τ : Type}

def Slot.step? : Slot → Option Step
  | .key name => some (.key name)
  | .index position => some (.index position)
  | .same => none
  | .detached => none

def Slot.isDetached : Slot → Bool
  | .detached => true
  | _ => false

/-- A spec element that was entered, and where it sits relative to the level above it. -/
structure Opening where
  element : Element
  slot : Slot

/-- A point of the walk: the frames of the open levels, and the openings below the root that led
there, both innermost first. -/
structure Site where
  frames : Frames
  openings : List Opening

namespace Site

def steps (site : Site) : List Step := site.openings.filterMap fun opening => opening.slot.step?

/-- An enclosing level was not reached through the structure of the input. -/
def isDetached (site : Site) : Bool := site.openings.any fun opening => opening.slot.isDetached

/-- The place in the input; nothing if an enclosing level is detached. -/
def location (site : Site) : Option Address :=
  if site.isDetached then none else some site.steps.reverse

def enter (site : Site) (element : Element) (slot : Slot) (key : MatchedKey)
    (input : Option Json) : Site :=
  ⟨site.frames.push key input, ⟨element, slot⟩ :: site.openings⟩

/-- The site after `n` more matches at its innermost level. -/
def counted (site : Site) (n : Nat) : Site := { site with frames := site.frames.countBy n }

@[simp] theorem counted_counted (site : Site) (n m : Nat) :
    (site.counted n).counted m = site.counted (n + m) := by
  rw [counted, counted, Frames.countBy_countBy]
  rfl

/-- The site of a root level. -/
def root (rootKey : String) (input : Json) : Site :=
  ⟨Frames.push [] (.plain rootKey) (some input), []⟩

end Site

/-- A leaf that was reached, with the key and the data that it was reached with. -/
structure Arrival (τ : Type) where
  element : Element
  target : τ
  key : String
  data : Option Json
  site : Site

def Arrival.visit (a : Arrival τ) : Visit τ :=
  ⟨a.element, a.target, a.key, a.data, a.site.frames, a.site.location⟩

/-- A child of a level: its element, and the leaves reached below it once it has been entered with
a key, the data there and the input of its own level. -/
structure Branch (τ : Type) where
  element : Element
  arrivals : (key : String) → (data input : Option Json) → Site → List (Arrival τ)

/-- A key of a level together with the child that takes it. -/
structure Claim (τ : Type) where
  branch : Branch τ
  offer : Offer
  matched : MatchedKey

/-- The leaves reached through a claimed key. -/
def Claim.arrivals (claim : Claim τ) (site : Site) : List (Arrival τ) :=
  claim.branch.arrivals claim.offer.key claim.offer.input claim.offer.input
    (site.enter claim.branch.element claim.offer.slot claim.matched claim.offer.input)

namespace Branch

def accepts (branch : Branch τ) (frames : Frames) (key : String) : Bool :=
  (branch.element.match? key frames).isSome

def claim? (branch : Branch τ) (frames : Frames) (offer : Offer) : Option (Claim τ) :=
  (branch.element.match? offer.key frames).map fun matched => ⟨branch, offer, matched⟩

/-- The leaves reached through a special child of a level. -/
def described (branch : Branch τ) (input : Option Json) (site : Site) : List (Arrival τ) :=
  match branch.element.describe? site.frames input with
  | none => []
  | some d =>
    branch.arrivals d.key d.data d.input
      (site.enter branch.element d.slot (.plain d.key) d.input)

end Branch

/-- An element of a list that comes after no other. -/
def least? {α : Type} (cmp : α → α → Ordering) (xs : List α) : Option α :=
  xs.find? fun x => xs.all fun y => cmp x y != .gt

/-- The keys that a value offers: those of an object, the indices of a list, or a scalar taken as
a key. -/
def offers : Option Json → List Offer
  | none => []
  | some (.obj fields) => fields.map fun (key, v) => ⟨key, some v, .key key⟩
  | some (.arr elements) =>
    elements.zipIdx.map fun (v, position) => ⟨toString position, some v, .index position⟩
  | some scalar => scalar.scalarKey?.toList.map fun key => ⟨key, some .null, .detached⟩

namespace Composite

/-- The child that a key is handed to. -/
def owner? (level : Composite (Branch τ)) (frames : Frames) (key : String) :
    Option (Branch τ) :=
  (level.literal.lookup key).or
    (least? (fun a b => a.element.comparePrecedence b.element)
      (level.computed.filter fun branch => branch.accepts frames key))

/-- The claim of an offer by the child that its key is handed to. -/
def claimOf? (level : Composite (Branch τ)) (frames : Frames) (offer : Offer) :
    Option (Claim τ) :=
  (level.owner? frames offer.key).bind fun branch => branch.claim? frames offer

/-- The keys of the input that are claimed, in order. -/
def claims (level : Composite (Branch τ)) (frames : Frames) (input : Option Json) :
    List (Claim τ) :=
  (offers input).filterMap (level.claimOf? frames)

/-- The literal children that claim a key which the input does not have. -/
def missingClaims (level : Composite (Branch τ)) (frames : Frames) (input : Option Json) :
    List (Claim τ) :=
  level.literal.filterMap fun (key, branch) =>
    (missingSlot? level.isArray input key).bind fun slot =>
      branch.claim? frames ⟨key, none, slot⟩

def allClaims (missing : Bool) (level : Composite (Branch τ)) (frames : Frames)
    (input : Option Json) : List (Claim τ) :=
  level.claims frames input ++ if missing then level.missingClaims frames input else []

/-- The leaves reached below a level: through its special children first, then through the claims,
each of which sees the number of those before it. -/
def arrivals (missing : Bool) (level : Composite (Branch τ)) (input : Option Json)
    (site : Site) : List (Arrival τ) :=
  (level.special.flatMap fun branch => branch.described input site) ++
    (level.allClaims missing site.frames input).zipIdx.flatMap fun (claim, n) =>
      claim.arrivals (site.counted n)

end Composite

mutual
/-- A node of a spec as a child of its level. -/
def Node.branch (missing : Bool) : Node τ → Branch τ
  | .leaf element _ target =>
    ⟨element, fun key data _ site => [⟨element, target, key, data, site⟩]⟩
  | .composite level =>
    let level := branchLevel missing level
    ⟨level.element, fun _ _ input site => level.arrivals missing input site⟩

def branchLevel (missing : Bool) : Composite (Node τ) → Composite (Branch τ)
  | ⟨element, rawKey, isArray, special, literal, computed, strategy⟩ =>
    ⟨element, rawKey, isArray, branches missing special, namedBranches missing literal,
      branches missing computed, strategy⟩

def branches (missing : Bool) : List (Node τ) → List (Branch τ)
  | [] => []
  | node :: rest => node.branch missing :: branches missing rest

def namedBranches (missing : Bool) : List (String × Node τ) → List (String × Branch τ)
  | [] => []
  | (key, node) :: rest => (key, node.branch missing) :: namedBranches missing rest
end

namespace CompiledSpec

/-- The leaves that a plain walk over an input reaches, in order. -/
def arrivals (spec : CompiledSpec τ) (input : Json) : List (Arrival τ) :=
  (branchLevel spec.policy.visitsMissing spec.root).arrivals spec.policy.visitsMissing
    (some input) (Site.root spec.rootKey input)

/-- The outcome of a plain walk. -/
def plainWalk (spec : CompiledSpec τ) (input : Json) : Outcome :=
  Outcome.ofVisits spec.policy.decide ((spec.arrivals input).map Arrival.visit)

end CompiledSpec

theorem branches_eq (missing : Bool) (nodes : List (Node τ)) :
    branches missing nodes = nodes.map (Node.branch missing) := by
  induction nodes with
  | nil => rfl
  | cons node rest ih => rw [branches, ih, List.map_cons]

theorem namedBranches_eq (missing : Bool) (nodes : List (String × Node τ)) :
    namedBranches missing nodes = nodes.map fun field => (field.1, field.2.branch missing) := by
  induction nodes with
  | nil => rfl
  | cons field rest ih => rw [namedBranches, ih, List.map_cons]

/-- The level of branches has the branches of the nodes in each of its buckets. -/
theorem branchLevel_eq (missing : Bool) (level : Level τ) :
    branchLevel missing level =
      ⟨level.element, level.rawKey, level.isArray, level.special.map (Node.branch missing),
        level.literal.map fun field => (field.1, field.2.branch missing),
        level.computed.map (Node.branch missing), level.strategy⟩ := by
  obtain ⟨element, rawKey, isArray, special, literal, computed, strategy⟩ := level
  rw [branchLevel, branches_eq, branches_eq, namedBranches_eq]

@[simp] theorem branchLevel_special (missing : Bool) (level : Level τ) :
    (branchLevel missing level).special = level.special.map (Node.branch missing) := by
  rw [branchLevel_eq]

theorem Node.branch_element (missing : Bool) (node : Node τ) :
    (node.branch missing).element = node.element := by
  cases node with
  | leaf element rawKey target => rfl
  | composite level =>
    rw [Node.branch, Node.element, branchLevel_eq]

end Reshape
