import Reshape.Operation.Modify
import Reshape.Proofs.Pattern.Wildcard
import Reshape.Proofs.Walk.Entry
import Reshape.Proofs.Walk.Strategy
/-!
# References resolve statically

Wherever a leaf is visited, the open levels are those of the elements on the way from the root of
the spec to the leaf, and the key of each has one capture for each star of its element. So the spec
alone says which references resolve at a leaf.
-/
namespace Reshape

open Pattern (Element Glob Reference)

variable {τ : Type}

namespace Pattern

/-- The stars of an element that capture; the star that stands alone is the whole key. -/
def Element.stars : Element → Nat
  | .glob g => g.stars
  | _ => 0

theorem Element.stars_of_isSpecial {e : Element} (h : e.isSpecial = true) : e.stars = 0 := by
  cases e with
  | glob g => cases h
  | _ => rfl

/-- **A match has one capture for each star.** -/
theorem Element.captures_length {e : Element} {key : String} {frames : Frames}
    {matched : MatchedKey} (h : e.match? key frames = some matched) :
    matched.captures.length = e.stars := by
  cases e with
  | literal text =>
    rw [match?] at h
    split at h
    · obtain rfl := Option.some.inj h
      rfl
    · cases h
  | any =>
    obtain rfl := Option.some.inj h
    rfl
  | glob g =>
    obtain ⟨captures, hcaptures, rfl⟩ := Option.map_eq_some_iff.mp h
    exact Glob.captures?_length hcaptures
  | reference t =>
    obtain ⟨text, -, h⟩ := Option.bind_eq_some_iff.mp h
    split at h
    · obtain rfl := Option.some.inj h
      rfl
    · cases h
  | _ => cases h

/-- An element that describes its level is a special one. -/
theorem Element.isSpecial_of_describe? {e : Element} {frames : Frames} {input : Option Json}
    {d : Described} (h : e.describe? frames input = some d) : e.isSpecial = true := by
  obtain ⟨parent, -, h⟩ := Option.bind_eq_some_iff.mp h
  cases e with
  | literal _ | any | glob _ | reference _ => cases h
  | _ => rfl

end Pattern

/-- The elements on the way from the root of a spec to a node, the node's own first. -/
inductive Composite.Chain (root : Level τ) : List Element → Node τ → Prop
  | root : Composite.Chain root [root.element] (.composite root)
  | child {chain : List Element} {level : Level τ} {child : Node τ}
    (above : Composite.Chain root chain (.composite level)) (mem : child ∈ level.children) :
    Composite.Chain root (child.element :: chain) child

/-- The elements that were entered, the innermost first, with that of the root level at the end. -/
def Site.chain (root : Element) (site : Site) : List Element :=
  site.openings.map Opening.element ++ [root]

namespace Frames

/-- How many captures the key of each open level has. -/
def captureCounts (frames : Frames) : List Nat :=
  frames.map fun frame => frame.key.captures.length

@[simp] theorem captureCounts_countBy (n : Nat) (frames : Frames) :
    (frames.countBy n).captureCounts = frames.captureCounts := by
  cases frames <;> rfl

end Frames

/-- A reference can resolve below a chain of elements: it has the level, and the element there has
the group. -/
def Pattern.Reference.FitsChain (r : Reference) (chain : List Element) : Prop :=
  ∃ e, chain[r.level]? = some e ∧ r.group ≤ e.stars

@[simp] theorem MatchedKey.group?_isSome (m : MatchedKey) (group : Nat) :
    (m.group? group).isSome = true ↔ group ≤ m.captures.length := by
  cases group with
  | zero => exact iff_of_true rfl (Nat.zero_le _)
  | succ n => simp only [group?, isSome_getElem?, Nat.succ_le_iff]

/-- A reference resolves exactly if it fits the elements that the frames were opened for. -/
theorem Pattern.Reference.resolve?_isSome {frames : Frames} {chain : List Element}
    (h : frames.captureCounts = chain.map Element.stars) (r : Reference) :
    (r.resolve? frames).isSome = true ↔ r.FitsChain chain := by
  have hlevel := congrArg (·[r.level]?) h
  simp only [Frames.captureCounts, List.getElem?_map] at hlevel
  rw [resolve?, FitsChain]
  cases hf : frames[r.level]? with
  | none =>
    rw [hf, Option.map_none, eq_comm, Option.map_eq_none_iff] at hlevel
    simp [hlevel]
  | some frame =>
    rw [hf, Option.map_some, eq_comm, Option.map_eq_some_iff] at hlevel
    obtain ⟨e, he, hstars⟩ := hlevel
    rw [Option.bind_some, MatchedKey.group?_isSome, he, ← hstars]
    simp

/-- A node is entered along its chain, and the keys of the open levels have the captures of the
elements on it. -/
structure Entry.Follows (root : Level τ) (node : Node τ) (entry : Entry) : Prop where
  chain : root.Chain (entry.site.chain root.element) node
  captures : entry.site.frames.captureCounts = (entry.site.chain root.element).map Element.stars

namespace Entry.Follows

variable {root : Level τ} {parent entry : Entry}

theorem start {rootKey : String} (h : root.element = .literal rootKey) (document : Json) :
    (Entry.root rootKey document).Follows root (.composite root) := by
  refine ⟨.root, ?_⟩
  show [0] = [root.element.stars]
  rw [h]
  rfl

/-- Every way into a child of a level opens a frame with the captures of the child's element. -/
theorem enters {missing : Bool} {level : Level τ} {child : Node τ}
    (h : parent.Follows root (.composite level))
    (he : level.Enters missing parent child entry) : entry.Follows root child := by
  cases he with
  | special mem described =>
    have hstars := Element.stars_of_isSpecial (Element.isSpecial_of_describe? described)
    refine ⟨h.chain.child mem, ?_⟩
    show 0 :: parent.site.frames.captureCounts =
      child.element.stars :: (parent.site.chain root.element).map Element.stars
    rw [hstars, h.captures]
  | @keyed offer matched n mem _ accepted =>
    have hstars := Element.captures_length accepted
    refine ⟨h.chain.child mem, ?_⟩
    show matched.captures.length :: (parent.site.frames.countBy n).captureCounts =
      child.element.stars :: (parent.site.chain root.element).map Element.stars
    rw [hstars, Frames.captureCounts_countBy, h.captures]

end Entry.Follows

/-- What the spec says about the visit of a leaf. -/
structure Arrival.Static (root : Level τ) (a : Arrival τ) : Prop where
  /-- The elements that were entered lead from the root of the spec to the leaf. -/
  chain : ∃ rawKey, root.Chain (a.site.chain root.element) (.leaf a.element rawKey a.target)
  /-- There is a frame for each of them, with a capture for each of its stars. -/
  captures : a.visit.frames.captureCounts = (a.site.chain root.element).map Element.stars
  /-- A reference resolves exactly if it fits them, also as an argument of a function or as a key of
  a path. -/
  resolves : ∀ r : Reference,
    ((r.resolve? a.visit.frames).isSome = true ↔ r.FitsChain (a.site.chain root.element)) ∧
    (((Operation.Argument.reference r).evaluate? a.visit.data a.visit.frames).isSome = true ↔
      r.FitsChain (a.site.chain root.element)) ∧
    (((Pattern.PathStep.key ⟨[.reference r]⟩).resolve? a.visit.frames).isSome = true ↔
      r.FitsChain (a.site.chain root.element))

theorem Entry.Follows.static {p : Policy τ} {root : Level τ} {leaf : Entry} {rawKey : String}
    {a : Arrival τ} (h : leaf.Follows root (.leaf a.element rawKey a.target))
    (hreaches : leaf.Reaches p a) : a.Static root := by
  have hsite : a.site = leaf.site := congrArg Arrival.site hreaches.2.1
  have hcaptures : a.visit.frames.captureCounts =
      (a.site.chain root.element).map Element.stars := by
    show a.site.frames.captureCounts = _
    rw [hsite]
    exact h.captures
  refine ⟨⟨rawKey, hsite ▸ h.chain⟩, hcaptures, fun r => ?_⟩
  have hresolve := r.resolve?_isSome hcaptures
  refine ⟨hresolve, ?_, ?_⟩
  · rw [Operation.Argument.evaluate?, Option.isSome_map]
    exact hresolve
  · have hkey : (Pattern.PathStep.key ⟨[.reference r]⟩).resolve? a.visit.frames =
        (r.resolve? a.visit.frames).map fun text => .key (text ++ "") := by
      rw [Pattern.PathStep.resolve?, Pattern.Template.resolve?,
        Pattern.Template.resolveSegments?]
      cases r.resolve? a.visit.frames <;> rfl
    rw [hkey, Option.isSome_map]
    exact hresolve

namespace CompiledSpec

variable {policy : Policy τ} {config : Config} {raw document : Json} {spec : CompiledSpec τ}

/-- **References resolve statically.** At every visit of a leaf the frames are those of the elements
from the root of the spec to the leaf, with as many captures as these have stars, so which
references resolve is the same at all visits of a leaf, whatever the input. -/
theorem references_static (h : compile policy raw config = .ok spec)
    (hdoc : document.WellFormed) :
    spec.visits document = (spec.arrivals document).map Arrival.visit ∧
      ∀ a ∈ spec.arrivals document, a.Static spec.root := by
  refine ⟨visits_eq h hdoc, fun a ha => ?_⟩
  have hroot := Entry.Follows.start (root_element h) document
  obtain ⟨rawKey, leaf, hfollows, hreaches⟩ :=
    reaches_of_mem_arrivals h hroot (fun he hk => hk.enters he) ha
  exact hfollows.static hreaches

/-- A leaf below a pattern with two stars and a lookup, in an object and through a scalar. -/
theorem references_static_lookup :
    ∃ spec : CompiledSpec (List Pattern.WritePath),
      compile Operation.shift
        (.obj [("*-*", .obj [("@(1,k)", .obj [("*", .str "&(2,1).&(2,2).&")])])]) {} = .ok spec ∧
      (Json.obj [("a-b", .null), ("k", .str "v")]).WellFormed ∧
      (spec.visits (.obj [("a-b", .null), ("k", .str "v")])).length = 1 ∧
      spec.visits (.obj [("a-b", .null), ("k", .str "v")]) =
        (spec.arrivals (.obj [("a-b", .null), ("k", .str "v")])).map Arrival.visit ∧
      ∀ a ∈ spec.arrivals (.obj [("a-b", .null), ("k", .str "v")]), a.Static spec.root := by
  have hwell : (Json.obj [("a-b", .null), ("k", .str "v")]).WellFormed :=
    ⟨by decide, trivial, trivial, trivial⟩
  have hvisited : ((compile Operation.shift
      (.obj [("*-*", .obj [("@(1,k)", .obj [("*", .str "&(2,1).&(2,2).&")])])])
      {}).toOption.map fun spec =>
        (spec.visits (.obj [("a-b", .null), ("k", .str "v")])).length) = some 1 := by
    decide +kernel
  obtain ⟨spec, hspec, hlength⟩ := exists_of_map hvisited
  exact ⟨spec, hspec, hwell, hlength, references_static hspec hwell⟩

end CompiledSpec
end Reshape
