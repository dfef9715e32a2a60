import Reshape.Proofs.Walk.Strategy
/-!
# Matches at a level

A level hands what its value offers to its children by its strategy, and then its missing keys to
its literal children. The children that claim something are the matches at the level. They can be
told from the keys of the open levels, before anything of the level has been walked.

Nothing is assumed here of how the children of a level are sorted into their buckets.
-/
namespace Reshape

open Pattern (Element)

variable {τ : Type}

/-- A child of a level that claims an offer, with what its element makes of the key. -/
structure Match (τ : Type) where
  child : Node τ
  offer : Offer
  key : MatchedKey

def Node.match? (frames : Frames) (child : Node τ) (offer : Offer) : Option (Match τ) :=
  (child.element.match? offer.key frames).map fun key => ⟨child, offer, key⟩

/-- The match of the first child that claims an offer. -/
def firstMatch? (frames : Frames) (children : List (Node τ)) (offer : Offer) : Option (Match τ) :=
  children.findSome? fun child => child.match? frames offer

namespace Composite

/-- The children that a key is handed to, in turn, until one claims it. -/
def candidates (level : Level τ) (key : String) : Strategy → List (Node τ)
  | .literalsOnly => (level.literal.lookup key).toList
  | .computedOnly => level.computed
  | .noConflict =>
    match level.literal.lookup key with
    | some child => [child]
    | none => level.computed
  | .conflict => (level.literal.lookup key).toList ++ level.computed

def claimant? (level : Level τ) (strategy : Strategy) (frames : Frames) (offer : Offer) :
    Option (Match τ) :=
  firstMatch? frames (level.candidates offer.key strategy) offer

/-- The keys, the elements or the scalar of the value that are claimed. Only objects are walked by
the strategy, and with literal children alone these are gone through instead of the keys. -/
def taken (level : Level τ) (frames : Frames) : Option Json → List (Match τ)
  | some (.obj fields) =>
    match level.strategy with
    | .literalsOnly => level.literal.filterMap fun (key, child) =>
      (fields.lookup key).bind fun v => child.match? frames ⟨key, some v, .key key⟩
    | strategy => (offers (some (.obj fields))).filterMap (level.claimant? strategy frames)
  | input => (offers input).filterMap (level.claimant? .conflict frames)

/-- The missing keys that are claimed. -/
def missed (level : Level τ) (frames : Frames) (input : Option Json) : List (Match τ) :=
  level.literal.filterMap fun (key, child) =>
    (missingSlot? level.isArray input key).bind fun slot => child.match? frames ⟨key, none, slot⟩

/-- The matches at a level, in the order in which they are walked. -/
def allMatches (missing : Bool) (level : Level τ) (frames : Frames) (input : Option Json) :
    List (Match τ) :=
  level.taken frames input ++ if missing then level.missed frames input else []

end Composite

variable {frames frames' : Frames}

@[simp] theorem firstMatch?_singleton (frames : Frames) (child : Node τ) (offer : Offer) :
    firstMatch? frames [child] offer = child.match? frames offer := by
  rw [firstMatch?, List.findSome?_singleton]

theorem Node.match?_congr (h : frames.map Frame.key = frames'.map Frame.key) (child : Node τ)
    (offer : Offer) : child.match? frames offer = child.match? frames' offer := by
  rw [match?, match?, Element.match?_congr h]

theorem firstMatch?_congr (h : frames.map Frame.key = frames'.map Frame.key)
    (children : List (Node τ)) (offer : Offer) :
    firstMatch? frames children offer = firstMatch? frames' children offer := by
  simp only [firstMatch?, Node.match?_congr h]

namespace Composite

variable {level : Level τ}

theorem claimant?_congr (h : frames.map Frame.key = frames'.map Frame.key) (strategy : Strategy) :
    level.claimant? strategy frames = level.claimant? strategy frames' :=
  funext fun _ => firstMatch?_congr h _ _

theorem taken_congr (h : frames.map Frame.key = frames'.map Frame.key) (input : Option Json) :
    level.taken frames input = level.taken frames' input := by
  cases input with
  | none => rfl
  | some v =>
    cases v with
    | obj fields => cases hs : level.strategy <;> simp only [taken, hs, claimant?_congr h,
        Node.match?_congr h]
    | _ => exact congrArg (List.filterMap · _) (claimant?_congr h _)

theorem missed_congr (h : frames.map Frame.key = frames'.map Frame.key) (input : Option Json) :
    level.missed frames input = level.missed frames' input := by
  simp only [missed, Node.match?_congr h]

/-- Which matches there are depends on the keys of the open levels only. -/
theorem allMatches_congr (h : frames.map Frame.key = frames'.map Frame.key) (missing : Bool)
    (input : Option Json) :
    level.allMatches missing frames input = level.allMatches missing frames' input := by
  rw [allMatches, allMatches, taken_congr h, missed_congr h]

/-- With the literal children and the fields of an object in key order, every strategy claims the
keys of the object in their order, each at most once. -/
theorem taken_obj (hl : Fields.Sorted level.literal) {fields : List (String × Json)}
    (hf : Fields.Sorted fields) (frames : Frames) :
    level.taken frames (some (.obj fields)) =
      (offers (some (.obj fields))).filterMap (level.claimant? level.strategy frames) := by
  cases hs : level.strategy with
  | literalsOnly =>
    simp only [taken, hs]
    rw [Fields.filterMap_join hl hf fun key child v =>
      child.match? frames ⟨key, some v, .key key⟩, offers, List.filterMap_map]
    apply List.filterMap_congr
    rintro ⟨key, v⟩ -
    rw [Function.comp_apply, claimant?, candidates]
    cases level.literal.lookup key with
    | none => rfl
    | some child => exact (firstMatch?_singleton frames child _).symm
  | _ => simp only [taken, hs]

theorem child_mem_of_match? {frames : Frames} {child : Node τ} {offer : Offer} {m : Match τ}
    (hc : child ∈ level.children) (h : child.match? frames offer = some m) :
    m.child ∈ level.children := by
  obtain ⟨key, -, rfl⟩ := Option.map_eq_some_iff.mp h
  exact hc

theorem candidates_subset (key : String) (strategy : Strategy) :
    level.candidates key strategy ⊆ level.children := by
  have hliteral : ∀ child, level.literal.lookup key = some child → child ∈ level.children :=
    fun _ h => mem_children_of_literal (Fields.mem_of_lookup h)
  have hcomputed : level.computed ⊆ level.children := fun _ => mem_children_of_computed
  intro child hc
  cases strategy with
  | literalsOnly => exact hliteral child (Option.mem_toList.mp hc)
  | computedOnly => exact hcomputed hc
  | noConflict =>
    rw [candidates] at hc
    cases hl : level.literal.lookup key with
    | none =>
      rw [hl] at hc
      exact hcomputed hc
    | some named =>
      rw [hl] at hc
      obtain rfl := List.mem_singleton.mp hc
      exact hliteral child hl
  | conflict =>
    rcases List.mem_append.mp hc with hc | hc
    · exact hliteral child (Option.mem_toList.mp hc)
    · exact hcomputed hc

theorem child_mem_of_mem_taken {frames : Frames} {input : Option Json} {m : Match τ}
    (h : m ∈ level.taken frames input) : m.child ∈ level.children := by
  have hoffers : ∀ (strategy : Strategy) {offered : List Offer},
      m ∈ offered.filterMap (level.claimant? strategy frames) → m.child ∈ level.children := by
    intro strategy offered hm
    obtain ⟨offer, -, hm⟩ := List.mem_filterMap.mp hm
    obtain ⟨child, hc, hm⟩ := List.exists_of_findSome?_eq_some hm
    exact child_mem_of_match? (candidates_subset _ _ hc) hm
  cases input with
  | none => cases h
  | some v =>
    cases v with
    | obj fields =>
      rw [taken] at h
      cases hs : level.strategy with
      | literalsOnly =>
        rw [hs] at h
        obtain ⟨⟨key, child⟩, hc, hm⟩ := List.mem_filterMap.mp h
        obtain ⟨v, -, hm⟩ := Option.bind_eq_some_iff.mp hm
        exact child_mem_of_match? (mem_children_of_literal hc) hm
      | _ =>
        rw [hs] at h
        exact hoffers _ h
    | _ => exact hoffers .conflict h

theorem child_mem_of_mem_missed {frames : Frames} {input : Option Json} {m : Match τ}
    (h : m ∈ level.missed frames input) : m.child ∈ level.children := by
  obtain ⟨⟨key, child⟩, hc, hm⟩ := List.mem_filterMap.mp h
  obtain ⟨slot, -, hm⟩ := Option.bind_eq_some_iff.mp hm
  exact child_mem_of_match? (mem_children_of_literal hc) hm

theorem child_mem_of_mem_allMatches {missing : Bool} {frames : Frames} {input : Option Json}
    {m : Match τ} (h : m ∈ level.allMatches missing frames input) : m.child ∈ level.children := by
  rcases List.mem_append.mp h with h | h
  · exact child_mem_of_mem_taken h
  · cases missing with
    | false => cases h
    | true => exact child_mem_of_mem_missed h

end Composite
end Reshape
