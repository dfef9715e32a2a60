import Reshape.Proofs.Shift.Output
import Reshape.Proofs.Spec.Fold
import Reshape.Proofs.Walk.Entry
/-!
# Input that no child matches

A shift without values of levels and without lookups reads the input only where a child takes a
key. An entry of an object under a key that no child takes therefore changes nothing: the leaves
are the same, and the open levels above them have the same keys and counts.
-/
namespace Reshape

open Pattern (Element PathStep WritePath Reference)

variable {τ : Type}

/-! ## What reads the input of an open level -/

def Pattern.Element.readsInput : Element → Bool
  | .value => true
  | .lookup _ => true
  | _ => false

def Pattern.PathStep.readsInput : PathStep → Bool
  | .lookup _ _ => true
  | .indexLookup _ _ => true
  | _ => false

def Pattern.WritePath.readsInput (path : WritePath) : Bool := path.steps.any PathStep.readsInput

/-- An element or a target of the tree reads the input of an open level. -/
def Node.readsInput (node : Node (List WritePath)) : Bool :=
  node.fold (fun element paths => element.readsInput || paths.any WritePath.readsInput)
    fun level => level.element.readsInput || level.children.any id

theorem Node.readsInput_leaf {element : Element} {rawKey : String} {paths : List WritePath}
    (h : (Node.leaf element rawKey paths).readsInput = false) :
    element.readsInput = false ∧ ∀ path ∈ paths, path.readsInput = false := by
  rw [readsInput, fold, Bool.or_eq_false_iff, List.any_eq_false] at h
  exact ⟨h.1, fun path hp => Bool.eq_false_iff.mpr (h.2 path hp)⟩

theorem Node.readsInput_composite {level : Level (List WritePath)}
    (h : (Node.composite level).readsInput = false) :
    level.element.readsInput = false ∧ ∀ child ∈ level.children, child.readsInput = false := by
  rw [readsInput, fold_composite, Bool.or_eq_false_iff, Composite.children_map, List.any_map,
    List.any_eq_false] at h
  exact ⟨h.1, fun child hc => Bool.eq_false_iff.mpr (h.2 child hc)⟩

theorem Node.readsInput_element {node : Node (List WritePath)} (h : node.readsInput = false) :
    node.element.readsInput = false := by
  cases node with
  | leaf element rawKey paths => exact (readsInput_leaf h).1
  | composite level => exact (readsInput_composite h).1

/-! ## Frames up to their inputs -/

namespace Frames

/-- The keys and the counts of the open levels, without their inputs. -/
def labels (frames : Frames) : List (MatchedKey × Nat) :=
  frames.map fun frame => (frame.key, frame.count)

variable {frames frames' : Frames}

theorem keys_of_labels (h : frames.labels = frames'.labels) :
    frames.map Frame.key = frames'.map Frame.key := by
  have hkeys (frames : Frames) : frames.map Frame.key = frames.labels.map Prod.fst := by
    rw [labels, List.map_map]
    rfl
  rw [hkeys, hkeys, h]

theorem labels_push (h : frames.labels = frames'.labels) (key : MatchedKey)
    (input input' : Option Json) :
    (frames.push key input).labels = (frames'.push key input').labels :=
  congrArg ((key, 0) :: ·) h

theorem labels_countBy (h : frames.labels = frames'.labels) (n : Nat) :
    (frames.countBy n).labels = (frames'.countBy n).labels := by
  have hcount (frames : Frames) : (frames.countBy n).labels =
      frames.labels.modifyHead fun label => (label.1, label.2 + n) := by
    cases frames <;> rfl
  rw [hcount, hcount, h]

theorem count_of_labels (h : frames.labels = frames'.labels) (up : Nat) :
    frames[up]?.map Frame.count = frames'[up]?.map Frame.count := by
  have hcount (frames : Frames) : frames[up]?.map Frame.count =
      (frames.labels[up]?).map Prod.snd := by
    rw [labels, List.getElem?_map, Option.map_map]
    rfl
  rw [hcount, hcount, h]

end Frames

namespace Pattern

variable {frames frames' : Frames}

/-- What a special element describes that does not read the input. -/
theorem Element.describe?_labels (h : frames.labels = frames'.labels) {e : Element}
    (he : e.readsInput = false) (input input' : Option Json) :
    e.describe? frames input = e.describe? frames' input' := by
  have hhead : frames.isEmpty = frames'.isEmpty := by
    rw [← List.isEmpty_map (f := fun frame => (frame.key, frame.count)), ← Frames.labels, h,
      Frames.labels, List.isEmpty_map]
  cases frames with
  | nil =>
    obtain rfl := List.isEmpty_iff.mp hhead.symm
    rfl
  | cons frame outer =>
    cases frames' with
    | nil => cases hhead
    | cons frame' outer' =>
      cases e with
      | value | lookup _ => cases he
      | matchedKey r =>
        have hr := r.resolve?_congr (Frames.keys_of_labels h)
        exact congrArg (Option.map Described.text) hr
      | count up =>
        have hcount := congrArg (Option.map fun n => Described.text (toString n))
          (Frames.count_of_labels h up)
        rw [Option.map_map, Option.map_map] at hcount
        exact hcount
      | _ => rfl

/-- A step that does not read the input resolves by the keys and the counts alone. -/
theorem PathStep.resolve?_labels (h : frames.labels = frames'.labels) {step : PathStep}
    (hs : step.readsInput = false) : step.resolve? frames = step.resolve? frames' := by
  have hkeys := Frames.keys_of_labels h
  cases step with
  | lookup _ _ | indexLookup _ _ => cases hs
  | key template =>
    rw [resolve?, resolve?, Template.resolve?, Template.resolve?,
      Template.resolveSegments?_congr hkeys]
  | indexReference r => rw [resolve?, resolve?, r.resolve?_congr hkeys]
  | indexCount up =>
    have hcount := congrArg (Option.bind · indexStep?) (Frames.count_of_labels h up)
    rw [Option.bind_map, Option.bind_map] at hcount
    rw [resolve?, resolve?]
    exact hcount
  | index _ | append => rw [resolve?, resolve?]

theorem WritePath.write_labels (h : frames.labels = frames'.labels) {path : WritePath}
    (hp : path.readsInput = false) (value output : Json) :
    path.write value output frames = path.write value output frames' := by
  have hsteps {steps : List PathStep} (hs : steps.any PathStep.readsInput = false) :
      resolveSteps? frames steps = resolveSteps? frames' steps := by
    induction steps with
    | nil => rw [resolveSteps?, resolveSteps?]
    | cons step rest ih =>
      rw [List.any_cons, Bool.or_eq_false_iff] at hs
      rw [resolveSteps?, resolveSteps?, step.resolve?_labels h hs.1, ih hs.2]
  rw [write, write, resolve?, resolve?, hsteps hp]

end Pattern

/-! ## The leaves below a level -/

/-- Two arrivals with one target that does not read the input, the same data, and the same keys and
counts above them. -/
structure Arrival.WritesAlike (a b : Arrival (List WritePath)) : Prop where
  target_eq : a.target = b.target
  data_eq : a.data = b.data
  labels_eq : a.site.frames.labels = b.site.frames.labels
  paths : ∀ path ∈ a.target, path.readsInput = false

/-- The leaves below a node are alike wherever it is entered with one key, the same data and the
same keys and counts above it. -/
def Node.Steady (node : Node (List WritePath)) : Prop :=
  ∀ {site site' : Site}, site.frames.labels = site'.frames.labels →
    ∀ (key : String) (data input : Option Json), List.Forall₂ Arrival.WritesAlike
      ((node.branch false).arrivals key data input site)
      ((node.branch false).arrivals key data input site')

namespace Composite

theorem claimOf?_labels {frames frames' : Frames} (h : frames.labels = frames'.labels)
    (level : Composite (Branch τ)) : level.claimOf? frames = level.claimOf? frames' := by
  have hmatch (e : Element) (key : String) := e.match?_congr (Frames.keys_of_labels h) key
  funext offer
  simp only [claimOf?, owner?, Branch.accepts, Branch.claim?, hmatch]

variable {level : Level (List WritePath)} {site site' : Site}

/-- The claims of steady children lead to leaves that are alike. -/
theorem claims_alike (hsteady : ∀ child ∈ level.children, child.Steady)
    (hlabels : site.frames.labels = site'.frames.labels) (frames : Frames) (xs : List Offer) :
    List.Forall₂ (fun a b => ∀ n, List.Forall₂ Arrival.WritesAlike
      (a.arrivals (site.counted n)) (b.arrivals (site'.counted n)))
      (xs.filterMap ((branchLevel false level).claimOf? frames))
      (xs.filterMap ((branchLevel false level).claimOf? frames)) := by
  rw [List.forall₂_same]
  intro claim hc n
  obtain ⟨offer, -, hc⟩ := List.mem_filterMap.mp hc
  obtain ⟨branch, hb, hc⟩ := Option.bind_eq_some_iff.mp hc
  obtain ⟨matched, -, rfl⟩ := Option.map_eq_some_iff.mp hc
  obtain ⟨child, hchild, rfl⟩ := owner?_mem hb
  exact hsteady child hchild
    (Frames.labels_push (Frames.labels_countBy hlabels n) matched _ _) _ _ _

/-- The leaves below a level are alike for two inputs if those below its claims are. -/
theorem arrivals_alike (hreads : ∀ child ∈ level.children, child.readsInput = false)
    (hsteady : ∀ child ∈ level.children, child.Steady)
    (hlabels : site.frames.labels = site'.frames.labels) {input input' : Option Json}
    (hclaims : List.Forall₂ (fun a b => ∀ n, List.Forall₂ Arrival.WritesAlike
      (a.arrivals (site.counted n)) (b.arrivals (site'.counted n)))
      ((branchLevel false level).claims site.frames input)
      ((branchLevel false level).claims site'.frames input')) :
    List.Forall₂ Arrival.WritesAlike ((branchLevel false level).arrivals false input site)
      ((branchLevel false level).arrivals false input' site') := by
  refine arrivals_rel ?_ hclaims
  rw [branchLevel_eq, List.forall₂_map_left_iff, List.forall₂_map_right_iff, List.forall₂_same]
  intro child hc
  have hchild := mem_children_of_special hc
  rw [Branch.described, Branch.described, Node.branch_element, Element.describe?_labels hlabels
    (Node.readsInput_element (hreads child hchild)) input input']
  cases child.element.describe? site'.frames input' with
  | none => exact .nil
  | some d => exact hsteady child hchild (Frames.labels_push hlabels _ _ _) _ _ _

end Composite

/-- A node that does not read the input is steady. -/
theorem Node.Compiled.steady {p : Policy (List WritePath)} {node : Node (List WritePath)}
    (h : node.Compiled p) (hreads : node.readsInput = false) : node.Steady := by
  induction h with
  | leaf _ =>
    intro site site' hlabels key data input
    exact .cons ⟨rfl, rfl, hlabels, (readsInput_leaf hreads).2⟩ .nil
  | @composite level _ _ _ _ ih =>
    have hchildren := (readsInput_composite hreads).2
    have hsteady : ∀ child ∈ level.children, child.Steady :=
      fun child hc => ih child hc (hchildren child hc)
    intro site site' hlabels key data input
    refine Composite.arrivals_alike hchildren hsteady hlabels ?_
    rw [Composite.claims, Composite.claims, Composite.claimOf?_labels hlabels]
    exact Composite.claims_alike hsteady hlabels site'.frames (offers input)

/-! ## Levels in the input -/

/-- The child that takes a key, with its match: the literal child of that name or else the first
computed child that matches. -/
def Composite.winner? (level : Level τ) (frames : Frames) (key : String) :
    Option (Node τ × MatchedKey) :=
  ((level.literal.lookup key).toList ++ level.computed).findSome? fun child =>
    (child.element.match? key frames).map fun matched => (child, matched)

/-- On a compiled level an offer is claimed by the child that takes its key. -/
theorem Composite.claimOf?_branchLevel {level : Level τ} (hord : level.Ordered) (missing : Bool)
    (frames : Frames) (offer : Offer) :
    (branchLevel missing level).claimOf? frames offer =
      (level.winner? frames offer.key).map fun taken =>
        ⟨taken.1.branch missing, offer, taken.2⟩ := by
  rw [claimOf?, owner?_branchLevel hord, winner?]
  cases hl : level.literal.lookup offer.key with
  | some child =>
    have he : child.element = .literal offer.key :=
      hord.literal_element _ (Fields.mem_of_lookup hl)
    have hmatch : child.element.match? offer.key frames = some (.plain offer.key) := by
      rw [he, Element.match?_literal]
    rw [Option.toList_some, List.singleton_append, List.findSome?_cons, hmatch, Option.map_some,
      Option.some_or, Option.bind_some, Branch.claim?, Node.branch_element, hmatch]
    rfl
  | none =>
    rw [Option.toList_none, List.nil_append, Option.map_none, Option.none_or]
    induction level.computed with
    | nil => rfl
    | cons child rest ih =>
      rw [List.map_cons, List.find?_cons, List.findSome?_cons, Branch.accepts,
        Node.branch_element]
      cases hm : child.element.match? offer.key frames with
      | none => exact ih
      | some matched =>
        rw [Option.isSome_some, Option.bind_some, Branch.claim?, Node.branch_element, hm]
        rfl

/-- The key that a step of an address is offered as. -/
def Step.offered? : Step → Option String
  | .key name => some name
  | .index position => some (toString position)
  | .append => none

/-- The level that processes the value at an address below the value of a level, and the levels
open there. Their counts are left at zero, since nothing that matches reads them. -/
def Composite.processing? (level : Level τ) (frames : Frames) (value : Json) :
    Address → Option (Level τ × Frames)
  | [] => some (level, frames)
  | step :: rest => do
    let inner ← value.member? step
    let key ← step.offered?
    match ← level.winner? frames key with
    | (.leaf _ _ _, _) => none
    | (.composite child, matched) =>
      child.processing? (frames.push matched (some inner)) inner rest

/-- The second document has one more entry than the first one, in the object at an address. -/
inductive Json.Gains (key : String) (value : Json) : Address → Json → Json → Prop
  | entry {before after : List (String × Json)} :
    Json.Gains key value [] (.obj (before ++ after)) (.obj (before ++ (key, value) :: after))
  | field {address : Address} {name : String} {v w : Json} {before after : List (String × Json)}
    (inner : Json.Gains key value address v w) :
    Json.Gains key value (.key name :: address) (.obj (before ++ (name, v) :: after))
      (.obj (before ++ (name, w) :: after))
  | element {address : Address} {v w : Json} {before after : List Json}
    (inner : Json.Gains key value address v w) :
    Json.Gains key value (.index before.length :: address) (.arr (before ++ v :: after))
      (.arr (before ++ w :: after))

section Gains

variable {p : Policy (List WritePath)} {key : String} {value : Json} {address : Address}
  {smaller larger : Json} {level target : Level (List WritePath)} {frames below : Frames}
  {site site' : Site}

/-- If all offers but one stay as they are, and the leaves below the child that takes that one are
alike, then so are those below the level. -/
theorem Composite.arrivals_alike_at (hlevel : level.Compiled p)
    (hreads : ∀ child ∈ level.children, child.readsInput = false)
    (hlabels : site.frames.labels = site'.frames.labels) {input input' : Option Json}
    {before after : List Offer} {o o' : Offer} (hoffers : offers input = before ++ o :: after)
    (hoffers' : offers input' = before ++ o' :: after) (hkey : o.key = o'.key)
    {child : Node (List WritePath)} {matched : MatchedKey}
    (hwinner : level.winner? site.frames o.key = some (child, matched))
    (hbelow : ∀ n, List.Forall₂ Arrival.WritesAlike
      ((child.branch false).arrivals o.key o.input o.input
        ((site.counted n).enter child.element o.slot matched o.input))
      ((child.branch false).arrivals o'.key o'.input o'.input
        ((site'.counted n).enter child.element o'.slot matched o'.input))) :
    List.Forall₂ Arrival.WritesAlike ((branchLevel false level).arrivals false input site)
      ((branchLevel false level).arrivals false input' site') := by
  have hsteady : ∀ child ∈ level.children, child.Steady :=
    fun child hc => (hlevel.children child hc).steady (hreads child hc)
  have hclaim := claimOf?_branchLevel hlevel.ordered false site.frames o
  have hclaim' := claimOf?_branchLevel hlevel.ordered false site.frames o'
  rw [hwinner] at hclaim
  rw [← hkey, hwinner] at hclaim'
  refine arrivals_alike hreads hsteady hlabels ?_
  rw [claims, claims, ← claimOf?_labels hlabels, hoffers, hoffers', List.filterMap_append,
    List.filterMap_append, List.filterMap_cons_some hclaim, List.filterMap_cons_some hclaim']
  refine List.rel_append (claims_alike hsteady hlabels _ before)
    (.cons ?_ (claims_alike hsteady hlabels _ after))
  intro n
  rw [Claim.arrivals, Claim.arrivals, Node.branch_element]
  exact hbelow n

/-- An entry that no child takes changes none of the leaves below a level. -/
theorem Composite.arrivals_entry (hlevel : level.Compiled p)
    (hreads : ∀ child ∈ level.children, child.readsInput = false)
    (hlabels : site.frames.labels = site'.frames.labels) {before after : List (String × Json)}
    (hunmatched : level.winner? site.frames key = none) :
    List.Forall₂ Arrival.WritesAlike
      ((branchLevel false level).arrivals false (some (.obj (before ++ after))) site)
      ((branchLevel false level).arrivals false
        (some (.obj (before ++ (key, value) :: after))) site') := by
  have hsteady : ∀ child ∈ level.children, child.Steady :=
    fun child hc => (hlevel.children child hc).steady (hreads child hc)
  have hnone := claimOf?_branchLevel hlevel.ordered false site.frames ⟨key, some value, .key key⟩
  rw [hunmatched, Option.map_none] at hnone
  have hoffers : (offers (some (.obj (before ++ (key, value) :: after)))).filterMap
      ((branchLevel false level).claimOf? site.frames) =
        (offers (some (.obj (before ++ after)))).filterMap
          ((branchLevel false level).claimOf? site.frames) := by
    rw [offers, offers, List.map_append, List.map_append, List.map_cons, List.filterMap_append,
      List.filterMap_append, List.filterMap_cons_none hnone]
  refine arrivals_alike hreads hsteady hlabels ?_
  rw [claims, claims, ← claimOf?_labels hlabels, hoffers]
  exact claims_alike hsteady hlabels _ _

theorem Composite.winner?_congr {frames' : Frames}
    (h : frames.map Frame.key = frames'.map Frame.key) (level : Level τ) (key : String) :
    level.winner? frames key = level.winner? frames' key := by
  have hmatch (e : Element) := e.match?_congr h key
  simp only [winner?, hmatch]

theorem Composite.winner?_mem {level : Level τ} {child : Node τ} {matched : MatchedKey}
    (h : level.winner? frames key = some (child, matched)) : child ∈ level.children := by
  obtain ⟨taken, hm, htaken⟩ := List.exists_of_findSome?_eq_some h
  obtain ⟨_, -, he⟩ := Option.map_eq_some_iff.mp htaken
  obtain ⟨rfl, -⟩ := Prod.mk.inj he
  rcases List.mem_append.mp hm with hl | hc
  · exact mem_children_of_literal (Fields.mem_of_lookup (Option.mem_toList.mp hl))
  · exact mem_children_of_computed hc

/-- The level that processes a value one step down. -/
theorem Composite.processing?_cons {level target : Level τ} {step : Step}
    (h : level.processing? frames smaller (step :: address) = some (target, below)) :
    ∃ inner key child matched, smaller.member? step = some inner ∧ step.offered? = some key ∧
      level.winner? frames key = some (.composite child, matched) ∧
      child.processing? (frames.push matched (some inner)) inner address =
        some (target, below) := by
  rw [processing?] at h
  obtain ⟨inner, hinner, h⟩ := Option.bind_eq_some_iff.mp h
  obtain ⟨key, hkey, h⟩ := Option.bind_eq_some_iff.mp h
  obtain ⟨⟨node, matched⟩, hwinner, h⟩ := Option.bind_eq_some_iff.mp h
  cases node with
  | leaf _ _ _ => cases h
  | composite child => exact ⟨inner, key, child, matched, hinner, hkey, hwinner, h⟩

/-- The leaves below a level are alike if those are below the level that processes the value of one
of its offers, and the other offers stay as they are. -/
theorem Composite.arrivals_alike_step (hlevel : level.Compiled p)
    (hreads : ∀ child ∈ level.children, child.readsInput = false) {step : Step} {v w : Json}
    {text : String} {slot : Slot} {before after : List Offer}
    (hprocessing : level.processing? frames smaller (step :: address) = some (target, below))
    (hmember : smaller.member? step = some v) (htext : step.offered? = some text)
    (hkeys : frames.map Frame.key = site.frames.map Frame.key)
    (hlabels : site.frames.labels = site'.frames.labels)
    (hoffers : offers (some smaller) = before ++ ⟨text, some v, slot⟩ :: after)
    (hoffers' : offers (some larger) = before ++ ⟨text, some w, slot⟩ :: after)
    (hbelow : ∀ {level : Level (List WritePath)} {frames : Frames} {site site' : Site},
      level.Compiled p → (∀ child ∈ level.children, child.readsInput = false) →
      level.processing? frames v address = some (target, below) →
      frames.map Frame.key = site.frames.map Frame.key →
      site.frames.labels = site'.frames.labels →
      List.Forall₂ Arrival.WritesAlike ((branchLevel false level).arrivals false (some v) site)
        ((branchLevel false level).arrivals false (some w) site')) :
    List.Forall₂ Arrival.WritesAlike
      ((branchLevel false level).arrivals false (some smaller) site)
      ((branchLevel false level).arrivals false (some larger) site') := by
  obtain ⟨inner, key, child, matched, hinner, hkey, hwinner, hchild⟩ :=
    processing?_cons hprocessing
  obtain rfl := Option.some.inj (hmember.symm.trans hinner)
  obtain rfl := Option.some.inj (htext.symm.trans hkey)
  rw [winner?_congr hkeys] at hwinner
  have hmem := winner?_mem hwinner
  have hcompiled : child.Compiled p := by
    cases hlevel.children _ hmem with
    | composite _ _ ordered children => exact ⟨ordered, children⟩
  have hchildReads := (Node.readsInput_composite (hreads _ hmem)).2
  refine arrivals_alike_at hlevel hreads hlabels hoffers hoffers' rfl hwinner fun n => ?_
  refine hbelow hcompiled hchildReads hchild ?_ ?_
  · exact congrArg (matched :: ·) (hkeys.trans (Frames.keys_countBy n site.frames).symm)
  · exact Frames.labels_push (Frames.labels_countBy hlabels n) matched _ _

theorem Json.Gains.arrivals_alike (hgains : Json.Gains key value address smaller larger) :
    ∀ {level : Level (List WritePath)} {frames : Frames} {site site' : Site},
      level.Compiled p → (∀ child ∈ level.children, child.readsInput = false) →
      smaller.WellFormed →
      level.processing? frames smaller address = some (target, below) →
      target.winner? below key = none →
      frames.map Frame.key = site.frames.map Frame.key →
      site.frames.labels = site'.frames.labels →
      List.Forall₂ Arrival.WritesAlike
        ((branchLevel false level).arrivals false (some smaller) site)
        ((branchLevel false level).arrivals false (some larger) site') := by
  induction hgains with
  | entry =>
    intro level frames site site' hlevel hreads _ hprocessing hunmatched hkeys hlabels
    obtain ⟨rfl, rfl⟩ := Prod.mk.inj (Option.some.inj hprocessing)
    rw [Composite.winner?_congr hkeys] at hunmatched
    exact Composite.arrivals_entry hlevel hreads hlabels hunmatched
  | @field address name v w before after _ ih =>
    intro level frames site site' hlevel hreads hwell hprocessing hunmatched hkeys hlabels
    have hbefore := (List.pairwise_append.mp hwell.sorted).2.2
    have hlookup : (before ++ (name, v) :: after).lookup name = some v :=
      Fields.lookup_split (fun field hf => hbefore field hf (name, v) List.mem_cons_self) v
    have hv : v.WellFormed := hwell.field (List.mem_append_right _ List.mem_cons_self)
    refine Composite.arrivals_alike_step hlevel hreads hprocessing hlookup rfl hkeys hlabels
      List.map_append List.map_append ?_
    intro level frames site site' hlevel hreads hprocessing hkeys hlabels
    exact ih hlevel hreads hv hprocessing hunmatched hkeys hlabels
  | @element address v w before after _ ih =>
    intro level frames site site' hlevel hreads hwell hprocessing hunmatched hkeys hlabels
    have hget : (before ++ v :: after)[before.length]? = some v := by simp
    have hv : v.WellFormed := hwell.element (List.mem_append_right _ List.mem_cons_self)
    have hoffers (v : Json) : offers (some (.arr (before ++ v :: after))) =
        (before.zipIdx.map fun entry => ⟨toString entry.2, some entry.1, .index entry.2⟩) ++
          ⟨toString before.length, some v, .index before.length⟩ ::
            (after.zipIdx (before.length + 1)).map fun entry =>
              ⟨toString entry.2, some entry.1, .index entry.2⟩ := by
      rw [offers, List.zipIdx_append, List.map_append, List.zipIdx_cons, Nat.zero_add]
      rfl
    refine Composite.arrivals_alike_step hlevel hreads hprocessing hget rfl hkeys hlabels
      (hoffers v) (hoffers w) ?_
    intro level frames site site' hlevel hreads hprocessing hkeys hlabels
    exact ih hlevel hreads hv hprocessing hunmatched hkeys hlabels

end Gains

namespace Operation

variable {config : Config} {raw smaller larger : Json} {spec : CompiledSpec (List WritePath)}

/-- A visit with the same data, keys and counts writes the same to targets that do not read the
input. -/
theorem outputAfter_alike {a b : Arrival (List WritePath)} (h : a.WritesAlike b) (output : Json) :
    Outcome.outputAfter shift.decide output b.visit =
      Outcome.outputAfter shift.decide output a.visit := by
  rw [outputAfter_visit, outputAfter_visit, ← h.data_eq, ← h.target_eq]
  cases a.data with
  | none => rfl
  | some data =>
    dsimp only [Option.elim_some]
    rw [Outcome.writeAll, Outcome.writeAll]
    have hpaths := h.paths
    generalize a.target = paths at hpaths
    induction paths generalizing output with
    | nil => rfl
    | cons path rest ih =>
      obtain ⟨hpath, hrest⟩ := List.forall_mem_cons.mp hpaths
      rw [List.foldl_cons, List.foldl_cons, path.write_labels h.labels_eq hpath]
      exact ih _ hrest

/-- **Unmatched input does not influence a shift.** If a compiled spec has no value of a level and
no lookup, then an entry added to an object that one of its levels processes, under a key that no
child of the level takes, does not change the result. -/
theorem applyShift_gains {key : String} {value : Json} {address : Address}
    {level : Level (List WritePath)} {frames : Frames}
    (h : CompiledSpec.compile shift raw config = .ok spec)
    (hreads : (Node.composite spec.root).readsInput = false)
    (hsmaller : smaller.WellFormed) (hlarger : larger.WellFormed)
    (hgains : Json.Gains key value address smaller larger)
    (hprocessing : spec.root.processing? (Frames.push [] (.plain spec.rootKey) (some smaller))
      smaller address = some (level, frames))
    (hunmatched : level.winner? frames key = none) :
    applyShift spec larger = applyShift spec smaller := by
  obtain ⟨hpolicy, -, hroot⟩ := CompiledSpec.of_compile h
  refine applyShift_eq_of_arrivals h h rfl hsmaller hlarger (A := Arrival.WritesAlike) ?_
    fun a b _ hab => outputAfter_alike hab
  rw [CompiledSpec.arrivals, CompiledSpec.arrivals, hpolicy]
  exact hgains.arrivals_alike hroot (Node.readsInput_composite hreads).2 hsmaller hprocessing
    hunmatched rfl rfl

/-- A new first entry of an object in a list, below whose keys the counts of the matches before them
become indices. -/
theorem applyShift_gains_first : ∃ spec level frames,
    CompiledSpec.compile shift
      (.obj [("*", .obj [("*", .obj [("n-*", .str "out[#1].&(0,1)")])])]) {} = .ok spec ∧
    (Node.composite spec.root).readsInput = false ∧
    (Json.obj [("x", .arr [.obj [("n-a", .bool true), ("n-b", .null)]])]).WellFormed ∧
    (Json.obj [("x", .arr [.obj [("m", .str "new"), ("n-a", .bool true),
      ("n-b", .null)]])]).WellFormed ∧
    Json.Gains "m" (.str "new") [.key "x", .index 0]
      (.obj [("x", .arr [.obj [("n-a", .bool true), ("n-b", .null)]])])
      (.obj [("x", .arr [.obj [("m", .str "new"), ("n-a", .bool true), ("n-b", .null)]])]) ∧
    spec.root.processing?
      (Frames.push [] (.plain spec.rootKey)
        (some (.obj [("x", .arr [.obj [("n-a", .bool true), ("n-b", .null)]])])))
      (.obj [("x", .arr [.obj [("n-a", .bool true), ("n-b", .null)]])]) [.key "x", .index 0] =
        some (level, frames) ∧
    level.winner? frames "m" = none ∧
    applyShift spec (.obj [("x", .arr [.obj [("m", .str "new"), ("n-a", .bool true),
      ("n-b", .null)]])]) =
      applyShift spec (.obj [("x", .arr [.obj [("n-a", .bool true), ("n-b", .null)]])]) := by
  have hcomputed : ((CompiledSpec.compile shift
      (.obj [("*", .obj [("*", .obj [("n-*", .str "out[#1].&(0,1)")])])]) {}).toOption.map
        fun spec => ((Node.composite spec.root).readsInput,
          (spec.root.processing?
            (Frames.push [] (.plain spec.rootKey)
              (some (.obj [("x", .arr [.obj [("n-a", .bool true), ("n-b", .null)]])])))
            (.obj [("x", .arr [.obj [("n-a", .bool true), ("n-b", .null)]])])
            [.key "x", .index 0]).map fun found =>
              (found.1.winner? found.2 "m").isNone)) = some (false, some true) := by
    decide +kernel
  have hsmaller :
      (Json.obj [("x", .arr [.obj [("n-a", .bool true), ("n-b", .null)]])]).WellFormed :=
    ⟨by decide, ⟨⟨by decide, trivial, trivial, trivial⟩, trivial⟩, trivial⟩
  have hlarger : (Json.obj [("x", .arr [.obj [("m", .str "new"), ("n-a", .bool true),
      ("n-b", .null)]])]).WellFormed :=
    ⟨by decide, ⟨⟨by decide, trivial, trivial, trivial, trivial⟩, trivial⟩, trivial⟩
  have hgains : Json.Gains "m" (.str "new") [.key "x", .index 0]
      (.obj [("x", .arr [.obj [("n-a", .bool true), ("n-b", .null)]])])
      (.obj [("x", .arr [.obj [("m", .str "new"), ("n-a", .bool true), ("n-b", .null)]])]) :=
    @Json.Gains.field _ _ _ _ _ _ [] _
      (@Json.Gains.element _ _ _ _ _ [] _ (@Json.Gains.entry _ _ [] _))
  obtain ⟨spec, hspec, hfound⟩ := CompiledSpec.exists_of_map hcomputed
  obtain ⟨hreads, hlevel⟩ := Prod.mk.inj hfound
  obtain ⟨⟨level, frames⟩, hprocessing, hnone⟩ := Option.map_eq_some_iff.mp hlevel
  have hunmatched : level.winner? frames "m" = none := Option.isNone_iff_eq_none.mp hnone
  exact ⟨spec, level, frames, hspec, hreads, hsmaller, hlarger, hgains, hprocessing, hunmatched,
    applyShift_gains hspec hreads hsmaller hlarger hgains hprocessing hunmatched⟩

end Operation
end Reshape
