import Reshape.Proofs.Edit.Filled
import Reshape.Proofs.Walk.Place
import Reshape.Proofs.Walk.Visits
/-!
# The edits of a default spec

A walk for a default spec sets at its visits what the compiled tree fills in, in the same order. So
what defaults make of a document is the document with the root level filled.
-/
namespace Reshape

open Pattern (Element)
open Operation (default acceptsDefault applyDefault)

/-! ## Elements of default specs -/

theorem acceptsDefault_of_allows {e : Element} (h : Policy.Allows default e) :
    acceptsDefault e = true := by
  obtain ⟨location, hv⟩ := h
  exact Policy.accepts_of_ok hv

theorem isSpecial_of_acceptsDefault {e : Element} (h : acceptsDefault e = true) :
    e.isSpecial = false := by
  cases e with
  | literal _ | any | glob _ => rfl
  | _ => cases h

/-- Keys of default specs match alike whatever the levels above are. -/
theorem match?_of_acceptsDefault {e : Element} (h : acceptsDefault e = true) (key : String)
    (frames : Frames) : e.match? key frames = e.match? key [] := by
  cases e with
  | literal _ | any | glob _ => rfl
  | _ => cases h

theorem Node.Compiled.accepts_default {node : Node Json} (h : node.Compiled default) :
    acceptsDefault node.element = true := by
  cases h with
  | leaf allowed => exact acceptsDefault_of_allows allowed
  | composite allowed _ _ _ => exact acceptsDefault_of_allows allowed

/-- A level of a default spec has no special children. -/
theorem special_eq_nil {level : Level Json} (hord : level.Ordered)
    (hchildren : ∀ child ∈ level.children, child.Compiled default) : level.special = [] := by
  refine List.eq_nil_iff_forall_not_mem.mpr fun child hc => ?_
  have haccepts := (hchildren child (Composite.mem_children_of_special hc)).accepts_default
  have hspecial := hord.special_role child hc
  rw [isSpecial_of_acceptsDefault haccepts] at hspecial
  cases hspecial

/-! ## What a walk sets -/

/-- The values that visits of a default spec set, at their places. -/
def Outcome.sets (visits : List (Visit Json)) : List (Address × Json) :=
  visits.filterMap fun v => (edit? v (default.decide v)).bind replacement?

/-- What is set below a level by setting values below a child at a slot of it. -/
def Slot.below (slot : Slot) (fills : List (Address × Json)) : List (Address × Json) :=
  match slot with
  | .key name => Step.lower (.key name) fills
  | .index position => Step.lower (.index position) fills
  | .same => fills
  | .detached => []

namespace Walk

/-- Values set below the place of a walk, if it is at one. -/
def placed (w : Walk Json) (fills : List (Address × Json)) : List (Address × Json) :=
  match w.location with
  | some location => fills.map fun (below, value) => (location ++ below, value)
  | none => []

/-- The second walk is at the level of the first one, after visits that set values below it. -/
structure Fills (w w' : Walk Json) (fills : List (Address × Json)) : Prop where
  trail : w'.trail = w.trail
  detached : w'.detached = w.detached
  visits : ∃ visits : List (Visit Json), w.Adds w' visits ∧ Outcome.sets visits = w.placed fills

variable {w w' w'' : Walk Json} {fills more : List (Address × Json)}

@[simp] theorem placed_nil (w : Walk Json) : w.placed [] = [] := by
  rw [placed]
  split <;> rfl

@[simp] theorem placed_append (w : Walk Json) (fills more : List (Address × Json)) :
    w.placed (fills ++ more) = w.placed fills ++ w.placed more := by
  rw [placed, placed, placed]
  split
  · exact List.map_append
  · rfl

theorem Fills.placed_eq (h : w.Fills w' fills) (more : List (Address × Json)) :
    w'.placed more = w.placed more := by
  rw [placed, placed, location, location, h.trail, h.detached]

theorem Fills.refl (w : Walk Json) : w.Fills w [] :=
  ⟨rfl, rfl, [], .refl w, w.placed_nil.symm⟩

theorem Fills.trans (h : w.Fills w' fills) (h' : w'.Fills w'' more) :
    w.Fills w'' (fills ++ more) := by
  obtain ⟨visits, hadds, hsets⟩ := h.visits
  obtain ⟨visits', hadds', hsets'⟩ := h'.visits
  refine ⟨h'.trail.trans h.trail, h'.detached.trans h.detached, visits ++ visits',
    hadds.trans hadds', ?_⟩
  rw [placed_append, ← hsets, ← h.placed_eq, ← hsets']
  exact List.filterMap_append

theorem placed_enter (w : Walk Json) (slot : Slot) (key : MatchedKey) (input : Option Json)
    (fills : List (Address × Json)) :
    (w.enter slot key input).placed fills = w.placed (slot.below fills) := by
  have hstep (step : Step) :
      (match if w.detached = 0 then some (step :: w.trail).reverse else none with
        | some location => fills.map fun (below, value) => (location ++ below, value)
        | none => []) = w.placed (step.lower fills) := by
    rw [placed, location]
    split_ifs
    · simp [Step.lower, Function.comp_def]
    · rfl
  cases slot with
  | key name => exact hstep (.key name)
  | index position => exact hstep (.index position)
  | same => rfl
  | detached => exact w.placed_nil.symm

/-- Entering a child, leaving it and counting the match. -/
theorem Fills.entered {slot : Slot} {key : MatchedKey} {input : Option Json}
    (h : (w.enter slot key input).Fills w' fills) :
    w.Fills (w'.leave slot).count (slot.below fills) := by
  obtain ⟨visits, hadds, hsets⟩ := h.visits
  refine ⟨?_, ?_, visits, hadds.entered, hsets.trans (w.placed_enter slot key input fills)⟩
  · have htrail := h.trail
    cases slot <;> first | exact htrail | exact congrArg List.tail htrail
  · have hdetached := h.detached
    cases slot <;> first | exact hdetached | exact congrArg (· - 1) hdetached

/-- A visit sets the value of its leaf if there is null or nothing. -/
theorem Fills.visit (w : Walk Json) (element : Element) (rawKey : String) (target : Json)
    (key : String) (data : Option Json) :
    w.Fills (w.visit element target key data)
      ((Node.leaf element rawKey target).filler.fills (data.getD .null)) := by
  let here : Visit Json := ⟨element, target, key, data, w.frames, w.location⟩
  have hsets : Outcome.sets [here] =
      w.placed ((Node.leaf element rawKey target).filler.fills (data.getD .null)) := by
    have hset : default.decide here = .replace target →
        Outcome.sets [here] = w.placed [([], target)] := by
      intro hdecision
      rw [Outcome.sets, List.filterMap_cons, List.filterMap_nil, hdecision, placed]
      cases hl : w.location with
      | none => simp only [Outcome.edit?, here, hl, Option.map_none, Option.bind_none]
      | some location =>
        simp only [Outcome.edit?, here, hl, Option.map_some, Option.bind_some,
          Outcome.replacement?, List.map_cons, List.map_nil, List.append_nil]
    cases data with
    | none => exact hset rfl
    | some v =>
      cases v with
      | null => exact hset rfl
      | _ => exact w.placed_nil.symm
  exact ⟨rfl, rfl, [here], .visit w element target key data, hsets⟩

/-- A pass whose steps fill holes fills these in order. -/
theorem Fills.foldl {α : Type} {step : Walk Json → α → Walk Json} {hole? : α → Option Hole}
    {xs : List α} (h : ∀ x ∈ xs, ∀ w : Walk Json,
      w.Fills (step w x) (((hole? x).map fun hole => hole.group.all).getD [])) (w : Walk Json) :
    w.Fills (xs.foldl step w) (((xs.filterMap hole?).map Hole.group).flatMap Json.Group.all) := by
  induction xs generalizing w with
  | nil => exact .refl w
  | cons x xs ih =>
    have hfirst := h x List.mem_cons_self w
    have hrest := ih (fun y hy => h y (List.mem_cons_of_mem x hy)) (step w x)
    cases hx : hole? x with
    | none =>
      rw [hx] at hfirst
      rw [List.filterMap_cons_none hx]
      exact hfirst.trans hrest
    | some hole =>
      rw [hx] at hfirst
      rw [List.filterMap_cons_some hx]
      exact hfirst.trans hrest

end Walk

/-- Offer a key to the literal child of its name, or else to the computed children. -/
def Composite.offer {τ : Type} (level : Level τ) (offer : Offer) (w : Walk τ) : Walk τ :=
  match claimNamed? true level.literal offer w with
  | some w => w
  | none => (claimFirst? true level.computed offer w).getD w

/-- A node of a default spec claims the keys that its element matches, and its walk sets what the
node fills in. -/
structure Node.Sets (node : Node Json) : Prop where
  accepts : acceptsDefault node.element = true
  claims : ∀ (offer : Offer) (w : Walk Json),
    (node.claim? true offer w).isSome = (node.element.match? offer.key []).isSome
  fills : ∀ {offer : Offer} {w w' : Walk Json}, node.claim? true offer w = some w' →
    w.Fills w' (offer.slot.below (node.filler.fills (offer.input.getD .null)))

section Level

variable {level : Level Json} {w : Walk Json}

/-- A node that matches a key claims it. -/
theorem Node.Sets.claimed {node : Node Json} (h : node.Sets) {offer : Offer}
    (hmatch : (node.element.match? offer.key []).isSome = true) (w : Walk Json) :
    ∃ w', node.claim? true offer w = some w' ∧
      w.Fills w' (offer.slot.below (node.filler.fills (offer.input.getD .null))) := by
  have hsome := (h.claims offer w).trans hmatch
  obtain ⟨w', hw'⟩ := Option.isSome_iff_exists.mp hsome
  exact ⟨w', hw', h.fills hw'⟩

theorem claimFirst?_fills {nodes : List (Node Json)} (hsets : ∀ node ∈ nodes, node.Sets)
    (offer : Offer) (w : Walk Json) :
    w.Fills ((claimFirst? true nodes offer w).getD w)
      ((((nodes.map Node.filler).find? fun filler =>
        (filler.element.match? offer.key []).isSome).map fun filler =>
          offer.slot.below (filler.fills (offer.input.getD .null))).getD []) := by
  induction nodes with
  | nil => exact .refl w
  | cons node rest ih =>
    obtain ⟨hnode, hrest⟩ := List.forall_mem_cons.mp hsets
    rw [claimFirst?, List.map_cons, List.find?_cons, Node.filler_element]
    cases hmatch : (node.element.match? offer.key []).isSome with
    | true =>
      obtain ⟨w', hclaim, hfills⟩ := hnode.claimed hmatch w
      rw [hclaim]
      exact hfills
    | false =>
      have hnone : node.claim? true offer w = none := by
        have hclaims := hnode.claims offer w
        rw [hmatch] at hclaims
        exact Option.isNone_iff_eq_none.mp (Option.isSome_eq_false_iff.mp hclaims)
      rw [hnone]
      exact ih hrest

/-- A literal child fills in what is offered to it. -/
theorem claim?_literal_fills (hord : level.Ordered) (hsets : ∀ child ∈ level.children, child.Sets)
    {key : String} {child : Node Json} (hm : (key, child) ∈ level.literal) (input : Option Json)
    (slot : Slot) (w : Walk Json) :
    ∃ w', child.claim? true ⟨key, input, slot⟩ w = some w' ∧
      w.Fills w' (slot.below (child.filler.fills (input.getD .null))) := by
  have helement : child.element = .literal key := hord.literal_element (key, child) hm
  refine (hsets child (Composite.mem_children_of_literal hm)).claimed ?_ w
  rw [helement, Element.match?_literal]
  rfl

/-- What takes a key of a level fills in what is offered with it. -/
theorem offer_fills (hord : level.Ordered) (hsets : ∀ child ∈ level.children, child.Sets)
    (offer : Offer) (w : Walk Json) :
    w.Fills (level.offer offer w) ((((level.map Node.filler).taker? offer.key).map fun filler =>
      offer.slot.below (filler.fills (offer.input.getD .null))).getD []) := by
  rw [Composite.offer, claimNamed?_eq, Composite.taker?, Composite.map]
  dsimp only
  rw [Fields.lookup_map]
  cases hl : level.literal.lookup offer.key with
  | none =>
    exact claimFirst?_fills (fun node hn => hsets node (Composite.mem_children_of_computed hn))
      offer w
  | some child =>
    obtain ⟨w', hclaim, hfills⟩ := claim?_literal_fills hord hsets (Fields.mem_of_lookup hl)
      offer.input offer.slot w
    rw [Option.bind_some, hclaim]
    exact hfills

/-- Without computed children every literal child fills in the field of its name. -/
theorem literals_fill (hord : level.Ordered) (hsets : ∀ child ∈ level.children, child.Sets)
    (hcomputed : level.computed = []) (fields : List (String × Json)) (w : Walk Json) :
    w.Fills (claimEach true level.literal fields w)
      ((((level.map Node.filler).present (.obj fields)).map Hole.group).flatMap
        Json.Group.all) := by
  have hempty : (level.map Node.filler).computed.isEmpty = true := by
    rw [Composite.map, hcomputed]
    rfl
  rw [Composite.present, if_pos hempty, claimEach_eq, Composite.map, List.filterMap_map]
  refine Walk.Fills.foldl ?_ w
  rintro ⟨key, child⟩ hm w
  dsimp only [Function.comp_apply]
  cases hl : fields.lookup key with
  | none => exact .refl w
  | some v =>
    obtain ⟨w', hclaim, hfills⟩ := claim?_literal_fills hord hsets hm (some v) (.key key) w
    rw [Option.bind_some, hclaim]
    exact hfills

/-- Without literal children every field is filled in by the first computed child that matches. -/
theorem computed_fill (hord : level.Ordered) (hsets : ∀ child ∈ level.children, child.Sets)
    (hliteral : level.literal = []) (hcomputed : level.computed ≠ [])
    (fields : List (String × Json)) (w : Walk Json) :
    w.Fills
      (fields.foldl (fun w field =>
        (claimFirst? true level.computed ⟨field.1, some field.2, .key field.1⟩ w).getD w) w)
      ((((level.map Node.filler).present (.obj fields)).map Hole.group).flatMap
        Json.Group.all) := by
  have hempty : ¬ (level.map Node.filler).computed.isEmpty = true := by
    rw [Composite.map, List.isEmpty_map, List.isEmpty_iff]
    exact hcomputed
  rw [Composite.present, if_neg hempty]
  refine Walk.Fills.foldl ?_ w
  rintro ⟨key, v⟩ - w
  have hoffer := offer_fills hord hsets ⟨key, some v, .key key⟩ w
  rw [Composite.offer, hliteral] at hoffer
  dsimp only
  rw [Option.map_map]
  exact hoffer

/-- Every element of a list is filled in by the child that takes its index. -/
theorem elements_fill (hord : level.Ordered) (hsets : ∀ child ∈ level.children, child.Sets)
    (elements : List Json) (w : Walk Json) :
    w.Fills
      (elements.zipIdx.foldl (fun w element =>
        level.offer ⟨toString element.2, some element.1, .index element.2⟩ w) w)
      ((((level.map Node.filler).present (.arr elements)).map Hole.group).flatMap
        Json.Group.all) := by
  refine Walk.Fills.foldl ?_ w
  rintro ⟨v, position⟩ - w
  have hoffer := offer_fills hord hsets ⟨toString position, some v, .index position⟩ w
  dsimp only
  rw [Option.map_map]
  exact hoffer

/-- A scalar taken as a key is nowhere in the document, so nothing is set below it. -/
theorem scalar_fill (hord : level.Ordered) (hsets : ∀ child ∈ level.children, child.Sets)
    (key : String) (w : Walk Json) :
    w.Fills (level.offer ⟨key, some .null, .detached⟩ w) [] := by
  have hoffer := offer_fills hord hsets ⟨key, some .null, .detached⟩ w
  cases htake : (level.map Node.filler).taker? key with
  | none =>
    rw [htake] at hoffer
    exact hoffer
  | some filler =>
    rw [htake] at hoffer
    exact hoffer

/-- The members that an input lacks are filled in. -/
theorem missing_fill (hord : level.Ordered) (hsets : ∀ child ∈ level.children, child.Sets)
    (input : Option Json) (w : Walk Json) :
    w.Fills (claimMissing true level.isArray level.literal input w)
      ((((level.map Node.filler).lacking (input.getD .null)).map Hole.group).flatMap
        Json.Group.all) := by
  have hslot : ∀ key, missingSlot? level.isArray input key =
      missingSlot? level.isArray (some (input.getD .null)) key := by
    intro key
    cases input <;> rfl
  rw [claimMissing_eq, Composite.lacking, Composite.map, List.filterMap_map]
  refine Walk.Fills.foldl ?_ w
  rintro ⟨key, child⟩ hm w
  dsimp only [Function.comp_apply]
  rw [hslot]
  cases hs : missingSlot? level.isArray (some (input.getD .null)) key with
  | none => exact .refl w
  | some slot =>
    obtain ⟨w', hclaim, hfills⟩ := claim?_literal_fills hord hsets hm none slot w
    rw [Option.bind_some, hclaim]
    obtain ⟨step, hstep, -⟩ := missingSlot?_child? hs
    cases slot with
    | key name => exact hfills
    | index position => exact hfills
    | same | detached => cases hstep

/-- A separated level looks up literal children or tries computed ones, never both. -/
theorem strategy_of_isSeparated (hsep : level.isSeparated = true) :
    (Build.chooseStrategy level.literal level.computed = .literalsOnly ∧ level.computed = []) ∨
      (Build.chooseStrategy level.literal level.computed = .computedOnly ∧ level.literal = [] ∧
        level.computed ≠ []) := by
  by_cases hcomputed : level.computed = []
  · left
    rw [Build.chooseStrategy, hcomputed]
    exact ⟨rfl, rfl⟩
  · right
    have hempty : level.computed.isEmpty = false := List.isEmpty_eq_false_iff.mpr hcomputed
    have hkind := (Bool.and_eq_true_iff.mp hsep).1
    rw [hempty, Bool.or_false] at hkind
    rw [Build.chooseStrategy, hempty, hkind]
    exact ⟨rfl, List.isEmpty_iff.mp hkind, hcomputed⟩

/-- A walk of a level sets what the level fills in. -/
theorem processLevel_fills (hord : level.Ordered) (hsep : level.isSeparated = true)
    (hspecial : level.special = []) (hsets : ∀ child ∈ level.children, child.Sets)
    (input : Option Json) (w : Walk Json) :
    w.Fills (processLevel true level input w)
      ((level.map Node.filler).fills (input.getD .null)) := by
  have hfinish : ∀ {w' : Walk Json}, w.Fills w'
      ((((level.map Node.filler).present (input.getD .null)).map Hole.group).flatMap
        Json.Group.all) →
      w.Fills (claimMissing true level.isArray level.literal input w')
        ((level.map Node.filler).fills (input.getD .null)) := by
    intro w' hpresent
    rw [Composite.fills, Composite.holes, List.map_append, List.flatMap_append]
    exact hpresent.trans (missing_fill hord hsets input w')
  have hliterals := literals_fill hord hsets
  have hcomputed := computed_fill hord hsets
  have helements := elements_fill hord hsets
  have hscalar := scalar_fill hord hsets
  have hstrategy := hord.strategy_eq
  obtain ⟨element, rawKey, isArray, special, literal, computed, strategy⟩ := level
  obtain rfl : special = [] := hspecial
  rw [processLevel.eq_def]
  dsimp only
  rw [describeAll, if_pos rfl]
  refine hfinish ?_
  cases input with
  | none => exact .refl w
  | some value =>
    cases value with
    | null => exact .refl w
    | arr elements => exact helements elements w
    | obj fields =>
      obtain ⟨hs, hnil⟩ | ⟨hs, hnil, hne⟩ := strategy_of_isSeparated hsep
      · obtain rfl : strategy = .literalsOnly := hstrategy.trans hs
        exact hliterals hnil fields w
      · obtain rfl : strategy = .computedOnly := hstrategy.trans hs
        exact hcomputed hnil hne fields w
    | bool b => exact hscalar _ w
    | num n => exact hscalar _ w
    | str text => exact hscalar _ w

end Level

/-- The walk of every node of a separated default spec sets what the node fills in. -/
theorem Node.Compiled.sets {node : Node Json} (h : node.Compiled default)
    (hsep : node.isSeparated = true) : node.Sets := by
  -- On the compiled node, so that a level can rely on the walks of its children.
  induction h with
  | @leaf element rawKey target allowed =>
    have haccepts := acceptsDefault_of_allows allowed
    refine ⟨haccepts, ?_, ?_⟩
    · intro offer w
      rw [Node.claim?, Option.isSome_map, match?_of_acceptsDefault haccepts]
      rfl
    · intro offer w w' hclaim
      rw [Node.claim?] at hclaim
      obtain ⟨matched, -, rfl⟩ := Option.map_eq_some_iff.mp hclaim
      exact (Walk.Fills.visit _ element rawKey target offer.key offer.input).entered
  | @composite level allowed _ hord hchildren ih =>
    have haccepts := acceptsDefault_of_allows allowed
    obtain ⟨hlevel, hsepChildren⟩ := Node.isSeparated_composite hsep
    have hspecial := special_eq_nil hord hchildren
    have hsets := fun child hc => ih child hc (hsepChildren child hc)
    refine ⟨haccepts, ?_, ?_⟩
    · intro offer w
      rw [Node.claim?, Option.isSome_map, match?_of_acceptsDefault haccepts]
      rfl
    · intro offer w w' hclaim
      rw [Node.claim?] at hclaim
      obtain ⟨matched, -, rfl⟩ := Option.map_eq_some_iff.mp hclaim
      rw [Node.filler_composite]
      exact (processLevel_fills hord hlevel hspecial hsets offer.input _).entered

theorem Outcome.replaces_of_keeps {τ : Type} {decide : Visit τ → Decision}
    (h : ∀ v, decide v ≠ .remove) (visits : List (Visit τ)) :
    ∀ e ∈ (ofVisits decide visits).edits, ∃ value, e.change = .replace value := by
  intro e he
  obtain ⟨v, -, hv⟩ := List.mem_filterMap.mp he
  cases hd : decide v with
  | replace value =>
    rw [hd] at hv
    obtain ⟨location, -, rfl⟩ := Option.map_eq_some_iff.mp hv
    exact ⟨value, rfl⟩
  | remove => exact absurd hd (h v)
  | skip | write _ _ =>
    rw [hd] at hv
    cases hv

/-- For a policy that removes nothing the edits of a walk are values that are set in turn. -/
theorem CompiledSpec.edited_eq_setAll {τ : Type} {policy : Policy τ} {config : Config} {raw : Json}
    {spec : CompiledSpec τ} (h : compile policy raw config = .ok spec)
    (hkeep : ∀ v, policy.decide v ≠ .remove) (document : Json) :
    (spec.walk document).edited document =
      document.setAll ((spec.walk document).edits.filterMap Outcome.replacement?) := by
  obtain ⟨hpolicy, -, -⟩ := of_compile h
  have hreplaces : ∀ e ∈ (spec.walk document).edits, ∃ value, e.change = .replace value := by
    rw [walk, hpolicy]
    exact Outcome.replaces_of_keeps hkeep _
  rw [Outcome.edited, Outcome.removals_eq_nil hreplaces]
  rfl

namespace CompiledSpec

variable {config : Config} {raw document : Json} {spec : CompiledSpec Json}

/-- No level of the spec has both literal and computed children, and no two literal children of a
level stand for one index. -/
def isSeparated {τ : Type} (spec : CompiledSpec τ) : Bool := (Node.composite spec.root).isSeparated

/-- The visits of a walk for a separated default spec set what its root level fills in. -/
theorem sets_visits (h : compile default raw config = .ok spec) (hsep : spec.isSeparated = true)
    (document : Json) :
    Outcome.sets (spec.visits document) = (spec.root.map Node.filler).fills document := by
  obtain ⟨hpolicy, -, hroot⟩ := of_compile h
  obtain ⟨hlevel, hchildren⟩ := Node.isSeparated_composite hsep
  have hsets := fun child hc => (hroot.children child hc).sets (hchildren child hc)
  have hfills := processLevel_fills hroot.ordered hlevel
    (special_eq_nil hroot.ordered hroot.children) hsets (some document)
    (Walk.start spec.rootKey document)
  obtain ⟨visits, hadds, hplaced⟩ := hfills.visits
  have hvisits : spec.visits document = visits := by
    refine Walk.Adds.visits_eq ?_
    rw [hpolicy]
    exact hadds
  rw [hvisits, hplaced]
  simp [Walk.placed, Walk.location, Walk.start]

end CompiledSpec

namespace Operation

variable {config : Config} {raw document : Json} {spec : CompiledSpec Json}

/-- **Defaults fill in the compiled tree.** What defaults make of a document is the document with
the root level filled, if the spec is separated. -/
theorem applyDefault_eq_filled (h : CompiledSpec.compile default raw config = .ok spec)
    (hsep : spec.isSeparated = true) (document : Json) :
    applyDefault spec document = (spec.root.map Node.filler).filled document := by
  obtain ⟨hpolicy, -, -⟩ := CompiledSpec.of_compile h
  have hreplacements : (spec.walk document).edits.filterMap Outcome.replacement? =
      (spec.root.map Node.filler).fills document := by
    rw [← CompiledSpec.sets_visits h hsep, CompiledSpec.walk, hpolicy]
    exact List.filterMap_filterMap
  rw [applyDefault, CompiledSpec.edited_eq_setAll h default_fills.no_remove, hreplacements]
  rfl

/-- **Defaults are idempotent.** Applying a separated default spec to a document that it was
applied to changes nothing. -/
theorem applyDefault_idempotent (h : CompiledSpec.compile default raw config = .ok spec)
    (hsep : spec.isSeparated = true) (hdoc : document.WellFormed) :
    applyDefault spec (applyDefault spec document) = applyDefault spec document := by
  obtain ⟨-, -, hroot⟩ := CompiledSpec.of_compile h
  rw [applyDefault_eq_filled h hsep, applyDefault_eq_filled h hsep]
  exact hroot.ordered.filled_filled hsep (fun child hc => (hroot.children child hc).settles) hdoc

/-- A list that is made with a gap, a field that is null and a wildcard level. -/
theorem applyDefault_idempotent_nested :
    ∃ spec : CompiledSpec Json,
      CompiledSpec.compile default
        (.obj [("a[]", .obj [("2", .bool true)]), ("b", .null), ("c", .obj [("*", .str "x")])]) {} =
          .ok spec ∧
      spec.isSeparated = true ∧
      (Json.obj [("b", .null), ("c", .obj [("d", .null)])]).WellFormed ∧
      applyDefault spec (applyDefault spec (.obj [("b", .null), ("c", .obj [("d", .null)])])) =
        applyDefault spec (.obj [("b", .null), ("c", .obj [("d", .null)])]) := by
  have hwell : (Json.obj [("b", .null), ("c", .obj [("d", .null)])]).WellFormed :=
    ⟨by decide, trivial, ⟨by decide, trivial, trivial⟩, trivial⟩
  have hcompiles : (CompiledSpec.compile default
      (.obj [("a[]", .obj [("2", .bool true)]), ("b", .null), ("c", .obj [("*", .str "x")])])
      {}).toOption.map CompiledSpec.isSeparated = some true := by
    decide +kernel
  obtain ⟨spec, hspec, hsep⟩ := CompiledSpec.exists_of_map hcompiles
  exact ⟨spec, hspec, hsep, hwell, applyDefault_idempotent hspec hsep hwell⟩

end Operation
end Reshape
