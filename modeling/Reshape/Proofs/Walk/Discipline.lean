import Mathlib.Data.List.Induction
import Reshape.Proofs.Walk.Matches
import Reshape.Proofs.Walk.Visits
/-!
# Levels are left as they were entered

Whatever is walked at a level, the walk comes back to it with its place, its detached levels and
its frames as they were, except that the matches are counted on the innermost frame. So at a leaf
the count of every open level is the number of its matches that were walked before the branch
that leads to the leaf.

This holds of every tree, every input and every state of a walk.
-/
namespace Reshape

open Pattern (Element)

variable {τ : Type}

/-! ## Coming back -/

namespace Walk

/-- The second walk is back where the first one is, with `n` more matches counted on the innermost
level. Whatever is decided at its visits, there are the edits of the first one, and then more. -/
structure Returns (w : Walk τ) (n : Nat) (w' : Walk τ) : Prop where
  frames : w'.frames = w.frames.countBy n
  trail : w'.trail = w.trail
  detached : w'.detached = w.detached
  edits : ∀ decide, (Outcome.ofVisits decide w.visits.toList).edits <+:
    (Outcome.ofVisits decide w'.visits.toList).edits

/-- The second walk has the frames and the place of the first one, with `n` more matches counted
on the innermost level, and all that it has visited since has a property. -/
structure Passes (P : Visit τ → Prop) (w : Walk τ) (n : Nat) (w' : Walk τ) : Prop where
  frames : w'.frames = w.frames.countBy n
  trail : w'.trail = w.trail
  detached : w'.detached = w.detached
  visits : ∃ more, w.Adds w' more ∧ ∀ v ∈ more, P v

namespace Passes

variable {P : Visit τ → Prop} {w w' w'' : Walk τ} {n m : Nat}

theorem returns (h : w.Passes P n w') : w.Returns n w' where
  frames := h.frames
  trail := h.trail
  detached := h.detached
  edits decide := by
    obtain ⟨more, hadds, -⟩ := h.visits
    have hvisits : w'.visits.toList = w.visits.toList ++ more := by
      rw [hadds, Array.toList_append]
    rw [hvisits, Outcome.ofVisits, Outcome.ofVisits, List.filterMap_append]
    exact List.prefix_append _ _

theorem refl (P : Visit τ → Prop) (w : Walk τ) : w.Passes P 0 w :=
  ⟨(Frames.countBy_zero _).symm, rfl, rfl, [], Adds.refl w, nofun⟩

theorem trans (h : w.Passes P n w') (h' : w'.Passes P m w'') : w.Passes P (n + m) w'' := by
  obtain ⟨more, hadds, hmore⟩ := h.visits
  obtain ⟨more', hadds', hmore'⟩ := h'.visits
  refine ⟨?_, h'.trail.trans h.trail, h'.detached.trans h.detached, more ++ more',
    hadds.trans hadds', List.forall_mem_append.mpr ⟨hmore, hmore'⟩⟩
  rw [h'.frames, h.frames, Frames.countBy_countBy]

/-- Leaving a level takes back what entering it did, whatever was counted there. -/
theorem left {slot : Slot} {key : MatchedKey} {input : Option Json}
    (h : (w.enter slot key input).Passes P n w') : w.Passes P 0 (w'.leave slot) := by
  obtain ⟨hframes, htrail, hdetached, more, hadds, hmore⟩ := h
  refine ⟨?_, ?_, ?_, more, hadds.entered, hmore⟩
  · have hpushed : w'.frames.tail = w.frames := by
      rw [hframes, Frames.tail_countBy]
      cases slot <;> rfl
    rw [Frames.countBy_zero, ← hpushed]
    cases slot <;> rfl
  · cases slot with
    | key name => exact congrArg List.tail htrail
    | index position => exact congrArg List.tail htrail
    | same => exact htrail
    | detached => exact htrail
  · cases slot with
    | key name => exact hdetached
    | index position => exact hdetached
    | same => exact hdetached
    | detached => exact congrArg (· - 1) hdetached

theorem counted (h : w.Passes P n w') : w.Passes P (n + 1) w'.count := by
  refine ⟨?_, h.trail, h.detached, h.visits⟩
  rw [count, Frames.increment_eq_countBy, h.frames, Frames.countBy_countBy]

theorem keys (h : w.Passes P n w') : w'.frames.map Frame.key = w.frames.map Frame.key := by
  rw [h.frames, Frames.keys_countBy]

end Passes
end Walk

/-! ## A level as the walk of its matches -/

/-- The walk below a node whose level has been entered. -/
def Node.inside (missing : Bool) (node : Node τ) (key : String) (data input : Option Json)
    (w : Walk τ) : Walk τ :=
  match node with
  | .leaf element _ target => w.visit element target key data
  | .composite level => processLevel missing level input w

/-- The walk of a child that claims an offer. -/
def Match.follow (missing : Bool) (w : Walk τ) (m : Match τ) : Walk τ :=
  ((m.child.inside missing m.offer.key m.offer.input m.offer.input
    (w.enter m.offer.slot m.key m.offer.input)).leave m.offer.slot).count

section Stages

variable {missing : Bool}

theorem Node.claim?_eq (node : Node τ) (offer : Offer) (w : Walk τ) :
    node.claim? missing offer w = (node.match? w.frames offer).map (Match.follow missing w) := by
  cases node with
  | leaf element rawKey target =>
    rw [claim?, match?, Option.map_map]
    rfl
  | composite level =>
    rw [claim?, match?, Option.map_map]
    rfl

theorem Node.describe_eq (node : Node τ) (input : Option Json) (w : Walk τ) :
    node.describe missing input w =
      match node.element.describe? w.frames input with
      | none => w
      | some d =>
        (node.inside missing d.key d.data d.input
          (w.enter d.slot (.plain d.key) d.input)).leave d.slot := by
  cases node <;> rw [describe] <;> rfl

theorem claimFirst?_eq_follow (children : List (Node τ)) (offer : Offer) (w : Walk τ) :
    claimFirst? missing children offer w =
      (firstMatch? w.frames children offer).map (Match.follow missing w) := by
  induction children with
  | nil => rfl
  | cons child rest ih =>
    rw [claimFirst?, ih, child.claim?_eq, firstMatch?, firstMatch?, List.findSome?_cons]
    cases child.match? w.frames offer <;> rfl

/-- A key that goes to the literal child of its name first, and to the computed ones on a miss. -/
theorem claimNamed?_or_eq_follow (level : Level τ) (offer : Offer) (w : Walk τ) :
    (match claimNamed? missing level.literal offer w with
      | some w => w
      | none => (claimFirst? missing level.computed offer w).getD w) =
      ((level.claimant? .conflict w.frames offer).map (Match.follow missing w)).getD w := by
  rw [claimNamed?_eq, claimFirst?_eq_follow, Composite.claimant?, Composite.candidates]
  cases level.literal.lookup offer.key with
  | none => rfl
  | some child =>
    rw [Option.bind_some, child.claim?_eq, firstMatch?, firstMatch?, Option.toList_some,
      List.singleton_append, List.findSome?_cons]
    cases child.match? w.frames offer <;> rfl

/-- The walk of a match keeps the keys of the open levels. -/
def Match.KeepsKeys (missing : Bool) (m : Match τ) : Prop :=
  ∀ w : Walk τ, (m.follow missing w).frames.map Frame.key = w.frames.map Frame.key

variable {w : Walk τ} {ms : List (Match τ)}

theorem foldl_follow_keys (h : ∀ m ∈ ms, m.KeepsKeys missing) (w : Walk τ) :
    (ms.foldl (Match.follow missing) w).frames.map Frame.key = w.frames.map Frame.key := by
  induction ms generalizing w with
  | nil => rfl
  | cons m ms ih =>
    rw [List.foldl_cons, ih (fun m hm => h m (List.mem_cons_of_mem _ hm)),
      h m List.mem_cons_self]

/-- A pass over candidates, each of which is walked if it matches where the walk has come to,
walks the matches there were when it began. -/
theorem foldl_eq_follow {α : Type} (match? : Frames → α → Option (Match τ))
    (hcongr : ∀ {frames frames' : Frames}, frames.map Frame.key = frames'.map Frame.key →
      match? frames = match? frames') {step : Walk τ → α → Walk τ} {xs : List α}
    (hstep : ∀ x ∈ xs, ∀ w : Walk τ,
      step w x = ((match? w.frames x).map (Match.follow missing w)).getD w)
    (hkeeps : ∀ m ∈ xs.filterMap (match? w.frames), m.KeepsKeys missing) :
    xs.foldl step w = (xs.filterMap (match? w.frames)).foldl (Match.follow missing) w := by
  induction xs generalizing w with
  | nil => rfl
  | cons x xs ih =>
    have hrest := fun y hy => hstep y (List.mem_cons_of_mem x hy)
    rw [List.foldl_cons, hstep x List.mem_cons_self]
    cases hm : match? w.frames x with
    | none =>
      rw [List.filterMap_cons_none hm] at hkeeps ⊢
      exact ih hrest hkeeps
    | some m =>
      rw [List.filterMap_cons_some hm] at hkeeps ⊢
      obtain ⟨hfirst, hkeeps⟩ := List.forall_mem_cons.mp hkeeps
      have hcandidates := hcongr (hfirst w)
      rw [Option.map_some, Option.getD_some, List.foldl_cons, ← hcandidates]
      rw [← hcandidates] at hkeeps
      exact ih hrest hkeeps

variable {level : Level τ}

/-- A pass over what is offered to the children of a level. -/
theorem foldl_offers_eq_follow {α : Type} (strategy : Strategy) (offered : α → Offer)
    {step : Walk τ → α → Walk τ} {xs : List α}
    (hstep : ∀ x ∈ xs, ∀ w : Walk τ, step w x =
      ((level.claimant? strategy w.frames (offered x)).map (Match.follow missing w)).getD w)
    (hkeeps : ∀ m ∈ (xs.map offered).filterMap (level.claimant? strategy w.frames),
      m.KeepsKeys missing) :
    xs.foldl step w = ((xs.map offered).filterMap
      (level.claimant? strategy w.frames)).foldl (Match.follow missing) w := by
  rw [List.filterMap_map] at hkeeps ⊢
  refine foldl_eq_follow (fun frames => level.claimant? strategy frames ∘ offered) ?_ hstep hkeeps
  intro frames frames' h
  rw [Composite.claimant?_congr h]

theorem claimEach_eq_follow {fields : List (String × Json)} (hs : level.strategy = .literalsOnly)
    (hkeeps : ∀ m ∈ level.taken w.frames (some (.obj fields)), m.KeepsKeys missing) :
    claimEach missing level.literal fields w =
      (level.taken w.frames (some (.obj fields))).foldl (Match.follow missing) w := by
  simp only [Composite.taken, hs] at hkeeps ⊢
  rw [claimEach_eq]
  refine foldl_eq_follow (fun frames (field : String × Node τ) =>
    (fields.lookup field.1).bind fun v => field.2.match? frames ⟨field.1, some v, .key field.1⟩)
    ?_ ?_ hkeeps
  · intro frames frames' h
    simp only [Node.match?_congr h]
  · intro field _ w
    cases fields.lookup field.1 with
    | none => rfl
    | some v => rw [Option.bind_some, Option.bind_some, Node.claim?_eq]

theorem claimMissing_eq_follow {input : Option Json}
    (hkeeps : ∀ m ∈ level.missed w.frames input, m.KeepsKeys missing) :
    claimMissing missing level.isArray level.literal input w =
      (level.missed w.frames input).foldl (Match.follow missing) w := by
  rw [claimMissing_eq]
  refine foldl_eq_follow (fun frames (field : String × Node τ) =>
    (missingSlot? level.isArray input field.1).bind fun slot =>
      field.2.match? frames ⟨field.1, none, slot⟩) ?_ ?_ hkeeps
  · intro frames frames' h
    simp only [Node.match?_congr h]
  · intro field _ w
    cases missingSlot? level.isArray input field.1 with
    | none => rfl
    | some slot => rw [Option.bind_some, Option.bind_some, Node.claim?_eq]

/-- A scalar taken as a key is the only offer of its level. -/
theorem offer_eq_follow (level : Level τ) (offer : Offer) (w : Walk τ) :
    (match claimNamed? missing level.literal offer w with
      | some w => w
      | none => (claimFirst? missing level.computed offer w).getD w) =
      ([offer].filterMap (level.claimant? .conflict w.frames)).foldl (Match.follow missing) w := by
  rw [claimNamed?_or_eq_follow, List.filterMap_cons]
  cases level.claimant? .conflict w.frames offer <;> rfl

/-- The fields of an object, whatever the strategy. -/
theorem fields_eq_follow {fields : List (String × Json)}
    (hkeeps : ∀ m ∈ level.taken w.frames (some (.obj fields)), m.KeepsKeys missing) :
    (match level.strategy with
      | .literalsOnly => claimEach missing level.literal fields w
      | .computedOnly =>
        fields.foldl (fun w (key, v) =>
          (claimFirst? missing level.computed ⟨key, some v, .key key⟩ w).getD w) w
      | .noConflict =>
        fields.foldl (fun w (key, v) =>
          let offer : Offer := ⟨key, some v, .key key⟩
          if Fields.contains key level.literal then
            (claimNamed? missing level.literal offer w).getD w
          else (claimFirst? missing level.computed offer w).getD w) w
      | .conflict =>
        fields.foldl (fun w (key, v) =>
          match claimNamed? missing level.literal ⟨key, some v, .key key⟩ w with
          | some w => w
          | none =>
            (claimFirst? missing level.computed ⟨key, some v, .key key⟩ w).getD w) w) =
      (level.taken w.frames (some (.obj fields))).foldl (Match.follow missing) w := by
  cases hs : level.strategy with
  | literalsOnly => exact claimEach_eq_follow hs hkeeps
  | computedOnly =>
    simp only [Composite.taken, hs] at hkeeps ⊢
    refine foldl_offers_eq_follow .computedOnly _ ?_ hkeeps
    intro field _ w
    rw [claimFirst?_eq_follow]
    rfl
  | noConflict =>
    simp only [Composite.taken, hs] at hkeeps ⊢
    refine foldl_offers_eq_follow .noConflict _ ?_ hkeeps
    intro field _ w
    dsimp only
    rw [Composite.claimant?, Composite.candidates, Fields.contains, claimNamed?_eq,
      claimFirst?_eq_follow]
    cases level.literal.lookup field.1 with
    | none => rfl
    | some child =>
      rw [Option.bind_some, child.claim?_eq]
      dsimp only
      rw [firstMatch?_singleton]
      rfl
  | conflict =>
    simp only [Composite.taken, hs] at hkeeps ⊢
    refine foldl_offers_eq_follow .conflict _ ?_ hkeeps
    intro field _ w
    exact claimNamed?_or_eq_follow level _ w

/-- The walk of a level, after its special children, is that of the matches at it. -/
theorem processLevel_eq_follow {input : Option Json}
    (hspecial : (describeAll missing level.special input w).frames.map Frame.key =
      w.frames.map Frame.key)
    (hkeeps : ∀ m : Match τ, m.child ∈ level.children → m.KeepsKeys missing) :
    processLevel missing level input w =
      (level.allMatches missing w.frames input).foldl (Match.follow missing)
        (describeAll missing level.special input w) := by
  let w₁ := describeAll missing level.special input w
  have htaken : ∀ m ∈ level.taken w₁.frames input, m.KeepsKeys missing :=
    fun m hm => hkeeps m (Composite.child_mem_of_mem_taken hm)
  -- Once the stage of the input's keys is known, the missing ones follow on it.
  have hfinish : ∀ {w₂ : Walk τ},
      w₂ = (level.taken w₁.frames input).foldl (Match.follow missing) w₁ →
      (if missing then claimMissing missing level.isArray level.literal input w₂ else w₂) =
        (level.allMatches missing w.frames input).foldl (Match.follow missing) w₁ := by
    intro w₂ h₂
    have hkeys : w₂.frames.map Frame.key = w₁.frames.map Frame.key := by
      rw [h₂, foldl_follow_keys htaken]
    have hmissed : claimMissing missing level.isArray level.literal input w₂ =
        (level.missed w₁.frames input).foldl (Match.follow missing) w₂ := by
      rw [← Composite.missed_congr hkeys]
      exact claimMissing_eq_follow fun m h => hkeeps m (Composite.child_mem_of_mem_missed h)
    rw [← Composite.allMatches_congr hspecial, Composite.allMatches, List.foldl_append, ← h₂]
    by_cases hm : missing = true
    · rw [if_pos hm, if_pos hm, hmissed]
    · rw [if_neg hm, if_neg hm, List.foldl_nil]
  obtain ⟨element, rawKey, isArray, special, literal, computed, strategy⟩ := level
  rw [processLevel.eq_def]
  refine hfinish ?_
  cases input with
  | none => rfl
  | some v =>
    cases v with
    | obj fields => exact fields_eq_follow htaken
    | arr elements =>
      refine foldl_offers_eq_follow .conflict _ ?_ htaken
      intro x _ w
      exact claimNamed?_or_eq_follow
        ⟨element, rawKey, isArray, special, literal, computed, strategy⟩ _ w
    | null => rfl
    | _ =>
      exact offer_eq_follow ⟨element, rawKey, isArray, special, literal, computed, strategy⟩ _ w₁

end Stages

/-! ## Below a level -/

/-- What holds of a level with its value and its frames holds of every child that is walked there:
of a special child before anything is counted, of a match when those before it are. -/
structure Inherited (missing : Bool) (I : Node τ → Option Json → Frames → Prop) : Prop where
  special : ∀ {level : Level τ} {input : Option Json} {frames : Frames} {child : Node τ}
    {d : Described}, I (.composite level) input frames → child ∈ level.special →
    child.element.describe? frames input = some d →
    I child d.input (frames.push (.plain d.key) d.input)
  claimed : ∀ {level : Level τ} {input : Option Json} {frames : Frames}
    {before after : List (Match τ)} {m : Match τ}, I (.composite level) input frames →
    level.allMatches missing frames input = before ++ m :: after →
    I m.child m.offer.input ((frames.countBy before.length).push m.key m.offer.input)

theorem Inherited.of_true (missing : Bool) :
    Inherited missing fun (_ : Node τ) _ _ => True :=
  ⟨fun _ _ _ => trivial, fun _ _ => trivial⟩

/-- The visit is at a leaf of which a property holds. -/
def Visit.At (I : Node τ → Option Json → Frames → Prop) (v : Visit τ) : Prop :=
  ∃ rawKey input, I (.leaf v.element rawKey v.target) input v.frames

/-- The walk below a node comes back, and whatever is inherited from level to level holds at the
leaves it visits. -/
def Node.Passes (missing : Bool) (node : Node τ) : Prop :=
  ∀ {I : Node τ → Option Json → Frames → Prop}, Inherited missing I →
    ∀ {input : Option Json} {w : Walk τ}, I node input w.frames →
      ∀ (key : String) (data : Option Json),
        ∃ n, w.Passes (Visit.At I) n (node.inside missing key data input w)

section Levels

variable {missing : Bool} {I : Node τ → Option Json → Frames → Prop} {w : Walk τ}

@[simp]
theorem Walk.enter_frames (w : Walk τ) (slot : Slot) (key : MatchedKey) (input : Option Json) :
    (w.enter slot key input).frames = w.frames.push key input := by
  cases slot <;> rfl

theorem Match.follow_passes {m : Match τ} (hnode : m.child.Passes missing)
    (hI : Inherited missing I)
    (h : I m.child m.offer.input (w.frames.push m.key m.offer.input)) :
    w.Passes (Visit.At I) 1 (m.follow missing w) := by
  rw [← w.enter_frames m.offer.slot] at h
  obtain ⟨n, hpasses⟩ := hnode hI h m.offer.key m.offer.input
  exact hpasses.left.counted

theorem Node.Passes.keepsKeys {m : Match τ} (hnode : m.child.Passes missing) :
    m.KeepsKeys missing := by
  exact fun w => (Match.follow_passes hnode (.of_true missing) trivial).keys

theorem Node.Passes.describe {node : Node τ} (hnode : node.Passes missing)
    (hI : Inherited missing I) {input : Option Json}
    (h : ∀ d, node.element.describe? w.frames input = some d →
      I node d.input (w.frames.push (.plain d.key) d.input)) :
    w.Passes (Visit.At I) 0 (node.describe missing input w) := by
  rw [Node.describe_eq]
  cases hd : node.element.describe? w.frames input with
  | none => exact .refl _ w
  | some d =>
    have hentered := h d hd
    rw [← w.enter_frames d.slot] at hentered
    obtain ⟨n, hpasses⟩ := hnode hI hentered d.key d.data
    exact hpasses.left

theorem describeAll_passes {special : List (Node τ)}
    (hnodes : ∀ child ∈ special, child.Passes missing) (hI : Inherited missing I)
    {input : Option Json}
    (h : ∀ child ∈ special, ∀ d, child.element.describe? w.frames input = some d →
      I child d.input (w.frames.push (.plain d.key) d.input)) :
    w.Passes (Visit.At I) 0 (describeAll missing special input w) := by
  induction special generalizing w with
  | nil => exact .refl _ w
  | cons child rest ih =>
    obtain ⟨hchild, hnodes⟩ := List.forall_mem_cons.mp hnodes
    obtain ⟨hd, h⟩ := List.forall_mem_cons.mp h
    have hfirst := hchild.describe hI hd
    have hframes : (child.describe missing input w).frames = w.frames := by
      rw [hfirst.frames, Frames.countBy_zero]
    rw [← hframes] at h
    exact hfirst.trans (ih hnodes h)

/-- By induction from the last match: it sees the ones before it counted. -/
theorem foldl_follow_passes {P : Visit τ → Prop} {ms : List (Match τ)}
    (h : ∀ before m after, ms = before ++ m :: after → ∀ w' : Walk τ,
      w'.frames = w.frames.countBy before.length → w'.Passes P 1 (m.follow missing w')) :
    w.Passes P ms.length (ms.foldl (Match.follow missing) w) := by
  induction ms using List.reverseRecOn with
  | nil => exact .refl _ w
  | append_singleton ms m ih =>
    have hms : w.Passes P ms.length (ms.foldl (Match.follow missing) w) := by
      refine ih fun before m' after hms => h before m' (after ++ [m]) ?_
      rw [hms, List.append_assoc, List.cons_append]
    rw [List.foldl_append, List.length_append]
    exact hms.trans (h ms m [] rfl _ hms.frames)

/-- The walk of a level counts the matches at it. -/
theorem processLevel_passes {level : Level τ}
    (hnodes : ∀ child ∈ level.children, child.Passes missing) (hI : Inherited missing I)
    {input : Option Json} (h : I (.composite level) input w.frames) :
    w.Passes (Visit.At I) (level.allMatches missing w.frames input).length
      (processLevel missing level input w) := by
  have hspecial : w.Passes (Visit.At I) 0 (describeAll missing level.special input w) :=
    describeAll_passes (fun child hc => hnodes child (Composite.mem_children_of_special hc)) hI
      fun child hc _ hd => hI.special h hc hd
  rw [processLevel_eq_follow hspecial.keys fun m hm => Node.Passes.keepsKeys (hnodes m.child hm)]
  rw [← Nat.zero_add (level.allMatches missing w.frames input).length]
  refine hspecial.trans (foldl_follow_passes ?_)
  intro before m after hms w' hw'
  have hm : m ∈ level.allMatches missing w.frames input := by
    rw [hms]
    exact List.mem_append_right _ List.mem_cons_self
  refine Match.follow_passes (hnodes _ (Composite.child_mem_of_mem_allMatches hm)) hI ?_
  rw [hw', hspecial.frames, Frames.countBy_zero]
  exact hI.claimed h hms

/-- The walk of every node comes back. By induction on the node. -/
theorem Node.passes (missing : Bool) (node : Node τ) : node.Passes missing := by
  induction node using Node.of_children with
  | leaf element rawKey target =>
    intro I _ input w h key data
    refine ⟨0, (Frames.countBy_zero _).symm, rfl, rfl, _, Walk.Adds.visit .., ?_⟩
    exact List.forall_mem_singleton.mpr ⟨rawKey, input, h⟩
  | composite level ih =>
    intro I hI input w h _ _
    exact ⟨_, processLevel_passes ih hI h⟩

end Levels

/-! ## The matches before an open branch -/

namespace CompiledSpec

/-- A walk over an input can enter a node, with this value and these frames. For every level around
the node, innermost first, the list has the matches that are walked there before the branch to the
node. -/
inductive Opens (spec : CompiledSpec τ) (whole : Json) :
    Node τ → Option Json → Frames → List (List (Match τ)) → Prop
  | root : Opens spec whole (.composite spec.root) (some whole)
    (Frames.push [] (.plain spec.rootKey) (some whole)) []
  | special {level : Level τ} {input : Option Json} {frames : Frames}
    {completed : List (List (Match τ))} {child : Node τ} {d : Described}
    (around : Opens spec whole (.composite level) input frames completed)
    (mem : child ∈ level.special) (described : child.element.describe? frames input = some d) :
    Opens spec whole child d.input (frames.push (.plain d.key) d.input) ([] :: completed)
  | claimed {level : Level τ} {input : Option Json} {frames : Frames}
    {completed : List (List (Match τ))} {before after : List (Match τ)} {m : Match τ}
    (around : Opens spec whole (.composite level) input frames completed)
    (matched : level.allMatches spec.policy.visitsMissing frames input = before ++ m :: after) :
    Opens spec whole m.child m.offer.input
      ((frames.countBy before.length).push m.key m.offer.input) (before :: completed)

variable {spec : CompiledSpec τ} {whole : Json}

/-- A node that has just been entered has no matches, and every level around it has counted those
before the branch to the node. -/
theorem Opens.counts {node : Node τ} {input : Option Json} {frames : Frames}
    {completed : List (List (Match τ))} (h : spec.Opens whole node input frames completed) :
    frames.map Frame.count = ([] :: completed).map List.length := by
  induction h with
  | root => rfl
  | special _ _ _ ih => exact congrArg (0 :: ·) ih
  | @claimed level input frames completed before after m _ _ ih =>
    cases frames with
    | nil => cases ih
    | cons frame outer =>
      obtain ⟨hcount, houter⟩ := List.cons.inj ih
      have hbefore : frame.count + before.length = before.length := by
        rw [hcount, List.length_nil, Nat.zero_add]
      exact congrArg (0 :: ·) (congrArg₂ List.cons hbefore houter)

theorem Opens.inherited (spec : CompiledSpec τ) (whole : Json) :
    Inherited spec.policy.visitsMissing fun node input frames =>
      ∃ completed, spec.Opens whole node input frames completed where
  special := by
    rintro level input frames child d ⟨completed, h⟩ hmem hd
    exact ⟨_, h.special hmem hd⟩
  claimed := by
    rintro level input frames before after m ⟨completed, h⟩ hms
    exact ⟨_, h.claimed hms⟩

theorem opens_of_mem_visits {v : Visit τ} (h : v ∈ spec.visits whole) :
    ∃ rawKey input completed,
      spec.Opens whole (.leaf v.element rawKey v.target) input v.frames completed := by
  have hpasses := processLevel_passes (fun child _ => Node.passes _ child)
    (Opens.inherited spec whole) (w := Walk.start spec.rootKey whole) ⟨_, .root⟩
  obtain ⟨more, hadds, hmore⟩ := hpasses.visits
  rw [hadds.visits_eq] at h
  obtain ⟨rawKey, input, completed, hopens⟩ := hmore v h
  exact ⟨rawKey, input, completed, hopens⟩

/-- The index that `[#n]` stands for is the number of matches before the branch. -/
theorem Opens.resolve?_indexCount {node : Node τ} {input : Option Json} {frames : Frames}
    {completed : List (List (Match τ))} (h : spec.Opens whole node input frames completed)
    (up : Nat) :
    (Pattern.PathStep.indexCount up).resolve? frames =
      (([] :: completed)[up]?).bind fun before => Pattern.indexStep? before.length := by
  have hcount := congrArg (fun counts => counts[up]?.bind Pattern.indexStep?) h.counts
  simp only [List.getElem?_map, Option.bind_map] at hcount
  exact hcount

end CompiledSpec

/-- **Levels are left as they were entered, with their matches counted.** A child that refuses an
offer leaves the walk as it is, one that claims it counts as one match, a special child as none,
and a level counts the matches at it. So at a leaf every open level has counted its matches before
the branch to the leaf, and this is the index that `[#n]` stands for. -/
theorem walk_returns (missing : Bool) :
    (∀ (node : Node τ) (offer : Offer) (w : Walk τ),
      (node.claim? missing offer w = none ↔ node.element.match? offer.key w.frames = none) ∧
      (node.claim? missing offer w = none → (node.claim? missing offer w).getD w = w ∧
        ∀ rest, claimFirst? missing (node :: rest) offer w = claimFirst? missing rest offer w) ∧
      ∀ w', node.claim? missing offer w = some w' → w.Returns 1 w') ∧
    (∀ (node : Node τ) (input : Option Json) (w : Walk τ),
      w.Returns 0 (node.describe missing input w)) ∧
    (∀ (level : Level τ) (input : Option Json) (w : Walk τ),
      w.Returns (level.allMatches missing w.frames input).length
        (processLevel missing level input w)) ∧
    (∀ (level : Level τ) (fields : List (String × Json)) (frames : Frames),
      Fields.Sorted level.literal → Fields.Sorted fields →
        level.taken frames (some (.obj fields)) =
          (offers (some (.obj fields))).filterMap (level.claimant? level.strategy frames)) ∧
    ∀ (spec : CompiledSpec τ) (input : Json), ∀ v ∈ spec.visits input,
      ∃ rawKey value completed,
        spec.Opens input (.leaf v.element rawKey v.target) value v.frames completed ∧
        v.frames.map Frame.count = ([] :: completed).map List.length ∧
        ∀ up, (Pattern.PathStep.indexCount up).resolve? v.frames =
          (([] :: completed)[up]?).bind fun before => Pattern.indexStep? before.length := by
  have hI : Inherited missing fun (_ : Node τ) _ _ => True := .of_true missing
  refine ⟨fun node offer w => ⟨?_, ?_, ?_⟩, ?_, ?_, ?_, ?_⟩
  · rw [node.claim?_eq, Option.map_eq_none_iff, Node.match?, Option.map_eq_none_iff]
  · intro h
    refine ⟨by rw [h, Option.getD_none], fun rest => ?_⟩
    rw [claimFirst?, h]
  · intro w' h
    rw [node.claim?_eq] at h
    obtain ⟨m, -, rfl⟩ := Option.map_eq_some_iff.mp h
    exact (Match.follow_passes (Node.passes missing m.child) hI trivial).returns
  · intro node input w
    exact (Node.Passes.describe (Node.passes missing node) hI fun _ _ => trivial).returns
  · intro level input w
    exact (processLevel_passes (fun child _ => Node.passes missing child) hI trivial).returns
  · intro level fields frames hl hf
    exact Composite.taken_obj hl hf frames
  · intro spec input v hv
    obtain ⟨rawKey, value, completed, h⟩ := CompiledSpec.opens_of_mem_visits hv
    exact ⟨rawKey, value, completed, h, h.counts, h.resolve?_indexCount⟩

/-- A leaf with a key it refuses and one it claims, its level on an object, and the second element
of a list below a wildcard, before which one match is counted. -/
theorem walk_returns_second :
    let leaf : Node (List Pattern.WritePath) := .leaf (.literal "b") "b" []
    let level : Level (List Pattern.WritePath) :=
      ⟨.any, "*", false, [], [("b", leaf)], [], .literalsOnly⟩
    let fields : List (String × Json) := [("b", .bool true)]
    (∀ w, (leaf.claim? false ⟨"a", none, .same⟩ w).getD w = w) ∧
    (∀ w, ∃ w', leaf.claim? false ⟨"b", none, .same⟩ w = some w' ∧ w.Returns 1 w') ∧
    (∀ frames, level.taken frames (some (.obj fields)) =
      (offers (some (.obj fields))).filterMap (level.claimant? .literalsOnly frames)) ∧
    ∃ spec : CompiledSpec (List Pattern.WritePath),
      CompiledSpec.compile Operation.shift (.obj [("*", .obj [("b", .str "out[#2]")])]) {} =
        .ok spec ∧
      ∃ v ∈ spec.visits (.arr [.obj fields, .obj fields]), v.frames.map Frame.count = [0, 0, 1] ∧
        ∃ completed : List (List (Match (List Pattern.WritePath))),
          [0, 0, 1] = ([] :: completed).map List.length := by
  intro leaf level fields
  obtain ⟨hclaim, -, -, htaken, hvisits⟩ := walk_returns (τ := List Pattern.WritePath) false
  refine ⟨fun w => ?_, fun w => ⟨_, rfl, ?_⟩, fun frames => ?_, ?_⟩
  · exact ((hclaim leaf ⟨"a", none, .same⟩ w).2.1 rfl).1
  · exact (hclaim leaf ⟨"b", none, .same⟩ w).2.2 _ rfl
  · exact htaken level fields frames (List.pairwise_singleton _ _) (List.pairwise_singleton _ _)
  · have hcompiles : (CompiledSpec.compile Operation.shift
        (.obj [("*", .obj [("b", .str "out[#2]")])]) {}).toOption.isSome = true := by
      decide +kernel
    have hcounts : ((CompiledSpec.compile Operation.shift
        (.obj [("*", .obj [("b", .str "out[#2]")])]) {}).toOption.any fun spec =>
          ((spec.visits (.arr [.obj [("b", .bool true)], .obj [("b", .bool true)]])).map
            fun v => v.frames.map Frame.count).contains [0, 0, 1]) = true := by
      decide +kernel
    obtain ⟨spec, hspec⟩ := CompiledSpec.exists_of_isSome hcompiles
    rw [hspec] at hcounts
    obtain ⟨v, hv, hcount⟩ := List.mem_map.mp (List.contains_iff_mem.mp hcounts)
    obtain ⟨-, -, completed, -, hlengths, -⟩ := hvisits spec _ v hv
    exact ⟨spec, hspec, v, hv, hcount, completed, hcount ▸ hlengths⟩

end Reshape
