import Reshape.Operation.Shift
import Reshape.Proofs.Document
import Reshape.Proofs.Walk.Plain
/-!
# Strategies do not matter

On a compiled spec and a well-formed input the walk and the plain walk agree, leaf by leaf. The
walk's own state, which is entered and left again, always is that of the site where the plain walk
stands; a level gives it back with its matches counted and its visits added.
-/
namespace Reshape

open Pattern (Element)

variable {τ : Type}

namespace Walk

/-- The state of a walk is that of a site. -/
structure At (w : Walk τ) (site : Site) : Prop where
  frames : w.frames = site.frames
  trail : w.trail = site.steps
  detached : w.detached = site.openings.countP fun opening => opening.slot.isDetached

/-- The walk with the visits of more leaves. -/
def extend (w : Walk τ) (arrivals : List (Arrival τ)) : Walk τ :=
  { w with visits := w.visits ++ (arrivals.map Arrival.visit).toArray }

def countBy (w : Walk τ) (n : Nat) : Walk τ := { w with frames := w.frames.countBy n }

@[simp] theorem extend_nil (w : Walk τ) : w.extend [] = w := by
  simp [extend]

@[simp] theorem extend_append (w : Walk τ) (as bs : List (Arrival τ)) :
    w.extend (as ++ bs) = (w.extend as).extend bs := by
  simp [extend]

@[simp] theorem countBy_zero (w : Walk τ) : w.countBy 0 = w := by
  rw [countBy, Frames.countBy_zero]

@[simp] theorem extend_countBy (w : Walk τ) (n : Nat) (as : List (Arrival τ)) :
    (w.countBy n).extend as = (w.extend as).countBy n := rfl

@[simp] theorem countBy_countBy (w : Walk τ) (n m : Nat) :
    (w.countBy n).countBy m = w.countBy (n + m) := by
  simp only [countBy, Frames.countBy_countBy]

theorem count_eq_countBy (w : Walk τ) : w.count = w.countBy 1 := by
  rw [count, countBy, Frames.increment_eq_countBy]

variable {w : Walk τ} {site : Site}

theorem At.extend (h : w.At site) (as : List (Arrival τ)) : (w.extend as).At site :=
  ⟨h.frames, h.trail, h.detached⟩

theorem At.countBy (h : w.At site) (n : Nat) : (w.countBy n).At (site.counted n) :=
  ⟨congrArg (Frames.countBy n) h.frames, h.trail, h.detached⟩

theorem At.counted_zero (h : w.At site) : w.At (site.counted 0) := by
  rw [Site.counted, Frames.countBy_zero]
  exact h

theorem At.location (h : w.At site) : w.location = site.location := by
  rw [Walk.location, Site.location, h.trail, h.detached]
  by_cases hd : site.isDetached = true
  · have hpos : site.openings.countP (fun opening => opening.slot.isDetached) ≠ 0 := by
      rw [Site.isDetached, List.any_eq_true] at hd
      rw [ne_eq, List.countP_eq_zero]
      obtain ⟨opening, hm, ho⟩ := hd
      exact fun hnone => hnone opening hm ho
    rw [if_neg hpos, if_pos hd]
  · have hzero : site.openings.countP (fun opening => opening.slot.isDetached) = 0 := by
      rw [List.countP_eq_zero]
      intro opening hm ho
      exact hd (List.any_eq_true.mpr ⟨opening, hm, ho⟩)
    rw [if_pos hzero, if_neg hd]

theorem At.enter (h : w.At site) (element : Element) (slot : Slot) (key : MatchedKey)
    (input : Option Json) :
    (w.enter slot key input).At (site.enter element slot key input) := by
  obtain ⟨hf, ht, hd⟩ := h
  cases slot <;>
    refine ⟨congrArg (Frames.push · key input) hf, ?_, ?_⟩ <;>
    simp [Walk.enter, Site.enter, Site.steps, Slot.step?, Slot.isDetached, ht, hd]

theorem At.visit (h : w.At site) (element : Element) (target : τ) (key : String)
    (data : Option Json) :
    w.visit element target key data = w.extend [⟨element, target, key, data, site⟩] := by
  simp [Walk.visit, Walk.extend, Arrival.visit, h.frames, h.location]

/-- Leaving a level takes back what entering it did, whatever was counted there. -/
@[simp] theorem leave_enter (w : Walk τ) (slot : Slot) (key : MatchedKey) (input : Option Json)
    (as : List (Arrival τ)) (n : Nat) :
    (((w.enter slot key input).extend as).countBy n).leave slot = w.extend as := by
  cases slot <;>
    simp [Walk.enter, Walk.extend, Walk.countBy, Walk.leave, Frames.push, Frames.countBy]

/-- The walk after a claim. -/
def claimed (w : Walk τ) (site : Site) (claim : Claim τ) : Walk τ :=
  (w.extend (claim.arrivals site)).count

/-- The second walk is the first one after a sequence of claims, before which `n` matches were
counted at the site. Every claim sees the number of matches before it. -/
def Follows (w w' : Walk τ) (site : Site) (n : Nat) (claims : List (Claim τ)) : Prop :=
  w' = (w.extend ((claims.zipIdx n).flatMap fun (claim, i) =>
    claim.arrivals (site.counted i))).countBy claims.length

theorem Follows.refl (w : Walk τ) (site : Site) (n : Nat) : w.Follows w site n [] := by
  rw [Follows, List.zipIdx_nil, List.flatMap_nil, extend_nil]
  exact w.countBy_zero.symm

theorem Follows.append {w₁ w₂ : Walk τ} {n : Nat} {as bs : List (Claim τ)}
    (ha : w.Follows w₁ site n as) (hb : w₁.Follows w₂ site (n + as.length) bs) :
    w.Follows w₂ site n (as ++ bs) := by
  rw [Follows] at ha hb ⊢
  rw [hb, ha, List.zipIdx_append, List.flatMap_append, List.length_append, extend_append,
    extend_countBy, countBy_countBy]

theorem Follows.claimed (w : Walk τ) (site : Site) (n : Nat) (claim : Claim τ) :
    w.Follows (w.claimed (site.counted n) claim) site n [claim] := by
  rw [Follows, List.zipIdx_singleton, List.flatMap_singleton]
  exact (count_eq_countBy _)

theorem Follows.at {w' : Walk τ} {n : Nat} {claims : List (Claim τ)}
    (h : w.Follows w' site n claims) (hw : w.At (site.counted n)) :
    w'.At (site.counted (n + claims.length)) := by
  rw [h, ← Site.counted_counted]
  exact (hw.extend _).countBy _

/-- A pass over candidates whose steps follow the claims made of them follows these claims. -/
theorem foldl_follows {α : Type} {step : Walk τ → α → Walk τ} {claim? : α → Option (Claim τ)} :
    ∀ {xs : List α} {n : Nat} {w : Walk τ}, w.At (site.counted n) →
      (∀ x ∈ xs, ∀ m (w' : Walk τ), w'.At (site.counted m) →
        step w' x = ((claim? x).map (w'.claimed (site.counted m))).getD w') →
      w.Follows (xs.foldl step w) site n (xs.filterMap claim?) := by
  intro xs
  induction xs with
  | nil => exact fun _ _ => Follows.refl _ _ _
  | cons x xs ih =>
    intro n w hw hstep
    have hrest := fun y hy => hstep y (List.mem_cons_of_mem x hy)
    rw [List.foldl_cons, hstep x List.mem_cons_self n w hw]
    cases hc : claim? x with
    | none =>
      rw [List.filterMap_cons_none hc]
      exact ih hw hrest
    | some claim =>
      have hfirst : w.Follows (w.claimed (site.counted n) claim) site n [claim] :=
        Follows.claimed w site n claim
      rw [List.filterMap_cons_some hc]
      exact hfirst.append (ih (hfirst.at hw) hrest)

end Walk

def WellFormedInput (input : Option Json) : Prop := ∀ v, input = some v → v.WellFormed

theorem Json.WellFormed.input {v : Json} (h : v.WellFormed) : WellFormedInput (some v) := by
  rintro _ ⟨⟩
  exact h

/-- Every input recorded at a site is well-formed. -/
def Site.WellFormed (site : Site) : Prop :=
  ∀ input ∈ site.frames.map Frame.input, WellFormedInput input

namespace Site.WellFormed

variable {site : Site}

theorem enter (h : site.WellFormed) (element : Element) (slot : Slot) (key : MatchedKey)
    {input : Option Json} (hi : WellFormedInput input) :
    (site.enter element slot key input).WellFormed :=
  List.forall_mem_cons.mpr ⟨hi, h⟩

theorem counted (h : site.WellFormed) (n : Nat) : (site.counted n).WellFormed := by
  rw [Site.WellFormed, Site.counted, Frames.inputs_countBy]
  exact h

/-- A lookup finds part of an input that was recorded. -/
theorem find? (h : site.WellFormed) {l : Pattern.Lookup} {v : Json}
    (hv : l.find? site.frames = some v) : v.WellFormed := by
  obtain ⟨address, -, hv⟩ := Option.bind_eq_some_iff.mp hv
  obtain ⟨frame, hf, hv⟩ := Option.bind_eq_some_iff.mp hv
  obtain ⟨base, hb, hv⟩ := Option.bind_eq_some_iff.mp hv
  have hbase : base.WellFormed :=
    h frame.input (List.mem_map_of_mem (List.mem_of_getElem? hf)) base hb
  exact hbase.get? hv

theorem describe? (h : site.WellFormed) {e : Element} {input : Option Json}
    (hi : WellFormedInput input) {d : Described} (hd : e.describe? site.frames input = some d) :
    WellFormedInput d.input := by
  obtain ⟨parent, -, hd⟩ := Option.bind_eq_some_iff.mp hd
  cases e with
  | value =>
    obtain rfl := Option.some.inj hd
    exact hi
  | lookup l =>
    obtain ⟨v, hv, rfl⟩ := Option.map_eq_some_iff.mp hd
    intro found hf
    obtain rfl := Option.some.inj hf
    exact h.find? hv
  | matchedKey r =>
    obtain ⟨text, -, rfl⟩ := Option.map_eq_some_iff.mp hd
    exact nofun
  | count up =>
    obtain ⟨frame, -, rfl⟩ := Option.map_eq_some_iff.mp hd
    exact nofun
  | constant text =>
    obtain rfl := Option.some.inj hd
    exact nofun
  | _ => cases hd

end Site.WellFormed

theorem offers_wellFormed {input : Option Json} (hi : WellFormedInput input) {offer : Offer}
    (ho : offer ∈ offers input) : WellFormedInput offer.input := by
  intro v hv
  cases input with
  | none => cases ho
  | some value =>
    have hvalue := hi value rfl
    cases value with
    | obj fields =>
      obtain ⟨⟨key, child⟩, hm, rfl⟩ := List.mem_map.mp ho
      obtain rfl := Option.some.inj hv
      exact hvalue.field hm
    | arr elements =>
      obtain ⟨⟨child, position⟩, hm, rfl⟩ := List.mem_map.mp ho
      obtain rfl := Option.some.inj hv
      exact hvalue.element (List.fst_mem_of_mem_zipIdx hm)
    | _ =>
      obtain ⟨key, -, rfl⟩ := List.mem_map.mp ho
      obtain rfl := Option.some.inj hv
      trivial

/-- In a list in order the least element that passes a test is the first one. -/
theorem least?_filter {α : Type} {cmp : α → α → Ordering} [Std.TransCmp cmp] {xs : List α}
    (h : xs.Pairwise fun a b => (cmp a b).isLE) (p : α → Bool) :
    least? cmp (xs.filter p) = xs.find? p := by
  have hfirst : ∀ {ys : List α}, (ys.Pairwise fun a b => (cmp a b).isLE) →
      least? cmp ys = ys.head? := by
    intro ys hys
    cases ys with
    | nil => rfl
    | cons y rest =>
      obtain ⟨hy, -⟩ := List.pairwise_cons.mp hys
      apply List.find?_cons_of_pos
      rw [List.all_eq_true]
      intro z hz
      have hself : cmp y y = .eq := Std.ReflCmp.compare_self
      rcases List.mem_cons.mp hz with he | hz
      · rw [he, hself]
        rfl
      · have hle := hy z hz
        cases hc : cmp y z <;> rw [hc] at hle <;> first | rfl | cases hle
  rw [hfirst (h.filter p), List.head?_filter]

/-- The walk of a node does what its branch says. -/
structure Node.Simulated (missing : Bool) (node : Node τ) : Prop where
  claim?_eq : ∀ {w : Walk τ} {site : Site} {offer : Offer}, w.At site → site.WellFormed →
    WellFormedInput offer.input → node.claim? missing offer w =
      ((node.branch missing).claim? site.frames offer).map (w.claimed site)
  describe_eq : ∀ {w : Walk τ} {site : Site} {input : Option Json}, w.At site →
    site.WellFormed → WellFormedInput input →
      node.describe missing input w = w.extend ((node.branch missing).described input site)

section Stages

variable {missing : Bool} {w : Walk τ} {site : Site} {input : Option Json} {offer : Offer}

theorem describeAll_eq {special : List (Node τ)}
    (hsim : ∀ child ∈ special, child.Simulated missing) (hw : w.At site)
    (hsite : site.WellFormed) (hi : WellFormedInput input) :
    describeAll missing special input w =
      w.extend (special.flatMap fun child => (child.branch missing).described input site) := by
  induction special generalizing w with
  | nil =>
    rw [describeAll, List.flatMap_nil, Walk.extend_nil]
  | cons child rest ih =>
    have hchild := (hsim child List.mem_cons_self).describe_eq hw hsite hi
    have hrest := fun node hn => hsim node (List.mem_cons_of_mem child hn)
    rw [describeAll, hchild, ih hrest (hw.extend _), List.flatMap_cons, Walk.extend_append]

theorem claimNamed?_eq (literal : List (String × Node τ)) (offer : Offer) (w : Walk τ) :
    claimNamed? missing literal offer w =
      (literal.lookup offer.key).bind fun child => child.claim? missing offer w := by
  induction literal with
  | nil => rfl
  | cons field rest ih =>
    obtain ⟨key, child⟩ := field
    rw [claimNamed?, List.lookup_cons, ih]
    cases offer.key == key <;> rfl

theorem claimFirst?_eq {computed : List (Node τ)}
    (hsim : ∀ child ∈ computed, child.Simulated missing) (hw : w.At site)
    (hsite : site.WellFormed) (ho : WellFormedInput offer.input) :
    claimFirst? missing computed offer w =
      (((computed.map (Node.branch missing)).find? fun branch =>
        branch.accepts site.frames offer.key).bind fun branch =>
          branch.claim? site.frames offer).map (w.claimed site) := by
  induction computed with
  | nil => rfl
  | cons child rest ih =>
    have hrest := ih fun node hn => hsim node (List.mem_cons_of_mem child hn)
    rw [claimFirst?, (hsim child List.mem_cons_self).claim?_eq hw hsite ho, hrest,
      List.map_cons, List.find?_cons, Branch.accepts]
    cases hm : (child.branch missing).element.match? offer.key site.frames with
    | none => simp [Branch.claim?, hm]
    | some m => simp [Branch.claim?, hm]

variable {level : Level τ}

/-- On a compiled level a key belongs to the literal child of that name, or else to the first of
the computed children, in their order, that matches it. -/
theorem owner?_branchLevel (hord : level.Ordered) (frames : Frames) (key : String) :
    (branchLevel missing level).owner? frames key =
      ((level.literal.lookup key).map (Node.branch missing)).or
        ((level.computed.map (Node.branch missing)).find? fun branch =>
          branch.accepts frames key) := by
  let cmp := fun a b : Branch τ => a.element.comparePrecedence b.element
  have htrans : Std.TransCmp cmp := transCmp_on Element.comparePrecedence Branch.element
  have hsorted : (level.computed.map (Node.branch missing)).Pairwise
      fun a b => (cmp a b).isLE := by
    rw [List.pairwise_map]
    refine hord.computed_sorted.imp ?_
    intro a b hab
    simpa only [cmp, Node.branch_element] using hab
  rw [Composite.owner?, branchLevel_eq, Fields.lookup_map]
  exact congrArg _ (least?_filter hsorted _)

/-- A literal child owns its key. -/
theorem owner?_literal {key : String} {child : Node τ}
    (hc : level.literal.lookup key = some child) (frames : Frames) :
    (branchLevel missing level).owner? frames key = some (child.branch missing) := by
  rw [Composite.owner?, branchLevel_eq, Fields.lookup_map, hc]
  rfl

/-- A literal child claims every key of its name. -/
theorem claim?_literal (hord : level.Ordered) {key : String} {child : Node τ}
    (hc : (key, child) ∈ level.literal) (frames : Frames) (value : Option Json) (slot : Slot) :
    (child.branch missing).claim? frames ⟨key, value, slot⟩ =
      some ⟨child.branch missing, ⟨key, value, slot⟩, .plain key⟩ := by
  have he : child.element = .literal key := hord.literal_element (key, child) hc
  rw [Branch.claim?, Node.branch_element, he, Element.match?_literal, Option.map_some]

/-- Trying the literal child and then the computed ones finds the owner's claim. -/
theorem keyed_eq (hord : level.Ordered) (hsim : ∀ child ∈ level.children, child.Simulated missing)
    (hw : w.At site) (hsite : site.WellFormed) (ho : WellFormedInput offer.input) :
    (match claimNamed? missing level.literal offer w with
      | some w => w
      | none => (claimFirst? missing level.computed offer w).getD w) =
      (((branchLevel missing level).claimOf? site.frames offer).map (w.claimed site)).getD w := by
  have hcomputed := fun child hc => hsim child (Composite.mem_children_of_computed hc)
  rw [claimNamed?_eq, Composite.claimOf?, owner?_branchLevel hord,
    claimFirst?_eq hcomputed hw hsite ho]
  cases hl : level.literal.lookup offer.key with
  | none => rfl
  | some child =>
    have hm := Fields.mem_of_lookup hl
    have hchild := hsim child (Composite.mem_children_of_literal hm)
    obtain ⟨key, value, slot⟩ := offer
    rw [Option.bind_some, hchild.claim?_eq hw hsite ho, Option.map_some, Option.some_or,
      Option.bind_some, claim?_literal hord hm]
    rfl

theorem computed_eq_nil {literal : List (String × Node τ)} {computed : List (Node τ)}
    (h : Build.chooseStrategy literal computed = .literalsOnly) : computed = [] := by
  rw [Build.chooseStrategy] at h
  split at h
  · exact List.isEmpty_iff.mp ‹_›
  · split at h
    · cases h
    · split at h <;> cases h

theorem literal_eq_nil {literal : List (String × Node τ)} {computed : List (Node τ)}
    (h : Build.chooseStrategy literal computed = .computedOnly) : literal = [] := by
  rw [Build.chooseStrategy] at h
  split at h
  · cases h
  · split at h
    · exact List.isEmpty_iff.mp ‹_›
    · split at h <;> cases h

@[simp] theorem claimOf?_countBy (level : Composite (Branch τ)) (n : Nat) (frames : Frames)
    (offer : Offer) : level.claimOf? (frames.countBy n) offer = level.claimOf? frames offer := by
  simp only [Composite.claimOf?, Composite.owner?, Branch.accepts, Branch.claim?,
    Element.match?_countBy]

/-- A pass over values that are offered as keys follows the claims on these keys. -/
theorem foldl_offers_follows {α : Type} {step : Walk τ → α → Walk τ} {offered : α → Offer}
    {xs : List α} (hord : level.Ordered)
    (hsim : ∀ child ∈ level.children, child.Simulated missing) (hw : w.At site)
    (hsite : site.WellFormed) (hxs : ∀ offer ∈ xs.map offered, WellFormedInput offer.input)
    (hstep : ∀ x ∈ xs, ∀ m (w' : Walk τ), w'.At (site.counted m) → step w' x =
      match claimNamed? missing level.literal (offered x) w' with
      | some w => w
      | none => (claimFirst? missing level.computed (offered x) w').getD w') :
    w.Follows (xs.foldl step w) site 0
      ((xs.map offered).filterMap ((branchLevel missing level).claimOf? site.frames)) := by
  rw [List.filterMap_map]
  refine Walk.foldl_follows hw.counted_zero ?_
  intro x hx m w' hw'
  have hinput := hxs (offered x) (List.mem_map_of_mem hx)
  rw [hstep x hx m w' hw', keyed_eq hord hsim hw' (hsite.counted m) hinput, Site.counted,
    claimOf?_countBy]
  rfl

theorem offer_follows (hord : level.Ordered)
    (hsim : ∀ child ∈ level.children, child.Simulated missing) (hw : w.At site)
    (hsite : site.WellFormed) (ho : WellFormedInput offer.input) :
    w.Follows
      (match claimNamed? missing level.literal offer w with
        | some w => w
        | none => (claimFirst? missing level.computed offer w).getD w)
      site 0 ([offer].filterMap ((branchLevel missing level).claimOf? site.frames)) := by
  have hxs : ∀ o ∈ [offer].map id, WellFormedInput o.input := List.forall_mem_singleton.mpr ho
  let step (w : Walk τ) (offer : Offer) : Walk τ :=
    match claimNamed? missing level.literal offer w with
    | some w => w
    | none => (claimFirst? missing level.computed offer w).getD w
  have hstep : w.Follows ([offer].foldl step w) site 0 _ :=
    foldl_offers_follows hord hsim hw hsite hxs fun _ _ _ _ _ => rfl
  exact hstep

theorem claimEach_eq (literal : List (String × Node τ)) (fields : List (String × Json))
    (w : Walk τ) :
    claimEach missing literal fields w = literal.foldl (fun w field =>
      ((fields.lookup field.1).bind fun v =>
        field.2.claim? missing ⟨field.1, some v, .key field.1⟩ w).getD w) w := by
  induction literal generalizing w with
  | nil => rfl
  | cons field rest ih =>
    obtain ⟨key, child⟩ := field
    rw [claimEach, ih, List.foldl_cons]
    cases fields.lookup key <;> rfl

theorem claimMissing_eq (isArray : Bool) (literal : List (String × Node τ))
    (input : Option Json) (w : Walk τ) :
    claimMissing missing isArray literal input w = literal.foldl (fun w field =>
      ((missingSlot? isArray input field.1).bind fun slot =>
        field.2.claim? missing ⟨field.1, none, slot⟩ w).getD w) w := by
  induction literal generalizing w with
  | nil => rfl
  | cons field rest ih =>
    obtain ⟨key, child⟩ := field
    rw [claimMissing, ih, List.foldl_cons]
    cases missingSlot? isArray input key <;> rfl

/-- Looking up every literal child in an object claims the same keys in the same order as going
through the object, since both are in key order. -/
theorem literalsOnly_follows (hord : level.Ordered)
    (hsim : ∀ child ∈ level.children, child.Simulated missing) (hw : w.At site)
    (hsite : site.WellFormed) {fields : List (String × Json)}
    (hf : (Json.obj fields).WellFormed) (hnil : level.computed = []) :
    w.Follows (claimEach missing level.literal fields w) site 0
      ((branchLevel missing level).claims site.frames (some (.obj fields))) := by
  have hclaims : ((branchLevel missing level).claims site.frames (some (.obj fields))) =
      level.literal.filterMap fun field => (fields.lookup field.1).bind fun v =>
        (field.2.branch missing).claim? site.frames ⟨field.1, some v, .key field.1⟩ := by
    rw [Fields.filterMap_join hord.literal_sorted hf.sorted fun key child v =>
      (child.branch missing).claim? site.frames ⟨key, some v, .key key⟩, Composite.claims,
      offers, List.filterMap_map]
    apply List.filterMap_congr
    intro field _
    simp only [Function.comp_apply, Composite.claimOf?, owner?_branchLevel hord, hnil]
    cases level.literal.lookup field.1 <;> rfl
  rw [hclaims, claimEach_eq]
  refine Walk.foldl_follows hw.counted_zero ?_
  intro field hfield m w' hw'
  have hchild := hsim field.2 (Composite.mem_children_of_literal hfield)
  cases hl : fields.lookup field.1 with
  | none => rfl
  | some v =>
    have hv : WellFormedInput (some v) := (hf.field (Fields.mem_of_lookup hl)).input
    rw [Option.bind_some, Option.bind_some, hchild.claim?_eq hw' (hsite.counted m) hv]
    rw [claim?_literal hord hfield, claim?_literal hord hfield]

/-- Whatever the strategy, the keys of an object are claimed by their owners. -/
theorem fields_follow (hord : level.Ordered)
    (hsim : ∀ child ∈ level.children, child.Simulated missing) (hw : w.At site)
    (hsite : site.WellFormed) {fields : List (String × Json)}
    (hf : (Json.obj fields).WellFormed) :
    w.Follows
      (match level.strategy with
        | .literalsOnly => claimEach missing level.literal fields w
        | .computedOnly =>
          fields.foldl (fun w (key, v) =>
            (claimFirst? missing level.computed ⟨key, some v, .key key⟩ w).getD w) w
        | .noConflict =>
          fields.foldl (fun w (key, v) =>
            let offer : Offer := ⟨key, some v, .key key⟩
            if Fields.contains key level.literal then
              (claimNamed? missing level.literal offer w).getD w
            else (claimFirst? missing level.computed offer w).getD w) w
        | .conflict =>
          fields.foldl (fun w (key, v) =>
            match claimNamed? missing level.literal ⟨key, some v, .key key⟩ w with
            | some w => w
            | none =>
              (claimFirst? missing level.computed ⟨key, some v, .key key⟩ w).getD w) w)
      site 0 ((branchLevel missing level).claims site.frames (some (.obj fields))) := by
  have hxs : ∀ offer ∈ offers (some (.obj fields)), WellFormedInput offer.input :=
    fun _ ho => offers_wellFormed hf.input ho
  -- The cached strategy is what the buckets call for, so it says which of them are empty.
  have hstrategy := hord.strategy_eq
  cases hs : level.strategy with
  | literalsOnly =>
    rw [hs] at hstrategy
    exact literalsOnly_follows hord hsim hw hsite hf (computed_eq_nil hstrategy.symm)
  | computedOnly =>
    rw [hs] at hstrategy
    refine foldl_offers_follows hord hsim hw hsite hxs ?_
    intro field _ m w' _
    rw [literal_eq_nil hstrategy.symm]
    rfl
  | noConflict =>
    refine foldl_offers_follows hord hsim hw hsite hxs ?_
    intro field hfield m w' hw'
    have hv : WellFormedInput (some field.2) := (hf.field hfield).input
    dsimp only
    rw [Fields.contains, claimNamed?_eq]
    cases hl : level.literal.lookup field.1 with
    | none => rfl
    | some child =>
      have hm := Fields.mem_of_lookup hl
      have hchild := hsim child (Composite.mem_children_of_literal hm)
      rw [Option.bind_some, hchild.claim?_eq hw' (hsite.counted m) hv, claim?_literal hord hm]
      rfl
  | conflict =>
    refine foldl_offers_follows hord hsim hw hsite hxs ?_
    intro field _ m w' _
    rfl

/-- The missing keys are claimed by the literal children of their names. -/
theorem missing_follows (hord : level.Ordered)
    (hsim : ∀ child ∈ level.children, child.Simulated missing) {n : Nat}
    (hw : w.At (site.counted n)) (hsite : site.WellFormed) :
    w.Follows (if missing then claimMissing missing level.isArray level.literal input w else w)
      site n
      (if missing then (branchLevel missing level).missingClaims site.frames input else []) := by
  cases hmissing : missing with
  | false => exact Walk.Follows.refl w site n
  | true =>
    rw [hmissing] at hsim
    rw [if_pos rfl, if_pos rfl, claimMissing_eq, Composite.missingClaims, branchLevel_eq,
      List.filterMap_map]
    refine Walk.foldl_follows hw ?_
    intro field hfield m w' hw'
    have hchild := hsim field.2 (Composite.mem_children_of_literal hfield)
    have hnone : WellFormedInput none := nofun
    simp only [Function.comp_apply]
    cases missingSlot? level.isArray input field.1 with
    | none => rfl
    | some slot =>
      rw [Option.bind_some, Option.bind_some,
        hchild.claim?_eq hw' (hsite.counted m) hnone, claim?_literal hord hfield,
        claim?_literal hord hfield]

/-- The walk of a level visits the leaves that the plain walk reaches and counts the claims. -/
theorem processLevel_eq (hord : level.Ordered)
    (hsim : ∀ child ∈ level.children, child.Simulated missing) (hw : w.At site)
    (hsite : site.WellFormed) (hi : WellFormedInput input) :
    processLevel missing level input w =
      (w.extend ((branchLevel missing level).arrivals missing input site)).countBy
        ((branchLevel missing level).allClaims missing site.frames input).length := by
  have hspecial := fun child hc => hsim child (Composite.mem_children_of_special hc)
  have hdescribe := describeAll_eq hspecial hw hsite hi
  have hxs : ∀ offer ∈ offers input, WellFormedInput offer.input :=
    fun _ ho => offers_wellFormed hi ho
  let described := level.special.flatMap fun child => (child.branch missing).described input site
  have hw₁ : (w.extend described).At site := hw.extend described
  -- Once the stage of the input's keys is known, the missing ones follow on it.
  have hfinish : ∀ {w₂ : Walk τ}, (w.extend described).Follows w₂ site 0
      ((branchLevel missing level).claims site.frames input) →
      (if missing then claimMissing missing level.isArray level.literal input w₂ else w₂) =
        (w.extend ((branchLevel missing level).arrivals missing input site)).countBy
          ((branchLevel missing level).allClaims missing site.frames input).length := by
    intro w₂ hkeys
    have hmissing : w₂.Follows
        (if missing then claimMissing missing level.isArray level.literal input w₂ else w₂)
        site _ _ :=
      missing_follows hord hsim (hkeys.at hw₁.counted_zero) hsite
    have hall := hkeys.append hmissing
    rw [hall, Composite.arrivals, Walk.extend_append, branchLevel_eq]
    simp only [List.flatMap_map]
    rfl
  obtain ⟨element, rawKey, isArray, special, literal, computed, strategy⟩ := level
  rw [processLevel.eq_def]
  dsimp only at hdescribe ⊢
  rw [hdescribe]
  refine hfinish ?_
  cases input with
  | none => exact Walk.Follows.refl _ site 0
  | some value =>
    cases value with
    | obj fields => exact fields_follow hord hsim hw₁ hsite (hi _ rfl)
    | arr elements =>
      refine foldl_offers_follows hord hsim hw₁ hsite hxs ?_
      intro x _ m w' _
      rfl
    | null => exact Walk.Follows.refl _ site 0
    | _ => exact offer_follows hord hsim hw₁ hsite (hxs _ List.mem_cons_self)

end Stages

/-- Entering a leaf, visiting it and leaving it is following its branch. -/
theorem leaf_follows {w : Walk τ} {site : Site} (hw : w.At site) (missing : Bool)
    (element : Element) (rawKey : String) (target : τ) (slot : Slot) (matched : MatchedKey)
    (key : String) (data input : Option Json) :
    ((w.enter slot matched input).visit element target key data).leave slot =
      w.extend (((Node.leaf element rawKey target).branch missing).arrivals key data input
        (site.enter element slot matched input)) := by
  have hleave := w.leave_enter slot matched input
    [⟨element, target, key, data, site.enter element slot matched input⟩] 0
  rw [Walk.countBy_zero] at hleave
  rw [(hw.enter element slot matched input).visit, hleave]
  rfl

/-- Entering a level, walking it and leaving it is following its branch. -/
theorem level_follows {w : Walk τ} {site : Site} {missing : Bool} {level : Level τ}
    (hord : level.Ordered) (hsim : ∀ child ∈ level.children, child.Simulated missing)
    (hw : w.At site) (hsite : site.WellFormed) {input : Option Json}
    (hi : WellFormedInput input) (slot : Slot) (matched : MatchedKey) (key : String)
    (data : Option Json) :
    (processLevel missing level input (w.enter slot matched input)).leave slot =
      w.extend (((Node.composite level).branch missing).arrivals key data input
        (site.enter level.element slot matched input)) := by
  rw [processLevel_eq hord hsim (hw.enter level.element slot matched input)
    (hsite.enter level.element slot matched hi) hi, Walk.leave_enter]
  rfl

/-- The walk of every compiled node follows its branch. -/
theorem Node.Compiled.simulated {p : Policy τ} {node : Node τ} (h : node.Compiled p)
    (missing : Bool) : node.Simulated missing := by
  -- On the compiled node, so that every child is walked as its branch says before its level is.
  induction h with
  | @leaf element rawKey target _ =>
    constructor
    · intro w site offer hw _ _
      rw [Node.claim?, hw.frames, Branch.claim?, Option.map_map]
      refine congrArg (Option.map · _) (funext fun matched => ?_)
      rw [leaf_follows hw missing element rawKey target]
      rfl
    · intro w site input hw _ _
      rw [Node.describe, hw.frames, Branch.described]
      dsimp only [Node.branch]
      cases element.describe? site.frames input with
      | none => exact w.extend_nil.symm
      | some d => exact leaf_follows hw missing element rawKey target _ _ _ _ _
  | @composite level _ _ hord _ ih =>
    have he : ((Node.composite level).branch missing).element = level.element :=
      Node.branch_element missing _
    constructor
    · intro w site offer hw hsite ho
      rw [Node.claim?, hw.frames, Branch.claim?, Option.map_map, he]
      refine congrArg (Option.map · _) (funext fun matched => ?_)
      rw [level_follows hord ih hw hsite ho offer.slot matched offer.key offer.input,
        Function.comp_apply, Walk.claimed, Claim.arrivals, he]
    · intro w site input hw hsite hi
      rw [Node.describe, hw.frames, Branch.described, he]
      cases hd : level.element.describe? site.frames input with
      | none => exact w.extend_nil.symm
      | some d =>
        exact level_follows hord ih hw hsite (hsite.describe? hi hd) d.slot (.plain d.key) d.key
          d.data

namespace CompiledSpec

variable {policy : Policy τ} {config : Config} {raw input : Json} {spec : CompiledSpec τ}

/-- The visits of a walk are those of the plain walk. -/
theorem visits_eq (h : compile policy raw config = .ok spec) (hi : input.WellFormed) :
    spec.visits input = (spec.arrivals input).map Arrival.visit := by
  obtain ⟨rfl, -, hroot⟩ := of_compile h
  have hinput : WellFormedInput (some input) := hi.input
  have hsim := fun child hc => (hroot.children child hc).simulated spec.policy.visitsMissing
  have hstart : (Walk.start spec.rootKey input : Walk τ).At (Site.root spec.rootKey input) :=
    ⟨rfl, rfl, rfl⟩
  have hsite : (Site.root spec.rootKey input).WellFormed := List.forall_mem_singleton.mpr hinput
  rw [visits, processLevel_eq hroot.ordered hsim hstart hsite hinput]
  simp [Walk.extend, Walk.countBy, Walk.start, arrivals]

/-- **Strategies are only an optimisation.** The outcome of a walk is that of the plain walk, in
which every level hands each key of its input, in key order, to the literal child of that name or
else to the least computed child that matches. -/
theorem walk_eq_plainWalk (h : compile policy raw config = .ok spec) (hi : input.WellFormed) :
    spec.walk input = spec.plainWalk input := by
  rw [walk, plainWalk, visits_eq h hi]

/-- A level where a wildcard conflicts with a literal key, on an object that has keys of both. -/
theorem walk_eq_plainWalk_conflict :
    ∃ spec : CompiledSpec (List Pattern.WritePath),
      compile Operation.shift (.obj [("*", .str "rest[]"), ("b", .str "named")]) {} = .ok spec ∧
      (Json.obj [("a", .bool true), ("b", .bool false)]).WellFormed ∧
      spec.walk (.obj [("a", .bool true), ("b", .bool false)]) =
        spec.plainWalk (.obj [("a", .bool true), ("b", .bool false)]) := by
  have hwell : (Json.obj [("a", .bool true), ("b", .bool false)]).WellFormed :=
    ⟨by decide, trivial, trivial, trivial⟩
  have hcompiles : (compile Operation.shift
      (.obj [("*", .str "rest[]"), ("b", .str "named")]) {}).toOption.isSome = true := by
    decide +kernel
  obtain ⟨spec, hspec⟩ := exists_of_isSome hcompiles
  exact ⟨spec, hspec, hwell, walk_eq_plainWalk hspec hwell⟩

end CompiledSpec
end Reshape
