import Reshape.Operation.Cardinality
import Reshape.Proofs.Spec.Targets
import Reshape.Proofs.Walk.Place
/-!
# Document order

A walk that does not visit missing keys comes to the places of a document in their order, and to
each place once. At a level the value itself is first, and no two children stand for it; the members
follow in the order of the document, each claimed by one child. Detached leaves have no place.
-/
namespace Reshape

open Pattern (Element)

variable {τ : Type}

namespace Address

/-- Addresses below one place compare as they do from there. -/
@[simp] theorem compare_append (above a b : Address) :
    compare (above ++ a) (above ++ b) = compare a b := by
  induction above with
  | nil => rfl
  | cons step rest ih =>
    have hself : Step.compare step step = .eq := Std.ReflCmp.compare_self
    rw [List.cons_append, List.cons_append, compare, hself, ih]
    rfl

/-- Steps in order make addresses in order, wherever they lead. -/
theorem compare_cons_of_lt {s t : Step} (h : Step.compare s t = .lt) (a b : Address) :
    compare (s :: a) (t :: b) = .lt := by
  rw [compare, h]
  rfl

end Address

namespace Site

theorem attached_of_enter {site : Site} {element : Element} {slot : Slot} {key : MatchedKey}
    {input : Option Json} (h : (site.enter element slot key input).isDetached = false) :
    slot.isDetached = false ∧ site.isDetached = false :=
  Bool.or_eq_false_iff.mp h

/-- The place of a site starts the places below it. -/
theorem place_of_suffix {inner outer : Site} (h : outer.openings <:+ inner.openings)
    {location : Address} (hl : inner.location = some location) :
    outer.isDetached = false ∧ outer.place <+: location := by
  obtain ⟨hd, rfl⟩ := Site.location_eq_some.mp hl
  obtain ⟨below, hbelow⟩ := h
  rw [isDetached, ← hbelow, List.any_append, Bool.or_eq_false_iff] at hd
  refine ⟨hd.2, (below.filterMap fun opening => opening.slot.step?).reverse, ?_⟩
  rw [place, place, steps, steps, ← hbelow, List.filterMap_append, List.reverse_append]

end Site

/-! ## Places below a level -/

/-- What the child that makes a claim is entered with. -/
def Claim.entry (claim : Claim τ) (site : Site) : Entry :=
  ⟨claim.offer.key, claim.offer.input, claim.offer.input,
    site.enter claim.branch.element claim.offer.slot claim.matched claim.offer.input⟩

theorem Claim.arrivals_eq {claim : Claim τ} {missing : Bool} {child : Node τ}
    (h : claim.branch = child.branch missing) (site : Site) :
    claim.arrivals site = (claim.entry site).arrivals missing child := by
  rw [Claim.arrivals, Entry.arrivals, ← h]
  rfl

theorem Claim.place_entry {claim : Claim τ} {step : Step}
    (h : claim.offer.slot.step? = some step) (site : Site) (n : Nat) :
    (claim.entry (site.counted n)).site.place = site.place ++ [step] :=
  Site.place_enter_step h

/-- Leaves below a node are reached through the openings that lead to it. -/
theorem Node.Compiled.suffix_of_mem_arrivals {p : Policy τ} {missing : Bool} {node : Node τ}
    (hn : node.Compiled p) :
    ∀ {entry : Entry} {a : Arrival τ}, a ∈ entry.arrivals missing node →
      entry.site.openings <:+ a.site.openings := by
  induction hn with
  | leaf _ =>
    intro entry a ha
    obtain rfl := List.mem_singleton.mp ha
    exact List.suffix_rfl
  | composite _ _ _ _ ih =>
    intro entry a ha
    obtain ⟨child, hc, next, henters, ha⟩ := Composite.mem_arrivals ha
    obtain ⟨slot, hnext⟩ := henters.openings_eq
    have hsuffix := ih child hc ha
    rw [hnext] at hsuffix
    exact (List.suffix_cons _ _).trans hsuffix

namespace Composite

variable {p : Policy τ} {missing : Bool} {level : Level τ} {site : Site} {input : Option Json}

/-- Below a special child only the value of the level itself has a place. -/
theorem location_of_described {child : Node τ} (hc : child.Compiled p) {a : Arrival τ}
    (ha : a ∈ (child.branch missing).described input site) {location : Address}
    (hl : a.site.location = some location) :
    child.element = .value ∧ location = site.place := by
  rw [Branch.described, Node.branch_element] at ha
  cases hd : child.element.describe? site.frames input with
  | none => rw [hd] at ha; cases ha
  | some d =>
    rw [hd] at ha
    let entry : Entry := ⟨d.key, d.data, d.input,
      site.enter child.element d.slot (.plain d.key) d.input⟩
    have hm : a ∈ entry.arrivals missing child := ha
    obtain ⟨hattached, -⟩ := Site.place_of_suffix (hc.suffix_of_mem_arrivals hm) hl
    rcases Element.describe?_cases hd with ⟨hvalue, hslot, -, -⟩ | ⟨hslot, -, -⟩
    · refine ⟨hvalue, ?_⟩
      cases hc with
      | leaf _ =>
        obtain rfl := List.mem_singleton.mp hm
        obtain ⟨-, rfl⟩ := Site.location_eq_some.mp hl
        refine Site.place_enter_none ?_
        rw [hslot]
        rfl
      | @composite inner _ accepts _ _ =>
        have hinner : inner.element = .value := hvalue
        rw [hinner] at accepts
        cases accepts
    · have hslot' := (Site.attached_of_enter hattached).1
      rw [hslot] at hslot'
      cases hslot'

/-- Below a claimed member places go through its step. -/
theorem location_of_claim (hlevel : level.Compiled p) {claim : Claim τ} {n : Nat}
    (hm : claim ∈ (branchLevel missing level).allClaims missing site.frames input) {a : Arrival τ}
    (ha : a ∈ claim.arrivals (site.counted n)) {location : Address}
    (hl : a.site.location = some location) :
    site.isDetached = false ∧ ∃ step rest, claim.offer.slot.step? = some step ∧
      location = site.place ++ step :: rest := by
  obtain ⟨child, hc, hb, ho, -⟩ := claim_of_mem_allClaims hm
  rw [Claim.arrivals_eq hb] at ha
  have hsuffix := (hlevel.children child hc).suffix_of_mem_arrivals ha
  obtain ⟨hattached, rest, hplace⟩ := Site.place_of_suffix hsuffix hl
  obtain ⟨hslot, hsite⟩ := Site.attached_of_enter hattached
  obtain ⟨step, hstep⟩ :=
    Option.isSome_iff_exists.mp (Slot.step?_isSome hslot ho.slot_ne_same)
  refine ⟨hsite, step, rest, hstep, ?_⟩
  rw [← hplace, Claim.place_entry hstep, List.append_assoc]
  rfl

end Composite

/-! ## The order of the members -/

/-- The place of the first slot is before that of the second, if both have one. -/
def Slot.Before (a b : Slot) : Prop :=
  ∀ s t, a.step? = some s → b.step? = some t → Step.compare s t = .lt

/-- A value offers its members in their order. -/
theorem offers_increasing {input : Option Json} (hi : WellFormedInput input) :
    (offers input).Pairwise fun o o' => o.slot.Before o'.slot := by
  cases input with
  | none => exact .nil
  | some value =>
    cases value with
    | obj fields =>
      refine List.pairwise_map.mpr ((hi _ rfl).sorted.imp ?_)
      rintro a b hlt _ _ ⟨⟩ ⟨⟩
      exact compare_lt_iff_lt.mpr hlt
    | arr elements =>
      have hpositions : (elements.zipIdx.map Prod.snd).Pairwise (· < ·) := by
        rw [List.zipIdx_map_snd]
        exact List.pairwise_lt_range'
      refine List.pairwise_map.mpr ((List.pairwise_map.mp hpositions).imp ?_)
      rintro a b hlt _ _ ⟨⟩ ⟨⟩
      exact compare_lt_iff_lt.mpr hlt
    | _ =>
      refine List.pairwise_map.mpr ?_
      generalize Json.scalarKey? _ = key
      cases key with
      | none => exact .nil
      | some key => exact List.pairwise_singleton _ _

/-! ## The order of the leaves -/

/-- Wherever both leaves are reached in the document, the first is reached at a place before that of
the second. -/
def Arrival.Before (a b : Arrival τ) : Prop :=
  ∀ l l', a.site.location = some l → b.site.location = some l' → Address.compare l l' = .lt

/-- The leaves below the node are reached in document order, however it is entered. -/
def Node.Increasing (node : Node τ) : Prop :=
  ∀ entry : Entry, (entry.site.isDetached = false → WellFormedInput entry.input) →
    (entry.arrivals false node).Pairwise Arrival.Before

namespace Composite

variable {p : Policy τ} {level : Level τ} {site : Site} {input : Option Json}

/-- The members that a level claims are claimed in their order. -/
theorem claims_increasing (level : Level τ)
    (hi : site.isDetached = false → WellFormedInput input) :
    ((branchLevel false level).allClaims false site.frames input).Pairwise fun c c' =>
      site.isDetached = false → c.offer.slot.Before c'.offer.slot := by
  cases hd : site.isDetached with
  | true =>
    refine List.pairwise_of_forall fun _ _ hsite => ?_
    cases hsite
  | false =>
    rw [allClaims, if_neg Bool.false_ne_true, List.append_nil, claims, List.pairwise_filterMap]
    refine (offers_increasing (hi hd)).imp ?_
    intro o o' hbefore c hc c' hc' _
    rw [offer_of_claimOf? hc, offer_of_claimOf? hc']
    exact hbefore

theorem special_increasing (hlevel : level.Compiled p) {n : Nat} (hexact : level.Exact n)
    (hchildren : ∀ child ∈ level.children, child.Increasing)
    (hi : site.isDetached = false → WellFormedInput input) :
    (level.special.flatMap fun child => (child.branch false).described input site).Pairwise
      Arrival.Before := by
  refine List.pairwise_flatMap.mpr ⟨?_, ?_⟩
  · intro child hc
    rw [Branch.described, Node.branch_element]
    cases hd : child.element.describe? site.frames input with
    | none => exact .nil
    | some d =>
      refine hchildren child (mem_children_of_special hc) ⟨d.key, d.data, d.input, _⟩ ?_
      intro hattached
      obtain ⟨hslot, hsite⟩ := Site.attached_of_enter hattached
      rcases Element.describe?_cases hd with ⟨-, -, -, hinput⟩ | ⟨hdetached, -, -⟩
      · exact hinput ▸ hi hsite
      · rw [hdetached] at hslot
        cases hslot
  · -- Two special children are different, so only one of them is the value of the level.
    have hdistinct := hexact.distinct
    rw [children, List.append_assoc] at hdistinct
    refine (List.pairwise_append.mp hdistinct).1.imp_of_mem ?_
    intro child child' hc hc' hne a ha b hb l l' hl hl'
    obtain ⟨hvalue, -⟩ :=
      location_of_described (hlevel.children child (mem_children_of_special hc)) ha hl
    obtain ⟨hvalue', -⟩ :=
      location_of_described (hlevel.children child' (mem_children_of_special hc')) hb hl'
    exact absurd (hvalue.trans hvalue'.symm) hne

/-- The leaves below a level are reached in document order, if those below its children are. -/
theorem arrivals_increasing (hlevel : level.Compiled p) {n : Nat} (hexact : level.Exact n)
    (hchildren : ∀ child ∈ level.children, child.Increasing)
    (hi : site.isDetached = false → WellFormedInput input) :
    ((branchLevel false level).arrivals false input site).Pairwise Arrival.Before := by
  rw [arrivals, branchLevel_special, List.flatMap_map]
  refine List.pairwise_append.mpr
    ⟨special_increasing hlevel hexact hchildren hi, List.pairwise_flatMap.mpr ⟨?_, ?_⟩, ?_⟩
  · rintro ⟨claim, n⟩ hm
    obtain ⟨child, hc, hb, ho, -⟩ := claim_of_mem_allClaims (List.fst_mem_of_mem_zipIdx hm)
    dsimp only
    rw [Claim.arrivals_eq hb]
    refine hchildren child hc _ fun hattached => ?_
    exact ho.wellFormed (hi (Site.attached_of_enter hattached).2)
  · have hordered := claims_increasing level hi
    rw [← List.zipIdx_map_fst 0 ((branchLevel false level).allClaims false site.frames input)]
      at hordered
    refine (List.pairwise_map.mp hordered).imp_of_mem ?_
    rintro ⟨c, n⟩ ⟨c', n'⟩ hm hm' hbefore a ha b hb l l' hl hl'
    obtain ⟨hd, step, rest, hs, rfl⟩ :=
      location_of_claim hlevel (List.fst_mem_of_mem_zipIdx hm) ha hl
    obtain ⟨-, step', rest', hs', rfl⟩ :=
      location_of_claim hlevel (List.fst_mem_of_mem_zipIdx hm') hb hl'
    rw [Address.compare_append]
    exact Address.compare_cons_of_lt (hbefore hd step step' hs hs') rest rest'
  · intro a ha b hb l l' hl hl'
    obtain ⟨child, hc, ha⟩ := List.mem_flatMap.mp ha
    obtain ⟨⟨claim, n⟩, hm, hb⟩ := List.mem_flatMap.mp hb
    obtain ⟨-, rfl⟩ :=
      location_of_described (hlevel.children child (mem_children_of_special hc)) ha hl
    obtain ⟨-, step, rest, -, rfl⟩ :=
      location_of_claim hlevel (List.fst_mem_of_mem_zipIdx hm) hb hl'
    have hroot := Address.compare_append site.place [] (step :: rest)
    rw [List.append_nil] at hroot
    exact hroot

end Composite

/-- By induction on the node. -/
theorem Node.Compiled.increasing {p : Policy τ} {node : Node τ} (hn : node.Compiled p) :
    ∀ {key : String} {value : Json}, Node.From key value node → node.Increasing := by
  induction hn with
  | leaf _ =>
    intro _ _ _ entry _
    exact List.pairwise_singleton _ _
  | composite _ _ hordered hchildren ih =>
    intro _ _ hfrom entry hi
    cases hfrom with
    | composite _ _ _ hlevel =>
      obtain ⟨n, hexact⟩ := hlevel.exists_exact
      refine Composite.arrivals_increasing ⟨hordered, hchildren⟩ hexact ?_ hi
      intro child hc
      obtain ⟨_, _, hchild⟩ := hlevel.child hc
      exact ih child hc hchild

namespace CompiledSpec

variable {policy : Policy τ} {config : Config} {raw document : Json} {spec : CompiledSpec τ}

/-- Leaves are reached in document order. -/
theorem arrivals_increasing (h : compile policy raw config = .ok spec)
    (hp : policy.visitsMissing = false) (hdoc : document.WellFormed) :
    (spec.arrivals document).Pairwise Arrival.Before := by
  obtain ⟨hpolicy, -, hroot⟩ := of_compile h
  obtain ⟨_, -, hfrom⟩ := Build.root_from (gives_root h)
  obtain ⟨n, hexact⟩ := hfrom.exists_exact
  have hchildren : ∀ child ∈ spec.root.children, child.Increasing := by
    intro child hc
    obtain ⟨_, _, hchild⟩ := hfrom.child hc
    exact (hroot.children child hc).increasing hchild
  rw [arrivals, hpolicy, hp]
  exact Composite.arrivals_increasing hroot hexact hchildren fun _ => hdoc.input

/-- **Edits are made in document order.** If a policy does not visit missing keys, the locations of
the edits of a walk strictly increase, so that no place of a document is edited twice. -/
theorem edits_increasing (h : compile policy raw config = .ok spec)
    (hp : policy.visitsMissing = false) (hdoc : document.WellFormed) :
    ((spec.walk document).edits.Pairwise fun e f =>
        Address.compare e.location f.location = .lt) ∧
      ((spec.walk document).edits.map Edit.location).Nodup := by
  have hincreasing : (spec.walk document).edits.Pairwise fun e f =>
      Address.compare e.location f.location = .lt := by
    rw [walk, visits_eq h hdoc, Outcome.ofVisits, List.filterMap_map]
    refine List.pairwise_filterMap.mpr ((arrivals_increasing h hp hdoc).imp ?_)
    intro a b hbefore e he f hf
    exact hbefore _ _ (Outcome.location_of_edit? he) (Outcome.location_of_edit? hf)
  refine ⟨hincreasing, List.pairwise_map.mpr (hincreasing.imp ?_)⟩
  intro e f hlt he
  have hself : Address.compare f.location f.location = .eq := Std.ReflCmp.compare_self
  rw [he, hself] at hlt
  cases hlt

/-- The value of a level is edited before the members of the level. -/
theorem edits_increasing_value :
    let document : Json := .obj [("a", .obj [("b", .arr [.null]), ("c", .bool true)])]
    ∃ spec : CompiledSpec Operation.Multiplicity,
      compile Operation.cardinality
        (.obj [("a", .obj [("*", .str "MANY"), ("@", .str "MANY"), ("b", .str "ONE")])]) {} =
          .ok spec ∧
      Operation.cardinality.visitsMissing = false ∧ document.WellFormed ∧
      (spec.walk document).edits.map Edit.location =
        [[.key "a"], [.key "a", .key "b"], [.key "a", .key "c"]] ∧
      ((spec.walk document).edits.Pairwise fun e f =>
        Address.compare e.location f.location = .lt) ∧
      ((spec.walk document).edits.map Edit.location).Nodup := by
  intro document
  have hwell : document.WellFormed := by
    have hfields : (Json.obj [("b", .arr [.null]), ("c", .bool true)]).WellFormed :=
      ⟨by decide, ⟨trivial, trivial⟩, trivial, trivial⟩
    exact ⟨by decide, hfields, trivial⟩
  have hcompiles : (compile Operation.cardinality
      (.obj [("a", .obj [("*", .str "MANY"), ("@", .str "MANY"), ("b", .str "ONE")])])
      {}).toOption.map (fun spec => (spec.walk document).edits.map Edit.location) =
      some [[.key "a"], [.key "a", .key "b"], [.key "a", .key "c"]] := by
    decide +kernel
  obtain ⟨spec, hspec, hlocations⟩ := exists_of_map hcompiles
  exact ⟨spec, hspec, rfl, hwell, hlocations, edits_increasing hspec rfl hwell⟩

end CompiledSpec
end Reshape
