import Reshape.Proofs.Edit.Along
import Reshape.Proofs.Edit.Defaults
import Reshape.Proofs.Edit.Modes
import Reshape.Proofs.Edit.Replace
import Reshape.Proofs.Walk.DocumentOrder
/-!
# Where literal values land

A leaf below literal keys is visited at the place that its keys name, if the values on the way are
null, missing or objects: a level claims each key of the input once, and a key that the input lacks
is claimed by the literal child. Whatever else the spec says, everything else is set at places that
depart from the keys, and so the value of the leaf is found at its place in the end.
-/
namespace Reshape

open Pattern (Element)

variable {τ : Type}

/-! ## Literal keys and what is open along them -/

/-- The target of the leaf that literal keys lead to from a level, if every level on the way is of a
kind. -/
def Composite.leaf? (through : Level τ → Bool) : Level τ → List String → Option τ
  | _, [] => none
  | level, key :: keys =>
    if through level then
      match level.literal.lookup key with
      | some (.leaf _ _ target) => if keys.isEmpty then some target else none
      | some (.composite inner) => leaf? through inner keys
      | none => none
    else none

/-- The level is not declared to be a list, and no child stands for its value. -/
def Composite.isBare (level : Level τ) : Bool :=
  !level.isArray && level.special.all fun child => child.element != .value

theorem Composite.isBare_iff {level : Level τ} : level.isBare = true ↔
    level.isArray = false ∧ ∀ child ∈ level.special, child.element ≠ .value := by
  have hvalue (e : Element) : (e != .value) = true ↔ e ≠ .value := by
    cases e <;> simp [bne, BEq.beq, Element.beq]
  rw [isBare, Bool.and_eq_true_iff, Bool.not_eq_true', List.all_eq_true]
  simp only [hvalue]

/-- The input is null, missing or an object open along the keys. -/
def OpenInput (input : Option Json) (keys : List String) : Prop :=
  ∀ v, input = some v → v.OpenAlong keys

theorem OpenInput.cases {input : Option Json} {key : String} {keys : List String}
    (h : OpenInput input (key :: keys)) :
    input = none ∨ input = some .null ∨ ∃ fields, input = some (.obj fields) := by
  cases input with
  | none => exact .inl rfl
  | some v =>
    rcases (Json.openAlong_cons.mp (h v rfl)).1 with rfl | ⟨fields, rfl⟩
    · exact .inr (.inl rfl)
    · exact .inr (.inr ⟨fields, rfl⟩)

/-- Only an object that has the key leaves no room for it. -/
theorem OpenInput.exists_field {input : Option Json} {key : String} {keys : List String}
    (h : OpenInput input (key :: keys)) (hs : missingSlot? false input key = none) :
    ∃ fields v, input = some (.obj fields) ∧ fields.lookup key = some v := by
  rcases h.cases with rfl | rfl | ⟨fields, rfl⟩
  · cases hs
  · cases hs
  · rw [missingSlot?] at hs
    split at hs
    · obtain ⟨v, hv⟩ := Option.isSome_iff_exists.mp ‹_›
      exact ⟨fields, v, rfl, hv⟩
    · cases hs

/-- A level that is open offers the key of each member and nothing else. -/
theorem Offered.slot_eq {missing : Bool} {input : Option Json} {offer : Offer} {key : String}
    {keys : List String} (ho : Offered missing false input offer)
    (hi : OpenInput input (key :: keys)) : offer.slot = .key offer.key := by
  rcases ho with ho | ⟨-, -, hslot⟩
  · rcases hi.cases with rfl | rfl | ⟨fields, rfl⟩
    · cases ho
    · cases ho
    · obtain ⟨field, -, rfl⟩ := List.mem_map.mp ho
      rfl
  · rcases hi.cases with rfl | rfl | ⟨fields, rfl⟩
    · exact (Option.some.inj hslot).symm
    · exact (Option.some.inj hslot).symm
    · rw [missingSlot?] at hslot
      split at hslot
      · cases hslot
      · exact (Option.some.inj hslot).symm

/-- The value of the next key is open along the rest of them. -/
theorem Offered.openInput {missing : Bool} {input : Option Json} {offer : Offer} {key : String}
    {keys : List String} (ho : Offered missing false input offer) (hw : WellFormedInput input)
    (hi : OpenInput input (key :: keys)) (hk : offer.key = key) : OpenInput offer.input keys := by
  have hslot := ho.slot_eq hi
  rcases ho.child? hw with hdetached | ⟨step, hstep, hchild⟩
  · rw [hslot] at hdetached
    cases hdetached
  · rw [hslot, hk] at hstep
    obtain rfl := Option.some.inj hstep
    intro child hc
    rw [hchild] at hc
    obtain ⟨v, hv, hc⟩ := Option.bind_eq_some_iff.mp hc
    exact (Json.openAlong_cons.mp (hi v hv)).2 child hc

namespace Composite

variable {missing : Bool} {level : Level τ} {frames : Frames} {input : Option Json} {key : String}
  {keys : List String} {child : Node τ}

/-- No other child claims the key of a literal child. -/
theorem branch_of_literal (hord : level.Ordered) (hc : level.literal.lookup key = some child)
    {claim : Claim τ} (hm : claim ∈ (branchLevel missing level).allClaims missing frames input)
    (hk : claim.offer.key = key) : claim.branch = child.branch missing := by
  rcases List.mem_append.mp hm with hm | hm
  · obtain ⟨offer, -, hclaim⟩ := List.mem_filterMap.mp hm
    obtain ⟨branch, howner, hclaim⟩ := Option.bind_eq_some_iff.mp hclaim
    obtain ⟨matched, -, rfl⟩ := Option.map_eq_some_iff.mp hclaim
    have hkey : offer.key = key := hk
    rw [hkey, owner?_literal hc] at howner
    exact (Option.some.inj howner).symm
  · cases missing with
    | false => cases hm
    | true =>
      rw [if_pos rfl, missingClaims, branchLevel_eq] at hm
      obtain ⟨⟨name, branch⟩, hb, hclaim⟩ := List.mem_filterMap.mp hm
      obtain ⟨⟨name', other⟩, hother, he⟩ := List.mem_map.mp hb
      obtain ⟨rfl, rfl⟩ := Prod.mk.inj he
      obtain ⟨slot, -, hclaim⟩ := Option.bind_eq_some_iff.mp hclaim
      obtain ⟨matched, -, rfl⟩ := Option.map_eq_some_iff.mp hclaim
      obtain rfl : name' = key := hk
      have hlookup := Fields.lookup_of_mem hord.literal_sorted hother
      rw [hc] at hlookup
      rw [Option.some.inj hlookup]

/-- The key of a literal child is claimed whether the input has it or not. -/
theorem exists_claim_literal (frames : Frames) (hord : level.Ordered)
    (harray : level.isArray = false) (hc : level.literal.lookup key = some child)
    (hi : OpenInput input (key :: keys)) :
    ∃ claim ∈ (branchLevel true level).allClaims true frames input, claim.offer.key = key := by
  have hmem : (key, child) ∈ level.literal := Fields.mem_of_lookup hc
  cases hs : missingSlot? level.isArray input key with
  | some slot =>
    let claim : Claim τ := ⟨child.branch true, ⟨key, none, slot⟩, .plain key⟩
    have hclaim : (child.branch true).claim? frames claim.offer = some claim :=
      claim?_literal hord hmem frames none slot
    refine ⟨claim, List.mem_append_right _ ?_, rfl⟩
    rw [if_pos rfl, missingClaims, branchLevel_eq]
    refine List.mem_filterMap.mpr ⟨(key, child.branch true), List.mem_map_of_mem hmem, ?_⟩
    dsimp only
    rw [hs]
    exact hclaim
  | none =>
    rw [harray] at hs
    obtain ⟨fields, v, rfl, hv⟩ := hi.exists_field hs
    let claim : Claim τ := ⟨child.branch true, ⟨key, some v, .key key⟩, .plain key⟩
    have hclaim : (child.branch true).claim? frames claim.offer = some claim :=
      claim?_literal hord hmem frames (some v) (.key key)
    have hoffer : claim.offer ∈ offers (some (.obj fields)) :=
      List.mem_map_of_mem (Fields.mem_of_lookup hv)
    refine ⟨claim, List.mem_append_left _ (List.mem_filterMap.mpr ⟨claim.offer, hoffer, ?_⟩), rfl⟩
    rw [claimOf?, owner?_literal hc]
    exact hclaim

end Composite

/-! ## Leaves below literal keys -/

/-- Among the leaves reached below a site one with the target is at the place that the keys name,
and wherever else one is reached departs from the keys. -/
structure Arrival.Lands (keys : List String) (target : τ) (site : Site)
    (arrivals : List (Arrival τ)) : Prop where
  reached : ∃ a ∈ arrivals,
    a.site.location = some (site.place ++ keys.map Step.key) ∧ a.target = target
  only : ∀ a ∈ arrivals, ∀ location, a.site.location = some location →
    ∃ below, location = site.place ++ below ∧
      (Address.Departs keys below ∨ below = keys.map Step.key ∧ a.target = target)

/-- The leaves below a node land so, wherever it is entered with a value open along the keys. -/
def Node.Lands (keys : List String) (target : τ) (node : Node τ) : Prop :=
  ∀ entry : Entry, entry.site.isDetached = false → WellFormedInput entry.input →
    OpenInput entry.input keys → Arrival.Lands keys target entry.site (entry.arrivals true node)

theorem Node.lands_leaf (element : Element) (rawKey : String) (target : τ) :
    (Node.leaf element rawKey target).Lands [] target := by
  intro entry hd _ _
  have hplace : entry.site.location = some entry.site.place :=
    Site.location_eq_some.mpr ⟨hd, rfl⟩
  constructor
  · refine ⟨_, List.mem_singleton_self _, ?_, rfl⟩
    rw [List.map_nil, List.append_nil]
    exact hplace
  · intro a ha location hl
    obtain rfl := List.mem_singleton.mp ha
    obtain rfl := Option.some.inj (hplace.symm.trans hl)
    exact ⟨[], (List.append_nil _).symm, .inr ⟨rfl, rfl⟩⟩

namespace Composite

variable {p : Policy τ} {level : Level τ} {site : Site} {input : Option Json} {key : String}
  {keys : List String} {child : Node τ} {target : τ}

/-- The claim of the next key goes on to the literal child, at the place of the key. -/
theorem claim_lands (hlevel : level.Compiled p) (harray : level.isArray = false)
    (hc : level.literal.lookup key = some child) (hchild : child.Lands keys target)
    (hd : site.isDetached = false) (hw : WellFormedInput input)
    (hi : OpenInput input (key :: keys)) {claim : Claim τ}
    (hm : claim ∈ (branchLevel true level).allClaims true site.frames input)
    (hk : claim.offer.key = key) (n : Nat) :
    ∃ entered : Site, entered.place = site.place ++ [.key key] ∧
      Arrival.Lands keys target entered (claim.arrivals (site.counted n)) := by
  obtain ⟨-, -, -, ho, -⟩ := claim_of_mem_allClaims hm
  rw [harray] at ho
  have hslot : claim.offer.slot = .key key := hk ▸ ho.slot_eq hi
  let entry : Entry := claim.entry (site.counted n)
  have hentered : entry.site.isDetached = false := by
    refine Bool.or_eq_false_iff.mpr ⟨?_, hd⟩
    rw [hslot]
    rfl
  refine ⟨entry.site, Claim.place_entry (by rw [hslot]; rfl) site n, ?_⟩
  rw [Claim.arrivals_eq (branch_of_literal hlevel.ordered hc hm hk)]
  exact hchild entry hentered (ho.wellFormed hw) (ho.openInput hw hi hk)

/-- Below a bare level leaves land as they do below the literal child of the next key. -/
theorem arrivals_land (hlevel : level.Compiled p) (hbare : level.isBare = true)
    (hc : level.literal.lookup key = some child) (hchild : child.Lands keys target)
    (hd : site.isDetached = false) (hw : WellFormedInput input)
    (hi : OpenInput input (key :: keys)) :
    Arrival.Lands (key :: keys) target site
      ((branchLevel true level).arrivals true input site) := by
  obtain ⟨harray, hspecial⟩ := isBare_iff.mp hbare
  have hclaimed {claim : Claim τ}
      (hm : claim ∈ (branchLevel true level).allClaims true site.frames input)
      (hk : claim.offer.key = key) (n : Nat) :=
    claim_lands hlevel harray hc hchild hd hw hi hm hk n
  have happend (below : Address) : site.place ++ [.key key] ++ below =
      site.place ++ .key key :: below := List.append_assoc _ _ _
  constructor
  · obtain ⟨claim, hm, hk⟩ := exists_claim_literal site.frames hlevel.ordered harray hc hi
    obtain ⟨n, hn⟩ := List.mem_iff_getElem?.mp hm
    obtain ⟨entered, hplace, hlands⟩ := hclaimed hm hk n
    obtain ⟨a, ha, hl, htarget⟩ := hlands.reached
    refine ⟨a, List.mem_append_right _ (List.mem_flatMap.mpr
      ⟨(claim, n), List.mem_zipIdx_iff_getElem?.mpr hn, ha⟩), ?_, htarget⟩
    rw [hl, hplace, happend, List.map_cons]
  · intro a ha location hl
    rcases List.mem_append.mp ha with ha | ha
    · obtain ⟨branch, hb, ha⟩ := List.mem_flatMap.mp ha
      rw [branchLevel_special] at hb
      obtain ⟨special, hs, rfl⟩ := List.mem_map.mp hb
      obtain ⟨hvalue, -⟩ :=
        location_of_described (hlevel.children special (mem_children_of_special hs)) ha hl
      exact absurd hvalue (hspecial special hs)
    · obtain ⟨⟨claim, n⟩, hm, ha⟩ := List.mem_flatMap.mp ha
      have hm := List.fst_mem_of_mem_zipIdx hm
      by_cases hk : claim.offer.key = key
      · obtain ⟨entered, hplace, hlands⟩ := hclaimed hm hk n
        obtain ⟨below, rfl, hbelow⟩ := hlands.only a ha location hl
        refine ⟨.key key :: below, by rw [hplace, happend], ?_⟩
        rcases hbelow with hdeparts | ⟨rfl, htarget⟩
        · exact .inl (.later key hdeparts)
        · exact .inr ⟨rfl, htarget⟩
      · obtain ⟨-, -, -, ho, -⟩ := claim_of_mem_allClaims hm
        rw [harray] at ho
        obtain ⟨-, step, rest, hstep, rfl⟩ := location_of_claim hlevel hm ha hl
        rw [ho.slot_eq hi] at hstep
        obtain rfl := Option.some.inj hstep
        exact ⟨_, rfl, .inl (.here hk keys rest)⟩

/-- The leaves below a level land so where literal keys lead to a leaf with the target. The
induction is on the keys. -/
theorem leaf_lands {through : Level τ → Bool}
    (hthrough : ∀ {level : Level τ}, level.Compiled p → through level = true →
      level.isBare = true)
    (hlevel : level.Compiled p) (h : level.leaf? through keys = some target)
    (hd : site.isDetached = false) (hw : WellFormedInput input) (hi : OpenInput input keys) :
    Arrival.Lands keys target site ((branchLevel true level).arrivals true input site) := by
  induction keys generalizing level site input with
  | nil => cases h
  | cons key keys ih =>
    rw [leaf?] at h
    split at h
    · have hbare := hthrough hlevel ‹_›
      split at h
      · -- The leaf is below the last key.
        rename_i hc
        split at h
        · obtain rfl := List.isEmpty_iff.mp ‹_›
          obtain rfl := Option.some.inj h
          exact arrivals_land hlevel hbare hc (Node.lands_leaf _ _ _) hd hw hi
        · cases h
      · rename_i inner hc
        refine arrivals_land hlevel hbare hc (fun entry => ?_) hd hw hi
        have hcompiled := hlevel.children _ (mem_children_of_literal (Fields.mem_of_lookup hc))
        cases hcompiled with
        | composite _ _ ordered children => exact ih ⟨ordered, children⟩ h
      · cases h
    · cases h

end Composite

/-! ## Edits -/

/-- A value is set where a visit has a location and replaces what is there. -/
theorem Outcome.mem_replacements {decide : Visit τ → Decision} {visits : List (Visit τ)}
    {r : Address × Json} :
    r ∈ (ofVisits decide visits).edits.filterMap replacement? ↔
      ∃ v ∈ visits, v.location = some r.1 ∧ decide v = .replace r.2 := by
  constructor
  · intro hr
    obtain ⟨e, he, hr⟩ := List.mem_filterMap.mp hr
    obtain ⟨v, hv, he⟩ := List.mem_filterMap.mp he
    obtain ⟨hlocation, hchange⟩ := replacement?_eq_some.mp hr
    refine ⟨v, hv, hlocation ▸ location_of_edit? he, ?_⟩
    cases hd : decide v with
    | replace value =>
      rw [hd] at he
      obtain ⟨location, -, rfl⟩ := Option.map_eq_some_iff.mp he
      rw [Change.replace.inj hchange]
    | remove =>
      rw [hd] at he
      obtain ⟨location, -, rfl⟩ := Option.map_eq_some_iff.mp he
      cases hchange
    | skip | write _ _ =>
      rw [hd] at he
      cases he
  · rintro ⟨v, hv, hlocation, hd⟩
    refine List.mem_filterMap.mpr ⟨⟨r.1, .replace r.2⟩, List.mem_filterMap.mpr ⟨v, hv, ?_⟩, rfl⟩
    rw [hd, edit?, hlocation]
    rfl

namespace CompiledSpec

variable {policy : Policy τ} {config : Config} {raw document : Json} {spec : CompiledSpec τ}
  {keys : List String} {target : τ} {value : Json} {applies : Option Json → Bool}
  {through : Level τ → Bool}

section Land

variable (h : compile policy raw config = .ok spec) (hp : policy.visitsMissing = true)
  (hthrough : ∀ {level : Level τ}, level.Compiled policy → through level = true →
    level.isBare = true)
  (hleaf : spec.root.leaf? through keys = some target) (hdoc : document.WellFormed)
  (hopen : document.OpenAlong keys)
include h hp hthrough hleaf hdoc hopen

theorem arrivals_land :
    Arrival.Lands keys target (Site.root spec.rootKey document) (spec.arrivals document) := by
  obtain ⟨hpolicy, -, hroot⟩ := of_compile h
  rw [arrivals, hpolicy, hp]
  refine Composite.leaf_lands hthrough hroot hleaf rfl hdoc.input ?_
  rintro _ ⟨⟩
  exact hopen

/-- If leaves with the target replace what they apply to by the value, then the value is set at the
place that the keys name where the leaf applies to what the document has there, and everything else
is set at places that depart from the keys. -/
theorem replacements_land
    (hdecide : ∀ v, v.target = target →
      policy.decide v = if applies v.data then .replace value else .skip) :
    (∀ r ∈ (spec.walk document).edits.filterMap Outcome.replacement?,
        Address.Departs keys r.1 ∨
          r = (keys.map Step.key, value) ∧ applies (document.get? (keys.map Step.key)) = true) ∧
      (applies (document.get? (keys.map Step.key)) = true →
        (keys.map Step.key, value) ∈
          (spec.walk document).edits.filterMap Outcome.replacement?) := by
  have hlands := arrivals_land h hp hthrough hleaf hdoc hopen
  have hvisits := visits_eq h hdoc
  obtain ⟨hpolicy, -, -⟩ := of_compile h
  rw [walk, hpolicy]
  constructor
  · rintro ⟨location, new⟩ hr
    obtain ⟨v, hv, hl, hreplace⟩ := Outcome.mem_replacements.mp hr
    have hdata := data_eq_of_mem_visits h hdoc hv hl
    rw [hvisits] at hv
    obtain ⟨a, ha, rfl⟩ := List.mem_map.mp hv
    obtain ⟨below, rfl, hdeparts | ⟨rfl, htarget⟩⟩ := hlands.only a ha location hl
    · exact .inl hdeparts
    · right
      have hread : a.visit.data = document.get? (keys.map Step.key) := hdata
      rw [hdecide _ htarget, hread] at hreplace
      split at hreplace
      · obtain rfl := Decision.replace.inj hreplace
        exact ⟨rfl, ‹_›⟩
      · cases hreplace
  · intro happlies
    obtain ⟨a, ha, hl, htarget⟩ := hlands.reached
    have hv : a.visit ∈ spec.visits document := hvisits ▸ List.mem_map_of_mem ha
    refine Outcome.mem_replacements.mpr ⟨a.visit, hv, hl, ?_⟩
    have hdata : a.visit.data = document.get? (keys.map Step.key) :=
      data_eq_of_mem_visits h hdoc hv hl
    rw [hdecide _ htarget, hdata, if_pos happlies]

/-- What is found at the place that the keys name after the edits: the value if the leaf applies to
what the document has there, and what the document has otherwise. -/
theorem edited_land (hkeep : ∀ v, policy.decide v ≠ .remove)
    (hdecide : ∀ v, v.target = target →
      policy.decide v = if applies v.data then .replace value else .skip) :
    ((spec.walk document).edited document).get? (keys.map Step.key) =
      if applies (document.get? (keys.map Step.key)) then some value
      else document.get? (keys.map Step.key) := by
  obtain ⟨hwhere, hvalue⟩ := replacements_land h hp hthrough hleaf hdoc hopen hdecide
  rw [edited_eq_setAll h hkeep]
  split
  · exact hopen.setAll_along (fun r hr => (hwhere r hr).imp_right And.left) (.inl (hvalue ‹_›))
  · exact hopen.setAll_departs fun r hr => (hwhere r hr).resolve_right fun hr => absurd hr.2 ‹_›

end Land

end CompiledSpec

namespace Operation

/-- What a literal value makes of what the document has, by the mode. -/
def ModifyMode.landed (mode : ModifyMode) (value : Json) (current : Option Json) : Json :=
  match mode with
  | .overwrite => value
  | .default => (current.filter fun v => !v.isNull).getD value
  | .define => current.getD value

theorem ModifyMode.landed_eq (mode : ModifyMode) (value : Json) (current : Option Json) :
    (if mode.appliesTo current then some value else current) =
      some (mode.landed value current) := by
  cases mode with
  | overwrite => rfl
  | default =>
    cases current with
    | none => rfl
    | some v => cases v <;> rfl
  | define => cases current <;> rfl

theorem decide_default (v : Visit Json) : default.decide v =
    if ModifyMode.default.appliesTo v.data then .replace v.target else .skip := by
  rw [default]
  dsimp only
  cases v.data with
  | none => rfl
  | some current => cases current <;> rfl

/-- A literal value is computed whatever comes after it. -/
theorem decide_modify_literal (mode : ModifyMode) (registry : Registry) {value : Json}
    {others : List Source} {v : Visit (List Source)} (h : v.target = .literal value :: others) :
    (modify mode registry).decide v =
      if mode.appliesTo v.data then .replace value else .skip := by
  rw [decide_modify, h]
  rfl

theorem modify_keeps (mode : ModifyMode) (registry : Registry) (v : Visit (List Source)) :
    (modify mode registry).decide v ≠ .remove := by
  rw [decide_modify]
  split
  · cases evaluateFirst? v.target v.data v.frames <;> nofun
  · nofun

theorem isBare_of_default {level : Level Json} (h : level.Compiled default)
    (harray : (!level.isArray) = true) : level.isBare = true := by
  rw [Composite.isBare, harray, special_eq_nil h.ordered h.children]
  rfl

/-- **Literal values land where the spec says.** A literal value below literal keys is found at the
place that the keys name, if no level on the way is declared to be a list and the document is open
along the keys: in defaults and in the default mode where the document has nothing or null there,
when defining where it has nothing, and when overwriting in any case. Otherwise the value of the
document stays. For modify no child on the way may stand for the value of its level. -/
theorem literal_lands {document : Json} (hdoc : document.WellFormed) {keys : List String}
    (hopen : document.OpenAlong keys) (value : Json) :
    (∀ {config : Config} {raw : Json} {spec : CompiledSpec Json},
      CompiledSpec.compile default raw config = .ok spec →
        spec.root.leaf? (fun level => !level.isArray) keys = some value →
          (applyDefault spec document).get? (keys.map Step.key) =
            some (ModifyMode.default.landed value (document.get? (keys.map Step.key)))) ∧
    ∀ {mode : ModifyMode} {registry : Registry} {config : Config} {raw : Json}
      {spec : CompiledSpec (List Source)} {others : List Source},
      CompiledSpec.compile (modify mode registry) raw config = .ok spec →
        spec.root.leaf? Composite.isBare keys = some (.literal value :: others) →
          (applyModify spec document).get? (keys.map Step.key) =
            some (mode.landed value (document.get? (keys.map Step.key))) := by
  constructor
  · intro config raw spec h hleaf
    rw [← ModifyMode.landed_eq]
    refine CompiledSpec.edited_land h rfl isBare_of_default hleaf hdoc hopen
      default_fills.no_remove fun v hv => ?_
    rw [decide_default, hv]
  · intro mode registry config raw spec others h hleaf
    rw [← ModifyMode.landed_eq]
    exact CompiledSpec.edited_land h rfl (fun _ hbare => hbare) hleaf hdoc hopen
      (modify_keeps mode registry) fun v hv => decide_modify_literal mode registry hv

/-- The text of a source that is a literal one. -/
def Source.text? : Source → Option String
  | .literal value => value.string?
  | _ => none

theorem Source.eq_of_text? {source : Source} {text : String} (h : source.text? = some text) :
    source = .literal (.str text) := by
  cases source with
  | literal value =>
    cases value with
    | str _ => exact congrArg (Source.literal ∘ Json.str) (Option.some.inj h)
    | _ => cases h
  | _ => cases h

/-- A field that is null, beside wildcards, is filled in by a default and left alone by a
definition. -/
theorem literal_lands_null :
    let document : Json := .obj [("a", .obj [("b", .null), ("c", .bool false)])]
    ∃ (defaults : CompiledSpec Json) (definitions : CompiledSpec (List Source)),
      CompiledSpec.compile default
        (.obj [("a", .obj [("*", .null), ("b", .str "x")])]) {} = .ok defaults ∧
      CompiledSpec.compile (modify .define Registry.builtin)
        (.obj [("*", .bool false), ("a", .obj [("b", .str "x")])]) {} = .ok definitions ∧
      document.WellFormed ∧ document.OpenAlong ["a", "b"] ∧
      defaults.root.leaf? (fun level => !level.isArray) ["a", "b"] = some (.str "x") ∧
      definitions.root.leaf? Composite.isBare ["a", "b"] = some [.literal (.str "x")] ∧
      (applyDefault defaults document).get? [.key "a", .key "b"] = some (.str "x") ∧
      (applyModify definitions document).get? [.key "a", .key "b"] = some .null := by
  intro document
  have hdefaults : (CompiledSpec.compile default
      (.obj [("a", .obj [("*", .null), ("b", .str "x")])]) {}).toOption.map (fun spec =>
        (spec.root.leaf? (fun level => !level.isArray) ["a", "b"]).bind
          (Source.text? ∘ Source.literal)) = some (some "x") := by
    decide +kernel
  have hdefinitions : (CompiledSpec.compile (modify .define Registry.builtin)
      (.obj [("*", .bool false), ("a", .obj [("b", .str "x")])]) {}).toOption.map (fun spec =>
        (spec.root.leaf? Composite.isBare ["a", "b"]).map (List.map Source.text?)) =
      some (some [some "x"]) := by
    decide +kernel
  obtain ⟨defaults, hdefault, hleaf⟩ := CompiledSpec.exists_of_map hdefaults
  obtain ⟨definitions, hdefinition, hsources⟩ := CompiledSpec.exists_of_map hdefinitions
  obtain ⟨value, hvalue, htext⟩ := Option.bind_eq_some_iff.mp hleaf
  obtain rfl := Source.literal.inj (Source.eq_of_text? htext)
  obtain ⟨sources, hsources, htexts⟩ := Option.map_eq_some_iff.mp hsources
  obtain ⟨source, rfl, htext⟩ := List.map_eq_singleton_iff.mp htexts
  rw [Source.eq_of_text? htext] at hsources
  have hwell : document.WellFormed := ⟨by decide, ⟨by decide, trivial, trivial, trivial⟩, trivial⟩
  have hopen : document.OpenAlong ["a", "b"] := by
    refine Json.openAlong_cons.mpr ⟨.inr ⟨_, rfl⟩, fun child hc => ?_⟩
    obtain rfl := Option.some.inj hc
    exact Json.openAlong_cons.mpr ⟨.inr ⟨_, rfl⟩, fun _ _ => Json.openAlong_nil _⟩
  obtain ⟨hlands, hlands'⟩ := literal_lands hwell hopen (.str "x")
  exact ⟨defaults, definitions, hdefault, hdefinition, hwell, hopen, hvalue, hsources,
    hlands hdefault hvalue, hlands' hdefinition hsources⟩

end Operation
end Reshape
