import Reshape.Proofs.Edit.Cardinality
import Reshape.Proofs.Spec.Targets
/-!
# Keeping the first element

A level of a cardinality spec that turns its value into a single one puts the first element of a
list in the place of the list. What the level sets below the elements of the list is set in that
element, so it has to be looked at which of it reaches something there: an element that is neither
null nor a list takes no index, and what is set below the first element depends on that alone.
-/
namespace Reshape

open Operation

namespace Json

/-- An object with a list under a key. -/
def withList (fields : List (String × Json)) (key : String) (elements : List Json) : Json :=
  .obj (Fields.insert key (.arr elements) fields)

theorem field?_eq_member? (v : Json) (key : String) : v.field? key = v.member? (.key key) := by
  cases v <;> rfl

/-- An index can be written into the value. -/
def TakesIndex : Json → Prop
  | .null => True
  | .arr _ => True
  | _ => False

/-- Nothing is set below the elements of a value that has none. -/
theorem setAll_of_not_takesIndex {v : Json} (hv : ¬ v.TakesIndex) {groups : List Group}
    (h : ∀ group ∈ groups, ∃ position, group.step = .index position) :
    v.setAll (groups.flatMap Group.all) = v := by
  have hset (position : Nat) (rest : Address) (value : Json) :
      (v.set (.index position :: rest) value).1 = v := by
    cases v with
    | null => exact absurd trivial hv
    | arr _ => exact absurd trivial hv
    | _ => rfl
  refine setAll_groups_eq fun group hg => ?_
  obtain ⟨position, hstep⟩ := h group hg
  rw [Group.all, hstep]
  induction group.fills with
  | nil => rfl
  | cons fill rest ih =>
    refine Eq.trans ?_ ih
    exact congrArg (fun w => w.setAll (Step.lower (.index position) rest))
      (hset position fill.1 fill.2)

end Json

/-! ## Groups of a level -/

theorem Claim.of_group? {keys : List MatchedKey} {claim : Claim Multiplicity} {group : Json.Group}
    (h : claim.group? keys = some group) :
    claim.offer.slot.step? = some group.step ∧ group.fills = claim.fills keys := by
  rw [group?] at h
  cases hs : claim.offer.slot with
  | key name =>
    rw [hs] at h
    obtain rfl := Option.some.inj h
    exact ⟨rfl, rfl⟩
  | index position =>
    rw [hs] at h
    obtain rfl := Option.some.inj h
    exact ⟨rfl, rfl⟩
  | same | detached =>
    rw [hs] at h
    cases h

namespace Composite

variable {level : Level Multiplicity} {keys : List MatchedKey}

/-- The group of the member that is offered. -/
def groupOf? (level : Level Multiplicity) (keys : List MatchedKey) (offer : Offer) :
    Option Json.Group :=
  ((branchLevel false level).claimOf? (Site.bare keys).frames offer).bind (Claim.group? keys)

theorem groups_eq (level : Level Multiplicity) (keys : List MatchedKey) (v : Json) :
    level.groups keys v = (offers (some v)).filterMap (level.groupOf? keys) :=
  List.filterMap_filterMap

theorem step_of_groupOf? {offer : Offer} {group : Json.Group}
    (h : level.groupOf? keys offer = some group) : offer.slot.step? = some group.step := by
  obtain ⟨claim, hclaim, hgroup⟩ := Option.bind_eq_some_iff.mp h
  rw [← offer_of_claimOf? hclaim]
  exact (Claim.of_group? hgroup).1

/-- The groups of an object are below its keys. -/
theorem step_of_mem_groups {fields : List (String × Json)} {group : Json.Group}
    (h : group ∈ level.groups keys (.obj fields)) : ∃ key, group.step = .key key := by
  rw [groups_eq] at h
  obtain ⟨offer, ho, hgroup⟩ := List.mem_filterMap.mp h
  obtain ⟨field, -, rfl⟩ := List.mem_map.mp ho
  exact ⟨field.1, (Option.some.inj (step_of_groupOf? hgroup)).symm⟩

/-- The groups of a container are each below another member. -/
theorem groups_distinct {v : Json} (hv : v.Container) :
    (level.groups keys v).Pairwise fun a b => a.step ≠ b.step := by
  rw [groups_eq, offers.eq_def]
  cases hv with
  | obj sorted =>
    dsimp only
    rw [List.filterMap_map]
    refine List.pairwise_filterMap.mpr (sorted.imp ?_)
    intro a b hlt group hg other ho he
    have hstep : Step.key a.1 = group.step := Option.some.inj (step_of_groupOf? hg)
    have hother : Step.key b.1 = other.step := Option.some.inj (step_of_groupOf? ho)
    exact String.ne_of_lt hlt (Step.key.inj (hstep.trans (he.trans hother.symm)))
  | arr elements =>
    dsimp only
    rw [List.filterMap_map]
    refine List.pairwise_filterMap.mpr ((pairwise_zipIdx elements).imp ?_)
    intro a b hne group hg other ho he
    have hstep : Step.index a.2 = group.step := Option.some.inj (step_of_groupOf? hg)
    have hother : Step.index b.2 = other.step := Option.some.inj (step_of_groupOf? ho)
    exact hne (Step.index.inj (hstep.trans (he.trans hother.symm)))

section Literal

variable {inner : Level Multiplicity} {key : String} {fields : List (String × Json)} {v : Json}

/-- A literal child sets what it sets below the field of its name. -/
theorem exists_mem_groups (keys : List MatchedKey) (hord : level.Ordered)
    (hchild : level.literal.lookup key = some (.composite inner)) (hinner : inner.Valued)
    (hlocal : ∀ child ∈ inner.children, child.Local false) (hv : fields.lookup key = some v) :
    ∃ group ∈ level.groups keys (.obj fields), group.step = .key key ∧
      group.fills = inner.shapes (.plain key :: keys) v := by
  let branch : Branch Multiplicity := (Node.composite inner).branch false
  have hclaim : (branchLevel false level).claimOf? (Site.bare keys).frames
      ⟨key, some v, .key key⟩ = some ⟨branch, ⟨key, some v, .key key⟩, .plain key⟩ := by
    rw [claimOf?, owner?_literal hchild]
    exact claim?_literal hord (Fields.mem_of_lookup hchild) _ _ _
  let site : Site := .bare (.plain key :: keys)
  have hkeys : site.keys = .plain key :: keys := Site.keys_bare _
  have hfills : fillsOf ((branchLevel false inner).arrivals false (some v) site) =
      inner.shapes site.keys v :=
    fillsOf_arrivals hinner hlocal rfl (hkeys ▸ List.cons_ne_nil _ _) v
  rw [hkeys] at hfills
  refine ⟨⟨.key key, _, Step.key_ne_append key⟩, ?_, rfl, hfills⟩
  rw [groups_eq]
  exact List.mem_filterMap.mpr ⟨_, List.mem_map_of_mem (Fields.mem_of_lookup hv),
    congrArg (Option.bind · _) hclaim⟩

end Literal

/-- The groups of a list are that of the first element, which does not depend on the others, and
those of the others. -/
theorem groups_cons (level : Level Multiplicity) (keys : List MatchedKey) (x : Json)
    (xs : List Json) :
    ∃ others, level.groups keys (.arr (x :: xs)) =
        (level.groupOf? keys ⟨toString 0, some x, .index 0⟩).toList ++ others ∧
      ∀ group ∈ others, ∃ position, 0 < position ∧ group.step = .index position := by
  let offered (member : Json × Nat) : Offer :=
    ⟨toString member.2, some member.1, .index member.2⟩
  refine ⟨((xs.zipIdx 1).map offered).filterMap (level.groupOf? keys), ?_, ?_⟩
  · rw [groups_eq, offers, List.zipIdx_cons, List.map_cons, List.filterMap_cons]
    cases level.groupOf? keys ⟨toString 0, some x, .index 0⟩ <;> rfl
  · intro group hg
    obtain ⟨offer, ho, hgroup⟩ := List.mem_filterMap.mp hg
    obtain ⟨⟨v, position⟩, hm, rfl⟩ := List.mem_map.mp ho
    exact ⟨position, List.le_snd_of_mem_zipIdx hm,
      (Option.some.inj (step_of_groupOf? hgroup)).symm⟩

/-- What is set below a member is set below the level. -/
theorem mem_shapes {v : Json} {group : Json.Group} (hg : group ∈ level.groups keys v)
    {step : Step} (hstep : group.step = step) {fill : Address × Json} (hf : fill ∈ group.fills) :
    (step :: fill.1, fill.2) ∈ level.shapes keys v := by
  refine List.mem_append_right _ (List.mem_flatMap.mpr ⟨group, hg, ?_⟩)
  rw [← hstep]
  exact List.mem_map_of_mem hf

/-! ## Values that a level sets for itself -/

/-- A level with `MANY` for its value wraps an object; otherwise it leaves objects alone. -/
theorem ownFills_obj (hvalued : level.Valued) {n : Nat} (hexact : level.Exact n) :
    (∀ fields, level.ownFills (.obj fields) = []) ∨
      ∀ fields, level.ownFills (.obj fields) = [([], .arr [.obj fields])] := by
  rcases hvalued.special_cases hexact with hs | ⟨rawKey, target, hs⟩
  · exact .inl fun fields => by rw [ownFills, hs]; rfl
  · cases target with
    | one => exact .inl fun fields => by rw [ownFills, hs]; rfl
    | many => exact .inr fun fields => by rw [ownFills, hs]; rfl

/-- A level with `ONE` for its value sets nothing else for it. -/
theorem special_eq_one (hvalued : level.Valued) {n : Nat} (hexact : level.Exact n)
    {rawKey : String} (hone : .leaf .value rawKey .one ∈ level.special) :
    level.special = [.leaf .value rawKey .one] := by
  rcases hvalued.special_cases hexact with hs | ⟨rawKey', target, hs⟩
  · rw [hs] at hone
    cases hone
  · rw [hs] at hone ⊢
    rw [List.mem_singleton.mp hone]

/-- A list gives way to its first element, and the rest is set in that. -/
theorem setAll_shapes_cons {rawKey : String} (hs : level.special = [.leaf .value rawKey .one])
    (keys : List MatchedKey) (x : Json) (xs : List Json) :
    (Json.arr (x :: xs)).setAll (level.shapes keys (.arr (x :: xs))) =
      x.setAll ((level.groups keys (.arr (x :: xs))).flatMap Json.Group.all) := by
  have hown : level.ownFills (.arr (x :: xs)) = [([], x)] := by
    rw [ownFills, hs]
    rfl
  rw [shapes, hown]
  rfl

/-- Only what is set below the first element is left where the element takes no index, or where
nothing is set below the others. -/
theorem setAll_groups_cons {x : Json} {xs : List Json}
    (h : ¬ x.TakesIndex ∨ ∀ group ∈ level.groups keys (.arr (x :: xs)), ∀ position,
      0 < position → group.step = .index position → group.fills = []) :
    x.setAll ((level.groups keys (.arr (x :: xs))).flatMap Json.Group.all) =
      x.setAll ((level.groupOf? keys ⟨toString 0, some x, .index 0⟩).toList.flatMap
        Json.Group.all) := by
  obtain ⟨others, hgroups, hothers⟩ := level.groups_cons keys x xs
  have hfirst : ∀ group ∈ (level.groupOf? keys ⟨toString 0, some x, .index 0⟩).toList,
      group.step = .index 0 := by
    intro group hg
    exact (Option.some.inj (step_of_groupOf? (Option.mem_toList.mp hg))).symm
  rw [hgroups] at h ⊢
  rcases h with hx | hnone
  · rw [Json.setAll_of_not_takesIndex hx fun group hg => ⟨0, hfirst group hg⟩]
    refine Json.setAll_of_not_takesIndex hx fun group hg => ?_
    rcases List.mem_append.mp hg with hg | hg
    · exact ⟨0, hfirst group hg⟩
    · obtain ⟨position, -, hstep⟩ := hothers group hg
      exact ⟨position, hstep⟩
  · have hnothing : others.flatMap Json.Group.all = [] := by
      refine List.flatMap_eq_nil_iff.mpr fun group hg => ?_
      obtain ⟨position, hpos, hstep⟩ := hothers group hg
      rw [Json.Group.all, hnone group (List.mem_append_right _ hg) position hpos hstep]
      rfl
    rw [List.flatMap_append, hnothing, List.append_nil]

/-- What the root level makes of the field of a literal child: what the child makes of it, unless
the root level wraps the whole object. -/
theorem field?_setAll_shapes (keys : List MatchedKey) (hord : level.Ordered) {key : String}
    {inner : Level Multiplicity} (hchild : level.literal.lookup key = some (.composite inner))
    (hinner : inner.Valued) (hlocal : ∀ child ∈ inner.children, child.Local false)
    {fields : List (String × Json)}
    (hsorted : Fields.Sorted fields) {v : Json} (hv : fields.lookup key = some v) :
    (level.ownFills (.obj fields) = [] →
      ((Json.obj fields).setAll (level.shapes keys (.obj fields))).field? key =
        some (v.setAll (inner.shapes (.plain key :: keys) v))) ∧
    (level.ownFills (.obj fields) = [([], .arr [.obj fields])] →
      ((Json.obj fields).setAll (level.shapes keys (.obj fields))).field? key = none) := by
  constructor
  · intro hown
    obtain ⟨group, hmem, hstep, hfills⟩ := exists_mem_groups keys hord hchild hinner hlocal hv
    have hadmits : (Json.obj fields).Admits group.step := by
      rw [hstep]
      exact .key hsorted key
    have hmember : (Json.obj fields).member? (.key key) = some v := hv
    have hkept := (hadmits.container.extends_groups (level.groups keys (.obj fields))).keeps
      (.key key) (by rw [hmember]; rfl)
    have hvalue := (hadmits.memberAt_groups hmem (groups_distinct hadmits.container)).1
    rw [hstep, hfills, Json.memberAt_of_member? hmember] at hvalue
    rw [shapes, hown, List.nil_append, Json.field?_eq_member?, ← hvalue]
    obtain ⟨w, hw⟩ := Option.isSome_iff_exists.mp hkept
    rw [Json.memberAt_of_member? hw, hw]
  · intro hown
    have hwrapped : (Json.obj fields).setAll (level.shapes keys (.obj fields)) =
        (Json.arr [.obj fields]).setAll
          ((level.groups keys (.obj fields)).flatMap Json.Group.all) := by
      rw [shapes, hown]
      rfl
    have hsame : (Json.arr [.obj fields]).setAll
        ((level.groups keys (.obj fields)).flatMap Json.Group.all) = .arr [.obj fields] := by
      refine Json.setAll_groups_eq fun group hg => ?_
      obtain ⟨name, hstep⟩ := step_of_mem_groups hg
      refine (Json.Container.arr [.obj fields]).setAll_of_not_admits ?_
      rw [hstep]
      rintro ⟨⟩
    rw [hwrapped, hsame]
    rfl

end Composite

/-! ## Inputs with the same first element -/

namespace CompiledSpec

variable {config : Config} {raw : Json} {spec : CompiledSpec Multiplicity} {key : String}

/-- The composite that a literal key of the root reaches has `ONE` for its value. -/
def keepsFirst (spec : CompiledSpec Multiplicity) (key : String) : Bool :=
  match spec.root.literal.lookup key with
  | some (.composite inner) => inner.special.any fun
    | .leaf .value _ .one => true
    | _ => false
  | _ => false

theorem exists_of_keepsFirst (h : compile cardinality raw config = .ok spec)
    (hk : spec.keepsFirst key = true) :
    ∃ inner rawKey, spec.root.literal.lookup key = some (.composite inner) ∧
      inner.Compiled cardinality ∧ inner.special = [.leaf .value rawKey .one] := by
  obtain ⟨-, -, hroot⟩ := of_compile h
  obtain ⟨fields, -, hfrom⟩ := Build.root_from (gives_root h)
  rw [keepsFirst] at hk
  split at hk
  · rename_i inner hchild
    have hmem := Composite.mem_children_of_literal (Fields.mem_of_lookup hchild)
    have hcompiled : inner.Compiled cardinality := by
      cases hroot.children _ hmem with
      | composite _ _ ordered children => exact ⟨ordered, children⟩
    obtain ⟨n, hexact⟩ := hfrom.exists_exact_child hmem
    obtain ⟨child, hc, hone⟩ := List.any_eq_true.mp hk
    split at hone
    · exact ⟨inner, _, hchild, hcompiled,
        Composite.special_eq_one hcompiled.valued hexact hc⟩
    · cases hone
  · cases hk

end CompiledSpec

namespace Operation

variable {config : Config} {raw : Json} {spec : CompiledSpec Multiplicity} {key : String}
  {fields : List (String × Json)} {x : Json}

/-- The field of a list is the first element with what is set below it, unless the root level
wraps the whole object. That depends on the other elements only if something is set below one of
them and the first element takes an index. -/
theorem field?_applyCardinality (h : CompiledSpec.compile cardinality raw config = .ok spec)
    (hk : spec.keepsFirst key = true) (x : Json) :
    ∃ result, ∀ (fields : List (String × Json)) (xs : List Json),
      (Json.withList fields key (x :: xs)).WellFormed →
      (¬ x.TakesIndex ∨ ∀ e ∈ (spec.walk (.withList fields key (x :: xs))).edits, ∀ position,
        0 < position → ¬ [Step.key key, .index position] <+: e.location) →
      (applyCardinality spec (.withList fields key (x :: xs))).field? key = result := by
  obtain ⟨inner, rawKey, hchild, hinner, hspecial⟩ := CompiledSpec.exists_of_keepsFirst h hk
  obtain ⟨-, -, hroot⟩ := CompiledSpec.of_compile h
  obtain ⟨_, -, hfrom⟩ := Build.root_from (CompiledSpec.gives_root h)
  obtain ⟨n, hexact⟩ := hfrom.exists_exact
  have hlocal : ∀ child ∈ inner.children, child.Local false :=
    fun child hc => (hinner.children child hc).local cardinality_staysInPlace false
  let keys : List MatchedKey := [.plain spec.rootKey]
  have hfield := fun (fields : List (String × Json)) (xs : List Json)
      (hsorted : Fields.Sorted (Fields.insert key (.arr (x :: xs)) fields)) =>
    Composite.field?_setAll_shapes keys hroot.ordered hchild hinner.valued hlocal hsorted
      (Fields.lookup_insert_self key (.arr (x :: xs)) fields)
  rcases Composite.ownFills_obj hroot.valued hexact with hown | hown
  · refine ⟨some (x.setAll ((inner.groupOf? (.plain key :: keys)
      ⟨toString 0, some x, .index 0⟩).toList.flatMap Json.Group.all)), ?_⟩
    intro fields xs hdoc hx
    have hresult := (hfield fields xs hdoc.sorted).1 (hown _)
    rw [applyCardinality_eq_shaped h hdoc]
    refine hresult.trans (congrArg some ?_)
    rw [Composite.setAll_shapes_cons hspecial]
    refine Composite.setAll_groups_cons (hx.imp_right fun hedits => ?_)
    -- What is set below another element would be an edit below its index.
    intro group hg position hpos hstep
    refine List.eq_nil_iff_forall_not_mem.mpr fun fill hf => ?_
    obtain ⟨outer, houter, hkey, hfills⟩ := Composite.exists_mem_groups keys hroot.ordered hchild
      hinner.valued hlocal (Fields.lookup_insert_self key (.arr (x :: xs)) fields)
    have hinside : (.index position :: fill.1, fill.2) ∈ outer.fills := by
      rw [hfills]
      exact Composite.mem_shapes hg hstep hf
    obtain ⟨e, he, hlocation⟩ :=
      CompiledSpec.exists_edit h hdoc (Composite.mem_shapes houter hkey hinside)
    exact hedits e he position hpos ⟨fill.1, hlocation.symm⟩
  · refine ⟨none, fun fields xs hdoc _ => ?_⟩
    rw [applyCardinality_eq_shaped h hdoc]
    exact (hfield fields xs hdoc.sorted).2 (hown _)

/-- **`ONE` keeps only the first element.** Two objects that hold lists with one first element under
a key, and are equal otherwise, get the same value under the key, if the first element is neither
null nor a list, or if nothing is set below the other elements of either list. -/
theorem field?_eq_of_first_eq (h : CompiledSpec.compile cardinality raw config = .ok spec)
    (hk : spec.keepsFirst key = true) {xs ys : List Json}
    (ha : (Json.withList fields key (x :: xs)).WellFormed)
    (hb : (Json.withList fields key (x :: ys)).WellFormed)
    (hx : ¬ x.TakesIndex ∨
      ∀ input ∈ [Json.withList fields key (x :: xs), Json.withList fields key (x :: ys)],
        ∀ e ∈ (spec.walk input).edits, ∀ position, 0 < position →
          ¬ [Step.key key, .index position] <+: e.location) :
    (applyCardinality spec (.withList fields key (x :: xs))).field? key =
      (applyCardinality spec (.withList fields key (x :: ys))).field? key := by
  obtain ⟨result, hresult⟩ := field?_applyCardinality h hk x
  have hfirst := hresult fields xs ha (hx.imp_right fun hedits => hedits _ List.mem_cons_self)
  have hsecond := hresult fields ys hb
    (hx.imp_right fun hedits => hedits _ (List.mem_cons_of_mem _ List.mem_cons_self))
  exact hfirst.trans hsecond.symm

/-- A level with `ONE` for its value and `MANY` for its elements. -/
def firstOfMany : Json := .obj [("k", .obj [("@", .str "ONE"), ("*", .str "MANY")])]

/-- The elements after a first one that is an object are wrapped where nothing is kept. -/
theorem field?_eq_of_first_eq_object :
    ∃ spec : CompiledSpec Multiplicity,
      CompiledSpec.compile cardinality firstOfMany {} = .ok spec ∧
      spec.keepsFirst "k" = true ∧
      (Json.withList [] "k" [.obj [("a", .null)]]).WellFormed ∧
      (Json.withList [] "k" [.obj [("a", .null)], .bool true, .null]).WellFormed ∧
      ¬ (Json.obj [("a", .null)]).TakesIndex ∧
      (applyCardinality spec (.withList [] "k" [.obj [("a", .null)]])).field? "k" =
        (applyCardinality spec
          (.withList [] "k" [.obj [("a", .null)], .bool true, .null])).field? "k" := by
  have hcompiles : (CompiledSpec.compile cardinality firstOfMany {}).toOption.map
      (fun spec => spec.keepsFirst "k") = some true := by
    decide +kernel
  obtain ⟨spec, hspec, hk⟩ := CompiledSpec.exists_of_map hcompiles
  have hobject : (Json.obj [("a", .null)]).WellFormed := ⟨by decide, trivial, trivial⟩
  have ha : (Json.withList [] "k" [.obj [("a", .null)]]).WellFormed :=
    ⟨by decide, ⟨hobject, trivial⟩, trivial⟩
  have hb : (Json.withList [] "k" [.obj [("a", .null)], .bool true, .null]).WellFormed :=
    ⟨by decide, ⟨hobject, trivial, trivial, trivial⟩, trivial⟩
  have hx : ¬ (Json.obj [("a", .null)]).TakesIndex := id
  exact ⟨spec, hspec, hk, ha, hb, hx, field?_eq_of_first_eq hspec hk ha hb (.inl hx)⟩

/-- Where the first element is a list, what is set below the second one is set in it. -/
theorem field?_ne_of_first_list :
    ∃ spec : CompiledSpec Multiplicity,
      CompiledSpec.compile cardinality firstOfMany {} = .ok spec ∧
      spec.keepsFirst "k" = true ∧
      (applyCardinality spec (.withList [] "k" [.arr [.bool true]])).field? "k" ≠
        (applyCardinality spec
          (.withList [] "k" [.arr [.bool true], .bool false])).field? "k" := by
  let text (spec : CompiledSpec Multiplicity) (elements : List Json) : Option String :=
    ((applyCardinality spec (.withList [] "k" elements)).field? "k").map Json.toText
  have hresults : (CompiledSpec.compile cardinality firstOfMany {}).toOption.map
      (fun spec => (spec.keepsFirst "k", text spec [.arr [.bool true]],
        text spec [.arr [.bool true], .bool false])) =
      some (true, some "[true]", some "[true,[false]]") := by
    decide +kernel
  obtain ⟨spec, hspec, hresult⟩ := CompiledSpec.exists_of_map hresults
  obtain ⟨hk, htexts⟩ := Prod.mk.inj hresult
  obtain ⟨hfirst, hsecond⟩ := Prod.mk.inj htexts
  refine ⟨spec, hspec, hk, fun he => ?_⟩
  have htext := congrArg (Option.map Json.toText) he
  rw [show Option.map Json.toText _ = _ from hfirst,
    show Option.map Json.toText _ = _ from hsecond] at htext
  exact absurd htext (by decide)

end Operation
end Reshape
