import Reshape.Proofs.Edit.Growth
/-!
# Writing one step into a container

A write of one step into an object or a list changes the member there and no other, except that a
list may be padded with nulls. It keeps the members that there are, and does nothing where the
step does not fit. Setting values below one step is one write of that step.
-/
namespace Reshape

/-- The same values one step further down. -/
def Step.lower (step : Step) (fills : List (Address × Json)) : List (Address × Json) :=
  fills.map fun (location, value) => (step :: location, value)

namespace Json

/-- An object with its keys in order, or a list. -/
inductive Container : Json → Prop
  | obj {fields : List (String × Json)} (sorted : Fields.Sorted fields) : Container (.obj fields)
  | arr (elements : List Json) : Container (.arr elements)

/-- A write of the step reaches a member of the container. -/
inductive Admits : Json → Step → Prop
  | key {fields : List (String × Json)} (sorted : Fields.Sorted fields) (name : String) :
    Admits (.obj fields) (.key name)
  | index {position : Nat} (reached : position ≤ Address.maxIndex) (elements : List Json) :
    Admits (.arr elements) (.index position)

/-- The member at a step, null where there is none. -/
def memberAt (v : Json) (step : Step) : Json := (v.member? step).getD .null

/-- The container with a value written at one step. -/
def put (v : Json) (step : Step) (child : Json) : Json := (v.set [step] child).1

theorem memberAt_of_member? {v child : Json} {step : Step} (h : v.member? step = some child) :
    v.memberAt step = child := by
  rw [memberAt, h]
  rfl

theorem memberAt_of_none {v : Json} {step : Step} (h : v.member? step = none) :
    v.memberAt step = .null := by
  rw [memberAt, h]
  rfl

theorem put_index {position : Nat} (h : position ≤ Address.maxIndex) (elements : List Json)
    (child : Json) :
    (Json.arr elements).put (.index position) child =
      .arr ((padTo position elements).set position child) :=
  set_index h elements [] child

section Put

variable {v child : Json} {step other : Step}

theorem Admits.container (h : v.Admits step) : v.Container := by
  cases h with
  | key sorted _ => exact .obj sorted
  | index _ elements => exact .arr elements

/-- A step that does not fit is not written. -/
theorem Container.set_of_not_admits (hv : v.Container) (h : ¬ v.Admits step)
    (hs : step ≠ .append) (rest : Address) (value : Json) :
    (v.set (step :: rest) value).1 = v := by
  cases hv with
  | obj sorted =>
    cases step with
    | key name => exact absurd (.key sorted name) h
    | index _ | append => rfl
  | arr elements =>
    cases step with
    | key _ => rfl
    | index position =>
      have hmax : Address.maxIndex < position :=
        Nat.lt_of_not_le fun hmax => h (.index hmax elements)
      exact set_index_of_lt hmax elements rest value
    | append => exact absurd rfl hs

/-- Setting below a step that fits writes the step. -/
theorem Admits.set_eq_put (h : v.Admits step) (rest : Address) (value : Json) :
    (v.set (step :: rest) value).1 = v.put step ((v.memberAt step).set rest value).1 := by
  cases h with
  | key _ name => rfl
  | @index position hmax elements =>
    rw [set_index hmax, put_index hmax, List.getD_eq_getElem?_getD, padTo_getD]
    rfl

theorem Admits.container_put (h : v.Admits step) (child : Json) : (v.put step child).Container := by
  cases h with
  | key sorted name => exact .obj (Fields.insert_sorted name child sorted)
  | index hmax elements =>
    rw [put_index hmax]
    exact .arr _

theorem Admits.put_iff (h : v.Admits step) (child : Json) (other : Step) :
    (v.put step child).Admits other ↔ v.Admits other := by
  cases h with
  | key sorted name =>
    constructor
    · rintro (⟨-, key⟩ | -)
      exact .key sorted key
    · rintro (⟨-, key⟩ | -)
      exact .key (Fields.insert_sorted name child sorted) key
  | index hmax elements =>
    rw [put_index hmax]
    constructor
    · rintro (- | ⟨hother, -⟩)
      exact .index hother _
    · rintro (- | ⟨hother, -⟩)
      exact .index hother _

theorem Admits.member?_put (h : v.Admits step) (child : Json) :
    (v.put step child).member? step = some child := by
  cases h with
  | key _ name => exact Fields.lookup_insert_self name child _
  | @index position hmax elements =>
    rw [put_index hmax]
    exact List.getElem?_set_self (lt_padTo_length position elements)

theorem Admits.memberAt_put_of_ne (h : v.Admits step) (child : Json) (hne : other ≠ step) :
    (v.put step child).memberAt other = v.memberAt other := by
  cases h with
  | key _ name =>
    cases other with
    | key key =>
      have hkey : key ≠ name := fun he => hne (congrArg Step.key he)
      exact congrArg (Option.getD · .null) (Fields.lookup_insert_of_ne hkey child _)
    | index _ | append => rfl
  | @index position hmax elements =>
    rw [put_index hmax]
    cases other with
    | index i =>
      have hi : position ≠ i := fun he => hne (congrArg Step.index he).symm
      rw [memberAt, member?, List.getElem?_set_ne hi, padTo_getD]
      rfl
    | key _ | append => rfl

@[simp] theorem isSome_member?_index {elements : List Json} {position : Nat} :
    ((Json.arr elements).member? (.index position)).isSome = true ↔ position < elements.length := by
  rw [member?, isSome_getElem?]

/-- A write keeps the members that there are. -/
theorem Admits.isSome_put (h : v.Admits step) (child : Json)
    (ho : (v.member? other).isSome = true) : ((v.put step child).member? other).isSome = true := by
  by_cases he : other = step
  · rw [he, h.member?_put]
    rfl
  · cases h with
    | key _ name =>
      cases other with
      | key key =>
        have hkey : key ≠ name := fun hk => he (congrArg Step.key hk)
        exact (congrArg Option.isSome (Fields.lookup_insert_of_ne hkey child _)).trans ho
      | index _ | append => cases ho
    | @index position hmax elements =>
      cases other with
      | index i =>
        have hlength := padTo_length_le position elements
        rw [isSome_member?_index] at ho
        rw [put_index hmax, isSome_member?_index, List.length_set]
        exact Nat.lt_of_lt_of_le ho hlength
      | key _ | append => cases ho

/-- A member that a write makes is one that can be written. -/
theorem Admits.admits_of_isSome_put (h : v.Admits step)
    (ho : ((v.put step child).member? other).isSome = true) :
    (v.member? other).isSome = true ∨ v.Admits other := by
  cases h with
  | key sorted name =>
    cases other with
    | key key => exact .inr (.key sorted key)
    | index _ | append => cases ho
  | @index position hmax elements =>
    rw [put_index hmax] at ho
    cases other with
    | index i =>
      rw [isSome_member?_index, List.length_set, padTo, List.length_append,
        List.length_replicate] at ho
      rw [isSome_member?_index]
      by_cases hi : i < elements.length
      · exact .inl hi
      · exact .inr (.index (by omega) elements)
    | key _ | append => cases ho

/-- A write to a member that is there makes no other. -/
theorem Admits.isSome_put_of_isSome (h : v.Admits step) (hold : (v.member? step).isSome = true)
    (ho : ((v.put step child).member? other).isSome = true) :
    (v.member? other).isSome = true := by
  cases h with
  | key _ name =>
    cases other with
    | key key =>
      by_cases hkey : key = name
      · rw [hkey]
        exact hold
      · exact (congrArg Option.isSome (Fields.lookup_insert_of_ne hkey child _)).symm.trans ho
    | index _ | append => cases ho
  | @index position hmax elements =>
    rw [put_index hmax] at ho
    cases other with
    | index i =>
      rw [isSome_member?_index] at hold ho ⊢
      rw [List.length_set, padTo_eq_self hold] at ho
      exact ho
    | key _ | append => cases ho

theorem Admits.put_put (h : v.Admits step) (first second : Json) :
    (v.put step first).put step second = v.put step second := by
  cases h with
  | key _ name => exact congrArg Json.obj (Fields.insert_insert name first second _)
  | @index position hmax elements =>
    have hlt : position < ((padTo position elements).set position first).length := by
      rw [List.length_set]
      exact lt_padTo_length position elements
    rw [put_index hmax, put_index hmax, put_index hmax, padTo_eq_self hlt, List.set_set]

/-- Writing the member that is there changes nothing. -/
theorem Admits.put_member (h : v.Admits step) (hc : v.member? step = some child) :
    v.put step child = v := by
  cases h with
  | key sorted name => exact congrArg Json.obj (Fields.insert_of_lookup sorted hc)
  | @index position hmax elements =>
    have hlt : position < elements.length := (List.getElem?_eq_some_iff.mp hc).1
    rw [put_index hmax, padTo_eq_self hlt]
    refine congrArg Json.arr (List.ext_getElem? fun i => ?_)
    by_cases hi : position = i
    · subst hi
      rw [List.getElem?_set_self hlt]
      exact hc.symm
    · rw [List.getElem?_set_ne hi]

end Put

/-! ## Values below several steps -/

/-- Set values at addresses in turn. -/
def setAll (v : Json) (fills : List (Address × Json)) : Json :=
  fills.foldl (fun v (location, value) => (v.set location value).1) v

/-- Values to set below one step of a container, which is a key or an index. -/
structure Group where
  step : Step
  fills : List (Address × Json)
  member : step ≠ .append

def Group.all (group : Group) : List (Address × Json) := group.step.lower group.fills

/-- A container keeps its members, and what it gets more can be written. -/
structure Extends (v w : Json) : Prop where
  container : w.Container
  admits : ∀ step, w.Admits step ↔ v.Admits step
  keeps : ∀ step, (v.member? step).isSome = true → (w.member? step).isSome = true
  adds : ∀ step, (w.member? step).isSome = true → (v.member? step).isSome = true ∨ v.Admits step

section Groups

variable {v w u : Json} {step : Step} {group : Group} {groups : List Group}

theorem Extends.refl (hv : v.Container) : v.Extends v :=
  ⟨hv, fun _ => .rfl, fun _ => id, fun _ => .inl⟩

theorem Extends.trans (h : v.Extends w) (h' : w.Extends u) : v.Extends u where
  container := h'.container
  admits step := (h'.admits step).trans (h.admits step)
  keeps step ho := h'.keeps step (h.keeps step ho)
  adds step ho := by
    rcases h'.adds step ho with ho | ha
    · exact h.adds step ho
    · exact .inr ((h.admits step).mp ha)

theorem Admits.extends_put (h : v.Admits step) (child : Json) : v.Extends (v.put step child) where
  container := h.container_put child
  admits := h.put_iff child
  keeps _ := h.isSome_put child
  adds _ := h.admits_of_isSome_put

@[simp] theorem setAll_append (v : Json) (fills more : List (Address × Json)) :
    v.setAll (fills ++ more) = (v.setAll fills).setAll more :=
  List.foldl_append

/-- Setting values below a step that does not fit changes nothing. -/
theorem Container.setAll_of_not_admits (hv : v.Container) (h : ¬ v.Admits group.step) :
    v.setAll group.all = v := by
  obtain ⟨step, fills, hs⟩ := group
  induction fills with
  | nil => rfl
  | cons fill rest ih =>
    have hfirst : (v.set (step :: fill.1) fill.2).1 = v := hv.set_of_not_admits h hs fill.1 fill.2
    have hrest : (v.set (step :: fill.1) fill.2).1.setAll (Group.all ⟨step, rest, hs⟩) = v := by
      rw [hfirst]
      exact ih h
    exact hrest

/-- Setting values below a step that fits is one write of the step. -/
theorem Admits.setAll_eq_put (h : v.Admits group.step) (hne : group.fills ≠ []) :
    v.setAll group.all = v.put group.step ((v.memberAt group.step).setAll group.fills) := by
  obtain ⟨step, fills, hs⟩ := group
  dsimp only at h hne ⊢
  induction fills generalizing v with
  | nil => exact absurd rfl hne
  | cons fill rest ih =>
    let first := ((v.memberAt step).set fill.1 fill.2).1
    have hfirst : (v.set (step :: fill.1) fill.2).1 = v.put step first :=
      h.set_eq_put fill.1 fill.2
    have hsplit : v.setAll (Group.all ⟨step, fill :: rest, hs⟩) =
        (v.put step first).setAll (Group.all ⟨step, rest, hs⟩) := by
      rw [← hfirst]
      rfl
    rw [hsplit]
    by_cases hrest : rest = []
    · subst hrest
      rfl
    · have hmember : (v.put step first).memberAt step = first :=
        memberAt_of_member? (h.member?_put first)
      rw [ih ((h.put_iff first step).mpr h) hrest, hmember, h.put_put]
      rfl

/-- A group leaves a container as it is, or writes the step it is below. -/
theorem Container.setAll_cases (hv : v.Container) (group : Group) :
    (v.setAll group.all = v ∧ (group.fills = [] ∨ ¬ v.Admits group.step)) ∨
      (v.Admits group.step ∧ group.fills ≠ [] ∧
        v.setAll group.all = v.put group.step ((v.memberAt group.step).setAll group.fills)) := by
  by_cases hnil : group.fills = []
  · refine .inl ⟨?_, .inl hnil⟩
    rw [Group.all, hnil]
    rfl
  · by_cases ha : v.Admits group.step
    · exact .inr ⟨ha, hnil, ha.setAll_eq_put hnil⟩
    · exact .inl ⟨hv.setAll_of_not_admits ha, .inr ha⟩

theorem Container.extends_group (hv : v.Container) (group : Group) :
    v.Extends (v.setAll group.all) := by
  rcases hv.setAll_cases group with ⟨hsame, -⟩ | ⟨ha, -, hput⟩
  · rw [hsame]
    exact .refl hv
  · rw [hput]
    exact ha.extends_put _

theorem Container.memberAt_group_of_ne (hv : v.Container) (hne : group.step ≠ step) :
    (v.setAll group.all).memberAt step = v.memberAt step := by
  rcases hv.setAll_cases group with ⟨hsame, -⟩ | ⟨ha, -, hput⟩
  · rw [hsame]
  · rw [hput, ha.memberAt_put_of_ne _ hne.symm]

/-- The member below which the values of a group are set has them set, and is there if there are
any. -/
theorem Admits.memberAt_group (ha : v.Admits group.step) :
    (v.setAll group.all).memberAt group.step = (v.memberAt group.step).setAll group.fills ∧
      (group.fills ≠ [] → ((v.setAll group.all).member? group.step).isSome = true) := by
  rcases ha.container.setAll_cases group with ⟨hsame, hnil | hnot⟩ | ⟨-, -, hput⟩
  · rw [hsame, hnil]
    exact ⟨rfl, fun hne => absurd rfl hne⟩
  · exact absurd ha hnot
  · have hmember := ha.member?_put ((v.memberAt group.step).setAll group.fills)
    rw [hput, memberAt_of_member? hmember, hmember]
    exact ⟨rfl, fun _ => rfl⟩

theorem setAll_flatMap_cons (v : Json) (group : Group) (groups : List Group) :
    v.setAll ((group :: groups).flatMap Group.all) =
      (v.setAll group.all).setAll (groups.flatMap Group.all) := by
  rw [List.flatMap_cons, setAll_append]

theorem setAll_groups_eq (h : ∀ group ∈ groups, v.setAll group.all = v) :
    v.setAll (groups.flatMap Group.all) = v := by
  induction groups with
  | nil => rfl
  | cons group rest ih =>
    obtain ⟨hgroup, hrest⟩ := List.forall_mem_cons.mp h
    rw [setAll_flatMap_cons, hgroup]
    exact ih hrest

theorem Container.extends_groups (hv : v.Container) (groups : List Group) :
    v.Extends (v.setAll (groups.flatMap Group.all)) := by
  induction groups generalizing v with
  | nil => exact .refl hv
  | cons group rest ih =>
    have hfirst := hv.extends_group group
    rw [setAll_flatMap_cons]
    exact hfirst.trans (ih hfirst.container)

theorem Container.memberAt_groups_of_ne (hv : v.Container)
    (hne : ∀ group ∈ groups, group.step ≠ step) :
    (v.setAll (groups.flatMap Group.all)).memberAt step = v.memberAt step := by
  induction groups generalizing v with
  | nil => rfl
  | cons group rest ih =>
    obtain ⟨hstep, hne⟩ := List.forall_mem_cons.mp hne
    rw [setAll_flatMap_cons, ih (hv.extends_group group).container hne,
      hv.memberAt_group_of_ne hstep]

/-- Groups below different steps do not see each other. -/
theorem Admits.memberAt_groups (ha : v.Admits group.step) (hg : group ∈ groups)
    (hdistinct : groups.Pairwise fun a b => a.step ≠ b.step) :
    (v.setAll (groups.flatMap Group.all)).memberAt group.step =
        (v.memberAt group.step).setAll group.fills ∧
      (group.fills ≠ [] →
        ((v.setAll (groups.flatMap Group.all)).member? group.step).isSome = true) := by
  induction groups generalizing v with
  | nil => cases hg
  | cons first rest ih =>
    obtain ⟨hfirst, hrest⟩ := List.pairwise_cons.mp hdistinct
    have hextends := ha.container.extends_group first
    rw [setAll_flatMap_cons]
    rcases List.mem_cons.mp hg with rfl | hg
    · obtain ⟨hmember, hsome⟩ := ha.memberAt_group
      rw [hextends.container.memberAt_groups_of_ne fun other ho => (hfirst other ho).symm]
      exact ⟨hmember, fun hne => (hextends.container.extends_groups rest).keeps _ (hsome hne)⟩
    · obtain ⟨hmember, hsome⟩ := ih ((hextends.admits group.step).mpr ha) hg hrest
      rw [hmember, ha.container.memberAt_group_of_ne (hfirst group hg)]
      exact ⟨rfl, hsome⟩

/-- Groups below members that are there, or below steps that do not fit, make no members. -/
theorem Container.isSome_of_groups (hv : v.Container)
    (hold : ∀ group ∈ groups, (v.member? group.step).isSome = true ∨ ¬ v.Admits group.step)
    (ho : ((v.setAll (groups.flatMap Group.all)).member? step).isSome = true) :
    (v.member? step).isSome = true := by
  induction groups generalizing v with
  | nil => exact ho
  | cons group rest ih =>
    obtain ⟨hgroup, hrest⟩ := List.forall_mem_cons.mp hold
    have hextends := hv.extends_group group
    rw [setAll_flatMap_cons] at ho
    have hfirst := ih hextends.container (fun other hm => (hrest other hm).imp
      (hextends.keeps other.step) (mt (hextends.admits other.step).mp)) ho
    rcases hv.setAll_cases group with ⟨hsame, -⟩ | ⟨ha, -, hput⟩
    · exact hsame ▸ hfirst
    · rw [hput] at hfirst
      exact ha.isSome_put_of_isSome (hgroup.resolve_right (not_not.mpr ha)) hfirst

end Groups

/-! ## Member by member -/

section Members

variable {v w : Json} {step : Step} {groups : List Group}

/-- A container is known by its members. -/
theorem Extends.eq_of_member? (hv : v.Container) (h : v.Extends w)
    (hmember : ∀ step, w.member? step = v.member? step) : w = v := by
  have hw := h.container
  cases hv with
  | obj sorted =>
    cases hw with
    | obj sorted' =>
      exact congrArg Json.obj
        (Fields.eq_of_lookup_eq sorted' sorted fun key => hmember (.key key))
    | arr elements => cases (h.admits (.key "")).mpr (.key sorted "")
  | arr elements =>
    cases hw with
    | obj sorted => cases (h.admits (.index 0)).mpr (.index (Nat.zero_le _) elements)
    | arr others =>
      exact congrArg Json.arr (List.ext_getElem? fun position => hmember (.index position))

theorem Container.wellFormed (hv : v.Container)
    (h : ∀ step child, v.member? step = some child → child.WellFormed) : v.WellFormed := by
  cases hv with
  | @obj fields sorted =>
    refine ⟨sorted, (wellFormedFields_iff fields).mpr ?_⟩
    rintro ⟨key, child⟩ hm
    exact h (.key key) child (Fields.lookup_of_mem sorted hm)
  | arr elements =>
    refine (wellFormedElements_iff elements).mpr fun child hm => ?_
    obtain ⟨position, hp⟩ := List.mem_iff_getElem?.mp hm
    exact h (.index position) child hp

theorem Container.memberAt_groups_of_not_admits (hv : v.Container) (h : ¬ v.Admits step) :
    (v.setAll (groups.flatMap Group.all)).memberAt step = v.memberAt step := by
  induction groups generalizing v with
  | nil => rfl
  | cons group rest ih =>
    have hextends := hv.extends_group group
    rw [setAll_flatMap_cons, ih hextends.container (mt (hextends.admits step).mp h)]
    by_cases hstep : group.step = step
    · rw [hv.setAll_of_not_admits (hstep ▸ h)]
    · exact hv.memberAt_group_of_ne hstep

/-- Groups below members that are there change these and make no others. -/
theorem Container.member?_groups (hv : v.Container)
    (hold : ∀ group ∈ groups, (v.member? group.step).isSome = true) (step : Step) :
    (v.setAll (groups.flatMap Group.all)).member? step =
      (v.member? step).map fun _ => (v.setAll (groups.flatMap Group.all)).memberAt step := by
  cases hmember : v.member? step with
  | none =>
    by_contra hmade
    have hthere := hv.isSome_of_groups (fun group hg => .inl (hold group hg))
      (Option.isSome_iff_ne_none.mpr hmade)
    rw [hmember] at hthere
    cases hthere
  | some child =>
    obtain ⟨w, hw⟩ := Option.isSome_iff_exists.mp
      ((hv.extends_groups groups).keeps step (by rw [hmember]; rfl))
    rw [memberAt_of_member? hw, hw]
    rfl

end Members

end Json
end Reshape
