import Mathlib.Data.List.Pairwise
import Reshape.Proofs.Edit.Growth
/-!
# Replacing all at once

Substituting puts new values at a set of addresses, each at its place in the original. Replacements
are made one after another; at existing places none of which is inside another they amount to a
substitution, except that a place through an index past the greatest one stays as it is.
-/
namespace Reshape

/-- The step has no index past the greatest one. -/
def Step.inReach : Step → Bool
  | .index position => position ≤ Address.maxIndex
  | _ => true

namespace Address

/-- Neither address starts the other. -/
def Apart (a b : Address) : Prop := ¬ a <+: b ∧ ¬ b <+: a

instance (a b : Address) : Decidable (Apart a b) := inferInstanceAs (Decidable (_ ∧ _))

theorem Apart.symm {a b : Address} (h : Apart a b) : Apart b a := ⟨h.2, h.1⟩

/-- No index of the address is past the greatest one. -/
def inReach (address : Address) : Bool := address.all Step.inReach

/-- New values by address, as seen from a child. -/
def under (new : Address → Option Json) (step : Step) : Address → Option Json :=
  fun address => new (step :: address)

/-- New values with one more, unless it is out of reach. -/
def assign (new : Address → Option Json) (location : Address) (value : Json) :
    Address → Option Json :=
  fun address => if address = location ∧ location.inReach = true then some value else new address

end Address

namespace Json

mutual
/-- The document with new values at the addresses that have one. -/
def substitute (new : Address → Option Json) (v : Json) : Json :=
  match new [], v with
  | some value, _ => value
  | none, .arr elements => .arr (substituteElements new 0 elements)
  | none, .obj fields => .obj (substituteFields new fields)
  | none, v => v

/-- The elements of a list; the first stands at `position`. -/
def substituteElements (new : Address → Option Json) (position : Nat) : List Json → List Json
  | [] => []
  | v :: rest =>
    v.substitute (Address.under new (.index position)) ::
      substituteElements new (position + 1) rest

def substituteFields (new : Address → Option Json) :
    List (String × Json) → List (String × Json)
  | [] => []
  | (key, v) :: rest =>
    (key, v.substitute (Address.under new (.key key))) :: substituteFields new rest
end

variable {new : Address → Option Json}

theorem substitute_root {value : Json} (h : new [] = some value) (v : Json) :
    v.substitute new = value := by
  rw [substitute.eq_def, h]

theorem substituteElements_getElem? (position i : Nat) (elements : List Json) :
    (substituteElements new position elements)[i]? =
      elements[i]?.map fun v => v.substitute (Address.under new (.index (position + i))) := by
  induction elements generalizing position i with
  | nil => rfl
  | cons v rest ih =>
    rw [substituteElements]
    cases i with
    | zero => rfl
    | succ i =>
      rw [List.getElem?_cons_succ, List.getElem?_cons_succ, ih]
      simp only [Nat.succ_add_eq_add_succ]

@[simp] theorem substituteElements_length (position : Nat) (elements : List Json) :
    (substituteElements new position elements).length = elements.length := by
  induction elements generalizing position with
  | nil => rfl
  | cons v rest ih =>
    rw [substituteElements, List.length_cons, List.length_cons, ih]

theorem substituteFields_eq (fields : List (String × Json)) :
    substituteFields new fields =
      fields.map fun field => (field.1, field.2.substitute (Address.under new (.key field.1))) := by
  induction fields with
  | nil => rfl
  | cons field rest ih =>
    obtain ⟨key, v⟩ := field
    rw [substituteFields, ih]
    rfl

theorem substitute_arr (h : new [] = none) (elements : List Json) :
    (Json.arr elements).substitute new = .arr (substituteElements new 0 elements) := by
  rw [substitute.eq_def, h]

theorem substitute_obj (h : new [] = none) (fields : List (String × Json)) :
    (Json.obj fields).substitute new = .obj (substituteFields new fields) := by
  rw [substitute.eq_def, h]

mutual
theorem substitute_none : ∀ v : Json, v.substitute (fun _ => none) = v
  | .null | .bool _ | .num _ | .str _ => rfl
  | .arr elements => by rw [substitute_arr rfl, substituteElements_none 0 elements]
  | .obj fields => by rw [substitute_obj rfl, substituteFields_none fields]

theorem substituteElements_none (position : Nat) : ∀ elements : List Json,
    substituteElements (fun _ => none) position elements = elements
  | [] => rfl
  | v :: rest => by
    have hv : v.substitute (Address.under (fun _ => none) (.index position)) = v :=
      substitute_none v
    rw [substituteElements, hv, substituteElements_none (position + 1) rest]

theorem substituteFields_none : ∀ fields : List (String × Json),
    substituteFields (fun _ => none) fields = fields
  | [] => rfl
  | (key, v) :: rest => by
    have hv : v.substitute (Address.under (fun _ => none) (.key key)) = v := substitute_none v
    rw [substituteFields, hv, substituteFields_none rest]
end

section Assign

variable {step : Step} {rest : Address} {value : Json}

/-- The addresses that have a new value are apart from a given one. -/
def ApartFrom (new : Address → Option Json) (location : Address) : Prop :=
  ∀ a, (new a).isSome = true → Address.Apart a location

theorem ApartFrom.root (h : ApartFrom new rest) : new [] = none := by
  cases hn : new [] with
  | none => rfl
  | some w => exact absurd List.nil_prefix (h [] (Option.isSome_of_eq_some hn)).1

theorem ApartFrom.under (h : ApartFrom new (step :: rest)) :
    ApartFrom (Address.under new step) rest := by
  intro a ha
  obtain ⟨hbefore, hafter⟩ := h (step :: a) ha
  exact ⟨fun hp => hbefore ((List.prefix_cons_inj step).mpr hp),
    fun hp => hafter ((List.prefix_cons_inj step).mpr hp)⟩

theorem under_assign_of_ne {other : Step} (h : other ≠ step) :
    Address.under (Address.assign new (step :: rest) value) other = Address.under new other := by
  funext address
  have hne : ¬ (other :: address = step :: rest ∧ Address.inReach (step :: rest) = true) :=
    fun he => h (List.cons.inj he.1).1
  exact if_neg hne

theorem under_assign (h : step.inReach = true) :
    Address.under (Address.assign new (step :: rest) value) step =
      Address.assign (Address.under new step) rest value := by
  funext address
  have hreach : Address.inReach (step :: rest) = Address.inReach rest := by
    rw [Address.inReach, List.all_cons, h, Bool.true_and, ← Address.inReach]
  have hiff : (step :: address = step :: rest ∧ Address.inReach (step :: rest) = true) ↔
      (address = rest ∧ rest.inReach = true) := by
    rw [List.cons_inj_right, hreach]
  exact if_congr hiff rfl rfl

theorem assign_of_not_inReach {location : Address} (h : location.inReach = false) :
    Address.assign new location value = new := by
  funext address
  have hne : ¬ (address = location ∧ location.inReach = true) := by
    rw [h]
    exact fun he => Bool.false_ne_true he.2
  exact if_neg hne

/-- Setting below a field of an object that was substituted substitutes one address more. -/
theorem set_substitute_obj {fields : List (String × Json)} (hs : Fields.Sorted fields)
    {name : String} {child : Json} (hc : fields.lookup name = some child) (hroot : new [] = none)
    (hbelow : ((child.substitute (Address.under new (.key name))).set rest value).1 =
      child.substitute (Address.assign (Address.under new (.key name)) rest value)) :
    (((Json.obj fields).substitute new).set (.key name :: rest) value).1 =
      (Json.obj fields).substitute (Address.assign new (.key name :: rest) value) := by
  have hassigned : Address.assign new (.key name :: rest) value [] = none := hroot
  obtain ⟨before, after, rfl, -⟩ := List.lookup_eq_some_iff.mp hc
  obtain ⟨-, hrest, hacross⟩ := List.pairwise_append.mp hs
  have hbefore : ∀ field ∈ before, field.1 < name := fun field hf =>
    hacross field hf (name, child) List.mem_cons_self
  have hafter : ∀ field ∈ after, name < field.1 := (List.pairwise_cons.mp hrest).1
  have hsame : ∀ xs : List (String × Json), (∀ field ∈ xs, field.1 ≠ name) →
      substituteFields (Address.assign new (.key name :: rest) value) xs =
        substituteFields new xs := by
    intro xs hne
    rw [substituteFields_eq, substituteFields_eq]
    apply List.map_congr_left
    intro field hf
    rw [under_assign_of_ne fun he => hne field hf (Step.key.inj he)]
  have hkeys : ∀ field ∈ substituteFields new before, field.1 < name := by
    intro field hf
    rw [substituteFields_eq] at hf
    obtain ⟨original, ho, rfl⟩ := List.mem_map.mp hf
    exact hbefore original ho
  have hsplit : ∀ new' : Address → Option Json,
      substituteFields new' (before ++ (name, child) :: after) =
        substituteFields new' before ++
          (name, child.substitute (Address.under new' (.key name))) ::
            substituteFields new' after := by
    intro new'
    rw [substituteFields_eq, List.map_append, List.map_cons, ← substituteFields_eq,
      ← substituteFields_eq]
  rw [substitute_obj hroot, substitute_obj hassigned, hsplit, hsplit, under_assign rfl, ← hbelow,
    hsame before fun field hf => String.ne_of_lt (hbefore field hf),
    hsame after fun field hf => (String.ne_of_lt (hafter field hf)).symm]
  refine (congrArg Json.obj ?_ : _)
  rw [Fields.lookup_split hkeys]
  exact Fields.insert_split hkeys _ _

/-- The same for an element of a list, which is not padded as the element is there. -/
theorem set_substitute_arr {elements : List Json} {position : Nat} {child : Json}
    (hmax : position ≤ Address.maxIndex) (hc : elements[position]? = some child)
    (hroot : new [] = none)
    (hbelow : ((child.substitute (Address.under new (.index position))).set rest value).1 =
      child.substitute (Address.assign (Address.under new (.index position)) rest value)) :
    (((Json.arr elements).substitute new).set (.index position :: rest) value).1 =
      (Json.arr elements).substitute (Address.assign new (.index position :: rest) value) := by
  have hassigned : Address.assign new (.index position :: rest) value [] = none := hroot
  have hlt : position < elements.length := (List.getElem?_eq_some_iff.mp hc).1
  have hreach : Step.inReach (.index position) = true := decide_eq_true hmax
  have hpadded : padTo position (substituteElements new 0 elements) =
      substituteElements new 0 elements :=
    padTo_eq_self (by rwa [substituteElements_length])
  have hold : (substituteElements new 0 elements)[position]? =
      some (child.substitute (Address.under new (.index position))) := by
    rw [substituteElements_getElem?, hc, Nat.zero_add]
    rfl
  rw [substitute_arr hroot, substitute_arr hassigned, set_index hmax, hpadded,
    List.getD_eq_getElem?_getD, hold, Option.getD_some, hbelow, ← under_assign hreach]
  refine congrArg Json.arr (List.ext_getElem? fun i => ?_)
  rw [substituteElements_getElem?, Nat.zero_add, List.getElem?_set, substituteElements_length]
  by_cases he : position = i
  · subst he
    rw [if_pos rfl, if_pos hlt, hc]
    rfl
  · have hne : Step.index i ≠ .index position := fun h => he (Step.index.inj h).symm
    rw [if_neg he, substituteElements_getElem?, Nat.zero_add, under_assign_of_ne hne]

/-- Past the greatest index a list stays as it was. -/
theorem set_substitute_far {elements : List Json} {position : Nat}
    (hmax : Address.maxIndex < position) (hroot : new [] = none) :
    (((Json.arr elements).substitute new).set (.index position :: rest) value).1 =
      (Json.arr elements).substitute (Address.assign new (.index position :: rest) value) := by
  have hfar : Address.inReach (.index position :: rest) = false := by
    have hstep : Step.inReach (.index position) = false := decide_eq_false (Nat.not_le.mpr hmax)
    rw [Address.inReach, List.all_cons, hstep, Bool.false_and]
  rw [assign_of_not_inReach hfar, substitute_arr hroot, set_index_of_lt hmax]

end Assign

/-- **Setting a value substitutes one address more**, if there is something at the address and
the addresses substituted before are apart from it. The induction is on the address. -/
theorem set_substitute {v : Json} (hv : v.WellFormed) {location : Address}
    (hl : (v.locate? location).isSome = true) {new : Address → Option Json}
    (hapart : ApartFrom new location) (value : Json) :
    ((v.substitute new).set location value).1 =
      v.substitute (Address.assign new location value) := by
  induction location generalizing v new with
  | nil =>
    have hroot : Address.assign new [] value [] = some value := rfl
    rw [substitute_root hroot]
    rfl
  | cons step rest ih =>
    obtain ⟨target, ht⟩ := Option.isSome_iff_exists.mp hl
    obtain ⟨child, hc, ht⟩ := Option.bind_eq_some_iff.mp ht
    have hchild : child.WellFormed := hv.child? (child?_of_member? hc)
    have hbelow := ih hchild (Option.isSome_of_eq_some ht) hapart.under
    cases v with
    | obj fields =>
      cases step with
      | key name => exact set_substitute_obj hv.sorted hc hapart.root hbelow
      | index _ | append => cases hc
    | arr elements =>
      cases step with
      | index position =>
        rcases Nat.lt_or_ge Address.maxIndex position with hmax | hmax
        · exact set_substitute_far hmax hapart.root
        · exact set_substitute_arr hmax hc hapart.root hbelow
      | key _ | append => cases hc
    | _ => cases hc

theorem member?_substitute (h : new [] = none) (v : Json) (step : Step) :
    (v.substitute new).member? step =
      (v.member? step).map fun child => child.substitute (Address.under new step) := by
  rw [substitute.eq_def, h]
  cases v with
  | obj fields =>
    cases step with
    | key name =>
      dsimp only [member?]
      rw [substituteFields_eq]
      induction fields with
      | nil => rfl
      | cons field rest ih =>
        rw [List.map_cons, List.lookup_cons, List.lookup_cons, ih]
        cases hk : name == field.1 with
        | false => rfl
        | true => rw [beq_iff_eq.mp hk]; rfl
    | index _ | append => rfl
  | arr elements =>
    cases step with
    | index position =>
      dsimp only [member?]
      rw [substituteElements_getElem?, Nat.zero_add]
    | key _ | append => rfl
  | _ => rfl

/-- What stands at an address after a substitution that changes nothing above it. -/
theorem locate?_substitute {location : Address}
    (h : ∀ a, a <+: location → a ≠ location → new a = none) (v : Json) :
    (v.substitute new).locate? location =
      (v.locate? location).map fun w => w.substitute fun a => new (location ++ a) := by
  induction location generalizing v new with
  | nil => rfl
  | cons step rest ih =>
    have hroot : new [] = none := h [] List.nil_prefix nofun
    have hbelow : ∀ a, a <+: rest → a ≠ rest → Address.under new step a = none := by
      intro a ha hne
      exact h (step :: a) ((List.prefix_cons_inj step).mpr ha) fun he => hne (List.cons.inj he).2
    rw [locate?, locate?, member?_substitute hroot]
    cases v.member? step with
    | none => rfl
    | some child => exact ih hbelow child

theorem locate?_substitute_apart {location : Address} (h : ApartFrom new location) (v : Json) :
    (v.substitute new).locate? location = v.locate? location := by
  have hnone : ∀ a, a <+: location ∨ location <+: a → new a = none := by
    intro a ha
    cases hn : new a with
    | none => rfl
    | some w =>
      have hapart := h a (Option.isSome_of_eq_some hn)
      exact absurd ha (not_or.mpr hapart)
  have hbelow : (fun a => new (location ++ a)) = fun _ => none :=
    funext fun a => hnone _ (.inr (List.prefix_append location a))
  rw [locate?_substitute fun a ha _ => hnone a (.inl ha), hbelow]
  simp only [substitute_none, Option.map_id']

theorem locate?_substitute_at {location : Address} {value : Json} {v : Json}
    (h : ∀ a, a <+: location → a ≠ location → new a = none) (hn : new location = some value)
    (hl : (v.locate? location).isSome = true) :
    (v.substitute new).locate? location = some value := by
  obtain ⟨w, hw⟩ := Option.isSome_iff_exists.mp hl
  have hroot : new (location ++ []) = some value := by rw [List.append_nil, hn]
  rw [locate?_substitute h, hw, Option.map_some, substitute_root hroot]

end Json

namespace Outcome

/-- The value that replacements put at an address, if it is in reach. -/
def valueAt? (replacements : List (Address × Json)) (address : Address) : Option Json :=
  if address.inReach then replacements.lookup address else none

theorem mem_of_valueAt? {replacements : List (Address × Json)} {address : Address} {value : Json}
    (h : valueAt? replacements address = some value) :
    address.inReach = true ∧ (address, value) ∈ replacements := by
  rw [valueAt?] at h
  split at h
  · obtain ⟨before, after, rfl, -⟩ := List.lookup_eq_some_iff.mp h
    exact ⟨‹_›, List.mem_append_right before List.mem_cons_self⟩
  · cases h

theorem valueAt?_of_mem {replacements : List (Address × Json)} {address : Address} {value : Json}
    (hapart : replacements.Pairwise fun r s => Address.Apart r.1 s.1)
    (hreach : address.inReach = true) (hm : (address, value) ∈ replacements) :
    valueAt? replacements address = some value := by
  obtain ⟨before, after, rfl⟩ := List.append_of_mem hm
  rw [valueAt?, if_pos hreach, List.lookup_eq_some_iff]
  refine ⟨before, after, rfl, fun r hr => ?_⟩
  have hne : address ≠ r.1 := by
    intro he
    have hra := (List.pairwise_append.mp hapart).2.2 r hr (address, value) List.mem_cons_self
    exact hra.1 (he ▸ List.prefix_rfl)
  simpa using hne

theorem replacement?_eq_some {e : Edit} {r : Address × Json} :
    replacement? e = some r ↔ e.location = r.1 ∧ e.change = .replace r.2 := by
  obtain ⟨location, change⟩ := e
  obtain ⟨address, value⟩ := r
  cases change <;> simp [replacement?]

/-- **A run of replacements at places apart from each other substitutes all of them.** -/
theorem foldl_set_substitute {document : Json} (hdoc : document.WellFormed)
    {replacements : List (Address × Json)}
    (hl : ∀ r ∈ replacements, (document.locate? r.1).isSome = true)
    (hapart : replacements.Pairwise fun r s => Address.Apart r.1 s.1) :
    ∀ {new : Address → Option Json}, (∀ r ∈ replacements, Json.ApartFrom new r.1) →
      replacements.foldl (fun v (location, value) => (v.set location value).1)
          (document.substitute new) =
        document.substitute fun a => (valueAt? replacements a).or (new a) := by
  induction replacements with
  | nil =>
    intro new _
    refine congrArg document.substitute (funext fun a => ?_)
    rw [valueAt?, List.lookup_nil, ite_self, Option.none_or]
  | cons r rest ih =>
    obtain ⟨location, value⟩ := r
    obtain ⟨hfirst, hrest⟩ := List.pairwise_cons.mp hapart
    intro new hnew
    have hset : ((document.substitute new).set location value).1 =
        document.substitute (Address.assign new location value) :=
      Json.set_substitute hdoc (hl _ List.mem_cons_self) (hnew _ List.mem_cons_self) value
    have hassigned : ∀ r ∈ rest, Json.ApartFrom (Address.assign new location value) r.1 := by
      intro r hr a ha
      rw [Address.assign] at ha
      split at ha
      · rename_i he
        rw [he.1]
        exact hfirst r hr
      · exact hnew r (List.mem_cons_of_mem _ hr) a ha
    rw [List.foldl_cons]
    dsimp only
    rw [hset, ih (fun r hr => hl r (List.mem_cons_of_mem _ hr)) hrest hassigned]
    refine congrArg document.substitute (funext fun a => ?_)
    by_cases he : a = location
    · -- No later replacement has the same address.
      subst he
      have hlater : rest.lookup a = none := by
        refine List.lookup_eq_none_iff.mpr fun r hr => ?_
        have hne : a ≠ r.1 := by
          intro he
          exact (hfirst r hr).1 (he ▸ List.prefix_rfl)
        simpa using hne
      rw [valueAt?, valueAt?, Address.assign, hlater, List.lookup_cons_self]
      cases a.inReach <;> simp
    · have hkey : (a == location) = false := by simpa using he
      have hother : Address.assign new location value a = new a := if_neg fun h => he h.1
      rw [valueAt?, valueAt?, hother, List.lookup_cons, hkey]

theorem replacements_apart {edits : List Edit}
    (h : edits.Pairwise fun e f => Address.Apart e.location f.location) :
    (edits.filterMap replacement?).Pairwise fun r s => Address.Apart r.1 s.1 := by
  refine h.filterMap replacement? fun e f hef r hr s hs => ?_
  rw [← (replacement?_eq_some.mp hr).1, ← (replacement?_eq_some.mp hs).1]
  exact hef

/-- Edits that only replace values at places apart from each other substitute the values. -/
theorem edited_eq_substitute {document : Json} (hdoc : document.WellFormed) {o : Outcome}
    (h : ∀ e ∈ o.edits, (∃ value, e.change = .replace value) ∧
      (document.locate? e.location).isSome = true)
    (hapart : o.edits.Pairwise fun e f => Address.Apart e.location f.location) :
    o.edited document = document.substitute (valueAt? (o.edits.filterMap replacement?)) := by
  have hl : ∀ r ∈ o.edits.filterMap replacement?, (document.locate? r.1).isSome = true := by
    intro r hr
    obtain ⟨e, he, hr⟩ := List.mem_filterMap.mp hr
    rw [← (replacement?_eq_some.mp hr).1]
    exact (h e he).2
  have hnone : ∀ r ∈ o.edits.filterMap replacement?, Json.ApartFrom (fun _ => none) r.1 :=
    fun _ _ _ ha => absurd ha Bool.false_ne_true
  have hrun := foldl_set_substitute hdoc hl (replacements_apart hapart) hnone
  rw [Json.substitute_none] at hrun
  rw [edited, removals_eq_nil fun e he => (h e he).1]
  refine hrun.trans (congrArg document.substitute (funext fun a => ?_))
  exact Option.or_none

/-- **Replacements are simultaneous.** Edits that replace values at existing places apart from each
other substitute the values: each place in reach holds its value, and everything else is as it was
in the document. An edit through an index past the greatest one changes nothing. -/
theorem replaced_eq_substitute {document : Json} (hdoc : document.WellFormed) {edits : List Edit}
    (h : ∀ e ∈ edits, (∃ value, e.change = .replace value) ∧
      (document.locate? e.location).isSome = true)
    (hapart : edits.Pairwise fun e f => Address.Apart e.location f.location) (output : Json) :
    edited ⟨output, edits⟩ document =
        document.substitute (valueAt? (edits.filterMap replacement?)) ∧
      (∀ e ∈ edits, ∀ value, e.change = .replace value → e.location.inReach = true →
        (edited ⟨output, edits⟩ document).locate? e.location = some value) ∧
      ∀ a, (∀ e ∈ edits, e.location.inReach = true → Address.Apart e.location a) →
        (edited ⟨output, edits⟩ document).locate? a = document.locate? a := by
  have hedited : edited ⟨output, edits⟩ document = _ := edited_eq_substitute hdoc h hapart
  have hset : ∀ {a : Address}, (valueAt? (edits.filterMap replacement?) a).isSome = true →
      a.inReach = true ∧ ∃ e ∈ edits, e.location = a := by
    intro a ha
    obtain ⟨value, hvalue⟩ := Option.isSome_iff_exists.mp ha
    obtain ⟨hreach, hm⟩ := mem_of_valueAt? hvalue
    obtain ⟨e, he, hr⟩ := List.mem_filterMap.mp hm
    exact ⟨hreach, e, he, (replacement?_eq_some.mp hr).1⟩
  rw [hedited]
  refine ⟨rfl, ?_, ?_⟩
  · intro e he value hvalue hreach
    have hm : (e.location, value) ∈ edits.filterMap replacement? :=
      List.mem_filterMap.mpr ⟨e, he, replacement?_eq_some.mpr ⟨rfl, hvalue⟩⟩
    refine Json.locate?_substitute_at ?_ (valueAt?_of_mem (replacements_apart hapart) hreach hm)
      (h e he).2
    -- No other edit is at an address above this one.
    intro a ha hne
    refine Option.not_isSome_iff_eq_none.mp fun hsome => ?_
    obtain ⟨-, f, hf, rfl⟩ := hset hsome
    have hef : e ≠ f := fun hef => hne (hef ▸ rfl)
    have hsymm : Std.Symm fun e f : Edit => Address.Apart e.location f.location :=
      ⟨fun _ _ h => h.symm⟩
    exact (hapart.forall he hf hef).2 ha
  · intro a ha
    refine Json.locate?_substitute_apart (fun b hb => ?_) document
    obtain ⟨hreach, e, he, rfl⟩ := hset hb
    exact ha e he hreach

/-- An element past the greatest index is there but keeps its value. -/
theorem replaced_misses_far_element :
    (Json.arr (List.replicate 1000002 .null)).WellFormed ∧
      ((Json.arr (List.replicate 1000002 .null)).locate? [.index 1000001]).isSome = true ∧
      (edited ⟨.null, [⟨[.index 1000001], .replace (.bool true)⟩]⟩
        (.arr (List.replicate 1000002 .null))).locate? [.index 1000001] ≠ some (.bool true) := by
  have hwell : (Json.arr (List.replicate 1000002 .null)).WellFormed := by
    refine (Json.wellFormedElements_iff _).mpr fun v hv => ?_
    rw [List.eq_of_mem_replicate hv]
    trivial
  have hlocated : (Json.arr (List.replicate 1000002 .null)).locate? [.index 1000001] =
      some .null := by
    have hget : (List.replicate 1000002 Json.null)[1000001]? = some .null :=
      List.getElem?_replicate_of_lt (by decide)
    rw [Json.locate?, Json.member?, hget]
    rfl
  have hunchanged : edited ⟨.null, [⟨[.index 1000001], .replace (.bool true)⟩]⟩
      (.arr (List.replicate 1000002 .null)) = .arr (List.replicate 1000002 .null) :=
    Json.set_index_of_lt (by decide) (List.replicate 1000002 .null) [] (.bool true)
  have hne : some Json.null ≠ some (.bool true) := by simp
  rw [hunchanged, hlocated]
  exact ⟨hwell, rfl, hne⟩

/-- A field of an element and an element beside it. -/
theorem replaced_eq_substitute_list :
    (Json.arr [.null, .obj [("a", .null)]]).WellFormed ∧
      (let edits : List Edit := [⟨[.index 1, .key "a"], .replace (.bool true)⟩,
          ⟨[.index 0], .replace (.bool false)⟩]
        let document : Json := .arr [.null, .obj [("a", .null)]]
        edited ⟨.null, edits⟩ document =
          document.substitute (valueAt? (edits.filterMap replacement?)) ∧
        (∀ e ∈ edits, ∀ value, e.change = .replace value → e.location.inReach = true →
          (edited ⟨.null, edits⟩ document).locate? e.location = some value) ∧
        ∀ a, (∀ e ∈ edits, e.location.inReach = true → Address.Apart e.location a) →
          (edited ⟨.null, edits⟩ document).locate? a = document.locate? a) := by
  have hwell : (Json.arr [.null, .obj [("a", .null)]]).WellFormed := by
    refine ⟨trivial, ⟨?_, trivial, trivial⟩, trivial⟩
    decide
  refine ⟨hwell, replaced_eq_substitute hwell ?_ ?_ .null⟩
  · simp only [List.forall_mem_cons]
    exact ⟨⟨⟨_, rfl⟩, rfl⟩, ⟨⟨_, rfl⟩, rfl⟩, nofun⟩
  · decide

end Outcome
end Reshape
