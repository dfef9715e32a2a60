import Reshape.Operation.Modify
import Reshape.Proofs.Walk.Place
/-!
# Documents that only grow

A document grows into another that has everything it holds except for nulls, at the same places.
Setting a value where the original has nothing or null keeps it growing, also on a document that
was changed before, and the operations that fill in values set nowhere else.
-/
namespace Reshape

variable {τ : Type}

namespace Json

/-- Null grows into anything, another scalar only into itself, a list into one that is at least as
long, element by element, and an object into one that has all of its keys, value by value. -/
inductive Grows : Json → Json → Prop
  | null (w : Json) : Grows .null w
  | bool (b : Bool) : Grows (.bool b) (.bool b)
  | num (n : Number) : Grows (.num n) (.num n)
  | str (text : String) : Grows (.str text) (.str text)
  | arr {xs ys : List Json} (length : xs.length ≤ ys.length)
    (elements : ∀ (i : Nat) (v w : Json), xs[i]? = some v → ys[i]? = some w → Grows v w) :
    Grows (.arr xs) (.arr ys)
  | obj {xs ys : List (String × Json)}
    (keys : ∀ key, (xs.lookup key).isSome = true → (ys.lookup key).isSome = true)
    (fields : ∀ (key : String) (v w : Json), xs.lookup key = some v → ys.lookup key = some w →
      Grows v w) :
    Grows (.obj xs) (.obj ys)

namespace Grows

mutual
theorem refl : ∀ v : Json, v.Grows v
  | .null => .null _
  | .bool b => .bool b
  | .num n => .num n
  | .str text => .str text
  | .arr elements => by
    refine .arr (Nat.le_refl _) ?_
    intro i v w hv hw
    obtain rfl := Option.some.inj (hv.symm.trans hw)
    exact refl_elements elements v (List.mem_of_getElem? hv)
  | .obj fields => by
    refine .obj (fun _ h => h) ?_
    intro key v w hv hw
    obtain rfl := Option.some.inj (hv.symm.trans hw)
    exact refl_fields fields (key, v) (Fields.mem_of_lookup hv)

theorem refl_elements : ∀ elements : List Json, ∀ v ∈ elements, v.Grows v
  | [] => nofun
  | v :: rest => List.forall_mem_cons.mpr ⟨refl v, refl_elements rest⟩

theorem refl_fields : ∀ fields : List (String × Json), ∀ field ∈ fields, field.2.Grows field.2
  | [] => nofun
  | (_, v) :: rest => List.forall_mem_cons.mpr ⟨refl v, refl_fields rest⟩
end

end Grows

/-- The document has nothing at the address, or null. -/
def Vacant (v : Json) (address : Address) : Prop :=
  v.get? address = none ∨ v.get? address = some .null

theorem Vacant.child {v child : Json} {step : Step} {rest : Address}
    (h : v.Vacant (step :: rest)) (hc : v.child? step = some child) : child.Vacant rest := by
  rw [Vacant, Json.get?, hc] at h
  exact h

theorem padTo_length_le (position : Nat) (elements : List Json) :
    elements.length ≤ (padTo position elements).length := by
  rw [padTo, List.length_append]
  exact Nat.le_add_right _ _

theorem padTo_getElem? {elements : List Json} {i : Nat} (h : i < elements.length)
    (position : Nat) : (padTo position elements)[i]? = elements[i]? :=
  List.getElem?_append_left h

theorem lt_padTo_length (position : Nat) (elements : List Json) :
    position < (padTo position elements).length := by
  rw [padTo, List.length_append, List.length_replicate]
  omega

theorem padTo_eq_self {position : Nat} {elements : List Json} (h : position < elements.length) :
    padTo position elements = elements := by
  rw [padTo, Nat.sub_eq_zero_of_le h]
  exact List.append_nil _

/-- An element of a padded list is the element there, or null. -/
@[simp] theorem padTo_getD (position i : Nat) (elements : List Json) :
    ((padTo position elements)[i]?).getD .null = (elements[i]?).getD .null := by
  by_cases h : i < elements.length
  · rw [padTo_getElem? h]
  · rw [padTo, List.getElem?_append_right (Nat.le_of_not_lt h),
      List.getElem?_eq_none (Nat.le_of_not_lt h), List.getElem?_replicate]
    split <;> rfl

/-- A field that grows may be replaced by what it grows into further. -/
theorem Grows.insert {xs ys : List (String × Json)} {name : String} {child : Json}
    (h : (Json.obj xs).Grows (Json.obj ys)) (hc : ∀ v, xs.lookup name = some v → v.Grows child) :
    (Json.obj xs).Grows (Json.obj (Fields.insert name child ys)) := by
  cases h with
  | obj hkeys hfields =>
    constructor
    · intro key hk
      by_cases he : key = name
      · rw [he, Fields.lookup_insert_self]
        rfl
      · rw [Fields.lookup_insert_of_ne he]
        exact hkeys key hk
    · intro key v w hv hw
      by_cases he : key = name
      · rw [he] at hv hw
        rw [Fields.lookup_insert_self] at hw
        obtain rfl := Option.some.inj hw
        exact hc v hv
      · rw [Fields.lookup_insert_of_ne he] at hw
        exact hfields key v w hv hw

/-- An element that grows may be replaced by what it grows into further, after padding. -/
theorem Grows.setPadded {xs ys : List Json} {position : Nat} {child : Json}
    (h : (Json.arr xs).Grows (Json.arr ys)) (hc : ∀ v, xs[position]? = some v → v.Grows child) :
    (Json.arr xs).Grows (Json.arr ((padTo position ys).set position child)) := by
  cases h with
  | arr hlength helements =>
    have hpadded := padTo_length_le position ys
    constructor
    · rw [List.length_set]
      omega
    · intro i v w hv hw
      have hi : i < xs.length := (List.getElem?_eq_some_iff.mp hv).1
      by_cases he : position = i
      · subst he
        have hlt : position < (padTo position ys).length := by omega
        rw [List.getElem?_set_self hlt] at hw
        obtain rfl := Option.some.inj hw
        exact hc v hv
      · have hlt : i < ys.length := by omega
        rw [List.getElem?_set_ne he, padTo_getElem? hlt] at hw
        exact helements i v w hv hw

theorem Grows.append {xs ys : List Json} (h : (Json.arr xs).Grows (Json.arr ys)) (child : Json) :
    (Json.arr xs).Grows (Json.arr (ys ++ [child])) := by
  cases h with
  | arr hlength helements =>
    constructor
    · rw [List.length_append]
      omega
    · intro i v w hv hw
      have hi : i < xs.length := (List.getElem?_eq_some_iff.mp hv).1
      have hlt : i < ys.length := by omega
      rw [List.getElem?_append_left hlt] at hw
      exact helements i v w hv hw

theorem set_index {position : Nat} (h : position ≤ Address.maxIndex) (elements : List Json)
    (rest : Address) (value : Json) :
    ((Json.arr elements).set (.index position :: rest) value).1 =
      .arr ((padTo position elements).set position
        (((padTo position elements).getD position .null).set rest value).1) :=
  congrArg Prod.fst (if_pos h)

theorem set_index_of_lt {position : Nat} (h : Address.maxIndex < position)
    (elements : List Json) (rest : Address) (value : Json) :
    ((Json.arr elements).set (.index position :: rest) value).1 = .arr elements :=
  congrArg Prod.fst (if_neg (Nat.not_le.mpr h))

/-- **Setting keeps growing.** A document that grew out of `v` still does after a value is set
where `v` is vacant. The induction is on the address. -/
theorem Grows.set {v w : Json} (h : v.Grows w) {address : Address} (hv : v.Vacant address)
    (value : Json) : v.Grows (w.set address value).1 := by
  induction address generalizing v w with
  | nil =>
    rcases hv with hv | hv
    · cases hv
    · obtain rfl := Option.some.inj hv
      exact .null _
  | cons step rest ih =>
    cases h with
    | null => exact .null _
    | bool b => cases step <;> exact .bool b
    | num n => cases step <;> exact .num n
    | str text => cases step <;> exact .str text
    | @arr xs ys hlength helements =>
      have hgrows : (Json.arr xs).Grows (Json.arr ys) := .arr hlength helements
      cases step with
      | key name => exact hgrows
      | append => exact hgrows.append _
      | index position =>
        -- Past the greatest index the list stays as it was.
        by_cases hmax : position ≤ Address.maxIndex
        · rw [set_index hmax]
          refine hgrows.setPadded ?_
          intro child hc
          have hi : position < xs.length := (List.getElem?_eq_some_iff.mp hc).1
          have hlt : position < ys.length := by omega
          have hold : ys[position]? = some ys[position] := List.getElem?_eq_getElem hlt
          rw [List.getD_eq_getElem?_getD, padTo_getElem? hlt, hold, Option.getD_some]
          exact ih (helements position child ys[position] hc hold) (hv.child hc)
        · rw [set_index_of_lt (Nat.lt_of_not_le hmax)]
          exact hgrows
    | @obj xs ys hkeys hfields =>
      have hgrows : (Json.obj xs).Grows (Json.obj ys) := .obj hkeys hfields
      cases step with
      | key name =>
        refine hgrows.insert ?_
        intro child hc
        have hsome := hkeys name (by rw [hc]; rfl)
        obtain ⟨old, ho⟩ := Option.isSome_iff_exists.mp hsome
        rw [ho, Option.getD_some]
        exact ih (hfields name child old hc ho) (hv.child hc)
      | index position => exact hgrows
      | append => exact hgrows

end Json

/-- The edit puts a value where the document has nothing or null. -/
def Edit.Fills (document : Json) (e : Edit) : Prop :=
  (∃ value, e.change = .replace value) ∧ document.Vacant e.location

namespace Outcome

/-- Edits that replace values remove nothing. -/
theorem removals_eq_nil {edits : List Edit} (h : ∀ e ∈ edits, ∃ value, e.change = .replace value) :
    edits.filterMap removal? = [] := by
  refine List.filterMap_eq_nil_iff.mpr fun e he => ?_
  obtain ⟨value, hvalue⟩ := h e he
  rw [removal?, hvalue]

/-- A run of settings at vacant addresses keeps growing. -/
theorem foldl_set_grows {document : Json} {replacements : List (Address × Json)}
    (h : ∀ r ∈ replacements, document.Vacant r.1) :
    ∀ {w : Json}, document.Grows w → document.Grows
      (replacements.foldl (fun v (location, value) => (v.set location value).1) w) := by
  induction replacements with
  | nil => exact id
  | cons r rest ih =>
    intro w hw
    have hset : document.Grows (w.set r.1 r.2).1 := hw.set (h r List.mem_cons_self) r.2
    exact ih (fun r hr => h r (List.mem_cons_of_mem _ hr)) hset

theorem edited_grows {o : Outcome} {document : Json} (h : ∀ e ∈ o.edits, e.Fills document) :
    document.Grows (o.edited document) := by
  have hreplacements : ∀ r ∈ o.edits.filterMap replacement?, document.Vacant r.1 := by
    intro r hr
    obtain ⟨e, he, hr⟩ := List.mem_filterMap.mp hr
    obtain ⟨⟨value, hvalue⟩, hvacant⟩ := h e he
    rw [replacement?, hvalue] at hr
    obtain rfl := Option.some.inj hr
    exact hvacant
  rw [edited, removals_eq_nil fun e he => (h e he).1]
  exact foldl_set_grows hreplacements (.refl document)

end Outcome

/-- The policy edits only by putting values where there is nothing or null. -/
structure Policy.Fills (p : Policy τ) : Prop where
  no_remove : ∀ v, p.decide v ≠ .remove
  vacant : ∀ {v : Visit τ} {value : Json}, p.decide v = .replace value →
    v.data = none ∨ v.data = some .null

namespace CompiledSpec

variable {policy : Policy τ} {config : Config} {raw document : Json} {spec : CompiledSpec τ}

/-- A walk for a policy that fills makes edits that fill. -/
theorem edits_fill (h : compile policy raw config = .ok spec) (hp : policy.Fills)
    (hdoc : document.WellFormed) : ∀ e ∈ (spec.walk document).edits, e.Fills document := by
  intro e he
  obtain ⟨hpolicy, -, -⟩ := of_compile h
  obtain ⟨v, hv, he⟩ := List.mem_filterMap.mp he
  rw [hpolicy] at he
  cases hdecision : policy.decide v with
  | replace value =>
    rw [hdecision] at he
    obtain ⟨location, hl, rfl⟩ := Option.map_eq_some_iff.mp he
    have hdata := data_eq_of_mem_visits h hdoc hv hl
    refine ⟨⟨value, rfl⟩, ?_⟩
    rw [Json.Vacant, ← hdata]
    exact hp.vacant hdecision
  | remove => exact absurd hdecision (hp.no_remove v)
  | _ => rw [hdecision] at he; cases he

theorem edited_grows (h : compile policy raw config = .ok spec) (hp : policy.Fills)
    (hdoc : document.WellFormed) : document.Grows ((spec.walk document).edited document) :=
  Outcome.edited_grows (edits_fill h hp hdoc)

end CompiledSpec

namespace Operation

theorem default_fills : default.Fills := by
  constructor
  · intro v hd
    rw [default] at hd
    dsimp only at hd
    split at hd <;> cases hd
  · intro v value hd
    rw [default] at hd
    dsimp only at hd
    split at hd
    · exact .inl ‹_›
    · exact .inr ‹_›
    · cases hd

/-- A modify leaf that does not overwrite applies only to what is missing or null. -/
theorem ModifyMode.appliesTo_vacant {mode : ModifyMode} (hmode : mode ≠ .overwrite)
    {current : Option Json} (h : mode.appliesTo current = true) :
    current = none ∨ current = some .null := by
  cases mode with
  | overwrite => exact absurd rfl hmode
  | default =>
    cases current with
    | none => exact .inl rfl
    | some v =>
      cases v with
      | null => exact .inr rfl
      | _ => cases h
  | define => exact .inl (Option.isNone_iff_eq_none.mp h)

theorem modify_fills {mode : ModifyMode} (hmode : mode ≠ .overwrite) (registry : Registry) :
    (modify mode registry).Fills := by
  constructor
  · intro v hd
    rw [modify] at hd
    dsimp only at hd
    split at hd
    · split at hd <;> cases hd
    · cases hd
  · intro v value hd
    rw [modify] at hd
    dsimp only at hd
    split at hd
    · exact ModifyMode.appliesTo_vacant hmode ‹_›
    · cases hd

/-- **Filling in values loses nothing.** A document grows into what defaults make of it, and into
what modify makes of it unless it overwrites. -/
theorem filled_grows {document : Json} (hdoc : document.WellFormed) :
    (∀ {config : Config} {raw : Json} {spec : CompiledSpec Json},
      CompiledSpec.compile default raw config = .ok spec →
        document.Grows (applyDefault spec document)) ∧
    ∀ {mode : ModifyMode} {registry : Registry} {config : Config} {raw : Json}
      {spec : CompiledSpec (List Source)}, mode = .default ∨ mode = .define →
        CompiledSpec.compile (modify mode registry) raw config = .ok spec →
          document.Grows (applyModify spec document) := by
  constructor
  · intro config raw spec h
    exact CompiledSpec.edited_grows h default_fills hdoc
  · intro mode registry config raw spec hmode h
    have hne : mode ≠ .overwrite := by
      rcases hmode with rfl | rfl <;> exact nofun
    exact CompiledSpec.edited_grows h (modify_fills hne registry) hdoc

/-- A field that is null and one that is missing, filled in by a default and by a definition. -/
theorem filled_grows_fields :
    ∃ (defaults : CompiledSpec Json) (definitions : CompiledSpec (List Source)),
      CompiledSpec.compile default (.obj [("a", .bool true)]) {} = .ok defaults ∧
      CompiledSpec.compile (modify .define Registry.builtin) (.obj [("b", .bool true)]) {} =
        .ok definitions ∧
      (Json.obj [("a", .null)]).WellFormed ∧
      (Json.obj [("a", .null)]).Grows (applyDefault defaults (.obj [("a", .null)])) ∧
      (Json.obj [("a", .null)]).Grows (applyModify definitions (.obj [("a", .null)])) := by
  have hwell : (Json.obj [("a", .null)]).WellFormed := ⟨by decide, trivial, trivial⟩
  have hdefault : (CompiledSpec.compile default
      (.obj [("a", .bool true)]) {}).toOption.isSome = true := by
    decide +kernel
  have hmodify : (CompiledSpec.compile (modify .define Registry.builtin)
      (.obj [("b", .bool true)]) {}).toOption.isSome = true := by
    decide +kernel
  obtain ⟨defaults, hdefaults⟩ := CompiledSpec.exists_of_isSome hdefault
  obtain ⟨definitions, hdefinitions⟩ := CompiledSpec.exists_of_isSome hmodify
  have hgrows := filled_grows hwell
  exact ⟨defaults, definitions, hdefaults, hdefinitions, hwell, hgrows.1 hdefaults,
    hgrows.2 (.inr rfl) hdefinitions⟩

end Operation
end Reshape
