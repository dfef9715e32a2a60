import Reshape.Operation.Modify
import Reshape.Proofs.Walk.Place
/-!
# The modes of modify

The mode of a modify spec decides at each visit whether the value computed there is written, and
has no part in compiling, in the walk or in the value. So the edits of every mode are those of
overwriting, at the places where the mode applies to what the document has.
-/
namespace Reshape

open Operation

namespace CompiledSpec

variable {mode : ModifyMode} {registry : Registry} {config : Config} {raw : Json}
  {spec : CompiledSpec (List Source)}

/-- A modify spec compiles in every mode, to the same tree. -/
theorem compile_modify (h : compile (modify mode registry) raw config = .ok spec)
    (other : ModifyMode) :
    compile (modify other registry) raw config =
      .ok { spec with policy := modify other registry } := by
  have htarget : (modify mode registry).compileTarget = (modify other registry).compileTarget := rfl
  exact compile_congr htarget rfl h

theorem visits_modify (h : compile (modify mode registry) raw config = .ok spec)
    (other : ModifyMode) (document : Json) :
    visits { spec with policy := modify other registry } document = spec.visits document := by
  obtain ⟨hpolicy, -, -⟩ := of_compile h
  rw [visits, visits, hpolicy]
  rfl

end CompiledSpec

namespace Operation

/-- The value is computed in the same way in every mode. -/
theorem decide_modify (mode : ModifyMode) (registry : Registry) (v : Visit (List Source)) :
    (modify mode registry).decide v =
      if mode.appliesTo v.data then
        (evaluateFirst? v.target v.data v.frames).elim .skip .replace
      else .skip := by
  rw [modify]
  dsimp only
  cases evaluateFirst? v.target v.data v.frames <;> rfl

/-- At a visit with a location a mode makes the edit of overwriting, if it applies there. -/
theorem edit?_modify (mode : ModifyMode) (registry : Registry) {v : Visit (List Source)}
    {document : Json} (hv : ∀ location, v.location = some location →
      v.data = document.get? location) :
    Outcome.edit? v ((modify mode registry).decide v) =
      (Outcome.edit? v ((modify .overwrite registry).decide v)).filter fun e =>
        mode.appliesTo (document.get? e.location) := by
  rw [decide_modify, decide_modify, ModifyMode.appliesTo, if_pos rfl]
  cases evaluateFirst? v.target v.data v.frames with
  | none =>
    rw [Option.elim_none, ite_self]
    rfl
  | some value =>
    rw [Option.elim_some]
    cases hl : v.location with
    | none =>
      have hnone (change : Decision) : Outcome.edit? v change = none := by
        cases change <;> simp only [Outcome.edit?, hl, Option.map_none]
      rw [hnone, hnone]
      rfl
    | some location =>
      have hedit : Outcome.edit? v (.replace value) = some ⟨location, .replace value⟩ := by
        rw [Outcome.edit?, hl, Option.map_some]
      rw [hv location hl, hedit]
      cases ha : mode.appliesTo (document.get? location) with
      | false =>
        rw [if_neg Bool.false_ne_true, Option.filter_some, ha]
        rfl
      | true => rw [if_pos rfl, hedit, Option.filter_some, ha, if_pos rfl]

/-- The edits of a mode are those of overwriting at the places where the mode applies. -/
theorem edits_modify (mode : ModifyMode) {registry : Registry} {config : Config}
    {raw document : Json} {spec : CompiledSpec (List Source)}
    (h : CompiledSpec.compile (modify .overwrite registry) raw config = .ok spec)
    (hdoc : document.WellFormed) :
    (CompiledSpec.walk { spec with policy := modify mode registry } document).edits =
      (spec.walk document).edits.filter fun e => mode.appliesTo (document.get? e.location) := by
  obtain ⟨hpolicy, -, -⟩ := CompiledSpec.of_compile h
  rw [CompiledSpec.walk, CompiledSpec.walk, CompiledSpec.visits_modify h, hpolicy]
  dsimp only [Outcome.ofVisits]
  rw [List.filter_filterMap]
  apply List.filterMap_congr
  intro v hv
  exact edit?_modify mode registry fun location hl =>
    CompiledSpec.data_eq_of_mem_visits h hdoc hv hl

theorem ModifyMode.appliesTo_default (current : Option Json) :
    ModifyMode.default.appliesTo current = current.all Json.isNull := by
  cases current <;> rfl

/-- **The modes of modify are nested.** A spec that compiles in one mode compiles in all three, and
then defining makes the edits of overwriting at the places that the document lacks, and filling in
makes those at the places that it lacks or holds as null, with the same values and in the same
order. -/
theorem modes_nested {mode : ModifyMode} {registry : Registry} {config : Config}
    {raw document : Json} {spec : CompiledSpec (List Source)}
    (h : CompiledSpec.compile (modify mode registry) raw config = .ok spec)
    (hdoc : document.WellFormed) :
    ∃ overwriting defaulting defining : CompiledSpec (List Source),
      CompiledSpec.compile (modify .overwrite registry) raw config = .ok overwriting ∧
      CompiledSpec.compile (modify .default registry) raw config = .ok defaulting ∧
      CompiledSpec.compile (modify .define registry) raw config = .ok defining ∧
      (defining.walk document).edits =
        (overwriting.walk document).edits.filter
          (fun e => (document.get? e.location).isNone) ∧
      (defaulting.walk document).edits =
        (overwriting.walk document).edits.filter
          (fun e => (document.get? e.location).all Json.isNull) := by
  have hoverwrite := CompiledSpec.compile_modify h .overwrite
  have hdefault := edits_modify .default hoverwrite hdoc
  rw [funext fun e : Edit => ModifyMode.appliesTo_default (document.get? e.location)] at hdefault
  exact ⟨_, _, _, hoverwrite, CompiledSpec.compile_modify hoverwrite .default,
    CompiledSpec.compile_modify hoverwrite .define, edits_modify .define hoverwrite hdoc, hdefault⟩

/-- A value computed for a field with a value, for one that is null and for one that is missing. -/
theorem modes_nested_fields :
    ∃ spec overwriting defaulting defining : CompiledSpec (List Source),
      CompiledSpec.compile (modify .define Registry.builtin)
        (.obj [("*", .str "=toUpper"), ("c", .bool true)]) {} = .ok spec ∧
      (Json.obj [("a", .str "x"), ("b", .null)]).WellFormed ∧
      CompiledSpec.compile (modify .overwrite Registry.builtin)
        (.obj [("*", .str "=toUpper"), ("c", .bool true)]) {} = .ok overwriting ∧
      CompiledSpec.compile (modify .default Registry.builtin)
        (.obj [("*", .str "=toUpper"), ("c", .bool true)]) {} = .ok defaulting ∧
      CompiledSpec.compile (modify .define Registry.builtin)
        (.obj [("*", .str "=toUpper"), ("c", .bool true)]) {} = .ok defining ∧
      (defining.walk (.obj [("a", .str "x"), ("b", .null)])).edits =
        (overwriting.walk (.obj [("a", .str "x"), ("b", .null)])).edits.filter (fun e =>
          ((Json.obj [("a", .str "x"), ("b", .null)]).get? e.location).isNone) ∧
      (defaulting.walk (.obj [("a", .str "x"), ("b", .null)])).edits =
        (overwriting.walk (.obj [("a", .str "x"), ("b", .null)])).edits.filter (fun e =>
          ((Json.obj [("a", .str "x"), ("b", .null)]).get? e.location).all Json.isNull) := by
  have hwell : (Json.obj [("a", .str "x"), ("b", .null)]).WellFormed :=
    ⟨by decide, trivial, trivial, trivial⟩
  have hcompiles : (CompiledSpec.compile (modify .define Registry.builtin)
      (.obj [("*", .str "=toUpper"), ("c", .bool true)]) {}).toOption.isSome = true := by
    decide +kernel
  obtain ⟨spec, hspec⟩ := CompiledSpec.exists_of_isSome hcompiles
  obtain ⟨overwriting, defaulting, defining, hmodes⟩ := modes_nested hspec hwell
  exact ⟨spec, overwriting, defaulting, defining, hspec, hwell, hmodes⟩

end Operation
end Reshape
