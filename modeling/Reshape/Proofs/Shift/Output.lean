import Reshape.Operation.Shift
import Reshape.Proofs.Walk.Parallel
/-!
# What a shift writes

A shift writes the data of a leaf to its targets. Two shifts give the same result if their leaves
are reached in step and write the same.
-/
namespace Reshape.Operation

open Pattern (WritePath)

/-- A leaf with data writes it to every target, and one without writes nothing. -/
theorem outputAfter_visit (output : Json) (a : Arrival (List WritePath)) :
    Outcome.outputAfter shift.decide output a.visit =
      a.data.elim output fun data => Outcome.writeAll output a.site.frames data a.target := by
  rw [Outcome.outputAfter, shift]
  dsimp only [Arrival.visit]
  cases a.data with
  | none => rfl
  | some data =>
    cases htarget : a.target with
    | nil => rfl
    | cons path rest => rfl

variable {raw raw' document document' : Json} {config config' : Config}
  {spec spec' : CompiledSpec (List WritePath)}

/-- The result is what the leaves write one after another. -/
theorem applyShift_eq_foldl (h : CompiledSpec.compile shift raw config = .ok spec)
    (hdoc : document.WellFormed) :
    applyShift spec document = (((spec.arrivals document).foldl (fun output a =>
      Outcome.outputAfter shift.decide output a.visit) (.obj [])).field? spec.rootKey).getD
        .null := by
  obtain ⟨hpolicy, -, -⟩ := CompiledSpec.of_compile h
  rw [applyShift, CompiledSpec.walk, hpolicy, CompiledSpec.visits_eq h hdoc, Outcome.written,
    Outcome.ofVisits, List.foldl_map]

/-- Shifts whose leaves write the same, one by one, give the same result. -/
theorem applyShift_eq_of_arrivals (h : CompiledSpec.compile shift raw config = .ok spec)
    (h' : CompiledSpec.compile shift raw' config' = .ok spec') (hkey : spec.rootKey = spec'.rootKey)
    (hdoc : document.WellFormed) (hdoc' : document'.WellFormed)
    {A : Arrival (List WritePath) → Arrival (List WritePath) → Prop}
    (harrivals : List.Forall₂ A (spec.arrivals document) (spec'.arrivals document'))
    (hwrites : ∀ a b, a ∈ spec.arrivals document → A a b → ∀ output,
      Outcome.outputAfter shift.decide output b.visit =
        Outcome.outputAfter shift.decide output a.visit) :
    applyShift spec' document' = applyShift spec document := by
  rw [applyShift_eq_foldl h hdoc, applyShift_eq_foldl h' hdoc', hkey]
  congr 2
  generalize Json.obj [] = output
  generalize spec.arrivals document = as at harrivals hwrites
  generalize spec'.arrivals document' = bs at harrivals
  induction harrivals generalizing output with
  | nil => rfl
  | @cons a b _ _ hab _ ih =>
    rw [List.foldl_cons, List.foldl_cons, hwrites a b List.mem_cons_self hab]
    exact ih _ fun a b ha => hwrites a b (List.mem_cons_of_mem _ ha)

end Reshape.Operation
