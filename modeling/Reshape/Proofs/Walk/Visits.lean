import Reshape.Walk.Walker
/-!
# The visits that a walk adds

Entering a level, leaving it and counting the match keep the visits of a walk, so what is added
below a level is what is added at it.
-/
namespace Reshape.Walk

variable {τ : Type} {w w' w'' : Walk τ} {visits more : List (Visit τ)}

/-- The second walk has made more visits than the first one. -/
def Adds (w w' : Walk τ) (visits : List (Visit τ)) : Prop :=
  w'.visits = w.visits ++ visits.toArray

theorem Adds.refl (w : Walk τ) : w.Adds w [] := Array.append_empty.symm

theorem Adds.trans (h : w.Adds w' visits) (h' : w'.Adds w'' more) :
    w.Adds w'' (visits ++ more) := by
  rw [Adds] at h h' ⊢
  rw [h', h, ← List.append_toArray, Array.append_assoc]

theorem Adds.entered {slot : Slot} {key : MatchedKey} {input : Option Json}
    (h : (w.enter slot key input).Adds w' visits) : w.Adds (w'.leave slot).count visits := by
  have hleave : (w'.leave slot).count.visits = w'.visits := by cases slot <;> rfl
  have henter : (w.enter slot key input).visits = w.visits := by cases slot <;> rfl
  rw [Adds, hleave, ← henter]
  exact h

theorem Adds.visit (w : Walk τ) (element : Pattern.Element) (target : τ) (key : String)
    (data : Option Json) :
    w.Adds (w.visit element target key data)
      [⟨element, target, key, data, w.frames, w.location⟩] :=
  Array.push_eq_append

/-- The visits of a walk over an input are those that its root level adds. -/
theorem Adds.visits_eq {spec : CompiledSpec τ} {input : Json}
    (h : (Walk.start spec.rootKey input).Adds
      (processLevel spec.policy.visitsMissing spec.root (some input)
        (Walk.start spec.rootKey input)) visits) : spec.visits input = visits := by
  rw [Adds, Walk.start, Array.empty_append] at h
  exact congrArg Array.toList h

end Reshape.Walk
