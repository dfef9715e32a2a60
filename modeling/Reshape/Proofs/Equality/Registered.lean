import Reshape.Proofs.Equality.Tree
/-!
# Compiled calls are registered

A call is compiled with the function that the registry has under its name, at every depth of its
arguments. So with one registry, the name of a call tells its function.
-/
namespace Reshape

namespace Operation

theorem registeredArguments_of_forall {registry : Registry} {args : List Argument}
    (h : ∀ a ∈ args, a.Registered registry) : RegisteredArguments registry args := by
  induction args with
  | nil => trivial
  | cons a rest ih =>
    obtain ⟨ha, hrest⟩ := List.forall_mem_cons.mp h
    exact ⟨ha, ih hrest⟩

namespace Scope

theorem invalid_returns {α : Type} {P : α → Prop} (s : Scope) (message : String) :
    Returns P (s.invalid message) :=
  .error _

theorem argumentWith_registered (s : Scope) {call : List Char → Except SpecError Call}
    (hcall : ∀ text, Returns (Call.Registered s.registry) (call text)) (arg : List Char) :
    Returns (Argument.Registered s.registry) (s.argumentWith call arg) := by
  unfold argumentWith
  dsimp only
  split
  · exact .ok trivial
  · split
    · exact .ok trivial
    · exact .ok trivial
    · exact .ok trivial
    · exact .ok trivial
    · split
      · split
        · exact .ok trivial
        · exact s.invalid_returns _
      · split
        · exact .ok trivial
        · exact s.invalid_returns _
        · exact s.invalid_returns _
      · exact (hcall _).map fun hc => ⟨hc.function, hc.args⟩
      · split
        · exact .ok trivial
        · exact s.invalid_returns _

/-- By induction on the depth to which calls may nest. -/
theorem callWithin_registered (s : Scope) (depth : Nat) (text : List Char) :
    Returns (Call.Registered s.registry) (s.callWithin depth text) := by
  induction depth generalizing text with
  | zero => exact s.invalid_returns _
  | succ depth ih =>
    rw [callWithin]
    dsimp only
    split
    · exact s.invalid_returns _
    · split
      · exact s.invalid_returns _
      · split
        · exact .error _
        · rename_i hfunction
          split
          · exact .ok ⟨hfunction, trivial, trivial⟩
          · split
            · exact s.invalid_returns _
            · refine .bind (.mapM fun arg _ => s.argumentWith_registered ih arg) fun _ hargs => ?_
              exact .ok ⟨hfunction, registeredArguments_of_forall hargs⟩

theorem source_registered (s : Scope) (functions : Bool) (rhs : Json) :
    Returns (Source.Registered s.registry) (s.source functions rhs) := by
  unfold source
  split
  · split
    · split
      · exact (s.callWithin_registered _ _).map id
      · exact s.invalid_returns _
    · split
      · exact .ok trivial
      · exact s.invalid_returns _
    · exact .ok trivial
    · exact .ok trivial
    · exact .ok trivial
  · exact .ok trivial

end Scope

/-- The functions of all candidates are those of the registry. -/
theorem modify_yields (mode : ModifyMode) (registry : Registry) :
    (modify mode registry).Yields fun sources => ∀ s ∈ sources, s.Registered registry := by
  intro config location rhs
  change Returns _ (modifyTarget registry config location rhs)
  unfold modifyTarget
  split
  · exact .error _
  · exact .mapM fun rhs _ => Scope.source_registered _ _ rhs
  · exact (Scope.source_registered _ _ _).map List.forall_mem_singleton.mpr

end Operation
end Reshape
