import Reshape.Operation.Chain
/-!
# Who reports duplicate keys

Neither the readers of keys and paths nor the policies of the operations report a duplicate key:
that is left to compiling.
-/
namespace Reshape

open Pattern (Element)

variable {τ : Type}

/-! ## Errors that report no duplicate -/

def SpecProblem.isDuplicate : SpecProblem → Bool
  | .duplicateKey _ _ _ => true
  | _ => false

/-- If there is no result, it is not because of a duplicate key. -/
def NoDuplicate {α : Type} (result : Except SpecError α) : Prop :=
  ∀ e, result = .error e → e.problem.isDuplicate = false

namespace NoDuplicate

variable {α β : Type}

theorem ok (a : α) : NoDuplicate (.ok a) := nofun

theorem error {e : SpecError} (h : e.problem.isDuplicate = false) :
    NoDuplicate (.error e : Except SpecError α) := by
  rintro _ ⟨⟩
  exact h

theorem bind {x : Except SpecError α} {f : α → Except SpecError β} (hx : NoDuplicate x)
    (hf : ∀ a, NoDuplicate (f a)) : NoDuplicate (x >>= f) := by
  cases x with
  | ok a => exact hf a
  | error e => exact error (hx e rfl)

theorem map {x : Except SpecError α} (hx : NoDuplicate x) (f : α → β) : NoDuplicate (x.map f) := by
  cases x with
  | ok a => exact ok _
  | error e => exact error (hx e rfl)

theorem mapM {f : α → Except SpecError β} (hf : ∀ a, NoDuplicate (f a)) (xs : List α) :
    NoDuplicate (xs.mapM f) := by
  induction xs with
  | nil => exact ok _
  | cons x xs ih =>
    rw [List.mapM_cons]
    exact bind (hf x) fun b => bind ih fun bs => ok _

end NoDuplicate

namespace Pattern

theorem parseWhole_noDuplicate {α : Type} (scan : Scan α) (key : String) :
    NoDuplicate (parseWhole scan key) := by
  rw [parseWhole]
  split
  · exact .ok _
  · exact .error rfl

theorem parseCount_noDuplicate (key : String) (tail : List Char) :
    NoDuplicate (parseCount key tail) := by
  rw [parseCount]
  split
  · refine (parseWhole_noDuplicate _ _).bind fun read => ?_
    dsimp only
    split
    · exact .error rfl
    · exact .ok _
  · exact .ok _

theorem parsePattern_noDuplicate (key : String) : NoDuplicate (parsePattern key) := by
  refine (parseWhole_noDuplicate _ _).bind fun read => ?_
  dsimp only
  split
  · exact .error rfl
  · split
    · exact .ok _
    · split
      · exact .error rfl
      all_goals exact .ok _

theorem parseKey_noDuplicate (key : String) : NoDuplicate (parseKey key) := by
  rw [parseKey]
  split
  · exact .ok _
  · exact .ok _
  · split
    · exact .ok _
    · exact .error rfl
  · exact parseWhole_noDuplicate _ _
  · exact parseCount_noDuplicate _ _
  · exact parsePattern_noDuplicate _

theorem splitAlternatives_noDuplicate (key : String) : NoDuplicate (splitAlternatives key) := by
  rw [splitAlternatives]
  split
  · exact .error rfl
  · split
    · exact .ok _
    · refine .mapM (fun part => ?_) _
      dsimp only
      split
      · exact .error rfl
      · exact .ok _

theorem WritePath.parse_noDuplicate (raw rootKey : String) :
    NoDuplicate (WritePath.parse raw rootKey) := by
  rw [parse]
  split
  · exact .ok _
  · exact .error rfl

end Pattern

/-! ## The policies of the operations -/

/-- The policy refuses something in a spec with this problem. -/
def Policy.Raises (p : Policy τ) (config : Config) (problem : SpecProblem) : Prop :=
  ∃ location e, e.problem = problem ∧
    ((∃ element, p.validate location element = .error e) ∨
      ∃ value, p.compileTarget config location value = .error e)

/-- The policy leaves it to compiling to find duplicate keys. -/
structure Policy.FindsNoDuplicate (p : Policy τ) : Prop where
  validate : ∀ location element, NoDuplicate (p.validate location element)
  compileTarget : ∀ config location value, NoDuplicate (p.compileTarget config location value)

theorem Policy.FindsNoDuplicate.not_raises {p : Policy τ} (h : p.FindsNoDuplicate) (config : Config)
    {problem : SpecProblem} (hd : problem.isDuplicate = true) : ¬ p.Raises config problem := by
  rintro ⟨location, e, rfl, ⟨element, he⟩ | ⟨value, he⟩⟩
  · rw [h.validate location element e he] at hd
    cases hd
  · rw [h.compileTarget config location value e he] at hd
    cases hd

theorem Policy.accepting_noDuplicate (operation : String) (accepts : Element → Bool)
    (location : String) (e : Element) :
    NoDuplicate (Policy.accepting operation accepts location e) := by
  rw [Policy.accepting]
  split
  · exact .ok _
  · exact .error rfl

namespace Operation

namespace Scope

theorem invalid_noDuplicate {α : Type} (s : Scope) (message : String) :
    NoDuplicate (s.invalid message : Except SpecError α) :=
  .error rfl

theorem argumentWith_noDuplicate (s : Scope) {call : List Char → Except SpecError Call}
    (h : ∀ text, NoDuplicate (call text)) (arg : List Char) :
    NoDuplicate (s.argumentWith call arg) := by
  unfold argumentWith
  dsimp only
  split
  · exact .ok _
  · split
    · exact .ok _
    · exact .ok _
    · exact .ok _
    · exact .ok _
    · split
      · split
        · exact .ok _
        · exact s.invalid_noDuplicate _
      · split
        · exact .ok _
        · exact s.invalid_noDuplicate _
        · exact s.invalid_noDuplicate _
      · exact (h _).map _
      · split
        · exact .ok _
        · exact s.invalid_noDuplicate _

theorem callWithin_noDuplicate (s : Scope) (depth : Nat) (text : List Char) :
    NoDuplicate (s.callWithin depth text) := by
  induction depth generalizing text with
  | zero => exact s.invalid_noDuplicate _
  | succ depth ih =>
    rw [callWithin]
    dsimp only
    split
    · exact s.invalid_noDuplicate _
    · split
      · exact s.invalid_noDuplicate _
      · split
        · exact .error rfl
        · split
          · exact .ok _
          · split
            · exact s.invalid_noDuplicate _
            · exact (NoDuplicate.mapM (s.argumentWith_noDuplicate ih) _).bind fun _ => .ok _

theorem source_noDuplicate (s : Scope) (functions : Bool) (rhs : Json) :
    NoDuplicate (s.source functions rhs) := by
  unfold source
  split
  · split
    · split
      · exact (s.callWithin_noDuplicate _ _).map _
      · exact s.invalid_noDuplicate _
    · split
      · exact .ok _
      · exact s.invalid_noDuplicate _
    · exact .ok _
    · exact .ok _
    · exact .ok _
  · exact .ok _

end Scope

theorem shift_findsNoDuplicate : shift.FindsNoDuplicate where
  validate := fun _ _ => .ok _
  compileTarget := by
    intro config location value
    change NoDuplicate (shiftTargets config.rootKey value)
    have htarget (v : Json) : NoDuplicate (shiftTarget config.rootKey v) := by
      unfold shiftTarget
      split
      · exact Pattern.WritePath.parse_noDuplicate _ _
      · exact .error rfl
    unfold shiftTargets
    split
    · exact .ok _
    · exact (Pattern.WritePath.parse_noDuplicate _ _).map _
    · exact .mapM htarget _
    · exact .error rfl

theorem default_findsNoDuplicate : Operation.default.FindsNoDuplicate where
  validate := Policy.accepting_noDuplicate _ _
  compileTarget := fun _ _ _ => .ok _

theorem remove_findsNoDuplicate : remove.FindsNoDuplicate where
  validate := Policy.accepting_noDuplicate _ _
  compileTarget := by
    intro config location value
    change NoDuplicate (removeTarget value)
    unfold removeTarget
    split
    · exact .ok _
    · exact .ok _
    · exact .error rfl

theorem modify_findsNoDuplicate (mode : ModifyMode) (registry : Registry) :
    (modify mode registry).FindsNoDuplicate where
  validate := Policy.accepting_noDuplicate _ _
  compileTarget := by
    intro config location value
    change NoDuplicate (modifyTarget registry config location value)
    unfold modifyTarget
    split
    · exact .error rfl
    · exact .mapM (Scope.source_noDuplicate _ _) _
    · exact (Scope.source_noDuplicate _ _ _).map _

theorem cardinality_findsNoDuplicate : cardinality.FindsNoDuplicate where
  validate := Policy.accepting_noDuplicate _ _
  compileTarget := by
    intro config location value
    change NoDuplicate (Multiplicity.ofTarget value)
    unfold Multiplicity.ofTarget
    split
    · exact .ok _
    · exact .error rfl

end Operation

end Reshape
