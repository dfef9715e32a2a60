import Reshape.Operation.Chain
import Reshape.Proofs.Equality.Registered
/-!
# Equal operations have equal results

The comparison of compiled specs looks at the root key and the tree. For one registry this tells
what an operation does, up to the mode of a modify spec, which is left out of the comparison, and
the signs of zeros, which the comparison of floats does not see.
-/
namespace Reshape

open Operation
open Pattern (WritePath)

variable {τ : Type}

/-! ## Targets that the comparison tells apart -/

theorem TargetsTold.of_eq [BEq τ] {P : τ → Prop} (zeros : τ → List Float)
    (h : ∀ {s t : τ}, (s == t) = true → s = t) : TargetsTold P zeros :=
  fun _ _ hst _ _ => .of_eq zeros (h hst)

/-- Lists of targets are told apart where their elements are. -/
theorem TargetsTold.list [BEq τ] {P : τ → Prop} {zeros : τ → List Float}
    (h : TargetsTold P zeros) :
    TargetsTold (fun targets : List τ => ∀ t ∈ targets, P t) (List.flatMap zeros) := by
  intro a b hab ha hb
  induction a generalizing b with
  | nil =>
    cases b with
    | nil => exact .of_eq _ rfl
    | cons t more => cases hab
  | cons s rest ih =>
    cases b with
    | nil => cases hab
    | cons t more =>
      obtain ⟨hfirst, hrest⟩ := Bool.and_eq_true_iff.mp hab
      obtain ⟨hs, ha⟩ := List.forall_mem_cons.mp ha
      obtain ⟨ht, hb⟩ := List.forall_mem_cons.mp hb
      exact (h s t hfirst hs ht).map₂ List.cons (fun _ _ => List.flatMap_cons) (ih more hrest ha hb)

theorem Pattern.eq_of_beq_writePaths {a b : List WritePath} (h : (a == b) = true) : a = b := by
  have htold : TargetsTold (fun _ : WritePath => True) fun _ => [] :=
    .of_eq _ WritePath.eq_of_beq
  have hnone (paths : List WritePath) : paths.flatMap (fun _ => ([] : List Float)) = [] :=
    List.flatMap_eq_nil_iff.mpr fun _ _ => rfl
  exact (htold.list a b h (fun _ _ => trivial) fun _ _ => trivial).eq
    ((hnone a).trans (hnone b).symm)

/-! ## Trees without zeros -/

mutual
theorem Node.floatZeros_none : (node : Node τ) → node.floatZeros (fun _ => []) = []
  | .leaf element rawKey target => by rw [Node.floatZeros]
  | .composite level => by rw [Node.floatZeros, levelZeros_none level]

theorem levelZeros_none : (level : Composite (Node τ)) → levelZeros (fun _ => []) level = []
  | ⟨element, rawKey, isArray, special, literal, computed, strategy⟩ => by
    rw [levelZeros, nodesZeros_none special, namedZeros_none literal, nodesZeros_none computed]
    rfl

theorem nodesZeros_none : (nodes : List (Node τ)) → nodesZeros (fun _ => []) nodes = []
  | [] => by rw [nodesZeros]
  | node :: rest => by rw [nodesZeros, node.floatZeros_none, nodesZeros_none rest]; rfl

theorem namedZeros_none :
    (nodes : List (String × Node τ)) → namedZeros (fun _ => []) nodes = []
  | [] => by rw [namedZeros]
  | (_, node) :: rest => by rw [namedZeros, node.floatZeros_none, namedZeros_none rest]; rfl
end

/-! ## Specs -/

namespace CompiledSpec

variable {p : Policy τ} {P : τ → Prop} {zeros : τ → List Float} {raw raw' : Json}
  {config config' : Config} {a b : CompiledSpec τ}

theorem root_alike_of_beq [BEq τ] (hτ : TargetsTold P zeros) (hp : p.Yields P)
    (ha : compile p raw config = .ok a) (hb : compile p raw' config' = .ok b)
    (h : (a == b) = true) : a.rootKey = b.rootKey ∧ Alike (levelZeros zeros) a.root b.root := by
  obtain ⟨hkey, hroot⟩ := Bool.and_eq_true_iff.mp h
  refine ⟨LawfulBEq.eq_of_beq hkey, level_alike_of_beq ?_ (root_targets hp hb) hroot⟩
  exact fun child hc => Node.alike_of_beq hτ (root_targets hp ha child hc)

/-- Specs of one policy that compare equal are the same, but for their statistics, if the zeros
are. -/
theorem eq_of_beq [BEq τ] (hτ : TargetsTold P zeros) (hp : p.Yields P)
    (ha : compile p raw config = .ok a) (hb : compile p raw' config' = .ok b)
    (h : (a == b) = true) (hz : levelZeros zeros a.root = levelZeros zeros b.root) :
    { a with stats := b.stats } = b := by
  obtain ⟨hkey, hroot⟩ := root_alike_of_beq hτ hp ha hb h
  obtain ⟨hpa, -, -⟩ := of_compile ha
  obtain ⟨hpb, -, -⟩ := of_compile hb
  rw [hpa, hkey, hroot.eq hz, ← hpb]

end CompiledSpec

/-! ## Operations -/

namespace Transform

/-- The zeros among the literal values of the operation, level by level. -/
def floatZeros : Transform → List Float
  | .default spec => levelZeros Json.floatZeros spec.root
  | .modify _ spec => levelZeros (List.flatMap Source.floatZeros) spec.root
  | _ => []

/-- Two operations with as many zeros, which have the same results if the zeros are the same. -/
structure Agree (a b : Transform) : Prop where
  length_eq : a.floatZeros.length = b.floatZeros.length
  apply_eq : a.floatZeros = b.floatZeros → ∀ input, a.apply input = b.apply input

theorem exists_of_map_ok {ε α β : Type} {x : Except ε α} {f : α → β} {b : β}
    (h : x.map f = .ok b) : ∃ a, x = .ok a ∧ b = f a := by
  cases x with
  | error e => cases h
  | ok a => exact ⟨a, rfl, (Except.ok.inj h).symm⟩

/-- Operations that are made in one way from specs of one policy agree if they compare equal. -/
theorem Agree.of_specs {p : Policy τ} {P : τ → Prop} {zeros : τ → List Float} [BEq τ]
    {raw raw' : Json} {config config' : Config} {a b : Transform}
    (f : CompiledSpec τ → Transform) (hτ : TargetsTold P zeros) (hp : p.Yields P)
    (hzeros : ∀ spec, (f spec).floatZeros = levelZeros zeros spec.root)
    (hstats : ∀ spec stats, (f { spec with stats }).apply = (f spec).apply)
    (hbeq : ∀ spec other, (f spec == f other) = (spec == other))
    (ha : (CompiledSpec.compile p raw config).map f = .ok a)
    (hb : (CompiledSpec.compile p raw' config').map f = .ok b) (h : (a == b) = true) :
    a.Agree b := by
  obtain ⟨spec, hspec, rfl⟩ := exists_of_map_ok ha
  obtain ⟨other, hother, rfl⟩ := exists_of_map_ok hb
  rw [hbeq] at h
  constructor
  · rw [hzeros, hzeros]
    exact (CompiledSpec.root_alike_of_beq hτ hp hspec hother h).2.length_eq
  · intro hz input
    rw [hzeros, hzeros] at hz
    rw [← CompiledSpec.eq_of_beq hτ hp hspec hother h hz]
    exact congrFun (hstats spec other.stats).symm input

/-- Operations of one kind that were compiled with one registry and compare equal agree. -/
theorem agree_of_beq {registry : Registry} {config config' : Config} {raw raw' : Json}
    {kind : OperationKind} {a b : Transform} (ha : compile registry config raw kind = .ok a)
    (hb : compile registry config' raw' kind = .ok b) (h : (a == b) = true) : a.Agree b := by
  have hany {τ : Type} (p : Policy τ) : p.Yields fun _ => True := fun _ _ _ _ _ => trivial
  cases kind with
  | shift =>
    exact .of_specs .shift (.of_eq (fun _ => []) Pattern.eq_of_beq_writePaths) (hany _)
      (fun spec => (levelZeros_none spec.root).symm) (fun _ _ => rfl) (fun _ _ => rfl) ha hb h
  | default =>
    exact .of_specs .default (fun _ _ hst _ _ => Json.alike_of_beq hst) (hany _)
      (fun _ => rfl) (fun _ _ => rfl) (fun _ _ => rfl) ha hb h
  | remove =>
    exact .of_specs .remove (.of_eq (fun _ => []) fun _ => rfl) (hany _)
      (fun spec => (levelZeros_none spec.root).symm) (fun _ _ => rfl) (fun _ _ => rfl) ha hb h
  | modify mode =>
    have hsources : TargetsTold (Source.Registered registry) Source.floatZeros :=
      fun _ _ hst hs ht => Source.alike_of_beq hst hs ht
    exact .of_specs (.modify mode) hsources.list (modify_yields mode registry)
      (fun _ => rfl) (fun _ _ => rfl) (fun _ _ => rfl) ha hb h
  | cardinality =>
    exact .of_specs .cardinality (.of_eq (fun _ => []) fun hst => LawfulBEq.eq_of_beq hst) (hany _)
      (fun spec => (levelZeros_none spec.root).symm) (fun _ _ => rfl) (fun _ _ => rfl) ha hb h

end Transform

/-! ## Chains -/

namespace Chain

/-- The zeros among the literal values of the operations, in order. -/
def floatZeros (c : Chain) : List Float := c.stages.flatMap fun stage => stage.transform.floatZeros

/-- The stage was compiled with the registry. -/
def StageOf (registry : Registry) (stage : Stage) : Prop :=
  ∃ config spec, Transform.compile registry config spec stage.kind = .ok stage.transform

theorem stage_returns (registry : Registry) (config : Config) (position : Nat) (v : Json) :
    Returns (StageOf registry) (stage registry config position v) := by
  rw [stage]
  refine Returns.bind (P := fun _ => True) (fun _ _ => trivial) fun entry _ => ?_
  obtain ⟨kind, spec⟩ := entry
  dsimp only
  cases ht : Transform.compile registry config spec kind with
  | error e => exact .error _
  | ok transform => exact .ok ⟨config, spec, ht⟩

theorem compile_returns (registry : Registry) (config : Config) (spec : Json) :
    Returns (fun c => ∀ stage ∈ c.stages, StageOf registry stage)
      (compile registry config spec) := by
  unfold compile
  split
  · exact (Returns.mapM fun entry _ => stage_returns registry config entry.2 entry.1).map id
  · exact .error _

/-- Stages that compare equal agree, so lists of them have the same results on the way if their
zeros are the same. The induction is on the stages of the first chain. -/
theorem foldl_eq_of_beq {registry : Registry} {a b : List Stage}
    (ha : ∀ stage ∈ a, StageOf registry stage) (hb : ∀ stage ∈ b, StageOf registry stage)
    (h : (a == b) = true)
    (hz : (a.flatMap fun stage => stage.transform.floatZeros) =
      b.flatMap fun stage => stage.transform.floatZeros) (input : Json) :
    a.foldl (fun current stage => stage.transform.apply current) input =
      b.foldl (fun current stage => stage.transform.apply current) input := by
  induction a generalizing b input with
  | nil =>
    cases b with
    | nil => rfl
    | cons t more => cases h
  | cons s rest ih =>
    cases b with
    | nil => cases h
    | cons t more =>
      obtain ⟨hfirst, hrest⟩ := Bool.and_eq_true_iff.mp h
      obtain ⟨hkind, htransform⟩ := Bool.and_eq_true_iff.mp hfirst
      have hkind : s.kind = t.kind := LawfulBEq.eq_of_beq hkind
      obtain ⟨⟨config, spec, hs⟩, ha⟩ := List.forall_mem_cons.mp ha
      obtain ⟨⟨config', spec', ht⟩, hb⟩ := List.forall_mem_cons.mp hb
      rw [← hkind] at ht
      have hagree : s.transform.Agree t.transform := Transform.agree_of_beq hs ht htransform
      rw [List.flatMap_cons, List.flatMap_cons] at hz
      obtain ⟨hzs, hzrest⟩ := List.append_inj hz hagree.length_eq
      rw [List.foldl_cons, List.foldl_cons, hagree.apply_eq hzs input]
      exact ih ha hb hrest hzrest _

end Chain

namespace Transform

/-- Operations of one kind, and chains, that were compiled with one registry and compare equal
have the same result on every input, if the zeros among their literal values have the same
signs. -/
theorem apply_eq_of_beq (registry : Registry) :
    (∀ (config config' : Config) (spec spec' : Json) (kind : OperationKind) (a b : Transform),
      compile registry config spec kind = .ok a → compile registry config' spec' kind = .ok b →
      (a == b) = true → a.floatZeros = b.floatZeros → ∀ input, a.apply input = b.apply input) ∧
    (∀ (config config' : Config) (spec spec' : Json) (c d : Chain),
      Chain.compile registry config spec = .ok c → Chain.compile registry config' spec' = .ok d →
      (c == d) = true → c.floatZeros = d.floatZeros →
      ∀ input, c.apply input = d.apply input) := by
  constructor
  · intro config config' spec spec' kind a b ha hb h hz
    exact (agree_of_beq ha hb h).apply_eq hz
  · intro config config' spec spec' c d hc hd h hz
    exact Chain.foldl_eq_of_beq (Chain.compile_returns _ _ _ c hc)
      (Chain.compile_returns _ _ _ d hd) h hz

theorem exists_both {ε ε' α β γ : Type} {x : Except ε α} {y : Except ε' β} {f : α → β → γ} {r : γ}
    (h : (x.toOption.bind fun a => y.toOption.map (f a)) = some r) :
    ∃ a b, x = .ok a ∧ y = .ok b ∧ f a b = r := by
  cases x with
  | error e => cases h
  | ok a =>
    cases y with
    | error e => cases h
    | ok b => exact ⟨a, b, rfl, rfl, Option.some.inj h⟩

/-- A call that writes the text of a literal. -/
def textSpec (literal : String) : Json := .obj [("a", .str ("=toString(" ++ literal ++ ")"))]

def textChain (name literal : String) : Json :=
  .arr [.obj [("operation", .str name), ("spec", textSpec literal)]]

theorem apply_eq_of_beq_zeros :
    (∃ a b : Transform,
      compile .builtin {} (textSpec "-0.0") (.modify .overwrite) = .ok a ∧
      compile .builtin {} (textSpec " -0e0 ") (.modify .overwrite) = .ok b ∧
      (a == b) = true ∧ a.floatZeros = b.floatZeros ∧ ∀ input, a.apply input = b.apply input) ∧
    (∃ c d : Chain,
      Chain.compile .builtin {} (textChain "modify-define" "0.0") = .ok c ∧
      Chain.compile .builtin {} (textChain "modify-define-beta" "0e1") = .ok d ∧
      (c == d) = true ∧ c.floatZeros = d.floatZeros ∧ ∀ input, c.apply input = d.apply input) := by
  constructor
  · obtain ⟨a, b, ha, hb, hab⟩ := exists_both (r := (true, true))
      (x := compile .builtin {} (textSpec "-0.0") (.modify .overwrite))
      (y := compile .builtin {} (textSpec " -0e0 ") (.modify .overwrite))
      (f := fun a b => (a == b, decide (a.floatZeros = b.floatZeros))) (by decide +kernel)
    obtain ⟨hbeq, hz⟩ := Prod.mk.inj hab
    have hz := of_decide_eq_true hz
    exact ⟨a, b, ha, hb, hbeq, hz,
      (apply_eq_of_beq .builtin).1 {} {} _ _ (.modify .overwrite) a b ha hb hbeq hz⟩
  · obtain ⟨c, d, hc, hd, hcd⟩ := exists_both (r := (true, true))
      (x := Chain.compile .builtin {} (textChain "modify-define" "0.0"))
      (y := Chain.compile .builtin {} (textChain "modify-define-beta" "0e1"))
      (f := fun c d => (c == d, decide (c.floatZeros = d.floatZeros))) (by decide +kernel)
    obtain ⟨hbeq, hz⟩ := Prod.mk.inj hcd
    have hz := of_decide_eq_true hz
    exact ⟨c, d, hc, hd, hbeq, hz, (apply_eq_of_beq .builtin).2 {} {} _ _ c d hc hd hbeq hz⟩

/-- The sign of a zero and the mode decide results but not the comparison. -/
theorem beq_misses_zeros_and_modes :
    (∃ a b : Transform,
      compile .builtin {} (textSpec "0.0") (.modify .overwrite) = .ok a ∧
      compile .builtin {} (textSpec "-0.0") (.modify .overwrite) = .ok b ∧
      (a == b) = true ∧ a.apply (.obj []) ≠ b.apply (.obj [])) ∧
    (∃ a b : Transform,
      compile .builtin {} (textSpec "1") (.modify .overwrite) = .ok a ∧
      compile .builtin {} (textSpec "1") (.modify .define) = .ok b ∧
      (a == b) = true ∧ a.apply (.obj [("a", .null)]) ≠ b.apply (.obj [("a", .null)])) := by
  let textAt (v : Json) : Option String := (v.field? "a").bind Json.string?
  constructor
  · obtain ⟨a, b, ha, hb, hab⟩ := exists_both (r := (true, some "0.0", some "-0.0"))
      (x := compile .builtin {} (textSpec "0.0") (.modify .overwrite))
      (y := compile .builtin {} (textSpec "-0.0") (.modify .overwrite))
      (f := fun a b => (a == b, textAt (a.apply (.obj [])), textAt (b.apply (.obj []))))
      (by decide +kernel)
    obtain ⟨hbeq, hresults⟩ := Prod.mk.inj hab
    obtain ⟨hr, hs⟩ := Prod.mk.inj hresults
    refine ⟨a, b, ha, hb, hbeq, fun he => ?_⟩
    rw [he, hs] at hr
    exact absurd hr (by decide)
  · obtain ⟨a, b, ha, hb, hab⟩ := exists_both (r := (true, some "1", none))
      (x := compile .builtin {} (textSpec "1") (.modify .overwrite))
      (y := compile .builtin {} (textSpec "1") (.modify .define))
      (f := fun a b => (a == b, textAt (a.apply (.obj [("a", .null)])),
        textAt (b.apply (.obj [("a", .null)]))))
      (by decide +kernel)
    obtain ⟨hbeq, hresults⟩ := Prod.mk.inj hab
    obtain ⟨hr, hs⟩ := Prod.mk.inj hresults
    refine ⟨a, b, ha, hb, hbeq, fun he => ?_⟩
    rw [he, hs] at hr
    exact absurd hr (by decide)

end Transform
end Reshape
