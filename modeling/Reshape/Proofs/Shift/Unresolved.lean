import Reshape.Proofs.Shift.Output
import Reshape.Proofs.Spec.Targets
import Reshape.Proofs.Walk.Captures
/-!
# Targets that never resolve

A reference that does not fit the elements above a leaf resolves at no visit of the leaf, and a
path with such a reference is not written at all. So targets with such references can be inserted
into a shift without changing what it does.
-/
namespace Reshape

open Pattern (Element Reference Segment Template PathStep WritePath)

/-! ## Paths with a reference that does not resolve -/

namespace Pattern

def Template.references (t : Template) : List Reference :=
  t.segments.filterMap fun
    | .reference r => some r
    | .text _ => none

mutual
/-- The references in a step, those in the path of its lookup among them. -/
def PathStep.references : PathStep → List Reference
  | .key template => template.references
  | .lookup _ steps => stepReferences steps
  | .index _ => []
  | .indexReference r => [r]
  | .indexCount _ => []
  | .indexLookup _ steps => stepReferences steps
  | .append => []

def stepReferences : List PathStep → List Reference
  | [] => []
  | step :: rest => step.references ++ stepReferences rest
end

variable {frames : Frames} {r : Reference}

theorem Template.resolve?_eq_none {t : Template} (hr : r ∈ t.references)
    (h : r.resolve? frames = none) : t.resolve? frames = none := by
  obtain ⟨segments⟩ := t
  obtain ⟨segment, hs, he⟩ := List.mem_filterMap.mp hr
  rw [resolve?]
  dsimp only at hs ⊢
  induction segments with
  | nil => cases hs
  | cons first rest ih =>
    rcases List.mem_cons.mp hs with rfl | hs
    · cases segment with
      | text t => cases he
      | reference r' =>
        obtain rfl := Option.some.inj he
        rw [resolveSegments?, h]
        rfl
    · have hrest := ih (List.mem_filterMap.mpr ⟨segment, hs, he⟩) hs
      cases first with
      | text t => rw [resolveSegments?, hrest]; rfl
      | reference r' =>
        rw [resolveSegments?, hrest]
        cases r'.resolve? frames <;> rfl

mutual
theorem PathStep.resolve?_eq_none (h : r.resolve? frames = none) :
    ∀ {step : PathStep}, r ∈ step.references → step.resolve? frames = none
  | .key template, hr => by
    rw [PathStep.resolve?, Template.resolve?_eq_none hr h]
    rfl
  | .lookup up steps, hr => by
    rw [PathStep.resolve?, resolveSteps?_eq_none h hr]
    rfl
  | .indexReference r', hr => by
    obtain rfl := List.mem_singleton.mp hr
    rw [PathStep.resolve?, h]
    rfl
  | .indexLookup up steps, hr => by
    rw [PathStep.resolve?, resolveSteps?_eq_none h hr]
    rfl

/-- A path does not resolve if one of its references does not. -/
theorem resolveSteps?_eq_none (h : r.resolve? frames = none) :
    ∀ {steps : List PathStep}, r ∈ stepReferences steps → resolveSteps? frames steps = none
  | step :: rest, hr => by
    rw [resolveSteps?]
    rcases List.mem_append.mp hr with hr | hr
    · rw [PathStep.resolve?_eq_none h hr]
      rfl
    · rw [resolveSteps?_eq_none h hr]
      cases step.resolve? frames <;> rfl
end

/-- The path has a reference that does not fit the elements above a leaf. -/
def WritePath.Misses (chain : List Element) (path : WritePath) : Prop :=
  ∃ r ∈ stepReferences path.steps, ¬ r.FitsChain chain

theorem WritePath.Misses.write_eq {chain : List Element} {path : WritePath}
    (h : path.Misses chain) (hframes : frames.captureCounts = chain.map Element.stars)
    (value output : Json) : (path.write value output frames).1 = output := by
  obtain ⟨r, hr, hfits⟩ := h
  have hnone : r.resolve? frames = none :=
    Option.not_isSome_iff_eq_none.mp fun hsome => hfits ((r.resolve?_isSome hframes).mp hsome)
  rw [write, resolve?, resolveSteps?_eq_none hnone hr]

end Pattern

/-! ## Lists with elements inserted -/

/-- The second list is the first one with elements inserted that have a property. -/
inductive Inserted {α : Type} (P : α → Prop) : List α → List α → Prop
  | nil : Inserted P [] []
  | keep (x : α) {xs ys : List α} (rest : Inserted P xs ys) : Inserted P (x :: xs) (x :: ys)
  | insert {y : α} (holds : P y) {xs ys : List α} (rest : Inserted P xs ys) :
    Inserted P xs (y :: ys)

namespace Inserted

variable {ε α β : Type} {P : α → Prop} {Q : β → Prop} {xs ys : List α}

theorem mapM {f : α → Except ε β} (hf : ∀ a, P a → ∃ b, f a = .ok b ∧ Q b)
    (h : Inserted P xs ys) : Both (Inserted Q) (xs.mapM f) (ys.mapM f) := by
  induction h with
  | nil => exact .ok .nil
  | @keep x xs ys _ ih =>
    rw [List.mapM_cons, List.mapM_cons]
    cases f x with
    | error e => exact .error
    | ok b => exact ih.bind fun _ _ h => .ok (.keep b h)
  | @insert y hy xs ys _ ih =>
    obtain ⟨b, hb, hQ⟩ := hf y hy
    rw [List.mapM_cons, hb]
    have hright : Both (Inserted Q) (xs.mapM f >>= pure) (ys.mapM f >>= fun bs => pure (b :: bs)) :=
      ih.bind fun _ _ h => .ok (.insert hQ h)
    rwa [bind_pure] at hright

/-- Elements without effect do not change a fold. -/
theorem foldl_eq {γ : Type} {f : γ → α → γ} (hf : ∀ y, P y → ∀ c, f c y = c)
    (h : Inserted P xs ys) (c : γ) : ys.foldl f c = xs.foldl f c := by
  induction h generalizing c with
  | nil => rfl
  | keep x _ ih => exact ih (f c x)
  | @insert y hy _ _ _ ih =>
    rw [List.foldl_cons, hf y hy]
    exact ih c

end Inserted

/-! ## Specs with targets inserted -/

namespace Operation

/-- The targets that a right-hand side lists. -/
def targetList : Json → List Json
  | .null => []
  | .arr paths => paths
  | v => [v]

/-- A valid target with a reference that does not fit the elements above its leaf. -/
def MissingTarget (rootKey : String) (chain : List Element) (target : Json) : Prop :=
  ∃ text path, target = .str text ∧ WritePath.parse text rootKey = .ok path ∧ path.Misses chain

mutual
/-- The second value is the first one with targets inserted into its leaves. Each of them has a
reference that does not fit the elements above the leaf; those above the value are given, the
innermost first. -/
inductive Padded (rootKey : String) : List Element → Json → Json → Prop
  | targets {chain : List Element} {v w : Json} (plain : ∀ fields, v ≠ .obj fields)
    (plain' : ∀ fields, w ≠ .obj fields)
    (inserted : Inserted (MissingTarget rootKey chain) (targetList v) (targetList w)) :
    Padded rootKey chain v w
  | level {chain : List Element} {fields fields' : List (String × Json)}
    (each : PaddedFields rootKey chain fields fields') :
    Padded rootKey chain (.obj fields) (.obj fields')

/-- The values are padded key by key, below the element of every alternative of the key. -/
inductive PaddedFields (rootKey : String) :
    List Element → List (String × Json) → List (String × Json) → Prop
  | nil {chain : List Element} : PaddedFields rootKey chain [] []
  | cons {chain : List Element} {key : String} {v w : Json} {rest rest' : List (String × Json)}
    (kind : v.fields?.isSome = w.fields?.isSome)
    (padded : ∀ keys, Pattern.splitAlternatives key = .ok keys → ∀ alternative ∈ keys, ∀ e,
      Build.keyElement alternative v = .ok e → Padded rootKey (e :: chain) v w)
    (others : PaddedFields rootKey chain rest rest') :
    PaddedFields rootKey chain ((key, v) :: rest) ((key, w) :: rest')
end

/-- The targets of a right-hand side are those that it lists. -/
theorem shiftTargets_targetList {v : Json} (h : ∀ fields, v ≠ .obj fields) (rootKey : String) :
    Both (· = ·) (shiftTargets rootKey v) ((targetList v).mapM (shiftTarget rootKey)) := by
  cases v with
  | null => exact .ok rfl
  | arr paths =>
    rw [shiftTargets, targetList]
    cases paths.mapM (shiftTarget rootKey) with
    | ok targets => exact .ok rfl
    | error e => exact .error
  | str path =>
    have hlist : targetList (.str path) = [.str path] := rfl
    rw [shiftTargets, hlist, List.mapM_cons, shiftTarget]
    cases WritePath.parse path rootKey with
    | ok target => exact .ok rfl
    | error e => exact .error
  | obj fields => exact absurd rfl (h fields)
  | _ => exact .error

theorem shiftTargets_padded {rootKey : String} {chain : List Element} {v w : Json}
    (hv : ∀ fields, v ≠ .obj fields) (hw : ∀ fields, w ≠ .obj fields)
    (h : Inserted (MissingTarget rootKey chain) (targetList v) (targetList w)) :
    Both (Inserted (WritePath.Misses chain)) (shiftTargets rootKey v)
      (shiftTargets rootKey w) := by
  have hmapped : Both (Inserted (WritePath.Misses chain))
      ((targetList v).mapM (shiftTarget rootKey)) ((targetList w).mapM (shiftTarget rootKey)) := by
    refine h.mapM ?_
    rintro _ ⟨text, path, rfl, hpath, hmisses⟩
    exact ⟨path, hpath, hmisses⟩
  exact .of_eq (shiftTargets_targetList hv rootKey) hmapped (shiftTargets_targetList hw rootKey)

end Operation

/-! ## Leaves below padded nodes -/

/-- Two arrivals in the same place with the same data, the second with targets inserted that do not
resolve there. -/
structure Arrival.Padded (root : Element) (a b : Arrival (List WritePath)) : Prop where
  data_eq : a.data = b.data
  site_eq : a.site = b.site
  inserted : Inserted (WritePath.Misses (a.site.chain root)) a.target b.target

/-- Below the elements of a chain the leaves of the second node are those of the first one with
targets inserted that do not resolve. -/
structure Node.Padded (root : Element) (chain : List Element) (a b : Node (List WritePath)) :
    Prop where
  element_eq : a.element = b.element
  arrivals : ∀ {site : Site}, site.chain root = a.element :: chain →
    ∀ (key : String) (data input : Option Json), List.Forall₂ (Arrival.Padded root)
      ((a.branch false).arrivals key data input site)
      ((b.branch false).arrivals key data input site)

namespace Node.Padded

variable {root : Element} {chain : List Element}

theorem leaf {element : Element} {key : String} {targets targets' : List WritePath}
    (h : Inserted (WritePath.Misses (element :: chain)) targets targets') :
    Node.Padded root chain (.leaf element key targets) (.leaf element key targets') where
  element_eq := rfl
  arrivals := by
    intro site hsite _ _ _
    exact .cons ⟨rfl, rfl, hsite ▸ h⟩ .nil

/-- The leaves of a level are below its children, and these one element further down. -/
theorem level_arrivals {a b : Level (List WritePath)} {below : List Element}
    (h : a.Rel (Node.Padded root below) b) {site : Site} (hsite : site.chain root = below)
    (input : Option Json) :
    List.Forall₂ (Arrival.Padded root) ((branchLevel false a).arrivals false input site)
      ((branchLevel false b).arrivals false input site) := by
  refine h.arrivals (fun _ _ hab => hab.element_eq) ?_ input
  intro child child' hchild n slot matched key data inner
  have hchain : ((site.counted n).enter child.element slot matched inner).chain root =
      child.element :: below := congrArg (child.element :: ·) hsite
  exact hchild.arrivals hchain key data inner

theorem composite {a b : Level (List WritePath)}
    (h : a.Rel (Node.Padded root (a.element :: chain)) b) :
    Node.Padded root chain (.composite a) (.composite b) where
  element_eq := h.element_eq
  arrivals := fun hsite _ _ input => level_arrivals h hsite input

end Node.Padded

namespace Operation

variable {config : Config} {root : Element}

theorem Padded.leaf_agree {chain : List Element} {v w : Json} {e : Element} {key : String}
    (hv : ∀ fields, v ≠ .obj fields) (hw : ∀ fields, w ≠ .obj fields)
    (hinserted : Inserted (MissingTarget config.rootKey (e :: chain)) (targetList v)
      (targetList w)) (hparse : Pattern.parseKey key = .ok e) (location : String) (depth : Nat) :
    Build.Agree (Node.Padded root chain) (Build.node shift config key location depth v)
      (Build.node shift config key location depth w) := by
  rw [Build.node.eq_2 _ _ _ _ _ _ hv, Build.node.eq_2 _ _ _ _ _ _ hw, hparse,
    Build.locate_ok_bind, Build.locate_ok_bind]
  refine Build.Agree.bind_same _ fun _ => ?_
  have htargets := shiftTargets_padded hv hw hinserted
  refine Build.Agree.bind (.locate htargets location) fun a b hab => ?_
  exact Build.Agree.bind_same _ fun _ => .pure (.leaf hab)

mutual
/-- The nodes of padded values agree. The recursion is that of the padding. -/
theorem Padded.agree {key : String} {e : Element} :
    ∀ {chain : List Element} {v w : Json}, Padded config.rootKey (e :: chain) v w →
      Build.keyElement key v = .ok e → ∀ location depth,
        Build.Agree (Node.Padded root chain) (Build.node shift config key location depth v)
          (Build.node shift config key location depth w)
  | _, _, _, .targets plain plain' inserted, hparse, location, depth => by
    rw [Build.keyElement_of_plain plain] at hparse
    exact Padded.leaf_agree plain plain' inserted hparse location depth
  | chain, .obj fields, .obj fields', .level each, hparse, location, depth => by
    have hfields := PaddedFields.agree each
    refine (Build.node_agree (L := fun a b => a.element = e ∧
      a.Rel (Node.Padded root (e :: chain)) b) (Build.isEmpty_eq_of_forall₂ hfields) ?_).imp ?_
    · intro element helement isArray
      obtain rfl := Except.ok.inj (hparse.symm.trans helement)
      exact Build.level_agree (fun _ _ hab => hab.element_eq) hfields isArray location _ _ key
    · rintro _ _ ⟨rfl, hrel⟩
      exact .composite hrel

theorem PaddedFields.agree :
    ∀ {chain : List Element} {fields fields' : List (String × Json)},
      PaddedFields config.rootKey chain fields fields' →
      List.Forall₂ (Build.FieldAgree shift config (Node.Padded root chain)) fields fields'
  | _, _, _, .nil => .nil
  | _, (_, v) :: _, _, .cons kind padded others => by
    refine .cons ⟨rfl, ?_⟩ (PaddedFields.agree others)
    intro keys hkeys key hk location depth
    cases hparse : Build.keyElement key v with
    | error e =>
      have hparse' := (Build.keyElement_congr kind key).symm.trans hparse
      exact .of_refuses (Build.node_refuses hparse _ _ _ _) (Build.node_refuses hparse' _ _ _ _)
    | ok e => exact (padded keys hkeys key hk e hparse).agree hparse location depth
end

/-- A visit with targets that do not resolve added to its own writes what it wrote without them. -/
theorem outputAfter_padded {a b : Arrival (List WritePath)} (h : a.Padded root b)
    (hstatic : a.site.frames.captureCounts = (a.site.chain root).map Element.stars)
    (output : Json) :
    Outcome.outputAfter shift.decide output b.visit =
      Outcome.outputAfter shift.decide output a.visit := by
  rw [outputAfter_visit, outputAfter_visit, ← h.data_eq, ← h.site_eq]
  cases a.data with
  | none => rfl
  | some data => exact h.inserted.foldl_eq (fun path hmisses output =>
      hmisses.write_eq hstatic data output) output

/-- **Targets that do not resolve leave no trace.** If a shift compiles, so does every spec with
valid targets inserted into its leaves that have a reference which does not fit the elements above
the leaf, and it gives the same result on every input. -/
theorem applyShift_padded {raw raw' : Json} {spec : CompiledSpec (List WritePath)}
    (h : CompiledSpec.compile shift raw config = .ok spec)
    (hpadded : Padded config.rootKey [.literal config.rootKey] raw raw') :
    ∃ spec', CompiledSpec.compile shift raw' config = .ok spec' ∧
      ∀ {document : Json}, document.WellFormed →
        applyShift spec' document = applyShift spec document := by
  obtain ⟨fields, rfl, -⟩ := Build.root_from (CompiledSpec.gives_root h)
  cases hpadded with
  | targets plain _ _ => exact absurd rfl (plain fields)
  | @level _ _ fields' each =>
    have hfields : List.Forall₂ (Build.FieldAgree shift config
        (Node.Padded (.literal config.rootKey) [.literal config.rootKey])) fields fields' :=
      each.agree
    have hroot := Build.root_agree (Build.isEmpty_eq_of_forall₂ hfields)
      (Build.level_agree (fun _ _ hab => hab.element_eq) hfields false "" 0
        (.literal config.rootKey) config.rootKey)
    obtain ⟨spec', h', hrel⟩ := (CompiledSpec.compile_agree hroot).of_ok h
    refine ⟨spec', h', fun {document} hdoc => ?_⟩
    obtain ⟨hpolicy, hkey, -⟩ := CompiledSpec.of_compile h
    obtain ⟨hpolicy', -, -⟩ := CompiledSpec.of_compile h'
    have harrivals : List.Forall₂ (Arrival.Padded (.literal config.rootKey))
        (spec.arrivals document) (spec'.arrivals document) := by
      rw [CompiledSpec.arrivals, CompiledSpec.arrivals, hpolicy, hpolicy', ← hrel.rootKey_eq]
      exact Node.Padded.level_arrivals hrel.root.2 rfl (some document)
    refine applyShift_eq_of_arrivals h h' hrel.rootKey_eq hdoc hdoc harrivals ?_
    intro a b ha hab output
    have hcaptures := ((CompiledSpec.references_static h hdoc).2 a ha).captures
    rw [CompiledSpec.root_element h, hkey] at hcaptures
    exact outputAfter_padded hab hcaptures output

/-- The reference of a target, computed. -/
theorem MissingTarget.of_reference {rootKey text : String} {chain : List Element}
    (r : Pattern.Reference) (h : ((WritePath.parse text rootKey).toOption.map fun path =>
      decide (r ∈ Pattern.stepReferences path.steps)) = some true) (hfits : ¬ r.FitsChain chain) :
    MissingTarget rootKey chain (.str text) := by
  cases hpath : WritePath.parse text rootKey with
  | error e =>
    rw [hpath] at h
    cases h
  | ok path =>
    rw [hpath] at h
    exact ⟨text, path, rfl, hpath, r, of_decide_eq_true (Option.some.inj h), hfits⟩

/-- A key with one alternative whose element has a number of stars, all computed. -/
theorem PaddedFields.single {rootKey key : String} {chain : List Element} {v w : Json} {n : Nat}
    {rest rest' : List (String × Json)} (kind : v.fields?.isSome = w.fields?.isSome)
    (hkeys : (Pattern.splitAlternatives key).toOption = some [key])
    (hstars : (Build.keyElement key v).toOption.map Element.stars = some n)
    (padded : ∀ e : Element, e.stars = n → Padded rootKey (e :: chain) v w)
    (others : PaddedFields rootKey chain rest rest') :
    PaddedFields rootKey chain ((key, v) :: rest) ((key, w) :: rest') := by
  refine .cons kind ?_ others
  intro keys hok alternative hk e he
  rw [hok] at hkeys
  obtain rfl := Option.some.inj hkeys
  obtain rfl := List.mem_singleton.mp hk
  rw [he] at hstars
  exact padded e (Option.some.inj hstars)

theorem ne_obj_of_fields? {v : Json} (h : v.fields? = none) (fields : List (String × Json)) :
    v ≠ .obj fields := by
  rintro rfl
  cases h

/-- Around a target below a pattern with two stars, a key reference to a level that is not there and
an index reference to a third capture; and a reference to a capture of a literal key, for a leaf
that had no target. -/
theorem applyShift_padded_captures :
    ∃ spec, CompiledSpec.compile shift
        (.obj [("p*-*", .obj [("*", .str "out.&1.&")]), ("z", .null)]) {} = .ok spec ∧
      Padded "root" [.literal "root"]
        (.obj [("p*-*", .obj [("*", .str "out.&1.&")]), ("z", .null)])
        (.obj [("p*-*", .obj [("*", .arr [.str "new.&(9,0)", .str "out.&1.&",
          .str "out.&1[&(1,3)]"])]), ("z", .str "a.&(0,1)")]) ∧
      (Json.obj [("p1-2", .obj [("k", .bool true)]), ("z", .null)]).WellFormed ∧
      ∃ spec', CompiledSpec.compile shift
          (.obj [("p*-*", .obj [("*", .arr [.str "new.&(9,0)", .str "out.&1.&",
            .str "out.&1[&(1,3)]"])]), ("z", .str "a.&(0,1)")]) {} = .ok spec' ∧
        applyShift spec' (.obj [("p1-2", .obj [("k", .bool true)]), ("z", .null)]) =
          applyShift spec (.obj [("p1-2", .obj [("k", .bool true)]), ("z", .null)]) := by
  have hcompiles : (CompiledSpec.compile shift
      (.obj [("p*-*", .obj [("*", .str "out.&1.&")]), ("z", .null)]) {}).toOption.isSome =
        true := by
    decide +kernel
  have hpadded : Padded "root" [.literal "root"]
      (.obj [("p*-*", .obj [("*", .str "out.&1.&")]), ("z", .null)])
      (.obj [("p*-*", .obj [("*", .arr [.str "new.&(9,0)", .str "out.&1.&",
        .str "out.&1[&(1,3)]"])]), ("z", .str "a.&(0,1)")]) := by
    refine .level (.single (n := 2) rfl (by decide +kernel) (by decide +kernel) ?below
      (.single (n := 0) rfl (by decide +kernel) (by decide +kernel) ?unwritten .nil))
    case below =>
      intro pattern hpattern
      refine .level (.single (n := 0) rfl (by decide +kernel) (by decide +kernel) ?_ .nil)
      intro star _
      have hlevel : MissingTarget "root" [star, pattern, .literal "root"] (.str "new.&(9,0)") := by
        refine .of_reference ⟨9, 0⟩ (by decide +kernel) ?_
        rintro ⟨_, he, _⟩
        cases he
      have hgroup : MissingTarget "root" [star, pattern, .literal "root"]
          (.str "out.&1[&(1,3)]") := by
        refine .of_reference ⟨1, 3⟩ (by decide +kernel) ?_
        rintro ⟨e, he, hle⟩
        obtain rfl : pattern = e := Option.some.inj he
        rw [hpattern] at hle
        exact absurd hle (by decide)
      exact .targets (ne_obj_of_fields? rfl) (ne_obj_of_fields? rfl)
        (.insert hlevel (.keep _ (.insert hgroup .nil)))
    case unwritten =>
      intro literal hliteral
      refine .targets (ne_obj_of_fields? rfl) (ne_obj_of_fields? rfl)
        (.insert (.of_reference ⟨0, 1⟩ (by decide +kernel) ?_) .nil)
      rintro ⟨e, he, hle⟩
      obtain rfl : literal = e := Option.some.inj he
      rw [hliteral] at hle
      exact absurd hle (by decide)
  have hwell : (Json.obj [("p1-2", .obj [("k", .bool true)]), ("z", .null)]).WellFormed :=
    ⟨by decide, ⟨by decide, trivial, trivial⟩, trivial, trivial⟩
  obtain ⟨spec, hspec⟩ := CompiledSpec.exists_of_isSome hcompiles
  obtain ⟨spec', hspec', hsame⟩ := applyShift_padded hspec hpadded
  exact ⟨spec, hspec, hpadded, hwell, spec', hspec', hsame hwell⟩

end Operation
end Reshape
