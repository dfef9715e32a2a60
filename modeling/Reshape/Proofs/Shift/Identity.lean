import Reshape.Proofs.Pattern.LevelPath
import Reshape.Proofs.Shift.Output
import Reshape.Proofs.Spec.Single
/-!
# The identity at a depth

Nested stars reach every value at their depth, in the order of the keys. Each is written to the
keys it was reached by, so no two are written to one place and the document is put together again.
-/
namespace Reshape

open Pattern (Element WritePath)

variable {τ : Type}

/-! ## A document from its leaves -/

namespace Json

/-- The values down to a depth are objects with entries. -/
def IsDeep : Nat → Json → Prop
  | 0, _ => True
  | depth + 1, v => ∃ fields, v = .obj fields ∧ fields ≠ [] ∧ ∀ field ∈ fields, IsDeep depth field.2

/-- The values at a depth below objects, each with its address. -/
def leavesAt : Nat → Json → List (Address × Json)
  | 0, v => [([], v)]
  | depth + 1, .obj fields => fields.flatMap fun (key, v) =>
      (leavesAt depth v).map fun (address, leaf) => (.key key :: address, leaf)
  | _ + 1, _ => []

/-- Merge values into a document one after another. -/
def writeLeaves (v : Json) (leaves : List (Address × Json)) : Json :=
  leaves.foldl (fun output leaf => (output.writeMerged leaf.1 leaf.2).1) v

@[simp] theorem writeLeaves_cons (v : Json) (address : Address) (leaf : Json)
    (rest : List (Address × Json)) :
    v.writeLeaves ((address, leaf) :: rest) = (v.writeMerged address leaf).1.writeLeaves rest := rfl

@[simp] theorem writeLeaves_append (v : Json) (leaves more : List (Address × Json)) :
    v.writeLeaves (leaves ++ more) = (v.writeLeaves leaves).writeLeaves more :=
  List.foldl_append

theorem leavesAt_ne_nil {depth : Nat} {v : Json} (h : v.IsDeep depth) : v.leavesAt depth ≠ [] := by
  induction depth generalizing v with
  | zero => exact List.cons_ne_nil _ _
  | succ depth ih =>
    obtain ⟨fields, rfl, hne, hfields⟩ := h
    obtain ⟨⟨key, child⟩, rest, rfl⟩ := List.exists_cons_of_ne_nil hne
    rw [leavesAt, List.flatMap_cons]
    refine List.append_ne_nil_of_left_ne_nil ?_ _
    exact mt List.map_eq_nil_iff.mp (ih (hfields _ List.mem_cons_self))

theorem length_of_mem_leavesAt {depth : Nat} {v : Json} {leaf : Address × Json}
    (h : leaf ∈ v.leavesAt depth) : leaf.1.length = depth := by
  induction depth generalizing v leaf with
  | zero =>
    obtain rfl := List.mem_singleton.mp h
    rfl
  | succ depth ih =>
    cases v with
    | obj fields =>
      obtain ⟨⟨key, child⟩, -, h⟩ := List.mem_flatMap.mp h
      obtain ⟨inner, hinner, rfl⟩ := List.mem_map.mp h
      exact congrArg (· + 1) (ih hinner)
    | _ => cases h

/-- Leaves below one key are written into the value of the key. -/
theorem writeLeaves_key (key : String) {leaves : List (Address × Json)} (h : leaves ≠ [])
    (fields : List (String × Json)) :
    (Json.obj fields).writeLeaves (leaves.map fun (address, leaf) => (.key key :: address, leaf)) =
      .obj (Fields.insert key (((fields.lookup key).getD .null).writeLeaves leaves) fields) := by
  induction leaves generalizing fields with
  | nil => exact absurd rfl h
  | cons leaf rest ih =>
    obtain ⟨address, v⟩ := leaf
    let child := (((fields.lookup key).getD .null).writeMerged address v).1
    have hstep : ((Json.obj fields).writeMerged (.key key :: address) v).1 =
        .obj (Fields.insert key child fields) := rfl
    rw [List.map_cons, writeLeaves_cons, hstep, writeLeaves_cons]
    cases rest with
    | nil => rfl
    | cons next rest =>
      rw [ih (List.cons_ne_nil _ _), Fields.lookup_insert_self, Option.getD_some,
        Fields.insert_insert]

/-- Nothing is made into an object by a write below a key. -/
theorem writeLeaves_null (key : String) {leaves : List (Address × Json)} (h : leaves ≠ []) :
    Json.null.writeLeaves (leaves.map fun (address, leaf) => (.key key :: address, leaf)) =
      (Json.obj []).writeLeaves
        (leaves.map fun (address, leaf) => (.key key :: address, leaf)) := by
  obtain ⟨leaf, rest, rfl⟩ := List.exists_cons_of_ne_nil h
  rfl

/-- The leaves at a depth, written into nothing, give the document again. -/
theorem writeLeaves_leavesAt {depth : Nat} {v : Json} (h : v.IsDeep depth) (hwell : v.WellFormed) :
    Json.null.writeLeaves (v.leavesAt depth) = v := by
  induction depth generalizing v with
  | zero => rfl
  | succ depth ih =>
    obtain ⟨fields, rfl, hne, hfields⟩ := h
    -- The fields written so far come before the others in key order.
    have hafter : ∀ after before, before ++ after = fields →
        (Json.obj before).writeLeaves ((Json.obj after).leavesAt (depth + 1)) = .obj fields := by
      intro after
      induction after with
      | nil =>
        rintro before rfl
        rw [List.append_nil]
        rfl
      | cons field after ihafter =>
        rintro before rfl
        obtain ⟨key, child⟩ := field
        have hmem : (key, child) ∈ before ++ (key, child) :: after :=
          List.mem_append_right _ List.mem_cons_self
        have hlt : ∀ field ∈ before, field.1 < key := fun field hf =>
          (List.pairwise_append.mp hwell.sorted).2.2 field hf (key, child) List.mem_cons_self
        have hnone : before.lookup key = none :=
          Fields.lookup_eq_none fun field hf => String.ne_of_lt (hlt field hf)
        have hchild := ih (hfields _ hmem) (hwell.field hmem)
        rw [leavesAt, List.flatMap_cons, writeLeaves_append,
          writeLeaves_key key (leavesAt_ne_nil (hfields _ hmem)), hnone, Option.getD_none, hchild,
          Fields.insert_last hlt]
        exact ihafter _ (List.append_assoc _ _ _)
    obtain ⟨⟨key, child⟩, rest, rfl⟩ := List.exists_cons_of_ne_nil hne
    rw [leavesAt, List.flatMap_cons, writeLeaves_append,
      writeLeaves_null key (leavesAt_ne_nil (hfields _ List.mem_cons_self)), ← writeLeaves_append]
    exact hafter _ [] rfl

end Json

/-! ## Nested stars -/

/-- A level with one child that takes every key. -/
def Composite.star (element : Element) (rawKey : String) (child : Node τ) : Level τ :=
  ⟨element, rawKey, false, [], [], [child], .computedOnly⟩

/-- A star with a number of stars nested below it. -/
def Node.stars : Nat → τ → Node τ
  | 0, target => .leaf .any "*" target
  | depth + 1, target => .composite (.star .any "*" (Node.stars depth target))

@[simp] theorem Node.element_stars (depth : Nat) (target : τ) :
    (Node.stars depth target).element = .any := by
  cases depth <;> rfl

theorem Build.only_star (element : Element) (rawKey key : String) {child : Node τ}
    (h : child.element = .any) :
    Build.only element rawKey key child = .star element rawKey child := by
  have hcomputed : child.element.isComputed = true := by
    rw [h]
    rfl
  rw [only, Draft.put_computed hcomputed]
  rfl

/-- Nested stars compile to nested stars. -/
theorem Build.yields_stars {p : Policy τ} {config : Config} {target : τ} {rhs : Json}
    (hvalidate : ∀ location, p.validate location .any = .ok ())
    (htarget : ∀ location, p.compileTarget config location rhs = .ok target)
    (hrhs : ∀ fields, rhs = .obj fields → False) (below : Nat) (location : String) (depth : Nat)
    (hdepth : depth + below ≤ config.maxSpecDepth) :
    Yields (Build.node p config "*" location depth (Json.nested (List.replicate below "*") rhs))
      (.stars below target) := by
  induction below generalizing location depth with
  | zero => exact yields_leaf hrhs rfl (hvalidate location) (htarget location)
  | succ below ih =>
    have hstrip : Pattern.stripArrayMarker "*" = ("*", false) := by rfl
    have hnode := yields_composite hstrip rfl rfl (hvalidate location) (by omega) rfl
      (ih (childLocation location "*") (depth + 1) (by omega))
    rwa [only_star _ _ _ (Node.element_stars below target)] at hnode

/-! ## What nested stars reach -/

theorem Frames.keys_push (frames : Frames) (n : Nat) (key : MatchedKey) (input : Option Json) :
    ((frames.countBy n).push key input).keys = frames.keys ++ [key.raw] := by
  cases frames with
  | nil => rfl
  | cons frame outer => simp [keys, countBy, push]

/-- The leaf is reached with the value at an address below a site. -/
structure Arrival.IsAt (target : τ) (site : Site) (leaf : Address × Json) (a : Arrival τ) :
    Prop where
  target_eq : a.target = target
  data_eq : a.data = some leaf.2
  keys_eq : a.site.frames.keys.map Step.key = site.frames.keys.map Step.key ++ leaf.1

/-- A star takes every key that is offered. -/
theorem Composite.star_claims (element : Element) (rawKey : String) {child : Node τ}
    (h : child.element = .any) (frames : Frames) (input : Option Json) :
    (branchLevel false (.star element rawKey child)).claims frames input =
      (offers input).map fun offer => ⟨child.branch false, offer, .plain offer.key⟩ := by
  have hself : Element.any.comparePrecedence .any = .eq := rfl
  rw [claims]
  induction offers input with
  | nil => rfl
  | cons offer rest ih =>
    rw [List.filterMap_cons, ih, claimOf?, owner?, branchLevel_eq]
    simp [star, least?, Branch.accepts, Branch.claim?, Node.branch_element, h, Element.match?,
      hself]

/-- The leaves of a star level are those below the keys that are offered. -/
theorem Composite.star_arrivals_eq (element : Element) (rawKey : String) {child : Node τ}
    (h : child.element = .any) (input : Option Json) (site : Site) :
    (branchLevel false (.star element rawKey child)).arrivals false input site =
      (offers input).zipIdx.flatMap fun (offer, n) =>
        Claim.arrivals ⟨child.branch false, offer, .plain offer.key⟩ (site.counted n) := by
  have hnone : (branchLevel false (.star element rawKey child)).special = [] := by
    rw [branchLevel_eq]
    rfl
  rw [arrivals, allClaims, if_neg Bool.false_ne_true, List.append_nil, hnone, List.flatMap_nil,
    List.nil_append, star_claims element rawKey h, List.zipIdx_map, List.flatMap_map]
  rfl

/-- What is reached below a star with every key of an object is below the object. -/
theorem Composite.star_arrivals {target : τ} {depth : Nat} {child : Node τ}
    (hchild : child.element = .any)
    (hbelow : ∀ {v : Json}, v.IsDeep depth → ∀ (key : String) (site : Site),
      List.Forall₂ (Arrival.IsAt target site) (v.leavesAt depth)
        ((child.branch false).arrivals key (some v) (some v) site))
    {v : Json} (h : v.IsDeep (depth + 1)) (element : Element) (rawKey : String) (site : Site) :
    List.Forall₂ (Arrival.IsAt target site) (v.leavesAt (depth + 1))
      ((branchLevel false (.star element rawKey child)).arrivals false (some v) site) := by
  obtain ⟨fields, rfl, -, hfields⟩ := h
  have hpairs : List.Forall₂ (fun field pair => pair.1 = field ∧ field ∈ fields) fields
      fields.zipIdx := by
    have hfst : List.Forall₂ (fun field pair => pair.1 = field ∧ field ∈ fields)
        (fields.zipIdx.map Prod.fst) fields.zipIdx :=
      List.forall₂_map_left_iff.mpr (List.forall₂_same.mpr fun _ hp =>
        ⟨rfl, List.fst_mem_of_mem_zipIdx hp⟩)
    rwa [List.zipIdx_map_fst] at hfst
  rw [star_arrivals_eq element rawKey hchild, offers, List.zipIdx_map, List.flatMap_map]
  refine List.rel_flatMap hpairs ?_
  rintro ⟨key, v⟩ ⟨_, n⟩ ⟨rfl, hm⟩
  refine List.forall₂_map_left_iff.mpr ((hbelow (hfields _ hm) key _).imp ?_)
  rintro ⟨address, leaf⟩ a ⟨htarget, hdata, hkeys⟩
  refine ⟨htarget, hdata, hkeys.trans ?_⟩
  rw [Site.enter, Site.counted, Frames.keys_push, List.map_append, List.append_assoc]
  rfl

theorem Node.stars_arrivals (target : τ) (depth : Nat) {v : Json} (h : v.IsDeep depth)
    (key : String) (site : Site) :
    List.Forall₂ (Arrival.IsAt target site) (v.leavesAt depth)
      (((Node.stars depth target).branch false).arrivals key (some v) (some v) site) := by
  induction depth generalizing v key site with
  | zero => exact .cons ⟨rfl, rfl, (List.append_nil _).symm⟩ .nil
  | succ depth ih =>
    exact Composite.star_arrivals (Node.element_stars depth target) ih h .any "*" site

/-! ## The shift -/

namespace Operation

/-- The write path of the references to the levels below the root. -/
def levelsPath (rootKey : String) (wrapped : Nat → Bool) (count : Nat) : WritePath :=
  ⟨Pattern.levelsText wrapped count, .key (.literal rootKey) :: Pattern.levelSteps count⟩

/-- It resolves to the keys of all levels. -/
theorem resolve?_levelsPath {rootKey : String} {frames : Frames} {address : Address}
    (h : frames.keys.map Step.key = .key rootKey :: address) (wrapped : Nat → Bool) :
    (levelsPath rootKey wrapped address.length).resolve? frames =
      some (.key rootKey :: address) := by
  have hframes : frames.keys.map Step.key =
      frames.reverse.map fun frame => Step.key frame.key.raw := by
    rw [Frames.keys, List.map_map]
    rfl
  rw [hframes] at h
  have hlength : frames.length = address.length + 1 := by
    have hlength := congrArg List.length h
    rwa [List.length_map, List.length_reverse, List.length_cons] at hlength
  have htake : (frames.take address.length).reverse.map (fun frame => Step.key frame.key.raw) =
      address := by
    have htail := congrArg List.tail h
    rwa [← List.map_tail, List.tail_reverse, List.dropLast_eq_take, hlength,
      Nat.add_sub_cancel, List.tail_cons] at htail
  rw [levelsPath, WritePath.resolve?, Pattern.resolveSteps?, Pattern.PathStep.resolve?,
    Pattern.Template.resolve?_literal,
    Pattern.resolveSteps?_levelSteps (hlength ▸ Nat.le_succ _), htake]
  rfl

/-- Leaves that are reached below a root level are written below the root key. -/
theorem outputs_eq_writeLeaves {rootKey : String} {wrapped : Nat → Bool} {depth : Nat}
    {document : Json} {leaves : List (Address × Json)} {arrivals : List (Arrival (List WritePath))}
    (h : List.Forall₂ (Arrival.IsAt [levelsPath rootKey wrapped depth] (Site.root rootKey document))
      leaves arrivals)
    (hlength : ∀ leaf ∈ leaves, leaf.1.length = depth) (output : Json) :
    arrivals.foldl (fun output a => Outcome.outputAfter shift.decide output a.visit) output =
      output.writeLeaves (leaves.map fun (address, leaf) => (.key rootKey :: address, leaf)) := by
  induction h generalizing output with
  | nil => rfl
  | @cons leaf a leaves arrivals hleaf _ ih =>
    obtain ⟨address, data⟩ := leaf
    obtain ⟨hfirst, hrest⟩ := List.forall_mem_cons.mp hlength
    obtain rfl : address.length = depth := hfirst
    have hkeys : a.site.frames.keys.map Step.key = .key rootKey :: address := hleaf.keys_eq
    rw [List.foldl_cons, ih hrest, List.map_cons, Json.writeLeaves_cons, outputAfter_visit,
      hleaf.data_eq, hleaf.target_eq, Option.elim_some, Outcome.writeAll, List.foldl_cons,
      List.foldl_nil, WritePath.write, resolve?_levelsPath hkeys]

/-- **Nested stars copy a document.** The spec of stars whose leaf is the path of the keys matched,
from the outermost to the innermost, gives every document back that has as many levels of objects
with entries. It compiles up to the depth limit, which is a machine word. -/
theorem applyShift_stars {config : Config} {depth : Nat} (hpos : 0 < depth)
    (hdepth : depth - 1 ≤ config.maxSpecDepth) (hword : config.maxSpecDepth < Text.wordSize)
    (wrapped : Nat → Bool) :
    ∃ spec, CompiledSpec.compile shift (Json.nested (List.replicate depth "*")
        (.str (Pattern.levelsText wrapped depth))) config = .ok spec ∧
      ∀ {document : Json}, document.WellFormed → document.IsDeep depth →
        applyShift spec document = document := by
  obtain ⟨below, rfl⟩ := Nat.exists_eq_add_one_of_ne_zero (Nat.ne_of_gt hpos)
  rw [Nat.add_sub_cancel] at hdepth
  let path := levelsPath config.rootKey wrapped (below + 1)
  have htarget : shiftTargets config.rootKey (.str (Pattern.levelsText wrapped (below + 1))) =
      .ok [path] := by
    rw [shiftTargets, WritePath.parse,
      Pattern.parseSteps_levels hpos (Nat.le_trans (Nat.succ_le_succ hdepth) hword)]
    rfl
  have hplain : ∀ fields, Json.str (Pattern.levelsText wrapped (below + 1)) = .obj fields → False :=
    nofun
  have hnode : Build.Yields (Build.node shift config "*" (Build.childLocation "" "*") 0
      (Json.nested (List.replicate below "*")
        (.str (Pattern.levelsText wrapped (below + 1))))) (.stars below [path]) :=
    Build.yields_stars (fun _ => rfl) (fun _ => htarget) hplain below _ 0 (by omega)
  obtain ⟨stats, hcompile⟩ := CompiledSpec.compile_only rfl hnode
  rw [Build.only_star _ _ _ (Node.element_stars below _)] at hcompile
  refine ⟨_, hcompile, fun {document} hwell hdeep => ?_⟩
  have harrivals := Composite.star_arrivals (Node.element_stars below [path])
    (fun hv key site => Node.stars_arrivals [path] below hv key site) hdeep
    (.literal config.rootKey) config.rootKey (Site.root config.rootKey document)
  have houtput := outputs_eq_writeLeaves harrivals
    (fun _ hl => Json.length_of_mem_leavesAt hl) (.obj [])
  rw [applyShift_eq_foldl hcompile hwell, CompiledSpec.arrivals]
  dsimp only
  have hmissing : shift.visitsMissing = false := rfl
  rw [hmissing, houtput, Json.writeLeaves_key config.rootKey (Json.leavesAt_ne_nil hdeep),
    List.lookup_nil, Option.getD_none, Json.writeLeaves_leavesAt hdeep hwell, Fields.insert,
    Json.field?, Json.fields?, Option.bind_some, List.lookup_cons_self]
  rfl

/-- Two levels, on nulls, lists and objects as values and on keys with special characters. -/
theorem applyShift_stars_two :
    0 < 2 ∧ 2 - 1 ≤ ({ maxSpecDepth := 1 } : Config).maxSpecDepth ∧
    ({ maxSpecDepth := 1 } : Config).maxSpecDepth < Text.wordSize ∧
    ∃ spec, CompiledSpec.compile shift (.obj [("*", .obj [("*", .str "&1.&(0)")])])
        { maxSpecDepth := 1 } = .ok spec ∧
      (Json.obj [("a.b", .obj [("", .null), ("x", .arr [.null])]),
        ("c", .obj [("&0", .obj [])])]).WellFormed ∧
      (Json.obj [("a.b", .obj [("", .null), ("x", .arr [.null])]),
        ("c", .obj [("&0", .obj [])])]).IsDeep 2 ∧
      applyShift spec (.obj [("a.b", .obj [("", .null), ("x", .arr [.null])]),
        ("c", .obj [("&0", .obj [])])]) =
          .obj [("a.b", .obj [("", .null), ("x", .arr [.null])]),
            ("c", .obj [("&0", .obj [])])] := by
  have htext : Pattern.levelsText (· == 0) 2 = "&1.&(0)" := by decide +kernel
  have hword : ({ maxSpecDepth := 1 } : Config).maxSpecDepth < Text.wordSize := by decide
  have hwell : (Json.obj [("a.b", .obj [("", .null), ("x", .arr [.null])]),
      ("c", .obj [("&0", .obj [])])]).WellFormed :=
    ⟨by decide, ⟨by decide, trivial, ⟨trivial, trivial⟩, trivial⟩,
      ⟨by decide, ⟨by decide, trivial⟩, trivial⟩, trivial⟩
  have hdeep : (Json.obj [("a.b", .obj [("", .null), ("x", .arr [.null])]),
      ("c", .obj [("&0", .obj [])])]).IsDeep 2 := by
    refine ⟨_, rfl, List.cons_ne_nil _ _, ?_⟩
    simp [Json.IsDeep]
  obtain ⟨spec, hcompile, hcopies⟩ :=
    @applyShift_stars { maxSpecDepth := 1 } 2 (by decide) (by decide) hword (· == 0)
  rw [htext] at hcompile
  exact ⟨by decide, by decide, hword, spec, hcompile, hwell, hdeep, hcopies hwell hdeep⟩

end Operation
end Reshape
