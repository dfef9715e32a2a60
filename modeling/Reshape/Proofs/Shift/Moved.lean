import Reshape.Operation.Shift
import Reshape.Proofs.Document
import Reshape.Proofs.Spec.Single
import Reshape.Proofs.Walk.Frames
import Reshape.Proofs.Walk.Visits
/-!
# A shift of one value

The spec that nests escaped keys and has a path of escaped texts on its right moves the value below
the keys to the path, whatever the keys and the texts are.
-/
namespace Reshape

open Pattern (Element WritePath escapeKey textSteps)

variable {τ : Type}

namespace Walk

/-- The second walk is the first one after visits with the given data and targets. -/
def Moves (w w' : Walk τ) (moved : List (Option Json × τ)) : Prop :=
  ∃ visits : List (Visit τ), w.Adds w' visits ∧ visits.map (fun v => (v.data, v.target)) = moved

theorem Moves.refl (w : Walk τ) : w.Moves w [] := ⟨[], .refl w, rfl⟩

theorem Moves.entered {w w' : Walk τ} {slot : Slot} {key : MatchedKey} {input : Option Json}
    {moved : List (Option Json × τ)} (h : (w.enter slot key input).Moves w' moved) :
    w.Moves (w'.leave slot).count moved := by
  obtain ⟨visits, hadds, hmoved⟩ := h
  exact ⟨visits, hadds.entered, hmoved⟩

theorem Moves.visit (w : Walk τ) (element : Element) (target : τ) (key : String)
    (data : Option Json) : w.Moves (w.visit element target key data) [(data, target)] :=
  ⟨[⟨element, target, key, data, w.frames, w.location⟩], .visit w element target key data, rfl⟩

end Walk

/-- A level with one literal child offers it the field of its name. -/
theorem processLevel_single (element : Element) (rawKey key : String) (child : Node τ)
    (fields : List (String × Json)) (w : Walk τ) :
    processLevel false (.single element rawKey key child) (some (.obj fields)) w =
      match fields.lookup key with
      | some v => (child.claim? false ⟨key, some v, .key key⟩ w).getD w
      | none => w := by
  rw [Composite.single, processLevel]
  cases hlookup : fields.lookup key <;> simp [describeAll, claimEach, hlookup]

/-- A walk along keys visits the value below them if it is there, and nothing else. The induction
is on the keys below the first one. -/
theorem processLevel_along {key last : String} {front rest : List String} {document : Json}
    {fields : List (String × Json)} (hkeys : key :: rest = front ++ [last])
    (hlocate : document.locate? (front.map .key) = some (.obj fields)) (element : Element)
    (rawKey : String) (target : τ) (w : Walk τ) :
    w.Moves (processLevel false (.single element rawKey key (.along key rest target))
        (some document) w)
      ((fields.lookup last).toList.map fun v => (some v, target)) := by
  induction rest generalizing key front document element rawKey w with
  | nil =>
    have hfront : front = [] := by
      have hlength := congrArg List.length hkeys
      simpa using hlength
    subst hfront
    obtain rfl := (List.cons.inj hkeys).1
    obtain rfl := Option.some.inj hlocate
    rw [processLevel_single]
    cases fields.lookup key with
    | none => exact .refl w
    | some v =>
      have hvisit := Walk.Moves.visit (w.enter (.key key) (.plain key) (some v)) (.literal key)
        target key (some v)
      rw [Node.along]
      dsimp only
      rw [Node.claim?, Element.match?_literal]
      exact hvisit.entered
  | cons next rest ih =>
    cases front with
    | nil => cases (List.cons.inj hkeys).2
    | cons first front =>
      obtain ⟨rfl, hrest⟩ := List.cons.inj hkeys
      obtain ⟨child, hchild, hinner⟩ := Option.bind_eq_some_iff.mp hlocate
      cases document with
      | obj outer =>
        have hlookup : outer.lookup key = some child := hchild
        have hlevel := ih hrest hinner (.literal key) (escapeKey key)
          (w.enter (.key key) (.plain key) (some child))
        rw [processLevel_single, hlookup, Node.along]
        dsimp only
        rw [Node.claim?, Composite.single, Element.match?_literal]
        exact hlevel.entered
      | _ => cases hchild

namespace Json

/-- A change below nothing makes the objects along the keys. -/
theorem update_nested (change : Json → Json) (keys : List String) :
    (Json.null.update change (keys.map .key)).1 = .nested keys (change .null) := by
  induction keys with
  | nil => rfl
  | cons key rest ih => exact congrArg (fun child => Json.obj [(key, child)]) ih

/-- The same in an empty object, which a key is put into. -/
theorem update_empty_nested (change : Json → Json) (key : String) (rest : List String) :
    ((Json.obj []).update change (.key key :: rest.map .key)).1 =
      .obj [(key, .nested rest (change .null))] :=
  congrArg (fun child => Json.obj [(key, child)]) (update_nested change rest)

end Json

namespace Operation

/-- The write path of escaped texts. -/
def textPath (rootKey : String) (texts : List String) : WritePath :=
  ⟨".".intercalate (texts.map escapeKey), .key (.literal rootKey) :: textSteps texts⟩

theorem shiftTargets_escaped {texts : List String} (h : ∀ text ∈ texts, text ≠ "")
    (rootKey : String) :
    shiftTargets rootKey (.str (".".intercalate (texts.map escapeKey))) =
      .ok [textPath rootKey texts] := by
  rw [shiftTargets, WritePath.parse, Pattern.parseSteps_escaped h]
  rfl

theorem resolve?_textPath (rootKey : String) (texts : List String) (frames : Frames) :
    (textPath rootKey texts).resolve? frames = some (.key rootKey :: texts.map .key) := by
  rw [textPath, WritePath.resolve?]
  exact Pattern.resolveSteps?_textSteps (rootKey :: texts) frames

/-- The output of visits that move at most one value to a path of texts. -/
theorem written_textPath {rootKey : String} {texts : List String}
    {visits : List (Visit (List WritePath))} {found : Option Json}
    (h : visits.map (fun v => (v.data, v.target)) =
      found.toList.map fun v => (some v, [textPath rootKey texts])) :
    (Outcome.ofVisits shift.decide visits).written rootKey =
      (found.map (Json.nested texts)).getD .null := by
  cases found with
  | none =>
    obtain rfl := List.map_eq_nil_iff.mp h
    rfl
  | some value =>
    obtain ⟨v, rfl, hv⟩ := List.map_eq_singleton_iff.mp h
    obtain ⟨hdata, htarget⟩ := Prod.mk.inj hv
    have hdecision : shift.decide v = .write value [textPath rootKey texts] := by
      rw [shift]
      dsimp only
      rw [hdata, htarget]
      rfl
    have houtput : Outcome.outputAfter shift.decide (.obj []) v =
        .obj [(rootKey, .nested texts value)] := by
      rw [Outcome.outputAfter, hdecision]
      dsimp only
      rw [Outcome.writeAll, List.foldl_cons, List.foldl_nil, WritePath.write, resolve?_textPath]
      exact Json.update_empty_nested (Json.merged value) rootKey texts
    rw [Outcome.written, Outcome.ofVisits, List.foldl_cons, List.foldl_nil, houtput]
    dsimp only
    rw [Json.field?, Json.fields?, Option.bind_some, List.lookup_cons_self]
    rfl

/-- A spec with one literal child at each level moves what is below its keys. -/
theorem applyShift_along {spec : CompiledSpec (List WritePath)} {element : Element}
    {rawKey key last : String} {front rest path : List String} {document : Json}
    {fields : List (String × Json)} (hpolicy : spec.policy = shift)
    (hroot : spec.root = .single element rawKey key (.along key rest [textPath spec.rootKey path]))
    (hkeys : key :: rest = front ++ [last])
    (hlocate : document.locate? (front.map .key) = some (.obj fields)) :
    applyShift spec document = ((fields.lookup last).map (Json.nested path)).getD .null := by
  obtain ⟨visits, hadds, hmoved⟩ := processLevel_along hkeys hlocate element rawKey
    [textPath spec.rootKey path] (Walk.start spec.rootKey document)
  have hvisits : spec.visits document = visits := by
    refine Walk.Adds.visits_eq ?_
    rw [hpolicy, hroot]
    exact hadds
  rw [applyShift, CompiledSpec.walk, hpolicy, hvisits]
  exact written_textPath hmoved

/-- **Every key can be addressed and produced.** A spec that nests escaped keys, with a path of
escaped texts on its right, compiles. On every input with objects along the keys it moves the value
below the last key to the path, and gives null if there is none. -/
theorem shift_moves {config : Config} {front path : List String} (last : String)
    (hdepth : front.length ≤ config.maxSpecDepth) (htexts : ∀ text ∈ path, text ≠ "") :
    ∃ spec, CompiledSpec.compile shift (Json.nested ((front ++ [last]).map escapeKey)
        (.str (".".intercalate (path.map escapeKey)))) config = .ok spec ∧
      ∀ {document : Json} {fields : List (String × Json)},
        document.locate? (front.map .key) = some (.obj fields) →
          (∀ v, fields.lookup last = some v →
            applyShift spec document = Json.nested path v) ∧
          (fields.lookup last = none → applyShift spec document = .null) := by
  have haccepts : Build.Accepts shift config (.str (".".intercalate (path.map escapeKey)))
      [textPath config.rootKey path] :=
    ⟨fun _ _ => rfl, fun _ => shiftTargets_escaped htexts config.rootKey⟩
  obtain ⟨key, rest, hkeys⟩ : ∃ key rest, front ++ [last] = key :: rest :=
    List.exists_cons_of_ne_nil (List.append_ne_nil_of_right_ne_nil front (List.cons_ne_nil _ _))
  have hlength : rest.length = front.length := by
    have hlength := congrArg List.length hkeys
    simpa using hlength.symm
  obtain ⟨stats, hcompile⟩ :=
    CompiledSpec.compile_along haccepts nofun key rest (hlength ▸ hdepth)
  refine ⟨_, hkeys ▸ hcompile, ?_⟩
  intro document fields hlocate
  rw [applyShift_along rfl rfl hkeys.symm hlocate]
  constructor
  · intro v hv
    rw [hv]
    rfl
  · intro hnone
    rw [hnone]
    rfl

/-- A key that reads as the value of its level and one that reads as two keys with a list marker,
moved below a key with a dot and a star. -/
theorem shift_moves_special :
    ["@"].length ≤ ({ maxSpecDepth := 1 } : Config).maxSpecDepth ∧
    (∀ text ∈ ["a.b", "*"], text ≠ "") ∧
    ∃ spec, CompiledSpec.compile shift
        (.obj [("\\@", .obj [("x\\|y\\[\\]", .str "a\\.b.\\*")])]) { maxSpecDepth := 1 } =
          .ok spec ∧
      (Json.obj [("@", .obj [("x|y[]", .bool true)])]).locate? [.key "@"] =
        some (.obj [("x|y[]", .bool true)]) ∧
      applyShift spec (.obj [("@", .obj [("x|y[]", .bool true)])]) =
        .obj [("a.b", .obj [("*", .bool true)])] := by
  have hdepth : ["@"].length ≤ ({ maxSpecDepth := 1 } : Config).maxSpecDepth := by decide
  have htexts : ∀ text ∈ ["a.b", "*"], text ≠ "" := by decide
  have hfirst : escapeKey "@" = "\\@" := by decide +kernel
  have hlast : escapeKey "x|y[]" = "x\\|y\\[\\]" := by decide +kernel
  have hpath : ".".intercalate (["a.b", "*"].map escapeKey) = "a\\.b.\\*" := by decide +kernel
  obtain ⟨spec, hcompile, hmoves⟩ := shift_moves "x|y[]" hdepth htexts
  rw [List.cons_append, List.nil_append, List.map_cons, List.map_cons, List.map_nil, hfirst, hlast,
    hpath] at hcompile
  have hlocate : (Json.obj [("@", .obj [("x|y[]", .bool true)])]).locate? [.key "@"] =
      some (.obj [("x|y[]", .bool true)]) := rfl
  exact ⟨hdepth, htexts, spec, hcompile, hlocate, (hmoves hlocate).1 (.bool true) rfl⟩

end Operation
end Reshape
