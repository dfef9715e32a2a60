import Reshape.Proofs.Edit.Lens
import Reshape.Proofs.Shift.Identity
import Reshape.Proofs.Shift.Moved
/-!
# Collecting values at one place

A star that writes to one path merges every child of its level into one slot, in the order of the
walk. With empty brackets behind the path the slot becomes the list of the children. Without them
it is what merging leaves: nulls at the front are lost, the first value that is not null is kept as
it is until another one comes, and a list as the first value takes the others in.
-/
namespace Reshape

open Pattern (Element PathStep WritePath escapeKey textSteps)

variable {τ : Type}

namespace Json

/-- The children of an object or a list in the order of a walk. -/
def values : Json → List Json
  | .obj fields => fields.map Prod.snd
  | .arr elements => elements
  | _ => []

/-! ## One slot -/

/-- What values leave that are merged into one slot. -/
def collected (values : List Json) : Json :=
  match values.dropWhile isNull with
  | [] => .null
  | [first] => first
  | .arr elements :: rest => .arr (elements ++ rest)
  | first :: rest => .arr (first :: rest)

/-- What a slot holds after a value is put at its end. -/
def appended (value slot : Json) : Json := (slot.update (merged value) [.append]).1

theorem foldl_merged_arr (values elements : List Json) :
    values.foldl (fun slot value => merged value slot) (.arr elements) =
      .arr (elements ++ values) := by
  induction values generalizing elements with
  | nil => rw [List.append_nil]; rfl
  | cons value rest ih => rw [List.foldl_cons, merged, ih, List.append_assoc]; rfl

/-- **Merging collects.** Values that are merged one after another into a slot that was empty leave
what is collected of them. -/
theorem foldl_merged (values : List Json) :
    values.foldl (fun slot value => merged value slot) .null = collected values := by
  induction values with
  | nil => rfl
  | cons value rest ih =>
    rw [List.foldl_cons, merged]
    cases hnull : value.isNull with
    | true =>
      obtain rfl := eq_null_of_isNull hnull
      rw [ih, collected, collected, List.dropWhile_cons_of_pos rfl]
    | false =>
      rw [collected, List.dropWhile_cons_of_neg (by rw [hnull]; exact Bool.false_ne_true)]
      -- The first value that is not null meets the next one.
      cases rest with
      | nil => rfl
      | cons next rest =>
        rw [List.foldl_cons]
        cases value with
        | null => cases hnull
        | arr elements => rw [merged, foldl_merged_arr, List.append_assoc]; rfl
        | bool _ | num _ | str _ | obj _ => exact foldl_merged_arr rest _

theorem foldl_appended (values elements : List Json) :
    values.foldl (fun slot value => appended value slot) (.arr elements) =
      .arr (elements ++ values) := by
  induction values generalizing elements with
  | nil => rw [List.append_nil]; rfl
  | cons value rest ih =>
    have hstep : appended value (.arr elements) = .arr (elements ++ [value]) := rfl
    rw [List.foldl_cons, hstep, ih, List.append_assoc]
    rfl

/-- Values that are put at the end of a slot that was empty leave the list of them. -/
theorem foldl_appended_null {values : List Json} (h : values ≠ []) :
    values.foldl (fun slot value => appended value slot) .null = .arr values := by
  obtain ⟨value, rest, rfl⟩ := List.exists_cons_of_ne_nil h
  have hfirst : appended value .null = .arr [value] := rfl
  rw [List.foldl_cons, hfirst, foldl_appended]
  rfl

/-! ## A slot at an address -/

theorem update_append (v : Json) (p q : Address) (change : Json → Json) :
    (v.update change (p ++ q)).1 = (v.update (fun w => (w.update change q).1) p).1 := by
  induction p generalizing v with
  | nil => rfl
  | cons step rest ih =>
    rw [List.cons_append]
    by_cases he : ∃ child back, (v.opened step).Enters step child back
    · obtain ⟨child, back, he⟩ := he
      rw [he.update_eq, he.update_eq, ih]
    · rw [update_of_not_enters he, update_of_not_enters he]

/-- Changes at one address are made in its slot, one after another. -/
theorem foldl_update {p : Address} (hp : Step.append ∉ p) {values : List Json} (h : values ≠ [])
    (change : Json → Json → Json) (v : Json) :
    values.foldl (fun output value => (output.update (change value) p).1) v =
      (v.update (fun slot => values.foldl (fun slot value => change value slot) slot) p).1 := by
  induction values generalizing v with
  | nil => exact absurd rfl h
  | cons value rest ih =>
    rw [List.foldl_cons]
    cases rest with
    | nil => rfl
    | cons next rest =>
      rw [ih (List.cons_ne_nil _ _), update_update hp]
      rfl

end Json

/-! ## The leaves below one star -/

theorem offers_values {v : Json} (h : v.values ≠ []) :
    (offers (some v)).map Offer.input = v.values.map some := by
  cases v with
  | obj fields =>
    rw [offers, Json.values, List.map_map, List.map_map]
    rfl
  | arr elements =>
    rw [offers, Json.values, List.map_map]
    have helements := congrArg (List.map some) (List.zipIdx_map_fst 0 elements)
    rw [List.map_map] at helements
    exact helements
  | _ => exact absurd rfl h

/-- A star over the children of a level reaches its leaf with each of them in turn. -/
theorem Composite.star_values (element : Element) (rawKey : String) (target : τ) {v : Json}
    (h : v.values ≠ []) (site : Site) :
    ((branchLevel false (.star element rawKey (.stars 0 target))).arrivals false (some v)
        site).map (fun a => (a.data, a.target)) =
      v.values.map fun value => (some value, target) := by
  have hdata : v.values.map (fun value => (some value, target)) =
      ((offers (some v)).map Offer.input).map fun input => (input, target) := by
    rw [offers_values h, List.map_map]
    rfl
  have hoffers := congrArg (List.map fun offer : Offer => (offer.input, target))
    (List.zipIdx_map_fst 0 (offers (some v)))
  rw [star_arrivals_eq element rawKey (Node.element_stars 0 target), hdata, List.map_map]
  rw [List.map_map] at hoffers
  refine Eq.trans ?_ hoffers
  induction (offers (some v)).zipIdx with
  | nil => rfl
  | cons offer rest ih => exact congrArg _ ih

namespace Operation

/-- The spec of one star with one target compiles to the level of the star. -/
theorem compile_star {config : Config} {text : String} {path : WritePath}
    (h : shiftTargets config.rootKey (.str text) = .ok [path]) :
    ∃ stats, CompiledSpec.compile shift (.obj [("*", .str text)]) config =
      .ok ⟨shift, .star (.literal config.rootKey) config.rootKey (.stars 0 [path]), config.rootKey,
        stats⟩ := by
  have hplain : ∀ fields, Json.str text = .obj fields → False := by
    intro fields h
    cases h
  have hnode : Build.Yields (Build.node shift config "*" (Build.childLocation "" "*") 0
      (.str text)) (.stars 0 [path]) :=
    Build.yields_stars (fun _ => rfl) (fun _ => h) hplain 0 _ 0 (Nat.zero_le _)
  obtain ⟨stats, hcompile⟩ := CompiledSpec.compile_only rfl hnode
  rw [Build.only_star _ _ _ (Node.element_stars 0 _)] at hcompile
  exact ⟨stats, hcompile⟩

/-- Leaves with one target that resolves alike everywhere are merged into one place. -/
theorem outputs_eq_merged {path : WritePath} {address : Address}
    (hpath : ∀ frames, path.resolve? frames = some address)
    {arrivals : List (Arrival (List WritePath))} {values : List Json}
    (h : arrivals.map (fun a => (a.data, a.target)) =
      values.map fun value => (some value, [path])) (output : Json) :
    arrivals.foldl (fun output a => Outcome.outputAfter shift.decide output a.visit) output =
      values.foldl (fun output value => (output.writeMerged address value).1) output := by
  induction values generalizing arrivals output with
  | nil =>
    obtain rfl := List.map_eq_nil_iff.mp h
    rfl
  | cons value rest ih =>
    obtain ⟨a, arrivals, rfl, hfirst, hrest⟩ := List.map_eq_cons_iff.mp h
    obtain ⟨hdata, htarget⟩ := Prod.mk.inj hfirst
    rw [List.foldl_cons, ih hrest, outputAfter_visit, hdata, htarget, Option.elim_some,
      Outcome.writeAll, List.foldl_cons, List.foldl_nil, WritePath.write, hpath, List.foldl_cons]

/-- What a star writes to one path stands in the slot at its keys, which was empty before. -/
theorem applyShift_star {config : Config} {text : String} {texts : List String} {tail : Address}
    {steps : List PathStep}
    (hparse : Pattern.parseSteps text.toList 0 = .ok (textSteps texts ++ steps))
    (hsteps : ∀ frames, Pattern.resolveSteps? frames steps = some tail) :
    ∃ spec, CompiledSpec.compile shift (.obj [("*", .str text)]) config = .ok spec ∧
      ∀ {document : Json}, document.WellFormed → document.values ≠ [] →
        applyShift spec document = Json.nested texts (document.values.foldl
          (fun slot value => (slot.update (Json.merged value) tail).1) .null) := by
  let path : WritePath := ⟨text, .key (.literal config.rootKey) :: (textSteps texts ++ steps)⟩
  have htargets : shiftTargets config.rootKey (.str text) = .ok [path] := by
    rw [shiftTargets, WritePath.parse, hparse]
    rfl
  have hresolve : ∀ frames, path.resolve? frames =
      some ((.key config.rootKey :: texts.map .key) ++ tail) := by
    intro frames
    rw [WritePath.resolve?, Pattern.resolveSteps?, Pattern.PathStep.resolve?,
      Pattern.Template.resolve?_literal, Pattern.resolveSteps?_textSteps_append, hsteps]
    rfl
  have hkeys : Step.append ∉ .key config.rootKey :: texts.map .key := by
    simp
  obtain ⟨stats, hcompile⟩ := compile_star htargets
  refine ⟨_, hcompile, fun {document} hwell hvalues => ?_⟩
  have harrivals := Composite.star_values (.literal config.rootKey) config.rootKey [path] hvalues
    (Site.root config.rootKey document)
  have hmissing : shift.visitsMissing = false := rfl
  have hwrites : (fun (output value : Json) =>
      (output.writeMerged ((.key config.rootKey :: texts.map .key) ++ tail) value).1) =
        fun output value => (output.update (fun slot => (slot.update (Json.merged value) tail).1)
          (.key config.rootKey :: texts.map .key)).1 :=
    funext fun output => funext fun value => Json.update_append output _ tail _
  rw [applyShift_eq_foldl hcompile hwell, CompiledSpec.arrivals]
  dsimp only
  rw [hmissing, outputs_eq_merged hresolve harrivals, hwrites, Json.foldl_update hkeys hvalues,
    Json.update_empty_nested, Json.field?, Json.fields?, Option.bind_some, List.lookup_cons_self]
  rfl

/-- **Collecting loses and duplicates nothing** but nulls before the first other value. A star that
writes to a path of escaped texts with empty brackets behind it puts the list of all children
there, and without the brackets what is collected of them. -/
theorem shift_collects {config : Config} {texts : List String}
    (htexts : ∀ text ∈ texts, text ≠ "") :
    (∃ spec, CompiledSpec.compile shift
        (.obj [("*", .str (".".intercalate (texts.map escapeKey) ++ "[]"))]) config = .ok spec ∧
      ∀ {document : Json}, document.WellFormed → document.values ≠ [] →
        applyShift spec document = Json.nested texts (.arr document.values)) ∧
    ∃ spec, CompiledSpec.compile shift
        (.obj [("*", .str (".".intercalate (texts.map escapeKey)))]) config = .ok spec ∧
      ∀ {document : Json}, document.WellFormed → document.values ≠ [] →
        applyShift spec document = Json.nested texts (Json.collected document.values) := by
  constructor
  · obtain ⟨spec, hcompile, happly⟩ :=
      applyShift_star (Pattern.parseSteps_escaped_append htexts) fun _ => rfl
    refine ⟨spec, hcompile, fun hwell hvalues => ?_⟩
    rw [happly hwell hvalues]
    exact congrArg _ (Json.foldl_appended_null hvalues)
  · have hparse := Pattern.parseSteps_escaped htexts
    rw [← List.append_nil (textSteps texts)] at hparse
    obtain ⟨spec, hcompile, happly⟩ := applyShift_star hparse fun _ => rfl
    refine ⟨spec, hcompile, fun hwell hvalues => ?_⟩
    rw [happly hwell hvalues]
    exact congrArg _ (Json.foldl_merged _)

/-- A null, a list, another null and a truth value, collected below two keys. -/
theorem shift_collects_list :
    let document : Json := .arr [.null, .arr [.bool true], .null, .bool false]
    (∀ text ∈ ["a", "b"], text ≠ "") ∧ document.WellFormed ∧ document.values ≠ [] ∧
    (∃ spec, CompiledSpec.compile shift (.obj [("*", .str "a.b[]")]) {} = .ok spec ∧
      applyShift spec document = .obj [("a", .obj [("b", document)])]) ∧
    ∃ spec, CompiledSpec.compile shift (.obj [("*", .str "a.b")]) {} = .ok spec ∧
      applyShift spec document =
        .obj [("a", .obj [("b", .arr [.bool true, .null, .bool false])])] := by
  intro document
  have htexts : ∀ text ∈ ["a", "b"], text ≠ "" := by decide
  have hwell : document.WellFormed := ⟨trivial, ⟨trivial, trivial⟩, trivial, trivial, trivial⟩
  have hvalues : document.values ≠ [] := List.cons_ne_nil _ _
  have hpath : ".".intercalate (["a", "b"].map escapeKey) = "a.b" := by decide +kernel
  have hlist : ".".intercalate (["a", "b"].map escapeKey) ++ "[]" = "a.b[]" := by decide +kernel
  obtain ⟨⟨lists, hlists, hall⟩, ⟨merges, hmerges, hsome⟩⟩ := @shift_collects {} _ htexts
  rw [hlist] at hlists
  rw [hpath] at hmerges
  exact ⟨htexts, hwell, hvalues, ⟨lists, hlists, hall hwell hvalues⟩,
    ⟨merges, hmerges, hsome hwell hvalues⟩⟩

end Operation
end Reshape
