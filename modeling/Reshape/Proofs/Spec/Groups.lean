import Reshape.Operation.Shift
import Reshape.Proofs.Document
import Reshape.Proofs.Pattern.Joined
import Reshape.Proofs.Spec.Permuted
/-!
# Or-groups stand for their keys

An or-group in an object does what its keys do when each of them has an entry of its own with the
value of the group: compiling both fails, or gives the same tree up to the order of the special
children where the group stood.
-/
namespace Reshape

open Pattern (Element)

variable {τ : Type}

/-! ## Splitting and expanding -/

namespace Pattern

theorem splitAlternatives_single {key : String} (h : IsSinglePart '|' key.toList) :
    splitAlternatives key = .ok [key] := by
  rw [splitAlternatives, h]
  rfl

/-- A key that an or-group gives back as it is. -/
structure IsAlternative (key : String) : Prop where
  ne_empty : key ≠ ""
  trimmed : Text.trim key.toList = key.toList
  single : IsSinglePart '|' key.toList

/-- What an or-group does with each of its parts leaves the keys as they are. -/
theorem mapM_alternatives {keys : List String} (h : ∀ key ∈ keys, IsAlternative key)
    {found : List (List Char × Nat)} (hparts : found.map Prod.fst = keys.map String.toList)
    (group : String) :
    (found.mapM fun (part, start) =>
      if (Text.trim part).isEmpty then
        Except.error (SpecError.unlocated
          (.invalidKey group "empty alternative in or-group" (some start)))
      else Except.ok (String.ofList (Text.trim part))) = .ok keys := by
  induction keys generalizing found with
  | nil =>
    obtain rfl := List.map_eq_nil_iff.mp hparts
    rfl
  | cons key rest ih =>
    obtain ⟨⟨part, start⟩, found, rfl, hpart, hrest⟩ := List.map_eq_cons_iff.mp hparts
    obtain ⟨hkey, hrestKeys⟩ := List.forall_mem_cons.mp h
    obtain rfl : part = key.toList := hpart
    have hempty : ¬ key.toList.isEmpty = true := by
      rw [List.isEmpty_iff, String.toList_eq_nil_iff]
      exact hkey.ne_empty
    rw [List.mapM_cons, ih hrestKeys hrest]
    dsimp only
    rw [hkey.trimmed, if_neg hempty, String.ofList_toList]
    rfl

/-- Keys joined by bars are split into these keys. -/
theorem splitAlternatives_intercalate {keys : List String} (hlength : 2 ≤ keys.length)
    (h : ∀ key ∈ keys, IsAlternative key) :
    splitAlternatives ("|".intercalate keys) = .ok keys := by
  have hne : keys.map String.toList ≠ [] := by
    rw [ne_eq, List.map_eq_nil_iff]
    rintro rfl
    cases hlength
  have hsingle : ∀ part ∈ keys.map String.toList, IsSinglePart '|' part := by
    intro part hpart
    obtain ⟨key, hk, rfl⟩ := List.mem_map.mp hpart
    exact (h key hk).single
  obtain ⟨found, hfound, hparts⟩ := splitTopLevel_intercalate (by decide) hne hsingle
  have hcount : ¬ found.length = 1 := by
    have hcount := congrArg List.length hparts
    rw [List.length_map, List.length_map] at hcount
    omega
  have htext : ("|".intercalate keys).toList = ['|'].intercalate (keys.map String.toList) :=
    String.toList_intercalate
  rw [splitAlternatives, htext, hfound]
  dsimp only
  rw [if_neg hcount]
  exact mapM_alternatives h hparts _

end Pattern

namespace Build

theorem expand_append (fields more : List (String × Json)) :
    expand (fields ++ more) = (do
      let alternatives ← expand fields
      let others ← expand more
      pure (alternatives ++ others)) := by
  induction fields with
  | nil =>
    rw [List.nil_append, expand]
    exact (bind_pure _).symm
  | cons field rest ih =>
    obtain ⟨rawKey, value⟩ := field
    rw [List.cons_append, expand, expand, ih]
    simp only [bind_assoc, pure_bind, List.append_assoc]

theorem expand_perm {fields fields' : List (String × Json)} (h : fields.Perm fields') :
    Both List.Perm (expand fields) (expand fields') := by
  induction h with
  | nil => exact .ok (.refl _)
  | cons field _ ih =>
    obtain ⟨rawKey, value⟩ := field
    rw [expand, expand]
    cases Pattern.splitAlternatives rawKey with
    | error e => exact .error
    | ok keys => exact ih.bind fun _ _ hperm => .ok (hperm.append_left _)
  | swap a b rest =>
    obtain ⟨rawKey, value⟩ := a
    obtain ⟨rawKey', value'⟩ := b
    rw [expand, expand, expand, expand]
    cases Pattern.splitAlternatives rawKey with
    | error e => cases Pattern.splitAlternatives rawKey' <;> exact .error
    | ok keys =>
      cases Pattern.splitAlternatives rawKey' with
      | error e => exact .error
      | ok keys' =>
        cases expand rest with
        | error e => exact .error
        | ok more => exact .ok (List.perm_append_comm_assoc _ _ _)
  | trans _ _ ih ih' => exact ih.trans ih' fun _ _ _ hab hbc => hab.trans hbc

theorem expand_alternatives {keys : List String} (h : ∀ key ∈ keys, Pattern.IsAlternative key)
    (value : Json) : expand (keys.map (·, value)) = .ok (keys.map (·, value)) := by
  induction keys with
  | nil => rfl
  | cons key rest ih =>
    obtain ⟨hkey, hrest⟩ := List.forall_mem_cons.mp h
    rw [List.map_cons, expand, Pattern.splitAlternatives_single hkey.single, ih hrest]
    rfl

end Build

/-! ## A group and its keys -/

/-- An object with an entry for each of some keys in place of their or-group. -/
structure Ungroups (keys : List String) (value : Json) (fields fields' : List (String × Json)) :
    Prop where
  several : 2 ≤ keys.length
  alternatives : ∀ key ∈ keys, Pattern.IsAlternative key
  distinct : keys.Nodup
  fresh : ∀ key ∈ keys, fields.lookup key = none
  group : fields.lookup ("|".intercalate keys) = some value
  result_eq : fields' = keys.foldl (fun fields key => Fields.insert key value fields)
    (Fields.erase ("|".intercalate keys) fields)

namespace Ungroups

variable {keys : List String} {value : Json} {fields fields' : List (String × Json)}

/-- The group stands in front of the other entries, up to order. -/
theorem perm_group (h : Ungroups keys value fields fields') (hsorted : Fields.Sorted fields) :
    fields.Perm (("|".intercalate keys, value) :: Fields.erase ("|".intercalate keys) fields) :=
  Fields.perm_erase hsorted h.group

/-- So do its keys afterwards. -/
theorem perm_keys (h : Ungroups keys value fields fields') :
    fields'.Perm (keys.map (·, value) ++ Fields.erase ("|".intercalate keys) fields) := by
  have hfresh : ∀ key ∈ keys, (Fields.erase ("|".intercalate keys) fields).lookup key = none := by
    intro key hk
    rw [List.lookup_eq_none_iff]
    intro field hf
    exact List.lookup_eq_none_iff.mp (h.fresh key hk) field (List.mem_of_mem_filter hf)
  rw [h.result_eq]
  exact Fields.foldl_insert_perm h.distinct hfresh value

/-- The alternatives of the keys of both objects are the same, up to order. -/
theorem expand_perm (h : Ungroups keys value fields fields') (hsorted : Fields.Sorted fields) :
    Both List.Perm (Build.expand fields) (Build.expand fields') := by
  have hsame : Build.expand
      (("|".intercalate keys, value) :: Fields.erase ("|".intercalate keys) fields) =
        Build.expand (keys.map (·, value) ++ Fields.erase ("|".intercalate keys) fields) := by
    rw [Build.expand, Build.expand_append, Build.expand_alternatives h.alternatives,
      Pattern.splitAlternatives_intercalate h.several h.alternatives]
    rfl
  have hgroup := Build.expand_perm (h.perm_group hsorted)
  have hkeys := Build.expand_perm h.perm_keys.symm
  rw [hsame] at hgroup
  exact hgroup.trans hkeys fun _ _ _ hab hbc => hab.trans hbc

theorem isEmpty_eq (h : Ungroups keys value fields fields') (hsorted : Fields.Sorted fields) :
    fields.isEmpty = fields'.isEmpty := by
  obtain ⟨key, rest, rfl⟩ := List.exists_cons_of_length_pos (Nat.zero_lt_of_lt h.several)
  rw [(h.perm_group hsorted).isEmpty_eq, h.perm_keys.isEmpty_eq]
  rfl

end Ungroups

/-- The first object with the or-group of some keys, at a depth below it, replaced by the keys. -/
inductive Ungrouped : Nat → List (String × Json) → List (String × Json) → Prop
  | here {keys : List String} {value : Json} {fields fields' : List (String × Json)}
    (ungroups : Ungroups keys value fields fields') : Ungrouped 0 fields fields'
  | inside {depth : Nat} {inner inner' : List (String × Json)}
    (ungrouped : Ungrouped depth inner inner') (key : String)
    (before after : List (String × Json)) :
    Ungrouped (depth + 1) (before ++ (key, .obj inner) :: after)
      (before ++ (key, .obj inner') :: after)

/-- The levels differ in the order of special children at a depth, and nowhere else. -/
def Composite.LikeAt : Nat → Level τ → Level τ → Prop
  | 0, a, b => a.Reordered b
  | depth + 1, a, b =>
    a.Rel (fun x y => x = y ∨ Build.Node.OnLevels (Composite.LikeAt depth) x y) b

theorem Composite.LikeAt.element_eq {depth : Nat} {a b : Level τ} (h : LikeAt depth a b) :
    a.element = b.element := by
  cases depth with
  | zero =>
    obtain ⟨-, hb⟩ := h
    rw [hb]
  | succ depth => exact Composite.Rel.element_eq h

namespace Ungrouped

variable {p : Policy τ} {config : Config} {depth : Nat} {fields fields' : List (String × Json)}

theorem isEmpty_eq (h : Ungrouped depth fields fields') (hw : (Json.obj fields).WellFormed) :
    fields.isEmpty = fields'.isEmpty := by
  cases h with
  | here ungroups => exact ungroups.isEmpty_eq hw.1
  | inside _ _ before _ => cases before <;> rfl

/-- The levels that the objects become agree but for the order of special children. -/
theorem level_agree (h : Ungrouped depth fields fields') (hw : (Json.obj fields).WellFormed)
    (isArray : Bool) (location : String) (level : Nat) (element : Element) (rawKey : String) :
    Build.Agree (Composite.LikeAt depth)
      (Build.children p config isArray location level {} fields >>=
        Build.closeLevel element rawKey isArray)
      (Build.children p config isArray location level {} fields' >>=
        Build.closeLevel element rawKey isArray) := by
  induction h generalizing isArray location level element rawKey with
  | here ungroups =>
    exact Build.level_permuted (ungroups.expand_perm hw.1) isArray location level element rawKey
  | @inside depth inner inner' ungrouped key before after ih =>
    let R (x y : Node τ) : Prop := x = y ∨ Build.Node.OnLevels (Composite.LikeAt depth) x y
    have hinner : (Json.obj inner).WellFormed :=
      hw.field (List.mem_append_right before List.mem_cons_self)
    have hR (x y : Node τ) (h : R x y) : x.element = y.element := by
      cases h with
      | inl he => rw [he]
      | inr hlevels =>
        cases hlevels with
        | intro hlevel => exact hlevel.element_eq
    have hsame (field : String × Json) : Build.FieldAgree p config R field field :=
      ⟨rfl, fun _ _ _ _ _ _ => (Build.Agree.refl _).imp fun _ _ => .inl⟩
    have hfield : Build.FieldAgree p config R (key, .obj inner) (key, .obj inner') := by
      refine ⟨rfl, fun _ _ rawKey _ location level => ?_⟩
      have hnode := Build.node_agree (ungrouped.isEmpty_eq hinner) fun element _ isArray =>
        ih hinner isArray location (level + 1) element rawKey
      exact hnode.imp fun _ _ => .inr
    have hfields : List.Forall₂ (Build.FieldAgree p config R) (before ++ (key, .obj inner) :: after)
        (before ++ (key, .obj inner') :: after) :=
      List.rel_append (List.forall₂_same.mpr fun field _ => hsame field)
        (.cons hfield (List.forall₂_same.mpr fun field _ => hsame field))
    exact (Build.level_agree hR hfields isArray location level element rawKey).imp
      fun _ _ h => h.2

end Ungrouped

/-- Whether an or-group stands in a spec or its keys do, the spec fails to compile, or compiles to
the same levels and counts, up to the order of special children where the group stood. -/
theorem CompiledSpec.compile_ungrouped (p : Policy τ) (config : Config) {depth : Nat}
    {fields fields' : List (String × Json)} (hw : (Json.obj fields).WellFormed)
    (h : Ungrouped depth fields fields') :
    Both (Rel (Composite.LikeAt depth)) (compile p (.obj fields) config)
      (compile p (.obj fields') config) :=
  compile_agree (Build.root_agree (h.isEmpty_eq hw) (h.level_agree hw false "" 0 _ _))

/-- Below the root, a group of a literal key, two special keys that come in the other order as keys
of their own, and a pattern. -/
theorem CompiledSpec.compile_ungrouped_below_root :
    (Json.obj [("a", .obj [("x|@|#c|y*", .str "out")])]).WellFormed ∧
    Ungrouped 1 [("a", .obj [("x|@|#c|y*", .str "out")])]
      [("a", .obj [("#c", .str "out"), ("@", .str "out"), ("x", .str "out"),
        ("y*", .str "out")])] ∧
    ∃ spec spec',
      compile Operation.shift (.obj [("a", .obj [("x|@|#c|y*", .str "out")])]) {} = .ok spec ∧
      compile Operation.shift (.obj [("a", .obj [("#c", .str "out"), ("@", .str "out"),
        ("x", .str "out"), ("y*", .str "out")])]) {} = .ok spec' ∧
      Rel (Composite.LikeAt 1) spec spec' := by
  have hcompiles : (compile Operation.shift
      (.obj [("a", .obj [("x|@|#c|y*", .str "out")])]) {}).toOption.isSome = true := by
    decide +kernel
  have hwell : (Json.obj [("a", .obj [("x|@|#c|y*", .str "out")])]).WellFormed :=
    ⟨by decide, ⟨by decide, trivial, trivial⟩, trivial⟩
  have halternatives : ∀ key ∈ ["x", "@", "#c", "y*"], Pattern.IsAlternative key := by
    simp only [List.forall_mem_cons]
    exact ⟨⟨by decide, rfl, rfl⟩, ⟨by decide, rfl, rfl⟩, ⟨by decide, rfl, rfl⟩,
      ⟨by decide, rfl, rfl⟩, nofun⟩
  have hungroups : Ungroups ["x", "@", "#c", "y*"] (.str "out") [("x|@|#c|y*", .str "out")]
      [("#c", .str "out"), ("@", .str "out"), ("x", .str "out"), ("y*", .str "out")] :=
    ⟨by decide, halternatives, by decide, by decide, rfl, rfl⟩
  have hungrouped : Ungrouped 1 [("a", .obj [("x|@|#c|y*", .str "out")])]
      [("a", .obj [("#c", .str "out"), ("@", .str "out"), ("x", .str "out"),
        ("y*", .str "out")])] :=
    .inside (.here hungroups) "a" [] []
  obtain ⟨spec, hspec⟩ := exists_of_isSome hcompiles
  obtain ⟨spec', hspec', hrel⟩ :=
    (compile_ungrouped Operation.shift {} hwell hungrouped).of_ok hspec
  exact ⟨hwell, hungrouped, spec, spec', hspec, hspec', hrel⟩

end Reshape
