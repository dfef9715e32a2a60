import Reshape.Fixture.LineDiff
import Reshape.Proofs.Fixture.Level
/-!
# Every difference has a place

Whether documents agree and where they differ are found by two recursions. They say the same: for
every way of comparing there is a place that differs exactly if the documents do not agree.
-/
namespace Reshape.Fixture

variable {o : CompareOptions} {path : String}

/-- The places that differ at one field of an object. -/
def differencesAt (o : CompareOptions) (path : String) (actual : List (String × Json))
    (key : String) (v : Json) : List String :=
  match actual.lookup key with
  | some w => if agree o v w then [] else differences o (fieldPath path key) v w
  | none => [fieldPath path key ++ " (missing in actual)"]

theorem lookup_fieldDifferences (expected actual : List (String × Json)) (key : String) :
    (fieldDifferences o path actual expected).lookup key =
      (expected.lookup key).map (differencesAt o path actual key) := by
  induction expected with
  | nil => rw [fieldDifferences]; rfl
  | cons field rest ih =>
    obtain ⟨name, v⟩ := field
    rw [fieldDifferences, List.lookup_cons, List.lookup_cons, ih]
    split
    · rename_i hkey
      rw [eq_of_beq hkey]
      rfl
    · rfl

theorem differencesAt_eq_nil_iff {actual : List (String × Json)} {key : String} {v : Json}
    (h : ∀ w, actual.lookup key = some w → ∀ path, differences o path v w = [] ↔
      agree o v w = true) :
    differencesAt o path actual key v = [] ↔
      ∃ w, actual.lookup key = some w ∧ agree o v w = true := by
  rw [differencesAt]
  cases hw : actual.lookup key with
  | none => simp
  | some w =>
    have hvalue := h w hw (fieldPath path key)
    cases hagree : agree o v w <;> simp [hagree, hvalue]

/-- Objects do not differ if they have the same keys with values that agree, where values that do
not agree differ. -/
theorem differences_obj_eq_nil_iff {expected actual : List (String × Json)}
    (he : Fields.Sorted expected) (ha : Fields.Sorted actual)
    (h : ∀ field ∈ expected, ∀ w, actual.lookup field.1 = some w → ∀ path,
      differences o path field.2 w = [] ↔ agree o field.2 w = true) :
    differences o path (.obj expected) (.obj actual) = [] ↔
      List.Forall₂ (Fields.Related (Agrees o)) expected actual := by
  have hkeys : ∀ key, key ∈ allKeys expected actual ↔
      key ∈ expected.map Prod.fst ∨ key ∈ actual.map Prod.fst := by
    intro key
    rw [allKeys, Fields.mem_keys_ofPairs, List.map_append, List.mem_append]
  rw [differences, List.flatMap_eq_nil_iff]
  simp only [lookup_fieldDifferences]
  constructor
  · intro hnone
    have hsub : actual.map Prod.fst ⊆ expected.map Prod.fst := by
      intro key hk
      have hplace := hnone key ((hkeys key).mpr (.inr hk))
      cases hlookup : expected.lookup key with
      | none =>
        rw [hlookup] at hplace
        cases hplace
      | some v => exact Fields.mem_keys_iff.mpr ⟨v, hlookup⟩
    have hlength : actual.length ≤ expected.length := by
      have hle := (List.subperm_of_subset ha.keys_nodup hsub).length_le
      rwa [List.length_map, List.length_map] at hle
    refine Fields.forall₂_of_lookup he ha hlength fun field hf => ?_
    have hlookup := Fields.lookup_of_mem he hf
    have hplace := hnone field.1 ((hkeys field.1).mpr (.inl (List.mem_map_of_mem hf)))
    rw [hlookup] at hplace
    exact (differencesAt_eq_nil_iff (h field hf)).mp hplace
  · intro hagree key hk
    have hboth := Fields.keys_eq_of_forall₂ hagree
    rw [hkeys, ← hboth, or_self, Fields.mem_keys_iff] at hk
    obtain ⟨v, hv⟩ := hk
    have hf := Fields.mem_of_lookup hv
    rw [hv]
    exact (differencesAt_eq_nil_iff (h (key, v) hf)).mpr
      (Fields.exists_lookup_of_forall₂ ha hagree (key, v) hf)

/-- The elements that two lists both have do not differ if these agree, where elements that do not
agree differ. -/
theorem elementDifferences_eq_nil_iff {expected actual : List Json} {position : Nat}
    (h : ∀ v ∈ expected, ∀ w ∈ actual, ∀ path, differences o path v w = [] ↔
      agree o v w = true) :
    elementDifferences o path position expected actual = [] ↔
      agreeElements o expected actual = true := by
  induction expected generalizing actual position with
  | nil => simp [elementDifferences, agreeElements]
  | cons v vs ih =>
    cases actual with
    | nil => simp [elementDifferences, agreeElements]
    | cons w ws =>
      have hfirst := h v List.mem_cons_self w List.mem_cons_self
      have hrest : elementDifferences o path (position + 1) vs ws = [] ↔
          agreeElements o vs ws = true :=
        ih fun v hv w hw => h v (List.mem_cons_of_mem _ hv) w (List.mem_cons_of_mem _ hw)
      rw [elementDifferences, agreeElements, List.append_eq_nil_iff, hrest, Bool.and_eq_true_iff]
      refine and_congr_left fun _ => ?_
      cases hagree : agree o v w <;> simp [hagree, hfirst]

/-- Lists that are compared in order do not differ if they agree, where elements that do not agree
differ. -/
theorem differences_arr_eq_nil_iff (ho : o.unordered = false) {expected actual : List Json}
    (h : ∀ v ∈ expected, ∀ w ∈ actual, ∀ path, differences o path v w = [] ↔
      agree o v w = true) :
    differences o path (.arr expected) (.arr actual) = [] ↔
      agree o (.arr expected) (.arr actual) = true := by
  have hplaces : differences o path (.arr expected) (.arr actual) =
      elementDifferences o path 0 expected actual ++
        if expected.length == actual.length then []
        else [s!"{path} (list length mismatch: {expected.length} vs {actual.length})"] := by
    rw [differences, ho]
    rfl
  rw [hplaces, agree, ho, List.append_eq_nil_iff, elementDifferences_eq_nil_iff h,
    Bool.and_eq_true_iff, and_comm]
  refine and_congr_left fun _ => ?_
  cases expected.length == actual.length <;> simp

/-- A place that is compared as a whole differs if it does not agree. -/
theorem eq_nil_iff_of_whole {v w : Json}
    (h : differences o path v w = if agree o v w then [] else [placeName path]) :
    differences o path v w = [] ↔ agree o v w = true := by
  rw [h]
  cases agree o v w <;> simp

/-- Some place differs exactly if the documents do not agree. -/
theorem differences_eq_nil_iff {expected actual : Json} (he : expected.WellFormed)
    (ha : actual.WellFormed) (path : String) :
    differences o path expected actual = [] ↔ agree o expected actual = true := by
  induction expected using Json.of_members generalizing actual path with
  | null | bool _ | num _ | str _ => exact eq_nil_iff_of_whole (by cases actual <;> rfl)
  | arr vs ih =>
    cases actual with
    | arr ws =>
      cases ho : o.unordered with
      | false =>
        exact differences_arr_eq_nil_iff ho fun v hv w hw path =>
          ih v hv (he.element hv) (ha.element hw) path
      | true =>
        refine eq_nil_iff_of_whole ?_
        rw [differences, ho, if_pos rfl]
    | _ => exact eq_nil_iff_of_whole rfl
  | obj fields ih =>
    cases actual with
    | obj others =>
      rw [agree_obj_iff he.sorted ha.sorted]
      refine differences_obj_eq_nil_iff he.sorted ha.sorted fun field hf w hw path => ?_
      exact ih field hf (he.field hf) (ha.field (Fields.mem_of_lookup hw)) path
    | _ => exact eq_nil_iff_of_whole rfl

/-- **A mismatch is always located.** A comparison of two documents says that they agree exactly if
it names no place where they differ, whatever its options are: where they do not agree some place is
found, from every path on. -/
theorem compareDocuments_agrees_iff (o : CompareOptions) {expected actual : Json}
    (he : expected.WellFormed) (ha : actual.WellFormed) :
    ((compareDocuments o expected actual).agrees = true ↔
        (compareDocuments o expected actual).paths = []) ∧
      (agree o expected actual = false → ∀ path, differences o path expected actual ≠ []) := by
  have hlocated : agree o expected actual = false →
      ∀ path, differences o path expected actual ≠ [] := by
    intro hagree path hnone
    rw [(differences_eq_nil_iff he ha path).mp hnone] at hagree
    cases hagree
  refine ⟨?_, hlocated⟩
  rw [compareDocuments]
  cases hagree : agree o expected actual with
  | true => simp
  | false =>
    have hpaths : differingPaths o expected actual ≠ [] := by
      rw [differingPaths, hagree]
      exact hlocated hagree ""
    simpa using hpaths

/-- Lists of one length that hold the same elements a different number of times, compared as
multisets below a field. -/
theorem compareDocuments_agrees_iff_multisets :
    let expected : Json := .obj [("z", .arr [.bool true, .bool true])]
    let actual : Json := .obj [("z", .arr [.bool true, .bool false])]
    expected.WellFormed ∧ actual.WellFormed ∧
      (compareDocuments { unordered := true } expected actual).agrees = false ∧
      (compareDocuments { unordered := true } expected actual).paths ≠ [] := by
  intro expected actual
  have he : expected.WellFormed := ⟨by decide, ⟨trivial, trivial, trivial⟩, trivial⟩
  have ha : actual.WellFormed := ⟨by decide, ⟨trivial, trivial, trivial⟩, trivial⟩
  have hagree : agree { unordered := true } expected actual = false := by decide +kernel
  obtain ⟨hiff, -⟩ := compareDocuments_agrees_iff { unordered := true } he ha
  have hagrees : (compareDocuments { unordered := true } expected actual).agrees = false := by
    rw [compareDocuments, hagree]
    rfl
  refine ⟨he, ha, hagrees, fun hpaths => ?_⟩
  rw [hiff.mpr hpaths] at hagrees
  cases hagrees

end Reshape.Fixture
