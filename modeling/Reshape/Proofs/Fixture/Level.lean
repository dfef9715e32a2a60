import Mathlib
import Reshape.Fixture.Compare
import Reshape.Proofs.Document
/-!
# Comparing one level of two documents

Objects agree exactly if they have the same keys, in the order in which fields are kept, with values
that agree. So a comparison of objects follows from comparisons of their members.
-/
namespace Reshape

variable {α β γ : Type}

/-! ## Fields of the same keys -/

namespace Fields

/-- Fields of one key with related values. -/
inductive Related (r : α → β → Prop) : String × α → String × β → Prop
  | mk (key : String) {v : α} {w : β} (value : r v w) : Related r (key, v) (key, w)

namespace Related

variable {r : α → β → Prop} {field : String × α} {other : String × β}

theorem imp {s : α → β → Prop} (h : Related r field other)
    (himp : r field.2 other.2 → s field.2 other.2) : Related s field other := by
  obtain ⟨key, hvalue⟩ := h
  exact .mk key (himp hvalue)

theorem flip {s : β → α → Prop} (h : Related r field other)
    (hflip : r field.2 other.2 → s other.2 field.2) : Related s other field := by
  obtain ⟨key, hvalue⟩ := h
  exact .mk key (hflip hvalue)

theorem comp {s : β → γ → Prop} {t : α → γ → Prop} {last : String × γ} (h : Related r field other)
    (h' : Related s other last) (hcomp : r field.2 other.2 → s other.2 last.2 → t field.2 last.2) :
    Related t field last := by
  cases h with
  | mk key hvalue =>
    cases h' with
    | mk _ hvalue' => exact .mk key (hcomp hvalue hvalue')

theorem between {s : α → γ → Prop} {t : γ → β → Prop} (h : Related r field other)
    (hbetween : r field.2 other.2 → ∃ c, s field.2 c ∧ t c other.2) :
    ∃ middle, Related s field middle ∧ Related t middle other := by
  obtain ⟨key, hvalue⟩ := h
  obtain ⟨c, hs, ht⟩ := hbetween hvalue
  exact ⟨(key, c), .mk key hs, .mk key ht⟩

end Related

theorem Sorted.keys_nodup {fields : List (String × α)} (h : Sorted fields) :
    (fields.map Prod.fst).Nodup :=
  List.pairwise_map.mpr (h.imp fun hlt => String.ne_of_lt hlt)

/-- Sorted fields whose keys are among those of others, at most as many, have the same keys. -/
theorem keys_eq_of_subset {as : List (String × α)} {bs : List (String × β)} (ha : Sorted as)
    (hb : Sorted bs) (hlength : bs.length ≤ as.length)
    (hsub : as.map Prod.fst ⊆ bs.map Prod.fst) : as.map Prod.fst = bs.map Prod.fst := by
  have hperm : (as.map Prod.fst).Perm (bs.map Prod.fst) :=
    (List.subperm_of_subset ha.keys_nodup hsub).perm_of_length_le
      (by rwa [List.length_map, List.length_map])
  refine hperm.eq_of_pairwise ?_ (List.pairwise_map.mpr ha) (List.pairwise_map.mpr hb)
  intro a b _ _ hlt hgt
  exact absurd (String.lt_trans hlt hgt) (String.lt_irrefl _)

/-- Sorted fields are related one by one if every first one has a second one of its key, and there
are no more of the second. -/
theorem forall₂_of_lookup {r : α → β → Prop} {as : List (String × α)} {bs : List (String × β)}
    (ha : Sorted as) (hb : Sorted bs) (hlength : bs.length ≤ as.length)
    (h : ∀ field ∈ as, ∃ w, bs.lookup field.1 = some w ∧ r field.2 w) :
    List.Forall₂ (Related r) as bs := by
  have hsub : as.map Prod.fst ⊆ bs.map Prod.fst := by
    intro key hk
    obtain ⟨field, hf, rfl⟩ := List.mem_map.mp hk
    obtain ⟨w, hw, -⟩ := h field hf
    exact List.mem_map.mpr ⟨(field.1, w), mem_of_lookup hw, rfl⟩
  have hkeys := keys_eq_of_subset ha hb hlength hsub
  clear hsub hlength hb
  induction as generalizing bs with
  | nil =>
    obtain rfl := List.map_eq_nil_iff.mp hkeys.symm
    exact .nil
  | cons field as ih =>
    obtain ⟨key, v⟩ := field
    obtain ⟨⟨other, w⟩, bs, rfl, hother, hrest⟩ := List.map_eq_cons_iff.mp hkeys.symm
    obtain rfl : other = key := hother
    obtain ⟨hlt, ha⟩ := List.pairwise_cons.mp ha
    obtain ⟨⟨w', hw, hvalue⟩, h⟩ := List.forall_mem_cons.mp h
    rw [List.lookup_cons_self] at hw
    obtain rfl := Option.some.inj hw
    refine .cons (.mk other hvalue) (ih ha ?_ hrest.symm)
    intro next hn
    have hne : next.1 ≠ other := (String.ne_of_lt (hlt next hn)).symm
    obtain ⟨u, hu, hr⟩ := h next hn
    rw [lookup_cons_of_ne hne] at hu
    exact ⟨u, hu, hr⟩

theorem keys_eq_of_forall₂ {r : α → β → Prop} {as : List (String × α)} {bs : List (String × β)}
    (h : List.Forall₂ (Related r) as bs) : as.map Prod.fst = bs.map Prod.fst := by
  induction h with
  | nil => rfl
  | cons hfield _ ih =>
    obtain ⟨key, -⟩ := hfield
    rw [List.map_cons, List.map_cons, ih]

theorem exists_lookup_of_forall₂ {r : α → β → Prop} {as : List (String × α)}
    {bs : List (String × β)} (hb : Sorted bs) (h : List.Forall₂ (Related r) as bs) :
    ∀ field ∈ as, ∃ w, bs.lookup field.1 = some w ∧ r field.2 w := by
  have hmem : ∀ field ∈ as, ∃ w, (field.1, w) ∈ bs ∧ r field.2 w := by
    clear hb
    induction h with
    | nil => exact List.forall_mem_nil _
    | cons hfield _ ih =>
      obtain ⟨key, hvalue⟩ := hfield
      refine List.forall_mem_cons.mpr ⟨⟨_, List.mem_cons_self, hvalue⟩, ?_⟩
      intro field hf
      obtain ⟨w, hw, hr⟩ := ih field hf
      exact ⟨w, List.mem_cons_of_mem _ hw, hr⟩
  intro field hf
  obtain ⟨w, hw, hr⟩ := hmem field hf
  exact ⟨w, lookup_of_mem hb hw, hr⟩

theorem mem_keys_insert {key name : String} {value : α} {fields : List (String × α)} :
    key ∈ (insert name value fields).map Prod.fst ↔
      key = name ∨ key ∈ fields.map Prod.fst := by
  induction fields with
  | nil => simp [insert]
  | cons field rest ih =>
    obtain ⟨k, v⟩ := field
    rw [insert]
    split
    · rw [List.map_cons, List.mem_cons]
    · split
      · rename_i he
        rw [List.map_cons, List.map_cons, List.mem_cons, List.mem_cons, he, or_self_left]
      · rw [List.map_cons, List.map_cons, List.mem_cons, List.mem_cons, ih, or_left_comm]

theorem mem_keys_iff {key : String} {fields : List (String × α)} :
    key ∈ fields.map Prod.fst ↔ ∃ value, fields.lookup key = some value := by
  rw [← Option.isSome_iff_exists, List.lookup_isSome_iff, List.mem_map]
  simp only [beq_iff_eq, @eq_comm _ key]

/-- Putting pairs in order keeps their keys. -/
theorem mem_keys_ofPairs {key : String} {pairs : List (String × α)} :
    key ∈ (ofPairs pairs).map Prod.fst ↔ key ∈ pairs.map Prod.fst := by
  have hfold : ∀ fields : List (String × α),
      key ∈ (pairs.foldl (fun fields pair => insert pair.1 pair.2 fields) fields).map Prod.fst ↔
        key ∈ pairs.map Prod.fst ∨ key ∈ fields.map Prod.fst := by
    induction pairs with
    | nil => simp
    | cons pair rest ih =>
      intro fields
      rw [List.foldl_cons, ih, mem_keys_insert, List.map_cons, List.mem_cons, or_left_comm,
        or_assoc]
  exact (hfold []).trans (or_iff_left (List.not_mem_nil))

end Fields

/-- What holds of a document if it holds of its members holds of every document. -/
theorem Json.of_members {motive : Json → Prop} (null : motive .null)
    (bool : ∀ b, motive (.bool b)) (num : ∀ n, motive (.num n)) (str : ∀ text, motive (.str text))
    (arr : ∀ elements, (∀ v ∈ elements, motive v) → motive (.arr elements))
    (obj : ∀ fields, (∀ field ∈ fields, motive field.2) → motive (.obj fields)) (v : Json) :
    motive v :=
  match v with
  | .null => null
  | .bool b => bool b
  | .num n => num n
  | .str text => str text
  | .arr elements =>
    arr elements fun v _ => Json.of_members null bool num str arr obj v
  | .obj fields =>
    obj fields fun field _ => Json.of_members null bool num str arr obj field.2
termination_by sizeOf v
decreasing_by
  · have hlt := List.sizeOf_lt_of_mem ‹_›
    rw [Json.arr.sizeOf_spec]
    omega
  · have hlt := List.sizeOf_lt_of_mem ‹_›
    have hfield : sizeOf field = 1 + sizeOf field.1 + sizeOf field.2 := rfl
    rw [Json.obj.sizeOf_spec]
    omega

namespace Fixture

variable {o : CompareOptions}

/-! ## Agreement by members -/

/-- The comparison says that the documents agree. -/
abbrev Agrees (o : CompareOptions) (expected actual : Json) : Prop :=
  agree o expected actual = true

theorem agreeFields_iff {expected actual : List (String × Json)} :
    agreeFields o expected actual = true ↔
      ∀ field ∈ expected, ∃ w, actual.lookup field.1 = some w ∧ agree o field.2 w = true := by
  induction expected with
  | nil => simp [agreeFields]
  | cons field rest ih =>
    obtain ⟨key, v⟩ := field
    rw [agreeFields, Bool.and_eq_true_iff, ih, List.forall_mem_cons]
    refine and_congr_left fun _ => ?_
    cases actual.lookup key <;> simp

/-- Objects agree if they have the same keys, with values that agree. -/
theorem agree_obj_iff {expected actual : List (String × Json)} (he : Fields.Sorted expected)
    (ha : Fields.Sorted actual) :
    agree o (.obj expected) (.obj actual) = true ↔
      List.Forall₂ (Fields.Related (Agrees o)) expected actual := by
  rw [agree, Bool.and_eq_true_iff, beq_iff_eq, agreeFields_iff]
  constructor
  · rintro ⟨hlength, h⟩
    exact Fields.forall₂_of_lookup he ha hlength.ge h
  · intro h
    exact ⟨h.length_eq, Fields.exists_lookup_of_forall₂ ha h⟩

end Fixture
end Reshape
