import Reshape.Json.Reader
import Reshape.Proofs.Document
/-!
# Documents that are read

Reading a text puts the fields of every object in key order, so every document that is read is
well-formed.
-/
namespace Reshape

theorem Fields.insert_wellFormed {key : String} {v : Json} {fields : List (String × Json)}
    (hv : v.WellFormed) (h : (Json.obj fields).WellFormed) :
    (Json.obj (insert key v fields)).WellFormed := by
  refine ⟨insert_sorted key v h.sorted, (Json.wellFormedFields_iff _).mpr ?_⟩
  intro field hf
  rcases mem_insert hf with rfl | hf
  · exact hv
  · exact h.field hf

namespace Json

theorem ofFields_wellFormed {pairs : List (String × Json)}
    (h : ∀ pair ∈ pairs, pair.2.WellFormed) : (ofFields pairs).WellFormed := by
  have hfold : ∀ {fields : List (String × Json)}, (obj fields).WellFormed →
      (obj (pairs.foldl (fun fields (key, v) => Fields.insert key v fields)
        fields)).WellFormed := by
    induction pairs with
    | nil => exact id
    | cons pair rest ih =>
      intro fields hf
      have hpair : (obj (Fields.insert pair.1 pair.2 fields)).WellFormed :=
        Fields.insert_wellFormed (h pair List.mem_cons_self) hf
      exact ih (fun p hp => h p (List.mem_cons_of_mem pair hp)) hpair
  exact hfold ⟨.nil, trivial⟩

namespace Reader

variable {read : Read Json} {fuel depth : Nat} {text rest : List Char}

/-- Every value that a reader of values gives is well-formed. -/
def Sound (read : Read Json) : Prop :=
  ∀ {text rest : List Char} {v : Json}, read text = some (v, rest) → v.WellFormed

theorem elements?_wellFormed (hread : Sound read) {taken elements : List Json}
    (ht : ∀ v ∈ taken, v.WellFormed)
    (h : elements? read fuel text taken = some (elements, rest)) :
    ∀ v ∈ elements, v.WellFormed := by
  induction fuel generalizing text taken with
  | zero => cases h
  | succ fuel ih =>
    rw [elements?] at h
    split at h
    · cases h
    · rename_i v _ hv
      have htaken : ∀ w ∈ v :: taken, w.WellFormed :=
        List.forall_mem_cons.mpr ⟨hread hv, ht⟩
      split at h
      · exact ih htaken h
      · obtain ⟨rfl, -⟩ := Prod.mk.inj (Option.some.inj h)
        exact fun w hw => htaken w (List.mem_reverse.mp hw)
      · cases h

theorem members?_wellFormed (hread : Sound read) {taken members : List (String × Json)}
    (ht : ∀ m ∈ taken, m.2.WellFormed)
    (h : members? read fuel text taken = some (members, rest)) :
    ∀ m ∈ members, m.2.WellFormed := by
  induction fuel generalizing text taken with
  | zero => cases h
  | succ fuel ih =>
    rw [members?] at h
    split at h
    · cases h
    · rename_i key _ _
      split at h
      · split at h
        · cases h
        · rename_i v _ hv
          have htaken : ∀ m ∈ (key, v) :: taken, m.2.WellFormed :=
            List.forall_mem_cons.mpr ⟨hread hv, ht⟩
          split at h
          · exact ih htaken h
          · obtain ⟨rfl, -⟩ := Prod.mk.inj (Option.some.inj h)
            exact fun m hm => htaken m (List.mem_reverse.mp hm)
          · cases h
      · cases h

theorem objectTail?_wellFormed (hread : Sound read) {members : List (String × Json)}
    (h : objectTail? read text = some (members, rest)) : ∀ m ∈ members, m.2.WellFormed := by
  rw [objectTail?] at h
  split at h
  · obtain ⟨rfl, -⟩ := Prod.mk.inj (Option.some.inj h)
    exact List.forall_mem_nil _
  · exact members?_wellFormed hread (List.forall_mem_nil _) h

theorem value?_sound (depth : Nat) : Sound (value? depth) := by
  induction depth using Nat.strong_induction_on with
  | _ depth ih =>
    intro text rest v h
    rw [value?.eq_def] at h
    split at h
    · cases h; trivial
    · cases h; trivial
    · cases h; trivial
    · obtain ⟨_, -, he⟩ := Option.map_eq_some_iff.mp h
      cases he
      trivial
    · -- A list.
      cases depth with
      | zero => cases h
      | succ depth =>
        dsimp only at h
        split at h
        · cases h; trivial
        · obtain ⟨⟨elements, _⟩, helements, he⟩ := Option.map_eq_some_iff.mp h
          cases he
          have hread : Sound (value? depth) := ih depth (Nat.lt_succ_self depth)
          exact (wellFormedElements_iff elements).mpr
            (elements?_wellFormed hread (List.forall_mem_nil _) helements)
    · -- An object.
      cases depth with
      | zero => cases h
      | succ depth =>
        obtain ⟨⟨members, _⟩, hmembers, he⟩ := Option.map_eq_some_iff.mp h
        cases he
        have hread : Sound (value? depth) := ih depth (Nat.lt_succ_self depth)
        exact ofFields_wellFormed (objectTail?_wellFormed hread hmembers)
    · obtain ⟨_, -, he⟩ := Option.map_eq_some_iff.mp h
      cases he
      trivial

end Reader

/-- Every document that is read is well-formed. -/
theorem ofText?_wellFormed {text : String} {v : Json} (h : ofText? text = some v) :
    v.WellFormed := by
  rw [ofText?] at h
  split at h
  · rename_i hv
    split at h
    · obtain rfl := Option.some.inj h
      exact Reader.value?_sound _ hv
    · cases h
  · cases h

end Json
end Reshape
