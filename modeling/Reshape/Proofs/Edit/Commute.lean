import Reshape.Proofs.Edit.Lens
/-!
# Writes that do not meet

Two writes whose addresses part at different keys of an object or at different indices of a list
can be made in either order. Above the place where they part the first write opens for both, and
there neither changes the child that the other one goes into, though a list may be padded by both.
-/
namespace Reshape

/-- Different steps of the same kind. -/
inductive Step.Beside : Step → Step → Prop
  | key {name other : String} (ne : name ≠ other) : Step.Beside (.key name) (.key other)
  | index {position other : Nat} (ne : position ≠ other) :
    Step.Beside (.index position) (.index other)

theorem Step.Beside.symm {s t : Step} (h : s.Beside t) : t.Beside s := by
  cases h with
  | key ne => exact .key ne.symm
  | index ne => exact .index ne.symm

namespace Json

/-- Two writes leave the same document in either order, and each of them arrives after the other
one exactly if it arrives without it. -/
structure Commutes (v : Json) (write write' : Json → Json × Bool) : Prop where
  document : (write' (write v).1).1 = (write (write' v).1).1
  first : (write (write' v).1).2 = (write v).2
  second : (write' (write v).1).2 = (write' v).2

namespace Commutes

variable {v : Json} {write write' : Json → Json × Bool}

theorem symm (h : v.Commutes write write') : v.Commutes write' write :=
  ⟨h.document.symm, h.second, h.first⟩

theorem of_eq {a b final : Json} {x y : Bool} (hfirst : write v = (a, x))
    (hthen : write' a = (final, y)) (hsecond : write' v = (b, y)) (hlast : write b = (final, x)) :
    v.Commutes write write' := by
  constructor
  · rw [hfirst, hsecond, hthen, hlast]
  · rw [hsecond, hfirst, hlast]
  · rw [hfirst, hsecond, hthen]

end Commutes

/-! ## Padding for two elements -/

section Pad

variable {position other : Nat} {elements : List Json}

theorem getElem?_padTo (position i : Nat) (elements : List Json) :
    (padTo position elements)[i]? =
      if i ≤ position then some (elements[i]?.getD .null) else elements[i]? := by
  split
  · rename_i hi
    have hlt : i < (padTo position elements).length :=
      Nat.lt_of_le_of_lt hi (lt_padTo_length position elements)
    rw [← padTo_getD position, List.getElem?_eq_getElem hlt, Option.getD_some]
  · rename_i hi
    by_cases hlt : i < elements.length
    · exact padTo_getElem? hlt position
    · rw [padTo, List.getElem?_append_right (Nat.le_of_not_lt hlt), List.getElem?_replicate,
        if_neg (by omega), List.getElem?_eq_none (Nat.le_of_not_lt hlt)]

theorem getElem?_set_padTo (position i : Nat) (elements : List Json) (value : Json) :
    ((padTo position elements).set position value)[i]? =
      if i = position then some value else (padTo position elements)[i]? := by
  split
  · rename_i hi
    subst hi
    exact List.getElem?_set_self (lt_padTo_length i elements)
  · rename_i hi
    exact List.getElem?_set_ne (Ne.symm hi)

/-- A list is padded for two elements and set at both in either order. -/
theorem set_padTo_comm (hne : position ≠ other) (elements : List Json) (value value' : Json) :
    (padTo other ((padTo position elements).set position value)).set other value' =
      (padTo position ((padTo other elements).set other value')).set position value := by
  refine List.ext_getElem? fun i => ?_
  rw [getElem?_set_padTo, getElem?_padTo, getElem?_set_padTo, getElem?_padTo,
    getElem?_set_padTo position, getElem?_padTo position, getElem?_set_padTo, getElem?_padTo]
  by_cases hi : i = position
  · have hother : i ≠ other := fun he => hne (hi.symm.trans he)
    rw [if_neg hother, if_pos hi, if_pos hi]
    split <;> rfl
  · rw [if_neg hi, if_neg hi]
    by_cases hother : i = other
    · rw [if_pos hother, if_pos hother]
      split <;> rfl
    · rw [if_neg hother, if_neg hother]
      split <;> split <;> rfl

end Pad

/-! ## Where the addresses part -/

section Beside

variable {v w child child' : Json} {s t : Step} {back back' : Json → Json}

theorem opened_of_beside (h : s.Beside t) (v : Json) : v.opened s = v.opened t := by
  cases h <;> rfl

/-- A container that a child was put back into needs no opening. -/
theorem Enters.opened_back (h : w.Enters s child back) (new : Json) (t : Step) :
    (back new).opened t = back new := by
  cases h <;> rfl

/-- Steps beside each other lead to the same children after a write of the other one, and what is
put back at both does not depend on which is put back first. -/
theorem Enters.beside (hst : s.Beside t) (h : w.Enters s child back)
    (h' : w.Enters t child' back') (new new' : Json) :
    ∃ after after', (back new).Enters t child' after ∧ (back' new').Enters s child after' ∧
      after new' = after' new := by
  cases hst with
  | @key name other ne =>
    cases h with
    | key fields _ =>
      cases h' with
      | key _ _ =>
        have hother := Enters.key (Fields.insert name new fields) other
        have hname := Enters.key (Fields.insert other new' fields) name
        rw [Fields.lookup_insert_of_ne ne.symm] at hother
        rw [Fields.lookup_insert_of_ne ne] at hname
        exact ⟨_, _, hother, hname, congrArg Json.obj (Fields.insert_comm ne.symm new' new fields)⟩
  | @index position other ne =>
    cases h with
    | index elements reached =>
      cases h' with
      | index _ reached' =>
        have hother := Enters.index ((padTo position elements).set position new) reached'
        have hposition := Enters.index ((padTo other elements).set other new') reached
        rw [List.getElem?_set_ne ne, padTo_getD] at hother
        rw [List.getElem?_set_ne ne.symm, padTo_getD] at hposition
        exact ⟨_, _, hother, hposition, congrArg Json.arr (set_padTo_comm ne elements new new')⟩

/-- A write of one step does not let a step beside it in. -/
theorem Enters.not_enters_beside (hst : s.Beside t) (h : w.Enters s child back) (new : Json)
    (ht : ¬ ∃ child back, w.Enters t child back) :
    ¬ ∃ entered putBack, (back new).Enters t entered putBack := by
  rintro ⟨_, _, he⟩
  cases hst with
  | @key _ other _ =>
    cases h with
    | key fields _ => exact ht ⟨_, _, .key fields other⟩
  | index _ =>
    cases h with
    | index elements _ =>
      cases he with
      | index _ reached => exact ht ⟨_, _, .index elements reached⟩

/-- A write that does not get past the place where the addresses part commutes with the other one,
whether or not that gets past it. -/
theorem update_comm_of_not_enters (hst : s.Beside t)
    (ht : ¬ ∃ child back, (v.opened s).Enters t child back) (p q : Address)
    (change change' : Json → Json) :
    v.Commutes (·.update change (s :: p)) (·.update change' (t :: q)) := by
  have hopened : v.opened t = v.opened s := (opened_of_beside hst v).symm
  have hsecond : v.update change' (t :: q) = (v.opened s, false) := by
    rw [← hopened] at ht ⊢
    exact update_of_not_enters ht change' q
  have hlast : (v.opened s).update change (s :: p) = v.update change (s :: p) :=
    (update_opened v change s p).symm
  by_cases hs : ∃ child back, (v.opened s).Enters s child back
  · obtain ⟨child, back, hs⟩ := hs
    have hthen := hs.not_enters_beside hst (child.update change p).1 ht
    rw [← hs.opened_back _ t] at hthen
    refine .of_eq (hs.update_eq change p) ?_ hsecond (hlast.trans (hs.update_eq change p))
    exact (update_of_not_enters hthen change' q).trans (congrArg (·, false) (hs.opened_back _ t))
  · have hfirst : v.update change (s :: p) = (v.opened s, false) :=
      update_of_not_enters hs change p
    have hthen : (v.opened s).update change' (t :: q) = (v.opened s, false) := by
      rw [← hsecond, ← hopened]
      exact (update_opened v change' t q).symm
    exact .of_eq hfirst hthen hsecond (hlast.trans hfirst)

theorem update_comm_beside (hst : s.Beside t) (p q : Address) (change change' : Json → Json)
    (v : Json) : v.Commutes (·.update change (s :: p)) (·.update change' (t :: q)) := by
  have hopened : v.opened s = v.opened t := opened_of_beside hst v
  by_cases ht : ∃ child back, (v.opened s).Enters t child back
  · by_cases hs : ∃ child back, (v.opened s).Enters s child back
    · obtain ⟨child, back, hs⟩ := hs
      obtain ⟨child', back', ht⟩ := ht
      obtain ⟨after, after', hother, hsame, hboth⟩ :=
        hs.beside hst ht (child.update change p).1 (child'.update change' q).1
      rw [← hs.opened_back _ t] at hother
      rw [← ht.opened_back _ s] at hsame
      rw [hopened] at ht
      refine .of_eq (hs.update_eq change p) (hother.update_eq change' q)
        (ht.update_eq change' q) ?_
      exact (hsame.update_eq change p).trans (congrArg (·, _) hboth.symm)
    · rw [hopened] at hs
      exact (update_comm_of_not_enters hst.symm hs q p change' change).symm
  · exact update_comm_of_not_enters hst ht p q change change'

end Beside

/-! ## Below shared steps -/

/-- Changes at addresses that part at steps beside each other commute. The induction is on the steps
that they share. -/
theorem update_comm {common : Address} (hcommon : Step.append ∉ common) {s t : Step}
    (hst : s.Beside t) (p q : Address) (change change' : Json → Json) (v : Json) :
    v.Commutes (·.update change (common ++ s :: p)) (·.update change' (common ++ t :: q)) := by
  induction common generalizing v with
  | nil => exact update_comm_beside hst p q change change' v
  | cons step rest ih =>
    obtain ⟨hstep, hrest⟩ := not_or.mp (mt List.mem_cons.mpr hcommon)
    by_cases he : ∃ child back, (v.opened step).Enters step child back
    · obtain ⟨child, back, he⟩ := he
      have hbelow := ih hrest child
      have hagain := he.again (Ne.symm hstep)
      have hfirst := he.update_eq change (rest ++ s :: p)
      have hsecond := he.update_eq change' (rest ++ t :: q)
      have hthen := (hagain (child.update change (rest ++ s :: p)).1).update_eq change'
        (rest ++ t :: q)
      have hlast := (hagain (child.update change' (rest ++ t :: q)).1).update_eq change
        (rest ++ s :: p)
      simp only [List.cons_append]
      constructor
      · rw [hfirst, hsecond, hthen, hlast]
        exact congrArg back hbelow.document
      · rw [hsecond, hfirst, hlast]
        exact hbelow.first
      · rw [hfirst, hsecond, hthen]
        exact hbelow.second
    · have hstay (f : Json → Json) (rest : Address) :
          (v.opened step).update f (step :: rest) = (v.opened step, false) :=
        (update_opened v f step rest).symm.trans (update_of_not_enters he f rest)
      exact .of_eq (update_of_not_enters he change _) (hstay change' _)
        (update_of_not_enters he change' _) (hstay change _)

/-- **Writes that do not meet commute.** Two merges, or two settings, at addresses that part at
different keys or at different indices leave the same document in either order, and each of them
succeeds or fails no matter which is first. No append may come before the place where they part. -/
theorem writes_commute {common : Address} (hcommon : Step.append ∉ common) {s t : Step}
    (hst : s.Beside t) (p q : Address) (value other v : Json) :
    v.Commutes (·.writeMerged (common ++ s :: p) value)
        (·.writeMerged (common ++ t :: q) other) ∧
      v.Commutes (·.set (common ++ s :: p) value) (·.set (common ++ t :: q) other) :=
  ⟨update_comm hcommon hst p q (merged value) (merged other) v,
    update_comm hcommon hst p q (fun _ => value) (fun _ => other) v⟩

/-- Two elements of a list below a null, the second of them before the first. -/
theorem writes_commute_padded :
    let v : Json := .obj [("a", .null)]
    Step.append ∉ [Step.key "a"] ∧ (Step.index 2).Beside (.index 0) ∧
      v.Commutes (·.writeMerged [.key "a", .index 2] (.bool true))
        (·.writeMerged [.key "a", .index 0, .key "b"] (.bool false)) ∧
      v.Commutes (·.set [.key "a", .index 2] (.bool true))
        (·.set [.key "a", .index 0, .key "b"] (.bool false)) ∧
      ((v.set [.key "a", .index 2] (.bool true)).1.set [.key "a", .index 0, .key "b"]
          (.bool false)).1 =
        .obj [("a", .arr [.obj [("b", .bool false)], .null, .bool true])] := by
  intro v
  have hcommon : Step.append ∉ [Step.key "a"] := by decide
  have hst : (Step.index 2).Beside (.index 0) := .index (by decide)
  obtain ⟨hmerged, hset⟩ := writes_commute hcommon hst [] [.key "b"] (.bool true) (.bool false) v
  exact ⟨hcommon, hst, hmerged, hset, rfl⟩

end Json
end Reshape
