import Reshape.Proofs.Edit.Update
/-!
# Writes that fail

A write fails where a step does not fit the container that is there, and then the document is as it
was: whatever is opened on the way is null, and below null every step fits. Only an index past the
greatest one fails below null as well, and what was opened above it stays.
-/
namespace Reshape.Json

/-- What an index past the greatest one leaves where it is refused: null has become a list. -/
def listed : Json → Json
  | .null => .arr []
  | v => v

section Step

variable {v child : Json} {step : Step} {back : Json → Json}

theorem listed_of_ne_null (h : v ≠ .null) : v.listed = v := by
  cases v with
  | null => exact absurd rfl h
  | _ => rfl

@[simp]
theorem opened_index (v : Json) (position : Nat) : v.opened (.index position) = v.listed := by
  cases v <;> rfl

/-- Below null every step fits, unless it is an index past the greatest one. -/
theorem exists_enters_null (h : step.inReach = true) :
    ∃ back, (Json.null.opened step).Enters step .null back := by
  cases step with
  | key name => exact ⟨_, .key [] name⟩
  | index position => exact ⟨_, .index [] (of_decide_eq_true h)⟩
  | append => exact ⟨_, .append []⟩

/-- Putting back the child that is there changes nothing. -/
theorem Enters.back_child (hv : v.WellFormed) (hc : v.child? step = some child)
    (h : (v.opened step).Enters step child back) : back child = v := by
  have hnull : v.isNull = false := by
    cases v with
    | null => cases hc
    | _ => rfl
  rw [opened_of_not_null hnull] at h
  cases h with
  | key fields name => exact congrArg Json.obj (Fields.insert_of_lookup hv.sorted hc)
  | @index elements position reached =>
    obtain ⟨hlt, hget⟩ := List.getElem?_eq_some_iff.mp hc
    rw [padTo_eq_self hlt, ← hget]
    exact congrArg Json.arr (List.set_getElem_self hlt)
  | append elements => cases hc

/-- No write goes through an index past the greatest one. -/
theorem not_enters_beyond {position : Nat} (h : Address.maxIndex < position) (v : Json) :
    ¬ ∃ child back, (v.opened (.index position)).Enters (.index position) child back := by
  rintro ⟨child, back, he⟩
  generalize v.opened (.index position) = w at he
  cases he with
  | index elements reached => exact absurd reached (Nat.not_le.mpr h)

end Step

/-! ## What a failed write leaves -/

section Failed

variable {v : Json} {p : Address} {change other : Json → Json}

/-- A write into null reaches its address. -/
theorem update_null (h : p.inReach = true) (change : Json → Json) :
    (Json.null.update change p).2 = true := by
  induction p with
  | nil => rfl
  | cons step rest ih =>
    obtain ⟨hstep, hrest⟩ := Bool.and_eq_true_iff.mp h
    obtain ⟨back, he⟩ := exists_enters_null hstep
    rw [he.update_eq]
    exact ih hrest

/-- A write without an index past the greatest one changes nothing if it fails. -/
theorem update_eq_self_of_failed (hv : v.WellFormed) (hp : p.inReach = true)
    (h : (v.update change p).2 = false) : (v.update change p).1 = v := by
  induction p generalizing v with
  | nil => cases h
  | cons step rest ih =>
    obtain ⟨hstep, hrest⟩ := Bool.and_eq_true_iff.mp hp
    by_cases he : ∃ child back, (v.opened step).Enters step child back
    · obtain ⟨child, back, he⟩ := he
      have hchild := he.child_eq
      rw [he.update_eq] at h ⊢
      cases hc : v.child? step with
      | none =>
        -- Nothing below a child that is opened can fail.
        rw [hc] at hchild
        rw [hchild, Option.getD_none, update_null hrest change] at h
        cases h
      | some found =>
        obtain rfl : child = found := by rw [hchild, hc, Option.getD_some]
        rw [ih (hv.child? hc) hrest h]
        exact he.back_child hv hc
    · rw [update_of_not_enters he]
      refine opened_of_not_null (Bool.eq_false_iff.mpr fun hnull => ?_) step
      obtain rfl := eq_null_of_isNull hnull
      obtain ⟨back, hn⟩ := exists_enters_null hstep
      exact he ⟨_, back, hn⟩

/-- A write that puts back what is there changes nothing. -/
theorem update_eq_self {old : Json} (hv : v.WellFormed) (hget : v.get? p = some old)
    (hold : change old = old) : (v.update change p).1 = v := by
  induction p generalizing v with
  | nil =>
    obtain rfl := Option.some.inj hget
    exact hold
  | cons step rest ih =>
    obtain ⟨found, hc, hget⟩ := Option.bind_eq_some_iff.mp hget
    by_cases he : ∃ child back, (v.opened step).Enters step child back
    · obtain ⟨child, back, he⟩ := he
      obtain rfl : child = found := by rw [he.child_eq, hc, Option.getD_some]
      rw [he.update_eq, ih (hv.child? hc) hget]
      exact he.back_child hv hc
    · rw [update_of_not_enters he]
      refine opened_of_not_null ?_ step
      cases v with
      | null => cases hc
      | _ => rfl

/-- A write depends only on what its change makes of what is read at its address. -/
theorem update_congr
    (h : change ((v.get? p).getD .null) = other ((v.get? p).getD .null)) :
    v.update change p = v.update other p := by
  induction p generalizing v with
  | nil => exact congrArg (·, true) h
  | cons step rest ih =>
    by_cases he : ∃ child back, (v.opened step).Enters step child back
    · obtain ⟨child, back, he⟩ := he
      rw [getD_get?_cons, ← he.child_eq] at h
      rw [he.update_eq, he.update_eq, ih h]
    · rw [update_of_not_enters he, update_of_not_enters he]

/-- A write through an index past the greatest one fails, and turns null above the index into a
list. The induction is on the address above the index. -/
theorem update_beyond (v : Json) (change : Json → Json) (above : Address) {position : Nat}
    (h : Address.maxIndex < position) (rest : Address) :
    v.update change (above ++ .index position :: rest) = ((v.update listed above).1, false) := by
  induction above generalizing v with
  | nil =>
    rw [List.nil_append, update_of_not_enters (not_enters_beyond h v), opened_index]
    rfl
  | cons step above ih =>
    rw [List.cons_append]
    by_cases he : ∃ child back, (v.opened step).Enters step child back
    · obtain ⟨child, back, he⟩ := he
      rw [he.update_eq, he.update_eq, ih]
    · rw [update_of_not_enters he, update_of_not_enters he]

theorem exists_beyond (h : p.inReach = false) :
    ∃ above position rest, p = above ++ .index position :: rest ∧ Address.maxIndex < position := by
  obtain ⟨step, hm, hstep⟩ := List.all_eq_false.mp h
  obtain ⟨above, rest, rfl⟩ := List.append_of_mem hm
  cases step with
  | index position => exact ⟨above, position, rest, rfl, by simpa [Step.inReach] using hstep⟩
  | key _ | append => exact absurd rfl hstep

/-- What is left of a write through an index past the greatest one: a list in a vacant place above
the index, and otherwise the document as it was. -/
theorem update_beyond_eq (hv : v.WellFormed) (above : Address) {position : Nat}
    (h : Address.maxIndex < position) (rest : Address) :
    (v.Vacant above →
        (v.update change (above ++ .index position :: rest)).1 = (v.set above (.arr [])).1) ∧
      (¬ v.Vacant above → (v.update change (above ++ .index position :: rest)).1 = v) := by
  rw [update_beyond v change above h rest]
  constructor
  · intro hvacant
    have hnull : (v.get? above).getD .null = .null := by
      rcases hvacant with hnone | hnull
      · rw [hnone]
        rfl
      · rw [hnull]
        rfl
    have hsame : v.update listed above = v.update (fun _ => .arr []) above := by
      refine update_congr ?_
      rw [hnull]
      rfl
    rw [hsame]
    rfl
  · intro hvacant
    obtain ⟨hsome, hnull⟩ := not_or.mp hvacant
    obtain ⟨old, hold⟩ := Option.ne_none_iff_exists'.mp hsome
    refine update_eq_self hv hold (listed_of_ne_null fun he => hnull ?_)
    rw [hold, he]

end Failed

/-- **A failed write.** A merge or a setting that fails leaves the document as it was if no index of
its address is past the greatest one. Above such an index a vacant place is left with an empty list
and the containers that lead to it, and if the place is not vacant the document is as it was. In no
case is anything lost. -/
theorem failed_write {v : Json} (hv : v.WellFormed) {p : Address} {value w : Json}
    (h : v.writeMerged p value = (w, false) ∨ v.set p value = (w, false)) :
    (p.inReach = true → w = v) ∧
      (∀ above position rest, p = above ++ .index position :: rest →
        Address.maxIndex < position →
          (v.Vacant above → w = (v.set above (.arr [])).1) ∧ (¬ v.Vacant above → w = v)) ∧
      v.Grows w := by
  obtain ⟨change, hfailed⟩ : ∃ change, v.update change p = (w, false) := by
    rcases h with h | h
    · exact ⟨merged value, h⟩
    · exact ⟨fun _ => value, h⟩
  have hw : (v.update change p).1 = w := congrArg Prod.fst hfailed
  have hnear : p.inReach = true → w = v := by
    intro hp
    rw [← hw]
    exact update_eq_self_of_failed hv hp (congrArg Prod.snd hfailed)
  have hfar : ∀ above position rest, p = above ++ .index position :: rest →
      Address.maxIndex < position →
        (v.Vacant above → w = (v.set above (.arr [])).1) ∧ (¬ v.Vacant above → w = v) := by
    rintro above position rest rfl hposition
    rw [← hw]
    exact update_beyond_eq hv above hposition rest
  refine ⟨hnear, hfar, ?_⟩
  cases hp : p.inReach with
  | true =>
    rw [hnear hp]
    exact .refl v
  | false =>
    obtain ⟨above, position, rest, he, hposition⟩ := exists_beyond hp
    obtain ⟨hvacant, hheld⟩ := hfar above position rest he hposition
    by_cases habove : v.Vacant above
    · rw [hvacant habove]
      exact (Grows.refl v).set habove (.arr [])
    · rw [hheld habove]
      exact .refl v

/-- A key of a list cannot be written, and the nulls beside the list are not opened. -/
theorem failed_write_key :
    let v : Json := .obj [("a", .null), ("b", .arr [.null])]
    let p : Address := [.key "b", .key "c", .append]
    v.WellFormed ∧ v.writeMerged p (.bool true) = (v, false) ∧ p.inReach = true ∧
      v.set p (.bool true) = (v, false) := by
  intro v p
  have hv : v.WellFormed := ⟨by decide, trivial, ⟨trivial, trivial⟩, trivial⟩
  have hmerged : v.writeMerged p (.bool true) = ((v.writeMerged p (.bool true)).1, false) := rfl
  have hset : v.set p (.bool true) = ((v.set p (.bool true)).1, false) := rfl
  obtain ⟨hm, -, -⟩ := failed_write hv (.inl hmerged)
  obtain ⟨hs, -, -⟩ := failed_write hv (.inr hset)
  rw [hm rfl] at hmerged
  rw [hs rfl] at hset
  exact ⟨hv, hmerged, rfl, hset⟩

/-- The list that was opened for an index past the greatest one stays. -/
theorem failed_write_opens :
    (Json.obj []).writeMerged [.key "a", .index 1000001] (.bool true) =
        (.obj [("a", .arr [])], false) ∧
      (Json.obj []).set [.key "a", .index 1000001] (.bool true) =
        (.obj [("a", .arr [])], false) ∧
      Json.obj [("a", .arr [])] ≠ .obj [] := by
  refine ⟨rfl, rfl, fun h => ?_⟩
  cases h

end Reshape.Json
