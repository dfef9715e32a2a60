import Reshape.Proofs.Edit.Replace
/-!
# Reading what was written

A write goes through one step after another, opening null to the container that a step needs. What
it writes is read at its address, and what is read at an address apart from it is what was read
there before, except for nulls that a list is padded with. A write that fails changes nothing,
unless an index of its address is past the greatest one.
-/
namespace Reshape

/-- A list is padded with an element at the second address for a write at the first one. -/
def Address.Pads (written read : Address) : Prop :=
  ∃ above position i rest,
    written = above ++ .index position :: rest ∧ read = above ++ [.index i] ∧ i < position

namespace Json

/-! ## One step of a write -/

/-- The value that a write of the step goes into: null gives way to a container. -/
def opened (v : Json) (step : Step) : Json := if v.isNull then step.emptyContainer else v

/-- A write goes through the step into a child, and the child is put back as the function says. -/
inductive Enters : Json → Step → Json → (Json → Json) → Prop
  | key (fields : List (String × Json)) (name : String) :
    Enters (.obj fields) (.key name) ((fields.lookup name).getD .null)
      fun child => .obj (Fields.insert name child fields)
  | index (elements : List Json) {position : Nat} (reached : position ≤ Address.maxIndex) :
    Enters (.arr elements) (.index position) (elements[position]?.getD .null)
      fun child => .arr ((padTo position elements).set position child)
  | append (elements : List Json) :
    Enters (.arr elements) .append .null fun child => .arr (elements ++ [child])

section Step

variable {v w child : Json} {step other : Step} {back : Json → Json} {change : Json → Json}

theorem eq_null_of_isNull (h : v.isNull = true) : v = .null := by
  cases v with
  | null => rfl
  | _ => cases h

@[simp] theorem opened_null (step : Step) : Json.null.opened step = step.emptyContainer := rfl

theorem opened_of_not_null (h : v.isNull = false) (step : Step) : v.opened step = v :=
  if_neg (Bool.eq_false_iff.mp h)

@[simp] theorem child?_empty (step other : Step) : step.emptyContainer.child? other = none := by
  cases step with
  | key _ => cases other <;> rfl
  | index _ | append =>
    cases other with
    | key name => exact Option.bind_eq_none_iff.mpr fun _ _ => rfl
    | index _ | append => rfl

/-- Opening null makes nothing that could be read. -/
@[simp] theorem child?_opened (v : Json) (step other : Step) :
    (v.opened step).child? other = v.child? other := by
  cases v with
  | null =>
    rw [opened_null, child?_empty]
    rfl
  | _ => rfl

/-- A write of the step goes into what is opened for it. -/
theorem update_opened (v : Json) (change : Json → Json) (step : Step) (rest : Address) :
    v.update change (step :: rest) = (v.opened step).update change (step :: rest) := by
  cases v with
  | null => cases step <;> rfl
  | _ => rfl

/-- A write goes on with the child that it enters. -/
theorem Enters.update_eq (h : (v.opened step).Enters step child back) (change : Json → Json)
    (rest : Address) :
    v.update change (step :: rest) =
      (back (child.update change rest).1, (child.update change rest).2) := by
  rw [update_opened]
  generalize v.opened step = w at h
  cases h with
  | key fields name => rfl
  | @index elements position reached =>
    have hchild :
        (padTo position elements).getD position .null = elements[position]?.getD .null := by
      rw [List.getD_eq_getElem?_getD, padTo_getD]
    rw [← hchild]
    exact if_pos reached
  | append elements => rfl

/-- A write that cannot go through a step leaves the container that it has opened. -/
theorem update_of_not_enters (h : ¬ ∃ child back, (v.opened step).Enters step child back)
    (change : Json → Json) (rest : Address) :
    v.update change (step :: rest) = (v.opened step, false) := by
  have hopened : (v.opened step).isNull = false := by cases v <;> cases step <;> rfl
  rw [update_opened]
  generalize v.opened step = w at h hopened
  cases w with
  | null => cases hopened
  | obj fields =>
    cases step with
    | key name => exact absurd ⟨_, _, .key fields name⟩ h
    | index _ | append => rfl
  | arr elements =>
    cases step with
    | key _ => rfl
    | index position => exact if_neg fun reached => h ⟨_, _, .index elements reached⟩
    | append => exact absurd ⟨_, _, .append elements⟩ h
  | _ => cases step <;> rfl

/-- The child that is entered is the one that is read, null if there is none. -/
theorem Enters.child_eq (h : (v.opened step).Enters step child back) :
    child = (v.child? step).getD .null := by
  rw [← child?_opened v step step]
  generalize v.opened step = w at h
  cases h <;> rfl

theorem Enters.child?_back (h : w.Enters step child back) (hs : step ≠ .append) (new : Json) :
    (back new).child? step = some new := by
  cases h with
  | key fields name => exact Fields.lookup_insert_self name new fields
  | index elements reached => exact List.getElem?_set_self (lt_padTo_length _ elements)
  | append elements => exact absurd rfl hs

/-- A write of one step leaves the other children as they are, or pads a list before the step. -/
theorem Enters.child?_back_of_ne (h : w.Enters step child back) (hs : step ≠ .append)
    (hne : other ≠ step) (new : Json)
    (hfit : ∀ elements name, back new = .arr elements → other ≠ .key name) :
    (back new).child? other = w.child? other ∨
      ∃ position i, step = .index position ∧ other = .index i ∧ i < position ∧
        w.child? other = none ∧ (back new).child? other = some .null := by
  cases h with
  | key fields name =>
    left
    cases other with
    | key key =>
      have hkey : key ≠ name := fun he => hne (congrArg Step.key he)
      exact Fields.lookup_insert_of_ne hkey new fields
    | index _ | append => rfl
  | @index elements position reached =>
    cases other with
    | key name => exact absurd rfl (hfit _ name rfl)
    | append => exact .inl rfl
    | index i =>
      have hi : position ≠ i := fun he => hne (congrArg Step.index he).symm
      have hset :
          ((padTo position elements).set position new)[i]? = (padTo position elements)[i]? :=
        List.getElem?_set_ne hi
      by_cases hold : i < elements.length
      · exact .inl (hset.trans (padTo_getElem? hold position))
      · have hnone : elements[i]? = none := List.getElem?_eq_none (Nat.le_of_not_lt hold)
        by_cases hlt : i < position
        · refine .inr ⟨position, i, rfl, rfl, hlt, hnone, hset.trans ?_⟩
          rw [padTo, List.getElem?_append_right (Nat.le_of_not_lt hold),
            List.getElem?_replicate, if_pos (by omega)]
        · refine .inl (hset.trans (Eq.trans ?_ hnone.symm))
          refine List.getElem?_eq_none ?_
          rw [padTo, List.length_append, List.length_replicate]
          omega
  | append elements => exact absurd rfl hs

end Step

/-! ## Reading after a write -/

/-- The address applies no key to a list of the document. -/
def KeysFit (v : Json) (address : Address) : Prop :=
  ∀ above name below elements, address = above ++ .key name :: below →
    v.get? above ≠ some (.arr elements)

section Read

variable {v w : Json} {step : Step} {p q rest : Address} {change : Json → Json}

theorem KeysFit.child (h : v.KeysFit (step :: rest)) (hc : v.child? step = some w) :
    w.KeysFit rest := by
  rintro above name below elements rfl hget
  refine h (step :: above) name below elements rfl ?_
  rw [get?, hc]
  exact hget

/-- What is read below a step is what is read in the child, or in null if there is none. -/
theorem getD_get?_cons (v : Json) (step : Step) (rest : Address) :
    (v.get? (step :: rest)).getD .null = (((v.child? step).getD .null).get? rest).getD .null := by
  rw [get?]
  cases v.child? step with
  | some child => rfl
  | none => cases rest <;> rfl

/-- A write that reaches its address changes what is read there. -/
theorem get?_update (hp : Step.append ∉ p) (h : (v.update change p).2 = true) :
    (v.update change p).1.get? p = some (change ((v.get? p).getD .null)) := by
  induction p generalizing v with
  | nil => rfl
  | cons step rest ih =>
    obtain ⟨hstep, hrest⟩ := not_or.mp (mt List.mem_cons.mpr hp)
    by_cases he : ∃ child back, (v.opened step).Enters step child back
    · obtain ⟨child, back, he⟩ := he
      rw [he.update_eq] at h ⊢
      rw [get?, he.child?_back (Ne.symm hstep), Option.bind_some, ih hrest h, getD_get?_cons,
        ← he.child_eq]
    · rw [update_of_not_enters he] at h
      cases h

theorem get?_cons_of_ne_nil (hr : rest ≠ []) (v : Json) (step : Step) :
    v.get? (step :: rest) = ((v.child? step).getD .null).get? rest := by
  rw [get?]
  cases v.child? step with
  | some child => rfl
  | none =>
    cases rest with
    | nil => exact absurd rfl hr
    | cons _ _ => rfl

/-- What the writing of one step does to another one, it does to the addresses below. -/
theorem Enters.get?_of_ne {child : Json} {back : Json → Json} {other : Step} {below : Address}
    (h : (v.opened step).Enters step child back) (hs : step ≠ .append) (hne : other ≠ step)
    (new : Json) (hfit : (back new).KeysFit (other :: below)) :
    (back new).get? (other :: below) = v.get? (other :: below) ∨
      Address.Pads (step :: rest) (other :: below) ∧ v.get? (other :: below) = none ∧
        (back new).get? (other :: below) = some .null := by
  have hkey : ∀ elements name, back new = .arr elements → other ≠ .key name := by
    rintro elements name hlist rfl
    exact hfit [] name below elements rfl (congrArg some hlist)
  rcases h.child?_back_of_ne hs hne new hkey with hsame | ⟨position, i, rfl, rfl, hlt, hnone, hnull⟩
  · rw [child?_opened] at hsame
    rw [get?, hsame]
    exact .inl rfl
  · rw [child?_opened] at hnone
    rw [get?, get?, hnull, hnone]
    cases below with
    | nil => exact .inr ⟨⟨[], position, i, rest, rfl, rfl, hlt⟩, rfl, rfl⟩
    | cons _ _ => exact .inl rfl

/-- A write does not change what is read at an address apart from its own, unless it is null in a
padded list. -/
theorem get?_update_apart (hp : Step.append ∉ p) (hpq : Address.Apart p q)
    (hfit : (v.update change p).1.KeysFit q) :
    (v.update change p).1.get? q = v.get? q ∨
      Address.Pads p q ∧ v.get? q = none ∧ (v.update change p).1.get? q = some .null := by
  induction p generalizing v q with
  | nil => exact absurd List.nil_prefix hpq.1
  | cons step rest ih =>
    obtain ⟨hstep, hrest⟩ := not_or.mp (mt List.mem_cons.mpr hp)
    cases q with
    | nil => exact absurd List.nil_prefix hpq.2
    | cons other below =>
      by_cases he : ∃ child back, (v.opened step).Enters step child back
      · obtain ⟨child, back, he⟩ := he
        rw [he.update_eq] at hfit ⊢
        by_cases hother : other = step
        · -- Both addresses go through the child that is entered.
          subst hother
          have hapart : Address.Apart rest below :=
            ⟨mt (List.prefix_cons_inj other).mpr hpq.1, mt (List.prefix_cons_inj other).mpr hpq.2⟩
          have hbelow : below ≠ [] := fun hnil => hapart.2 (hnil ▸ List.nil_prefix)
          have hmember := he.child?_back (Ne.symm hstep) (child.update change rest).1
          have hread := ih hrest hapart (hfit.child hmember)
          rw [get?_cons_of_ne_nil hbelow, hmember, get?_cons_of_ne_nil hbelow,
            ← he.child_eq]
          refine hread.imp_right fun ⟨hpads, hnone, hnull⟩ => ⟨?_, hnone, hnull⟩
          obtain ⟨above, position, i, more, hwritten, hpadded, hlt⟩ := hpads
          exact ⟨other :: above, position, i, more, congrArg _ hwritten, congrArg _ hpadded, hlt⟩
        · exact he.get?_of_ne (Ne.symm hstep) hother _ hfit
      · rw [update_of_not_enters he, get?, child?_opened]
        exact .inl rfl

end Read

/-! ## Merging -/

theorem merged_of_not_arr {old : Json} (h : old ≠ .null) (harr : ∀ elements, old ≠ .arr elements)
    (value : Json) : merged value old = .arr [old, value] := by
  cases old with
  | null => exact absurd rfl h
  | arr elements => exact absurd rfl (harr elements)
  | _ => rfl

/-- **What merging writes.** A merge that reaches an address without an append puts the value where
there was nothing or null, adds it to a list, and makes a list of it and any other value. What is
read at an address apart from that one stays, but for the nulls that a list is padded with. -/
theorem get?_writeMerged {v : Json} {p : Address} (hp : Step.append ∉ p) {value : Json}
    (h : (v.writeMerged p value).2 = true) :
    (v.Vacant p → (v.writeMerged p value).1.get? p = some value) ∧
      (∀ elements, v.get? p = some (.arr elements) →
        (v.writeMerged p value).1.get? p = some (.arr (elements ++ [value]))) ∧
      (∀ old, v.get? p = some old → old ≠ .null → (∀ elements, old ≠ .arr elements) →
        (v.writeMerged p value).1.get? p = some (.arr [old, value])) ∧
      ∀ q, Address.Apart p q → (v.writeMerged p value).1.KeysFit q →
        (v.writeMerged p value).1.get? q = v.get? q ∨
          Address.Pads p q ∧ v.get? q = none ∧
            (v.writeMerged p value).1.get? q = some .null := by
  have hread : (v.writeMerged p value).1.get? p = some (merged value ((v.get? p).getD .null)) :=
    get?_update hp h
  refine ⟨?_, ?_, ?_, fun q hpq hfit => get?_update_apart hp hpq hfit⟩
  · intro hvacant
    rcases hvacant with hnone | hnull
    · rw [hread, hnone]
      rfl
    · rw [hread, hnull]
      rfl
  · intro elements helements
    rw [hread, helements]
    rfl
  · intro old hold hnull harr
    rw [hread, hold, Option.getD_some, merged_of_not_arr hnull harr]

/-- A value merged into an element of a list that ends before it, below a key. -/
theorem get?_writeMerged_padded :
    let v : Json := .obj [("a", .arr [.bool true]), ("b", .null)]
    let p : Address := [.key "a", .index 2]
    Step.append ∉ p ∧ (v.writeMerged p (.bool false)).2 = true ∧ v.Vacant p ∧
      (v.writeMerged p (.bool false)).1.get? p = some (.bool false) ∧
      Address.Apart p [.key "a", .index 1] ∧
      (v.writeMerged p (.bool false)).1.get? [.key "a", .index 1] = some .null := by
  intro v p
  have hp : Step.append ∉ p := by decide
  have hdone : (v.writeMerged p (.bool false)).2 = true := by decide
  have hvacant : v.Vacant p := .inl rfl
  obtain ⟨hvalue, -, -, -⟩ := get?_writeMerged hp hdone
  exact ⟨hp, hdone, hvacant, hvalue hvacant, by decide, rfl⟩

end Json
end Reshape
