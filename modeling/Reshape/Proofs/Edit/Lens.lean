import Reshape.Proofs.Edit.Failed
/-!
# Places in a document

Reading, setting and removing agree on what a place is. A value that was set is read again, a
second one takes its place, and setting what is there changes nothing. What can be removed is what
keys of objects and indices of lists locate, and a field that was removed can be set again.
-/
namespace Reshape.Json

section Step

variable {v w child : Json} {step : Step} {back : Json → Json}

/-- After a write of one step, the step leads to what was written, and goes back the same way. -/
theorem Enters.again (h : w.Enters step child back) (hs : step ≠ .append) (new : Json) :
    ((back new).opened step).Enters step new back := by
  cases h with
  | key fields name =>
    have henters := Enters.key (Fields.insert name new fields) name
    simp only [Fields.lookup_insert_self, Option.getD_some, Fields.insert_insert] at henters
    exact henters
  | @index elements position reached =>
    have hlt := lt_padTo_length position elements
    have hset : position < ((padTo position elements).set position new).length := by
      rw [List.length_set]
      exact hlt
    have henters := Enters.index ((padTo position elements).set position new) reached
    simp only [List.getElem?_set_self hlt, Option.getD_some, padTo_eq_self hset, List.set_set]
      at henters
    exact henters
  | append elements => exact absurd rfl hs

/-- A child that is there, and its container with another value in its place. -/
inductive Holds : Json → Step → Json → (Json → Json) → Prop
  | key {fields : List (String × Json)} {name : String} {child : Json}
    (found : fields.lookup name = some child) :
    Holds (.obj fields) (.key name) child fun new => .obj (Fields.insert name new fields)
  | index {elements : List Json} {position : Nat} {child : Json}
    (found : elements[position]? = some child) :
    Holds (.arr elements) (.index position) child fun new => .arr (elements.set position new)

theorem exists_holds (h : v.member? step = some child) : ∃ back, v.Holds step child back := by
  cases v with
  | obj fields =>
    cases step with
    | key name => exact ⟨_, .key h⟩
    | index _ | append => cases h
  | arr elements =>
    cases step with
    | index position => exact ⟨_, .index h⟩
    | key _ | append => cases h
  | _ => cases h

/-- A write goes through a step in reach into the child that is there. -/
theorem Holds.enters (h : v.Holds step child back) (hs : step.inReach = true) :
    (v.opened step).Enters step child back := by
  cases h with
  | @key fields name child found =>
    have henters := Enters.key fields name
    rw [found] at henters
    exact henters
  | @index elements position child found =>
    have henters := Enters.index elements (of_decide_eq_true hs)
    have hlt : position < elements.length := (List.getElem?_eq_some_iff.mp found).1
    rw [found, padTo_eq_self hlt] at henters
    exact henters

/-- What is removed below a child is taken out of the child, and the rest of it is put back. -/
theorem Holds.remove?_cons (h : v.Holds step child back) {rest : Address} (hr : rest ≠ []) :
    v.remove? (step :: rest) =
      (child.remove? rest).map fun (found, left) => (found, back left) := by
  obtain ⟨next, rest, rfl⟩ := List.exists_cons_of_ne_nil hr
  cases h with
  | key found =>
    rw [remove?, found]
    · exact Option.map_eq_bind.symm
    · exact fun he => hr he
  | index found =>
    rw [remove?, found]
    · exact Option.map_eq_bind.symm
    · exact fun he => hr he

theorem Holds.exists_remove? (h : v.Holds step child back) :
    ∃ left, v.remove? [step] = some (child, left) := by
  cases h with
  | key found => exact ⟨_, congrArg (Option.map _) found⟩
  | index found => exact ⟨_, congrArg (Option.map _) found⟩

/-- Nothing is removed through a step that no child is at. -/
theorem remove?_eq_none (h : v.member? step = none) (rest : Address) :
    v.remove? (step :: rest) = none := by
  cases v with
  | obj fields =>
    cases step with
    | key name =>
      have hlookup : fields.lookup name = none := h
      cases rest <;> simp [remove?, hlookup]
    | index _ | append => rfl
  | arr elements =>
    cases step with
    | index position =>
      have hget : elements[position]? = none := h
      cases rest <;> simp [remove?, hget]
    | key _ | append => rfl
  | _ => rfl

end Step

section Update

variable {v : Json} {p : Address}

/-- **Two changes at one address are one change.** This holds as well where the address is not
reached: the second write stops where the first one does. -/
theorem update_update (hp : Step.append ∉ p) (v : Json) (change next : Json → Json) :
    (v.update change p).1.update next p = v.update (next ∘ change) p := by
  induction p generalizing v with
  | nil => rfl
  | cons step rest ih =>
    obtain ⟨hstep, hrest⟩ := not_or.mp (mt List.mem_cons.mpr hp)
    by_cases he : ∃ child back, (v.opened step).Enters step child back
    · obtain ⟨child, back, he⟩ := he
      have hagain := he.again (Ne.symm hstep) (child.update change rest).1
      rw [he.update_eq, he.update_eq, hagain.update_eq, ih hrest]
    · rw [update_of_not_enters he, ← update_opened, update_of_not_enters he,
        update_of_not_enters he]

/-- A write in reach arrives at a place that is there. -/
theorem update_of_locate? {found : Json} (hp : p.inReach = true)
    (h : v.locate? p = some found) (change : Json → Json) : (v.update change p).2 = true := by
  induction p generalizing v with
  | nil => rfl
  | cons step rest ih =>
    obtain ⟨hstep, hrest⟩ := Bool.and_eq_true_iff.mp hp
    obtain ⟨child, hc, h⟩ := Option.bind_eq_some_iff.mp h
    obtain ⟨back, hholds⟩ := exists_holds hc
    rw [(hholds.enters hstep).update_eq]
    exact ih hrest h

/-- Setting what is there reaches its place and changes nothing. -/
theorem set_self {found : Json} (hv : v.WellFormed) (hp : p.inReach = true)
    (h : v.locate? p = some found) : v.set p found = (v, true) :=
  Prod.ext (update_eq_self hv (get?_of_locate? h) rfl) (update_of_locate? hp h _)

/-! ## Removing -/

/-- **What can be removed** is what an address locates that has a step. -/
theorem exists_remove?_iff {found : Json} :
    (∃ left, v.remove? p = some (found, left)) ↔ p ≠ [] ∧ v.locate? p = some found := by
  induction p generalizing v with
  | nil =>
    refine iff_of_false ?_ fun h => h.1 rfl
    rintro ⟨left, h⟩
    cases v <;> cases h
  | cons step rest ih =>
    have hne : step :: rest ≠ [] := List.cons_ne_nil step rest
    cases hc : v.member? step with
    | none =>
      rw [remove?_eq_none hc, locate?, hc]
      refine iff_of_false ?_ ?_
      · rintro ⟨left, h⟩
        cases h
      · rintro ⟨-, h⟩
        cases h
    | some child =>
      obtain ⟨back, hholds⟩ := exists_holds hc
      rw [locate?, hc, Option.bind_some]
      by_cases hr : rest = []
      · subst hr
        obtain ⟨left, hremoved⟩ := hholds.exists_remove?
        rw [hremoved]
        constructor
        · rintro ⟨left, h⟩
          obtain ⟨rfl, -⟩ := Prod.mk.inj (Option.some.inj h)
          exact ⟨hne, rfl⟩
        · rintro ⟨-, h⟩
          obtain rfl := Option.some.inj h
          exact ⟨left, rfl⟩
      · rw [hholds.remove?_cons hr]
        constructor
        · rintro ⟨left, h⟩
          obtain ⟨⟨taken, below⟩, hbelow, h⟩ := Option.map_eq_some_iff.mp h
          obtain ⟨rfl, -⟩ := Prod.mk.inj h
          exact ⟨hne, (ih.mp ⟨below, hbelow⟩).2⟩
        · rintro ⟨-, h⟩
          obtain ⟨below, hbelow⟩ := ih.mpr ⟨hr, h⟩
          exact ⟨back below, by rw [hbelow]; rfl⟩

/-- A field that was removed is put back by setting it. -/
theorem set_removed {above : Address} {name : String} {found left : Json} (hv : v.WellFormed)
    (hp : Address.inReach above = true)
    (h : v.remove? (above ++ [.key name]) = some (found, left)) :
    left.set (above ++ [.key name]) found = (v, true) := by
  induction above generalizing v left with
  | nil =>
    cases v with
    | obj fields =>
      obtain ⟨child, hlookup, he⟩ := Option.map_eq_some_iff.mp h
      obtain ⟨rfl, rfl⟩ := Prod.mk.inj he
      exact Prod.ext (congrArg Json.obj (Fields.insert_erase hv.sorted hlookup)) rfl
    | _ => cases h
  | cons step above ih =>
    obtain ⟨hstep, habove⟩ := Bool.and_eq_true_iff.mp hp
    have hne : above ++ [Step.key name] ≠ [] := List.append_ne_nil_of_right_ne_nil above nofun
    have hs : step ≠ .append := by
      rintro rfl
      cases v <;> cases h
    cases hc : v.member? step with
    | none =>
      rw [List.cons_append, remove?_eq_none hc] at h
      cases h
    | some child =>
      obtain ⟨back, hholds⟩ := exists_holds hc
      rw [List.cons_append, hholds.remove?_cons hne] at h
      obtain ⟨⟨taken, below⟩, hbelow, he⟩ := Option.map_eq_some_iff.mp h
      obtain ⟨rfl, rfl⟩ := Prod.mk.inj he
      have henters := hholds.enters hstep
      have hset : below.set (above ++ [.key name]) taken = (child, true) :=
        ih (hv.child? (child?_of_member? hc)) habove hbelow
      rw [List.cons_append, set, (henters.again hs below).update_eq, ← set, hset,
        henters.back_child hv (child?_of_member? hc)]

end Update

/-! ## The laws together -/

/-- What reading, setting and removing at one address of a document have to do with each other. -/
structure Lawful (v : Json) (p : Address) : Prop where
  /-- A value that was set is read. -/
  get_set : ∀ value, (v.set p value).2 = true → (v.set p value).1.get? p = some value
  /-- The second of two values that are set is what one setting of it leaves. -/
  set_set : ∀ value other, (v.set p value).2 = true →
    (v.set p value).1.set p other = v.set p other
  /-- Setting the value that is there reaches it and changes nothing. -/
  set_get : ∀ value, v.locate? p = some value → v.set p value = (v, true)
  /-- Exactly the values that are there can be removed, but for the whole document. -/
  remove_iff : ∀ value, (∃ left, v.remove? p = some (value, left)) ↔
    p ≠ [] ∧ v.locate? p = some value
  /-- Where nothing can be removed the document stays. -/
  remove_none : (p = [] ∨ v.locate? p = none) → v.remove? p = none ∧ v.remove p = v
  /-- A field that was removed is set again. -/
  set_remove : ∀ above name value, p = above ++ [.key name] → v.locate? p = some value →
    (v.remove p).set p value = (v, true)

/-- **Reading, setting and removing agree.** At every address without appends whose indices are in
reach, a value that was set is read and replaced as if it had not been set, setting what is there
changes nothing, and what is there is what can be removed, a field so that setting it restores the
document. -/
theorem accessors_lawful {v : Json} (hv : v.WellFormed) {p : Address} (happend : Step.append ∉ p)
    (hreach : p.inReach = true) : v.Lawful p := by
  have hnone : (p = [] ∨ v.locate? p = none) → v.remove? p = none := by
    intro h
    refine Option.eq_none_iff_forall_ne_some.mpr fun (value, left) hremoved => ?_
    obtain ⟨hne, hlocate⟩ := exists_remove?_iff.mp ⟨left, hremoved⟩
    rcases h with h | h
    · exact hne h
    · rw [h] at hlocate
      cases hlocate
  refine ⟨fun value h => get?_update happend h, fun value other _ => ?_,
    fun value h => set_self hv hreach h, fun value => exists_remove?_iff, fun h => ?_, ?_⟩
  · exact update_update happend v _ _
  · refine ⟨hnone h, ?_⟩
    rw [remove, hnone h]
  · rintro above name value rfl hlocate
    have habove : Address.inReach above = true := by
      rw [Address.inReach, List.all_append] at hreach
      exact (Bool.and_eq_true_iff.mp hreach).1
    obtain ⟨left, hremoved⟩ := exists_remove?_iff.mpr
      ⟨List.append_ne_nil_of_right_ne_nil above (List.cons_ne_nil _ _), hlocate⟩
    rw [remove, hremoved]
    exact set_removed hv habove hremoved

/-- A field of an element, taken out and set again. -/
theorem accessors_lawful_field :
    let v : Json := .obj [("a", .arr [.null, .obj [("b", .bool true), ("c", .null)]])]
    let p : Address := [.key "a", .index 1, .key "b"]
    v.WellFormed ∧ Step.append ∉ p ∧ p.inReach = true ∧ v.Lawful p ∧
      v.remove p = .obj [("a", .arr [.null, .obj [("c", .null)]])] ∧
      (v.remove p).set p (.bool true) = (v, true) := by
  intro v p
  have hv : v.WellFormed := by
    refine ⟨by decide, ⟨trivial, ⟨by decide, trivial, trivial, trivial⟩, trivial⟩, trivial⟩
  have happend : Step.append ∉ p := by decide
  have hlaws : v.Lawful p := accessors_lawful hv happend rfl
  refine ⟨hv, happend, rfl, hlaws, rfl, ?_⟩
  exact hlaws.set_remove [.key "a", .index 1] "b" (.bool true) rfl rfl

end Reshape.Json
