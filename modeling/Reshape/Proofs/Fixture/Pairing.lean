import Reshape.Proofs.Fixture.Level
/-!
# Pairing without going back

Lists that are compared as multisets are paired greedily: every element takes the first partner that
is left, and no choice is taken back. If partners of one element have the same partners in turn, the
choices do not matter, and a complete pairing is found where there is one.
-/
namespace Reshape

variable {α β γ : Type}

/-! ## Lists related one by one -/

section Forall₂

variable {r : α → β → Prop} {as : List α} {bs : List β}

theorem forall₂_imp_mem {s : α → β → Prop} (h : List.Forall₂ r as bs)
    (himp : ∀ a ∈ as, ∀ b ∈ bs, r a b → s a b) : List.Forall₂ s as bs := by
  induction h with
  | nil => exact .nil
  | cons hab _ ih =>
    refine .cons (himp _ List.mem_cons_self _ List.mem_cons_self hab) (ih fun a ha b hb => ?_)
    exact himp a (List.mem_cons_of_mem _ ha) b (List.mem_cons_of_mem _ hb)

theorem forall₂_comp_mem {s : β → γ → Prop} {t : α → γ → Prop} {cs : List γ}
    (h : List.Forall₂ r as bs) (h' : List.Forall₂ s bs cs)
    (hcomp : ∀ a ∈ as, ∀ b c, r a b → s b c → t a c) : List.Forall₂ t as cs := by
  induction h generalizing cs with
  | nil =>
    cases h'
    exact .nil
  | cons hab _ ih =>
    obtain ⟨hfirst, hothers⟩ := List.forall_mem_cons.mp hcomp
    cases h' with
    | cons hbc hrest => exact .cons (hfirst _ _ hab hbc) (ih hrest hothers)

theorem forall₂_between {s : α → γ → Prop} {t : γ → β → Prop} (h : List.Forall₂ r as bs)
    (hbetween : ∀ a ∈ as, ∀ b, r a b → ∃ c, s a c ∧ t c b) :
    ∃ cs, List.Forall₂ s as cs ∧ List.Forall₂ t cs bs := by
  induction h with
  | nil => exact ⟨[], .nil, .nil⟩
  | cons hab _ ih =>
    obtain ⟨hfirst, hothers⟩ := List.forall_mem_cons.mp hbetween
    obtain ⟨c, hac, hcb⟩ := hfirst _ hab
    obtain ⟨cs, hs, ht⟩ := ih hothers
    exact ⟨c :: cs, .cons hac hs, .cons hcb ht⟩

end Forall₂

/-! ## Pairings -/

/-- The second list can be rearranged so that its elements are related to those of the first. -/
def Paired (r : α → β → Prop) (as : List α) (bs : List β) : Prop :=
  ∃ cs : List β, cs.Perm bs ∧ List.Forall₂ r as cs

namespace Paired

variable {r : α → β → Prop} {as : List α} {bs left : List β} {a : α} {b c : β}

/-- In a pairing an element gives way to another that its partner may take. -/
theorem exchange {cs : List β} (h : List.Forall₂ r as cs) (hb : b ∈ cs)
    (hpartner : ∀ a ∈ as, r a b → r a c) :
    ∃ ds, List.Forall₂ r as ds ∧ (b :: ds).Perm (c :: cs) := by
  induction h with
  | nil => cases hb
  | @cons a d as cs had hrest ih =>
    obtain ⟨hfirst, hothers⟩ := List.forall_mem_cons.mp hpartner
    rcases List.mem_cons.mp hb with rfl | hb
    · exact ⟨c :: cs, .cons (hfirst had) hrest, .swap c b cs⟩
    · obtain ⟨ds, hds, hperm⟩ := ih hb hothers
      have hmoved : (b :: d :: ds).Perm (d :: c :: cs) :=
        (List.Perm.swap d b ds).trans (hperm.cons d)
      exact ⟨d :: ds, .cons had hds, hmoved.trans (.swap c d cs)⟩

/-- A pairing goes on whichever partner `b` the first element takes, if its partners have the same
partners in turn. -/
theorem of_taken (h : Paired r (a :: as) bs) (hperm : bs.Perm (b :: left))
    (hsame : ∀ a' ∈ as, ∀ c ∈ bs, r a c → r a' b → r a' c) : Paired r as left := by
  obtain ⟨_, hcs, hpairs⟩ := h
  obtain ⟨c, cs, hac, hr, rfl⟩ := List.forall₂_cons_left_iff.mp hpairs
  have hc : c ∈ bs := hcs.subset List.mem_cons_self
  have hleft : (b :: left).Perm (c :: cs) := (hcs.trans hperm).symm
  rcases List.mem_cons.mp (hleft.subset List.mem_cons_self) with rfl | hb
  · exact ⟨cs, hleft.cons_inv.symm, hr⟩
  · obtain ⟨ds, hds, hexchanged⟩ := exchange hr hb fun a' ha => hsame a' ha c hc hac
    exact ⟨ds, (hexchanged.trans hleft.symm).cons_inv, hds⟩

end Paired

/-! ## Greedy pairing -/

namespace Fixture

theorem takeFirst_eq_some {p : α → Bool} {xs left : List α} (h : takeFirst p xs = some left) :
    ∃ x, p x = true ∧ xs.Perm (x :: left) := by
  induction xs generalizing left with
  | nil => cases h
  | cons x xs ih =>
    rw [takeFirst] at h
    split at h
    · obtain rfl := Option.some.inj h
      exact ⟨x, ‹_›, .refl _⟩
    · obtain ⟨rest, hrest, rfl⟩ := Option.map_eq_some_iff.mp h
      obtain ⟨y, hy, hperm⟩ := ih hrest
      exact ⟨y, hy, (hperm.cons x).trans (.swap y x rest)⟩

theorem takeFirst_eq_none {p : α → Bool} {xs : List α} (h : takeFirst p xs = none) :
    ∀ x ∈ xs, ¬ p x = true := by
  induction xs with
  | nil => exact List.forall_mem_nil _
  | cons x xs ih =>
    rw [takeFirst] at h
    split at h
    · cases h
    · exact List.forall_mem_cons.mpr ⟨‹_›, ih (Option.map_eq_none_iff.mp h)⟩

variable {o : CompareOptions}

/-- A greedy pairing that comes to its end is a pairing. -/
theorem paired_of_agreeUnordered {expected actual : List Json}
    (hlength : expected.length = actual.length) (h : agreeUnordered o expected actual = true) :
    Paired (Agrees o) expected actual := by
  induction expected generalizing actual with
  | nil =>
    obtain rfl := List.length_eq_zero_iff.mp hlength.symm
    exact ⟨[], .refl _, .nil⟩
  | cons v rest ih =>
    rw [agreeUnordered] at h
    split at h
    · rename_i left hleft
      obtain ⟨w, hw, hperm⟩ := takeFirst_eq_some hleft
      have hrest : rest.length = left.length :=
        Nat.succ.inj (hlength.trans hperm.length_eq)
      obtain ⟨us, hus, hagree⟩ := ih hrest h
      exact ⟨w :: us, (hus.cons w).trans hperm.symm, .cons hw hagree⟩
    · cases h

/-- **Greedy pairing finds a pairing where there is one**, if documents that agree with one document
agree with the same documents. -/
theorem agreeUnordered_of_paired {expected actual : List Json}
    (hsame : ∀ v ∈ expected, ∀ v' ∈ expected, ∀ w ∈ actual, ∀ w' ∈ actual,
      Agrees o v w → Agrees o v w' → Agrees o v' w → Agrees o v' w')
    (h : Paired (Agrees o) expected actual) : agreeUnordered o expected actual = true := by
  induction expected generalizing actual with
  | nil => rw [agreeUnordered]
  | cons v rest ih =>
    rw [agreeUnordered]
    split
    · rename_i left hleft
      obtain ⟨w, hw, hperm⟩ := takeFirst_eq_some hleft
      have hmem : w ∈ actual := hperm.symm.subset List.mem_cons_self
      have hsub : left ⊆ actual := fun u hu => hperm.symm.subset (List.mem_cons_of_mem w hu)
      refine ih ?_ (h.of_taken hperm ?_)
      · intro u hu u' hu' x hx x' hx'
        exact hsame u (List.mem_cons_of_mem v hu) u' (List.mem_cons_of_mem v hu') x (hsub hx) x'
          (hsub hx')
      · intro v' hv' w' hw' hvw' hv'w
        exact hsame v List.mem_cons_self v' (List.mem_cons_of_mem v hv') w hmem w' hw' hw hvw' hv'w
    · rename_i hnone
      obtain ⟨_, hus, hagree⟩ := h
      obtain ⟨u, us, hvu, -, rfl⟩ := List.forall₂_cons_left_iff.mp hagree
      exact absurd hvu (takeFirst_eq_none hnone u (hus.subset List.mem_cons_self))

/-- Lists that are compared as multisets agree if they can be paired. -/
theorem agree_arr_iff_paired (ho : o.unordered = true) {expected actual : List Json}
    (hsame : ∀ v ∈ expected, ∀ v' ∈ expected, ∀ w ∈ actual, ∀ w' ∈ actual,
      Agrees o v w → Agrees o v w' → Agrees o v' w → Agrees o v' w') :
    agree o (.arr expected) (.arr actual) = true ↔ Paired (Agrees o) expected actual := by
  rw [agree, ho, if_pos rfl, Bool.and_eq_true_iff, beq_iff_eq]
  constructor
  · rintro ⟨hlength, h⟩
    exact paired_of_agreeUnordered hlength h
  · intro h
    obtain ⟨us, hus, hagree⟩ := h
    exact ⟨hagree.length_eq.trans hus.length_eq, agreeUnordered_of_paired hsame ⟨us, hus, hagree⟩⟩

end Fixture
end Reshape
