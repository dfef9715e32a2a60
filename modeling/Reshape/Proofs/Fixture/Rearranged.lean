import Reshape.Proofs.Fixture.Pairing
/-!
# Multisets at every level

Documents whose lists are compared as multisets agree exactly if the elements of lists can be moved,
at every level, so that the documents are the same up to the tolerance for numbers. This holds where
the tolerance splits the numbers of the documents into classes; otherwise a greedy pairing may take
a partner that another element needs.
-/
namespace Reshape

namespace Json

/-- The documents are the same, apart from numbers, which `same` compares, and from the places of
elements in lists, which are moved as `moves` allows. -/
inductive Corresponds (same : Number → Number → Prop) (moves : List Json → List Json → Prop) :
    Json → Json → Prop
  | null : Corresponds same moves .null .null
  | bool (b : Bool) : Corresponds same moves (.bool b) (.bool b)
  | num {a b : Number} (numbers : same a b) : Corresponds same moves (.num a) (.num b)
  | str (text : String) : Corresponds same moves (.str text) (.str text)
  | arr {vs us ws : List Json} (each : List.Forall₂ (Corresponds same moves) vs us)
    (moved : moves us ws) : Corresponds same moves (.arr vs) (.arr ws)
  | obj {fields others : List (String × Json)}
    (each : List.Forall₂ (Fields.Related (Corresponds same moves)) fields others) :
    Corresponds same moves (.obj fields) (.obj others)

/-- The second document is the first with elements of lists moved within their lists. -/
abbrev Rearranged : Json → Json → Prop := Corresponds Eq List.Perm

/-- The documents are the same but for numbers, which `same` compares. -/
abbrev SameUpTo (same : Number → Number → Prop) : Json → Json → Prop := Corresponds same Eq

mutual
/-- The numbers that occur in a document. -/
def numbers : Json → List Number
  | .num n => [n]
  | .arr elements => elementsNumbers elements
  | .obj fields => fieldsNumbers fields
  | _ => []

def elementsNumbers : List Json → List Number
  | [] => []
  | v :: rest => v.numbers ++ elementsNumbers rest

def fieldsNumbers : List (String × Json) → List Number
  | [] => []
  | (_, v) :: rest => v.numbers ++ fieldsNumbers rest
end

theorem numbers_arr {v : Json} {elements : List Json} (h : v ∈ elements) :
    v.numbers ⊆ (Json.arr elements).numbers := by
  rw [numbers]
  induction elements with
  | nil => cases h
  | cons w rest ih =>
    rw [elementsNumbers]
    rcases List.mem_cons.mp h with rfl | h
    · exact List.subset_append_left _ _
    · exact List.subset_append_of_subset_right _ (ih h)

theorem numbers_obj {field : String × Json} {fields : List (String × Json)} (h : field ∈ fields) :
    field.2.numbers ⊆ (Json.obj fields).numbers := by
  rw [numbers]
  induction fields with
  | nil => cases h
  | cons other rest ih =>
    obtain ⟨key, w⟩ := other
    rw [fieldsNumbers]
    rcases List.mem_cons.mp h with rfl | h
    · exact List.subset_append_left _ _
    · exact List.subset_append_of_subset_right _ (ih h)

namespace Corresponds

variable {s t r : Number → Number → Prop} {moves : List Json → List Json → Prop} {v w x : Json}

/-- Numbers may be compared by any test that says the same of the numbers that occur. -/
theorem imp (h : Corresponds s List.Perm v w)
    (himp : ∀ a ∈ v.numbers, ∀ b ∈ w.numbers, s a b → t a b) : Corresponds t List.Perm v w := by
  induction v using Json.of_members generalizing w with
  | null =>
    cases h
    exact .null
  | bool b =>
    cases h
    exact .bool b
  | str text =>
    cases h
    exact .str text
  | num a =>
    cases h with
    | @num _ b hab => exact .num (himp a List.mem_cons_self b List.mem_cons_self hab)
  | arr vs ih =>
    cases h with
    | @arr _ us ws each moved =>
      refine .arr (forall₂_imp_mem each fun v hv u hu hvu => ih v hv hvu ?_) moved
      intro a ha b hb
      exact himp a (numbers_arr hv ha) b (numbers_arr (moved.subset hu) hb)
  | obj fields ih =>
    cases h with
    | @obj _ others each =>
      refine .obj (forall₂_imp_mem each fun f hf g hg hfg => hfg.imp fun hvalue =>
        ih f hf hvalue ?_)
      intro a ha b hb
      exact himp a (numbers_obj hf ha) b (numbers_obj hg hb)

theorem symm (hsymm : ∀ a b, s a b → s b a) (h : Corresponds s List.Perm v w) :
    Corresponds s List.Perm w v := by
  induction v using Json.of_members generalizing w with
  | null =>
    cases h
    exact .null
  | bool b =>
    cases h
    exact .bool b
  | str text =>
    cases h
    exact .str text
  | num a =>
    cases h with
    | num hab => exact .num (hsymm _ _ hab)
  | arr vs ih =>
    cases h with
    | @arr _ us ws each moved =>
      have hback : List.Forall₂ (Corresponds s List.Perm) us vs :=
        (forall₂_imp_mem each fun v hv u _ hvu => ih v hv hvu).flip
      obtain ⟨us', hus', hperm⟩ := List.perm_comp_forall₂ moved.symm hback
      exact .arr hus' hperm
  | obj fields ih =>
    cases h with
    | obj each =>
      exact .obj (forall₂_imp_mem each fun f hf g _ hfg => hfg.flip (ih f hf)).flip

/-- Corresponding twice is corresponding, with moves made one after the other. -/
theorem comp (hmoves : ∀ us ws, moves us ws → us.Perm ws)
    (hcomp : ∀ a b c, s a b → t b c → r a c) (h : Corresponds s List.Perm v w)
    (h' : Corresponds t moves w x) : Corresponds r List.Perm v x := by
  induction v using Json.of_members generalizing w x with
  | null =>
    cases h
    cases h'
    exact .null
  | bool b =>
    cases h
    cases h'
    exact .bool b
  | str text =>
    cases h
    cases h'
    exact .str text
  | num a =>
    cases h with
    | num hab =>
      cases h' with
      | num hbc => exact .num (hcomp _ _ _ hab hbc)
  | arr vs ih =>
    cases h with
    | arr each moved =>
      cases h' with
      | arr each' moved' =>
        obtain ⟨us, hus, hperm⟩ := List.perm_comp_forall₂ moved each'
        exact .arr (forall₂_comp_mem each hus fun v hv _ _ => ih v hv)
          (hperm.trans (hmoves _ _ moved'))
  | obj fields ih =>
    cases h with
    | obj each =>
      cases h' with
      | obj each' =>
        exact .obj (forall₂_comp_mem each each' fun f hf _ _ hfg hgh => hfg.comp hgh (ih f hf))

/-- Elements can be moved first, and numbers compared then. -/
theorem exists_rearranged (h : Corresponds s List.Perm v w) :
    ∃ moved, Rearranged v moved ∧ SameUpTo s moved w := by
  induction v using Json.of_members generalizing w with
  | null =>
    cases h
    exact ⟨.null, .null, .null⟩
  | bool b =>
    cases h
    exact ⟨.bool b, .bool b, .bool b⟩
  | str text =>
    cases h
    exact ⟨.str text, .str text, .str text⟩
  | num a =>
    cases h with
    | num hab => exact ⟨.num a, .num rfl, .num hab⟩
  | arr vs ih =>
    cases h with
    | @arr _ us ws each moved =>
      obtain ⟨ms, hms, hsame⟩ := forall₂_between each fun v hv _ hvu => ih v hv hvu
      obtain ⟨ms', hsame', hperm⟩ := List.perm_comp_forall₂ moved.symm hsame.flip
      exact ⟨.arr ms', .arr hms hperm.symm, .arr hsame'.flip rfl⟩
  | obj fields ih =>
    cases h with
    | obj each =>
      obtain ⟨ms, hms, hsame⟩ := forall₂_between each fun f hf _ hfg => hfg.between (ih f hf)
      exact ⟨.obj ms, .obj hms, .obj hsame⟩

end Corresponds

end Json

/-- A test splits numbers into classes of numbers that it finds the same. -/
structure EquivalenceOn (same : Number → Number → Prop) (numbers : List Number) : Prop where
  refl : ∀ a ∈ numbers, same a a
  symm : ∀ a ∈ numbers, ∀ b ∈ numbers, same a b → same b a
  trans : ∀ a ∈ numbers, ∀ b ∈ numbers, ∀ c ∈ numbers, same a b → same b c → same a c

namespace Fixture

open Json (Corresponds Rearranged SameUpTo)

variable {o : CompareOptions} {expected actual : Json}

/-- Two numbers agree up to the tolerance of a comparison. -/
abbrev SameNumber (o : CompareOptions) (a b : Number) : Prop :=
  agreeNumbers o.tolerance a b = true

section Levels

variable {same : Number → Number → Prop}

/-- Lists agree if they correspond, where that holds for their elements and a correspondence can be
exchanged. -/
theorem agree_arr_iff_corresponds (ho : o.unordered = true) {vs ws : List Json}
    (heach : ∀ v ∈ vs, ∀ w ∈ ws, Agrees o v w ↔ Corresponds same List.Perm v w)
    (hexchange : ∀ {v v' w w' : Json}, Corresponds same List.Perm v w →
      Corresponds same List.Perm v w' → Corresponds same List.Perm v' w →
      Corresponds same List.Perm v' w') :
    agree o (.arr vs) (.arr ws) = true ↔ Corresponds same List.Perm (.arr vs) (.arr ws) := by
  rw [agree_arr_iff_paired ho]
  · constructor
    · rintro ⟨us, hus, hagree⟩
      exact .arr (forall₂_imp_mem hagree fun v hv u hu => (heach v hv u (hus.subset hu)).mp) hus
    · rintro (_ | _ | _ | _ | ⟨each, moved⟩)
      exact ⟨_, moved, forall₂_imp_mem each fun v hv u hu => (heach v hv u (moved.subset hu)).mpr⟩
  · intro v hv v' hv' w hw w' hw'
    rw [heach v hv w hw, heach v hv w' hw', heach v' hv' w hw, heach v' hv' w' hw']
    exact hexchange

/-- Objects agree if they correspond, where that holds for their values. -/
theorem agree_obj_iff_corresponds {fields others : List (String × Json)}
    (he : Fields.Sorted fields) (ha : Fields.Sorted others)
    (heach : ∀ f ∈ fields, ∀ g ∈ others,
      Agrees o f.2 g.2 ↔ Corresponds same List.Perm f.2 g.2) :
    agree o (.obj fields) (.obj others) = true ↔
      Corresponds same List.Perm (.obj fields) (.obj others) := by
  rw [agree_obj_iff he ha]
  constructor
  · intro hagree
    exact .obj (forall₂_imp_mem hagree fun f hf g hg hfg => hfg.imp (heach f hf g hg).mp)
  · rintro (_ | _ | _ | _ | _ | each)
    exact forall₂_imp_mem each fun f hf g hg hfg => hfg.imp (heach f hf g hg).mpr

end Levels

/-- Two of some numbers agree. -/
def SameAmong (o : CompareOptions) (numbers : List Number) (a b : Number) : Prop :=
  a ∈ numbers ∧ b ∈ numbers ∧ SameNumber o a b

section Classes

variable {numbers : List Number} (h : EquivalenceOn (SameNumber o) numbers)
include h

theorem sameAmong_symm (a b : Number) (hab : SameAmong o numbers a b) :
    SameAmong o numbers b a := by
  obtain ⟨ha, hb, hsame⟩ := hab
  exact ⟨hb, ha, h.symm a ha b hb hsame⟩

theorem sameAmong_trans (a b c : Number) (hab : SameAmong o numbers a b)
    (hbc : SameAmong o numbers b c) : SameAmong o numbers a c := by
  obtain ⟨ha, hb, hab⟩ := hab
  obtain ⟨-, hc, hbc⟩ := hbc
  exact ⟨ha, hc, h.trans a ha b hb c hc hab hbc⟩

/-- Documents with the same correspondent correspond to the same documents. -/
theorem corresponds_exchange {v v' w w' : Json}
    (hvw : Corresponds (SameAmong o numbers) List.Perm v w)
    (hvw' : Corresponds (SameAmong o numbers) List.Perm v w')
    (hv'w : Corresponds (SameAmong o numbers) List.Perm v' w) :
    Corresponds (SameAmong o numbers) List.Perm v' w' := by
  have hback := hvw.symm (sameAmong_symm h)
  have hv'v := hv'w.comp (fun _ _ hperm => hperm) (sameAmong_trans h) hback
  exact hv'v.comp (fun _ _ hperm => hperm) (sameAmong_trans h) hvw'

/-- Where the tolerance splits the numbers into classes, a comparison of lists as multisets finds
that documents agree exactly if they correspond, with elements of lists moved at every level. -/
theorem agree_iff_corresponds (ho : o.unordered = true) (he : expected.WellFormed)
    (ha : actual.WellFormed) (hen : expected.numbers ⊆ numbers) (han : actual.numbers ⊆ numbers) :
    agree o expected actual = true ↔
      Corresponds (SameAmong o numbers) List.Perm expected actual := by
  induction expected using Json.of_members generalizing actual with
  | null =>
    cases actual with
    | null => exact iff_of_true (by rw [agree]) .null
    | _ => exact iff_of_false (by simp [agree]) fun hcorresponds => by cases hcorresponds
  | bool b =>
    cases actual with
    | bool b' =>
      rw [agree, beq_iff_eq]
      constructor
      · rintro rfl
        exact .bool b
      · rintro ⟨⟩
        rfl
    | _ => exact iff_of_false (by simp [agree]) fun hcorresponds => by cases hcorresponds
  | str text =>
    cases actual with
    | str text' =>
      rw [agree, beq_iff_eq]
      constructor
      · rintro rfl
        exact .str text
      · rintro ⟨⟩
        rfl
    | _ => exact iff_of_false (by simp [agree]) fun hcorresponds => by cases hcorresponds
  | num a =>
    cases actual with
    | num b =>
      rw [agree]
      constructor
      · intro hab
        exact .num ⟨hen List.mem_cons_self, han List.mem_cons_self, hab⟩
      · rintro (_ | _ | ⟨-, -, hab⟩)
        exact hab
    | _ => exact iff_of_false (by simp [agree]) fun hcorresponds => by cases hcorresponds
  | arr vs ih =>
    cases actual with
    | arr ws =>
      refine agree_arr_iff_corresponds ho (fun v hv w hw => ?_) (corresponds_exchange h)
      exact ih v hv (he.element hv) (ha.element hw) (List.Subset.trans (Json.numbers_arr hv) hen)
        (List.Subset.trans (Json.numbers_arr hw) han)
    | _ => exact iff_of_false (by simp [agree]) fun hcorresponds => by cases hcorresponds
  | obj fields ih =>
    cases actual with
    | obj others =>
      refine agree_obj_iff_corresponds he.sorted ha.sorted fun f hf g hg => ?_
      exact ih f hf (he.field hf) (ha.field hg) (List.Subset.trans (Json.numbers_obj hf) hen)
        (List.Subset.trans (Json.numbers_obj hg) han)
    | _ => exact iff_of_false (by simp [agree]) fun hcorresponds => by cases hcorresponds

end Classes

/-- **Comparing lists as multisets is equality up to rearrangement.** Where the tolerance splits the
numbers of two documents into classes, they agree exactly if elements of lists of the first can be
moved, at every level, so that it is the second up to the tolerance. So two lists agree whenever
there is a complete pairing of elements that agree. -/
theorem agree_iff_rearranged (ho : o.unordered = true) (he : expected.WellFormed)
    (ha : actual.WellFormed)
    (h : EquivalenceOn (SameNumber o) (expected.numbers ++ actual.numbers)) :
    (agree o expected actual = true ↔
        ∃ moved, Rearranged expected moved ∧ SameUpTo (SameNumber o) moved actual) ∧
      ∀ vs ws, expected = .arr vs → actual = .arr ws → Paired (Agrees o) vs ws →
        agree o expected actual = true := by
  have hiff := agree_iff_corresponds h ho he ha (List.subset_append_left _ _)
    (List.subset_append_right _ _)
  constructor
  · rw [hiff]
    constructor
    · intro hcorresponds
      exact (hcorresponds.imp fun a _ b _ hab => hab.2.2).exists_rearranged
    · rintro ⟨moved, hmoved, hsame⟩
      have hboth : Corresponds (SameNumber o) List.Perm expected actual := by
        refine hmoved.comp ?_ ?_ hsame
        · rintro us _ rfl
          exact .refl us
        · rintro a _ c rfl hac
          exact hac
      refine hboth.imp fun a ha b hb hab => ⟨?_, ?_, hab⟩
      · exact List.mem_append_left _ ha
      · exact List.mem_append_right _ hb
  · rintro vs ws rfl rfl ⟨us, hus, hagree⟩
    refine hiff.mpr (.arr (forall₂_imp_mem hagree fun v hv u hu => ?_) hus)
    have hw := hus.subset hu
    refine (agree_iff_corresponds h ho (he.element hv) (ha.element hw) ?_ ?_).mp
    · exact List.Subset.trans (Json.numbers_arr hv) (List.subset_append_left _ _)
    · exact List.Subset.trans (Json.numbers_arr hw) (List.subset_append_right _ _)

/-- Lists that are moved at two levels, with a number written in two ways. -/
theorem agree_iff_rearranged_nested :
    let o : CompareOptions := { unordered := true }
    let expected : Json := .obj [("z", .arr [.ofInt 1, .arr [.bool true, .ofInt 2]])]
    let actual : Json := .obj [("z", .arr [.arr [.num (.float 2.0), .bool true], .ofInt 1])]
    o.unordered = true ∧ expected.WellFormed ∧ actual.WellFormed ∧
      EquivalenceOn (SameNumber o) (expected.numbers ++ actual.numbers) ∧
      agree o expected actual = true := by
  intro o expected actual
  have he : expected.WellFormed :=
    ⟨by decide, ⟨trivial, ⟨trivial, trivial, trivial⟩, trivial⟩, trivial⟩
  have ha : actual.WellFormed :=
    ⟨by decide, ⟨⟨trivial, trivial, trivial⟩, trivial, trivial⟩, trivial⟩
  have h : EquivalenceOn (SameNumber o) (expected.numbers ++ actual.numbers) :=
    ⟨by decide +kernel, by decide +kernel, by decide +kernel⟩
  refine ⟨rfl, he, ha, h, (agree_iff_rearranged rfl he ha h).1.mpr ?_⟩
  refine ⟨.obj [("z", .arr [.arr [.ofInt 2, .bool true], .ofInt 1])], ?_, ?_⟩
  · have hinner : Rearranged (.arr [.bool true, .ofInt 2]) (.arr [.ofInt 2, .bool true]) :=
      .arr (.cons (.bool true) (.cons (.num rfl) .nil)) (.swap _ _ _)
    exact .obj (.cons (.mk "z" (.arr (.cons (.num rfl) (.cons hinner .nil)) (.swap _ _ _))) .nil)
  · have htwo : SameNumber o (.int 2) (.float 2.0) := by decide +kernel
    have hone : SameNumber o (.int 1) (.int 1) := by decide +kernel
    have hinner : SameUpTo (SameNumber o) (.arr [.ofInt 2, .bool true])
        (.arr [.num (.float 2.0), .bool true]) :=
      .arr (.cons (.num htwo) (.cons (.bool true) .nil)) rfl
    exact .obj (.cons (.mk "z" (.arr (.cons hinner (.cons (.num hone) .nil)) rfl)) .nil)

end Fixture
end Reshape
