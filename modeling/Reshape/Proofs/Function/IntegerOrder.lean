import Reshape.Proofs.Function.IntegerSum
import Reshape.Proofs.Number.Nearest
import Reshape.Proofs.Order
/-!
# The order of integers

Integers are put in order by their floats. The order is right where floats tell integers apart;
integers with the same float stay as they came, and of several that are least or greatest by their
floats the first is taken.
-/
namespace Reshape.Function

open Number (inRange rounded)

/-- Integers of a document are far from the greatest float. -/
theorem log2_le_of_inRange {n : Int} (hn : inRange n = true) : n.natAbs.log2 ≤ 1022 := by
  obtain ⟨hlow, hhigh⟩ := inRange_iff.mp hn
  rw [Text.int64Min] at hlow
  rw [Text.wordSize] at hhigh
  rcases Nat.eq_zero_or_pos n.natAbs with hzero | hpos
  · rw [hzero]
    decide
  · have hlog : n.natAbs.log2 < 65 := (Nat.log2_lt hpos.ne').mpr (by omega)
    omega

theorem ofInt_lt_iff {a b : Int} (ha : inRange a = true) (hb : inRange b = true) :
    Float.ofInt a < Float.ofInt b ↔ rounded a < rounded b :=
  Number.ofInt_lt_iff (log2_le_of_inRange ha) (log2_le_of_inRange hb)

theorem compareFloats_ofInt {a b : Int} (ha : inRange a = true) (hb : inRange b = true) :
    compareFloats (Float.ofInt a) (Float.ofInt b) = compareOn rounded a b := by
  rw [compareFloats]
  simp only [ofInt_lt_iff ha hb, ofInt_lt_iff hb ha]
  rcases lt_trichotomy (rounded a) (rounded b) with hlt | heq | hgt
  · rw [if_pos hlt, compareOn, compare_lt_iff_lt.mpr hlt]
  · rw [if_neg heq.not_lt, if_neg heq.not_gt, compareOn, compare_eq_iff_eq.mpr heq]
  · rw [if_neg hgt.not_gt, if_pos hgt, compareOn, compare_gt_iff_gt.mpr hgt]

/-! ## Sorting -/

/-- Lists with the same elements under a filter have two of these in the same order. -/
theorem pair_sublist_of_filter_eq {α : Type} {p : α → Bool} {a b : α} {ys zs : List α}
    (h : ys.filter p = zs.filter p) (ha : p a = true) (hb : p b = true)
    (hab : [a, b].Sublist ys) : [a, b].Sublist zs := by
  have hkept := hab.filter p
  rw [h, List.filter_cons_of_pos ha, List.filter_cons_of_pos hb, List.filter_nil] at hkept
  exact hkept.trans List.filter_sublist

/-- Sorting by rounded values puts a list in order exactly if it has no two elements in the wrong
order that rounding makes equal. -/
theorem sortBy_pairwise_le_iff {α β : Type} [LinearOrder α] [LinearOrder β] {f : α → β}
    (hf : Monotone f) (xs : List α) :
    (sortBy (compareOn f) xs).Pairwise (· ≤ ·) ↔ xs.Pairwise fun a b => f a = f b → a ≤ b := by
  let sorted := sortBy (compareOn f) xs
  have hsorted : sorted.Pairwise fun a b => (compareOn f a b).isLE := sortBy_pairwise _ xs
  -- Elements with one rounded value stand in both lists in the same order.
  have hsame : ∀ y, sorted.filter (fun x => f x = y) = xs.filter fun x => f x = y := by
    intro y
    refine sortBy_filter fun a _ b _ ha hb => ?_
    rw [decide_eq_true_eq] at ha hb
    rw [compareOn, ha, hb, compare_eq_iff_eq.mpr rfl]
    exact nofun
  rw [List.pairwise_iff_forall_sublist, List.pairwise_iff_forall_sublist]
  constructor
  · intro h a b hab heq
    exact h (pair_sublist_of_filter_eq (hsame (f b)).symm (decide_eq_true heq)
      (decide_eq_true rfl) hab)
  · intro h a b hab
    have hle : f a ≤ f b := compare_le_iff_le.mp
      (Ordering.ne_gt_iff_isLE.mpr (List.pairwise_iff_forall_sublist.mp hsorted hab))
    rcases lt_or_eq_of_le hle with hlt | heq
    · exact (hf.reflect_lt hlt).le
    · exact h (pair_sublist_of_filter_eq (hsame (f b)) (decide_eq_true heq)
        (decide_eq_true rfl) hab) heq

/-- A list of integers is sorted by what their floats stand for. -/
theorem sort_ofInts {ns : List Int} (hns : ∀ n ∈ ns, inRange n = true) :
    sort [.arr (ns.map .ofInt)] = some (.arr ((sortBy (compareOn rounded) ns).map .ofInt)) := by
  let Holds (x : Number) (n : Int) : Prop := x = .int n ∧ inRange n = true
  have hnumbers : (ns.map Json.ofInt).mapM number? = some (ns.map Number.int) := by
    induction ns with
    | nil => rfl
    | cons n rest ih =>
      rw [List.map_cons, List.mapM_cons, ih (List.forall_mem_cons.mp hns).2]
      rfl
  have hholds : List.Forall₂ Holds (ns.map Number.int) ns :=
    List.forall₂_map_left_iff.mpr (List.forall₂_same.mpr fun n hn => ⟨rfl, hns n hn⟩)
  have hsorted : List.Forall₂ Holds
      (sortBy (fun a b => compareFloats a.toFloat b.toFloat) (ns.map Number.int))
      (sortBy (compareOn rounded) ns) := by
    refine sortBy_rel ?_ hholds
    rintro _ _ a b ⟨rfl, ha⟩ ⟨rfl, hb⟩
    exact compareFloats_ofInt ha hb
  have hints : sortBy (fun a b => compareFloats a.toFloat b.toFloat) (ns.map Number.int) =
      (sortBy (compareOn rounded) ns).map Number.int := by
    rw [← List.forall₂_eq_eq_eq, List.forall₂_map_right_iff]
    exact hsorted.imp fun _ _ h => h.1
  simp only [sort, List.head?_cons, Option.bind_some, Json.elements?, hnumbers, hints,
    List.map_map]
  rfl

/-! ## The least and the greatest -/

/-- The best of integers, if one is better than another as a relation says. -/
theorem best?_ofInts {better : Float → Float → Bool} {r : Int → Int → Prop} [DecidableRel r]
    (hbetter : ∀ a b, inRange a = true → inRange b = true →
      (better (Float.ofInt a) (Float.ofInt b) = true ↔ r a b)) {ns : List Int}
    (hns : ∀ n ∈ ns, inRange n = true) :
    best? better (ns.map .ofInt) = (ns.foldl (List.argAux r) none).map .ofInt := by
  let numbered (n : Int) : Json × Float := (.ofInt n, Float.ofInt n)
  have hnumbered : (ns.map Json.ofInt).mapM (fun v => (float? v).map fun x => (v, x)) =
      some (ns.map numbered) := by
    induction ns with
    | nil => rfl
    | cons n rest ih =>
      rw [List.map_cons, List.mapM_cons, ih (List.forall_mem_cons.mp hns).2]
      rfl
  have hfold : ∀ (rest : List Int) (first : Int), inRange first = true →
      (∀ n ∈ rest, inRange n = true) →
      some ((rest.map numbered).foldl (fun best v => if better v.2 best.2 then v else best)
        (numbered first)) = (rest.foldl (List.argAux r) (some first)).map numbered := by
    intro rest
    induction rest with
    | nil => exact fun _ _ _ => rfl
    | cons n rest ih =>
      intro first hfirst hrest
      obtain ⟨hn, hrest⟩ := List.forall_mem_cons.mp hrest
      have hiff := hbetter n first hn hfirst
      rw [List.map_cons, List.foldl_cons, List.foldl_cons]
      by_cases hr : r n first
      · have haux : List.argAux r (some first) n = some n := if_pos hr
        rw [haux, if_pos (hiff.mpr hr)]
        exact ih n hn hrest
      · have haux : List.argAux r (some first) n = some first := if_neg hr
        rw [haux, if_neg fun hb => hr (hiff.mp hb)]
        exact ih first hfirst hrest
  rw [best?, hnumbered]
  cases ns with
  | nil => rfl
  | cons first rest =>
    obtain ⟨hfirst, hrest⟩ := List.forall_mem_cons.mp hns
    have hbest := congrArg (Option.map Prod.fst) (hfold rest first hfirst hrest)
    rw [Option.map_map] at hbest
    exact hbest

theorem min_ofInts {ns : List Int} (hns : ∀ n ∈ ns, inRange n = true) {args : List Json}
    (hargs : args = [.arr (ns.map .ofInt)] ∨ args = ns.map .ofInt) :
    min args = (ns.argmin rounded).map .ofInt := by
  rw [min, flatten_ofInts hargs]
  refine best?_ofInts (fun a b ha hb => ?_) hns
  rw [decide_eq_true_eq, ofInt_lt_iff ha hb]

theorem max_ofInts {ns : List Int} (hns : ∀ n ∈ ns, inRange n = true) {args : List Json}
    (hargs : args = [.arr (ns.map .ofInt)] ∨ args = ns.map .ofInt) :
    max args = (ns.argmax rounded).map .ofInt := by
  rw [max, flatten_ofInts hargs]
  refine best?_ofInts (fun a b ha hb => ?_) hns
  rw [decide_eq_true_eq, ofInt_lt_iff hb ha]

/-- An integer that is least by what its float stands for is least, unless a smaller one has the
same float. -/
theorem least_iff {ns : List Int} {least : Int} (hleast : least ∈ ns.argmin rounded) :
    (∀ n ∈ ns, least ≤ n) ↔ ∀ n ∈ ns, rounded n = rounded least → least ≤ n := by
  refine ⟨fun h n hn _ => h n hn, fun h n hn => ?_⟩
  rcases lt_or_eq_of_le (List.le_of_mem_argmin hn hleast) with hlt | heq
  · exact (Number.rounded_mono.reflect_lt hlt).le
  · exact h n hn heq.symm

theorem greatest_iff {ns : List Int} {greatest : Int} (hgreatest : greatest ∈ ns.argmax rounded) :
    (∀ n ∈ ns, n ≤ greatest) ↔ ∀ n ∈ ns, rounded n = rounded greatest → n ≤ greatest := by
  refine ⟨fun h n hn _ => h n hn, fun h n hn => ?_⟩
  rcases lt_or_eq_of_le (List.le_of_mem_argmax hn hgreatest) with hlt | heq
  · exact (Number.rounded_mono.reflect_lt hlt).le
  · exact h n hn heq

/-- **Integers are ordered as their floats are.** A sorted list of integers is in order exactly if
no two of them came in the wrong order with the same float. The least and the greatest one that are
found are the first by their floats, and they are right exactly if no better one has the same
float. So all three are right for integers up to `2 ^ 53`. -/
theorem order_of_rounded {ns : List Int} (hns : ∀ n ∈ ns, inRange n = true) (hne : ns ≠ [])
    {args : List Json} (hargs : args = [.arr (ns.map .ofInt)] ∨ args = ns.map .ofInt) :
    ∃ sorted : List Int, ∃ least ∈ ns.argmin rounded, ∃ greatest ∈ ns.argmax rounded,
      sort [.arr (ns.map .ofInt)] = some (.arr (sorted.map .ofInt)) ∧
      min args = some (.ofInt least) ∧ max args = some (.ofInt greatest) ∧
      sorted.Perm ns ∧
      (sorted.Pairwise (· ≤ ·) ↔ ns.Pairwise fun a b => rounded a = rounded b → a ≤ b) ∧
      ((∀ n ∈ ns, least ≤ n) ↔ ∀ n ∈ ns, rounded n = rounded least → least ≤ n) ∧
      ((∀ n ∈ ns, n ≤ greatest) ↔ ∀ n ∈ ns, rounded n = rounded greatest → n ≤ greatest) ∧
      ((∀ n ∈ ns, n.natAbs ≤ 2 ^ 53) → sorted.Pairwise (· ≤ ·) ∧ (∀ n ∈ ns, least ≤ n) ∧
        ∀ n ∈ ns, n ≤ greatest) := by
  obtain ⟨least, hleast⟩ : ∃ least, ns.argmin rounded = some least :=
    Option.ne_none_iff_exists'.mp (mt List.argmin_eq_none.mp hne)
  obtain ⟨greatest, hgreatest⟩ : ∃ greatest, ns.argmax rounded = some greatest :=
    Option.ne_none_iff_exists'.mp (mt List.argmax_eq_none.mp hne)
  have hsorted := sortBy_pairwise_le_iff Number.rounded_mono ns
  refine ⟨sortBy (compareOn rounded) ns, least, hleast, greatest, hgreatest, sort_ofInts hns,
    ?_, ?_, sortBy_perm _ ns, hsorted, least_iff hleast, greatest_iff hgreatest, ?_⟩
  · rw [min_ofInts hns hargs, hleast, Option.map_some]
  · rw [max_ofInts hns hargs, hgreatest, Option.map_some]
  · intro hsmall
    have hexact : ∀ n ∈ ns, rounded n = n := fun n hn => Number.rounded_of_natAbs_le (hsmall n hn)
    refine ⟨hsorted.mpr ?_, (least_iff hleast).mpr ?_, (greatest_iff hgreatest).mpr ?_⟩
    · refine List.pairwise_of_forall_mem_list fun a ha b hb heq => ?_
      rw [← hexact a ha, ← hexact b hb, heq]
    · intro n hn heq
      rw [← hexact n hn, heq, hexact least (List.argmin_mem hleast)]
    · intro n hn heq
      rw [← hexact n hn, heq, hexact greatest (List.argmax_mem hgreatest)]

/-- Two integers with the same float that came in the right order. -/
theorem order_of_rounded_beyond :
    (∀ n ∈ [9007199254740992, -4, 9007199254740993], inRange n = true) ∧
      ∃ sorted : List Int,
        sort [.arr ([9007199254740992, -4, 9007199254740993].map .ofInt)] =
          some (.arr (sorted.map .ofInt)) ∧
        sorted.Perm [9007199254740992, -4, 9007199254740993] ∧ sorted.Pairwise (· ≤ ·) := by
  have hns : ∀ n ∈ [9007199254740992, -4, 9007199254740993], inRange n = true := by decide
  have hties : [9007199254740992, -4, 9007199254740993].Pairwise
      fun a b => rounded a = rounded b → a ≤ b := by
    decide +kernel
  obtain ⟨sorted, -, -, -, -, hsort, -, -, hperm, hiff, -⟩ :=
    order_of_rounded hns (List.cons_ne_nil _ _) (.inl rfl)
  exact ⟨hns, sorted, hsort, hperm, hiff.mpr hties⟩

/-- `2 ^ 53` and the integer after it have the same float, so they stay as they came. -/
theorem sort_tied :
    (∀ n ∈ [9007199254740993, 9007199254740992], inRange n = true) ∧
      sort [.arr [.ofInt 9007199254740993, .ofInt 9007199254740992]] =
        some (.arr [.ofInt 9007199254740993, .ofInt 9007199254740992]) ∧
      ¬ ∀ ns : List Int, (∀ n ∈ ns, inRange n = true) → ns ≠ [] →
        ∃ sorted : List Int, sort [.arr (ns.map .ofInt)] = some (.arr (sorted.map .ofInt)) ∧
          sorted.Perm ns ∧ sorted.Pairwise (· ≤ ·) := by
  have hns : ∀ n ∈ [9007199254740993, 9007199254740992], inRange n = true := by decide
  have hsame : sortBy (compareOn rounded) [9007199254740993, 9007199254740992] =
      [9007199254740993, 9007199254740992] := by
    decide +kernel
  have hsort := sort_ofInts hns
  rw [hsame] at hsort
  refine ⟨hns, hsort, fun h => ?_⟩
  obtain ⟨sorted, hsorted, hperm, hle⟩ := h _ hns (List.cons_ne_nil _ _)
  have hints : [Json.ofInt 9007199254740993, .ofInt 9007199254740992] = sorted.map .ofInt :=
    Json.arr.inj (Option.some.inj (hsort.symm.trans hsorted))
  have heq : sorted = [9007199254740993, 9007199254740992] := by
    refine List.map_injective_iff.mpr (fun a b hab => ?_) hints.symm
    exact Number.int.inj (Json.num.inj hab)
  rw [heq] at hle
  exact absurd hle (by decide)

end Reshape.Function
