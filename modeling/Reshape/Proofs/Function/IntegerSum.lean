import Reshape.Function.Builtin
import Reshape.Proofs.Number.Rounding
/-!
# Sums of integers

A sum is checked at every step, so it is exact or there is none as long as the integers fit the
signed word. An integer above it goes through a float, which is kept within the word: it counts as
the greatest signed integer, whatever it is.
-/
namespace Reshape.Function

open Number (inRange)

/-- What an integer counts as: above the signed word all are the same. -/
def counted (n : Int) : Int := Min.min n Text.int64Max

theorem inRange_iff {n : Int} :
    inRange n = true ↔ Text.int64Min ≤ n ∧ n < (Text.wordSize : Int) := by
  rw [inRange, Bool.and_eq_true, decide_eq_true_eq, decide_eq_true_eq]

theorem inInt64_iff {n : Int} :
    Text.inInt64 n = true ↔ Text.int64Min ≤ n ∧ n ≤ Text.int64Max := by
  rw [Text.inInt64, Bool.and_eq_true, decide_eq_true_eq, decide_eq_true_eq]

theorem truncated_ofInt {n : Int} (hn : inRange n = true) (hlarge : Text.int64Max < n) :
    truncated (Float.ofInt n) = Text.int64Max := by
  have hnonneg : 0 ≤ n := le_trans (by decide) hlarge.le
  obtain ⟨m, rfl⟩ := Int.eq_ofNat_of_zero_le hnonneg
  have hlow : 2 ^ 63 ≤ m := by
    rw [Text.int64Max] at hlarge
    omega
  have hhigh : m < 2 ^ 64 := Int.ofNat_lt.mp (inRange_iff.mp hn).2
  have hlog : m.log2 = 52 + 11 := (Nat.log2_eq_iff (by omega)).mpr ⟨hlow, hhigh⟩
  exact Number.truncateWithin_ofNat hlog (by decide) (by decide) (by decide) (by decide)

/-- An integer of a document is read as what it counts as. -/
theorem int64?_ofInt {n : Int} (hn : inRange n = true) :
    int64? (.ofInt n) = some (counted n) := by
  rw [Json.ofInt, int64?, Number.toInt64?, counted]
  rcases Int.lt_or_le Text.int64Max n with hlarge | hsmall
  · have hout : ¬ Text.inInt64 n = true := fun hin => (inInt64_iff.mp hin).2.not_gt hlarge
    rw [if_neg hout, Option.none_or, min_eq_right hlarge.le]
    exact congrArg some (truncated_ofInt hn hlarge)
  · have hin : Text.inInt64 n = true := inInt64_iff.mpr ⟨(inRange_iff.mp hn).1, hsmall⟩
    rw [if_pos hin, Option.some_or, min_eq_left hsmall]

/-! ## One step after another -/

/-- A value added to a sum, if the sum still fits the signed word. -/
def added (total : Int) (v : Json) : Option Int := do
  let n ← int64? v
  if Text.inInt64 (total + n) then some (total + n) else none

theorem intSum_eq_foldlM (args : List Json) :
    intSum args = ((flatten args).foldlM added 0).map .ofInt := by
  rw [Option.map_eq_bind]
  rfl

theorem added_ofInt {total n : Int} (hn : inRange n = true) :
    added total (.ofInt n) =
      if Text.inInt64 (total + counted n) then some (total + counted n) else none := by
  rw [added, int64?_ofInt hn]
  rfl

/-- From `total` on, the sum fits the signed word after every step. -/
def FitsThroughout (total : Int) (ns : List Int) : Prop :=
  ∀ part, part <+: ns → Text.inInt64 (total + (part.map counted).sum) = true

theorem FitsThroughout.total {total : Int} {ns : List Int} (h : FitsThroughout total ns) :
    Text.inInt64 total = true := by
  have hfirst := h [] List.nil_prefix
  rwa [List.map_nil, List.sum_nil, Int.add_zero] at hfirst

theorem fitsThroughout_nil {total : Int} (htotal : Text.inInt64 total = true) :
    FitsThroughout total [] := by
  intro part hpart
  obtain rfl := List.prefix_nil.mp hpart
  rwa [List.map_nil, List.sum_nil, Int.add_zero]

theorem fitsThroughout_cons {total n : Int} {rest : List Int}
    (htotal : Text.inInt64 total = true) :
    FitsThroughout total (n :: rest) ↔ FitsThroughout (total + counted n) rest := by
  constructor
  · intro h part hpart
    have hfits := h (n :: part) ((List.prefix_cons_inj n).mpr hpart)
    rwa [List.map_cons, List.sum_cons, ← Int.add_assoc] at hfits
  · intro h part hpart
    rcases List.prefix_cons_iff.mp hpart with rfl | ⟨others, rfl, hothers⟩
    · rwa [List.map_nil, List.sum_nil, Int.add_zero]
    · rw [List.map_cons, List.sum_cons, ← Int.add_assoc]
      exact h others hothers

/-- A sum comes to its end if it fits the signed word after every step. -/
theorem foldlM_added_eq_some_iff {ns : List Int} (hns : ∀ n ∈ ns, inRange n = true) {total : Int}
    (htotal : Text.inInt64 total = true) (sum : Int) :
    (ns.map Json.ofInt).foldlM added total = some sum ↔
      FitsThroughout total ns ∧ sum = total + (ns.map counted).sum := by
  induction ns generalizing total with
  | nil =>
    rw [and_iff_right (fitsThroughout_nil htotal), List.map_nil, List.foldlM_nil, List.map_nil,
      List.sum_nil, Int.add_zero, @eq_comm _ sum]
    exact Option.some_inj
  | cons n rest ih =>
    obtain ⟨hn, hrest⟩ := List.forall_mem_cons.mp hns
    rw [List.map_cons, List.foldlM_cons, added_ofInt hn, fitsThroughout_cons htotal, List.map_cons,
      List.sum_cons, ← Int.add_assoc]
    split
    · rename_i hfits
      exact ih hrest hfits
    · rename_i hout
      exact iff_of_false nofun fun h => hout h.1.total

theorem sum_counted_le (ns : List Int) : (ns.map counted).sum ≤ ns.sum := by
  induction ns with
  | nil => exact le_rfl
  | cons n rest ih =>
    rw [List.map_cons, List.sum_cons, List.sum_cons]
    exact Int.add_le_add (min_le_left n _) ih

/-- What the integers count as is their sum exactly if none is above the signed word. -/
theorem sum_counted_eq_iff (ns : List Int) :
    (ns.map counted).sum = ns.sum ↔ ∀ n ∈ ns, n ≤ Text.int64Max := by
  induction ns with
  | nil => simp
  | cons n rest ih =>
    have hrest := sum_counted_le rest
    have hfirst : counted n ≤ n := min_le_left n _
    have hn : counted n = n ↔ n ≤ Text.int64Max := min_eq_left_iff
    rw [List.map_cons, List.sum_cons, List.sum_cons, List.forall_mem_cons, ← ih, ← hn]
    omega

theorem flatten_ofInts {ns : List Int} {args : List Json}
    (hargs : args = [.arr (ns.map .ofInt)] ∨ args = ns.map .ofInt) :
    flatten args = ns.map .ofInt := by
  rcases hargs with rfl | rfl
  · rw [flatten, List.flatMap_singleton]
    exact List.filter_eq_self.mpr fun v hv => by
      obtain ⟨n, -, rfl⟩ := List.mem_map.mp hv
      rfl
  · rw [flatten, List.flatMap_map]
    exact List.map_eq_flatMap.symm

/-- **A sum of integers is exact or there is none, unless an integer is above the signed word.**
Given as a list or one by one, integers have a sum exactly if the sums of all their beginnings fit
the signed word, each integer above it taken for the greatest signed one; and a sum that is given is
the sum of the integers exactly if none of them is above the signed word. -/
theorem intSum_eq_some_iff {ns : List Int} (hns : ∀ n ∈ ns, inRange n = true) {args : List Json}
    (hargs : args = [.arr (ns.map .ofInt)] ∨ args = ns.map .ofInt) (sum : Json) :
    (intSum args = some sum ↔
        (∀ part, part <+: ns → Text.inInt64 (part.map counted).sum = true) ∧
          sum = .ofInt (ns.map counted).sum) ∧
      (intSum args = some sum → (sum = .ofInt ns.sum ↔ ∀ n ∈ ns, n ≤ Text.int64Max)) := by
  have hiff : intSum args = some sum ↔
      (∀ part, part <+: ns → Text.inInt64 (part.map counted).sum = true) ∧
        sum = .ofInt (ns.map counted).sum := by
    rw [intSum_eq_foldlM, flatten_ofInts hargs, Option.map_eq_some_iff]
    simp only [foldlM_added_eq_some_iff hns (by decide : Text.inInt64 0 = true), FitsThroughout,
      Int.zero_add, and_assoc, exists_and_left, exists_eq_left, @eq_comm _ _ sum]
  refine ⟨hiff, fun hsum => ?_⟩
  rw [(hiff.mp hsum).2, ← sum_counted_eq_iff, Json.ofInt, Json.ofInt, Json.num.injEq,
    Number.int.injEq]

/-- The greatest signed integer and a negative one after it. -/
theorem intSum_eq_some_iff_greatest :
    (∀ n ∈ [9223372036854775807, -5], inRange n = true) ∧
      intSum [.ofInt 9223372036854775807, .ofInt (-5)] = some (.ofInt 9223372036854775802) ∧
      (Json.ofInt 9223372036854775802 = .ofInt [9223372036854775807, -5].sum ↔
        ∀ n ∈ [9223372036854775807, -5], n ≤ Text.int64Max) := by
  have hns : ∀ n ∈ [9223372036854775807, -5], inRange n = true := by decide
  have hparts : ∀ part, part <+: [9223372036854775807, -5] →
      Text.inInt64 (part.map counted).sum = true := by
    intro part hpart
    revert part
    simp only [← List.mem_inits]
    decide
  obtain ⟨hiff, hexact⟩ := intSum_eq_some_iff hns (.inr rfl) (.ofInt 9223372036854775802)
  have hsum := hiff.mpr ⟨hparts, rfl⟩
  exact ⟨hns, hsum, hexact hsum⟩

/-- The integer after the greatest signed one counts as that one. -/
theorem intSum_word :
    inRange 9223372036854775808 = true ∧
      intSum [.arr [.ofInt 9223372036854775808]] = some (.ofInt 9223372036854775807) ∧
      ¬ ∀ ns : List Int, (∀ n ∈ ns, inRange n = true) → ∀ sum,
        intSum [.arr (ns.map .ofInt)] = some sum → sum = .ofInt ns.sum := by
  have hrange : inRange 9223372036854775808 = true := by decide
  have hsum : intSum [.arr [.ofInt 9223372036854775808]] = some (.ofInt 9223372036854775807) := by
    rw [intSum_eq_foldlM]
    change ([Json.ofInt 9223372036854775808].foldlM added 0).map Json.ofInt = _
    rw [List.foldlM_cons, added_ofInt hrange]
    rfl
  refine ⟨hrange, hsum, fun h => ?_⟩
  have hexact := h [9223372036854775808] (by decide) _ hsum
  cases hexact

end Reshape.Function
