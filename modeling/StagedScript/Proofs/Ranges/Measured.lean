import Mathlib.Data.Set.Card
import StagedScript.Proofs.Basic

/-!
# How many items a range has, and which

Ranges are measured in words of 128 bits.  Whatever the start, the stop and the step are, nothing
that is computed there overflows: the size is the exact number of the integers that the range runs
through, every index below it leads to an integer of the language, and no item is left out.
-/

namespace StagedScript

theorem toInt_wide (n : Int64) : (wide n).toInt = n.toInt := by
  rw [wide, BitVec.toInt_signExtend_of_le (by decide), Int64.toInt_toBitVec]

theorem ssubOverflow_wide (a b : Int64) : (wide a).ssubOverflow (wide b) = false := by
  have ha := a.toInt_lt
  have ha' := a.le_toInt
  have hb := b.toInt_lt
  have hb' := b.le_toInt
  simp only [BitVec.ssubOverflow, toInt_wide, Bool.or_eq_false_iff, decide_eq_false_iff_not]
  omega

theorem toInt_wide_sub (a b : Int64) : (wide a - wide b).toInt = a.toInt - b.toInt := by
  rw [BitVec.toInt_sub_of_not_ssubOverflow (ne_true_of_eq_false (ssubOverflow_wide a b)),
    toInt_wide, toInt_wide]

namespace Range

variable {r : Range} {i : Nat}

/-- An integer lies before the stop, in the direction of the step. -/
def Before (r : Range) (n : Int) : Prop :=
  if 0 < r.step.toInt then n < r.stop.toInt else r.stop.toInt < n

/-- The integer that lies so many steps behind the start. -/
def nth (r : Range) (i : Nat) : Int := r.start.toInt + r.step.toInt * i

theorem step_pos_iff : 0 < r.step ↔ 0 < r.step.toInt := by
  rw [Int64.lt_iff_toInt_lt]
  rfl

theorem toInt_step_ne (hstep : r.step ≠ 0) : r.step.toInt ≠ 0 := by
  intro h
  exact hstep (Int64.toInt_inj.1 (h.trans (by decide)))

/-! ## The size -/

theorem toInt_extent (r : Range) : r.extent.toInt =
    if 0 < r.step.toInt then r.stop.toInt - r.start.toInt else r.start.toInt - r.stop.toInt := by
  rw [extent]
  by_cases h : 0 < r.step.toInt
  · rw [if_pos (step_pos_iff.2 h), if_pos h, toInt_wide_sub]
  · rw [if_neg (mt step_pos_iff.1 h), if_neg h, toInt_wide_sub]

theorem toInt_extent_lt (r : Range) : r.extent.toInt < 2 ^ 64 := by
  have hstart := r.start.toInt_lt
  have hstart' := r.start.le_toInt
  have hstop := r.stop.toInt_lt
  have hstop' := r.stop.le_toInt
  rw [toInt_extent]
  split <;> omega

theorem toNat_stride (r : Range) : r.stride.toNat = r.step.toInt.natAbs := by
  have hstep := r.step.toInt_lt
  have hstep' := r.step.le_toInt
  rw [stride, BitVec.toNat_ofNat]
  exact Nat.mod_eq_of_lt (by omega)

section Ahead

variable (hahead : 0 < r.extent.toInt)
include hahead

theorem toNat_extent : (r.extent.toNat : Int) = r.extent.toInt := by
  rw [BitVec.toInt_eq_toNat_cond] at hahead ⊢
  split at hahead
  · next h => rw [if_pos h]
  · have := r.extent.isLt
    omega

theorem usubOverflow_extent : r.extent.usubOverflow 1 = false := by
  have htoNat := toNat_extent hahead
  have hone : (1 : BitVec 128).toNat = 1 := rfl
  simp only [BitVec.usubOverflow, decide_eq_false_iff_not, hone]
  omega

theorem toNat_steps :
    ((r.extent - 1) / r.stride).toNat = (r.extent.toNat - 1) / r.step.toInt.natAbs := by
  rw [BitVec.toNat_udiv, toNat_stride,
    BitVec.toNat_sub_of_not_usubOverflow (ne_true_of_eq_false (usubOverflow_extent hahead))]
  rfl

/-- Of the steps that begin within the extent there are fewer than the extent is long. -/
theorem toNat_steps_lt : ((r.extent - 1) / r.stride).toNat < 2 ^ 64 - 1 := by
  have htoNat := toNat_extent hahead
  have hlt := r.toInt_extent_lt
  have hle := Nat.div_le_self (r.extent.toNat - 1) r.step.toInt.natAbs
  rw [toNat_steps hahead]
  omega

theorem uaddOverflow_count : ((r.extent - 1) / r.stride).uaddOverflow 1 = false := by
  have hlt := toNat_steps_lt hahead
  have hone : (1 : BitVec 128).toNat = 1 := rfl
  simp only [BitVec.uaddOverflow, decide_eq_false_iff_not, hone]
  omega

theorem toNat_count : r.count.toNat = (r.extent.toNat - 1) / r.step.toInt.natAbs + 1 := by
  rw [count, BitVec.toNat_add_of_not_uaddOverflow
    (ne_true_of_eq_false (uaddOverflow_count hahead)), toNat_steps hahead]
  rfl

theorem toNat_count_lt : r.count.toNat < UInt64.size := by
  have hlt := toNat_steps_lt hahead
  rw [toNat_steps hahead] at hlt
  rw [toNat_count hahead]
  change _ < 2 ^ 64
  omega

theorem size_of_ahead : r.size = r.count.toNat := by
  have hlt := toNat_count_lt hahead
  rw [size, if_neg (by omega)]
  omega

end Ahead

theorem size_lt (r : Range) : r.size < UInt64.size := by
  by_cases hahead : 0 < r.extent.toInt
  · rw [size_of_ahead hahead]
    exact toNat_count_lt hahead
  · rw [size, if_pos (by omega)]
    decide

/-- An index is below the size if the integer that it leads to lies before the stop. -/
theorem lt_size_iff (hstep : r.step ≠ 0) : i < r.size ↔ r.Before (r.nth i) := by
  have hne := toInt_step_ne hstep
  have hextent := r.toInt_extent
  by_cases hahead : 0 < r.extent.toInt
  · -- So many whole steps go into what is left of the extent behind the first item.
    have htoNat := toNat_extent hahead
    have hsteps : i < r.size ↔ (i * r.step.toInt.natAbs : Int) < r.extent.toInt := by
      rw [size_of_ahead hahead, toNat_count hahead, Nat.lt_succ_iff,
        Nat.le_div_iff_mul_le (by omega), ← htoNat]
      norm_cast
      omega
    rw [hsteps, hextent, Before, nth]
    split
    · next hpos =>
      rw [Int.natAbs_of_nonneg (by omega), Int.mul_comm]
      omega
    · next hneg =>
      rw [Int.ofNat_natAbs_of_nonpos (by omega), Int.mul_neg, Int.mul_comm]
      omega
  · have hsize : r.size = 0 := by rw [size, if_pos (by omega)]
    rw [hsize, Before, nth]
    rw [hextent] at hahead
    split at hahead
    · next hpos =>
      have := Int.mul_nonneg (Int.le_of_lt hpos) (Int.natCast_nonneg i)
      rw [if_pos hpos]
      omega
    · next hneg =>
      have := Int.mul_nonneg (a := -r.step.toInt) (b := i) (by omega) (Int.natCast_nonneg i)
      rw [Int.neg_mul] at this
      rw [if_neg hneg]
      omega

/-! ## The items -/

/-- What lies before the stop, at a distance of whole steps, is an integer of the language. -/
theorem fits_nth (hbefore : r.Before (r.nth i)) : fits (r.nth i) = true := by
  have hstart := r.start.toInt_lt
  have hstart' := r.start.le_toInt
  have hstop := r.stop.toInt_lt
  have hstop' := r.stop.le_toInt
  rw [fits_iff]
  rw [Before, nth] at hbefore
  rw [nth]
  split at hbefore
  · next hpos =>
    have := Int.mul_nonneg (Int.le_of_lt hpos) (Int.natCast_nonneg i)
    omega
  · next hneg =>
    have := Int.mul_nonneg (a := -r.step.toInt) (b := i) (by omega) (Int.natCast_nonneg i)
    rw [Int.neg_mul] at this
    omega

section Below

variable (hstep : r.step ≠ 0) (hi : i < r.size)
include hi

theorem toInt_index : (BitVec.ofNat 128 i).toInt = i := by
  have hlt : i < 2 ^ 64 := Nat.lt_trans hi r.size_lt
  have htoNat : (BitVec.ofNat 128 i).toNat = i := Nat.mod_eq_of_lt (by omega)
  rw [BitVec.toInt_eq_toNat_of_lt (by omega), htoNat]

include hstep

theorem smulOverflow_behind : (wide r.step).smulOverflow (.ofNat 128 i) = false := by
  have hstart := r.start.toInt_lt
  have hstart' := r.start.le_toInt
  have hfits := fits_iff.1 (fits_nth ((lt_size_iff hstep).1 hi))
  rw [nth] at hfits
  simp only [BitVec.smulOverflow, toInt_wide, toInt_index hi, Bool.or_eq_false_iff,
    decide_eq_false_iff_not]
  omega

theorem toInt_mul_index : (wide r.step * .ofNat 128 i).toInt = r.step.toInt * i := by
  rw [BitVec.toInt_mul_of_not_smulOverflow (ne_true_of_eq_false (smulOverflow_behind hstep hi)),
    toInt_wide, toInt_index hi]

theorem saddOverflow_behind :
    (wide r.start).saddOverflow (wide r.step * .ofNat 128 i) = false := by
  have hfits := fits_iff.1 (fits_nth ((lt_size_iff hstep).1 hi))
  rw [nth] at hfits
  simp only [BitVec.saddOverflow, toInt_wide, toInt_mul_index hstep hi, Bool.or_eq_false_iff,
    decide_eq_false_iff_not]
  omega

theorem toInt_behind : (r.behind i).toInt = r.nth i := by
  rw [behind, BitVec.toInt_add_of_not_saddOverflow
    (ne_true_of_eq_false (saddOverflow_behind hstep hi)), toInt_wide, toInt_mul_index hstep hi, nth]

theorem get?_eq_some : r.get? i = some (Int64.ofInt (r.nth i)) := by
  rw [get?, if_neg (Nat.not_le.2 hi), toInt_behind hstep hi]
  exact if_pos (fits_nth ((lt_size_iff hstep).1 hi))

end Below

theorem get?_eq_none (hi : r.size ≤ i) : r.get? i = none := if_pos hi

/-- No index below the size is left out. -/
theorem items_eq (hstep : r.step ≠ 0) :
    r.items = (List.range r.size).map fun i => Int64.ofInt (r.nth i) := by
  rw [items, ← List.filterMap_eq_map]
  refine List.filterMap_congr fun i hi => ?_
  exact get?_eq_some hstep (List.mem_range.1 hi)

theorem length_items (r : Range) (hstep : r.step ≠ 0) : r.items.length = r.size := by
  rw [items_eq hstep, List.length_map, List.length_range]

theorem getElem?_items (r : Range) (hstep : r.step ≠ 0) (i : Nat) : r.items[i]? = r.get? i := by
  rw [items_eq hstep, List.getElem?_map]
  by_cases hi : i < r.size
  · rw [List.getElem?_range hi, get?_eq_some hstep hi]
    rfl
  · rw [get?_eq_none (Nat.not_lt.1 hi), List.getElem?_eq_none (by simpa using hi)]
    rfl

theorem nth_injective (hstep : r.step ≠ 0) : Function.Injective r.nth := by
  intro i j hij
  have hmul : r.step.toInt * i = r.step.toInt * j := by
    rw [nth, nth] at hij
    omega
  exact Int.ofNat_inj.1 (Int.eq_of_mul_eq_mul_left (toInt_step_ne hstep) hmul)

/-- The integers that the range runs through are those that the indices below the size lead to. -/
theorem encard_eq (hstep : r.step ≠ 0) :
    {n | ∃ k : Nat, n = r.nth k ∧ r.Before n}.encard = r.size := by
  have himage : {n | ∃ k : Nat, n = r.nth k ∧ r.Before n} =
      ((Finset.range r.size).image r.nth : Finset Int) := by
    ext n
    simp only [Set.mem_ofPred_eq, Finset.coe_image, Finset.coe_range, Set.mem_image, Set.mem_Iio]
    constructor
    · rintro ⟨k, rfl, hk⟩
      exact ⟨k, (lt_size_iff hstep).2 hk, rfl⟩
    · rintro ⟨k, hk, rfl⟩
      exact ⟨k, rfl, (lt_size_iff hstep).1 hk⟩
  rw [himage, Set.encard_coe_eq_coe_finsetCard,
    Finset.card_image_of_injective _ (nth_injective hstep), Finset.card_range]

/-! ## Nothing is cut -/

/-- What is computed for a range stays within the words that it is computed in. -/
structure NoOverflow (r : Range) : Prop where
  extent : if 0 < r.step then (wide r.stop).ssubOverflow (wide r.start) = false
    else (wide r.start).ssubOverflow (wide r.stop) = false
  stride : r.stride.toNat = r.step.toInt.natAbs
  rest : 0 < r.extent.toInt → r.extent.usubOverflow 1 = false
  count : 0 < r.extent.toInt → ((r.extent - 1) / r.stride).uaddOverflow 1 = false
  product : ∀ i < r.size, (wide r.step).smulOverflow (.ofNat 128 i) = false
  sum : ∀ i < r.size, (wide r.start).saddOverflow (wide r.step * .ofNat 128 i) = false

theorem noOverflow (hstep : r.step ≠ 0) : r.NoOverflow where
  extent := by split <;> exact ssubOverflow_wide _ _
  stride := toNat_stride r
  rest := usubOverflow_extent
  count := uaddOverflow_count
  product _ hi := smulOverflow_behind hstep hi
  sum _ hi := saddOverflow_behind hstep hi

/-- The range has for items the integers at whole steps from the start that lie before the stop,
each of them in its place. -/
structure Exact (r : Range) : Prop where
  size : {n | ∃ k : Nat, n = r.start.toInt + k * r.step.toInt ∧ r.Before n}.encard = r.size
  noOverflow : r.NoOverflow
  /-- The greatest number of 64 bits never takes the place of the count. -/
  uncut : 0 < r.extent.toInt → r.size = r.count.toNat
  fits : ∀ i < r.size, StagedScript.fits (r.behind i).toInt = true
  below : ∀ i < r.size, ∃ n, r.get? i = some n ∧ n.toInt = r.start.toInt + i * r.step.toInt
  past : ∀ i, r.size ≤ i → r.get? i = none
  /-- Running through the range meets all of them, in order. -/
  items : ∀ s, ∃ ns : List Int64, Run.items (.range r) s = .ok (ns.map .int) s ∧
    ns.map Int64.toInt = (List.range r.size).map fun i : Nat => r.start.toInt + i * r.step.toInt

theorem nth_eq (r : Range) (i : Nat) : r.nth i = r.start.toInt + i * r.step.toInt := by
  rw [nth, Int.mul_comm]

theorem toInt_ofInt_nth (hstep : r.step ≠ 0) (hi : i < r.size) :
    (Int64.ofInt (r.nth i)).toInt = r.start.toInt + i * r.step.toInt := by
  rw [toInt_ofInt_of_fits (fits_nth ((lt_size_iff hstep).1 hi)), nth_eq]

/-- Running through a range gives its items as values. -/
theorem items_range (r : Range) (s : Store) :
    Run.items (.range r) s = .ok (r.items.map .int) s := by
  refine Run.items_of_members ?_
  rw [List.map_map]
  rfl

/-- A range is exact, however far its ends lie apart and however long its step is. -/
theorem measured_exactly (r : Range) (hstep : r.step ≠ 0) : r.Exact where
  size := by simpa only [nth_eq] using encard_eq hstep
  noOverflow := noOverflow hstep
  uncut := size_of_ahead
  fits i hi := by
    rw [toInt_behind hstep hi]
    exact fits_nth ((lt_size_iff hstep).1 hi)
  below i hi := ⟨_, get?_eq_some hstep hi, toInt_ofInt_nth hstep hi⟩
  past _ := get?_eq_none
  items s := by
    refine ⟨r.items, items_range r s, ?_⟩
    rw [items_eq hstep, List.map_map]
    refine List.map_congr_left fun i hi => ?_
    exact toInt_ofInt_nth hstep (List.mem_range.1 hi)

/-- The range from the least integer to the greatest. -/
def widest : Range := ⟨Int64.minValue, Int64.maxValue, 1⟩

/-- The range from the greatest integer to the least, in the longest step. -/
def steepest : Range := ⟨Int64.maxValue, Int64.minValue, Int64.minValue⟩

/-- The widest range has as many items as 64 bits can count, and the steepest has two. -/
theorem widest_measured :
    widest.Exact ∧ widest.size = 2 ^ 64 - 1 ∧
      steepest.Exact ∧ steepest.items = [Int64.maxValue, -1] :=
  ⟨measured_exactly _ (by decide), by decide, measured_exactly _ (by decide), by decide⟩

end Range

end StagedScript
