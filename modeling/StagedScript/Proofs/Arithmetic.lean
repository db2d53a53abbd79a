import Mathlib.Data.Int.Bitwise
import Mathlib.Algebra.Order.Ring.Int
import Mathlib.Tactic.Linarith
import StagedScript.Run.Arithmetic

/-!
# How exact integers are

An operator on two integers gives the exact result where that has 64 bits, and an error where it has
not.  There are two exceptions: no power is taken with an exponent of 2 ^ 32 or more, not even of
the units, and the least integer has no remainder by minus one.
-/

namespace StagedScript

/-! ## Bits -/

/-- An integer is told by its bits, of which it has infinitely many. -/
theorem Int.eq_of_testBit {m n : Int} (h : ∀ i, m.testBit i = n.testBit i) : m = n := by
  -- Far enough up, the bits of a natural number are off and those of a negative one are on.
  have hmixed (a b : Nat) (h : ∀ i, a.testBit i = !b.testBit i) : False := by
    have ha : a < 2 ^ max a b := Nat.lt_of_le_of_lt (Nat.le_max_left a b) Nat.lt_two_pow_self
    have hb : b < 2 ^ max a b := Nat.lt_of_le_of_lt (Nat.le_max_right a b) Nat.lt_two_pow_self
    have := h (max a b)
    rw [Nat.testBit_lt_two_pow ha, Nat.testBit_lt_two_pow hb] at this
    cases this
  cases m with
  | ofNat a =>
    cases n with
    | ofNat b => exact congrArg Int.ofNat (Nat.eq_of_testBit_eq h)
    | negSucc b => exact (hmixed a b h).elim
  | negSucc a =>
    cases n with
    | ofNat b => exact (hmixed b a fun i => (h i).symm).elim
    | negSucc b =>
      exact congrArg Int.negSucc (Nat.eq_of_testBit_eq fun i => Bool.not_inj (h i))

/-- The bits of a signed number: those that it has, and its sign from there on. -/
theorem BitVec.testBit_toInt {w : Nat} (x : BitVec w) (i : Nat) :
    x.toInt.testBit i = if i < w then x.getLsbD i else x.msb := by
  rw [BitVec.toInt_eq_msb_cond]
  cases hmsb : x.msb with
  | false =>
    rw [if_neg Bool.false_ne_true]
    change x.toNat.testBit i = _
    split
    · rfl
    · next hi =>
        exact Nat.testBit_lt_two_pow
          (Nat.lt_of_lt_of_le x.isLt (Nat.pow_le_pow_right (by decide) (by omega)))
  | true =>
    have hneg : (x.toNat : Int) - (2 ^ w : Nat) = .negSucc (2 ^ w - (x.toNat + 1)) := by
      have := x.isLt
      omega
    rw [if_pos rfl, hneg]
    change (!(2 ^ w - (x.toNat + 1)).testBit i) = _
    rw [Nat.testBit_two_pow_sub_succ x.isLt]
    split
    · next hi => simp [hi, BitVec.getLsbD]
    · next hi => simp [hi]

namespace Int64

theorem toInt_and (a b : Int64) : (a &&& b).toInt = a.toInt.land b.toInt := by
  refine Int.eq_of_testBit fun i => ?_
  rw [Int.testBit_land]
  simp only [← Int64.toInt_toBitVec, BitVec.testBit_toInt, Int64.toBitVec_and]
  split <;> simp [BitVec.msb_and]

theorem toInt_or (a b : Int64) : (a ||| b).toInt = a.toInt.lor b.toInt := by
  refine Int.eq_of_testBit fun i => ?_
  rw [Int.testBit_lor]
  simp only [← Int64.toInt_toBitVec, BitVec.testBit_toInt, Int64.toBitVec_or]
  split <;> simp [BitVec.msb_or]

theorem toInt_xor (a b : Int64) : (a ^^^ b).toInt = a.toInt.xor b.toInt := by
  refine Int.eq_of_testBit fun i => ?_
  rw [Int.testBit_lxor]
  simp only [← Int64.toInt_toBitVec, BitVec.testBit_toInt, Int64.toBitVec_xor]
  split <;> simp [BitVec.msb_xor]

end Int64

theorem fits_toInt (a : Int64) : fits a.toInt = true :=
  fits_iff.2 ⟨Int64.le_toInt a, Int64.toInt_le a⟩

namespace Arithmetic

/-! ## Exact results -/

/-- The exact result of an operator on integers: a quotient is rounded to the floor, a remainder has
the sign of the divisor, and bits are those of the two's complement.  A division of two integers
gives no integer, and neither do a division by zero, a negative exponent and a negative shift. -/
def exactResult? (op : BinaryOp) (x y : Int) : Option Int :=
  match op with
  | .add => some (x + y)
  | .sub => some (x - y)
  | .mul => some (x * y)
  | .div => none
  | .floorDiv => if y = 0 then none else some (x.fdiv y)
  | .mod => if y = 0 then none else some (x.fmod y)
  | .pow => if y < 0 then none else some (x ^ y.toNat)
  | .bitAnd => some (x.land y)
  | .bitOr => some (x.lor y)
  | .bitXor => some (x.xor y)
  | .shiftLeft => if y < 0 then none else some (x * 2 ^ y.toNat)
  | .shiftRight => if y < 0 then none else some (x.fdiv (2 ^ y.toNat))

/-- What the error of an operator whose result does not fit is about.  Bits and shifts to the right
have results that fit. -/
def overflow? : BinaryOp → Option Fault.Overflow
  | .add => some .addition
  | .sub => some .subtraction
  | .mul => some .multiplication
  | .floorDiv => some .division
  | .mod => some .modulo
  | .pow => some .exponentiation
  | .shiftLeft => some .leftShift
  | .div | .bitAnd | .bitOr | .bitXor | .shiftRight => none

/-- What is refused whether the result fits or not. -/
def Refused (op : BinaryOp) (x y : Int) : Prop :=
  op = .mod ∧ x = least ∧ y = -1 ∨ op = .pow ∧ exponentLimit ≤ y

variable {a b : Int64} {op : BinaryOp} {x y n : Int}

/-- The result of an operator that gives the exact one where it fits. -/
theorem map_fit (what : Fault.Overflow) (n : Int) : Value.int <$> fit what n =
    if fits n = true then .ok (.int (.ofInt n)) else .error (.overflow what) := by
  unfold fit
  split <;> rfl

/-- An integer that is none of the units has no powers from 64 on that fit. -/
theorem not_fits_pow {k : Nat} (hx : x ≠ 0 ∧ x ≠ 1 ∧ x ≠ -1) (hk : 64 ≤ k) :
    ¬ fits (x ^ k) = true := by
  intro h
  have habs : 2 ≤ x.natAbs := by omega
  have hlarge : 2 ^ 64 ≤ (x ^ k).natAbs := by
    rw [Int.natAbs_pow]
    exact (Nat.pow_le_pow_right (by decide) hk).trans (Nat.pow_le_pow_left habs k)
  have := fits_iff.1 h
  omega

/-- Powers are exact as long as the exponent is not too large. -/
theorem power_eq (hy : 0 ≤ y) : power x y =
    if y < exponentLimit then fit .exponentiation (x ^ y.toNat)
      else .error (.overflow .exponentiation) := by
  unfold power
  by_cases hlimit : exponentLimit ≤ y
  · rw [if_pos hlimit, if_neg (Int.not_lt.2 hlimit)]
  rw [if_neg hlimit, if_pos (Int.not_le.1 hlimit)]
  obtain ⟨k, rfl⟩ := Int.eq_ofNat_of_zero_le hy
  rw [Int.toNat_natCast]
  by_cases hunit : x = 0 ∨ x = 1
  · rw [if_pos hunit]
    congr 1
    rcases hunit with rfl | rfl
    · cases k with
      | zero => rfl
      | succ k => rw [zero_pow k.succ_ne_zero, if_neg (by omega)]
    · simp
  rw [if_neg hunit]
  by_cases hminus : x = -1
  · subst hminus
    rw [if_pos rfl]
    congr 1
    rcases Nat.even_or_odd k with hk | hk
    · rw [hk.neg_one_pow, if_pos (by obtain ⟨j, rfl⟩ := hk; omega)]
    · rw [hk.neg_one_pow, if_neg (by obtain ⟨j, rfl⟩ := hk; omega)]
  rw [if_neg hminus]
  split
  · next hk =>
    unfold fit
    rw [if_neg (not_fits_pow ⟨fun h => hunit (.inl h), fun h => hunit (.inr h), hminus⟩ (by omega))]
  · rfl

/-- Shifts to the left are exact. -/
theorem shiftLeft_eq (hy : 0 ≤ y) : shiftLeft x y = fit .leftShift (x * 2 ^ y.toNat) := by
  unfold shiftLeft
  rw [if_neg (Int.not_lt.2 hy)]
  obtain ⟨k, rfl⟩ := Int.eq_ofNat_of_zero_le hy
  rw [Int.toNat_natCast]
  split
  · next hk =>
    split
    · next hx =>
      rw [hx, zero_mul]
      rfl
    · next hx =>
      have hlarge : 2 ^ 64 ≤ (x * 2 ^ k).natAbs := by
        rw [Int.natAbs_mul, Int.natAbs_pow]
        refine le_trans (Nat.pow_le_pow_right (by decide) (by omega)) (Nat.le_mul_of_pos_left _ ?_)
        omega
      unfold fit
      rw [if_neg fun h => by have := fits_iff.1 h; omega]
  · rfl

/-- A shift by as much as the width leaves the sign alone. -/
theorem fdiv_two_pow_of_le (hx : fits x = true) {k : Nat} (hk : 63 ≤ k) :
    x.fdiv (2 ^ k) = x >>> (63 : Nat) := by
  have hx := fits_iff.1 hx
  have hpow : (2 : Int) ^ 63 ≤ 2 ^ k := pow_le_pow_right₀ (by decide) hk
  have hpos : (0 : Int) < 2 ^ k := by positivity
  rw [Int.fdiv_eq_ediv_of_nonneg _ hpos.le, Int.shiftRight_eq_div_pow]
  rcases Int.lt_or_le x 0 with hneg | hnonneg
  · rw [Int.ediv_eq_neg_one_of_neg_of_le hneg (by omega)]
    omega
  · rw [Int.ediv_eq_zero_of_lt hnonneg (by omega)]
    omega

/-- Shifts to the right are exact. -/
theorem shiftRight_eq (hx : fits x = true) (hy : 0 ≤ y) :
    shiftRight x y = .ok (.ofInt (x.fdiv (2 ^ y.toNat))) := by
  unfold shiftRight
  rw [if_neg (Int.not_lt.2 hy)]
  obtain ⟨k, rfl⟩ := Int.eq_ofNat_of_zero_le hy
  rw [Int.toNat_natCast]
  rcases Nat.lt_or_ge k 63 with hk | hk
  · rw [show (min (k : Int) 63).toNat = k by omega, Int.shiftRight_eq_div_pow,
      Int.fdiv_eq_ediv_of_nonneg _ (by positivity)]
    norm_cast
  · rw [show (min (k : Int) 63).toNat = 63 by omega, fdiv_two_pow_of_le hx hk]

/-- A shift to the right makes no integer larger. -/
theorem fits_fdiv (hx : fits x = true) (k : Nat) : fits (x.fdiv (2 ^ k)) = true := by
  have hx := fits_iff.1 hx
  have hpos : (0 : Int) < 2 ^ k := by positivity
  rw [fits_iff, Int.fdiv_eq_ediv_of_nonneg _ hpos.le]
  constructor
  · rw [Int.le_ediv_iff_mul_le hpos]
    nlinarith
  · refine Int.lt_add_one_iff.1 ((Int.ediv_lt_iff_lt_mul hpos).2 ?_)
    nlinarith

/-- What an operator with an exact result gives: this, or an error. -/
def Exactly (op : BinaryOp) (x y n : Int) (r : Except Fault Value) : Prop :=
  (fits n = true ∧ ¬ Refused op x y → r = .ok (.int (.ofInt n))) ∧
    (¬ fits n = true ∨ Refused op x y →
      ∃ what, overflow? op = some what ∧ r = .error (.overflow what))

theorem exactly_of_fits {v : Int64} (hn : v.toInt = n) (hop : ¬ Refused op x y) :
    Exactly op x y n (.ok (.int v)) := by
  subst hn
  exact ⟨fun _ => by rw [Int64.ofInt_toInt], fun h => absurd (h.resolve_right hop)
    (not_not.2 (fits_toInt v))⟩

theorem exactly_of_fit {what : Fault.Overflow} (hwhat : overflow? op = some what)
    (hop : ¬ Refused op x y) : Exactly op x y n (.int <$> fit what n) := by
  rw [map_fit]
  exact ⟨fun h => if_pos h.1, fun h => ⟨what, hwhat, if_neg (h.resolve_right hop)⟩⟩

theorem exactly_of_refused {what : Fault.Overflow} (hwhat : overflow? op = some what)
    (hop : Refused op x y) : Exactly op x y n (.error (.overflow what)) :=
  ⟨fun h => absurd hop h.2, fun _ => ⟨what, hwhat, rfl⟩⟩

theorem not_refused (hmod : op ≠ .mod) (hpow : op ≠ .pow) : ¬ Refused op x y := by
  rintro (⟨h, -⟩ | ⟨h, -⟩)
  · exact hmod h
  · exact hpow h

theorem modulo_exactly (hy : y ≠ 0) : Exactly .mod x y (x.fmod y) (.int <$> modulo x y) := by
  unfold modulo
  rw [if_neg hy]
  split
  · next h => exact exactly_of_refused rfl (.inl ⟨rfl, h⟩)
  · next h =>
    refine exactly_of_fit rfl ?_
    rintro (⟨-, hleast⟩ | ⟨hpow, -⟩)
    · exact h hleast
    · cases hpow

theorem power_exactly (hy : 0 ≤ y) : Exactly .pow x y (x ^ y.toNat) (.int <$> power x y) := by
  rw [power_eq hy]
  split
  · next h =>
    refine exactly_of_fit rfl ?_
    rintro (⟨hmod, -⟩ | ⟨-, hlimit⟩)
    · cases hmod
    · exact Int.not_le.2 h hlimit
  · next h => exact exactly_of_refused rfl (.inr ⟨rfl, Int.not_lt.1 h⟩)

/-- An operator on two integers gives the exact result if it fits, and an error if it does not; what
is refused is an error in any case. -/
theorem ints_exactly (h : exactResult? op a.toInt b.toInt = some n) :
    Exactly op a.toInt b.toInt n (ints op a b) := by
  cases op with
  | add | sub | mul =>
    cases h
    exact exactly_of_fit rfl (not_refused (by simp) (by simp))
  | div => cases h
  | floorDiv =>
    obtain ⟨hb, h⟩ := Option.ite_none_left_eq_some.1 h
    cases h
    unfold ints floorDiv
    dsimp only
    rw [if_neg hb]
    exact exactly_of_fit rfl (not_refused (by simp) (by simp))
  | mod =>
    obtain ⟨hb, h⟩ := Option.ite_none_left_eq_some.1 h
    cases h
    exact modulo_exactly hb
  | pow =>
    obtain ⟨hb, h⟩ := Option.ite_none_left_eq_some.1 h
    cases h
    unfold ints
    dsimp only
    rw [if_neg hb]
    exact power_exactly (Int.not_lt.1 hb)
  | bitAnd =>
    cases h
    exact exactly_of_fits (Int64.toInt_and a b) (not_refused (by simp) (by simp))
  | bitOr =>
    cases h
    exact exactly_of_fits (Int64.toInt_or a b) (not_refused (by simp) (by simp))
  | bitXor =>
    cases h
    exact exactly_of_fits (Int64.toInt_xor a b) (not_refused (by simp) (by simp))
  | shiftLeft =>
    obtain ⟨hb, h⟩ := Option.ite_none_left_eq_some.1 h
    cases h
    unfold ints
    dsimp only
    rw [shiftLeft_eq (Int.not_lt.1 hb)]
    exact exactly_of_fit rfl (not_refused (by simp) (by simp))
  | shiftRight =>
    obtain ⟨hb, h⟩ := Option.ite_none_left_eq_some.1 h
    cases h
    unfold ints
    dsimp only
    rw [shiftRight_eq (fits_toInt a) (Int.not_lt.1 hb)]
    exact exactly_of_fits (toInt_ofInt_of_fits (fits_fdiv (fits_toInt a) _))
      (not_refused (by simp) (by simp))

/-- One to a huge power is one and the least integer is a multiple of minus one, but both are
errors. -/
theorem units_refused :
    (exactResult? .pow (1 : Int64).toInt (4294967296 : Int64).toInt = some 1 ∧
      ints .pow 1 4294967296 = .error (.overflow .exponentiation)) ∧
    (exactResult? .mod Int64.minValue.toInt (-1 : Int64).toInt = some 0 ∧
      ints .mod Int64.minValue (-1) = .error (.overflow .modulo)) := by
  refine ⟨⟨?_, rfl⟩, rfl, rfl⟩
  unfold exactResult?
  simp only [show (1 : Int64).toInt = 1 from rfl, one_pow]
  rfl

/-- A quotient and a remainder that are both there belong together: the remainder is what is left of
the dividend, and it is smaller than the divisor and on the same side of zero. -/
theorem floorDiv_modulo {q r : Int64} (hq : ints .floorDiv a b = .ok (.int q))
    (hr : ints .mod a b = .ok (.int r)) :
    a.toInt = b.toInt * q.toInt + r.toInt ∧ (0 < b.toInt → 0 ≤ r.toInt ∧ r.toInt < b.toInt) ∧
      (b.toInt < 0 → b.toInt < r.toInt ∧ r.toInt ≤ 0) := by
  have hb : b.toInt ≠ 0 := by
    intro hb
    unfold ints floorDiv at hq
    simp [hb] at hq
  have hexact (op : BinaryOp) {n : Int} {v : Int64} (h : exactResult? op a.toInt b.toInt = some n)
      (hv : ints op a b = .ok (.int v)) : v.toInt = n := by
    obtain ⟨hok, herror⟩ := ints_exactly h
    by_cases hrefused : ¬ fits n = true ∨ Refused op a.toInt b.toInt
    · obtain ⟨what, -, hwhat⟩ := herror hrefused
      cases hv.symm.trans hwhat
    · obtain ⟨hfits, hnot⟩ := not_or.1 hrefused
      have hfits := not_not.1 hfits
      have heq := hv.symm.trans (hok ⟨hfits, hnot⟩)
      cases heq
      exact toInt_ofInt_of_fits hfits
  rw [hexact .floorDiv (if_neg hb) hq, hexact .mod (if_neg hb) hr]
  refine ⟨(Int.mul_fdiv_add_fmod _ _).symm, fun h => ?_, fun h => ?_⟩
  · exact ⟨Int.fmod_nonneg_of_pos _ h, Int.fmod_lt_of_pos _ h⟩
  · rw [Int.fmod_eq_emod]
    have hlt := Int.emod_lt_of_neg a.toInt h
    have hnonneg := Int.emod_nonneg a.toInt hb
    split
    · next hdvd =>
      have := Int.emod_eq_zero_of_dvd (hdvd.resolve_left (by omega))
      omega
    · next hdvd =>
      have : a.toInt % b.toInt ≠ 0 := fun h0 => hdvd (.inr (Int.dvd_of_emod_eq_zero h0))
      omega

end Arithmetic

end StagedScript
