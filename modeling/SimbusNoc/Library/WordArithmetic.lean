import Mathlib.Algebra.Ring.Int.Defs
import Mathlib.Algebra.Ring.Nat
import Mathlib.Tactic.SplitIfs

/-!
# Arithmetic on words

The operations of an integer unit on words of `w` bits, by what they mean for the integers that the
words stand for: the result is the value of the operation, reduced to `w` bits. The lemmas say how
a machine gets the same word from its own operations. A high half comes from a product of twice the
width, and the one quotient that does not fit wraps around.

## Meaning first

`value` is over the integers and has no width in it beyond what the operation itself speaks of,
such as the amount of a shift. Whether an operation reads its operands with or without a sign is
said there, once, by the cast it applies. So two operations that give the same word, such as a sum
with and without signs, have one entry, and those that do not, such as the two remainders, have
two.

## What a machine does instead

A machine has words only. For the sums and the bitwise operations its word is the reduced value by
the laws of the casts. A shift to the right with a sign rounds down, as the integer quotient does.
A product of twice the width is exact, and its upper half is the reduced quotient of the value by
the weight of that half. A quotient with signs is reduced only in one case, the smallest number
divided by -1, which a machine may have to single out because its own division is not defined
there.
-/

/-- The operations of an integer unit. -/
inductive WordOp
  | add | sub | sll | slt | sltu | xor | srl | sra | or | and
  | mul | mulh | mulhsu | mulhu | div | divu | rem | remu
  deriving DecidableEq

namespace WordOp

variable {w : ℕ} (a b : BitVec w)

/-- The value of an operation before it is reduced. A shift is by the second operand modulo the
width. A quotient by zero is -1, and the remainder of a division by zero is the dividend. -/
def value (op : WordOp) (a b : BitVec w) : ℤ :=
  match op with
  | add => a.toInt + b.toInt
  | sub => a.toInt - b.toInt
  | sll => a.toInt * 2 ^ (b.toNat % w)
  | slt => if a.toInt < b.toInt then 1 else 0
  | sltu => if a.toNat < b.toNat then 1 else 0
  | xor => (a ^^^ b).toInt
  | srl => a.toNat / 2 ^ (b.toNat % w)
  | sra => a.toInt / 2 ^ (b.toNat % w)
  | or => (a ||| b).toInt
  | and => (a &&& b).toInt
  | mul => a.toInt * b.toInt
  | mulh => a.toInt * b.toInt / 2 ^ w
  | mulhsu => a.toInt * b.toNat / 2 ^ w
  | mulhu => a.toNat * b.toNat / 2 ^ w
  | div => if b = 0 then -1 else a.toInt.tdiv b.toInt
  | divu => if b = 0 then -1 else a.toNat / b.toNat
  | rem => if b = 0 then a.toInt else a.toInt.tmod b.toInt
  | remu => if b = 0 then a.toNat else a.toNat % b.toNat

/-- The word that an operation gives. -/
def result (op : WordOp) (a b : BitVec w) : BitVec w := BitVec.ofInt w (op.value a b)

/-! ## Sums, shifts and comparisons -/

@[simp] theorem result_add : add.result a b = a + b := by
  rw [result, value, BitVec.ofInt_add, BitVec.ofInt_toInt, BitVec.ofInt_toInt]

@[simp] theorem result_sub : sub.result a b = a - b := by
  rw [result, value, Int.sub_eq_add_neg, BitVec.ofInt_add, BitVec.ofInt_neg, BitVec.ofInt_toInt,
    BitVec.ofInt_toInt, BitVec.sub_eq_add_neg]

@[simp] theorem result_xor : xor.result a b = a ^^^ b := BitVec.ofInt_toInt

@[simp] theorem result_or : or.result a b = a ||| b := BitVec.ofInt_toInt

@[simp] theorem result_and : and.result a b = a &&& b := BitVec.ofInt_toInt

theorem ofInt_mul_two_pow (x : ℤ) (n : ℕ) :
    BitVec.ofInt w (x * 2 ^ n) = BitVec.ofInt w x <<< n := by
  rw [BitVec.shiftLeft_eq_mul_twoPow, BitVec.ofInt_mul]
  congr 1
  apply BitVec.eq_of_toNat_eq
  rw [BitVec.toNat_ofInt, BitVec.toNat_twoPow, show (2 : ℤ) ^ n = ((2 ^ n : ℕ) : ℤ) by simp,
    ← Int.natCast_emod, Int.toNat_natCast]

@[simp] theorem result_sll : sll.result a b = a <<< (b.toNat % w) := by
  rw [result, value, ofInt_mul_two_pow, BitVec.ofInt_toInt]

@[simp] theorem result_srl : srl.result a b = a >>> (b.toNat % w) := by
  have hshift : ((a >>> (b.toNat % w)).toNat : ℤ) = a.toNat / 2 ^ (b.toNat % w) := by
    rw [BitVec.toNat_ushiftRight, Nat.shiftRight_eq_div_pow]
    simp
  rw [result, value, ← hshift, BitVec.ofInt_natCast, BitVec.ofNat_toNat, BitVec.setWidth_eq]

@[simp] theorem result_sra : sra.result a b = a.sshiftRight (b.toNat % w) := by
  have hshift : (a.sshiftRight (b.toNat % w)).toInt = a.toInt / 2 ^ (b.toNat % w) := by
    rw [BitVec.toInt_sshiftRight, Int.shiftRight_eq_div_pow]
    simp
  rw [result, value, ← hshift, BitVec.ofInt_toInt]

@[simp] theorem result_slt : slt.result a b = if a.toInt < b.toInt then 1 else 0 := by
  rw [result, value]
  split_ifs <;> simp

@[simp] theorem result_sltu : sltu.result a b = if a.toNat < b.toNat then 1 else 0 := by
  rw [result, value]
  split_ifs <;> simp

/-! ## Signs

A sign is extended by copying a bit upwards, which machines do with two shifts and programs with a
mask.
-/

/-- A word whose value has `n + 1` bits, with the highest of them copied upwards. -/
theorem extendSign_eq {n : ℕ} {x : BitVec w} (hx : x.toNat < 2 ^ (n + 1)) :
    (if x.getLsbD n then x ||| (BitVec.allOnes w <<< (n + 1)) else x) =
      (x.setWidth (n + 1)).signExtend w := by
  have hhigh (i : ℕ) (hi : n < i) : x.getLsbD i = false :=
    Nat.testBit_lt_two_pow (Nat.lt_of_lt_of_le hx (Nat.pow_le_pow_right (by decide) hi))
  apply BitVec.eq_of_getLsbD_eq
  intro i hi
  rw [BitVec.getLsbD_signExtend, BitVec.msb_setWidth'', BitVec.getLsbD_setWidth]
  by_cases hin : i < n + 1
  · split_ifs <;> simp [hi, hin]
  · have hnone := hhigh i (by omega)
    split_ifs with hsign
    · simp [hi, hin, hsign]
    · rw [hnone]
      simp [hi, hsign]

/-- Shifting up and down again copies the highest bit. -/
theorem sshiftRight_shiftLeft {n : ℕ} (x : BitVec w) (hpos : 0 < n) (hle : n ≤ w) :
    (x <<< (w - n)).sshiftRight (w - n) = (x.setWidth n).signExtend w := by
  apply BitVec.eq_of_getLsbD_eq
  intro i hi
  rw [BitVec.getLsbD_sshiftRight, BitVec.getLsbD_signExtend, BitVec.msb_setWidth,
    BitVec.msb_shiftLeft, BitVec.getLsbD_shiftLeft, BitVec.getLsbD_setWidth,
    BitVec.getMsbD_eq_getLsbD]
  by_cases hlow : i < n
  · have hindex : w - n + i - (w - n) = i := by omega
    simp [hlow, hi, hindex, show ¬ w ≤ i by omega, show w - n + i < w by omega,
      show ¬ w - n + i < w - n by omega]
  · have htop : w - 1 - (w - n) = n - 1 := by omega
    simp [hlow, hi, hpos, htop, show ¬ w ≤ i by omega, show ¬ w - n + i < w by omega,
      show w - n < w by omega]

/-! ## Products

The low half of a product is the same for signed and unsigned factors. The high half is taken from
a product of twice the width, in which each factor is extended by its own sign or by zeros.
-/

theorem emod_mul_ediv (x y : ℤ) {a : ℤ} (ha : 0 < a) : x % (a * y) / a = x / a % y := by
  rw [Int.emod_def, Int.emod_def, ← Int.ediv_ediv_of_nonneg (Int.le_of_lt ha), Int.mul_assoc,
    Int.sub_mul_ediv_left _ _ (Int.ne_of_gt ha)]

/-- The high half of a word of twice the width. -/
theorem ushiftRight_ofInt (x : ℤ) :
    (BitVec.ofInt (w + w) x >>> w).setWidth w = BitVec.ofInt w (x / 2 ^ w) := by
  have hpos (n : ℕ) : (0 : ℤ) < 2 ^ n := Int.pow_pos (by decide)
  have hnonneg (y : ℤ) (n : ℕ) : 0 ≤ y % 2 ^ n := Int.emod_nonneg y (Int.ne_of_gt (hpos n))
  have hhigh : x % 2 ^ (w + w) / 2 ^ w = x / 2 ^ w % 2 ^ w := by
    rw [Int.pow_add]
    exact emod_mul_ediv x (2 ^ w) (hpos w)
  apply BitVec.eq_of_toNat_eq
  simp only [BitVec.toNat_setWidth, BitVec.toNat_ushiftRight, BitVec.toNat_ofInt,
    Nat.shiftRight_eq_div_pow, Int.natCast_pow, Int.cast_ofNat_Int]
  apply Int.ofNat.inj
  simp only [Int.ofNat_eq_natCast, Int.natCast_emod, Int.natCast_ediv, Int.natCast_pow,
    Int.cast_ofNat_Int]
  rw [Int.toNat_of_nonneg (hnonneg _ _), Int.toNat_of_nonneg (hnonneg _ _), hhigh, Int.emod_emod]

theorem sshiftRight_ofInt (x : ℤ) :
    ((BitVec.ofInt (w + w) x).sshiftRight w).setWidth w = BitVec.ofInt w (x / 2 ^ w) := by
  rw [← ushiftRight_ofInt]
  apply BitVec.eq_of_getLsbD_eq
  intro i hi
  have hlt : w + i < w + w := by omega
  simp [BitVec.getLsbD_sshiftRight, hi, hlt, Nat.not_le.mpr (show i < w + w by omega)]

@[simp] theorem result_mul : mul.result a b = a * b := by
  rw [result, value, BitVec.ofInt_mul, BitVec.ofInt_toInt, BitVec.ofInt_toInt]

/-- The low half of a product does not depend on the signs. -/
theorem setWidth_mul_setWidth :
    (a.setWidth (w + w) * b.setWidth (w + w)).setWidth w = mul.result a b := by
  rw [result_mul]
  apply BitVec.eq_of_toNat_eq
  simp only [BitVec.toNat_setWidth, BitVec.toNat_mul]
  rw [Nat.mod_mod_of_dvd _ (Nat.pow_dvd_pow 2 (Nat.le_add_right w w)),
    Nat.mod_eq_of_lt (Nat.lt_of_lt_of_le a.isLt (Nat.pow_le_pow_right (by decide) (by omega))),
    Nat.mod_eq_of_lt (Nat.lt_of_lt_of_le b.isLt (Nat.pow_le_pow_right (by decide) (by omega)))]

theorem mulh_eq :
    ((a.signExtend (w + w) * b.signExtend (w + w)) >>> w).setWidth w = mulh.result a b := by
  have hproduct : a.signExtend (w + w) * b.signExtend (w + w) =
      BitVec.ofInt (w + w) (a.toInt * b.toInt) := (BitVec.ofInt_mul _ _).symm
  rw [hproduct, ushiftRight_ofInt]
  rfl

theorem setWidth_eq_ofInt (n : ℕ) : a.setWidth n = BitVec.ofInt n a.toNat := by
  rw [BitVec.ofInt_natCast, BitVec.ofNat_toNat]

theorem mulhsu_eq :
    ((a.signExtend (w + w) * b.setWidth (w + w)).sshiftRight w).setWidth w =
      mulhsu.result a b := by
  have hproduct : a.signExtend (w + w) * b.setWidth (w + w) =
      BitVec.ofInt (w + w) (a.toInt * b.toNat) := by
    rw [setWidth_eq_ofInt]
    exact (BitVec.ofInt_mul _ _).symm
  rw [hproduct, sshiftRight_ofInt]
  rfl

theorem mulhu_eq :
    ((a.setWidth (w + w) * b.setWidth (w + w)) >>> w).setWidth w = mulhu.result a b := by
  have hproduct : a.setWidth (w + w) * b.setWidth (w + w) =
      BitVec.ofInt (w + w) (a.toNat * b.toNat) := by
    rw [setWidth_eq_ofInt, setWidth_eq_ofInt]
    exact (BitVec.ofInt_mul _ _).symm
  rw [hproduct, ushiftRight_ofInt]
  rfl

/-! ## Quotients -/

@[simp] theorem result_div : div.result a b = if b = 0 then -1 else a.sdiv b := by
  rw [result, value]
  split_ifs
  · exact BitVec.ofInt_neg
  · apply BitVec.eq_of_toInt_eq
    rw [BitVec.toInt_sdiv, BitVec.toInt_ofInt]

/-- A machine that may not divide the smallest number by -1 singles that case out. -/
theorem div_eq_ite : div.result a b =
    if b = 0 then -1 else if a = BitVec.intMin w ∧ b = -1 then BitVec.intMin w else a.sdiv b := by
  rw [result_div]
  by_cases hb : b = 0
  · rw [if_pos hb, if_pos hb]
  · rw [if_neg hb, if_neg hb]
    split_ifs with h
    · rw [h.1, h.2]
      exact BitVec.intMin_sdiv_neg_one
    · rfl

@[simp] theorem result_divu : divu.result a b = if b = 0 then -1 else a / b := by
  rw [result, value]
  split_ifs
  · exact BitVec.ofInt_neg
  · rw [← Int.natCast_ediv, ← BitVec.toNat_udiv, BitVec.ofInt_natCast, BitVec.ofNat_toNat,
      BitVec.setWidth_eq]

@[simp] theorem result_rem : rem.result a b = if b = 0 then a else a.srem b := by
  rw [result, value]
  split_ifs
  · exact BitVec.ofInt_toInt
  · rw [← BitVec.toInt_srem, BitVec.ofInt_toInt]

theorem rem_eq_ite : rem.result a b =
    if b = 0 then a else if a = BitVec.intMin w ∧ b = -1 then 0 else a.srem b := by
  rw [result_rem]
  by_cases hb : b = 0
  · rw [if_pos hb, if_pos hb]
  · rw [if_neg hb, if_neg hb]
    split_ifs with h
    · have hone : b.toInt = -1 := by
        have hpos : 0 < w := Nat.pos_of_ne_zero fun hw ↦ by
          subst hw
          exact hb (Subsingleton.elim b 0)
        rw [h.2]
        change (-1#w).toInt = -1
        rw [BitVec.neg_one_eq_allOnes, BitVec.toInt_allOnes, if_pos hpos]
      apply BitVec.eq_of_toInt_eq
      rw [BitVec.toInt_srem, hone]
      simp
    · rfl

@[simp] theorem result_remu : remu.result a b = if b = 0 then a else a % b := by
  rw [result, value]
  split_ifs
  · rw [BitVec.ofInt_natCast, BitVec.ofNat_toNat, BitVec.setWidth_eq]
  · rw [← Int.natCast_emod, ← BitVec.toNat_umod, BitVec.ofInt_natCast, BitVec.ofNat_toNat,
      BitVec.setWidth_eq]

end WordOp
