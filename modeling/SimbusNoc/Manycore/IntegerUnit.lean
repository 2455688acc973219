import SimbusNoc.Library.WordArithmetic
import SimbusNoc.Manycore.Decode

/-!
# The integer unit

`rvi64.cpp`: what the library computes for branches and for the integer instructions on registers
and immediates. A switch of the library is over the name of the instruction or over its function
fields. For each of them a table says which operation on words a case stands for, and the function
is that operation in every case of the table.

The functions are in the source's operators on `uint64_t`, `int64_t` and the 32-bit types, with the
casts as the source has them: the high half of a product goes through 128 bits, and divisions test
for zero and for the smallest number first. The operations that they are compared with are defined
by arithmetic on integers. There is one lemma for each operator, at 64 and at 32 bits, and
`execOp_eq` and the others only go through the cases.
-/

namespace Rv64archsem

open WordOp

/-! ## The functions -/

def mulhImpl (a b : UInt64) : UInt64 :=
  let result : BitVec 128 := a.toBitVec.signExtend 128 * b.toBitVec.signExtend 128
  .ofBitVec ((result >>> 64).setWidth 64)

def mulhsuImpl (a b : UInt64) : UInt64 :=
  let result : BitVec 128 := a.toBitVec.signExtend 128 * b.toBitVec.setWidth 128
  .ofBitVec ((result.sshiftRight 64).setWidth 64)

def mulhuImpl (a b : UInt64) : UInt64 :=
  let result : BitVec 128 := a.toBitVec.setWidth 128 * b.toBitVec.setWidth 128
  .ofBitVec ((result >>> 64).setWidth 64)

/-- The smallest number of 64 bits. -/
def int64Min : Int64 := Int64.minValue

/-- Whether a branch is taken. -/
def branchTaken (funct3 : UInt8) (rs1 rs2 : UInt64) : Bool :=
  match funct3.toNat with
  | 0 => rs1 == rs2
  | 1 => rs1 != rs2
  | 4 => decide (rs1.toInt64 < rs2.toInt64)
  | 5 => decide (rs1.toInt64 ≥ rs2.toInt64)
  | 6 => decide (rs1 < rs2)
  | 7 => decide (rs1 ≥ rs2)
  | _ => false

/-- `exec_branch`: the target, when the branch is taken. -/
def execBranch (inst : DecodedInst) (rs1 rs2 pc : UInt64) : Option UInt64 :=
  if branchTaken inst.funct3 rs1 rs2 then some (pc.toInt64 + inst.imm).toUInt64 else none

def execOpimm (inst : DecodedInst) (rs1 : UInt64) : UInt64 :=
  let imm := inst.imm.toUInt64
  match inst.instName with
  | .other 0x0010016 => rs1 + imm
  | .other 0x0010017 => rs1 <<< (imm &&& 0x3f)
  | .other 0x0010018 => if rs1.toInt64 < inst.imm then 1 else 0
  | .other 0x0010019 => if rs1 < imm then 1 else 0
  | .other 0x001001a => rs1 ^^^ imm
  | .other 0x001001b => rs1 >>> (imm &&& 0x3f)
  | .other 0x001001c => (rs1.toInt64 >>> (imm &&& 0x3f).toInt64).toUInt64
  | .other 0x001001d => rs1 ||| imm
  | .other 0x001001e => rs1 &&& imm
  | _ => 0

/-- A result of 32 bits as one of 64. -/
def intCast32 (result : UInt32) : UInt64 := result.toInt32.toInt64.toUInt64

def execOpimm32 (inst : DecodedInst) (rs1 : UInt64) : UInt64 :=
  let a := rs1.toUInt32
  let imm := inst.imm.toUInt64
  match inst.instName with
  | .other 0x0010029 => intCast32 (a + imm.toUInt32)
  | .other 0x001002a => intCast32 (a <<< (imm &&& 0x1f).toUInt32)
  | .other 0x001002b => intCast32 (a >>> (imm &&& 0x1f).toUInt32)
  | .other 0x001002c => intCast32 (a.toInt32 >>> (imm &&& 0x1f).toUInt32.toInt32).toUInt32
  | _ => 0

def execOp (inst : DecodedInst) (rs1 rs2 : UInt64) : UInt64 :=
  match inst.funct7.toNat <<< 3 ||| inst.funct3.toNat with
  | 0x000 => rs1 + rs2
  | 0x100 => rs1 - rs2
  | 0x001 => rs1 <<< (rs2 &&& 0x3f)
  | 0x002 => if rs1.toInt64 < rs2.toInt64 then 1 else 0
  | 0x003 => if rs1 < rs2 then 1 else 0
  | 0x004 => rs1 ^^^ rs2
  | 0x005 => rs1 >>> (rs2 &&& 0x3f)
  | 0x105 => (rs1.toInt64 >>> (rs2 &&& 0x3f).toInt64).toUInt64
  | 0x006 => rs1 ||| rs2
  | 0x007 => rs1 &&& rs2
  | 0x008 => .ofBitVec ((rs1.toBitVec.setWidth 128 * rs2.toBitVec.setWidth 128).setWidth 64)
  | 0x009 => mulhImpl rs1 rs2
  | 0x00a => mulhsuImpl rs1 rs2
  | 0x00b => mulhuImpl rs1 rs2
  | 0x00c =>
    let a := rs1.toInt64
    let b := rs2.toInt64
    if b = 0 then (-1 : Int64).toUInt64
    else if a = int64Min ∧ b = -1 then int64Min.toUInt64
    else (a / b).toUInt64
  | 0x00d => if rs2 = 0 then UInt64.ofNat (2 ^ 64 - 1) else rs1 / rs2
  | 0x00e =>
    let a := rs1.toInt64
    let b := rs2.toInt64
    if b = 0 then rs1
    else if a = int64Min ∧ b = -1 then 0
    else (a % b).toUInt64
  | 0x00f => if rs2 = 0 then rs1 else rs1 % rs2
  | _ => 0

def execOp32 (inst : DecodedInst) (rs1 rs2 : UInt64) : UInt64 :=
  let a := rs1.toUInt32
  let b := rs2.toUInt32
  let sa := a.toInt32
  let sb := b.toInt32
  match inst.instName with
  | .other 0x001002d => intCast32 (a + b)
  | .other 0x001002e => intCast32 (a - b)
  | .other 0x001002f => intCast32 (a <<< (b &&& 0x1f))
  | .other 0x0010030 => intCast32 (a >>> (b &&& 0x1f))
  | .other 0x0010031 => intCast32 (sa >>> (b &&& 0x1f).toInt32).toUInt32
  | .other 0x0020009 => intCast32 (a * b)
  | .other 0x002000a =>
    intCast32 (if sb = 0 then UInt32.ofNat (2 ^ 32 - 1)
      else if sa = Int32.minValue ∧ sb = -1 then Int32.minValue.toUInt32
      else (sa / sb).toUInt32)
  | .other 0x002000b => intCast32 (if b = 0 then UInt32.ofNat (2 ^ 32 - 1) else a / b)
  | .other 0x002000c =>
    intCast32 (if sb = 0 then a
      else if sa = Int32.minValue ∧ sb = -1 then 0
      else (sa % sb).toUInt32)
  | .other 0x002000d => intCast32 (if b = 0 then a else a % b)
  | _ => 0

/-! ## The operations behind the switches -/

/-- `RV64IntOP73`. -/
def intOp73 (n : ℕ) : Option WordOp :=
  [(0x000, .add), (0x100, .sub), (0x001, .sll), (0x002, .slt), (0x003, .sltu), (0x004, .xor),
    (0x005, .srl), (0x105, .sra), (0x006, .or), (0x007, .and), (0x008, .mul), (0x009, .mulh),
    (0x00a, .mulhsu), (0x00b, .mulhu), (0x00c, .div), (0x00d, .divu), (0x00e, .rem),
    (0x00f, .remu)].lookup n

/-- The operations with an immediate. -/
def opimmOf (name : InstName) : Option WordOp :=
  [(.other 0x0010016, .add), (.other 0x0010017, .sll), (.other 0x0010018, .slt),
    (.other 0x0010019, .sltu), (.other 0x001001a, .xor), (.other 0x001001b, .srl),
    (.other 0x001001c, .sra), (.other 0x001001d, .or), (.other 0x001001e, .and)].lookup name

def opimm32Of (name : InstName) : Option WordOp :=
  [(.other 0x0010029, .add), (.other 0x001002a, .sll), (.other 0x001002b, .srl),
    (.other 0x001002c, .sra)].lookup name

def op32Of (name : InstName) : Option WordOp :=
  [(.other 0x001002d, .add), (.other 0x001002e, .sub), (.other 0x001002f, .sll),
    (.other 0x0010030, .srl), (.other 0x0010031, .sra), (.other 0x0020009, .mul),
    (.other 0x002000a, .div), (.other 0x002000b, .divu), (.other 0x002000c, .rem),
    (.other 0x002000d, .remu)].lookup name

/-- An operation on registers. -/
def result64 (op : WordOp) (a b : UInt64) : UInt64 := .ofBitVec (op.result a.toBitVec b.toBitVec)

/-- An operation on the low halves of registers. -/
def result32 (op : WordOp) (a b : UInt64) : UInt64 :=
  .ofBitVec ((op.result a.toUInt32.toBitVec b.toUInt32.toBitVec).signExtend 64)

/-! ## Words of 64 bits

The operators of the source on `uint64_t` and `int64_t`, as operations on words.
-/

section Words64

variable (a b : UInt64)

/-- A remainder by a positive number is no negative one. -/
theorem toNat_smod {w : ℕ} {x y : BitVec w} (hx : x.msb = false) (hy : y.msb = false) :
    (x.smod y).toNat = x.toNat % y.toNat := by
  rw [BitVec.smod_eq, hx, hy]
  exact BitVec.toNat_umod

theorem toNat_and_0x3f : (b &&& 0x3f).toBitVec.toNat = b.toBitVec.toNat % 64 :=
  (UInt64.toNat_and b 0x3f).trans (Nat.and_two_pow_sub_one_eq_mod b.toNat 6)

theorem shiftLeft_eq : a <<< (b &&& 0x3f) = result64 .sll a b := by
  apply UInt64.eq_of_toBitVec_eq
  rw [result64, result_sll, UInt64.toBitVec_shiftLeft, BitVec.shiftLeft_eq', BitVec.toNat_umod,
    toNat_and_0x3f]
  exact congrArg (a.toBitVec <<< ·) (Nat.mod_mod _ 64)

theorem shiftRight_eq : a >>> (b &&& 0x3f) = result64 .srl a b := by
  apply UInt64.eq_of_toBitVec_eq
  rw [result64, result_srl, UInt64.toBitVec_shiftRight, BitVec.ushiftRight_eq', BitVec.toNat_umod,
    toNat_and_0x3f]
  exact congrArg (a.toBitVec >>> ·) (Nat.mod_mod _ 64)

theorem sshiftRight_eq :
    (a.toInt64 >>> (b &&& 0x3f).toInt64).toUInt64 = result64 .sra a b := by
  have hb : (b &&& 0x3f).toBitVec.msb = false := by
    rw [BitVec.msb_eq_false_iff_two_mul_lt, toNat_and_0x3f]
    omega
  apply UInt64.eq_of_toBitVec_eq
  rw [result64, result_sra, Int64.toBitVec_toUInt64, Int64.toBitVec_shiftRight,
    BitVec.sshiftRight', UInt64.toBitVec_toInt64, UInt64.toBitVec_toInt64, toNat_smod hb rfl,
    toNat_and_0x3f]
  exact congrArg a.toBitVec.sshiftRight (Nat.mod_mod _ 64)

theorem lessThan_eq : (if a.toInt64 < b.toInt64 then 1 else 0) = result64 .slt a b := by
  simp only [result64, result_slt, Int64.lt_iff_toInt_lt]
  exact (apply_ite UInt64.ofBitVec ..).symm

theorem lessThanU_eq : (if a < b then 1 else 0) = result64 .sltu a b := by
  simp only [result64, result_sltu, UInt64.lt_iff_toNat_lt]
  exact (apply_ite UInt64.ofBitVec ..).symm

theorem mulLow_eq : .ofBitVec ((a.toBitVec.setWidth 128 * b.toBitVec.setWidth 128).setWidth 64) =
    result64 .mul a b :=
  congrArg UInt64.ofBitVec (setWidth_mul_setWidth a.toBitVec b.toBitVec)

theorem mulhImpl_eq : mulhImpl a b = result64 .mulh a b :=
  congrArg UInt64.ofBitVec (mulh_eq a.toBitVec b.toBitVec)

theorem mulhsuImpl_eq : mulhsuImpl a b = result64 .mulhsu a b :=
  congrArg UInt64.ofBitVec (mulhsu_eq a.toBitVec b.toBitVec)

theorem mulhuImpl_eq : mulhuImpl a b = result64 .mulhu a b :=
  congrArg UInt64.ofBitVec (mulhu_eq a.toBitVec b.toBitVec)

theorem div_eq : (if b.toInt64 = 0 then (-1 : Int64).toUInt64
      else if a.toInt64 = int64Min ∧ b.toInt64 = -1 then int64Min.toUInt64
      else (a.toInt64 / b.toInt64).toUInt64) = result64 .div a b := by
  simp only [result64, div_eq_ite, apply_ite UInt64.ofBitVec, ← Int64.toBitVec_inj]
  rfl

theorem rem_eq : (if b.toInt64 = 0 then a
      else if a.toInt64 = int64Min ∧ b.toInt64 = -1 then 0
      else (a.toInt64 % b.toInt64).toUInt64) = result64 .rem a b := by
  simp only [result64, rem_eq_ite, apply_ite UInt64.ofBitVec, ← Int64.toBitVec_inj]
  rfl

theorem divu_eq : (if b = 0 then UInt64.ofNat (2 ^ 64 - 1) else a / b) = result64 .divu a b := by
  simp only [result64, result_divu, apply_ite UInt64.ofBitVec, ← UInt64.toBitVec_inj]
  rfl

theorem remu_eq : (if b = 0 then a else a % b) = result64 .remu a b := by
  simp only [result64, result_remu, apply_ite UInt64.ofBitVec, ← UInt64.toBitVec_inj]
  rfl

end Words64

/-- `exec_op` computes the operation that the function fields stand for. -/
theorem execOp_eq (inst : DecodedInst) (a b : UInt64) :
    execOp inst a b =
      ((intOp73 (inst.funct7.toNat <<< 3 ||| inst.funct3.toNat)).map (result64 · a b)).getD 0 := by
  rw [execOp]
  generalize inst.funct7.toNat <<< 3 ||| inst.funct3.toNat = n
  split
  · exact congrArg UInt64.ofBitVec (result_add ..).symm
  · exact congrArg UInt64.ofBitVec (result_sub ..).symm
  · exact shiftLeft_eq a b
  · exact lessThan_eq a b
  · exact lessThanU_eq a b
  · exact congrArg UInt64.ofBitVec (result_xor ..).symm
  · exact shiftRight_eq a b
  · exact sshiftRight_eq a b
  · exact congrArg UInt64.ofBitVec (result_or ..).symm
  · exact congrArg UInt64.ofBitVec (result_and ..).symm
  · exact mulLow_eq a b
  · exact mulhImpl_eq a b
  · exact mulhsuImpl_eq a b
  · exact mulhuImpl_eq a b
  · exact div_eq a b
  · exact divu_eq a b
  · exact rem_eq a b
  · exact remu_eq a b
  · have hnone : intOp73 n = none := by simp_all [intOp73, List.lookup_eq_none_iff]
    rw [hnone]
    rfl

theorem execOpimm_eq (inst : DecodedInst) (a : UInt64) :
    execOpimm inst a =
      ((opimmOf inst.instName).map (result64 · a inst.imm.toUInt64)).getD 0 := by
  rw [execOpimm]
  generalize inst.instName = name
  split
  · exact congrArg UInt64.ofBitVec (result_add ..).symm
  · exact shiftLeft_eq ..
  · exact lessThan_eq ..
  · exact lessThanU_eq ..
  · exact congrArg UInt64.ofBitVec (result_xor ..).symm
  · exact shiftRight_eq ..
  · exact sshiftRight_eq ..
  · exact congrArg UInt64.ofBitVec (result_or ..).symm
  · exact congrArg UInt64.ofBitVec (result_and ..).symm
  · have hnone : opimmOf name = none := by simp_all [opimmOf, List.lookup_eq_none_iff]
    rw [hnone]
    rfl

/-! ## Words of 32 bits

A 32-bit operation works on the low halves of its operands and extends the sign of its result.
-/

section Words32

variable (a b : UInt64)

theorem intCast32_eq (word : UInt32) : intCast32 word = .ofBitVec (word.toBitVec.signExtend 64) :=
  rfl

theorem toNat_and_0x1f (s : UInt32) : (s &&& 0x1f).toBitVec.toNat = s.toBitVec.toNat % 32 :=
  (UInt32.toNat_and s 0x1f).trans (Nat.and_two_pow_sub_one_eq_mod s.toNat 5)

theorem shiftLeft32_eq : intCast32 (a.toUInt32 <<< (b.toUInt32 &&& 0x1f)) = result32 .sll a b := by
  rw [intCast32_eq, result32, result_sll, UInt32.toBitVec_shiftLeft, BitVec.shiftLeft_eq',
    BitVec.toNat_umod, toNat_and_0x1f]
  exact congrArg (fun n ↦ UInt64.ofBitVec ((a.toUInt32.toBitVec <<< n).signExtend 64))
    (Nat.mod_mod _ 32)

theorem shiftRight32_eq : intCast32 (a.toUInt32 >>> (b.toUInt32 &&& 0x1f)) = result32 .srl a b := by
  rw [intCast32_eq, result32, result_srl, UInt32.toBitVec_shiftRight, BitVec.ushiftRight_eq',
    BitVec.toNat_umod, toNat_and_0x1f]
  exact congrArg (fun n ↦ UInt64.ofBitVec ((a.toUInt32.toBitVec >>> n).signExtend 64))
    (Nat.mod_mod _ 32)

theorem sshiftRight32_eq :
    intCast32 (a.toUInt32.toInt32 >>> (b.toUInt32 &&& 0x1f).toInt32).toUInt32 =
      result32 .sra a b := by
  have hb : (b.toUInt32 &&& 0x1f).toBitVec.msb = false := by
    rw [BitVec.msb_eq_false_iff_two_mul_lt, toNat_and_0x1f]
    omega
  rw [intCast32_eq, result32, result_sra, Int32.toBitVec_toUInt32, Int32.toBitVec_shiftRight,
    BitVec.sshiftRight', UInt32.toBitVec_toInt32, UInt32.toBitVec_toInt32, toNat_smod hb rfl,
    toNat_and_0x1f]
  exact congrArg (fun n ↦ UInt64.ofBitVec ((a.toUInt32.toBitVec.sshiftRight n).signExtend 64))
    (Nat.mod_mod _ 32)

theorem div32_eq : intCast32 (if b.toUInt32.toInt32 = 0 then UInt32.ofNat (2 ^ 32 - 1)
      else if a.toUInt32.toInt32 = Int32.minValue ∧ b.toUInt32.toInt32 = -1 then
        Int32.minValue.toUInt32
      else (a.toUInt32.toInt32 / b.toUInt32.toInt32).toUInt32) = result32 .div a b := by
  simp only [result32, div_eq_ite, apply_ite intCast32, apply_ite (BitVec.signExtend 64),
    apply_ite UInt64.ofBitVec, ← Int32.toBitVec_inj]
  rfl

theorem divu32_eq : intCast32 (if b.toUInt32 = 0 then UInt32.ofNat (2 ^ 32 - 1)
      else a.toUInt32 / b.toUInt32) = result32 .divu a b := by
  simp only [result32, result_divu, apply_ite intCast32, apply_ite (BitVec.signExtend 64),
    apply_ite UInt64.ofBitVec, ← UInt32.toBitVec_inj]
  rfl

theorem rem32_eq : intCast32 (if b.toUInt32.toInt32 = 0 then a.toUInt32
      else if a.toUInt32.toInt32 = Int32.minValue ∧ b.toUInt32.toInt32 = -1 then 0
      else (a.toUInt32.toInt32 % b.toUInt32.toInt32).toUInt32) = result32 .rem a b := by
  simp only [result32, rem_eq_ite, apply_ite intCast32, apply_ite (BitVec.signExtend 64),
    apply_ite UInt64.ofBitVec, ← Int32.toBitVec_inj]
  rfl

theorem remu32_eq : intCast32 (if b.toUInt32 = 0 then a.toUInt32
      else a.toUInt32 % b.toUInt32) = result32 .remu a b := by
  simp only [result32, result_remu, apply_ite intCast32, apply_ite (BitVec.signExtend 64),
    apply_ite UInt64.ofBitVec, ← UInt32.toBitVec_inj]
  rfl

theorem add32_eq : intCast32 (a.toUInt32 + b.toUInt32) = result32 .add a b := by
  rw [result32, result_add]
  rfl

theorem sub32_eq : intCast32 (a.toUInt32 - b.toUInt32) = result32 .sub a b := by
  rw [result32, result_sub]
  rfl

theorem mul32_eq : intCast32 (a.toUInt32 * b.toUInt32) = result32 .mul a b := by
  rw [result32, result_mul]
  rfl

end Words32

theorem execOp32_eq (inst : DecodedInst) (a b : UInt64) :
    execOp32 inst a b = ((op32Of inst.instName).map (result32 · a b)).getD 0 := by
  rw [execOp32]
  generalize inst.instName = name
  split
  · exact add32_eq a b
  · exact sub32_eq a b
  · exact shiftLeft32_eq a b
  · exact shiftRight32_eq a b
  · exact sshiftRight32_eq a b
  · exact mul32_eq a b
  · exact div32_eq a b
  · exact divu32_eq a b
  · exact rem32_eq a b
  · exact remu32_eq a b
  · have hnone : op32Of name = none := by simp_all [op32Of, List.lookup_eq_none_iff]
    rw [hnone]
    rfl

theorem execOpimm32_eq (inst : DecodedInst) (a : UInt64) :
    execOpimm32 inst a =
      ((opimm32Of inst.instName).map (result32 · a inst.imm.toUInt64)).getD 0 := by
  have hmask : (inst.imm.toUInt64 &&& 0x1f).toUInt32 = inst.imm.toUInt64.toUInt32 &&& 0x1f :=
    UInt64.toUInt32_and ..
  rw [execOpimm32, hmask]
  generalize inst.instName = name
  split
  · exact add32_eq a _
  · exact shiftLeft32_eq a _
  · exact shiftRight32_eq a _
  · exact sshiftRight32_eq a _
  · have hnone : opimm32Of name = none := by simp_all [opimm32Of, List.lookup_eq_none_iff]
    rw [hnone]
    rfl

end Rv64archsem
