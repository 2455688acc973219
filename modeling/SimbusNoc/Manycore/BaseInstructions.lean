import SimbusNoc.Library.WordArithmetic
import SimbusNoc.Manycore.Decode

/-!
# The base instructions

The instructions on integer registers with their encodings: arithmetic, branches, jumps, loads and
stores, the fences, the read of the hart's number and the two environment calls. A word consists of
six fields, and the formats differ in where they keep the bits of an immediate.

`Instruction.decoded` is what the decoder is to give for each of them. `decode_encode` says that it
does.

## Words as numbers

`wordOf` is a sum of six products, so the source's `extract`, which shifts and masks, becomes a
quotient and a remainder, and a field is found by arithmetic. Each format has one lemma,
`setupI_wordI` and its like, that says what the source's `setup` function leaves in the operands.
The immediates of branches and jumps count half words, since their lowest bit is not encoded, and
their four parts are put together again as numbers without a bit in common.

## The instructions

`Instruction` has one constructor for each shape of operands, with the operation as an argument, so
a family of instructions is one case of `encode`, of `decoded` and of every proof.
-/

namespace Rv64archsem

/-! ## Fields of a word -/

/-- A word from its six fields. -/
def wordOf (opcode : Fin 128) (rd : Fin 32) (funct3 : Fin 8) (rs1 rs2 : Fin 32) (funct7 : Fin 128) :
    UInt32 :=
  UInt32.ofNat
    (opcode + rd * 2 ^ 7 + funct3 * 2 ^ 12 + rs1 * 2 ^ 15 + rs2 * 2 ^ 20 + funct7 * 2 ^ 25)

/-- A word whose upper 20 bits are one field. -/
def upperWord (opcode : Fin 128) (rd : Fin 32) (upper : ℕ) : UInt32 :=
  wordOf opcode rd (.ofNat 8 upper) (.ofNat 32 (upper / 2 ^ 3)) (.ofNat 32 (upper / 2 ^ 8))
    (.ofNat 128 (upper / 2 ^ 13))

/-- An immediate in the upper 12 bits. -/
def wordI (opcode : Fin 128) (rd : Fin 32) (funct3 : Fin 8) (rs1 : Fin 32) (imm : BitVec 12) :
    UInt32 :=
  wordOf opcode rd funct3 rs1 (.ofNat 32 imm.toNat) (.ofNat 128 (imm.toNat / 2 ^ 5))

/-- An immediate in the place of `rd` and the upper 7 bits. -/
def wordS (opcode : Fin 128) (funct3 : Fin 8) (rs1 rs2 : Fin 32) (imm : BitVec 12) : UInt32 :=
  wordOf opcode (.ofNat 32 imm.toNat) funct3 rs1 rs2 (.ofNat 128 (imm.toNat / 2 ^ 5))

/-- An offset in half words, in the same places. -/
def wordB (opcode : Fin 128) (funct3 : Fin 8) (rs1 rs2 : Fin 32) (offset : BitVec 12) : UInt32 :=
  let n := offset.toNat
  wordOf opcode (.ofNat 32 (n / 2 ^ 10 % 2 + n % 2 ^ 4 * 2)) funct3 rs1 rs2
    (.ofNat 128 (n / 2 ^ 4 % 2 ^ 6 + n / 2 ^ 11 * 2 ^ 6))

/-- An offset in half words in the upper 20 bits. -/
def wordJ (opcode : Fin 128) (rd : Fin 32) (offset : BitVec 20) : UInt32 :=
  let n := offset.toNat
  upperWord opcode rd
    (n / 2 ^ 11 % 2 ^ 8 + n / 2 ^ 10 % 2 * 2 ^ 8 + n % 2 ^ 10 * 2 ^ 9 + n / 2 ^ 19 * 2 ^ 19)

/-! ## Instructions -/

/-- The conditions of branches. -/
inductive Condition
  | beq | bne | blt | bge | bltu | bgeu
  deriving DecidableEq

inductive LoadKind
  | lb | lh | lw | ld | lbu | lhu | lwu
  deriving DecidableEq

inductive StoreKind
  | sb | sh | sw | sd
  deriving DecidableEq

/-- The operations with an immediate other than shifts. -/
inductive ImmOp
  | addi | slti | sltiu | xori | ori | andi
  deriving DecidableEq

/-- Left, logical right and arithmetic right. -/
inductive Shift
  | left | right | rightArithmetic
  deriving DecidableEq

/-- The operations on the low halves of registers. -/
inductive Op32
  | addw | subw | sllw | srlw | sraw | mulw | divw | divuw | remw | remuw
  deriving DecidableEq

/-- An instruction with its operands. The offsets of branches and jumps count half words. -/
inductive Instruction
  | lui (rd : Fin 32) (imm : BitVec 20)
  | auipc (rd : Fin 32) (imm : BitVec 20)
  | jal (rd : Fin 32) (offset : BitVec 20)
  | jalr (rd rs1 : Fin 32) (offset : BitVec 12)
  | branch (condition : Condition) (rs1 rs2 : Fin 32) (offset : BitVec 12)
  | load (kind : LoadKind) (rd rs1 : Fin 32) (offset : BitVec 12)
  | store (kind : StoreKind) (rs1 rs2 : Fin 32) (offset : BitVec 12)
  | opImm (op : ImmOp) (rd rs1 : Fin 32) (imm : BitVec 12)
  | shiftImm (shift : Shift) (rd rs1 : Fin 32) (shamt : Fin 64)
  | opReg (op : WordOp) (rd rs1 rs2 : Fin 32)
  | addiw (rd rs1 : Fin 32) (imm : BitVec 12)
  | shiftImm32 (shift : Shift) (rd rs1 shamt : Fin 32)
  | opReg32 (op : Op32) (rd rs1 rs2 : Fin 32)
  | fence (mode : BitVec 12)
  | fenceI (mode : BitVec 12)
  | csrrHartId (rd : Fin 32)
  | ecall
  | ebreak
  deriving DecidableEq

def Condition.funct3 : Condition → Fin 8
  | beq => 0
  | bne => 1
  | blt => 4
  | bge => 5
  | bltu => 6
  | bgeu => 7

def LoadKind.funct3 : LoadKind → Fin 8
  | lb => 0
  | lh => 1
  | lw => 2
  | ld => 3
  | lbu => 4
  | lhu => 5
  | lwu => 6

def StoreKind.funct3 : StoreKind → Fin 8
  | sb => 0
  | sh => 1
  | sw => 2
  | sd => 3

def ImmOp.funct3 : ImmOp → Fin 8
  | addi => 0
  | slti => 2
  | sltiu => 3
  | xori => 4
  | ori => 6
  | andi => 7

def Shift.funct3 : Shift → Fin 8
  | left => 1
  | right => 5
  | rightArithmetic => 5

/-- The immediate of a shift: the amount, with a bit for the arithmetic one. -/
def Shift.imm (shift : Shift) (shamt : ℕ) : BitVec 12 :=
  BitVec.ofNat 12 (shamt + if shift = rightArithmetic then 2 ^ 10 else 0)

def opFunct3 : WordOp → Fin 8
  | .add | .sub | .mul => 0
  | .sll | .mulh => 1
  | .slt | .mulhsu => 2
  | .sltu | .mulhu => 3
  | .xor | .div => 4
  | .srl | .sra | .divu => 5
  | .or | .rem => 6
  | .and | .remu => 7

def opFunct7 : WordOp → Fin 128
  | .sub | .sra => 0x20
  | .mul | .mulh | .mulhsu | .mulhu | .div | .divu | .rem | .remu => 1
  | _ => 0

/-- The operation on words behind each name. -/
def Op32.wordOp : Op32 → WordOp
  | addw => .add
  | subw => .sub
  | sllw => .sll
  | srlw => .srl
  | sraw => .sra
  | mulw => .mul
  | divw => .div
  | divuw => .divu
  | remw => .rem
  | remuw => .remu

/-- The encoding of an instruction. -/
def Instruction.encode : Instruction → UInt32
  | lui rd imm => upperWord 0x37 rd imm.toNat
  | auipc rd imm => upperWord 0x17 rd imm.toNat
  | jal rd offset => wordJ 0x6f rd offset
  | jalr rd rs1 offset => wordI 0x67 rd 0 rs1 offset
  | branch condition rs1 rs2 offset => wordB 0x63 condition.funct3 rs1 rs2 offset
  | load kind rd rs1 offset => wordI 0x03 rd kind.funct3 rs1 offset
  | store kind rs1 rs2 offset => wordS 0x23 kind.funct3 rs1 rs2 offset
  | opImm op rd rs1 imm => wordI 0x13 rd op.funct3 rs1 imm
  | shiftImm shift rd rs1 shamt => wordI 0x13 rd shift.funct3 rs1 (shift.imm shamt)
  | opReg op rd rs1 rs2 => wordOf 0x33 rd (opFunct3 op) rs1 rs2 (opFunct7 op)
  | addiw rd rs1 imm => wordI 0x1b rd 0 rs1 imm
  | shiftImm32 shift rd rs1 shamt => wordI 0x1b rd shift.funct3 rs1 (shift.imm shamt)
  | opReg32 op rd rs1 rs2 => wordOf 0x3b rd (opFunct3 op.wordOp) rs1 rs2 (opFunct7 op.wordOp)
  | fence mode => wordI 0x0f 0 0 0 mode
  | fenceI mode => wordI 0x0f 0 1 0 mode
  | csrrHartId rd => wordI 0x73 rd 2 0 0xf14
  | ecall => wordI 0x73 0 0 0 0
  | ebreak => wordI 0x73 0 0 0 1

/-! ## The fields as the decoder finds them -/

theorem toNat_extract {hi lo : ℕ} (h : lo ≤ hi ∧ hi < 32 ∧ hi - lo < 31) (w : UInt32) :
    (extract (UInt32.ofNat hi) (UInt32.ofNat lo) w).toNat =
      w.toNat / 2 ^ lo % 2 ^ (hi - lo + 1) := by
  obtain ⟨hlo, hhi, hwidth⟩ := h
  have hlo' : (UInt32.ofNat lo).toNat % 32 = lo := by
    rw [UInt32.toNat_ofNat_of_lt' (by simp only [UInt32.size]; omega),
      Nat.mod_eq_of_lt (by omega)]
  have hn : (UInt32.ofNat hi - UInt32.ofNat lo + 1).toNat = hi - lo + 1 := by
    rw [UInt32.toNat_add, UInt32.toNat_sub_of_le]
    · simp
      omega
    · rw [UInt32.le_iff_toNat_le]
      simp
      omega
  have hpow : ((1 : UInt32) <<< (UInt32.ofNat hi - UInt32.ofNat lo + 1)).toNat =
      2 ^ (hi - lo + 1) := by
    rw [UInt32.toNat_shiftLeft, hn, Nat.mod_eq_of_lt (b := 32) (by omega), Nat.shiftLeft_eq,
      UInt32.toNat_one, Nat.one_mul]
    exact Nat.mod_eq_of_lt (Nat.pow_lt_pow_right (by decide) (by omega))
  have hmask : (((1 : UInt32) <<< (UInt32.ofNat hi - UInt32.ofNat lo + 1)) - 1).toNat =
      2 ^ (hi - lo + 1) - 1 := by
    rw [UInt32.toNat_sub_of_le, hpow]
    · rfl
    · rw [UInt32.le_iff_toNat_le, hpow]
      exact Nat.one_le_two_pow
  rw [extract, UInt32.toNat_and, UInt32.toNat_shiftRight, hlo', Nat.shiftRight_eq_div_pow, hmask,
    Nat.and_two_pow_sub_one_eq_mod]

theorem regField_eq {hi lo : UInt32} {w : UInt32} {r : Fin 32} (h : (extract hi lo w).toNat = r) :
    regField hi lo w = r := by
  rw [regField, h]
  exact Fin.ofNat_val_eq_self r

section Fields

variable (opcode : Fin 128) (rd : Fin 32) (funct3 : Fin 8) (rs1 rs2 : Fin 32) (funct7 : Fin 128)

theorem toNat_wordOf : (wordOf opcode rd funct3 rs1 rs2 funct7).toNat =
    opcode + rd * 2 ^ 7 + funct3 * 2 ^ 12 + rs1 * 2 ^ 15 + rs2 * 2 ^ 20 + funct7 * 2 ^ 25 := by
  rw [wordOf, UInt32.toNat_ofNat_of_lt']
  simp only [UInt32.size]
  omega

theorem extract_wordOf (hi lo : ℕ) (h : lo ≤ hi ∧ hi < 32 ∧ hi - lo < 31) :
    (extract (UInt32.ofNat hi) (UInt32.ofNat lo) (wordOf opcode rd funct3 rs1 rs2 funct7)).toNat =
      (opcode + rd * 2 ^ 7 + funct3 * 2 ^ 12 + rs1 * 2 ^ 15 + rs2 * 2 ^ 20 + funct7 * 2 ^ 25) /
        2 ^ lo % 2 ^ (hi - lo + 1) := by
  rw [toNat_extract h, toNat_wordOf]

@[simp] theorem extract_opcode :
    (extract 6 0 (wordOf opcode rd funct3 rs1 rs2 funct7)).toNat = opcode :=
  (extract_wordOf opcode rd funct3 rs1 rs2 funct7 6 0 (by decide)).trans (by omega)

@[simp] theorem extract_rd :
    (extract 11 7 (wordOf opcode rd funct3 rs1 rs2 funct7)).toNat = rd :=
  (extract_wordOf opcode rd funct3 rs1 rs2 funct7 11 7 (by decide)).trans (by omega)

@[simp] theorem extract_funct7 :
    (extract 31 25 (wordOf opcode rd funct3 rs1 rs2 funct7)).toNat = funct7 :=
  (extract_wordOf opcode rd funct3 rs1 rs2 funct7 31 25 (by decide)).trans (by omega)

theorem extract_funct7_high :
    (extract 31 31 (wordOf opcode rd funct3 rs1 rs2 funct7)).toNat = funct7 / 2 ^ 6 :=
  (extract_wordOf opcode rd funct3 rs1 rs2 funct7 31 31 (by decide)).trans (by omega)

theorem extract_funct7_low :
    (extract 30 25 (wordOf opcode rd funct3 rs1 rs2 funct7)).toNat = funct7 % 2 ^ 6 :=
  (extract_wordOf opcode rd funct3 rs1 rs2 funct7 30 25 (by decide)).trans (by omega)

theorem extract_rd_high :
    (extract 11 8 (wordOf opcode rd funct3 rs1 rs2 funct7)).toNat = rd / 2 :=
  (extract_wordOf opcode rd funct3 rs1 rs2 funct7 11 8 (by decide)).trans (by omega)

theorem extract_rd_low :
    (extract 7 7 (wordOf opcode rd funct3 rs1 rs2 funct7)).toNat = rd % 2 :=
  (extract_wordOf opcode rd funct3 rs1 rs2 funct7 7 7 (by decide)).trans (by omega)

@[simp] theorem rdField_wordOf : rdField (wordOf opcode rd funct3 rs1 rs2 funct7) = rd :=
  regField_eq (extract_rd ..)

@[simp] theorem rs1Field_wordOf : rs1Field (wordOf opcode rd funct3 rs1 rs2 funct7) = rs1 :=
  regField_eq ((extract_wordOf opcode rd funct3 rs1 rs2 funct7 19 15 (by decide)).trans (by omega))

@[simp] theorem rs2Field_wordOf : rs2Field (wordOf opcode rd funct3 rs1 rs2 funct7) = rs2 :=
  regField_eq ((extract_wordOf opcode rd funct3 rs1 rs2 funct7 24 20 (by decide)).trans (by omega))

@[simp] theorem funct3Field_wordOf :
    funct3Field (wordOf opcode rd funct3 rs1 rs2 funct7) = UInt8.ofNat funct3 := by
  have h : (extract 14 12 (wordOf opcode rd funct3 rs1 rs2 funct7)).toNat = funct3 :=
    (extract_wordOf opcode rd funct3 rs1 rs2 funct7 14 12 (by decide)).trans (by omega)
  apply UInt8.toNat_inj.mp
  rw [funct3Field, UInt8.toNat_and, UInt32.toNat_toUInt8, h, UInt8.toNat_ofNat']
  exact (Nat.and_two_pow_sub_one_eq_mod _ 3).trans (by omega)

@[simp] theorem funct7Field_wordOf :
    funct7Field (wordOf opcode rd funct3 rs1 rs2 funct7) = UInt8.ofNat funct7 := by
  apply UInt8.toNat_inj.mp
  rw [funct7Field, UInt8.toNat_and, UInt32.toNat_toUInt8, extract_funct7, UInt8.toNat_ofNat']
  exact (Nat.and_two_pow_sub_one_eq_mod _ 7).trans (by omega)

theorem wordOf_low (hop : opcode.val % 4 = 3) :
    wordOf opcode rd funct3 rs1 rs2 funct7 &&& 0x3 = 0x3 := by
  apply UInt32.toNat_inj.mp
  rw [UInt32.toNat_and, toNat_wordOf]
  exact (Nat.and_two_pow_sub_one_eq_mod _ 2).trans (by simp only [UInt32.toNat_ofNat]; omega)

end Fields

/-! ## Immediates -/

/-- An immediate as a number of 64 bits. -/
def signExtended {n : ℕ} (imm : BitVec n) : Int64 := .ofBitVec (imm.signExtend 64)

theorem toBitVec_shiftLeft_ofNat (x : UInt64) {n : ℕ} (hn : n < 64) :
    (x <<< UInt64.ofNat n).toBitVec = x.toBitVec <<< n := by
  rw [UInt64.toBitVec_shiftLeft, BitVec.shiftLeft_eq', BitVec.toNat_umod]
  congr 1
  simp
  omega

/-- `signExtend` of a number with as many bits as the immediate has. -/
theorem signExtend_eq {n : ℕ} (hn : n < 63) {value : UInt64} {imm : BitVec (n + 1)}
    (hvalue : value.toNat = imm.toNat) :
    signExtend (UInt64.ofNat n) value = signExtended imm := by
  have himm : value.toBitVec.setWidth (n + 1) = imm := by
    apply BitVec.eq_of_toNat_eq
    rw [BitVec.toNat_setWidth, UInt64.toNat_toBitVec, hvalue, Nat.mod_eq_of_lt imm.isLt]
  have hbit : value &&& ((1 : UInt64) <<< UInt64.ofNat n) ≠ 0 ↔
      value.toBitVec.getLsbD n = true := by
    have hand : (value &&& ((1 : UInt64) <<< UInt64.ofNat n)).toBitVec =
        value.toBitVec &&& BitVec.twoPow 64 n := by
      rw [UInt64.toBitVec_and, toBitVec_shiftLeft_ofNat 1 (by omega), BitVec.twoPow_eq]
      rfl
    rw [ne_eq, ← UInt64.toBitVec_inj, hand, BitVec.and_twoPow]
    by_cases h : value.toBitVec.getLsbD n = true
    · rw [if_pos h]
      refine iff_of_true (fun hzero ↦ ?_) h
      have hn' := congrArg (BitVec.getLsbD · n) hzero
      simp [show n < 64 by omega] at hn'
    · rw [if_neg h]
      exact iff_of_false (fun hne ↦ hne rfl) h
  have hnext : UInt64.ofNat n + 1 = UInt64.ofNat (n + 1) := (UInt64.ofNat_add ..).symm
  have hlt : value.toBitVec.toNat < 2 ^ (n + 1) := by
    rw [UInt64.toNat_toBitVec, hvalue]
    exact imm.isLt
  apply Int64.toBitVec_inj.mp
  rw [signExtended, Int64.toBitVec_ofBitVec, ← himm, ← WordOp.extendSign_eq hlt, signExtend, hnext]
  by_cases h : value.toBitVec.getLsbD n = true
  · rw [if_pos (hbit.mpr h), if_pos h, UInt64.toBitVec_toInt64, UInt64.toBitVec_or,
      toBitVec_shiftLeft_ofNat _ (by omega)]
    rfl
  · rw [if_neg (mt hbit.mp h), if_neg h]
    rfl

theorem toNat_or {x y : UInt32} {n : ℕ} (hx : x.toNat % 2 ^ n = 0) (hy : y.toNat < 2 ^ n) :
    (x ||| y).toNat = x.toNat + y.toNat := by
  have hdiv := Nat.div_add_mod x.toNat (2 ^ n)
  rw [hx, Nat.add_zero] at hdiv
  rw [UInt32.toNat_or, ← hdiv]
  exact (Nat.two_pow_add_eq_or_of_lt hy _).symm

theorem toNat_shiftLeft {x : UInt32} {n : ℕ} (hn : n < 32) (hx : x.toNat * 2 ^ n < 2 ^ 32) :
    (x <<< UInt32.ofNat n).toNat = x.toNat * 2 ^ n := by
  rw [UInt32.toNat_shiftLeft, UInt32.toNat_ofNat_of_lt' (by simp only [UInt32.size]; omega),
    Nat.mod_eq_of_lt hn, Nat.shiftLeft_eq, Nat.mod_eq_of_lt hx]

/-! ## The formats -/

section Formats

variable (opcode : Fin 128) (rd : Fin 32) (funct3 : Fin 8) (rs1 rs2 : Fin 32) (inst : DecodedInst)

theorem setupR_wordOf (funct7 : Fin 128) :
    setupR (wordOf opcode rd funct3 rs1 rs2 funct7) inst = { inst with
      instType := .R
      rd := rd
      rs1 := rs1
      rs2 := rs2
      funct3 := UInt8.ofNat funct3
      funct7 := UInt8.ofNat funct7
      rdType := .gpreg
      rs1Type := .gpreg
      rs2Type := .gpreg } := by
  simp only [setupR, rdField_wordOf, rs1Field_wordOf, rs2Field_wordOf, funct3Field_wordOf,
    funct7Field_wordOf]

/-- The seven bits above the lowest five of an immediate. -/
def highBits (imm : BitVec 12) : UInt8 := UInt8.ofNat (imm.toNat / 2 ^ 5)

theorem ofNat_highBits (imm : BitVec 12) :
    UInt8.ofNat (Fin.ofNat 128 (imm.toNat / 2 ^ 5)).val = highBits imm := by
  rw [highBits, Fin.val_ofNat, Nat.mod_eq_of_lt (by omega)]

theorem extract_wordI (imm : BitVec 12) :
    (extract 31 20 (wordI opcode rd funct3 rs1 imm)).toNat = imm.toNat :=
  (extract_wordOf opcode rd funct3 rs1 _ _ 31 20 (by decide)).trans (by
    simp only [Fin.val_ofNat]
    omega)

theorem setupI_wordI (imm : BitVec 12) :
    setupI (wordI opcode rd funct3 rs1 imm) inst = { inst with
      instType := .I
      rd := rd
      rs1 := rs1
      imm := signExtended imm
      funct3 := UInt8.ofNat funct3
      funct7 := highBits imm
      rdType := .gpreg
      rs1Type := .gpreg } := by
  have himm : signExtend 11 (extract 31 20 (wordI opcode rd funct3 rs1 imm)).toUInt64 =
      signExtended imm := by
    refine @signExtend_eq 11 (by decide) _ _ ?_
    rw [UInt32.toNat_toUInt64, extract_wordI]
  rw [setupI, himm, wordI]
  simp only [rdField_wordOf, rs1Field_wordOf, funct3Field_wordOf, funct7Field_wordOf,
    ofNat_highBits]

theorem setupS_wordS (imm : BitVec 12) :
    setupS (wordS opcode funct3 rs1 rs2 imm) inst = { inst with
      instType := .S
      rs1 := rs1
      rs2 := rs2
      imm := signExtended imm
      funct3 := UInt8.ofNat funct3
      funct7 := highBits imm
      rs1Type := .gpreg
      rs2Type := .gpreg } := by
  have hhigh : (extract 31 25 (wordS opcode funct3 rs1 rs2 imm)).toNat = imm.toNat / 2 ^ 5 := by
    rw [wordS, extract_funct7, Fin.val_ofNat]
    omega
  have hlow : (extract 11 7 (wordS opcode funct3 rs1 rs2 imm)).toNat = imm.toNat % 2 ^ 5 := by
    rw [wordS, extract_rd, Fin.val_ofNat]
    omega
  have hshift : (extract 31 25 (wordS opcode funct3 rs1 rs2 imm) <<< 5).toNat =
      imm.toNat / 2 ^ 5 * 2 ^ 5 :=
    (@toNat_shiftLeft _ 5 (by decide) (by omega)).trans (by rw [hhigh])
  have himm : signExtend 11 ((extract 31 25 (wordS opcode funct3 rs1 rs2 imm) <<< 5) |||
      extract 11 7 (wordS opcode funct3 rs1 rs2 imm)).toUInt64 = signExtended imm := by
    refine @signExtend_eq 11 (by decide) _ _ ?_
    rw [UInt32.toNat_toUInt64, @toNat_or _ _ 5 (by omega) (by omega), hshift, hlow]
    omega
  rw [setupS, himm, wordS]
  simp only [rs1Field_wordOf, rs2Field_wordOf, funct3Field_wordOf, funct7Field_wordOf,
    ofNat_highBits]

/-- The bits of an offset in half words, as a number of bytes. -/
def offsetBytes {n : ℕ} (offset : BitVec n) : BitVec (n + 1) := offset ++ 0#1

theorem toNat_offsetBytes {n : ℕ} (offset : BitVec n) :
    (offsetBytes offset).toNat = offset.toNat * 2 := by
  rw [offsetBytes, BitVec.toNat_append, Nat.shiftLeft_eq]
  simp

/-- The seven highest bits of the word of a branch. -/
def highBitsB (offset : BitVec 12) : UInt8 :=
  UInt8.ofNat (offset.toNat / 2 ^ 4 % 2 ^ 6 + offset.toNat / 2 ^ 11 * 2 ^ 6)

theorem setupB_wordB (offset : BitVec 12) :
    setupB (wordB opcode funct3 rs1 rs2 offset) inst = { inst with
      instType := .B
      rs1 := rs1
      rs2 := rs2
      imm := signExtended (offsetBytes offset)
      funct3 := UInt8.ofNat funct3
      funct7 := highBitsB offset
      rs1Type := .gpreg
      rs2Type := .gpreg } := by
  set w := wordB opcode funct3 rs1 rs2 offset with hw
  have hlt := offset.isLt
  -- The four parts of the offset as numbers, then shifted to their places, then joined.
  have hsign : (extract 31 31 w).toNat = offset.toNat / 2 ^ 11 := by
    rw [hw, wordB, extract_funct7_high, Fin.val_ofNat]
    omega
  have hmiddle : (extract 30 25 w).toNat = offset.toNat / 2 ^ 4 % 2 ^ 6 := by
    rw [hw, wordB, extract_funct7_low, Fin.val_ofNat]
    omega
  have heleven : (extract 7 7 w).toNat = offset.toNat / 2 ^ 10 % 2 := by
    rw [hw, wordB, extract_rd_low, Fin.val_ofNat]
    omega
  have hlow : (extract 11 8 w).toNat = offset.toNat % 2 ^ 4 := by
    rw [hw, wordB, extract_rd_high, Fin.val_ofNat, Nat.mod_eq_of_lt (by omega)]
    omega
  have hsign' : (extract 31 31 w <<< 12).toNat = offset.toNat / 2 ^ 11 * 2 ^ 12 :=
    (@toNat_shiftLeft _ 12 (by decide) (by omega)).trans (by rw [hsign])
  have heleven' : (extract 7 7 w <<< 11).toNat = offset.toNat / 2 ^ 10 % 2 * 2 ^ 11 :=
    (@toNat_shiftLeft _ 11 (by decide) (by omega)).trans (by rw [heleven])
  have hmiddle' : (extract 30 25 w <<< 5).toNat = offset.toNat / 2 ^ 4 % 2 ^ 6 * 2 ^ 5 :=
    (@toNat_shiftLeft _ 5 (by decide) (by omega)).trans (by rw [hmiddle])
  have hlow' : (extract 11 8 w <<< 1).toNat = offset.toNat % 2 ^ 4 * 2 ^ 1 :=
    (@toNat_shiftLeft _ 1 (by decide) (by omega)).trans (by rw [hlow])
  have himm : signExtend 12 ((extract 31 31 w <<< 12) ||| (extract 7 7 w <<< 11) |||
      (extract 30 25 w <<< 5) ||| (extract 11 8 w <<< 1)).toUInt64 =
        signExtended (offsetBytes offset) := by
    refine @signExtend_eq 12 (by decide) _ _ ?_
    have h₁ := @toNat_or (extract 31 31 w <<< 12) (extract 7 7 w <<< 11) 12 (by omega) (by omega)
    have h₂ := @toNat_or ((extract 31 31 w <<< 12) ||| (extract 7 7 w <<< 11))
      (extract 30 25 w <<< 5) 11 (by omega) (by omega)
    have h₃ := @toNat_or ((extract 31 31 w <<< 12) ||| (extract 7 7 w <<< 11) |||
      (extract 30 25 w <<< 5)) (extract 11 8 w <<< 1) 5 (by omega) (by omega)
    rw [UInt32.toNat_toUInt64, toNat_offsetBytes, h₃, h₂, h₁]
    omega
  have hfunct7 : UInt8.ofNat (Fin.ofNat 128
      (offset.toNat / 2 ^ 4 % 2 ^ 6 + offset.toNat / 2 ^ 11 * 2 ^ 6)).val = highBitsB offset := by
    rw [highBitsB, Fin.val_ofNat, Nat.mod_eq_of_lt (by omega)]
  rw [setupB, himm, hw, wordB]
  simp only [rs1Field_wordOf, rs2Field_wordOf, funct3Field_wordOf, funct7Field_wordOf, hfunct7]

theorem toNat_upperWord {upper : ℕ} (h : upper < 2 ^ 20) :
    (upperWord opcode rd upper).toNat = opcode + rd * 2 ^ 7 + upper * 2 ^ 12 := by
  rw [upperWord, toNat_wordOf]
  simp only [Fin.val_ofNat]
  omega

theorem extract_upperWord {upper : ℕ} (h : upper < 2 ^ 20) (hi lo : ℕ)
    (hrange : lo ≤ hi ∧ hi < 32 ∧ hi - lo < 31) (hlo : 12 ≤ lo) :
    (extract (UInt32.ofNat hi) (UInt32.ofNat lo) (upperWord opcode rd upper)).toNat =
      upper / 2 ^ (lo - 12) % 2 ^ (hi - lo + 1) := by
  have hpow : 2 ^ lo = 2 ^ 12 * 2 ^ (lo - 12) := by rw [← Nat.pow_add, Nat.add_sub_cancel' hlo]
  have hlow : (opcode.val + rd.val * 2 ^ 7 + upper * 2 ^ 12) / 2 ^ 12 = upper := by omega
  rw [toNat_extract hrange, toNat_upperWord opcode rd h, hpow, ← Nat.div_div_eq_div_mul, hlow]

theorem setupU_upperWord (imm : BitVec 20) :
    setupU (upperWord opcode rd imm.toNat) inst = { inst with
      instType := .U
      rd := rd
      imm := signExtended (imm ++ 0#12)
      funct3 := 0
      funct7 := 0
      rdType := .gpreg } := by
  have hlt := imm.isLt
  have hupper : (extract 31 12 (upperWord opcode rd imm.toNat)).toNat = imm.toNat :=
    (extract_upperWord opcode rd hlt 31 12 (by decide) (by decide)).trans (by omega)
  have hshift : (extract 31 12 (upperWord opcode rd imm.toNat) <<< 12).toNat =
      imm.toNat * 2 ^ 12 :=
    (@toNat_shiftLeft _ 12 (by decide) (by omega)).trans (by rw [hupper])
  have himm : signExtend 31 (extract 31 12 (upperWord opcode rd imm.toNat) <<< 12).toUInt64 =
      signExtended (imm ++ 0#12) := by
    refine @signExtend_eq 31 (by decide) _ _ ?_
    rw [UInt32.toNat_toUInt64, hshift, BitVec.toNat_append, Nat.shiftLeft_eq]
    simp
  rw [setupU, himm, upperWord, rdField_wordOf]

/-- The four parts of an offset in the upper 20 bits. -/
theorem parts_of_upper {sign top eleven low upper : ℕ}
    (hupper : upper = top + eleven * 2 ^ 8 + low * 2 ^ 9 + sign * 2 ^ 19)
    (hbounds : sign < 2 ∧ top < 2 ^ 8 ∧ eleven < 2 ∧ low < 2 ^ 10) :
    upper < 2 ^ 20 ∧ upper / 2 ^ 19 % 2 = sign ∧ upper % 2 ^ 8 = top ∧
      upper / 2 ^ 8 % 2 = eleven ∧ upper / 2 ^ 9 % 2 ^ 10 = low := by
  refine ⟨?_, ?_, ?_, ?_, ?_⟩ <;> omega

theorem setupJ_wordJ (offset : BitVec 20) :
    setupJ (wordJ opcode rd offset) inst = { inst with
      instType := .J
      rd := rd
      imm := signExtended (offsetBytes offset)
      funct3 := 0
      funct7 := 0
      rdType := .gpreg } := by
  have hlt := offset.isLt
  -- the four parts of the offset
  obtain ⟨sign, hsign₀⟩ : ∃ n, n = offset.toNat / 2 ^ 19 := ⟨_, rfl⟩
  obtain ⟨top, htop₀⟩ : ∃ n, n = offset.toNat / 2 ^ 11 % 2 ^ 8 := ⟨_, rfl⟩
  obtain ⟨eleven, heleven₀⟩ : ∃ n, n = offset.toNat / 2 ^ 10 % 2 := ⟨_, rfl⟩
  obtain ⟨low, hlow₀⟩ : ∃ n, n = offset.toNat % 2 ^ 10 := ⟨_, rfl⟩
  have hparts : offset.toNat = sign * 2 ^ 19 + top * 2 ^ 11 + eleven * 2 ^ 10 + low := by omega
  have hbounds : sign < 2 ∧ top < 2 ^ 8 ∧ eleven < 2 ∧ low < 2 ^ 10 := by omega
  set w := wordJ opcode rd offset with hw
  rw [wordJ, ← hsign₀, ← htop₀, ← heleven₀, ← hlow₀] at hw
  obtain ⟨upper, hupper⟩ : ∃ n, n = top + eleven * 2 ^ 8 + low * 2 ^ 9 + sign * 2 ^ 19 := ⟨_, rfl⟩
  obtain ⟨hlt₀, hsign₀, htop₀, heleven₀, hlow₀⟩ := parts_of_upper hupper hbounds
  rw [← hupper] at hw
  have hsign : (extract 31 31 w).toNat = sign := by
    rw [hw]
    exact (extract_upperWord opcode rd hlt₀ 31 31 (by decide) (by decide)).trans hsign₀
  have htop : (extract 19 12 w).toNat = top := by
    rw [hw]
    refine (extract_upperWord opcode rd hlt₀ 19 12 (by decide) (by decide)).trans ?_
    rw [← htop₀]
    simp
  have heleven : (extract 20 20 w).toNat = eleven := by
    rw [hw]
    exact (extract_upperWord opcode rd hlt₀ 20 20 (by decide) (by decide)).trans heleven₀
  have hlow : (extract 30 21 w).toNat = low := by
    rw [hw]
    exact (extract_upperWord opcode rd hlt₀ 30 21 (by decide) (by decide)).trans hlow₀
  have hsign' : (extract 31 31 w <<< 20).toNat = sign * 2 ^ 20 :=
    (@toNat_shiftLeft _ 20 (by decide) (by omega)).trans (by rw [hsign])
  have htop' : (extract 19 12 w <<< 12).toNat = top * 2 ^ 12 :=
    (@toNat_shiftLeft _ 12 (by decide) (by omega)).trans (by rw [htop])
  have heleven' : (extract 20 20 w <<< 11).toNat = eleven * 2 ^ 11 :=
    (@toNat_shiftLeft _ 11 (by decide) (by omega)).trans (by rw [heleven])
  have hlow' : (extract 30 21 w <<< 1).toNat = low * 2 ^ 1 :=
    (@toNat_shiftLeft _ 1 (by decide) (by omega)).trans (by rw [hlow])
  have himm : signExtend 20 ((extract 31 31 w <<< 20) ||| (extract 19 12 w <<< 12) |||
      (extract 20 20 w <<< 11) ||| (extract 30 21 w <<< 1)).toUInt64 =
        signExtended (offsetBytes offset) := by
    refine @signExtend_eq 20 (by decide) _ _ ?_
    have h₁ := @toNat_or (extract 31 31 w <<< 20) (extract 19 12 w <<< 12) 20 (by omega) (by omega)
    have h₂ := @toNat_or ((extract 31 31 w <<< 20) ||| (extract 19 12 w <<< 12))
      (extract 20 20 w <<< 11) 12 (by omega) (by omega)
    have h₃ := @toNat_or ((extract 31 31 w <<< 20) ||| (extract 19 12 w <<< 12) |||
      (extract 20 20 w <<< 11)) (extract 30 21 w <<< 1) 11 (by omega) (by omega)
    rw [UInt32.toNat_toUInt64, toNat_offsetBytes, h₃, h₂, h₁]
    omega
  rw [setupJ, himm, hw, upperWord, rdField_wordOf]

end Formats

/-! ## The decoded instructions -/

/-- The number of a name in its table. -/
def opNumber : WordOp → ℕ
  | .add => 0x001001f
  | .sub => 0x0010020
  | .sll => 0x0010021
  | .slt => 0x0010022
  | .sltu => 0x0010023
  | .xor => 0x0010024
  | .srl => 0x0010025
  | .sra => 0x0010026
  | .or => 0x0010027
  | .and => 0x0010028
  | .mul => 0x0020001
  | .mulh => 0x0020002
  | .mulhsu => 0x0020003
  | .mulhu => 0x0020004
  | .div => 0x0020005
  | .divu => 0x0020006
  | .rem => 0x0020007
  | .remu => 0x0020008

def Op32.number : Op32 → ℕ
  | addw => 0x001002d
  | subw => 0x001002e
  | sllw => 0x001002f
  | srlw => 0x0010030
  | sraw => 0x0010031
  | mulw => 0x0020009
  | divw => 0x002000a
  | divuw => 0x002000b
  | remw => 0x002000c
  | remuw => 0x002000d

def ImmOp.number : ImmOp → ℕ
  | addi => 0x0010016
  | slti => 0x0010018
  | sltiu => 0x0010019
  | xori => 0x001001a
  | ori => 0x001001d
  | andi => 0x001001e

def Shift.number : Shift → ℕ
  | left => 0x0010017
  | right => 0x001001b
  | rightArithmetic => 0x001001c

def Shift.number32 : Shift → ℕ
  | left => 0x001002a
  | right => 0x001002b
  | rightArithmetic => 0x001002c

def Condition.number : Condition → ℕ
  | beq => 0x0010005
  | bne => 0x0010006
  | blt => 0x0010007
  | bge => 0x0010008
  | bltu => 0x0010009
  | bgeu => 0x001000a

def LoadKind.number (kind : LoadKind) : ℕ := 0x001000b + kind.funct3

def LoadKind.extension : LoadKind → RDExtType
  | lb => .sign8
  | lh => .sign16
  | lw => .sign32
  | ld | lbu | lhu | lwu => .zero

def StoreKind.number (kind : StoreKind) : ℕ := 0x0010012 + kind.funct3

/-- An instruction with two source registers. -/
def formR (word : UInt32) (opcode : OPCode) (rd : Fin 32) (funct3 : Fin 8) (rs1 rs2 : Fin 32)
    (funct7 : Fin 128) : DecodedInst where
  rawInst := word
  opcode := opcode
  instType := .R
  rd := rd
  rs1 := rs1
  rs2 := rs2
  funct3 := UInt8.ofNat funct3
  funct7 := UInt8.ofNat funct7
  rdType := .gpreg
  rs1Type := .gpreg
  rs2Type := .gpreg

/-- An instruction with a source register and an immediate. -/
def formI (word : UInt32) (opcode : OPCode) (rd : Fin 32) (funct3 : Fin 8) (rs1 : Fin 32)
    (imm : BitVec 12) : DecodedInst where
  rawInst := word
  opcode := opcode
  instType := .I
  rd := rd
  rs1 := rs1
  imm := signExtended imm
  funct3 := UInt8.ofNat funct3
  funct7 := highBits imm
  rdType := .gpreg
  rs1Type := .gpreg

/-- A system instruction. -/
def formSystem (word : UInt32) (rd : Fin 32) (funct3 : Fin 8) (imm : BitVec 12) : DecodedInst where
  rawInst := word
  opcode := .system
  rd := rd
  imm := .ofBitVec (imm.setWidth 64)
  funct3 := UInt8.ofNat funct3
  funct7 := highBits imm

namespace Instruction

/-- The kinds of jumps, for a stack of return addresses. -/
def jalrControl (rd rs1 : Fin 32) : ControlType :=
  if rd = 1 ∧ rs1 ≠ 1 then .call else if rd = 0 ∧ rs1 = 1 then .ret else .indirectJump

/-- What the decoder gives. -/
def decoded (i : Instruction) : DecodedInst :=
  match i with
  | lui rd imm => {
      rawInst := i.encode, opcode := .lui, instName := .other 0x0010001, instType := .U, rd := rd
      imm := signExtended (imm ++ 0#12), rdType := .gpreg }
  | auipc rd imm => {
      rawInst := i.encode, opcode := .auipc, instName := .other 0x0010002, instType := .U, rd := rd
      imm := signExtended (imm ++ 0#12), rdType := .gpreg }
  | jal rd offset => {
      rawInst := i.encode, opcode := .jal, instName := .other 0x0010003, instType := .J, rd := rd
      controlType := if rd = 1 ∨ rd = 5 then .call else .directJump
      imm := signExtended (offsetBytes offset), rdType := .gpreg }
  | jalr rd rs1 offset => { formI i.encode .jalr rd 0 rs1 offset with
      instName := .other 0x0010004, controlType := jalrControl rd rs1 }
  | branch condition rs1 rs2 offset => {
      rawInst := i.encode, opcode := .branch, instName := .other condition.number
      controlType := .branch, instType := .B, rs1 := rs1, rs2 := rs2
      imm := signExtended (offsetBytes offset), funct3 := UInt8.ofNat condition.funct3
      funct7 := highBitsB offset, rs1Type := .gpreg, rs2Type := .gpreg }
  | load kind rd rs1 offset => { formI i.encode .load rd kind.funct3 rs1 offset with
      instName := .other kind.number, controlType := .load, rdExt := kind.extension }
  | store kind rs1 rs2 offset => {
      rawInst := i.encode, opcode := .store, instName := .other kind.number, controlType := .store
      instType := .S, rs1 := rs1, rs2 := rs2, imm := signExtended offset
      funct3 := UInt8.ofNat kind.funct3, funct7 := highBits offset, rs1Type := .gpreg
      rs2Type := .gpreg }
  | opImm op rd rs1 imm => { formI i.encode .opimm rd op.funct3 rs1 imm with
      instName := .other op.number }
  | shiftImm shift rd rs1 shamt =>
    { formI i.encode .opimm rd shift.funct3 rs1 (shift.imm shamt) with
      instName := .other shift.number }
  | opReg op rd rs1 rs2 => { formR i.encode .op rd (opFunct3 op) rs1 rs2 (opFunct7 op) with
      instName := .other (opNumber op) }
  | addiw rd rs1 imm => { formI i.encode .opimm32 rd 0 rs1 imm with
      instName := .other 0x0010029, rdExt := .sign32 }
  | shiftImm32 shift rd rs1 shamt =>
    { formI i.encode .opimm32 rd shift.funct3 rs1 (shift.imm shamt) with
      instName := .other shift.number32, rdExt := .sign32 }
  | opReg32 op rd rs1 rs2 =>
    { formR i.encode .op32 rd (opFunct3 op.wordOp) rs1 rs2 (opFunct7 op.wordOp) with
      instName := .other op.number, rdExt := .sign32 }
  | fence mode => { formI i.encode .miscmem 0 0 0 mode with
      instName := .other 0x0010032, controlType := .fence }
  | fenceI mode => { formI i.encode .miscmem 0 1 0 mode with
      instName := .other 0x0010033, controlType := .fencei }
  | csrrHartId rd => { formSystem i.encode rd 2 0xf14 with
      instName := .other 0x001003c, controlType := .csr, rdType := .gpreg, rs1Type := .gpreg }
  | ecall => { formSystem i.encode 0 0 0 with
      instName := .other 0x0010035, controlType := .ecall }
  | ebreak => { formSystem i.encode 0 0 1 with
      instName := .other 0x0010036, controlType := .ebreak }

/-! ## What the decoder gives -/

/-- The decoder gives, on a word, what the switch over the opcode gives. -/
def Switches (decodeRvc : UInt32 → Option DecodedInst) (word : UInt32) (code : OPCode) : Prop :=
  decode decodeRvc word = decodeOpcode word { rawInst := word, opcode := code }

/-- A word whose opcode is known goes to the switch for it. -/
theorem switches_wordOf (decodeRvc : UInt32 → Option DecodedInst) {opcode : Fin 128} {code : OPCode}
    (hlow : opcode.val % 4 = 3) (hcode : opcodeOf opcode = some code) (rd : Fin 32)
    (funct3 : Fin 8) (rs1 rs2 : Fin 32) (funct7 : Fin 128) :
    Switches decodeRvc (wordOf opcode rd funct3 rs1 rs2 funct7) code := by
  rw [Switches, decode, if_neg (not_not_intro (wordOf_low opcode rd funct3 rs1 rs2 funct7 hlow)),
    extract_opcode, hcode]
  rfl

/-- The group of an instruction. -/
def opcode : Instruction → OPCode
  | lui .. => .lui
  | auipc .. => .auipc
  | jal .. => .jal
  | jalr .. => .jalr
  | branch .. => .branch
  | load .. => .load
  | store .. => .store
  | opImm .. | shiftImm .. => .opimm
  | opReg .. => .op
  | addiw .. | shiftImm32 .. => .opimm32
  | opReg32 .. => .op32
  | fence .. | fenceI .. => .miscmem
  | csrrHartId .. | ecall | ebreak => .system

theorem switches_encode (decodeRvc : UInt32 → Option DecodedInst) (i : Instruction) :
    Switches decodeRvc i.encode i.opcode := by
  cases i <;> exact switches_wordOf decodeRvc (by decide) (by rfl) ..

theorem extract_funct6 (opcode : Fin 128) (rd : Fin 32) (funct3 : Fin 8) (rs1 : Fin 32)
    (imm : BitVec 12) : (extract 31 26 (wordI opcode rd funct3 rs1 imm)).toNat =
      imm.toNat / 2 ^ 6 := by
  refine (extract_wordOf opcode rd funct3 rs1 _ _ 31 26 (by decide)).trans ?_
  simp only [Fin.val_ofNat]
  omega

theorem toNat_shiftImm (shift : Shift) {shamt : ℕ} (h : shamt < 64) :
    (shift.imm shamt).toNat = shamt + if shift = .rightArithmetic then 2 ^ 10 else 0 := by
  rw [Shift.imm, BitVec.toNat_ofNat, Nat.mod_eq_of_lt]
  split_ifs <;> omega

/-- The shifts by a constant are told apart by six bits. -/
theorem opimmName_shift (shift : Shift) (rd rs1 : Fin 32) (shamt : Fin 64) (inst : DecodedInst)
    (hfunct3 : inst.funct3 = UInt8.ofNat shift.funct3) :
    opimmName (wordI 0x13 rd shift.funct3 rs1 (shift.imm shamt)) inst = .other shift.number := by
  have hbits := extract_funct6 0x13 rd shift.funct3 rs1 (shift.imm shamt)
  rw [toNat_shiftImm shift shamt.isLt] at hbits
  have hword {n : ℕ} (hn : n < 2 ^ 32)
      (h : (shamt + if shift = .rightArithmetic then 2 ^ 10 else 0) / 2 ^ 6 = n) :
      extract 31 26 (wordI 0x13 rd shift.funct3 rs1 (shift.imm shamt)) = UInt32.ofNat n := by
    apply UInt32.toNat_inj.mp
    rw [hbits, h, UInt32.toNat_ofNat_of_lt' hn]
  rw [opimmName, hfunct3]
  cases shift with
  | left =>
    rw [@hword 0 (by decide) (by simp)]
    rfl
  | right =>
    rw [@hword 0 (by decide) (by simp)]
    rfl
  | rightArithmetic =>
    rw [@hword 0x10 (by decide) (by simp; omega)]
    rfl

theorem highBits_shift (shift : Shift) (shamt : Fin 32) : highBits (shift.imm shamt) =
    if shift = .rightArithmetic then 0x20 else 0 := by
  rw [highBits, toNat_shiftImm shift (by omega)]
  cases shift with
  | left | right =>
    have h : shamt.val / 32 = 0 := by omega
    simp [h]
  | rightArithmetic =>
    have h : (shamt.val + 1024) / 32 = 32 := by omega
    simp [h]

/-- The decoder reads every instruction as it is encoded. -/
theorem decode_encode (decodeRvc : UInt32 → Option DecodedInst) (i : Instruction) :
    decode decodeRvc i.encode = some i.decoded := by
  -- One case for each format: the fields come back by its lemma, and the names by computation.
  rw [switches_encode decodeRvc i]
  cases i with
  | lui rd imm =>
    simp only [opcode, encode, decodeOpcode, setupU_upperWord]
    rfl
  | auipc rd imm =>
    simp only [opcode, encode, decodeOpcode, setupU_upperWord]
    rfl
  | jal rd offset =>
    simp only [opcode, encode, decodeOpcode, setupJ_wordJ]
    rfl
  | jalr rd rs1 offset =>
    simp only [opcode, encode, decodeOpcode, setupI_wordI]
    rfl
  | branch condition rs1 rs2 offset =>
    simp only [opcode, encode, decodeOpcode, setupB_wordB]
    cases condition <;> rfl
  | load kind rd rs1 offset =>
    simp only [opcode, encode, decodeOpcode, setupI_wordI]
    cases kind <;> rfl
  | store kind rs1 rs2 offset =>
    simp only [opcode, encode, decodeOpcode, setupS_wordS]
    cases kind <;> rfl
  | opImm op rd rs1 imm =>
    simp only [opcode, encode, decodeOpcode, setupI_wordI]
    cases op <;> rfl
  | shiftImm shift rd rs1 shamt =>
    simp only [opcode, encode, decodeOpcode, setupI_wordI, opimmName_shift]
    rfl
  | opReg op rd rs1 rs2 =>
    simp only [opcode, encode, decodeOpcode, setupR_wordOf]
    cases op <;> rfl
  | addiw rd rs1 imm =>
    simp only [opcode, encode, decodeOpcode, setupI_wordI]
    rfl
  | shiftImm32 shift rd rs1 shamt =>
    rw [decoded]
    simp only [opcode, encode, decodeOpcode, setupI_wordI, formI, highBits_shift]
    cases shift <;> rfl
  | opReg32 op rd rs1 rs2 =>
    simp only [opcode, encode, decodeOpcode, setupR_wordOf]
    cases op <;> rfl
  | fence mode =>
    simp only [opcode, encode, decodeOpcode, setupI_wordI]
    rfl
  | fenceI mode =>
    simp only [opcode, encode, decodeOpcode, setupI_wordI]
    rfl
  | csrrHartId rd =>
    have hcsr : extract 31 20 (wordI 0x73 rd 2 0 0xf14) = 0xf14 :=
      UInt32.toNat_inj.mp (extract_wordI ..)
    simp only [opcode, encode, decodeOpcode, decodeSystem, hcsr]
    simp only [wordI, rdField_wordOf, rs1Field_wordOf, funct3Field_wordOf, funct7Field_wordOf]
    rfl
  | ecall => rfl
  | ebreak => rfl

end Instruction

end Rv64archsem
