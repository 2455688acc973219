import Mathlib.Algebra.GroupWithZero.Nat
import SimbusNoc.Manycore.Protocol

/-!
# The instruction set library

What the RV64 core uses of `rv64archsem`. The decoded instruction, the vector context and the
functions that turn a memory instruction into descriptors (`memparse.cpp`, `rvv64.cpp`) are
embedded, the latter for the arguments that the core passes: no boundary for scalars, boundaries of
8 bytes for vectors, and no error on misalignment.

The decoder and the arithmetic are the fields of `ArchSem`, which nothing here restricts. Every
register field of a decoded instruction has five bits in the encoding. So what is proved of the
core for any `ArchSem` holds whatever these functions compute. The decoder itself, the integer unit
and the vector arithmetic are embedded in modules of their own, which fill in the fields.

## Descriptors

A vector access becomes one descriptor for each element and field. With a boundary, `splitAccess`
cuts each at the multiples of 8, and `mergeAdjacent` joins neighbours that one word holds. Loads
and stores have different descriptors, and the two loops are the same in both, so they are written
once over what differs: how a descriptor is cut, when it goes on with the last one, and how the
last one is extended.
-/

namespace Rv64archsem

open Simbus

/-! ## Decoded instructions -/

inductive OPCode
  | load | loadfp | miscmem | opimm | auipc | opimm32 | store | storefp | amo | op | lui | op32
  | madd | msub | nmsub | nmadd | opfp | opv | branch | jalr | jal | system | nop
  deriving DecidableEq

inductive InstType
  | R | I | S | B | U | J | R4 | C | V | N
  deriving DecidableEq

inductive RegType
  | none | gpreg | freg | vreg
  deriving DecidableEq

inductive RDExtType
  | zero | sign8 | sign16 | sign32
  deriving DecidableEq

inductive VRegView
  | none | m2 | f2 | f4 | f8 | ei8 | ei16 | ei32 | ei64 | mask | e0 | e0m2 | reg1 | reg2 | reg4
  | reg8
  deriving DecidableEq

inductive ControlType
  | none | branch | directJump | indirectJump | call | ret | load | store | vload | vstore | amo
  | csr | fence | fencei | fenceTso | sfenceVma | ecall | ebreak | mret | sret | uret | wfi
  deriving DecidableEq

/-- The instruction names that the core knows, and the others by their number. -/
inductive InstName
  | illegal
  | vsetvli | vsetivli | vsetvl
  | vaddVv | vsubVv | vminuVv | vminVv | vmaxuVv | vmaxVv | vandVv | vorVv | vxorVv
  | vaddVx | vsubVx | vrsubVx | vminuVx | vminVx | vmaxuVx | vmaxVx | vandVx | vorVx | vxorVx
  | vaddVi | vrsubVi | vandVi | vorVi | vxorVi
  | vmvVV | vmvVI | vmvXS | vmvSX
  | vleXV | vseXV
  | other (number : ℕ)
  deriving DecidableEq

/-- Register numbers may be written as literals. -/
instance neZeroRegisters : NeZero 32 := ⟨Nat.succ_ne_zero 31⟩

structure DecodedInst where
  rawInst : UInt32 := 0
  instName : InstName := .illegal
  opcode : OPCode := .nop
  controlType : ControlType := .none
  instType : InstType := .N
  imm : Int64 := 0
  rdType : RegType := .none
  rs1Type : RegType := .none
  rs2Type : RegType := .none
  rs3Type : RegType := .none
  rd : Fin 32 := 0
  rs1 : Fin 32 := 0
  rs2 : Fin 32 := 0
  rs3 : Fin 32 := 0
  funct3 : UInt8 := 0
  funct7 : UInt8 := 0
  rdExt : RDExtType := .zero
  vrdView : VRegView := .none
  vrs1View : VRegView := .none
  vrs2View : VRegView := .none
  vrs3View : VRegView := .none
  deriving DecidableEq

/-! ## The vector context -/

/-- `RVV_VLEN`, in bits. -/
def rvvVlen : ℕ := 256

inductive RVVSEW
  | e8 | e16 | e32 | e64
  deriving DecidableEq

inductive RVVLMUL
  | m1 | m2 | m4 | m8 | mf8 | mf4 | mf2
  deriving DecidableEq

structure VecContext where
  sew : RVVSEW
  lmul : RVVLMUL
  vl : UInt32
  vstart : UInt32
  vcsr : UInt64
  vmask : Bytes
  deriving DecidableEq

def RVVSEW.bytes : RVVSEW → ℕ
  | .e8 => 1
  | .e16 => 2
  | .e32 => 4
  | .e64 => 8

def getMaxVectorLength (sew : RVVSEW) (lmul : RVVLMUL) : ℕ :=
  let bits := sew.bytes * 8
  match lmul with
  | .m1 => rvvVlen / bits
  | .m2 => rvvVlen * 2 / bits
  | .m4 => rvvVlen * 4 / bits
  | .m8 => rvvVlen * 8 / bits
  | .mf8 => rvvVlen / 8 / bits
  | .mf4 => rvvVlen / 4 / bits
  | .mf2 => rvvVlen / 2 / bits

def getElementBytes (vctx : VecContext) : VRegView → ℕ
  | .none => vctx.sew.bytes
  | .m2 => vctx.sew.bytes * 2
  | .f2 => vctx.sew.bytes / 2
  | .f4 => vctx.sew.bytes / 4
  | .f8 => vctx.sew.bytes / 8
  | .ei8 => 1
  | .ei16 => 2
  | .ei32 => 4
  | .ei64 => 8
  | .mask => 1
  | .e0 => vctx.sew.bytes
  | .e0m2 => vctx.sew.bytes * 2
  | .reg1 => rvvVlen / 8
  | .reg2 => rvvVlen / 4
  | .reg4 => rvvVlen / 2
  | .reg8 => rvvVlen

/-- `request_reg_bytes`. The products are 32-bit ones. -/
def requestRegBytes (vctx : VecContext) (regtype : RegType) (view : VRegView) : ℕ :=
  let vl := vctx.vl.toNat
  match regtype, view with
  | .none, _ => 0
  | .gpreg, _ => 8
  | .freg, _ => 8
  | .vreg, .none => vctx.sew.bytes * vl % 2 ^ 32
  | .vreg, .m2 => vctx.sew.bytes * vl * 2 % 2 ^ 32
  | .vreg, .f2 => vctx.sew.bytes * vl % 2 ^ 32 / 2
  | .vreg, .f4 => vctx.sew.bytes * vl % 2 ^ 32 / 4
  | .vreg, .f8 => vctx.sew.bytes * vl % 2 ^ 32 / 8
  | .vreg, .ei8 => vl
  | .vreg, .ei16 => 2 * vl % 2 ^ 32
  | .vreg, .ei32 => 4 * vl % 2 ^ 32
  | .vreg, .ei64 => 8 * vl % 2 ^ 32
  | .vreg, .mask => (vl + 7) % 2 ^ 32 / 8
  | .vreg, .e0 => vctx.sew.bytes
  | .vreg, .e0m2 => vctx.sew.bytes * 2
  | .vreg, .reg1 => rvvVlen / 8
  | .vreg, .reg2 => rvvVlen / 4
  | .vreg, .reg4 => rvvVlen / 2
  | .vreg, .reg8 => rvvVlen

/-- `get_field_stride_in_vreg`. -/
def getFieldStrideInVreg : RVVLMUL → ℕ
  | .m1 => rvvVlen / 8
  | .m2 => rvvVlen / 8 * 2
  | .m4 => rvvVlen / 8 * 4
  | .m8 => rvvVlen / 8 * 8
  | .mf8 => rvvVlen / 8 / 8
  | .mf4 => rvvVlen / 8 / 4
  | .mf2 => rvvVlen / 8 / 2

/-! ## Memory operands -/

structure MemLoadDescriptor where
  addr : UInt64
  size : UInt16
  regOffset : UInt16
  firstElementIdx : UInt16 := 0
  deriving DecidableEq

structure MemStoreDescriptor where
  rawData : Bytes
  addr : UInt64
  firstElementIdx : UInt16 := 0
  deriving DecidableEq

inductive MemParseResult
  | success | illegalInstruction | insufficientVs2 | insufficientVs3 | insufficientVmask
  | misalignedAddress
  deriving DecidableEq

/-- The number that a message prints for a result. -/
def MemParseResult.code : MemParseResult → ℕ
  | .success => 0
  | .illegalInstruction => 1
  | .insufficientVs2 => 2
  | .insufficientVs3 => 3
  | .insufficientVmask => 4
  | .misalignedAddress => 5

/-- The bytes of a scalar access. -/
def scalarSize (funct3 : UInt8) : ℕ :=
  match funct3.toNat % 4 with
  | 0 => 1
  | 1 => 2
  | 2 => 4
  | _ => 8

def parseLoadScalar (inst : DecodedInst) (rs1val : UInt64) :
    Except MemParseResult (List MemLoadDescriptor) := do
  if inst.controlType ≠ .load then throw .illegalInstruction
  return [{
    addr := rs1val + inst.imm.toUInt64
    size := UInt16.ofNat (scalarSize inst.funct3)
    regOffset := 0 }]

def parseStoreScalar (inst : DecodedInst) (rs1val rs2val : UInt64) :
    Except MemParseResult (List MemStoreDescriptor) := do
  if inst.controlType ≠ .store then throw .illegalInstruction
  return [{
    rawData := Manycore.appendLe (scalarSize inst.funct3) rs2val.toNat
    addr := rs1val + inst.imm.toUInt64 }]

/-- The bytes up to the next multiple of 8. -/
def alignRemain (addr : UInt64) : ℕ := 8 - addr.toNat % 8

/-- The loop that splits an access at multiples of 8: its pieces with their offsets. The fuel is the
size, which each piece lowers. -/
def splitAccess : ℕ → UInt64 → ℕ → ℕ → List (UInt64 × ℕ × ℕ)
  | 0, _, _, _ => []
  | fuel + 1, addr, offset, size =>
    if size = 0 then []
    else
      let chunk := min size (alignRemain addr)
      (addr, offset, chunk) ::
        splitAccess fuel (addr + UInt64.ofNat chunk) (offset + chunk) (size - chunk)

/-- The loop that merges what lies in one word: `merges` says when a descriptor goes on with the
last one, and `join` extends that one. -/
def mergeAdjacent {α : Type} (merges : α → α → Bool) (join : α → α → α) : α → List α → List α
  | last, [] => [last]
  | last, d :: rest =>
    if merges last d then mergeAdjacent merges join (join last d) rest
    else last :: mergeAdjacent merges join d rest

/-- `mergeAdjacent` from the first of a list. -/
def mergeAll {α : Type} (merges : α → α → Bool) (join : α → α → α) : List α → List α
  | [] => []
  | d :: rest => mergeAdjacent merges join d rest

namespace MemLoadDescriptor

def split (d : MemLoadDescriptor) : List MemLoadDescriptor :=
  (splitAccess d.size.toNat d.addr 0 d.size.toNat).map fun (addr, offset, chunk) ↦
    { addr := addr
      size := UInt16.ofNat chunk
      regOffset := UInt16.ofNat (d.regOffset.toNat + offset)
      firstElementIdx := d.firstElementIdx }

/-- `d` goes on where `last` ends, in memory and in the registers, within one word. -/
def merges (last d : MemLoadDescriptor) : Bool :=
  last.addr / 8 == d.addr / 8 && last.addr + UInt64.ofNat last.size.toNat == d.addr &&
    last.regOffset.toNat + last.size.toNat == d.regOffset.toNat

def join (last d : MemLoadDescriptor) : MemLoadDescriptor :=
    { last with size := last.size + d.size }

end MemLoadDescriptor

namespace MemStoreDescriptor

def split (d : MemStoreDescriptor) : List MemStoreDescriptor :=
  (splitAccess d.rawData.length d.addr 0 d.rawData.length).map fun (addr, offset, chunk) ↦
    { rawData := (d.rawData.drop offset).take chunk
      addr := addr
      firstElementIdx := d.firstElementIdx }

def merges (last d : MemStoreDescriptor) : Bool :=
  last.addr / 8 == d.addr / 8 && last.addr + UInt64.ofNat last.rawData.length == d.addr

def join (last d : MemStoreDescriptor) : MemStoreDescriptor :=
  { last with rawData := last.rawData ++ d.rawData }

end MemStoreDescriptor

/-- The elements that a vector access visits. -/
def elements (vctx : VecContext) : List ℕ :=
  List.range' vctx.vstart.toNat (vctx.vl.toNat - vctx.vstart.toNat)

/-- The fields of a segment. -/
def fields (inst : DecodedInst) : List ℕ := List.range (inst.funct7.toNat / 16 % 8 + 1)

/-- `parse_load_vector` of an unmasked `vle`, which has stride 0. A split that leaves nothing would
be an element without bytes, which no `vle` has. -/
def parseLoadVector (inst : DecodedInst) (vctx : VecContext) (rs1val : UInt64)
    (vs2raw : List UInt64) :
    Except MemParseResult (VecContext × List MemLoadDescriptor) := do
  if vs2raw.length * 8 < requestRegBytes vctx inst.rs2Type inst.vrs2View then
    throw .insufficientVs2
  let width := getElementBytes vctx inst.vrdView
  let perElement := (elements vctx).flatMap fun i ↦ (fields inst).map fun f ↦
    ({ addr := rs1val + UInt64.ofNat (f * width)
       size := UInt16.ofNat width
       regOffset := UInt16.ofNat (i * width + f * getFieldStrideInVreg vctx.lmul)
       firstElementIdx := UInt16.ofNat i } : MemLoadDescriptor)
  return ({ vctx with vstart := 0 }, mergeAll MemLoadDescriptor.merges MemLoadDescriptor.join
    (perElement.flatMap MemLoadDescriptor.split))

/-- The bytes of a list of 64-bit words. -/
def wordBytes (words : List UInt64) : Bytes := words.flatMap fun w ↦ Manycore.appendLe 8 w.toNat

/-- `parse_store_vector` of an unmasked `vse`, which has stride 0. -/
def parseStoreVector (inst : DecodedInst) (vctx : VecContext) (rs1val : UInt64)
    (vs2raw vs3raw : List UInt64) :
    Except MemParseResult (VecContext × List MemStoreDescriptor) := do
  if vs2raw.length * 8 < requestRegBytes vctx inst.rs2Type inst.vrs2View then
    throw .insufficientVs2
  if vs3raw.length * 8 < requestRegBytes vctx inst.rs3Type inst.vrs3View then
    throw .insufficientVs3
  let width := getElementBytes vctx inst.vrdView
  let perElement := (elements vctx).flatMap fun i ↦ (fields inst).map fun f ↦
    ({ rawData := ((wordBytes vs3raw).drop (i * width + f * getFieldStrideInVreg vctx.lmul)).take
         width
       addr := rs1val + UInt64.ofNat (f * width) } : MemStoreDescriptor)
  return ({ vctx with vstart := 0 }, mergeAll MemStoreDescriptor.merges MemStoreDescriptor.join
    (perElement.flatMap MemStoreDescriptor.split))

/-! ## The rest of the library -/

inductive VecEXResult
  | success | insufficientVd | insufficientVs1 | insufficientVs2 | insufficientVmask
  | unsupportedSew | invalidWidenNarrow | illegalInstruction
  deriving DecidableEq

/-- The number that a message prints for a result. -/
def VecEXResult.code : VecEXResult → ℕ
  | .success => 0
  | .insufficientVd => 1
  | .insufficientVs1 => 2
  | .insufficientVs2 => 3
  | .insufficientVmask => 4
  | .unsupportedSew => 5
  | .invalidWidenNarrow => 6
  | .illegalInstruction => 7

/-- What a successful `exec_opv` leaves behind. It clears `vstart` as well. -/
structure OpvResult where
  vd : List UInt64
  vxsat : Bool
  fcsr : UInt64

/-- The functions of the library that are not embedded. -/
structure ArchSem where
  decode : UInt32 → Option DecodedInst
  /-- The target, when the branch is taken. -/
  execBranch : DecodedInst → UInt64 → UInt64 → UInt64 → Option UInt64
  execOpimm : DecodedInst → UInt64 → UInt64
  execOpimm32 : DecodedInst → UInt64 → UInt64
  execOp : DecodedInst → UInt64 → UInt64 → UInt64
  execOp32 : DecodedInst → UInt64 → UInt64 → UInt64
  /-- Of the destination, the two sources and `fcsr`. -/
  execOpv : DecodedInst → VecContext → List UInt64 → List UInt64 → List UInt64 → UInt64 →
    Except VecEXResult OpvResult
  /-- The table `instruction_names.inc`. -/
  mnemonic : InstName → String

end Rv64archsem
