import SimbusNoc.Manycore.DecodeTables

/-!
# The decoder

`decode.cpp` and `decodev.cpp` for 32-bit words. A function that returns `false` is one without a
result here, and each of them extends the instruction that it is given. The core never decodes a
compressed word, so the decoder of those is a parameter.

The seven `setup` functions fill in the operands of a format, and the case of an opcode calls one
of them and names the instruction by its function fields; the tables behind the names are in a
module of their own. Loads and stores of floating-point numbers and of vectors share two opcodes,
and the field of the width tells them apart. The three kinds of jumps to a register are told apart
as the source has it, which is by what they mean for a stack of return addresses.
-/

namespace Rv64archsem

/-! ## Fields of a word -/

/-- `extract`. -/
def extract (hibit lowbit value : UInt32) : UInt32 :=
  (value >>> lowbit) &&& (((1 : UInt32) <<< (hibit - lowbit + 1)) - 1)

/-- `signExtend`. -/
def signExtend (hibit value : UInt64) : Int64 :=
  (if value &&& ((1 : UInt64) <<< hibit) ≠ 0 then value ||| (~~~(0 : UInt64) <<< (hibit + 1))
    else value).toInt64

/-- A field of five bits. -/
def regField (hibit lowbit instWord : UInt32) : Fin 32 :=
  Fin.ofNat 32 (extract hibit lowbit instWord).toNat

def rdField : UInt32 → Fin 32 := regField 11 7
def rs1Field : UInt32 → Fin 32 := regField 19 15
def rs2Field : UInt32 → Fin 32 := regField 24 20
def funct3Field (instWord : UInt32) : UInt8 := (extract 14 12 instWord).toUInt8 &&& 0x07
def funct7Field (instWord : UInt32) : UInt8 := (extract 31 25 instWord).toUInt8 &&& 0x7f

/-- Whether a bit of the word is set. -/
def bit (n instWord : UInt32) : Bool := instWord &&& ((1 : UInt32) <<< n) != 0

/-- The bit that leaves a vector instruction unmasked. -/
def vmBit (instWord : UInt32) : Bool := bit 25 instWord

def setupR (instWord : UInt32) (inst : DecodedInst) : DecodedInst :=
  { inst with
    instType := .R
    rd := rdField instWord
    rs1 := rs1Field instWord
    rs2 := rs2Field instWord
    funct3 := funct3Field instWord
    funct7 := funct7Field instWord
    rdType := .gpreg
    rs1Type := .gpreg
    rs2Type := .gpreg }

def setupI (instWord : UInt32) (inst : DecodedInst) : DecodedInst :=
  { inst with
    instType := .I
    rd := rdField instWord
    rs1 := rs1Field instWord
    imm := signExtend 11 (extract 31 20 instWord).toUInt64
    funct3 := funct3Field instWord
    funct7 := funct7Field instWord
    rdType := .gpreg
    rs1Type := .gpreg }

def setupS (instWord : UInt32) (inst : DecodedInst) : DecodedInst :=
  { inst with
    instType := .S
    rs1 := rs1Field instWord
    rs2 := rs2Field instWord
    imm := signExtend 11 ((extract 31 25 instWord <<< 5) ||| extract 11 7 instWord).toUInt64
    funct3 := funct3Field instWord
    funct7 := funct7Field instWord
    rs1Type := .gpreg
    rs2Type := .gpreg }

def setupB (instWord : UInt32) (inst : DecodedInst) : DecodedInst :=
  { inst with
    instType := .B
    rs1 := rs1Field instWord
    rs2 := rs2Field instWord
    imm := signExtend 12 ((extract 31 31 instWord <<< 12) ||| (extract 7 7 instWord <<< 11) |||
      (extract 30 25 instWord <<< 5) ||| (extract 11 8 instWord <<< 1)).toUInt64
    funct3 := funct3Field instWord
    funct7 := funct7Field instWord
    rs1Type := .gpreg
    rs2Type := .gpreg }

def setupU (instWord : UInt32) (inst : DecodedInst) : DecodedInst :=
  { inst with
    instType := .U
    rd := rdField instWord
    imm := signExtend 31 (extract 31 12 instWord <<< 12).toUInt64
    funct3 := 0
    funct7 := 0
    rdType := .gpreg }

def setupJ (instWord : UInt32) (inst : DecodedInst) : DecodedInst :=
  { inst with
    instType := .J
    rd := rdField instWord
    imm := signExtend 20 ((extract 31 31 instWord <<< 20) ||| (extract 19 12 instWord <<< 12) |||
      (extract 20 20 instWord <<< 11) ||| (extract 30 21 instWord <<< 1)).toUInt64
    funct3 := 0
    funct7 := 0
    rdType := .gpreg }

def setupR4 (instWord : UInt32) (inst : DecodedInst) : DecodedInst :=
  { inst with
    instType := .R4
    rd := rdField instWord
    rs1 := rs1Field instWord
    rs2 := rs2Field instWord
    rs3 := regField 31 27 instWord
    funct3 := funct3Field instWord
    funct7 := (extract 26 25 instWord).toUInt8 &&& 0x03
    rdType := .freg
    rs1Type := .freg
    rs2Type := .freg
    rs3Type := .freg }

/-- The instruction with its name, unless there is none. -/
def named (name : InstName) (inst : DecodedInst) : Option DecodedInst :=
  if name = .illegal then none else some { inst with instName := name }

/-! ## Vector memory instructions -/

/-- The layout of the elements in memory, by `funct3`. -/
def elementView (funct3 : UInt8) : VRegView :=
  match funct3.toNat with
  | 0 => .ei8
  | 5 => .ei16
  | 6 => .ei32
  | 7 => .ei64
  | _ => .none

/-- The layout of whole registers, by the field `nf`. -/
def wholeRegisterView (nf : ℕ) : Option VRegView :=
  match nf with
  | 0 => some .reg1
  | 1 => some .reg2
  | 3 => some .reg4
  | 7 => some .reg8
  | _ => none

/-- `_decode_loadv`. -/
def decodeLoadv (instWord : UInt32) (inst : DecodedInst) : Option DecodedInst :=
  let view := elementView (funct3Field instWord)
  let inst := { inst with
    opcode := .loadfp
    instType := .V
    controlType := .vload
    rd := rdField instWord
    rs1 := rs1Field instWord
    rs2 := rs2Field instWord
    funct3 := funct3Field instWord
    funct7 := funct7Field instWord
    rs1Type := .gpreg
    rdType := .vreg
    vrdView := view }
  if bit 28 instWord then none
  else
    match (extract 27 26 instWord).toNat with
    | 0 =>
      match inst.rs2.val with
      | 0x00 => some { inst with instName := .vleXV }
      | 0x08 =>
        if !vmBit instWord then none
        else (wholeRegisterView (extract 31 29 instWord).toNat).map fun whole ↦
          { inst with vrdView := whole, instName := .other 0x0310006 }
      | 0x0b =>
        if !vmBit instWord then none
        else some { inst with vrdView := .mask, instName := .other 0x0310004 }
      | 0x10 => some { inst with instName := .other 0x0310005 }
      | _ => none
    | 1 => some { inst with
        rs2Type := .vreg, instName := .other 0x0310001, vrs2View := view, vrdView := .none }
    | 2 => some { inst with rs2Type := .gpreg, instName := .other 0x0310002 }
    | _ => some { inst with
        rs2Type := .vreg, instName := .other 0x0310003, vrs2View := view, vrdView := .none }

def decodeLoadfp (instWord : UInt32) (inst : DecodedInst) : Option DecodedInst :=
  match (funct3Field instWord).toNat with
  | 0 | 5 | 6 | 7 => decodeLoadv instWord inst
  | funct3 =>
    named (.ofNumber ([0, 0x0130001, 0x1000001, 0x0110001, 0x0120001].getD funct3 0))
      { setupI instWord inst with
        opcode := .loadfp, rdType := .freg, rs1Type := .gpreg, controlType := .load }

/-- `_decode_storev`. -/
def decodeStorev (instWord : UInt32) (inst : DecodedInst) : Option DecodedInst :=
  let view := elementView (funct3Field instWord)
  let inst := { inst with
    opcode := .storefp
    instType := .V
    controlType := .vstore
    rs1 := rs1Field instWord
    rs2 := rs2Field instWord
    rs3 := rdField instWord
    funct3 := funct3Field instWord
    funct7 := funct7Field instWord
    rs1Type := .gpreg
    rs3Type := .vreg
    vrs3View := view }
  if bit 28 instWord then none
  else
    match (extract 27 26 instWord).toNat with
    | 0 =>
      match inst.rs2.val with
      | 0x00 => some { inst with instName := .vseXV }
      | 0x08 =>
        if !vmBit instWord then none
        else (wholeRegisterView (extract 31 29 instWord).toNat).map fun whole ↦
          { inst with vrs3View := whole, instName := .other 0x0320006 }
      | 0x0b =>
        if !vmBit instWord then none
        else some { inst with vrs3View := .mask, instName := .other 0x0320004 }
      | _ => none
    | 1 => some { inst with
        instName := .other 0x0320001, rs2Type := .vreg, vrs2View := view, vrs3View := .none }
    | 2 => some { inst with instName := .other 0x0320002, rs2Type := .gpreg }
    | _ => some { inst with
        instName := .other 0x0320003, rs2Type := .vreg, vrs2View := view, vrs3View := .none }

def decodeStorefp (instWord : UInt32) (inst : DecodedInst) : Option DecodedInst :=
  match (funct3Field instWord).toNat with
  | 0 | 5 | 6 | 7 => decodeStorev instWord inst
  | funct3 =>
    named (.ofNumber ([0, 0x0130002, 0x1000002, 0x0110002, 0x0120002].getD funct3 0))
      { setupS instWord { inst with opcode := .storefp } with
        rs2Type := .freg, controlType := .store }

/-! ## Vector arithmetic -/

/-- `_setupOPV_no_regtype`. -/
def setupOPVNoRegtype (instWord : UInt32) (inst : DecodedInst) : DecodedInst :=
  { inst with
    instType := .V
    rd := rdField instWord
    rs1 := rs1Field instWord
    rs2 := rs2Field instWord
    funct3 := funct3Field instWord
    funct7 := funct7Field instWord }

def funct6Field (instWord : UInt32) : ℕ := (extract 31 26 instWord).toNat

/-- The switch over `funct6`. -/
def opvSwitch (table : List ((ℕ × Option ℕ) × OpvRow)) (instWord : UInt32)
    (inst : DecodedInst) : Option DecodedInst := do
  let funct6 := funct6Field instWord
  let row ← (table.lookup (funct6, none)).or (table.lookup (funct6, some inst.rs1.val))
  named (row.name (vmBit instWord)) { inst with
    vrdView := row.vrdView, vrs1View := row.vrs1View, vrs2View := row.vrs2View }

/-- `_decodev_opivv`. -/
def decodevOpivv (instWord : UInt32) (inst : DecodedInst) : Option DecodedInst :=
  opvSwitch opivvTable instWord { setupOPVNoRegtype instWord inst with
    rdType := .vreg
    rs1Type := .vreg
    rs2Type := if funct6Field instWord = 0x17 ∧ vmBit instWord then .none else .vreg }

/-- `_decodev_opfvv`. -/
def decodevOpfvv (instWord : UInt32) (inst : DecodedInst) : Option DecodedInst :=
  let funct6 := funct6Field instWord
  opvSwitch opfvvTable instWord { setupOPVNoRegtype instWord inst with
    rdType := if funct6 = 0x10 then .freg else .vreg
    rs2Type := .vreg
    rs1Type := if funct6 = 0x10 ∨ funct6 = 0x12 ∨ funct6 = 0x13 then .none else .vreg }

/-- `_decodev_opmvv`. -/
def decodevOpmvv (instWord : UInt32) (inst : DecodedInst) : Option DecodedInst :=
  let funct6 := funct6Field instWord
  opvSwitch opmvvTable instWord { setupOPVNoRegtype instWord inst with
    rdType := if funct6 = 0x10 then .gpreg else .vreg
    rs1Type := if funct6 = 0x10 ∨ funct6 = 0x12 ∨ funct6 = 0x14 then .none else .vreg
    rs2Type := if funct6 = 0x14 ∧ rs1Field instWord = 0x11 then .none else .vreg }

/-- `_decodev_opivi`. -/
def decodevOpivi (instWord : UInt32) (inst : DecodedInst) : Option DecodedInst :=
  let funct6 := funct6Field instWord
  let rs1 := UInt64.ofNat (rs1Field instWord)
  opvSwitch opiviTable instWord { setupOPVNoRegtype instWord inst with
    rdType := .vreg
    rs2Type := if funct6 = 0x17 ∧ vmBit instWord then .none else .vreg
    imm :=
      if [0x0c, 0x0e, 0x0f, 0x25, 0x28, 0x29, 0x2a, 0x2b, 0x2c, 0x2d, 0x2e,
        0x2f].contains funct6 then rs1.toInt64
      else signExtend 4 rs1 }

/-- `_decodev_opivx`. -/
def decodevOpivx (instWord : UInt32) (inst : DecodedInst) : Option DecodedInst :=
  opvSwitch opivxTable instWord { setupOPVNoRegtype instWord inst with
    rdType := .vreg
    rs1Type := .gpreg
    rs2Type := if funct6Field instWord = 0x17 ∧ vmBit instWord then .none else .vreg }

/-- `_decodev_opfvf`. -/
def decodevOpfvf (instWord : UInt32) (inst : DecodedInst) : Option DecodedInst :=
  let funct6 := funct6Field instWord
  opvSwitch opfvfTable instWord { setupOPVNoRegtype instWord inst with
    rdType := .vreg
    rs1Type := .freg
    rs2Type := if funct6 = 0x10 ∨ funct6 = 0x17 ∧ vmBit instWord then .none else .vreg }

/-- `_decodev_opmvx`. -/
def decodevOpmvx (instWord : UInt32) (inst : DecodedInst) : Option DecodedInst :=
  opvSwitch opmvxTable instWord { setupOPVNoRegtype instWord inst with
    rdType := .vreg
    rs1Type := .gpreg
    rs2Type := if funct6Field instWord = 0x10 then .none else .vreg }

/-- `_decodev_opcfg`. -/
def decodevOpcfg (instWord : UInt32) (inst : DecodedInst) : Option DecodedInst :=
  let inst := { setupOPVNoRegtype instWord inst with rdType := .vreg }
  if bit 31 instWord then
    if bit 30 instWord then
      some { inst with
        imm := (extract 29 20 instWord).toUInt64.toInt64, instName := .vsetivli }
    else some { inst with rs1Type := .gpreg, rs2Type := .gpreg, instName := .vsetvl }
  else
    some { inst with
      imm := (extract 30 20 instWord).toUInt64.toInt64, rs1Type := .gpreg, instName := .vsetvli }

def decodeOpv (instWord : UInt32) (inst : DecodedInst) : Option DecodedInst :=
  let inst := { inst with opcode := .opv }
  match (funct3Field instWord).toNat with
  | 0 => decodevOpivv instWord inst
  | 1 => decodevOpfvv instWord inst
  | 2 => decodevOpmvv instWord inst
  | 3 => decodevOpivi instWord inst
  | 4 => decodevOpivx instWord inst
  | 5 => decodevOpfvf instWord inst
  | 6 => decodevOpmvx instWord inst
  | _ => decodevOpcfg instWord inst

/-! ## All instructions -/

/-- `OPCode` as a number. -/
def opcodeOf (n : ℕ) : Option OPCode :=
  [(0x03, .load), (0x07, .loadfp), (0x0f, .miscmem), (0x13, .opimm), (0x17, .auipc),
    (0x1b, .opimm32), (0x23, .store), (0x27, .storefp), (0x2f, .amo), (0x33, .op), (0x37, .lui),
    (0x3b, .op32), (0x43, .madd), (0x47, .msub), (0x4b, .nmsub), (0x4f, .nmadd), (0x53, .opfp),
    (0x57, .opv), (0x63, .branch), (0x67, .jalr), (0x6f, .jal), (0x73, .system)].lookup n

/-- How the shifts by a constant are told apart. -/
def opimmName (instWord : UInt32) (inst : DecodedInst) : InstName :=
  let funct6 := extract 31 26 instWord
  match inst.funct3.toNat with
  | 1 => if funct6 ≠ 0 then .illegal else .other 0x0010017
  | 5 =>
    if funct6 = 0 then .other 0x001001b
    else if funct6 = 0x10 then .other 0x001001c
    else .illegal
  | funct3 => rv64Imm64InstName funct3

def opimm32Name (inst : DecodedInst) : InstName :=
  match inst.funct3.toNat with
  | 1 => if inst.funct7 ≠ 0 then .illegal else .other 0x001002a
  | 5 =>
    if inst.funct7 = 0 then .other 0x001002b
    else if inst.funct7 = 0x20 then .other 0x001002c
    else .illegal
  | funct3 => rv64Imm32InstName funct3

/-- The extension of the result of an integer load. -/
def loadExtensionOf (funct3 : ℕ) : RDExtType :=
  match funct3 with
  | 0 => .sign8
  | 1 => .sign16
  | 2 => .sign32
  | _ => .zero

/-- The case of `OPCode::opfp`. -/
def decodeOpfp (instWord : UInt32) (inst : DecodedInst) : Option DecodedInst := do
  let inst := setupR instWord inst
  let inst ← named (rv64FpopInstName inst.funct7.toNat inst.funct3.toNat inst.rs2.val) inst
  let fpop := (extract 31 27 instWord).toNat
  if !rv64FpopIsValid inst.funct7.toNat inst.funct3.toNat inst.rs2.val then none
  else some { inst with
    rdType := if rv64FpopIsIRd fpop then inst.rdType else .freg
    rs1Type := if rv64FpopIsIS1 fpop then inst.rs1Type else .freg
    rs2Type := if rv64FpopHasS2 fpop then .freg else .none }

/-- The case of `OPCode::system`. -/
def decodeSystem (instWord : UInt32) (inst : DecodedInst) : Option DecodedInst :=
  let csr := extract 31 20 instWord &&& 0xfff
  let inst := { inst with
    funct3 := funct3Field instWord
    rd := rdField instWord
    rs1 := rs1Field instWord
    imm := csr.toUInt64.toInt64
    funct7 := funct7Field instWord }
  if inst.funct7 = 0b0001001 then
    some { inst with controlType := .sfenceVma, instName := .other 0x0040001 }
  else
    let csrInst := { inst with controlType := .csr, rdType := .gpreg }
    match inst.funct3.toNat with
    | 0 =>
      match csr.toNat with
      | 0x000 => some { inst with controlType := .ecall, instName := .other 0x0010035 }
      | 0x001 => some { inst with controlType := .ebreak, instName := .other 0x0010036 }
      | 0x102 => some { inst with controlType := .sret, instName := .other 0x0010038 }
      | 0x302 => some { inst with controlType := .mret, instName := .other 0x0010039 }
      | 0x7b2 => some { inst with controlType := .uret, instName := .other 0x001003a }
      | 0x105 => some { inst with controlType := .wfi, instName := .other 0x0010037 }
      | _ => none
    | 1 => some { csrInst with instName := .other 0x001003b, rs1Type := .gpreg }
    | 2 => some { csrInst with instName := .other 0x001003c, rs1Type := .gpreg }
    | 3 => some { csrInst with instName := .other 0x001003d, rs1Type := .gpreg }
    | 5 => some { csrInst with instName := .other 0x001003e, rs1Type := .none }
    | 6 => some { csrInst with instName := .other 0x001003f, rs1Type := .none }
    | 7 => some { csrInst with instName := .other 0x0010040, rs1Type := .none }
    | _ => none

/-- The switch of `decode` over the opcode. -/
def decodeOpcode (instWord : UInt32) (inst : DecodedInst) : Option DecodedInst :=
  match inst.opcode with
  | .load =>
    let inst := { setupI instWord inst with controlType := .load }
    named (rv64LoadInstName inst.funct3.toNat) { inst with
      rdExt := loadExtensionOf inst.funct3.toNat }
  | .loadfp => decodeLoadfp instWord inst
  | .miscmem =>
    let inst := setupI instWord inst
    if inst.funct3 = 0 then some { inst with controlType := .fence, instName := .other 0x0010032 }
    else if inst.funct3 = 1 then
      some { inst with controlType := .fencei, instName := .other 0x0010033 }
    else none
  | .opimm =>
    let inst := setupI instWord inst
    named (opimmName instWord inst) inst
  | .auipc => some { setupU instWord inst with instName := .other 0x0010002 }
  | .opimm32 =>
    let inst := setupI instWord inst
    named (opimm32Name inst) { inst with rdExt := .sign32 }
  | .store =>
    let inst := { setupS instWord inst with controlType := .store }
    named (rv64StoreInstName inst.funct3.toNat) inst
  | .storefp => decodeStorefp instWord inst
  | .amo =>
    let inst := { setupR instWord inst with controlType := .amo }
    named (rv64AmoInstName inst.funct7.toNat inst.funct3.toNat) { inst with
      rdExt := if inst.funct3 = 2 then .sign32 else inst.rdExt }
  | .op =>
    let inst := setupR instWord inst
    named (rv64Op64InstName inst.funct7.toNat inst.funct3.toNat) inst
  | .lui => some { setupU instWord inst with instName := .other 0x0010001 }
  | .op32 =>
    let inst := setupR instWord inst
    named (rv64Op32InstName inst.funct7.toNat inst.funct3.toNat) { inst with rdExt := .sign32 }
  | .madd =>
    let inst := setupR4 instWord inst
    named (rv64FmaddInstName inst.funct7.toNat) inst
  | .msub =>
    let inst := setupR4 instWord inst
    named (rv64FmsubInstName inst.funct7.toNat) inst
  | .nmsub =>
    let inst := setupR4 instWord inst
    named (rv64FnmsubInstName inst.funct7.toNat) inst
  | .nmadd =>
    let inst := setupR4 instWord inst
    named (rv64FnmaddInstName inst.funct7.toNat) inst
  | .opfp => decodeOpfp instWord inst
  | .opv => decodeOpv instWord inst
  | .branch =>
    let inst := { setupB instWord inst with controlType := .branch }
    named (rv64BranchInstName inst.funct3.toNat) inst
  | .jalr =>
    let inst := setupI instWord inst
    some { inst with
      controlType :=
        if inst.rd = 1 ∧ inst.rs1 ≠ 1 then .call
        else if inst.rd = 0 ∧ inst.rs1 = 1 then .ret
        else .indirectJump
      instName := .other 0x0010004 }
  | .jal =>
    let inst := setupJ instWord inst
    some { inst with
      controlType := if inst.rd = 1 ∨ inst.rd = 5 then .call else .directJump
      instName := .other 0x0010003 }
  | .system => decodeSystem instWord inst
  | .nop => none

def decode (decodeRvc : UInt32 → Option DecodedInst) (instWord : UInt32) : Option DecodedInst :=
  if instWord &&& 0x3 ≠ 0x3 then decodeRvc instWord
  else do
    let opcode ← opcodeOf (extract 6 0 instWord).toNat
    decodeOpcode instWord { rawInst := instWord, opcode := opcode }

end Rv64archsem
