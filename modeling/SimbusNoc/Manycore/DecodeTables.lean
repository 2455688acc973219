import SimbusNoc.Manycore.ArchSem

/-!
# The tables of the decoder

The switches of the decoder over the function fields of a word (`bitpack.hpp`, `decodev.cpp`). An
instruction that the core does not know by name has the number that `riscv64_insts.hpp` gives it.

A switch of the source is a table here, in the order of the cases. The vector switches also say
which layout each operand has, and sometimes choose the name by the bit that leaves an instruction
unmasked; an `OpvRow` is one such case. Since a table is data, what is true of all of its cases can
be checked by going through it.
-/

namespace Rv64archsem

/-- The name with a number of the enumeration, 0 for none. -/
def InstName.ofNumber (n : ℕ) : InstName := if n = 0 then .illegal else .other n

/-! ## Integer instructions -/

/-- `rv64_load_inst_name`. -/
def rv64LoadInstName (funct3 : ℕ) : InstName :=
  .ofNumber ([0x001000b, 0x001000c, 0x001000d, 0x001000e, 0x001000f, 0x0010010,
    0x0010011].getD funct3 0)

/-- `rv64_store_inst_name`. -/
def rv64StoreInstName (funct3 : ℕ) : InstName :=
  .ofNumber ([0x0010012, 0x0010013, 0x0010014, 0x0010015].getD funct3 0)

/-- `rv64_branch_inst_name`. -/
def rv64BranchInstName (op : ℕ) : InstName :=
  .ofNumber ([0x0010005, 0x0010006, 0, 0, 0x0010007, 0x0010008, 0x0010009, 0x001000a].getD op 0)

/-- `rv64_op64_inst_name`. -/
def rv64Op64InstName (funct7 funct3 : ℕ) : InstName :=
  match funct7 with
  | 0x00 => .ofNumber ([0x001001f, 0x0010021, 0x0010022, 0x0010023, 0x0010024, 0x0010025, 0x0010027,
      0x0010028].getD funct3 0)
  | 0x20 => .ofNumber ([0x0010020, 0, 0, 0, 0, 0x0010026].getD funct3 0)
  | 0x01 => .ofNumber ([0x0020001, 0x0020002, 0x0020003, 0x0020004, 0x0020005, 0x0020006, 0x0020007,
      0x0020008].getD funct3 0)
  | _ => .illegal

/-- `rv64_imm64_inst_name`, less the shifts. -/
def rv64Imm64InstName (funct3 : ℕ) : InstName :=
  .ofNumber ([0x0010016, 0x0010017, 0x0010018, 0x0010019, 0x001001a, 0x001001b, 0x001001d,
    0x001001e].getD funct3 0)

/-- `rv64_op32_inst_name`. -/
def rv64Op32InstName (funct7 funct3 : ℕ) : InstName :=
  match funct7 with
  | 0x00 => .ofNumber ([0x001002d, 0x001002f, 0, 0, 0, 0x0010030].getD funct3 0)
  | 0x20 => .ofNumber ([0x001002e, 0, 0, 0, 0, 0x0010031].getD funct3 0)
  | 0x01 => .ofNumber ([0x0020009, 0, 0, 0, 0x002000a, 0x002000b, 0x002000c,
      0x002000d].getD funct3 0)
  | _ => .illegal

/-- `rv64_imm32_inst_name`. -/
def rv64Imm32InstName (funct3 : ℕ) : InstName :=
  .ofNumber ([0x0010029, 0x001002a, 0, 0, 0, 0x001002b].getD funct3 0)

/-! ## Atomic instructions -/

/-- `rv64_amo_inst_name`. The two low bits of `funct7` order the access. -/
def rv64AmoInstName (funct7 funct3 : ℕ) : InstName :=
  match funct3 with
  | 2 => .ofNumber (([(0x00, 0x003000f), (0x01, 0x003000e), (0x02, 0x003000c), (0x03, 0x003000d),
      (0x04, 0x0030010), (0x0c, 0x0030011), (0x08, 0x0030012), (0x10, 0x0030013), (0x14, 0x0030014),
      (0x18, 0x0030015), (0x1c, 0x0030016)].lookup (funct7 / 4)).getD 0)
  | 3 => .ofNumber (([(0x00, 0x0030004), (0x01, 0x0030003), (0x02, 0x0030001), (0x03, 0x0030002),
      (0x04, 0x0030005), (0x0c, 0x0030006), (0x08, 0x0030007), (0x10, 0x0030008), (0x14, 0x0030009),
      (0x18, 0x003000a), (0x1c, 0x003000b)].lookup (funct7 / 4)).getD 0)
  | _ => .illegal

/-! ## Floating-point instructions -/

/-- The names of one operation in its four widths, which are single, double, half and quad. -/
def ofWidth (funct7 : ℕ) (names : List ℕ) : InstName := .ofNumber (names.getD (funct7 % 4) 0)

/-- `rv64_fpop_inst_name`. -/
def rv64FpopInstName (funct7 funct3 rs2 : ℕ) : InstName :=
  ofWidth funct7 <|
    match funct7 / 4 with
    | 0x00 => [0x1000007, 0x0110007, 0x0130007, 0x0120007]
    | 0x01 => [0x1000008, 0x0110008, 0x0130008, 0x0120008]
    | 0x02 => [0x1000009, 0x0110009, 0x0130009, 0x0120009]
    | 0x03 => [0x100000a, 0x011000a, 0x013000a, 0x012000a]
    | 0x0b => [0x100000b, 0x011000b, 0x013000b, 0x012000b]
    | 0x04 => [[0x100000c, 0x011000c, 0x013000c, 0x012000c],
        [0x100000d, 0x011000d, 0x013000d, 0x012000d],
        [0x100000e, 0x011000e, 0x013000e, 0x012000e]].getD funct3 []
    | 0x05 => [[0x100000f, 0x011000f, 0x013000f, 0x012000f],
        [0x1000010, 0x0110010, 0x0130010, 0x0120010]].getD funct3 []
    | 0x08 => [[0, 0x0110020, 0x0130020, 0x012001e], [0x011001f, 0, 0x0130022, 0x0120020],
        [0x013001f, 0x0130021, 0, 0x0140001],
        [0x012001d, 0x012001f, 0x0140002, 0]].getD (rs2 % 4) []
    | 0x14 => [[0x100001c, 0x011001c, 0x013001c, 0x012001c],
        [0x100001b, 0x011001b, 0x013001b, 0x012001b],
        [0x100001a, 0x011001a, 0x013001a, 0x012001a]].getD funct3 []
    | 0x18 => [[0x1000011, 0x0110011, 0x0130011, 0x0120011],
        [0x1000012, 0x0110012, 0x0130012, 0x0120012],
        [0x1000015, 0x0110015, 0x0130015, 0x0120015],
        [0x1000016, 0x0110016, 0x0130016, 0x0120016]].getD (rs2 % 8) []
    | 0x1a => [[0x1000013, 0x0110013, 0x0130013, 0x0120013],
        [0x1000014, 0x0110014, 0x0130014, 0x0120014],
        [0x1000017, 0x0110017, 0x0130017, 0x0120017],
        [0x1000018, 0x0110018, 0x0130018, 0x0120018]].getD (rs2 % 8) []
    | 0x1c => [[0x100001e, 0x011001e, 0x013001e, 0],
        [0x1000019, 0x0110019, 0x0130019, 0x0120019]].getD funct3 []
    | 0x1e => [0x100001d, 0x011001d, 0x013001d, 0]
    | _ => []

/-- `rv64_fpop_is_valid`. -/
def rv64FpopIsValid (funct7 funct3 rs2 : ℕ) : Bool :=
  match funct7 / 4 with
  | 0x00 | 0x01 | 0x02 | 0x03 | 0x0b => true
  | 0x04 | 0x14 => decide (funct3 ≤ 2)
  | 0x05 | 0x1c => decide (funct3 ≤ 1)
  | 0x08 | 0x18 | 0x1a => decide (rs2 ≤ 3)
  | 0x1e => funct3 == 0
  | _ => false

/-- `rv64_fpop_is_i_rd`. -/
def rv64FpopIsIRd (op : ℕ) : Bool := [0x14, 0x18, 0x1c].contains op

/-- `rv64_fpop_is_i_s1`. -/
def rv64FpopIsIS1 (op : ℕ) : Bool := [0x1a, 0x1e].contains op

/-- `rv64_fpop_has_s2`. -/
def rv64FpopHasS2 (op : ℕ) : Bool := [0x00, 0x01, 0x02, 0x03, 0x04, 0x05, 0x14].contains op

/-- `rv64_fmadd_inst_name`. -/
def rv64FmaddInstName (funct7 : ℕ) : InstName :=
  ofWidth funct7 [0x1000003, 0x0110003, 0x0130003, 0x0120003]

/-- `rv64_fmsub_inst_name`. -/
def rv64FmsubInstName (funct7 : ℕ) : InstName :=
  ofWidth funct7 [0x1000004, 0x0110004, 0x0130004, 0x0120004]

/-- `rv64_fnmsub_inst_name`. -/
def rv64FnmsubInstName (funct7 : ℕ) : InstName :=
  ofWidth funct7 [0x1000005, 0x0110005, 0x0130005, 0x0120005]

/-- `rv64_fnmadd_inst_name`. -/
def rv64FnmaddInstName (funct7 : ℕ) : InstName :=
  ofWidth funct7 [0x1000006, 0x0110006, 0x0130006, 0x0120006]

/-! ## Vector instructions -/

/-- A case of a switch over `funct6`: the instruction's name, which may depend on the bit `vm`, and
the layouts of its operands. -/
structure OpvRow where
  name : Bool → InstName
  vrdView : VRegView := .none
  vrs1View : VRegView := .none
  vrs2View : VRegView := .none

def always (name : InstName) : Bool → InstName := fun _ ↦ name

def byVm (set clear : InstName) : Bool → InstName := fun vm ↦ if vm then set else clear

/-! The key of a row is `funct6`, with the field `rs1` where that tells the instructions apart. -/

/-- `_decodev_opivv`. -/
def opivvTable : List ((ℕ × Option ℕ) × OpvRow) :=
  [((0x00, none), { name := always .vaddVv }),
    ((0x02, none), { name := always .vsubVv }),
    ((0x04, none), { name := always .vminuVv }),
    ((0x05, none), { name := always .vminVv }),
    ((0x06, none), { name := always .vmaxuVv }),
    ((0x07, none), { name := always .vmaxVv }),
    ((0x09, none), { name := always .vandVv }),
    ((0x0a, none), { name := always .vorVv }),
    ((0x0b, none), { name := always .vxorVv }),
    ((0x0c, none), { name := always (.other 0x0400009) }),
    ((0x0e, none), { name := always (.other 0x040000a), vrs1View := .ei16 }),
    ((0x10, none), { name := byVm .illegal (.other 0x040000b) }),
    ((0x11, none), { name := byVm (.other 0x040000d) (.other 0x040000c), vrdView := .mask }),
    ((0x12, none), { name := byVm .illegal (.other 0x040000e) }),
    ((0x13, none), { name := byVm (.other 0x0400010) (.other 0x040000f), vrdView := .mask }),
    ((0x17, none), { name := byVm .vmvVV (.other 0x0400011) }),
    ((0x18, none), { name := always (.other 0x0400013), vrdView := .mask }),
    ((0x19, none), { name := always (.other 0x0400014), vrdView := .mask }),
    ((0x1a, none), { name := always (.other 0x0400015), vrdView := .mask }),
    ((0x1b, none), { name := always (.other 0x0400016), vrdView := .mask }),
    ((0x1c, none), { name := always (.other 0x0400017), vrdView := .mask }),
    ((0x1d, none), { name := always (.other 0x0400018), vrdView := .mask }),
    ((0x20, none), { name := always (.other 0x0400019) }),
    ((0x21, none), { name := always (.other 0x040001a) }),
    ((0x22, none), { name := always (.other 0x040001b) }),
    ((0x23, none), { name := always (.other 0x040001c) }),
    ((0x25, none), { name := always (.other 0x040001d) }),
    ((0x27, none), { name := always (.other 0x040001e) }),
    ((0x28, none), { name := always (.other 0x040001f) }),
    ((0x29, none), { name := always (.other 0x0400020) }),
    ((0x2a, none), { name := always (.other 0x0400021) }),
    ((0x2b, none), { name := always (.other 0x0400022) }),
    ((0x2c, none), { name := always (.other 0x0400023), vrs2View := .m2 }),
    ((0x2d, none), { name := always (.other 0x0400024), vrs2View := .m2 }),
    ((0x2e, none), { name := always (.other 0x0400025), vrs2View := .m2 }),
    ((0x2f, none), { name := always (.other 0x0400026), vrs2View := .m2 }),
    ((0x30, none), { name := always (.other 0x0400027), vrdView := .m2, vrs1View := .m2 }),
    ((0x31, none), { name := always (.other 0x0400028), vrdView := .m2, vrs1View := .m2 })]

/-- `_decodev_opfvv`. -/
def opfvvTable : List ((ℕ × Option ℕ) × OpvRow) :=
  [((0x00, none), { name := always (.other 0x0410000) }),
    ((0x01, none), { name := always (.other 0x0410001), vrdView := .e0, vrs1View := .e0 }),
    ((0x02, none), { name := always (.other 0x0410002) }),
    ((0x03, none), { name := always (.other 0x0410003), vrdView := .e0, vrs1View := .e0 }),
    ((0x04, none), { name := always (.other 0x0410004) }),
    ((0x05, none), { name := always (.other 0x0410005), vrdView := .e0, vrs1View := .e0 }),
    ((0x06, none), { name := always (.other 0x0410006) }),
    ((0x07, none), { name := always (.other 0x0410007), vrdView := .e0, vrs1View := .e0 }),
    ((0x08, none), { name := always (.other 0x0410008) }),
    ((0x09, none), { name := always (.other 0x0410009) }),
    ((0x0a, none), { name := always (.other 0x041000a) }),
    ((0x10, none), { name := byVm (.other 0x041000b) .illegal }),
    ((0x12, some 0), { name := always (.other 0x041000c) }),
    ((0x12, some 1), { name := always (.other 0x041000d) }),
    ((0x12, some 2), { name := always (.other 0x041000e) }),
    ((0x12, some 3), { name := always (.other 0x041000f) }),
    ((0x12, some 6), { name := always (.other 0x0410010) }),
    ((0x12, some 7), { name := always (.other 0x0410011) }),
    ((0x12, some 8), { name := always (.other 0x0410012), vrdView := .m2 }),
    ((0x12, some 9), { name := always (.other 0x0410013), vrdView := .m2 }),
    ((0x12, some 10), { name := always (.other 0x0410014), vrdView := .m2 }),
    ((0x12, some 11), { name := always (.other 0x0410015), vrdView := .m2 }),
    ((0x12, some 12), { name := always (.other 0x0410016), vrdView := .m2 }),
    ((0x12, some 14), { name := always (.other 0x0410017), vrdView := .m2 }),
    ((0x12, some 15), { name := always (.other 0x0410018), vrdView := .m2 }),
    ((0x12, some 16), { name := always (.other 0x0410019), vrs2View := .m2 }),
    ((0x12, some 17), { name := always (.other 0x041001a), vrs2View := .m2 }),
    ((0x12, some 18), { name := always (.other 0x041001b), vrs2View := .m2 }),
    ((0x12, some 19), { name := always (.other 0x041001c), vrs2View := .m2 }),
    ((0x12, some 20), { name := always (.other 0x041001d), vrs2View := .m2 }),
    ((0x12, some 21), { name := always (.other 0x041001e), vrs2View := .m2 }),
    ((0x12, some 22), { name := always (.other 0x041001f), vrs2View := .m2 }),
    ((0x12, some 23), { name := always (.other 0x0410020), vrs2View := .m2 }),
    ((0x13, some 0), { name := always (.other 0x0410021) }),
    ((0x13, some 4), { name := always (.other 0x0410022) }),
    ((0x13, some 5), { name := always (.other 0x0410023) }),
    ((0x13, some 16), { name := always (.other 0x0410024) }),
    ((0x18, none), { name := always (.other 0x0410025), vrdView := .mask }),
    ((0x19, none), { name := always (.other 0x0410026), vrdView := .mask }),
    ((0x1b, none), { name := always (.other 0x0410027), vrdView := .mask }),
    ((0x1c, none), { name := always (.other 0x0410028), vrdView := .mask }),
    ((0x20, none), { name := always (.other 0x0410029) }),
    ((0x24, none), { name := always (.other 0x041002a) }),
    ((0x28, none), { name := always (.other 0x041002b) }),
    ((0x29, none), { name := always (.other 0x041002c) }),
    ((0x2a, none), { name := always (.other 0x041002d) }),
    ((0x2b, none), { name := always (.other 0x041002e) }),
    ((0x2c, none), { name := always (.other 0x041002f) }),
    ((0x2d, none), { name := always (.other 0x0410030) }),
    ((0x2e, none), { name := always (.other 0x0410031) }),
    ((0x2f, none), { name := always (.other 0x0410032) }),
    ((0x30, none), { name := always (.other 0x0410033), vrdView := .m2 }),
    ((0x31, none), { name := always (.other 0x0410034), vrdView := .m2, vrs1View := .m2 }),
    ((0x32, none), { name := always (.other 0x0410035), vrdView := .m2 }),
    ((0x33, none), { name := always (.other 0x0410036), vrdView := .m2, vrs1View := .m2 }),
    ((0x34, none), { name := always (.other 0x0410037), vrdView := .m2, vrs2View := .m2 }),
    ((0x36, none), { name := always (.other 0x0410038), vrdView := .m2, vrs2View := .m2 }),
    ((0x38, none), { name := always (.other 0x0410039), vrdView := .m2 }),
    ((0x3c, none), { name := always (.other 0x041003a), vrdView := .m2 }),
    ((0x3d, none), { name := always (.other 0x041003b), vrdView := .m2 }),
    ((0x3e, none), { name := always (.other 0x041003c), vrdView := .m2 }),
    ((0x3f, none), { name := always (.other 0x041003d), vrdView := .m2 })]

/-- `_decodev_opmvv`. -/
def opmvvTable : List ((ℕ × Option ℕ) × OpvRow) :=
  [((0x00, none), { name := always (.other 0x0420000), vrdView := .e0, vrs1View := .e0 }),
    ((0x01, none), { name := always (.other 0x0420001), vrdView := .e0, vrs1View := .e0 }),
    ((0x02, none), { name := always (.other 0x0420002), vrdView := .e0, vrs1View := .e0 }),
    ((0x03, none), { name := always (.other 0x0420003), vrdView := .e0, vrs1View := .e0 }),
    ((0x04, none), { name := always (.other 0x0420004), vrdView := .e0, vrs1View := .e0 }),
    ((0x05, none), { name := always (.other 0x0420005), vrdView := .e0, vrs1View := .e0 }),
    ((0x06, none), { name := always (.other 0x0420006), vrdView := .e0, vrs1View := .e0 }),
    ((0x07, none), { name := always (.other 0x0420007), vrdView := .e0, vrs1View := .e0 }),
    ((0x08, none), { name := always (.other 0x0420008), vrdView := .e0, vrs1View := .e0 }),
    ((0x09, none), { name := always (.other 0x0420009), vrdView := .e0, vrs1View := .e0 }),
    ((0x0a, none), { name := always (.other 0x042000a), vrdView := .e0, vrs1View := .e0 }),
    ((0x0b, none), { name := always (.other 0x042000b), vrdView := .e0, vrs1View := .e0 }),
    ((0x10, some 0), { name := byVm .vmvXS .illegal }),
    ((0x10, some 16), { name := always (.other 0x042000d) }),
    ((0x10, some 17), { name := always (.other 0x042000e) }),
    ((0x12, some 2), { name := always (.other 0x042000f), vrs2View := .f8 }),
    ((0x12, some 3), { name := always (.other 0x0420010), vrs2View := .f8 }),
    ((0x12, some 4), { name := always (.other 0x0420011), vrs2View := .f4 }),
    ((0x12, some 5), { name := always (.other 0x0420012), vrs2View := .f4 }),
    ((0x12, some 6), { name := always (.other 0x0420013), vrs2View := .f2 }),
    ((0x12, some 7), { name := always (.other 0x0420014), vrs2View := .f2 }),
    ((0x14, some 1), { name := always (.other 0x0420015), vrdView := .mask, vrs2View := .mask }),
    ((0x14, some 2), { name := always (.other 0x0420016), vrdView := .mask, vrs2View := .mask }),
    ((0x14, some 3), { name := always (.other 0x0420017), vrdView := .mask, vrs2View := .mask }),
    ((0x14, some 16), { name := always (.other 0x0420018), vrs2View := .mask }),
    ((0x14, some 17), { name := always (.other 0x0420019) }),
    ((0x17, none), { name := byVm (.other 0x042001a) .illegal, vrs1View := .mask }),
    ((0x18, none), { name := byVm (.other 0x042001b) .illegal, vrdView := .mask,
                     vrs1View := .mask, vrs2View := .mask }),
    ((0x19, none), { name := byVm (.other 0x042001c) .illegal, vrdView := .mask,
                     vrs1View := .mask, vrs2View := .mask }),
    ((0x1a, none), { name := byVm (.other 0x042001d) .illegal, vrdView := .mask,
                     vrs1View := .mask, vrs2View := .mask }),
    ((0x1b, none), { name := byVm (.other 0x042001e) .illegal, vrdView := .mask,
                     vrs1View := .mask, vrs2View := .mask }),
    ((0x1c, none), { name := byVm (.other 0x042001f) .illegal, vrdView := .mask,
                     vrs1View := .mask, vrs2View := .mask }),
    ((0x1d, none), { name := byVm (.other 0x0420020) .illegal, vrdView := .mask,
                     vrs1View := .mask, vrs2View := .mask }),
    ((0x1e, none), { name := byVm (.other 0x0420021) .illegal, vrdView := .mask,
                     vrs1View := .mask, vrs2View := .mask }),
    ((0x1f, none), { name := byVm (.other 0x0420022) .illegal, vrdView := .mask,
                     vrs1View := .mask, vrs2View := .mask }),
    ((0x20, none), { name := always (.other 0x0420023) }),
    ((0x21, none), { name := always (.other 0x0420024) }),
    ((0x22, none), { name := always (.other 0x0420025) }),
    ((0x23, none), { name := always (.other 0x0420026) }),
    ((0x24, none), { name := always (.other 0x0420027) }),
    ((0x25, none), { name := always (.other 0x0420028) }),
    ((0x26, none), { name := always (.other 0x0420029) }),
    ((0x27, none), { name := always (.other 0x042002a) }),
    ((0x29, none), { name := always (.other 0x042002b) }),
    ((0x2b, none), { name := always (.other 0x042002c) }),
    ((0x2d, none), { name := always (.other 0x042002d) }),
    ((0x2f, none), { name := always (.other 0x042002e) }),
    ((0x30, none), { name := always (.other 0x042002f), vrdView := .m2 }),
    ((0x31, none), { name := always (.other 0x0420030), vrdView := .m2 }),
    ((0x32, none), { name := always (.other 0x0420031), vrdView := .m2 }),
    ((0x33, none), { name := always (.other 0x0420032), vrdView := .m2 }),
    ((0x34, none), { name := always (.other 0x0420033), vrdView := .m2, vrs2View := .m2 }),
    ((0x35, none), { name := always (.other 0x0420034), vrdView := .m2, vrs2View := .m2 }),
    ((0x36, none), { name := always (.other 0x0420035), vrdView := .m2, vrs2View := .m2 }),
    ((0x37, none), { name := always (.other 0x0420036), vrdView := .m2, vrs2View := .m2 }),
    ((0x38, none), { name := always (.other 0x0420037), vrdView := .m2 }),
    ((0x3a, none), { name := always (.other 0x0420038), vrdView := .m2 }),
    ((0x3b, none), { name := always (.other 0x0420039), vrdView := .m2 }),
    ((0x3c, none), { name := always (.other 0x042003a), vrdView := .m2 }),
    ((0x3d, none), { name := always (.other 0x042003b), vrdView := .m2 }),
    ((0x3f, none), { name := always (.other 0x042003c), vrdView := .m2 })]

/-- `_decodev_opivi`. -/
def opiviTable : List ((ℕ × Option ℕ) × OpvRow) :=
  [((0x00, none), { name := always .vaddVi }),
    ((0x03, none), { name := always .vrsubVi }),
    ((0x09, none), { name := always .vandVi }),
    ((0x0a, none), { name := always .vorVi }),
    ((0x0b, none), { name := always .vxorVi }),
    ((0x0c, none), { name := always (.other 0x0430005) }),
    ((0x0e, none), { name := always (.other 0x0430006) }),
    ((0x0f, none), { name := always (.other 0x0430007) }),
    ((0x10, none), { name := byVm .illegal (.other 0x0430008) }),
    ((0x11, none), { name := byVm (.other 0x043000a) (.other 0x0430009), vrdView := .mask }),
    ((0x17, none), { name := byVm .vmvVI (.other 0x043000b) }),
    ((0x18, none), { name := always (.other 0x043000d), vrdView := .mask }),
    ((0x19, none), { name := always (.other 0x043000e), vrdView := .mask }),
    ((0x1c, none), { name := always (.other 0x043000f), vrdView := .mask }),
    ((0x1d, none), { name := always (.other 0x0430010), vrdView := .mask }),
    ((0x1e, none), { name := always (.other 0x0430011), vrdView := .mask }),
    ((0x1f, none), { name := always (.other 0x0430012), vrdView := .mask }),
    ((0x20, none), { name := always (.other 0x0430013) }),
    ((0x21, none), { name := always (.other 0x0430014) }),
    ((0x25, none), { name := always (.other 0x0430015) }),
    ((0x27, some 0), { name := always (.other 0x0430016), vrdView := .reg1, vrs2View := .reg1 }),
    ((0x27, some 1), { name := always (.other 0x0430017), vrdView := .reg2, vrs2View := .reg2 }),
    ((0x27, some 3), { name := always (.other 0x0430018), vrdView := .reg4, vrs2View := .reg4 }),
    ((0x27, some 7), { name := always (.other 0x0430019), vrdView := .reg8, vrs2View := .reg8 }),
    ((0x28, none), { name := always (.other 0x043001a) }),
    ((0x29, none), { name := always (.other 0x043001b) }),
    ((0x2a, none), { name := always (.other 0x043001c) }),
    ((0x2b, none), { name := always (.other 0x043001d) }),
    ((0x2c, none), { name := always (.other 0x043001e), vrs2View := .m2 }),
    ((0x2d, none), { name := always (.other 0x043001f), vrs2View := .m2 }),
    ((0x2e, none), { name := always (.other 0x0430020), vrs2View := .m2 }),
    ((0x2f, none), { name := always (.other 0x0430021), vrs2View := .m2 })]

/-- `_decodev_opivx`. -/
def opivxTable : List ((ℕ × Option ℕ) × OpvRow) :=
  [((0x00, none), { name := always .vaddVx }),
    ((0x02, none), { name := always .vsubVx }),
    ((0x03, none), { name := always .vrsubVx }),
    ((0x04, none), { name := always .vminuVx }),
    ((0x05, none), { name := always .vminVx }),
    ((0x06, none), { name := always .vmaxuVx }),
    ((0x07, none), { name := always .vmaxVx }),
    ((0x09, none), { name := always .vandVx }),
    ((0x0a, none), { name := always .vorVx }),
    ((0x0b, none), { name := always .vxorVx }),
    ((0x0c, none), { name := always (.other 0x044000a) }),
    ((0x0e, none), { name := always (.other 0x044000b) }),
    ((0x0f, none), { name := always (.other 0x044000c) }),
    ((0x10, none), { name := byVm .illegal (.other 0x044000d) }),
    ((0x11, none), { name := byVm (.other 0x044000f) (.other 0x044000e), vrdView := .mask }),
    ((0x12, none), { name := byVm .illegal (.other 0x0440010) }),
    ((0x13, none), { name := byVm (.other 0x0440012) (.other 0x0440011), vrdView := .mask }),
    ((0x17, none), { name := byVm (.other 0x0440014) (.other 0x0440013) }),
    ((0x18, none), { name := always (.other 0x0440015), vrdView := .mask }),
    ((0x19, none), { name := always (.other 0x0440016), vrdView := .mask }),
    ((0x1a, none), { name := always (.other 0x0440017), vrdView := .mask }),
    ((0x1b, none), { name := always (.other 0x0440018), vrdView := .mask }),
    ((0x1c, none), { name := always (.other 0x0440019), vrdView := .mask }),
    ((0x1d, none), { name := always (.other 0x044001a), vrdView := .mask }),
    ((0x1e, none), { name := always (.other 0x044001b), vrdView := .mask }),
    ((0x1f, none), { name := always (.other 0x044001c), vrdView := .mask }),
    ((0x20, none), { name := always (.other 0x044001d) }),
    ((0x21, none), { name := always (.other 0x044001e) }),
    ((0x22, none), { name := always (.other 0x044001f) }),
    ((0x23, none), { name := always (.other 0x0440020) }),
    ((0x25, none), { name := always (.other 0x0440021) }),
    ((0x27, none), { name := always (.other 0x0440022) }),
    ((0x28, none), { name := always (.other 0x0440023) }),
    ((0x29, none), { name := always (.other 0x0440024) }),
    ((0x2a, none), { name := always (.other 0x0440025) }),
    ((0x2b, none), { name := always (.other 0x0440026) }),
    ((0x2c, none), { name := always (.other 0x0440027), vrs2View := .m2 }),
    ((0x2d, none), { name := always (.other 0x0440028), vrs2View := .m2 }),
    ((0x2e, none), { name := always (.other 0x0440029), vrs2View := .m2 }),
    ((0x2f, none), { name := always (.other 0x044002a), vrs2View := .m2 })]

/-- `_decodev_opfvf`. -/
def opfvfTable : List ((ℕ × Option ℕ) × OpvRow) :=
  [((0x00, none), { name := always (.other 0x0450000) }),
    ((0x02, none), { name := always (.other 0x0450001) }),
    ((0x04, none), { name := always (.other 0x0450002) }),
    ((0x06, none), { name := always (.other 0x0450003) }),
    ((0x08, none), { name := always (.other 0x0450004) }),
    ((0x09, none), { name := always (.other 0x0450005) }),
    ((0x0a, none), { name := always (.other 0x0450006) }),
    ((0x0e, none), { name := always (.other 0x0450007) }),
    ((0x0f, none), { name := always (.other 0x0450008) }),
    ((0x10, none), { name := byVm (.other 0x0450009) .illegal }),
    ((0x17, none), { name := byVm (.other 0x045000a) (.other 0x045000b) }),
    ((0x18, none), { name := always (.other 0x045000c), vrdView := .mask }),
    ((0x19, none), { name := always (.other 0x045000d), vrdView := .mask }),
    ((0x1b, none), { name := always (.other 0x045000e), vrdView := .mask }),
    ((0x1c, none), { name := always (.other 0x045000f), vrdView := .mask }),
    ((0x1d, none), { name := always (.other 0x0450010), vrdView := .mask }),
    ((0x1f, none), { name := always (.other 0x0450011), vrdView := .mask }),
    ((0x20, none), { name := always (.other 0x0450012) }),
    ((0x21, none), { name := always (.other 0x0450013) }),
    ((0x24, none), { name := always (.other 0x0450014) }),
    ((0x27, none), { name := always (.other 0x0450015) }),
    ((0x28, none), { name := always (.other 0x0450016) }),
    ((0x29, none), { name := always (.other 0x0450017) }),
    ((0x2a, none), { name := always (.other 0x0450018) }),
    ((0x2b, none), { name := always (.other 0x0450019) }),
    ((0x2c, none), { name := always (.other 0x045001a) }),
    ((0x2d, none), { name := always (.other 0x045001b) }),
    ((0x2e, none), { name := always (.other 0x045001c) }),
    ((0x2f, none), { name := always (.other 0x045001d) }),
    ((0x30, none), { name := always (.other 0x045001e), vrdView := .m2 }),
    ((0x32, none), { name := always (.other 0x045001f), vrdView := .m2 }),
    ((0x34, none), { name := always (.other 0x0450020), vrdView := .m2, vrs2View := .m2 }),
    ((0x36, none), { name := always (.other 0x0450021), vrdView := .m2, vrs2View := .m2 }),
    ((0x38, none), { name := always (.other 0x0450022), vrdView := .m2 }),
    ((0x3c, none), { name := always (.other 0x0450023), vrdView := .m2 }),
    ((0x3d, none), { name := always (.other 0x0450024), vrdView := .m2 }),
    ((0x3e, none), { name := always (.other 0x0450025), vrdView := .m2 }),
    ((0x3f, none), { name := always (.other 0x0450026), vrdView := .m2 })]

/-- `_decodev_opmvx`. -/
def opmvxTable : List ((ℕ × Option ℕ) × OpvRow) :=
  [((0x08, none), { name := always (.other 0x0460000) }),
    ((0x09, none), { name := always (.other 0x0460001) }),
    ((0x0a, none), { name := always (.other 0x0460002) }),
    ((0x0b, none), { name := always (.other 0x0460003) }),
    ((0x0e, none), { name := always (.other 0x0460004) }),
    ((0x0f, none), { name := always (.other 0x0460005) }),
    ((0x10, none), { name := byVm .vmvSX .illegal }),
    ((0x20, none), { name := always (.other 0x0460007) }),
    ((0x21, none), { name := always (.other 0x0460008) }),
    ((0x22, none), { name := always (.other 0x0460009) }),
    ((0x23, none), { name := always (.other 0x046000a) }),
    ((0x24, none), { name := always (.other 0x046000b) }),
    ((0x25, none), { name := always (.other 0x046000c) }),
    ((0x26, none), { name := always (.other 0x046000d) }),
    ((0x27, none), { name := always (.other 0x046000e) }),
    ((0x29, none), { name := always (.other 0x046000f) }),
    ((0x2b, none), { name := always (.other 0x0460010) }),
    ((0x2d, none), { name := always (.other 0x0460011) }),
    ((0x2f, none), { name := always (.other 0x0460012) }),
    ((0x30, none), { name := always (.other 0x0460013), vrdView := .m2 }),
    ((0x31, none), { name := always (.other 0x0460014), vrdView := .m2 }),
    ((0x32, none), { name := always (.other 0x0460015), vrdView := .m2 }),
    ((0x33, none), { name := always (.other 0x0460016), vrdView := .m2 }),
    ((0x34, none), { name := always (.other 0x0460017), vrdView := .m2, vrs2View := .m2 }),
    ((0x35, none), { name := always (.other 0x0460018), vrdView := .m2, vrs2View := .m2 }),
    ((0x36, none), { name := always (.other 0x0460019), vrdView := .m2, vrs2View := .m2 }),
    ((0x37, none), { name := always (.other 0x046001a), vrdView := .m2, vrs2View := .m2 }),
    ((0x38, none), { name := always (.other 0x046001b), vrdView := .m2 }),
    ((0x3a, none), { name := always (.other 0x046001c), vrdView := .m2 }),
    ((0x3b, none), { name := always (.other 0x046001d), vrdView := .m2 }),
    ((0x3c, none), { name := always (.other 0x046001e), vrdView := .m2 }),
    ((0x3d, none), { name := always (.other 0x046001f), vrdView := .m2 }),
    ((0x3e, none), { name := always (.other 0x0460020), vrdView := .m2 }),
    ((0x3f, none), { name := always (.other 0x0460021), vrdView := .m2 })]

end Rv64archsem
