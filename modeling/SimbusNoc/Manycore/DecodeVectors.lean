import Mathlib.Data.Nat.Bitwise
import SimbusNoc.Manycore.VectorArithmetic

/-!
# How the vector instructions are decoded

The tables of the decoder give each of the core's integer instructions the operands that its name
says, in the plain layout. What is true of every row of a table is checked on the table.

`IsVectorInteger` is what the core relies on: the kind of the second operand goes with the name,
moves are never masked, and all layouts are plain. `RowFits` says this of one row, together with
what the switch does to the operands before it looks up the row; it is decidable, and five tables
are checked. The two tables of floating-point instructions have none of these names.
`opvSwitch_eq_some` leads from an accepted word to its row.
-/

namespace Rv64archsem

open Manycore Rv64AtomicCore

/-! ## Operands by name -/

def InstName.rdType (name : InstName) : RegType := if name = .vmvXS then .gpreg else .vreg

def InstName.rs1Type (name : InstName) : RegType :=
  match name.operandForm with
  | .vv => if name = .vmvXS then .none else .vreg
  | .vx => .gpreg
  | .vi => .none

def InstName.rs2Type (name : InstName) : RegType :=
  if name = .vmvVV ∨ name = .vmvVI ∨ name = .vmvSX then .none else .vreg

/-- An integer instruction as it is decoded. Moves are never masked, and immediate numbers are
signed. -/
structure IsVectorInteger (inst : DecodedInst) : Prop where
  controlType : inst.controlType = .none
  rdType : inst.rdType = inst.instName.rdType
  rs1Type : inst.rs1Type = inst.instName.rs1Type
  rs2Type : inst.rs2Type = inst.instName.rs2Type
  views : inst.vrdView = .none ∧ inst.vrs1View = .none ∧ inst.vrs2View = .none
  unmasked : inst.instName.isMove = true → inst.funct7 &&& 1 ≠ 0
  imm : inst.instName.operandForm = .vi → inst.imm = signExtend 4 (UInt64.ofNat inst.rs1)

/-! ## Rows of the tables

For each switch the operands are known before the row is looked up, so the row decides what is
left: the layouts and the name.
-/

/-- What a switch does with the operands before it looks up the name. -/
structure OpvOperands where
  rdType : RegType
  rs1Type : RegType
  rs2Type : RegType
  /-- The field `rs1` is a signed immediate number. -/
  signed : Bool := false

/-- The operands by `funct6` and the bit `vm`. -/
abbrev OperandTable := ℕ → Bool → OpvOperands

/-- The row gives each integer instruction the operands of its name. -/
def RowFits (operands : OperandTable) (e : (ℕ × Option ℕ) × OpvRow) (vm : Bool) : Prop :=
  isSupportedVectorIntegerInstruction (e.2.name vm) = true →
    ((operands e.1.1 vm).rdType = (e.2.name vm).rdType ∧
      (operands e.1.1 vm).rs1Type = (e.2.name vm).rs1Type ∧
      (operands e.1.1 vm).rs2Type = (e.2.name vm).rs2Type) ∧
    (e.2.vrdView = .none ∧ e.2.vrs1View = .none ∧ e.2.vrs2View = .none) ∧
    ((e.2.name vm).isMove = true → vm = true) ∧
    ((e.2.name vm).operandForm = .vi → (operands e.1.1 vm).signed = true)

instance decidableRowFits (operands : OperandTable) (e : (ℕ × Option ℕ) × OpvRow) (vm : Bool) :
    Decidable (RowFits operands e vm) :=
  inferInstanceAs (Decidable (_ → _))

def opivvOperands : OperandTable := fun funct6 vm ↦
  { rdType := .vreg, rs1Type := .vreg, rs2Type := if funct6 = 0x17 ∧ vm then .none else .vreg }

def opmvvOperands (special : Bool) : OperandTable := fun funct6 _ ↦
  { rdType := if funct6 = 0x10 then .gpreg else .vreg
    rs1Type := if funct6 = 0x10 ∨ funct6 = 0x12 ∨ funct6 = 0x14 then .none else .vreg
    rs2Type := if funct6 = 0x14 ∧ special then .none else .vreg }

def opiviOperands : OperandTable := fun funct6 vm ↦
  { rdType := .vreg
    rs1Type := .none
    rs2Type := if funct6 = 0x17 ∧ vm then .none else .vreg
    signed := !([0x0c, 0x0e, 0x0f, 0x25, 0x28, 0x29, 0x2a, 0x2b, 0x2c, 0x2d, 0x2e,
      0x2f].contains funct6) }

def opivxOperands : OperandTable := fun funct6 vm ↦
  { rdType := .vreg, rs1Type := .gpreg, rs2Type := if funct6 = 0x17 ∧ vm then .none else .vreg }

def opmvxOperands : OperandTable := fun funct6 _ ↦
  { rdType := .vreg, rs1Type := .gpreg, rs2Type := if funct6 = 0x10 then .none else .vreg }

theorem opivvTable_fits : ∀ e ∈ opivvTable, ∀ vm, RowFits opivvOperands e vm := by decide

theorem opmvvTable_fits :
    ∀ special, ∀ e ∈ opmvvTable, ∀ vm, RowFits (opmvvOperands special) e vm := by decide

theorem opiviTable_fits : ∀ e ∈ opiviTable, ∀ vm, RowFits opiviOperands e vm := by decide

theorem opivxTable_fits : ∀ e ∈ opivxTable, ∀ vm, RowFits opivxOperands e vm := by decide

theorem opmvxTable_fits : ∀ e ∈ opmvxTable, ∀ vm, RowFits opmvxOperands e vm := by decide

/-- A table of floating-point instructions has none of the integer ones. -/
theorem opfvvTable_other : ∀ e ∈ opfvvTable, ∀ vm,
    isSupportedVectorIntegerInstruction (e.2.name vm) = false := by decide

theorem opfvfTable_other : ∀ e ∈ opfvfTable, ∀ vm,
    isSupportedVectorIntegerInstruction (e.2.name vm) = false := by decide

/-! ## The switches -/

variable {decodeRvc : UInt32 → Option DecodedInst} {instWord : UInt32} {inst inst' : DecodedInst}
  {table : List ((ℕ × Option ℕ) × OpvRow)}

theorem opvSwitch_eq_some (h : opvSwitch table instWord inst = some inst') :
    ∃ e ∈ table, e.1.1 = funct6Field instWord ∧ inst' = { inst with
      vrdView := e.2.vrdView
      vrs1View := e.2.vrs1View
      vrs2View := e.2.vrs2View
      instName := e.2.name (vmBit instWord) } := by
  obtain ⟨row, hrow, h⟩ := Option.bind_eq_some_iff.mp h
  obtain ⟨-, rfl⟩ := named_eq_some h
  have hmem : ∀ key, table.lookup (funct6Field instWord, key) = some row →
      ∃ e ∈ table, e.1.1 = funct6Field instWord ∧ e.2 = row := by
    intro key hkey
    obtain ⟨l₁, l₂, hl, -⟩ := List.lookup_eq_some_iff.mp hkey
    exact ⟨((funct6Field instWord, key), row), by rw [hl]; simp, rfl, rfl⟩
  rcases Option.or_eq_some_iff.mp hrow with hrow | ⟨-, hrow⟩
  · obtain ⟨e, he, hfunct6, rfl⟩ := hmem _ hrow
    exact ⟨e, he, hfunct6, rfl⟩
  · obtain ⟨e, he, hfunct6, rfl⟩ := hmem _ hrow
    exact ⟨e, he, hfunct6, rfl⟩

theorem vmBit_eq (instWord : UInt32) : vmBit instWord = !(funct7Field instWord &&& 1 == 0) := by
  have hbit : ∀ n : ℕ, n &&& 2 ^ 25 = 0 ↔ n / 2 ^ 25 % 2 = 0 := fun n ↦ by
    rw [Nat.and_two_pow, Nat.testBit_eq_decide_div_mod_eq]
    simp
  have hleft : instWord &&& ((1 : UInt32) <<< 25) = 0 ↔ instWord.toNat / 2 ^ 25 % 2 = 0 := by
    rw [← hbit, ← UInt32.toNat_inj, UInt32.toNat_and]
    rfl
  have hright : funct7Field instWord &&& 1 = 0 ↔ instWord.toNat / 2 ^ 25 % 2 = 0 := by
    rw [funct7Field, extract, ← UInt8.toNat_inj, UInt8.toNat_and, UInt8.toNat_and,
      UInt32.toNat_toUInt8, UInt32.toNat_and, UInt32.toNat_shiftRight]
    change (instWord.toNat >>> 25 &&& 127) % 256 &&& 127 &&& 1 = 0 ↔ _
    rw [Nat.and_one_is_mod, show (127 : ℕ) = 2 ^ 7 - 1 from rfl, Nat.and_two_pow_sub_one_eq_mod,
      Nat.and_two_pow_sub_one_eq_mod, Nat.shiftRight_eq_div_pow]
    omega
  rw [vmBit, bit, bne, Bool.not_inj_iff, Bool.eq_iff_iff, beq_iff_eq, beq_iff_eq, hleft, hright]

theorem opvSwitch_integer {operands : OperandTable}
    (h : opvSwitch table instWord inst = some inst')
    (htable : ∀ e ∈ table, ∀ vm, RowFits operands e vm)
    (hcontrol : inst.controlType = .none) (hfunct7 : inst.funct7 = funct7Field instWord)
    (htypes : inst.rdType = (operands (funct6Field instWord) (vmBit instWord)).rdType ∧
      inst.rs1Type = (operands (funct6Field instWord) (vmBit instWord)).rs1Type ∧
      inst.rs2Type = (operands (funct6Field instWord) (vmBit instWord)).rs2Type)
    (himm : (operands (funct6Field instWord) (vmBit instWord)).signed = true →
      inst.imm = signExtend 4 (UInt64.ofNat inst.rs1))
    (hname : isSupportedVectorIntegerInstruction inst'.instName = true) :
    IsVectorInteger inst' := by
  obtain ⟨e, he, hfunct6, rfl⟩ := opvSwitch_eq_some h
  obtain ⟨⟨hrd, hrs1, hrs2⟩, hviews, hmove, hsigned⟩ := htable e he (vmBit instWord) hname
  rw [hfunct6] at hrd hrs1 hrs2 hsigned
  refine ⟨hcontrol, htypes.1.trans hrd, htypes.2.1.trans hrs1, htypes.2.2.trans hrs2, hviews,
    fun h ↦ ?_, fun h ↦ himm (hsigned h)⟩
  have hvm := hmove h
  rw [vmBit_eq] at hvm
  rw [hfunct7]
  simpa using hvm

theorem opvSwitch_other (h : opvSwitch table instWord inst = some inst')
    (htable : ∀ e ∈ table, ∀ vm, isSupportedVectorIntegerInstruction (e.2.name vm) = false) :
    isSupportedVectorIntegerInstruction inst'.instName = false := by
  obtain ⟨e, he, -, rfl⟩ := opvSwitch_eq_some h
  exact htable e he _

theorem isVectorInteger_decodeOpv
    (h : decodeOpv instWord { rawInst := instWord, opcode := .opv } = some inst)
    (hname : isSupportedVectorIntegerInstruction inst.instName = true) : IsVectorInteger inst := by
  have hregister : ∀ {p : Prop}, false = true → p := fun h ↦ absurd h Bool.false_ne_true
  rw [decodeOpv] at h
  split at h
  · exact opvSwitch_integer h opivvTable_fits rfl rfl ⟨rfl, rfl, rfl⟩ hregister hname
  · exact hregister ((opvSwitch_other h opfvvTable_other).symm.trans hname)
  · refine opvSwitch_integer h (opmvvTable_fits (rs1Field instWord = 0x11)) rfl rfl
      ⟨rfl, rfl, ?_⟩ hregister hname
    simp [opmvvOperands]
  · refine opvSwitch_integer h opiviTable_fits rfl rfl ⟨rfl, rfl, rfl⟩ (fun hsigned ↦ ?_) hname
    exact if_neg (by simpa [opiviOperands] using hsigned)
  · exact opvSwitch_integer h opivxTable_fits rfl rfl ⟨rfl, rfl, rfl⟩ hregister hname
  · exact hregister ((opvSwitch_other h opfvfTable_other).symm.trans hname)
  · exact opvSwitch_integer h opmvxTable_fits rfl rfl ⟨rfl, rfl, rfl⟩ hregister hname
  · -- a configuration instruction is none of these
    rw [decodevOpcfg] at h
    dsimp only at h
    split_ifs at h
    all_goals
      obtain rfl := Option.some.inj h
      cases hname

theorem isVectorInteger (hlow : instWord &&& 0x3 = 0x3)
    (hdecode : decode decodeRvc instWord = some inst) (hop : inst.opcode = .opv)
    (hname : isSupportedVectorIntegerInstruction inst.instName = true) : IsVectorInteger inst := by
  have h := decode_eq_some hlow hdecode
  rw [hop] at h
  exact isVectorInteger_decodeOpv h hname

end Rv64archsem
