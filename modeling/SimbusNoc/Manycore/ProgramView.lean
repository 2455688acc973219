import SimbusNoc.Library.Threads
import SimbusNoc.Manycore.CoreRuns
import SimbusNoc.Manycore.HartMoves
import SimbusNoc.Manycore.InstructionSet

/-!
# Base instructions on the core

What the core does with a base instruction in the last cycle of its execution is the effect of the
instruction, or the request that the effect needs.

## The arithmetic

`ArchSem.IsLibrary` says that the decoder and the integer unit are the embedded ones. For each
group of instructions there is a lemma that puts the three together: what the library computes from
the decoded operands is the operation that the abstract machine has for the instruction.

## Jumps

`JumpsAsWritten` leaves out the jumps through a register that link to `x1` from another register or
overwrite the register they jump through. The core does not go where these say. It is a condition
on the instruction alone; which of these jumps come out right all the same depends on the values in
the registers, and is settled where jumps are looked at by themselves.

## The execution of an instruction

`Executes` is what is to be shown: the core retires with the new state of the hart, or it has
prepared the request for the access. `AboutTo` collects what is known at that moment, and each kind
of instruction has a lemma in its namespace.
-/

namespace Rv64archsem

open WordOp

/-! ## The arithmetic of the library

Each group of instructions has its function of the library. On a decoded instruction it computes
the operation that the instruction stands for.
-/

/-- The decoder and the arithmetic are those of the library. -/
structure ArchSem.IsLibrary (arch : ArchSem) : Prop where
  decode : ∃ decodeRvc, arch.decode = Rv64archsem.decode decodeRvc
  execBranch : arch.execBranch = Rv64archsem.execBranch
  execOpimm : arch.execOpimm = Rv64archsem.execOpimm
  execOpimm32 : arch.execOpimm32 = Rv64archsem.execOpimm32
  execOp : arch.execOp = Rv64archsem.execOp
  execOp32 : arch.execOp32 = Rv64archsem.execOp32

theorem execBranch_decoded (condition : Condition) (rs1 rs2 : Fin 32) (offset : BitVec 12)
    (a b pc : UInt64) :
    execBranch (Instruction.branch condition rs1 rs2 offset).decoded a b pc =
      if condition.holds a b then some (pc + immediate (offsetBytes offset)) else none := by
  have htaken : branchTaken (UInt8.ofNat condition.funct3) a b = condition.holds a b := by
    cases condition with
    | beq => rfl
    | bne => simp [branchTaken, Condition.holds, Condition.funct3, bne, decide_not, beq_eq_decide]
    | blt => exact decide_eq_decide.mpr Int64.lt_iff_toInt_lt
    | bge => exact decide_eq_decide.mpr Int64.le_iff_toInt_le
    | bltu => exact decide_eq_decide.mpr UInt64.lt_iff_toNat_lt
    | bgeu => exact decide_eq_decide.mpr UInt64.le_iff_toNat_le
  rw [execBranch, ← htaken]
  rfl

/-- The function fields of an operation say which one it is. -/
theorem intOp73_fields (op : WordOp) :
    intOp73 ((UInt8.ofNat (opFunct7 op)).toNat <<< 3 ||| (UInt8.ofNat (opFunct3 op)).toNat) =
      some op := by
  cases op <;> decide +kernel

theorem execOp_decoded (op : WordOp) (rd rs1 rs2 : Fin 32) (a b : UInt64) :
    execOp (Instruction.opReg op rd rs1 rs2).decoded a b = result64 op a b := by
  have hop := intOp73_fields op
  rw [execOp_eq]
  change ((intOp73 ((UInt8.ofNat (opFunct7 op)).toNat <<< 3 |||
    (UInt8.ofNat (opFunct3 op)).toNat)).map (result64 · a b)).getD 0 = _
  rw [hop]
  rfl

theorem execOp32_decoded (op : Op32) (rd rs1 rs2 : Fin 32) (a b : UInt64) :
    execOp32 (Instruction.opReg32 op rd rs1 rs2).decoded a b = result32 op.wordOp a b := by
  rw [execOp32_eq]
  cases op <;> rfl

theorem execOpimm_decoded (op : ImmOp) (rd rs1 : Fin 32) (imm : BitVec 12) (a : UInt64) :
    execOpimm (Instruction.opImm op rd rs1 imm).decoded a =
      result64 op.wordOp a (immediate imm) := by
  rw [execOpimm_eq]
  cases op <;> rfl

/-- The low bits of the immediate of a shift are the amount. -/
theorem toNat_immediate_shift (shift : Shift) {shamt : ℕ} (h : shamt < 64) :
    (immediate (shift.imm shamt)).toNat % 64 = shamt := by
  have hlt : (shift.imm shamt).toNat < 2 ^ 11 := by
    rw [Instruction.toNat_shiftImm shift h]
    split <;> omega
  have hword : (immediate (shift.imm shamt)).toNat = (shift.imm shamt).toNat := by
    have hmsb : (shift.imm shamt).msb = false := by
      rw [BitVec.msb_eq_false_iff_two_mul_lt]
      omega
    change ((shift.imm shamt).signExtend 64).toNat = _
    rw [BitVec.signExtend_eq_setWidth_of_msb_false hmsb, BitVec.toNat_setWidth,
      Nat.mod_eq_of_lt (by omega)]
  rw [hword, Instruction.toNat_shiftImm shift h]
  split <;> omega

/-- A shift reads six bits of its amount. -/
theorem result64_shift (shift : Shift) (a : UInt64) {b b' : UInt64}
    (h : b.toNat % 64 = b'.toNat % 64) :
    result64 shift.wordOp a b = result64 shift.wordOp a b' := by
  cases shift <;>
    simp only [result64, Shift.wordOp, result_sll, result_srl, result_sra, UInt64.toNat_toBitVec, h]

/-- A shift of a low half reads five bits of its amount. -/
theorem result32_shift (shift : Shift) (a : UInt64) {b b' : UInt64}
    (h : b.toNat % 32 = b'.toNat % 32) :
    result32 shift.wordOp a b = result32 shift.wordOp a b' := by
  have hlow : ∀ x : UInt64, x.toUInt32.toBitVec.toNat % 32 = x.toNat % 32 := by
    intro x
    rw [UInt32.toNat_toBitVec, UInt64.toNat_toUInt32]
    omega
  cases shift <;>
    simp only [result32, Shift.wordOp, result_sll, result_srl, result_sra, hlow, h]

theorem execOpimm_shift_decoded (shift : Shift) (rd rs1 : Fin 32) (shamt : Fin 64) (a : UInt64) :
    execOpimm (Instruction.shiftImm shift rd rs1 shamt).decoded a =
      result64 shift.wordOp a (UInt64.ofNat shamt) := by
  have hamount : (immediate (shift.imm shamt)).toNat % 64 = (UInt64.ofNat shamt).toNat % 64 := by
    rw [toNat_immediate_shift shift shamt.isLt, UInt64.toNat_ofNat']
    omega
  rw [← result64_shift shift a hamount, execOpimm_eq]
  cases shift <;> rfl

theorem execOpimm32_addiw_decoded (rd rs1 : Fin 32) (imm : BitVec 12) (a : UInt64) :
    execOpimm32 (Instruction.addiw rd rs1 imm).decoded a = result32 .add a (immediate imm) := by
  rw [execOpimm32_eq]
  rfl

theorem execOpimm32_shift_decoded (shift : Shift) (rd rs1 shamt : Fin 32) (a : UInt64) :
    execOpimm32 (Instruction.shiftImm32 shift rd rs1 shamt).decoded a =
      result32 shift.wordOp a (UInt64.ofNat shamt) := by
  have hamount : (immediate (shift.imm shamt)).toNat % 32 = (UInt64.ofNat shamt).toNat % 32 := by
    have := @toNat_immediate_shift shift shamt (by omega)
    rw [UInt64.toNat_ofNat']
    omega
  rw [← result32_shift shift a hamount, execOpimm32_eq]
  cases shift <;> rfl

end Rv64archsem

namespace Manycore

open Simbus Rv64archsem

/-! ## What a program sees of a core -/

/-- The parts of a core that a program can tell, and the request on its way. -/
structure ProgramView where
  state : Rv64CoreState
  exitCode : Int32
  /-- The addresses of the committed instructions. -/
  retired : List UInt64
  pc : UInt64
  x : Fin 32 → UInt64
  pending : Option PendingInstruction
  request : Option MemoryRequest
  loadRd : Fin 32
  loadExtension : RDExtType
  vectorActive : Bool
  /-- The requests of the adapter, those it has been commanded to make and those it has finished. -/
  adapter : List MmioEntry × List MmioCommand × List MemoryRequest
  answered : List (MemoryRequest × MemoryResponse)

namespace ProgramView

/-- The instruction is done, and the hart is in state `s`. -/
def retire (v : ProgramView) (s : HartState) : ProgramView :=
  { v with state := .fetchDecode, retired := s.retired, pc := s.pc, x := s.x, pending := none }

/-- What the last cycle of the execution of an instruction makes of a core in state `s`. -/
inductive Executes (tohost : Option UInt64) (hart : UInt32) (s : HartState) (v : ProgramView) :
    Instruction → ProgramView → Prop
  | goes {i : Instruction} {s' : HartState} (h : effect tohost hart s i = .goes s')
      (hexit : s'.exit = s.exit) : Executes tohost hart s v i (v.retire s')
  | load {kind : LoadKind} {rd rs1 : Fin 32} {offset : BitVec 12} {q : MemoryRequest}
      (hop : q.op = MemoryOp.read) (haddress : q.address = s.x rs1 + immediate offset)
      (hsize : q.size.toNat = kind.size) :
      Executes tohost hart s v (.load kind rd rs1 offset) { v with
        state := .memoryIssue, request := some q, loadRd := rd, loadExtension := kind.extension }
  | store {kind : StoreKind} {rs1 rs2 : Fin 32} {offset : BitVec 12} {q : MemoryRequest}
      (hop : q.op = MemoryOp.write) (haddress : q.address = s.x rs1 + immediate offset)
      (hdata : q.data = appendLe kind.size (s.x rs2).toNat) :
      Executes tohost hart s v (.store kind rs1 rs2 offset) { v with
        state := .memoryIssue, request := some q }
  | stops {i : Instruction} {code : Int32}
      (h : effect tohost hart s i = .goes (s.stopWith (some code))) :
      Executes tohost hart s v i { v with state := .halted, exitCode := code, pending := none }

end ProgramView

/-- The jumps through a register that the core makes as they are written: they do not link to `x1`,
and do not overwrite the register that they jump through. -/
def JumpsAsWritten : Instruction → Prop
  | .jalr rd rs1 _ => rd ≠ 1 ∧ (rd = rs1 → rd = 0)
  | _ => True

namespace Rv64AtomicCore

def programView (c : Rv64AtomicCore) : ProgramView where
  state := c.state
  exitCode := c.exitCode
  retired := c.trace.committed.map (·.pc)
  pc := c.pc
  x := c.x
  pending := c.pending
  request := c.memoryRequest
  loadRd := c.loadRd
  loadExtension := c.loadExtension
  vectorActive := c.vectorMemoryActive
  adapter := (c.mmio.requests, c.mmio.issued, c.mmio.finished)
  answered := c.trace.answered

/-- The registers and the program counter are those of a hart, and so are the committed
instructions. The core has halted when the hart has stopped. -/
structure Shows (c : Rv64AtomicCore) (s : HartState) : Prop where
  pc : c.pc = s.pc
  x : c.x = s.x
  retired : c.trace.committed.map (·.pc) = s.retired
  exit : s.exit = if c.state = .halted then some c.exitCode else none

variable {k : Rv64Hart} {c : Rv64AtomicCore} {s : HartState}

theorem Shows.writeReg (h : Shows c s) (rd : Fin 32) (value : UInt64) :
    (c.writeReg rd value).x = (s.write rd value).x := by
  rw [Rv64AtomicCore.writeReg, HartState.write_x, ← h.x]
  split <;> rfl

/-- A core that has written a register is done. -/
theorem Shows.commit_writeReg (h : Shows c s) (hpc : c.instruction.pc = s.pc)
    (hnext : c.instruction.nextPc = s.pc + 4) (rd : Fin 32) (value : UInt64) :
    (c.writeReg rd value).commit.programView =
      c.programView.retire (s.write rd value).next := by
  have hx : Function.update (c.writeReg rd value).x 0 0 = (s.write rd value).x := by
    rw [h.writeReg, ← (s.write rd value).zero, Function.update_eq_self]
  have hrest : (c.writeReg rd value).commit.programView =
      { c.programView with
        state := .fetchDecode, retired := c.programView.retired ++ [c.instruction.pc]
        pc := c.instruction.nextPc, x := Function.update (c.writeReg rd value).x 0 0
        pending := none } := by
    rw [Rv64AtomicCore.writeReg]
    split <;> simp only [programView, Rv64AtomicCore.commit, List.map_append] <;> rfl
  rw [hrest, hx, hpc, hnext, show c.programView.retired = s.retired from h.retired]
  rfl

theorem Shows.commit (h : Shows c s) (hpc : c.instruction.pc = s.pc)
    (hnext : c.instruction.nextPc = s.pc + 4) :
    c.commit.programView = c.programView.retire s.next := by
  have := h.commit_writeReg hpc hnext 0 0
  exact this

/-- A core that has written a register goes to a target. -/
theorem Shows.commit_setNextPc (h : Shows c s) (hpc : c.instruction.pc = s.pc) (rd : Fin 32)
    (value target : UInt64) :
    ((c.writeReg rd value).setNextPc target).commit.programView =
      c.programView.retire ((s.write rd value).goTo target) := by
  have hx : Function.update (c.writeReg rd value).x 0 0 = (s.write rd value).x := by
    rw [h.writeReg, ← (s.write rd value).zero, Function.update_eq_self]
  have hrest : ((c.writeReg rd value).setNextPc target).commit.programView =
      { c.programView with
        state := .fetchDecode, retired := c.programView.retired ++ [c.instruction.pc], pc := target
        x := Function.update (c.writeReg rd value).x 0 0, pending := none } := by
    rw [Rv64AtomicCore.writeReg]
    split <;> simp only [programView, Rv64AtomicCore.commit, List.map_append] <;> rfl
  rw [hrest, hx, hpc, show c.programView.retired = s.retired from h.retired]
  rfl

/-- `sign_extend` copies the highest of the bits upwards. -/
theorem signExtend_eq (value : UInt64) {bits : ℕ} (hpos : 0 < bits) (hle : bits ≤ 64) :
    signExtend value bits = .ofBitVec ((value.toBitVec.setWidth bits).signExtend 64) := by
  have hshift : (UInt64.ofNat (64 - bits)).toBitVec.toNat = 64 - bits := by
    rw [UInt64.toNat_toBitVec, UInt64.toNat_ofNat']
    omega
  have hmod : (64 - bits) % BitVec.toNat (64 : BitVec 64) = 64 - bits :=
    Nat.mod_eq_of_lt (show 64 - bits < 64 by omega)
  have hmsb : (UInt64.ofNat (64 - bits)).toBitVec.msb = false := by
    rw [BitVec.msb_eq_false_iff_two_mul_lt, hshift]
    omega
  apply UInt64.eq_of_toBitVec_eq
  rw [signExtend, Int64.toBitVec_toUInt64, Int64.toBitVec_shiftRight, BitVec.sshiftRight',
    UInt64.toBitVec_toInt64, UInt64.toBitVec_toInt64, toNat_smod hmsb rfl, hshift, hmod,
    UInt64.toBitVec_shiftLeft, BitVec.shiftLeft_eq', BitVec.toNat_umod, hshift]
  exact (congrArg (fun n ↦ (value.toBitVec <<< n).sshiftRight (64 - bits)) hmod).trans
    (WordOp.sshiftRight_shiftLeft value.toBitVec hpos hle)

/-- The core extends the bytes of a load as the instruction says. -/
theorem extend_eq (kind : LoadKind) (data : Bytes) :
    extend kind.extension (UInt64.ofNat (leValue data)) = kind.value data := by
  have hsigned : ∀ {n : ℕ}, 0 < n → n ≤ 64 → signExtend (UInt64.ofNat (leValue data)) n =
      .ofBitVec ((BitVec.ofNat n (leValue data)).signExtend 64) := by
    intro n hpos hle
    have hwidth : (UInt64.ofNat (leValue data)).toBitVec.setWidth n = BitVec.ofNat n
      (leValue data) := by
      apply BitVec.eq_of_toNat_eq
      rw [BitVec.toNat_setWidth, UInt64.toNat_toBitVec, UInt64.toNat_ofNat', BitVec.toNat_ofNat]
      exact Nat.mod_mod_of_dvd _ (Nat.pow_dvd_pow 2 hle)
    rw [signExtend_eq _ hpos hle, hwidth]
  cases kind with
  | lb => exact hsigned (by decide) (by decide)
  | lh => exact hsigned (by decide) (by decide)
  | lw => exact hsigned (by decide) (by decide)
  | ld | lbu | lhu | lwu => rfl

/-- The number of the hart is what the register for it gives. -/
theorem executeCsr_hartId {rd : Fin 32} (hzero : c.x 0 = 0)
    (hpending : c.instruction.decoded = (Instruction.csrrHartId rd).decoded) :
    executeCsr k c = .ok (c.writeReg rd (UInt64.ofNat k.hartId.toNat)) := by
  have haddress : (Instruction.csrrHartId rd).decoded.imm.toUInt64 &&& 0xfff = 0xf14 := by
    change (Int64.ofBitVec ((0xf14 : BitVec 12).setWidth 64)).toUInt64 &&& 0xfff = 0xf14
    decide
  have hread : readCsr k c 0xf14 = .ok (UInt64.ofNat k.hartId.toNat) := rfl
  have hwrite : (!(c.x 0 == 0)) = false := by rw [hzero]; rfl
  rw [executeCsr, hpending, haddress, hread]
  -- nothing is written, for register 0 is the source
  change (if (!(c.x 0 == 0)) = true then _ else _) = _
  rw [hwrite]
  rfl

theorem scalarSize_load (kind : LoadKind) :
    scalarSize (UInt8.ofNat kind.funct3) = kind.size := by
  cases kind <;> decide

theorem scalarSize_store (kind : StoreKind) :
    scalarSize (UInt8.ofNat kind.funct3) = kind.size := by
  cases kind <;> decide

/-! ## The execution of one instruction

Every kind of instruction has a lemma of its own; the three before them say what is left to show
once it is known which core `execute` returns.
-/

/-- The core executes an instruction as the instruction set has it. -/
def ExecutesAs (k : Rv64Hart) (c : Rv64AtomicCore) (s : HartState) (i : Instruction) : Prop :=
  ∃ c', execute k c = .ok c' ∧
    ProgramView.Executes k.tohostAddress k.hartId s c.programView i c'.programView

/-- The core shows its hart, and the pending instruction is the one at the program counter. -/
structure AboutTo (c : Rv64AtomicCore) (s : HartState) (i : Instruction) : Prop
    extends Shows c s where
  instruction : c.instruction = ⟨i.decoded, i.encode, s.pc, s.pc + 4⟩

namespace AboutTo

variable {i : Instruction} {rd rs1 rs2 : Fin 32} {value target : UInt64}

theorem instruction_pc (h : AboutTo c s i) : c.instruction.pc = s.pc := by
  rw [h.instruction]

theorem instruction_nextPc (h : AboutTo c s i) : c.instruction.nextPc = s.pc + 4 := by
  rw [h.instruction]

theorem executes_writeReg (h : AboutTo c s i)
    (heffect : effect k.tohostAddress k.hartId s i = .goes (s.write rd value).next)
    (hexecute : execute k c = .ok (c.writeReg rd value).commit) : ExecutesAs k c s i := by
  refine ⟨_, hexecute, ?_⟩
  rw [h.toShows.commit_writeReg h.instruction_pc h.instruction_nextPc]
  exact .goes heffect rfl

theorem executes_commit (h : AboutTo c s i)
    (heffect : effect k.tohostAddress k.hartId s i = .goes s.next)
    (hexecute : execute k c = .ok c.commit) : ExecutesAs k c s i := by
  refine ⟨_, hexecute, ?_⟩
  rw [h.toShows.commit h.instruction_pc h.instruction_nextPc]
  exact .goes heffect rfl

theorem executes_goTo (h : AboutTo c s i)
    (heffect : effect k.tohostAddress k.hartId s i = .goes ((s.write rd value).goTo target))
    (hexecute : execute k c = .ok ((c.writeReg rd value).setNextPc target).commit) :
    ExecutesAs k c s i := by
  refine ⟨_, hexecute, ?_⟩
  rw [h.toShows.commit_setNextPc h.instruction_pc]
  exact .goes heffect rfl

/-- An instruction without access to memory or change of control goes to the integer unit. -/
theorem execute_eq_executeInteger (h : AboutTo c s i) (hcontrol : i.decoded.controlType = .none)
    (hopcode : i.decoded.opcode ≠ .opv) : execute k c = executeInteger k c := by
  rw [execute, h.instruction, hcontrol]
  exact if_neg hopcode

theorem executes_lui {imm : BitVec 20} (h : AboutTo c s (.lui rd imm)) :
    ExecutesAs k c s (.lui rd imm) := by
  refine h.executes_writeReg rfl ?_
  rw [h.execute_eq_executeInteger rfl OPCode.noConfusion, executeInteger, h.instruction]
  rfl

theorem executes_auipc {imm : BitVec 20} (h : AboutTo c s (.auipc rd imm)) :
    ExecutesAs k c s (.auipc rd imm) := by
  refine h.executes_writeReg rfl ?_
  rw [h.execute_eq_executeInteger rfl OPCode.noConfusion, executeInteger, h.instruction]
  rfl

theorem executes_jal {offset : BitVec 20} (h : AboutTo c s (.jal rd offset)) :
    ExecutesAs k c s (.jal rd offset) := by
  refine h.executes_goTo rfl ?_
  rw [execute, h.instruction]
  dsimp only [Instruction.decoded]
  split_ifs <;> rfl

/-- The core reads the register after it has written the link, which makes no difference for a jump
as it is written. -/
theorem executes_jalr {offset : BitVec 12} (h : AboutTo c s (.jalr rd rs1 offset))
    (hjump : JumpsAsWritten (.jalr rd rs1 offset)) : ExecutesAs k c s (.jalr rd rs1 offset) := by
  obtain ⟨hlink, hbase⟩ := hjump
  have hbase' : (c.writeReg rd (s.pc + 4)).x rs1 = s.x rs1 := by
    rw [h.toShows.writeReg, HartState.write_x]
    split
    · rfl
    · next hrd => exact Function.update_of_ne (fun h ↦ hrd (hbase h.symm)) ..
  refine h.executes_goTo rfl ?_
  rw [← hbase', execute, h.instruction]
  dsimp only [Instruction.decoded, Instruction.jalrControl]
  rw [if_neg fun h ↦ hlink h.1]
  split_ifs <;> rfl

theorem executes_branch (harch : k.arch.IsLibrary) {condition : Condition} {offset : BitVec 12}
    (h : AboutTo c s (.branch condition rs1 rs2 offset)) :
    ExecutesAs k c s (.branch condition rs1 rs2 offset) := by
  have htarget : k.arch.execBranch (Instruction.branch condition rs1 rs2 offset).decoded
      (c.x rs1) (c.x rs2) s.pc = if condition.holds (s.x rs1) (s.x rs2) then
        some (s.pc + immediate (offsetBytes offset)) else none := by
    rw [harch.execBranch, execBranch_decoded, h.x]
  by_cases htaken : condition.holds (s.x rs1) (s.x rs2) = true
  · have hexecute : execute k c =
        .ok (c.setNextPc (s.pc + immediate (offsetBytes offset))).commit := by
      rw [if_pos htaken] at htarget
      rw [execute, h.instruction]
      dsimp only [Instruction.decoded] at htarget ⊢
      rw [htarget]
    have hview := h.toShows.commit_setNextPc h.instruction_pc 0 0
      (s.pc + immediate (offsetBytes offset))
    change (c.setNextPc _).commit.programView = _ at hview
    refine ⟨_, hexecute, ?_⟩
    rw [hview]
    exact .goes (by rw [effect, if_pos htaken]; rfl) rfl
  · refine h.executes_commit (by rw [effect, if_neg htaken]) ?_
    rw [if_neg htaken] at htarget
    rw [execute, h.instruction]
    dsimp only [Instruction.decoded] at htarget ⊢
    rw [htarget]

theorem executes_load {kind : LoadKind} {offset : BitVec 12}
    (h : AboutTo c s (.load kind rd rs1 offset)) :
    ExecutesAs k c s (.load kind rd rs1 offset) := by
  have hexecute : execute k c = prepareLoad k c := by
    rw [execute, h.instruction]
    rfl
  rw [ExecutesAs, hexecute, prepareLoad, h.instruction]
  refine ⟨_, rfl, .load rfl (by rw [← h.x]; rfl) ?_⟩
  change (UInt16.ofNat (scalarSize (UInt8.ofNat kind.funct3))).toNat = kind.size
  rw [scalarSize_load]
  cases kind <;> rfl

theorem executes_store {kind : StoreKind} {offset : BitVec 12}
    (h : AboutTo c s (.store kind rs1 rs2 offset)) :
    ExecutesAs k c s (.store kind rs1 rs2 offset) := by
  have hexecute : execute k c = prepareStore k c := by
    rw [execute, h.instruction]
    rfl
  rw [ExecutesAs, hexecute, prepareStore, h.instruction]
  refine ⟨_, rfl, .store rfl (by rw [← h.x]; rfl) ?_⟩
  change appendLe (scalarSize (UInt8.ofNat kind.funct3)) (c.x rs2).toNat = _
  rw [scalarSize_store, h.x]

theorem executes_opImm (harch : k.arch.IsLibrary) {op : ImmOp} {imm : BitVec 12}
    (h : AboutTo c s (.opImm op rd rs1 imm)) : ExecutesAs k c s (.opImm op rd rs1 imm) := by
  have hvalue : k.arch.execOpimm (Instruction.opImm op rd rs1 imm).decoded (c.x rs1) =
      result64 op.wordOp (s.x rs1) (immediate imm) := by
    rw [harch.execOpimm, execOpimm_decoded, h.x]
  refine h.executes_writeReg rfl ?_
  rw [h.execute_eq_executeInteger rfl OPCode.noConfusion, executeInteger, h.instruction, ← hvalue]
  rfl

theorem executes_shiftImm (harch : k.arch.IsLibrary) {shift : Shift} {shamt : Fin 64}
    (h : AboutTo c s (.shiftImm shift rd rs1 shamt)) :
    ExecutesAs k c s (.shiftImm shift rd rs1 shamt) := by
  have hvalue : k.arch.execOpimm (Instruction.shiftImm shift rd rs1 shamt).decoded (c.x rs1) =
      result64 shift.wordOp (s.x rs1) (UInt64.ofNat shamt) := by
    rw [harch.execOpimm, execOpimm_shift_decoded, h.x]
  refine h.executes_writeReg rfl ?_
  rw [h.execute_eq_executeInteger rfl OPCode.noConfusion, executeInteger, h.instruction, ← hvalue]
  rfl

theorem executes_opReg (harch : k.arch.IsLibrary) {op : WordOp}
    (h : AboutTo c s (.opReg op rd rs1 rs2)) : ExecutesAs k c s (.opReg op rd rs1 rs2) := by
  have hvalue : k.arch.execOp (Instruction.opReg op rd rs1 rs2).decoded (c.x rs1) (c.x rs2) =
      result64 op (s.x rs1) (s.x rs2) := by
    rw [harch.execOp, execOp_decoded, h.x]
  refine h.executes_writeReg rfl ?_
  rw [h.execute_eq_executeInteger rfl OPCode.noConfusion, executeInteger, h.instruction, ← hvalue]
  rfl

theorem executes_addiw (harch : k.arch.IsLibrary) {imm : BitVec 12}
    (h : AboutTo c s (.addiw rd rs1 imm)) : ExecutesAs k c s (.addiw rd rs1 imm) := by
  have hvalue : k.arch.execOpimm32 (Instruction.addiw rd rs1 imm).decoded (c.x rs1) =
      result32 .add (s.x rs1) (immediate imm) := by
    rw [harch.execOpimm32, execOpimm32_addiw_decoded, h.x]
  refine h.executes_writeReg rfl ?_
  rw [h.execute_eq_executeInteger rfl OPCode.noConfusion, executeInteger, h.instruction, ← hvalue]
  rfl

theorem executes_shiftImm32 (harch : k.arch.IsLibrary) {shift : Shift} {shamt : Fin 32}
    (h : AboutTo c s (.shiftImm32 shift rd rs1 shamt)) :
    ExecutesAs k c s (.shiftImm32 shift rd rs1 shamt) := by
  have hvalue : k.arch.execOpimm32 (Instruction.shiftImm32 shift rd rs1 shamt).decoded
      (c.x rs1) = result32 shift.wordOp (s.x rs1) (UInt64.ofNat shamt) := by
    rw [harch.execOpimm32, execOpimm32_shift_decoded, h.x]
  refine h.executes_writeReg rfl ?_
  rw [h.execute_eq_executeInteger rfl OPCode.noConfusion, executeInteger, h.instruction, ← hvalue]
  rfl

theorem executes_opReg32 (harch : k.arch.IsLibrary) {op : Op32}
    (h : AboutTo c s (.opReg32 op rd rs1 rs2)) : ExecutesAs k c s (.opReg32 op rd rs1 rs2) := by
  have hvalue : k.arch.execOp32 (Instruction.opReg32 op rd rs1 rs2).decoded (c.x rs1) (c.x rs2) =
      result32 op.wordOp (s.x rs1) (s.x rs2) := by
    rw [harch.execOp32, execOp32_decoded, h.x]
  refine h.executes_writeReg rfl ?_
  rw [h.execute_eq_executeInteger rfl OPCode.noConfusion, executeInteger, h.instruction, ← hvalue]
  rfl

theorem executes_csrrHartId (h : AboutTo c s (.csrrHartId rd)) :
    ExecutesAs k c s (.csrrHartId rd) := by
  refine h.executes_writeReg rfl ?_
  have hcsr := @executeCsr_hartId k c rd (by rw [h.x, s.zero]) (by rw [h.instruction])
  rw [execute, h.instruction]
  change (executeCsr k c >>= fun c ↦ pure c.commit) = _
  rw [hcsr]
  rfl

end AboutTo

/-- A core executes every base instruction as the instruction set has it. -/
theorem execute_executes (harch : k.arch.IsLibrary) (hidle : c.mmio.busy = false)
    (hshows : Shows c s) {i : Instruction} (hjump : JumpsAsWritten i)
    (hpending : c.pending = some ⟨i.decoded, i.encode, s.pc, s.pc + 4⟩) : ExecutesAs k c s i := by
  have hinstruction : c.instruction = ⟨i.decoded, i.encode, s.pc, s.pc + 4⟩ := by
    rw [instruction, hpending]
    rfl
  have h : AboutTo c s i := ⟨hshows, hinstruction⟩
  cases i with
  | lui => exact h.executes_lui
  | auipc => exact h.executes_auipc
  | jal => exact h.executes_jal
  | jalr => exact h.executes_jalr hjump
  | branch => exact h.executes_branch harch
  | load => exact h.executes_load
  | store => exact h.executes_store
  | opImm => exact h.executes_opImm harch
  | shiftImm => exact h.executes_shiftImm harch
  | opReg => exact h.executes_opReg harch
  | addiw => exact h.executes_addiw harch
  | shiftImm32 => exact h.executes_shiftImm32 harch
  | opReg32 => exact h.executes_opReg32 harch
  | fence mode | fenceI mode =>
    -- the adapter is idle, so the fence does not wait
    refine h.executes_commit rfl ?_
    rw [execute, hinstruction]
    exact if_neg (by rw [hidle]; decide)
  | csrrHartId => exact h.executes_csrrHartId
  | ecall =>
    refine ⟨_, by rw [execute, hinstruction]; rfl, .stops ?_⟩
    rw [hshows.x]
    rfl
  | ebreak => exact ⟨_, by rw [execute, hinstruction]; rfl, .stops rfl⟩

end Rv64AtomicCore

end Manycore
