import SimbusNoc.Manycore.BaseInstructions
import SimbusNoc.Manycore.ByteMemory
import SimbusNoc.Manycore.IntegerUnit
import SimbusNoc.Manycore.Rv64Program

/-!
# The machine that a program is written for

A hart has a program counter and 32 registers, and memory is a byte for each address. An
instruction takes effect at once: it changes the hart, or it reads or writes memory and changes the
hart. There are no cycles here, and nothing between a hart and its memory. Instructions are not
kept in this memory: a hart fetches them from an image that nobody can write to. A hart stops with
a code when it calls its environment, or when it writes an odd number to the address of the host.

This is the abstract level, and nothing in it is taken from the simulator: it says what the
instructions mean. Arithmetic is that of words modulo `2 ^ 64` from the library, and immediates are
signed numbers. `effect` separates what an instruction does to its hart from what it wants of
memory, since the simulator does the two at different times: an effect that needs memory is a
request with a continuation. `HartStep` is one instruction of one hart, labelled with its access,
so that the runs of several harts over one memory are interleavings of such steps.
-/

namespace Manycore

open Simbus Rv64archsem

/-! ## Harts -/

/-- What a program sees of a hart. -/
@[ext] structure HartState where
  pc : UInt64
  x : Fin 32 → UInt64
  /-- The addresses of the instructions that it has executed, but for one that has stopped it. -/
  retired : List UInt64
  /-- The code that it has stopped with. -/
  exit : Option Int32
  /-- Register 0 cannot be written. -/
  zero : x 0 = 0

namespace HartState

def write (s : HartState) (rd : Fin 32) (value : UInt64) : HartState where
  pc := s.pc
  x := if rd = 0 then s.x else Function.update s.x rd value
  retired := s.retired
  exit := s.exit
  zero := by
    split
    · exact s.zero
    · next hrd => rw [Function.update_of_ne (Ne.symm hrd), s.zero]

theorem write_x (s : HartState) (rd : Fin 32) (value : UInt64) :
    (s.write rd value).x = if rd = 0 then s.x else Function.update s.x rd value := rfl

/-- The instruction is done, and the next one is at `target`. -/
def goTo (s : HartState) (target : UInt64) : HartState :=
  { s with pc := target, retired := s.retired ++ [s.pc] }

/-- The next instruction is the one after this one. -/
def next (s : HartState) : HartState := s.goTo (s.pc + 4)

def stopWith (s : HartState) (exit : Option Int32) : HartState := { s with exit := exit }

/-- A hart before its first instruction. -/
def start (p : ProgramImage) (stackPointer : UInt64) : HartState where
  pc := p.baseAddress
  x := Function.update (fun _ ↦ 0) 2 stackPointer
  retired := []
  exit := none
  zero := Function.update_of_ne (by decide) ..

end HartState

end Manycore

/-! ## What the operands of an instruction mean -/

namespace Rv64archsem

open Simbus

/-- An immediate as a word. -/
def immediate {n : ℕ} (imm : BitVec n) : UInt64 := (signExtended imm).toUInt64

def Condition.holds (condition : Condition) (a b : UInt64) : Bool :=
  match condition with
  | beq => decide (a = b)
  | bne => decide (a ≠ b)
  | blt => decide (a.toBitVec.toInt < b.toBitVec.toInt)
  | bge => decide (b.toBitVec.toInt ≤ a.toBitVec.toInt)
  | bltu => decide (a.toNat < b.toNat)
  | bgeu => decide (b.toNat ≤ a.toNat)

def ImmOp.wordOp : ImmOp → WordOp
  | addi => .add
  | slti => .slt
  | sltiu => .sltu
  | xori => .xor
  | ori => .or
  | andi => .and

def Shift.wordOp : Shift → WordOp
  | left => .sll
  | right => .srl
  | rightArithmetic => .sra

/-- The bytes that a load reads. -/
def LoadKind.size : LoadKind → ℕ
  | lb | lbu => 1
  | lh | lhu => 2
  | lw | lwu => 4
  | ld => 8

/-- A word from the bytes of memory. -/
def LoadKind.value (kind : LoadKind) (data : Bytes) : UInt64 :=
  match kind with
  | lb | lh | lw => .ofBitVec ((BitVec.ofNat (8 * kind.size) (Manycore.leValue data)).signExtend 64)
  | ld | lbu | lhu | lwu => UInt64.ofNat (Manycore.leValue data)

/-- The bytes that a store writes. -/
def StoreKind.size : StoreKind → ℕ
  | sb => 1
  | sh => 2
  | sw => 4
  | sd => 8

end Rv64archsem

namespace Manycore

open Simbus Rv64archsem

/-! ## Instructions -/

/-- What an instruction does: it changes the hart, or it needs memory for that. -/
inductive Effect
  | goes (s : HartState)
  | reads (address : UInt64) (size : ℕ) (s : Bytes → HartState)
  | writes (address : UInt64) (data : Bytes) (s : HartState)

/-- An odd number that is written to the host stops the hart. The rest of it is the number of a test
that has failed, or zero. -/
def hostExit (tohost : Option UInt64) (address : UInt64) (data : Bytes) : Option Int32 :=
  if tohost = some address ∧ leValue data % 2 = 1 then
    some (.ofNat (min (leValue data / 2) 124))
  else none

/-- The effect of an instruction on hart number `hart` in state `s`. -/
def effect (tohost : Option UInt64) (hart : UInt32) (s : HartState) : Instruction → Effect
  | .lui rd imm => .goes (s.write rd (immediate (imm ++ 0#12))).next
  | .auipc rd imm => .goes (s.write rd (s.pc + immediate (imm ++ 0#12))).next
  | .jal rd offset =>
    .goes ((s.write rd (s.pc + 4)).goTo (s.pc + immediate (offsetBytes offset)))
  | .jalr rd rs1 offset =>
    .goes ((s.write rd (s.pc + 4)).goTo ((s.x rs1 + immediate offset) &&& ~~~(1 : UInt64)))
  | .branch condition rs1 rs2 offset =>
    .goes (if condition.holds (s.x rs1) (s.x rs2)
    then s.goTo (s.pc + immediate (offsetBytes offset))
      else s.next)
  | .load kind rd rs1 offset =>
    .reads (s.x rs1 + immediate offset) kind.size fun data ↦ (s.write rd (kind.value data)).next
  | .store kind rs1 rs2 offset =>
    let address := s.x rs1 + immediate offset
    let data := appendLe kind.size (s.x rs2).toNat
    .writes address data (s.next.stopWith (hostExit tohost address data))
  | .opImm op rd rs1 imm => .goes (s.write rd (result64 op.wordOp (s.x rs1) (immediate imm))).next
  | .shiftImm shift rd rs1 shamt =>
    .goes (s.write rd (result64 shift.wordOp (s.x rs1) (UInt64.ofNat shamt))).next
  | .opReg op rd rs1 rs2 => .goes (s.write rd (result64 op (s.x rs1) (s.x rs2))).next
  | .addiw rd rs1 imm => .goes (s.write rd (result32 .add (s.x rs1) (immediate imm))).next
  | .shiftImm32 shift rd rs1 shamt =>
    .goes (s.write rd (result32 shift.wordOp (s.x rs1) (UInt64.ofNat shamt))).next
  | .opReg32 op rd rs1 rs2 => .goes (s.write rd (result32 op.wordOp (s.x rs1) (s.x rs2))).next
  | .fence _ | .fenceI _ => .goes s.next
  | .csrrHartId rd => .goes (s.write rd (UInt64.ofNat hart.toNat)).next
  | .ecall => .goes (s.stopWith (some (s.x 10).toUInt32.toInt32))
  | .ebreak => .goes (s.stopWith (some 0))

/-! ## Steps -/

/-- An access to memory with the data that goes either way. -/
inductive MemoryAccess
  | read (address : UInt64) (data : Bytes)
  | write (address : UInt64) (data : Bytes)
  deriving DecidableEq

/-- What memory does in an access. -/
inductive MemoryAccess.Allowed : ByteMemory → MemoryAccess → ByteMemory → Prop
  | read (m : ByteMemory) (address : UInt64) (size : ℕ) :
      Allowed m (.read address (m.load address size)) m
  | write (m : ByteMemory) (address : UInt64) (data : Bytes) :
      Allowed m (.write address data) (m.store address data)

/-- An effect takes place: the access, if there is one, and the hart after it. -/
inductive Effect.Takes : Effect → Option MemoryAccess → HartState → Prop
  | goes (s : HartState) : Takes (.goes s) none s
  | reads (address : UInt64) (data : Bytes) (s : Bytes → HartState) :
      Takes (.reads address data.length s) (some (.read address data)) (s data)
  | writes (address : UInt64) (data : Bytes) (s : HartState) :
      Takes (.writes address data s) (some (.write address data)) s

/-- A read may return any bytes, as far as the hart can tell. -/
theorem takes_reads_iff {address : UInt64} {size : ℕ} {f : Bytes → HartState}
    {o : Option MemoryAccess} {s : HartState} : (Effect.reads address size f).Takes o s ↔
      ∃ data : Bytes, data.length = size ∧ o = some (.read address data) ∧ s = f data := by
  constructor
  · intro h
    generalize he : Effect.reads address size f = e at h
    cases h with
    | goes => cases he
    | writes => cases he
    | reads address data f =>
      obtain ⟨rfl, rfl, rfl⟩ := Effect.reads.inj he
      exact ⟨data, rfl, rfl, rfl⟩
  · rintro ⟨data, rfl, rfl, rfl⟩
    exact .reads address data f

/-- A hart that has not stopped executes the instruction at its program counter. -/
def HartStep (p : ProgramImage) (tohost : Option UInt64) (hart : UInt32) (s : HartState)
    (access : Option MemoryAccess) (s' : HartState) : Prop :=
  s.exit = none ∧ ∃ i : Instruction, p.fetch32 s.pc = .ok i.encode ∧
    (effect tohost hart s i).Takes access s'

end Manycore
