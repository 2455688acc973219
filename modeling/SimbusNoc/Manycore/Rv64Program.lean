import SimbusNoc.Manycore.ArchSem

/-!
# Program images and instruction timings

`program_image.cpp` and `instruction_latency.cpp`: what a core fetches from, and how many ticks an
instruction takes before it is executed. The table of mnemonics is the library's.

An image is the bytes of the words at the base address, and a fetch reads 16 or 32 bits of them or
throws. A timing is a base and, for vector instructions, a number of lanes; `instructionLatency`
looks the entry of an instruction up under the key that `timingKey` makes of its mnemonic, and
falls back to the latency of its class. The reader of the timing file is embedded with the
properties of the table.
-/

namespace Manycore

open Simbus Rv64archsem

/-! ## Program images -/

structure ProgramImage where
  baseAddress : UInt64 := 0x80000000
  bytes : Bytes := []
  deriving DecidableEq

namespace ProgramImage

/-- `from_words`. -/
def fromWords (words : List UInt32) (baseAddress : UInt64 := 0x80000000) : ProgramImage where
  baseAddress := baseAddress
  bytes := words.flatMap fun w ↦ appendLe 4 w.toNat

variable (p : ProgramImage)

def byteAt (address : UInt64) : Except String UInt8 :=
  if address < p.baseAddress then throw "instruction fetch outside program image"
  else
    match p.bytes[(address - p.baseAddress).toNat]? with
    | none => throw "instruction fetch outside program image"
    | some x => return x

def fetch16 (address : UInt64) : Except String UInt16 := do
  let low ← p.byteAt address
  let high ← p.byteAt (address + 1)
  return UInt16.ofNat (leValue [low, high])

def fetch32 (address : UInt64) : Except String UInt32 := do
  let b0 ← p.byteAt address
  let b1 ← p.byteAt (address + 1)
  let b2 ← p.byteAt (address + 2)
  let b3 ← p.byteAt (address + 3)
  return UInt32.ofNat (leValue [b0, b1, b2, b3])

end ProgramImage

/-! ## Instruction timings -/

structure Timing where
  base : ℕ := 1
  lanes : ℕ := 0
  deriving DecidableEq

structure InstructionLatencyConfig where
  instructions : String → Option Timing := fun _ ↦ none
  vectorBase : ℕ := 0
  vectorLanes : ℕ := 0
  integerAlu : ℕ := 1
  integerMultiply : ℕ := 3
  integerDivide : ℕ := 18
  branchJump : ℕ := 1
  csr : ℕ := 1
  memoryIssue : ℕ := 1
  fence : ℕ := 1
  vectorConfig : ℕ := 1
  vectorIntegerAlu : ℕ := 4
  vectorTransactionIssue : ℕ := 1

def Timing.cycles (t : Timing) (vl : ℕ) : Except String ℕ := do
  let n := t.base + if t.lanes = 0 then 0 else (vl + t.lanes - 1) / t.lanes
  require (!(n == 0 || decide (2 ^ 32 - 1 < n))) "invalid timing cycles"
  return n

/-- The name under which the timing of an instruction is looked up. -/
def timingKey (arch : ArchSem) (inst : DecodedInst) : String :=
  let width := match inst.funct3.toNat with
    | 0 => 8
    | 5 => 16
    | 6 => 32
    | 7 => 64
    | _ => 0
  match inst.instName with
  | .vleXV => s!"vle{width}.v"
  | .vseXV => s!"vse{width}.v"
  | name => arch.mnemonic name

/-- The latency of an instruction that has no entry of its own. -/
def defaultLatency (inst : DecodedInst) (config : InstructionLatencyConfig) (vl : ℕ) :
    Except String ℕ :=
  if inst.opcode = .opv then
    if inst.instName = .vsetvli ∨ inst.instName = .vsetivli ∨ inst.instName = .vsetvl then
      .ok config.vectorConfig
    else if config.vectorLanes = 0 then .ok config.vectorIntegerAlu
    else Timing.cycles ⟨config.vectorBase, config.vectorLanes⟩ vl
  else
    match inst.controlType with
    | .branch | .directJump | .indirectJump | .call | .ret => .ok config.branchJump
    | .load | .store | .vload | .vstore => .ok config.memoryIssue
    | .csr => .ok config.csr
    | .fence | .fencei | .fenceTso => .ok config.fence
    | _ =>
      if (inst.opcode = .op ∨ inst.opcode = .op32) ∧ inst.funct7 = 1 then
        .ok (if 4 ≤ inst.funct3 then config.integerDivide else config.integerMultiply)
      else .ok config.integerAlu

def instructionLatency (arch : ArchSem) (inst : DecodedInst) (config : InstructionLatencyConfig)
    (vl : ℕ) : Except String ℕ := do
  match config.instructions (timingKey arch inst) with
  | some timing => timing.cycles vl
  | none =>
    let value ← defaultLatency inst config vl
    require (!(value == 0)) "instruction latency must be non-zero"
    return value

end Manycore
