import SimbusNoc.Manycore.Rv64AtomicCore

/-!
# The RV64 manycore system

`rv64_manycore_system.cpp`: RV64 cores that run one program and a memory controller, on the double
ring or on the shared bus.

A tick is the controller's turn, the turns of the cores in their order, and the tick of the bus.
All parties see the same bus object, so `turns` passes the interconnect from one to the next. A
core keeps its errors to itself, while an error of the controller or of the bus ends the tick.
`run` is the loop of the source, with as many ticks as its limit says; `ticks` is the state after a
given number, which is what statements about reachable states are about.
-/

namespace Manycore

open Simbus Rv64archsem

/-- `ManycoreConfig` with the fields that only this system reads. The core count is a 32-bit one. -/
structure Rv64ManycoreConfig extends ManycoreConfig where
  sharedBus : Bool := false
  bus : SharedBusConfig := {}
  mmioDepth : UInt32 := 1
  tohostAddress : Option UInt64 := none
  coreCount_lt : coreCount < 2 ^ 32 := by decide

/-- What the constructor fixes. -/
structure Rv64ManycoreSystem where
  arch : ArchSem
  program : ProgramImage
  config : Rv64ManycoreConfig
  latency : InstructionLatencyConfig

structure Rv64SystemState where
  bus : Interconnect
  memoryController : MemoryController := {}
  cores : ℕ → Rv64AtomicCore := fun _ ↦ {}
  currentTick : ℕ := 0

namespace Rv64ManycoreSystem

variable (m : Rv64ManycoreSystem)

/-- The number of cores. -/
def coreCount : ℕ := m.config.coreCount

/-- The memory controller's port. -/
def memoryPort : BusPortT := m.coreCount

/-- The constants of core `i`. -/
def hart (i : ℕ) : Rv64Hart where
  arch := m.arch
  hartId := UInt32.ofNat i
  program := m.program
  latency := m.latency
  tohostAddress := m.config.tohostAddress

/-- The interconnect that the configuration asks for. -/
def constructBus (ord : HashOrder) (config : Rv64ManycoreConfig) : Except String Interconnect :=
  if config.sharedBus then do
    let b ← SharedBus.construct (UInt32.ofNat (config.coreCount + 1)) config.bus
    return .shared b {}
  else do
    let noc ← ringNoCConstruct ord config.coreCount (makeNocConfig config.toManycoreConfig)
    return .ring noc {}

/-- The loop that makes the cores. -/
def constructCores : Except String (ℕ → Rv64AtomicCore) :=
  (List.range m.coreCount).foldlM (fun cores i ↦ do
    let core ← Rv64AtomicCore.construct (m.hart i) m.config.mmioDepth
    return Function.update cores i core) fun _ ↦ {}

/-- The constructor. -/
def construct (arch : ArchSem) (ord : HashOrder) (program : ProgramImage)
    (config : Rv64ManycoreConfig) (latency : InstructionLatencyConfig) :
    Except String (Rv64ManycoreSystem × Rv64SystemState) := do
  let bus ← constructBus ord config
  MemoryController.validate (controllerConfig config.toManycoreConfig)
  require (!(config.coreCount == 0)) "RV64 system needs at least one core"
  let m : Rv64ManycoreSystem :=
    { arch := arch, program := program, config := config, latency := latency }
  return (m, { bus := bus, cores := ← m.constructCores })

/-- One core's turn in a tick. -/
def tickCore (s : Rv64SystemState) (i : ℕ) : Except String Rv64SystemState := do
  let (core, bus) ← (s.cores i).tick Interconnect.interface (m.hart i) i m.memoryPort s.bus
  return { s with cores := Function.update s.cores i core, bus := bus }

/-- The turn of the memory controller. -/
def tickController (s : Rv64SystemState) : Except String Rv64SystemState := do
  let (controller, bus) ← s.memoryController.tick Interconnect.interface.toBusInterfaceV2
    m.memoryPort (controllerConfig m.config.toManycoreConfig) s.bus
  return { s with memoryController := controller, bus := bus }

/-- The first part of a tick: the controller, and the cores in their order. -/
def turns (s : Rv64SystemState) : Except String Rv64SystemState := do
  (List.range m.coreCount).foldlM m.tickCore (← m.tickController s)

/-- The second part of a tick: the bus moves on. -/
def advanceBus (s : Rv64SystemState) : Except String Rv64SystemState := do
  let bus ← Interconnect.interface.applyNextTick s.bus
  return { s with bus := bus, currentTick := s.currentTick + 1 }

def tick (s : Rv64SystemState) : Except String Rv64SystemState := do
  advanceBus (← m.turns s)

def finished (s : Rv64SystemState) : Bool :=
  ((List.range m.coreCount).all fun i ↦ (s.cores i).finished && !(s.cores i).mmio.busy) &&
    s.memoryController.idle

def faulted (s : Rv64SystemState) : Bool :=
  (List.range m.coreCount).any fun i ↦ (s.cores i).faulted

def programSucceeded (s : Rv64SystemState) : Bool :=
  m.finished s && !m.faulted s &&
    (List.range m.coreCount).all fun i ↦ (s.cores i).exitCode == 0

/-- The loop of `run`, for at most `fuel` more ticks. -/
def runLoop : ℕ → Rv64SystemState → Except String Rv64SystemState
  | 0, s => .ok s
  | fuel + 1, s =>
    if m.finished s || m.faulted s then .ok s
    else do runLoop fuel (← m.tick s)

/-- `run`. -/
def run (maxTicks : ℕ) (s : Rv64SystemState) : Except String (Bool × Rv64SystemState) := do
  let s ← m.runLoop (maxTicks - s.currentTick) s
  return (m.finished s && !m.faulted s, s)

/-- The state after `k` calls of `tick`. -/
def ticks : ℕ → Rv64SystemState → Except String Rv64SystemState
  | 0, s => .ok s
  | k + 1, s => do m.tick (← ticks k s)

/-! ## A small program -/

/-- Two harts are few enough. -/
theorem smallCount_lt : 2 < 2 ^ 32 := by decide

/-- Hart 0 loads the byte at address 0 and halts, every other hart halts at once:
`csrr a0, mhartid`, `bnez a0, 8`, `lb a1, 0(x0)` and `ecall`. -/
def smallProgram : ProgramImage := .fromWords [0xf1402573, 0x00051463, 0x00000583, 0x00000073]

/-- The library on the instructions of this program. -/
def smallArch : ArchSem where
  decode := fun word ↦
    if word = 0xf1402573 then
      some { rawInst := word, instName := .other 0x001003c, opcode := .system, controlType := .csr
             imm := 0xf14, rdType := .gpreg, rs1Type := .gpreg, rd := 10, funct3 := 2
             funct7 := 0x78 }
    else if word = 0x00051463 then
      some { rawInst := word, instName := .other 0x0010006, opcode := .branch
             controlType := .branch, instType := .B, imm := 8, rs1Type := .gpreg
             rs2Type := .gpreg, rs1 := 10, funct3 := 1 }
    else if word = 0x00000583 then
      some { rawInst := word, instName := .other 0x001000b, opcode := .load, controlType := .load
             instType := .I, rdType := .gpreg, rs1Type := .gpreg, rd := 11, rdExt := .sign8 }
    else if word = 0x00000073 then
      some { rawInst := word, instName := .other 0x0010035, opcode := .system
             controlType := .ecall }
    else none
  execBranch := fun inst rs1 rs2 pc ↦ if rs1 ≠ rs2 then some (pc + inst.imm.toUInt64) else none
  execOpimm := fun _ _ ↦ 0
  execOpimm32 := fun _ _ ↦ 0
  execOp := fun _ _ _ ↦ 0
  execOp32 := fun _ _ _ ↦ 0
  execOpv := fun _ _ _ _ _ _ ↦ .error .illegalInstruction
  mnemonic := fun name ↦
    match name with
    | .other 0x001003c => "csrrs"
    | .other 0x0010006 => "bne"
    | .other 0x001000b => "lb"
    | _ => "ecall"

end Rv64ManycoreSystem

end Manycore
