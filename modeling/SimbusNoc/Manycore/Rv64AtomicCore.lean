import SimbusNoc.Manycore.Interconnect
import SimbusNoc.Manycore.Rv64Program

/-!
# The RV64 core

`rv64_atomic_core.cpp`: a core that fetches, executes and retires one instruction after the other.
Memory accesses leave the core as requests, one at a time, and a vector access is a sequence of
them. The registers of the MMIO adapter are read and written without the bus.

## The state machine

`Rv64CoreState` has a state for each thing that an instruction waits for: its fetch, the end of its
delay, the adapter when it is a fence, a bus that takes its request, and the response. `tickCore`
runs the handler of the state. A handler is one definition with the source's name, and the parts
that it is made of (the registers, the vector registers, the staging of requests, responses) come
before it.

Registers, addresses and the vector state are words of the source's widths. The tick counters and
the other statistics are natural numbers.

## Exceptions

A function that may throw returns the core as it is at the throw, since what it has done before
stays done. `recover` is the `catch` block of all callers. Optional members that the source reads
unchecked have a default value here; that they are there when they are read is the business of the
invariants.

## Ghost field

`Rv64AtomicCore.trace` is ghost: what the core has fetched, committed, sent and received so far,
oldest first. No function reads it.
-/

namespace Manycore

open Simbus Rv64archsem

/-! ## The state -/

inductive Rv64CoreState
  | fetchDecode | executeWait | memoryIssue | memoryWait | halted | faulted
  deriving DecidableEq

structure Rv64CoreStats where
  requestLatency : Distribution := {}
  ticks : ℕ := 0
  fetchDecodeCycles : ℕ := 0
  adapterSerializationWaitCycles : ℕ := 0
  vectorIssueWaitCycles : ℕ := 0
  retiredInstructions : ℕ := 0
  executeWaitCycles : ℕ := 0
  injectionBlockedCycles : ℕ := 0
  memoryWaitCycles : ℕ := 0
  loads : ℕ := 0
  stores : ℕ := 0
  vectorConfigInstructions : ℕ := 0
  vectorAluInstructions : ℕ := 0
  vectorLoadInstructions : ℕ := 0
  vectorStoreInstructions : ℕ := 0
  vectorMemoryTransactions : ℕ := 0

structure PendingInstruction where
  decoded : DecodedInst := {}
  raw : UInt32 := 0
  pc : UInt64 := 0
  nextPc : UInt64 := 0
  deriving DecidableEq

/-- Ghost. -/
structure HartTrace where
  /-- The instructions that were fetched and decoded, with the vector length at that time. -/
  fetched : List (PendingInstruction × UInt32) := []
  committed : List PendingInstruction := []
  /-- The core's own requests that the bus has taken and the accepted commands of the adapter, in
  program order. -/
  transactions : List MemoryRequest := []
  /-- The number of the core's own requests that the bus has taken. -/
  sent : ℕ := 0
  /-- The core's own requests with the responses it has taken for them. -/
  answered : List (MemoryRequest × MemoryResponse) := []
  /-- The number of accesses that the control window has served. -/
  windowAccesses : ℕ := 0
  /-- The finished requests of the adapter, with its data register after each. -/
  adapterAnswers : List (MemoryRequest × UInt64) := []

/-- `kVectorIllegal`. -/
def vectorIllegal : UInt64 := 0x8000000000000000

structure Rv64AtomicCore where
  mmio : MmioBusAdapter := {}
  state : Rv64CoreState := .fetchDecode
  pc : UInt64 := 0
  x : Fin 32 → UInt64 := fun _ ↦ 0
  vectorRegisters : Fin 32 → Fin 4 → UInt64 := fun _ _ ↦ 0
  vectorContext : VecContext := ⟨.e8, .m1, 0, 0, 0, List.replicate 32 0⟩
  vtype : UInt64 := vectorIllegal
  fcsr : UInt64 := 0
  csr : UInt64 → UInt64 := fun _ ↦ 0
  pending : Option PendingInstruction := none
  memoryRequest : Option MemoryRequest := none
  vectorLoadDescriptors : List MemLoadDescriptor := []
  vectorStoreDescriptors : List MemStoreDescriptor := []
  activeVectorLoad : Option MemLoadDescriptor := none
  vectorLoadBuffer : List UInt64 := []
  vectorMemoryRegister : Fin 32 := 0
  vectorMemoryActive : Bool := false
  vectorMemoryIsLoad : Bool := false
  loadRd : Fin 32 := 0
  loadExtension : RDExtType := .zero
  cyclesLeft : ℕ := 0
  vectorIssueLeft : ℕ := 0
  nextTransactionId : UInt32 := 1
  requestStarted : Option ℕ := none
  exitCode : Int32 := 0
  stopReason : String := ""
  stats : Rv64CoreStats := {}
  /-- Ghost. -/
  trace : HartTrace := {}

/-- What the constructor of a core fixes. -/
structure Rv64Hart where
  arch : ArchSem
  hartId : UInt32
  program : ProgramImage
  latency : InstructionLatencyConfig
  tohostAddress : Option UInt64 := none

namespace Rv64AtomicCore

/-- The constructor. -/
def construct (k : Rv64Hart) (mmioDepth : UInt32) (stackTop : UInt64 := 0x88000000) :
    Except String Rv64AtomicCore := do
  require (!(k.latency.vectorTransactionIssue == 0))
    "vector transaction issue latency must be non-zero"
  let mmio ← MmioBusAdapter.setDepth {} mmioDepth
  return {
    mmio := mmio
    pc := k.program.baseAddress
    x := Function.update (fun _ ↦ 0) 2 (stackTop - UInt64.ofNat k.hartId.toNat * 0x10000) }

def halted (c : Rv64AtomicCore) : Bool := c.state == .halted
def faulted (c : Rv64AtomicCore) : Bool := c.state == .faulted
def finished (c : Rv64AtomicCore) : Bool := c.halted || c.faulted

/-- The instruction in `pending_`. -/
def instruction (c : Rv64AtomicCore) : PendingInstruction := c.pending.getD {}

/-- The request in `memory_request_`. -/
def request (c : Rv64AtomicCore) : MemoryRequest := c.memoryRequest.getD {}

/-! ## The end of an instruction -/

def commit (c : Rv64AtomicCore) : Rv64AtomicCore :=
  { c with
    pc := c.instruction.nextPc
    pending := none
    x := Function.update c.x 0 0
    stats := { c.stats with retiredInstructions := c.stats.retiredInstructions + 1 }
    state := .fetchDecode
    trace := { c.trace with committed := c.trace.committed ++ [c.instruction] } }

def stop (c : Rv64AtomicCore) (code : Int32) (reason : String) : Rv64AtomicCore :=
  { c with exitCode := code, stopReason := reason, pending := none, state := .halted }

def fault (c : Rv64AtomicCore) (reason : String) : Rv64AtomicCore :=
  { c with
    exitCode := 125
    stopReason := reason
    pending := none
    memoryRequest := none
    vectorLoadDescriptors := []
    vectorStoreDescriptors := []
    activeVectorLoad := none
    vectorLoadBuffer := []
    vectorMemoryActive := false
    state := .faulted }

/-- What a function that may throw does: the core after it, or the message and the core at the
throw. -/
abbrev Attempt := Except (String × Rv64AtomicCore) Rv64AtomicCore

/-- A call that throws leaves the core as it is. -/
def onThrow {α : Type} (c : Rv64AtomicCore) (x : Except String α) :
    Except (String × Rv64AtomicCore) α :=
  match x with
  | .ok a => .ok a
  | .error reason => .error (reason, c)

/-- The `try` block around an attempt: what is thrown faults the core. -/
def recover : Attempt → Rv64AtomicCore
  | .ok c => c
  | .error (reason, c) => c.fault reason

/-! ## Registers -/

def writeReg (c : Rv64AtomicCore) (index : Fin 32) (value : UInt64) : Rv64AtomicCore :=
  if index = 0 then c else { c with x := Function.update c.x index value }

/-- The control and status registers 0x7c0 to 0x7c7 are those of the adapter. -/
def isBusCsr (address : UInt64) : Bool := decide (0x7c0 ≤ address) && decide (address ≤ 0x7c7)

/-- The adapter register of each of them. -/
def busCsr (address : UInt64) : UInt64 :=
  MmioBusAdapter.base + [0, 24, 8, 40, 32, 16, 64, 72].getD (address - 0x7c0).toNat 0

/-- `kVectorRegisterBytes`. -/
def vectorRegisterBytes : ℕ := rvvVlen / 8

def readCsr (k : Rv64Hart) (c : Rv64AtomicCore) (address : UInt64) : Except String UInt64 :=
  if isBusCsr address then
    if address = 0x7c7 then .ok 0 else c.mmio.read (busCsr address) 8
  else if address = 0x008 then .ok (UInt64.ofNat c.vectorContext.vstart.toNat)
  else if address = 0x009 then .ok (c.vectorContext.vcsr &&& 1)
  else if address = 0x00a then .ok ((c.vectorContext.vcsr >>> 1) &&& 3)
  else if address = 0x00f then .ok (c.vectorContext.vcsr &&& 7)
  else if address = 0xc20 then .ok (UInt64.ofNat c.vectorContext.vl.toNat)
  else if address = 0xc21 then .ok c.vtype
  else if address = 0xc22 then .ok (UInt64.ofNat vectorRegisterBytes)
  else if address = 0xc00 then .ok (UInt64.ofNat c.stats.ticks)
  else if address = 0xc02 then .ok (UInt64.ofNat c.stats.retiredInstructions)
  else if address = 0xf14 then .ok (UInt64.ofNat k.hartId.toNat)
  else .ok (c.csr address)

/-- A write to the adapter's registers has changed the adapter. -/
def setMmio (k : Rv64Hart) (c : Rv64AtomicCore) (mmio : MmioBusAdapter) : Rv64AtomicCore :=
  let commands := mmio.issued.drop c.mmio.issued.length
  { c with
    mmio := mmio
    trace := { c.trace with
      transactions := c.trace.transactions ++ commands.map (MmioCommand.request k.hartId) } }

def writeCsr (k : Rv64Hart) (c : Rv64AtomicCore) (address value : UInt64) :
    Except String Rv64AtomicCore := do
  if isBusCsr address then
    require (!(address == 0x7c3 || address == 0x7c6)) "read-only bus CSR"
    return c.setMmio k (← c.mmio.write k.hartId (busCsr address) 8 value)
  let vctx := c.vectorContext
  if address = 0x008 then
    return { c with vectorContext := { vctx with vstart := value.toUInt32 } }
  if address = 0x009 then
    return { c with vectorContext :=
      { vctx with vcsr := (vctx.vcsr &&& ~~~(1 : UInt64)) ||| (value &&& 1) } }
  if address = 0x00a then
    return { c with vectorContext :=
      { vctx with vcsr := (vctx.vcsr &&& ~~~(6 : UInt64)) ||| ((value &&& 3) <<< 1) } }
  if address = 0x00f then return { c with vectorContext := { vctx with vcsr := value &&& 7 } }
  if address = 0xc20 ∨ address = 0xc21 ∨ address = 0xc22 then return c
  if address = 0xc00 ∨ address = 0xc02 ∨ address = 0xf14 then return c
  return { c with csr := Function.update c.csr address value }

def executeCsr (k : Rv64Hart) (c : Rv64AtomicCore) : Attempt := do
  let inst := c.instruction.decoded
  let address := inst.imm.toUInt64 &&& 0xfff
  let oldValue ← onThrow c (readCsr k c address)
  let source := if 5 ≤ inst.funct3 then UInt64.ofNat inst.rs1 else c.x inst.rs1
  let (newValue, write) ← match inst.funct3.toNat with
    | 1 | 5 => .ok (source, true)
    | 2 | 6 => .ok (oldValue ||| source, !(source == 0))
    | 3 | 7 => .ok (oldValue &&& ~~~source, !(source == 0))
    | _ => .error ("unsupported CSR operation", c)
  let c := c.writeReg inst.rd oldValue
  if write then onThrow c (writeCsr k c address newValue) else return c

/-! ## Vector registers -/

def vectorGroupRegisters (c : Rv64AtomicCore) : Except String ℕ :=
  match c.vectorContext.lmul with
  | .m1 => .ok 1
  | .m2 => .ok 2
  | .m4 => .ok 4
  | .m8 => .ok 8
  | _ => .error "fractional LMUL is not supported yet"

/-- The words of a vector register. -/
def vectorWords (c : Rv64AtomicCore) (index : ℕ) : List UInt64 :=
  List.ofFn (c.vectorRegisters (Fin.ofNat 32 index))

def readVectorGroup (c : Rv64AtomicCore) (base : Fin 32) : Except String (List UInt64) := do
  let count ← c.vectorGroupRegisters
  require (!(!(base.val % count == 0) || decide (32 < base.val + count)))
    "misaligned or overflowing vector register group"
  return (List.range count).flatMap fun reg ↦ c.vectorWords (base.val + reg)

def writeVectorGroup (c : Rv64AtomicCore) (base : Fin 32) (words : List UInt64) :
    Except String Rv64AtomicCore := do
  let count ← c.vectorGroupRegisters
  require (!(!(base.val % count == 0) || decide (32 < base.val + count) ||
      decide (words.length < count * 4))) "invalid vector destination register group"
  return { c with vectorRegisters := fun reg ↦
    if base.val ≤ reg.val ∧ reg.val < base.val + count then
      fun w ↦ words.getD ((reg.val - base.val) * 4 + w.val) 0
    else c.vectorRegisters reg }

def vectorOperand (c : Rv64AtomicCore) (type : RegType) (index : Fin 32) :
    Except String (List UInt64) :=
  match type with
  | .none => .ok [0]
  | .gpreg => .ok [c.x index]
  | .vreg => c.readVectorGroup index
  | .freg => .error "floating-point vector operands are not supported yet"

/-- The mask is the contents of register 0. -/
def loadMask (c : Rv64AtomicCore) : Rv64AtomicCore :=
  { c with vectorContext := { c.vectorContext with vmask := wordBytes (c.vectorWords 0) } }

/-- `is_vector_config_instruction`. -/
def isVectorConfigInstruction (name : InstName) : Bool :=
  name == .vsetvli || name == .vsetivli || name == .vsetvl

/-- `is_supported_vector_integer_instruction`. -/
def isSupportedVectorIntegerInstruction (name : InstName) : Bool :=
  [.vaddVv, .vsubVv, .vminuVv, .vminVv, .vmaxuVv, .vmaxVv, .vandVv, .vorVv, .vxorVv,
    .vaddVx, .vsubVx, .vrsubVx, .vminuVx, .vminVx, .vmaxuVx, .vmaxVx, .vandVx, .vorVx, .vxorVx,
    .vaddVi, .vrsubVi, .vandVi, .vorVi, .vxorVi, .vmvVV, .vmvVI, .vmvXS, .vmvSX].contains name

/-- `static_cast<RVVSEW>` of a number up to 3. -/
def sewOf (n : UInt64) : RVVSEW :=
  if n = 0 then .e8 else if n = 1 then .e16 else if n = 2 then .e32 else .e64

/-- `static_cast<RVVLMUL>` of a number up to 3. -/
def lmulOf (n : UInt64) : RVVLMUL :=
  if n = 0 then .m1 else if n = 1 then .m2 else if n = 2 then .m4 else .m8

/-- The vector length that a configuration instruction asks for. -/
def applicationVectorLength (c : Rv64AtomicCore) : UInt64 :=
  let inst := c.instruction.decoded
  if inst.instName = .vsetivli then UInt64.ofNat inst.rs1
  else if inst.rs1 ≠ 0 then c.x inst.rs1
  else if inst.rd ≠ 0 then UInt64.ofNat (2 ^ 64 - 1)
  else UInt64.ofNat c.vectorContext.vl.toNat

/-- The vector state after a request for `vtype` and a vector length. -/
def configureVector (c : Rv64AtomicCore) (requested avl : UInt64) : Rv64AtomicCore :=
  let vlmul := requested &&& 7
  let vsew := (requested >>> 3) &&& 7
  let vctx := { c.vectorContext with vstart := 0 }
  if requested &&& ~~~(0xff : UInt64) ≠ 0 ∨ 3 < vlmul ∨ 3 < vsew then
    { c with vtype := vectorIllegal, vectorContext := { vctx with vl := 0 } }
  else
    let vlmax := UInt64.ofNat (getMaxVectorLength (sewOf vsew) (lmulOf vlmul))
    { c with
      vtype := requested &&& 0xff
      vectorContext := { vctx with
        sew := sewOf vsew
        lmul := lmulOf vlmul
        vl := (min avl vlmax).toUInt32 } }

def executeVectorConfig (c : Rv64AtomicCore) : Rv64AtomicCore :=
  let inst := c.instruction.decoded
  let requested := if inst.instName = .vsetvl then c.x inst.rs2 else inst.imm.toUInt64
  let c := c.configureVector requested c.applicationVectorLength
  let c := c.writeReg inst.rd (UInt64.ofNat c.vectorContext.vl.toNat)
  { c with stats := { c.stats with
    vectorConfigInstructions := c.stats.vectorConfigInstructions + 1 } }.commit

/-- The destination operand of a vector instruction. -/
def vectorDestination (c : Rv64AtomicCore) (inst : DecodedInst) : Except String (List UInt64) :=
  if inst.rdType = .gpreg then .ok [c.x inst.rd]
  else if inst.rdType = .vreg then c.readVectorGroup inst.rd
  else .error "unsupported vector destination register type"

/-- The result of a vector instruction goes to its destination. -/
def writeVectorResult (c : Rv64AtomicCore) (inst : DecodedInst) (words : List UInt64) : Attempt :=
  if inst.rdType = .gpreg then
    match words with
    | [] =>
      .error ("vector::_M_range_check: __n (which is 0) >= this->size() (which is 0)", c)
    | word :: _ => .ok (c.writeReg inst.rd word)
  else onThrow c (c.writeVectorGroup inst.rd words)

def executeVectorAlu (k : Rv64Hart) (c : Rv64AtomicCore) : Attempt := do
  let inst := c.instruction.decoded
  onThrow c (require (c.vtype &&& vectorIllegal == 0)
    "vector instruction executed while vtype.vill is set")
  onThrow c (require (isSupportedVectorIntegerInstruction inst.instName)
    "vector instruction is outside the stage-1 integer subset")
  let c := c.loadMask
  let source1 ← onThrow c (c.vectorOperand inst.rs1Type inst.rs1)
  let source2 ← onThrow c (c.vectorOperand inst.rs2Type inst.rs2)
  let destination ← onThrow c (c.vectorDestination inst)
  match k.arch.execOpv inst c.vectorContext destination source1 source2 c.fcsr with
  | .error result => throw (s!"vector execution failed with result {result.code}", c)
  | .ok result =>
    let vctx := { c.vectorContext with
      vstart := 0
      vcsr := if result.vxsat then c.vectorContext.vcsr ||| 1 else c.vectorContext.vcsr }
    let c ← writeVectorResult { c with vectorContext := vctx, fcsr := result.fcsr } inst result.vd
    return { c with stats := { c.stats with
      vectorAluInstructions := c.stats.vectorAluInstructions + 1 } }.commit

/-! ## Memory requests -/

def prepareLoad (k : Rv64Hart) (c : Rv64AtomicCore) : Attempt :=
  let inst := c.instruction.decoded
  match parseLoadScalar inst (c.x inst.rs1) with
  | .ok [descriptor] =>
    .ok { c with
      memoryRequest := some {
        op := MemoryOp.read
        hartId := k.hartId
        transactionId := c.nextTransactionId
        address := descriptor.addr
        size := descriptor.size }
      nextTransactionId := c.nextTransactionId + 1
      loadRd := inst.rd
      loadExtension := inst.rdExt
      state := .memoryIssue
      stats := { c.stats with loads := c.stats.loads + 1 } }
  | _ => .error ("scalar load descriptor generation failed", c)

def prepareStore (k : Rv64Hart) (c : Rv64AtomicCore) : Attempt :=
  let inst := c.instruction.decoded
  match parseStoreScalar inst (c.x inst.rs1) (c.x inst.rs2) with
  | .ok [descriptor] =>
    .ok { c with
      memoryRequest := some {
        op := MemoryOp.write
        hartId := k.hartId
        transactionId := c.nextTransactionId
        address := descriptor.addr
        size := UInt16.ofNat descriptor.rawData.length
        data := descriptor.rawData }
      nextTransactionId := c.nextTransactionId + 1
      state := .memoryIssue
      stats := { c.stats with stores := c.stats.stores + 1 } }
  | _ => .error ("scalar store descriptor generation failed", c)

/-- `normalize_unit_stride_loads`. -/
def normalizeUnitStrideLoads (base : UInt64) (descriptors : List MemLoadDescriptor) :
    List MemLoadDescriptor :=
  mergeAll MemLoadDescriptor.merges MemLoadDescriptor.join
    (descriptors.map fun d ↦ { d with addr := base + UInt64.ofNat d.regOffset.toNat })

/-- Each descriptor's address is the base plus the bytes before it. -/
def placeStores (base : UInt64) : ℕ → List MemStoreDescriptor → List MemStoreDescriptor
  | _, [] => []
  | offset, d :: rest =>
    { d with addr := base + UInt64.ofNat offset } ::
      placeStores base (offset + d.rawData.length) rest

/-- `normalize_unit_stride_stores`. -/
def normalizeUnitStrideStores (base : UInt64) (descriptors : List MemStoreDescriptor) :
    List MemStoreDescriptor :=
  mergeAll MemStoreDescriptor.merges MemStoreDescriptor.join (placeStores base 0 descriptors)

/-- `configured_vector_element_bytes`. -/
def configuredVectorElementBytes (vctx : VecContext) : ℕ := vctx.sew.bytes

/-- `vector_memory_element_bytes`. -/
def vectorMemoryElementBytes (inst : DecodedInst) : Except String ℕ :=
  match inst.funct3.toNat with
  | 0 => .ok 1
  | 5 => .ok 2
  | 6 => .ok 4
  | 7 => .ok 8
  | _ => .error "unsupported vector memory element width"

/-- The request for the next descriptor of a vector access. The transaction id is used up first. -/
def stageNextVectorRequest (k : Rv64Hart) (c : Rv64AtomicCore) : Attempt :=
  let id := c.nextTransactionId
  let c := { c with nextTransactionId := c.nextTransactionId + 1 }
  let stage (c : Rv64AtomicCore) (request : MemoryRequest) : Rv64AtomicCore :=
    { c with
      memoryRequest := some request
      stats := { c.stats with
        vectorMemoryTransactions := c.stats.vectorMemoryTransactions + 1 }
      vectorIssueLeft := k.latency.vectorTransactionIssue - 1
      state := .memoryIssue }
  if c.vectorMemoryIsLoad then
    match c.vectorLoadDescriptors with
    | [] => .error ("missing vector load descriptor", c)
    | d :: rest =>
      .ok (stage { c with activeVectorLoad := some d, vectorLoadDescriptors := rest }
        { op := MemoryOp.read, hartId := k.hartId, transactionId := id, address := d.addr
          size := d.size })
  else
    match c.vectorStoreDescriptors with
    | [] => .error ("missing vector store descriptor", c)
    | d :: rest =>
      .ok (stage { c with vectorStoreDescriptors := rest }
        { op := MemoryOp.write, hartId := k.hartId, transactionId := id, address := d.addr
          size := UInt16.ofNat d.rawData.length, data := d.rawData })

/-- The instruction is not masked and has one field. -/
def isPlainVectorAccess (inst : DecodedInst) : Bool :=
  !(inst.funct7 &&& 1 == 0 || !((inst.funct7 >>> 4) &&& 7 == 0))

def prepareVectorLoad (k : Rv64Hart) (c : Rv64AtomicCore) : Attempt := do
  let inst := c.instruction.decoded
  onThrow c (require (inst.instName == .vleXV)
    "only unit-stride vle is supported in vector memory stage 1")
  onThrow c (require (isPlainVectorAccess inst)
    "masked or segmented vector loads are not supported yet")
  let width ← onThrow c (vectorMemoryElementBytes inst)
  onThrow c (require (width == configuredVectorElementBytes c.vectorContext)
    "vector load EEW must equal the configured SEW")
  let c := c.loadMask
  let operand ← onThrow c (c.vectorOperand inst.rs2Type inst.rs2)
  match parseLoadVector inst c.vectorContext (c.x inst.rs1) operand with
  | .error result =>
    throw (s!"vector load descriptor generation failed with result {result.code}", c)
  | .ok (vctx, descriptors) =>
    let c := { c with
      vectorContext := vctx
      vectorMemoryActive := true
      vectorMemoryIsLoad := true
      vectorMemoryRegister := inst.rd }
    let buffer ← onThrow c (c.readVectorGroup inst.rd)
    let c := { c with
      vectorLoadBuffer := buffer
      vectorLoadDescriptors := normalizeUnitStrideLoads (c.x inst.rs1) descriptors
      stats := { c.stats with vectorLoadInstructions := c.stats.vectorLoadInstructions + 1 } }
    if c.vectorLoadDescriptors.isEmpty then return { c with vectorMemoryActive := false }.commit
    stageNextVectorRequest k c

def prepareVectorStore (k : Rv64Hart) (c : Rv64AtomicCore) : Attempt := do
  let inst := c.instruction.decoded
  onThrow c (require (inst.instName == .vseXV)
    "only unit-stride vse is supported in vector memory stage 1")
  onThrow c (require (isPlainVectorAccess inst)
    "masked or segmented vector stores are not supported yet")
  let width ← onThrow c (vectorMemoryElementBytes inst)
  onThrow c (require (width == configuredVectorElementBytes c.vectorContext)
    "vector store EEW must equal the configured SEW")
  let c := c.loadMask
  let operand ← onThrow c (c.vectorOperand inst.rs2Type inst.rs2)
  let data ← onThrow c (c.readVectorGroup inst.rs3)
  match parseStoreVector inst c.vectorContext (c.x inst.rs1) operand data with
  | .error result =>
    throw (s!"vector store descriptor generation failed with result {result.code}", c)
  | .ok (vctx, descriptors) =>
    let c := { c with
      vectorContext := vctx
      vectorMemoryActive := true
      vectorMemoryIsLoad := false
      vectorMemoryRegister := inst.rs3
      vectorStoreDescriptors := normalizeUnitStrideStores (c.x inst.rs1) descriptors
      stats := { c.stats with vectorStoreInstructions := c.stats.vectorStoreInstructions + 1 } }
    if c.vectorStoreDescriptors.isEmpty then return { c with vectorMemoryActive := false }.commit
    stageNextVectorRequest k c

/-! ## Execution -/

def isFence (type : ControlType) : Bool := type == .fence || type == .fencei || type == .fenceTso

def countSerializationWait (c : Rv64AtomicCore) : Rv64AtomicCore :=
  { c with stats := { c.stats with
    adapterSerializationWaitCycles := c.stats.adapterSerializationWaitCycles + 1 } }

/-- The instructions without memory access or change of control, other than vector ones. -/
def executeInteger (k : Rv64Hart) (c : Rv64AtomicCore) : Attempt :=
  let inst := c.instruction.decoded
  let result (value : UInt64) : Attempt := .ok (c.writeReg inst.rd value).commit
  match inst.opcode with
  | .lui => result inst.imm.toUInt64
  | .auipc => result (c.instruction.pc + inst.imm.toUInt64)
  | .opimm => result (k.arch.execOpimm inst (c.x inst.rs1))
  | .opimm32 => result (k.arch.execOpimm32 inst (c.x inst.rs1))
  | .op => result (k.arch.execOp inst (c.x inst.rs1) (c.x inst.rs2))
  | .op32 => result (k.arch.execOp32 inst (c.x inst.rs1) (c.x inst.rs2))
  | _ => .error ("non-integer opcode is not supported in this stage", c)

/-- The instruction after this one is at `target`. -/
def setNextPc (c : Rv64AtomicCore) (target : UInt64) : Rv64AtomicCore :=
  { c with pending := some { c.instruction with nextPc := target } }

/-- The `try` block of `execute_ready_instruction`. -/
def execute (k : Rv64Hart) (c : Rv64AtomicCore) : Attempt :=
  let pending := c.instruction
  let inst := pending.decoded
  match inst.controlType with
  | .none =>
    if inst.opcode = .opv then
      if isVectorConfigInstruction inst.instName then .ok c.executeVectorConfig
      else executeVectorAlu k c
    else executeInteger k c
  | .branch =>
    match k.arch.execBranch inst (c.x inst.rs1) (c.x inst.rs2) pending.pc with
    | some target => .ok (c.setNextPc target).commit
    | none => .ok c.commit
  | .directJump | .call =>
    .ok ((c.writeReg inst.rd pending.nextPc).setNextPc (pending.pc + inst.imm.toUInt64)).commit
  | .indirectJump | .ret =>
    -- the target is computed after the link register has been written
    let c := c.writeReg inst.rd pending.nextPc
    .ok (c.setNextPc ((c.x inst.rs1 + inst.imm.toUInt64) &&& ~~~(1 : UInt64))).commit
  | .load => prepareLoad k c
  | .store => prepareStore k c
  | .vload => prepareVectorLoad k c
  | .vstore => prepareVectorStore k c
  | .csr => do
    let c ← executeCsr k c
    return c.commit
  | .fence | .fencei | .fenceTso =>
    if c.mmio.busy then .ok c.countSerializationWait else .ok c.commit
  | .ecall => .ok (c.stop (c.x 10).toUInt32.toInt32 "ecall")
  | .ebreak => .ok (c.stop 0 "ebreak")
  | .amo => .error ("AMO is not supported in this stage", c)
  | _ => .error ("privileged or unsupported control instruction", c)

def executeReadyInstruction (k : Rv64Hart) (c : Rv64AtomicCore) : Rv64AtomicCore :=
  recover (execute k c)

/-- `hex_value`. -/
def hexValue (value : UInt64) : String := "0x" ++ String.ofList (Nat.toDigits 16 value.toNat)

/-- The `try` block of `fetch_decode`. -/
def fetch (k : Rv64Hart) (c : Rv64AtomicCore) : Attempt := do
  let low ← onThrow c (k.program.fetch16 c.pc)
  if low &&& 3 ≠ 3 then
    return c.fault ("compressed instructions are not supported in this stage at " ++ hexValue c.pc)
  let raw ← onThrow c (k.program.fetch32 c.pc)
  match k.arch.decode raw with
  | none =>
    return c.fault ("decode failed at " ++ hexValue c.pc ++ " instruction " ++
      hexValue (UInt64.ofNat raw.toNat))
  | some decoded =>
    let pending : PendingInstruction := ⟨decoded, raw, c.pc, c.pc + 4⟩
    let c := { c with
      pending := some pending
      trace := { c.trace with fetched := c.trace.fetched ++ [(pending, c.vectorContext.vl)] } }
    let cycles ← onThrow c
      (instructionLatency k.arch decoded k.latency c.vectorContext.vl.toNat)
    return { c with cyclesLeft := cycles, state := .executeWait }

def fetchDecode (k : Rv64Hart) (c : Rv64AtomicCore) : Rv64AtomicCore :=
  recover (fetch k
    { c with stats := { c.stats with fetchDecodeCycles := c.stats.fetchDecodeCycles + 1 } })

def countExecuteWait (c : Rv64AtomicCore) : Rv64AtomicCore :=
  if 0 < c.cyclesLeft then
    { c with
      cyclesLeft := c.cyclesLeft - 1
      stats := { c.stats with executeWaitCycles := c.stats.executeWaitCycles + 1 } }
  else c

/-- A fence waits for the adapter before its own delay starts. -/
def advanceExecute (k : Rv64Hart) (c : Rv64AtomicCore) : Rv64AtomicCore :=
  if isFence c.instruction.decoded.controlType && c.mmio.busy then c.countSerializationWait
  else
    let c := c.countExecuteWait
    if c.cyclesLeft = 0 then executeReadyInstruction k c else c

/-! ## Responses -/

/-- `memcpy` of bytes into 64-bit words. -/
def copyBytes (words : List UInt64) (offset : ℕ) (data : Bytes) : List UInt64 :=
  let bytes := wordBytes words
  let bytes := bytes.take offset ++ data ++ bytes.drop (offset + data.length)
  (List.range words.length).map fun i ↦
    UInt64.ofNat (leValue ((bytes.drop (8 * i)).take 8))

/-- The data of a vector load goes into the buffer. -/
def takeVectorData (c : Rv64AtomicCore) (data : Bytes) : Attempt := do
  match c.activeVectorLoad with
  | none => throw ("invalid vector load response", c)
  | some d =>
    onThrow c (require (data.length == d.size.toNat) "invalid vector load response")
    onThrow c (require (decide (d.regOffset.toNat + data.length ≤ c.vectorLoadBuffer.length * 8))
      "vector load response exceeds destination group")
    return { c with
      vectorLoadBuffer := copyBytes c.vectorLoadBuffer d.regOffset.toNat data
      activeVectorLoad := none }

/-- Requests of the vector access are left. -/
def moreVectorRequests (c : Rv64AtomicCore) : Bool :=
  (c.vectorMemoryIsLoad && !c.vectorLoadDescriptors.isEmpty) ||
    (!c.vectorMemoryIsLoad && !c.vectorStoreDescriptors.isEmpty)

def finishVectorMemoryResponse (k : Rv64Hart) (c : Rv64AtomicCore) (response : MemoryResponse) :
    Attempt := do
  let c ← if c.vectorMemoryIsLoad then c.takeVectorData response.data else .ok c
  let c := { c with memoryRequest := none }
  if c.moreVectorRequests then stageNextVectorRequest k c
  else
    let c ← if c.vectorMemoryIsLoad then
        onThrow c (c.writeVectorGroup c.vectorMemoryRegister c.vectorLoadBuffer)
      else .ok c
    return { c with vectorLoadBuffer := [], vectorMemoryActive := false }.commit

/-- `handle_tohost_write`: the core after the write, if it is one to the host with a meaning. -/
def handleTohostWrite (k : Rv64Hart) (c : Rv64AtomicCore) (request : MemoryRequest) :
    Except (String × Rv64AtomicCore) (Option Rv64AtomicCore) := do
  if k.tohostAddress ≠ some request.address ∨ request.op ≠ MemoryOp.write then return none
  onThrow c (require (!(request.data.isEmpty || decide (8 < request.data.length)))
    "tohost write must contain 1 to 8 bytes")
  let value := UInt64.ofNat (leValue request.data)
  if value = 0 ∨ value &&& 1 = 0 then return none
  let testNumber := value >>> 1
  if testNumber = 0 then return some (c.commit.stop 0 "tohost pass")
  return some (c.commit.stop (min testNumber 124).toUInt32.toInt32
    s!"tohost failure {testNumber.toNat}")

/-- `sign_extend`. -/
def signExtend (value : UInt64) (bits : ℕ) : UInt64 :=
  let shift := UInt64.ofNat (64 - bits)
  ((value <<< shift).toInt64 >>> shift.toInt64).toUInt64

def extend (extension : RDExtType) (value : UInt64) : UInt64 :=
  match extension with
  | .sign8 => signExtend value 8
  | .sign16 => signExtend value 16
  | .sign32 => signExtend value 32
  | .zero => value

/-- The data of a scalar load goes to its register. -/
def takeScalarData (c : Rv64AtomicCore) (request : MemoryRequest) (data : Bytes) : Attempt := do
  onThrow c (require (!(!(data.length == request.size.toNat) || decide (8 < data.length)))
    "invalid scalar load response size")
  return c.writeReg c.loadRd (extend c.loadExtension (UInt64.ofNat (leValue data)))

def recordLatency (c : Rv64AtomicCore) : Rv64AtomicCore :=
  match c.requestStarted with
  | none => c
  | some started =>
    { c with
      stats := { c.stats with
        requestLatency := c.stats.requestLatency.add (c.stats.ticks - started) }
      requestStarted := none }

/-- The `try` block of `receive_memory_response`. -/
def takeResponse (k : Rv64Hart) (c : Rv64AtomicCore) (bytes : Bytes) : Attempt := do
  let response ← onThrow c (decodeResponse bytes)
  match c.memoryRequest with
  | none => throw ("unexpected memory response", c)
  | some request =>
    onThrow c (require (response.hartId == k.hartId &&
      response.transactionId == request.transactionId) "unexpected memory response")
    onThrow c (require (response.status == MemoryStatus.ok) "memory request failed")
    let c := { c.recordLatency with
      trace := { c.trace with answered := c.trace.answered ++ [(request, response)] } }
    if c.vectorMemoryActive then finishVectorMemoryResponse k c response
    else
      let c ← if request.op = MemoryOp.read then c.takeScalarData request response.data else .ok c
      let c := { c with memoryRequest := none }
      match ← handleTohostWrite k c request with
      | some c => return c
      | none => return c.commit

/-- The end of `takeResponse`, once the write to the host has been looked at. -/
def afterHost (c : Rv64AtomicCore) : Option Rv64AtomicCore → Attempt
  | some c' => return c'
  | none => return c.commit

/-! ## The bus -/

/-- The request reaches into the control window of the adapter. -/
def touchesWindow (request : MemoryRequest) : Bool :=
  decide (request.address < MmioBusAdapter.base + MmioBusAdapter.span) &&
    (decide (MmioBusAdapter.base ≤ request.address) ||
      decide (MmioBusAdapter.base - request.address < UInt64.ofNat request.size.toNat))

def countWindowAccess (c : Rv64AtomicCore) : Rv64AtomicCore :=
  { c with trace := { c.trace with windowAccesses := c.trace.windowAccesses + 1 } }

/-- The `try` block of `issue_memory_request`: an access to the control window. -/
def accessWindow (k : Rv64Hart) (c : Rv64AtomicCore) : Attempt := do
  let request := c.request
  onThrow c (require (!c.vectorMemoryActive) "vector MMIO is unsupported")
  if request.op = MemoryOp.read then
    let value ← onThrow c (c.mmio.read request.address request.size)
    return { (c.writeReg c.loadRd value).countWindowAccess with memoryRequest := none }.commit
  else
    let value := UInt64.ofNat (leValue request.data)
    let mmio ← onThrow c (c.mmio.write k.hartId request.address request.size value)
    return { (c.setMmio k mmio).countWindowAccess with memoryRequest := none }.commit

def countVectorIssueWait (c : Rv64AtomicCore) : Rv64AtomicCore :=
  { c with
    vectorIssueLeft := c.vectorIssueLeft - 1
    stats := { c.stats with vectorIssueWaitCycles := c.stats.vectorIssueWaitCycles + 1 } }

def startRequest (c : Rv64AtomicCore) : Rv64AtomicCore :=
  if c.requestStarted.isNone then { c with requestStarted := some c.stats.ticks } else c

def countBlocked (c : Rv64AtomicCore) : Rv64AtomicCore :=
  { c with stats := { c.stats with injectionBlockedCycles := c.stats.injectionBlockedCycles + 1 } }

def countMemoryWait (c : Rv64AtomicCore) : Rv64AtomicCore :=
  { c with stats := { c.stats with memoryWaitCycles := c.stats.memoryWaitCycles + 1 } }

variable {σ : Type} (bus : IBus σ) (k : Rv64Hart) (port memoryPort : BusPortT)

def issueMemoryRequest (c : Rv64AtomicCore) (s : σ) : Except String (Rv64AtomicCore × σ) := do
  if 0 < c.vectorIssueLeft then return (c.countVectorIssueWait, s)
  if touchesWindow c.request then return (recover (accessWindow k c), s)
  if c.mmio.busy then return (c.countSerializationWait, s)
  let c := c.startRequest
  if !(← bus.canSend s port requestChannel) then return (c.countBlocked, s)
  match ← bus.send s port memoryPort requestChannel (← encodeRequest c.request) with
  | (false, s) => return (c.countBlocked, s)
  | (true, s) => return ({ c with
      state := .memoryWait
      trace := { c.trace with
        transactions := c.trace.transactions ++ [c.request]
        sent := c.trace.sent + 1 } }, s)

def receiveMemoryResponse (c : Rv64AtomicCore) (s : σ) : Except String (Rv64AtomicCore × σ) := do
  if !(← bus.canRecv s port responseChannel) then return (c.countMemoryWait, s)
  match ← bus.recv s port responseChannel with
  | (none, s) => return (c.countMemoryWait, s)
  | (some bytes, s) => return (recover (takeResponse k c bytes), s)

/-- A tick has changed the adapter. -/
def advanceMmio (c : Rv64AtomicCore) (mmio : MmioBusAdapter) : Rv64AtomicCore :=
  let done := mmio.finished.drop c.mmio.finished.length
  { c with
    mmio := mmio
    trace := { c.trace with
      adapterAnswers := c.trace.adapterAnswers ++ done.map fun q ↦ (q, mmio.readData) } }

/-- The adapter's part of a tick. -/
def tickMmio (c : Rv64AtomicCore) (s : σ) : Rv64AtomicCore × σ :=
  match c.mmio.tryTick bus k.hartId port memoryPort s with
  | (none, mmio, s) => (c.advanceMmio mmio, s)
  | (some reason, mmio, s) => ((c.advanceMmio mmio).fault reason, s)

def countTick (c : Rv64AtomicCore) : Rv64AtomicCore :=
  { c with stats := { c.stats with ticks := c.stats.ticks + 1 } }

/-- The core's own part of a tick. -/
def tickCore (c : Rv64AtomicCore) (s : σ) : Except String (Rv64AtomicCore × σ) :=
  if c.finished then .ok (c, s)
  else
    let c := c.countTick
    match c.state with
    | .fetchDecode => .ok (fetchDecode k c, s)
    | .executeWait => .ok (advanceExecute k c, s)
    | .memoryIssue => issueMemoryRequest bus k port memoryPort c s
    | .memoryWait => receiveMemoryResponse bus k port c s
    | .halted | .faulted => .ok (c, s)

def tick (c : Rv64AtomicCore) (s : σ) : Except String (Rv64AtomicCore × σ) :=
  let (c, s) := tickMmio bus k port memoryPort c s
  tickCore bus k port memoryPort c s

end Rv64AtomicCore

end Manycore
