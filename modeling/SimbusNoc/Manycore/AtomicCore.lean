import SimbusNoc.Manycore.Memory

/-!
# The scripted core

`atomic_core.cpp`: a core that runs a list of script operations, one at a time, each memory access
a request on the bus that it waits out. `AtomicCore.reads` is ghost: every value stored into
`last_read_data`, oldest first.

An operation has its kind and all fields of the source, whatever the kind, and the four factories
are the only way to one that a program can hold (`ScriptOp.Built`): they check the sizes. The core
is a state machine with one step for each tick. In one tick it may begin an operation, work on it
and try to send its request, since each part goes on from the state in which the one before has
left the core; or it waits for the response, and takes it. The source reads the current operation
without a check where the state says that there is one; here a missing one counts as no
computation, and the account of a core shows that it is never missing.
-/

namespace Manycore

open Simbus

inductive ScriptOpKind
  | compute
  | read
  | write
  | halt
  deriving DecidableEq

structure ScriptOp where
  kind : ScriptOpKind := .compute
  latency : ℕ := 1
  address : UInt64 := 0
  size : UInt16 := 0
  data : Bytes := []
  deriving DecidableEq

namespace ScriptOp

def mkCompute (latency : ℕ) : Except String ScriptOp := do
  require (!(latency == 0)) "compute latency must be non-zero"
  return { kind := .compute, latency := latency }

def mkRead (address : UInt64) (size : UInt16) (issueLatency : ℕ := 1) : Except String ScriptOp := do
  require (!(size == 0 || issueLatency == 0)) "invalid read operation"
  return { kind := .read, latency := issueLatency, address := address, size := size }

def mkWrite (address : UInt64) (data : Bytes) (issueLatency : ℕ := 1) : Except String ScriptOp := do
  require (!(data.isEmpty || decide (65535 < data.length) || issueLatency == 0))
    "invalid write operation"
  return {
    kind := .write
    latency := issueLatency
    address := address
    size := UInt16.ofNat data.length
    data := data }

def mkHalt : ScriptOp := { kind := .halt }

/-- The operation comes from one of the four factories. -/
inductive Built : ScriptOp → Prop
  | compute {latency op} : mkCompute latency = .ok op → Built op
  | read {address size issueLatency op} : mkRead address size issueLatency = .ok op → Built op
  | write {address data issueLatency op} : mkWrite address data issueLatency = .ok op → Built op
  | halt : Built mkHalt

end ScriptOp

inductive CoreState
  | ready
  | executing
  | memoryIssue
  | memoryWait
  | halted
  deriving DecidableEq

structure CoreStats where
  ticks : ℕ := 0
  retiredOps : ℕ := 0
  computeCycles : ℕ := 0
  injectionBlockedCycles : ℕ := 0
  memoryWaitCycles : ℕ := 0
  sentRequests : ℕ := 0
  receivedResponses : ℕ := 0
  deriving DecidableEq

structure AtomicCore where
  program : List ScriptOp := []
  current : Option ScriptOp := none
  state : CoreState := .ready
  cyclesLeft : ℕ := 0
  nextTransactionId : UInt32 := 1
  waitingTransactionId : UInt32 := 0
  lastReadData : Bytes := []
  stats : CoreStats := {}
  /-- Ghost: every value stored into `lastReadData`. -/
  reads : List Bytes := []
  deriving DecidableEq

namespace AtomicCore

def halted (c : AtomicCore) : Bool := c.state == .halted

def loadProgram (c : AtomicCore) (program : List ScriptOp) : Except String AtomicCore := do
  require (c.state == .ready && c.current.isNone) "cannot replace a running core program"
  return { c with program := program }

def retireCurrent (c : AtomicCore) : AtomicCore :=
  { c with
    current := none
    waitingTransactionId := 0
    stats := { c.stats with retiredOps := c.stats.retiredOps + 1 }
    state := .ready }

variable {σ : Type} (bus : BusInterfaceV2 σ) (hartId : UInt32) (port memoryPort : BusPortT)

/-- The current operation is a read. -/
def currentIsRead (c : AtomicCore) : Bool :=
  match c.current with
  | some op => op.kind == .read
  | none => false

def receiveResponse (c : AtomicCore) (s : σ) : Except String (AtomicCore × σ) := do
  if !(← bus.canRecv s port responseChannel) then return (c, s)
  match ← bus.recv s port responseChannel with
  | (none, s) => return (c, s)
  | (some bytes, s) =>
    let response ← decodeResponse bytes
    require (response.hartId == hartId && response.transactionId == c.waitingTransactionId)
      "core received an unexpected memory response"
    require (response.status == MemoryStatus.ok) "memory controller rejected a request"
    let c := if c.currentIsRead then
        { c with lastReadData := response.data, reads := c.reads ++ [response.data] }
      else c
    let c := { c with stats := { c.stats with
      receivedResponses := c.stats.receivedResponses + 1 } }
    return (c.retireCurrent, s)

def beginNextOp (c : AtomicCore) : AtomicCore :=
  match c.program with
  | [] => { c with state := .halted }
  | op :: rest =>
    if op.kind = .halt then { c with program := rest, current := none, state := .halted }
    else
      { c with
        program := rest, current := some op, cyclesLeft := op.latency, state := .executing }

/-- The current operation is a computation. The source reads it unchecked; it is present whenever
the core is executing. -/
def currentIsCompute (c : AtomicCore) : Bool :=
  match c.current with
  | some op => op.kind == .compute
  | none => false

def advanceExecution (c : AtomicCore) : AtomicCore :=
  let c := if 0 < c.cyclesLeft then
      { c with
        cyclesLeft := c.cyclesLeft - 1
        stats := { c.stats with computeCycles := c.stats.computeCycles + 1 } }
    else c
  if c.cyclesLeft ≠ 0 then c
  else if c.currentIsCompute then c.retireCurrent
  else { c with state := .memoryIssue }

def countBlocked (c : AtomicCore) : AtomicCore :=
  { c with stats := { c.stats with
    injectionBlockedCycles := c.stats.injectionBlockedCycles + 1 } }

/-- The request of an operation. -/
def requestOf (hartId transactionId : UInt32) (op : ScriptOp) : MemoryRequest where
  op := if op.kind = .read then MemoryOp.read else MemoryOp.write
  hartId := hartId
  transactionId := transactionId
  address := op.address
  size := op.size
  data := op.data

def issueMemoryRequest (c : AtomicCore) (s : σ) : Except String (AtomicCore × σ) := do
  if !(← bus.canSend s port requestChannel) then return (c.countBlocked, s)
  let request := requestOf hartId c.nextTransactionId (c.current.getD {})
  let c := { c with nextTransactionId := c.nextTransactionId + 1 }
  match ← bus.send s port memoryPort requestChannel (← encodeRequest request) with
  | (false, s) => return (c.countBlocked, s)
  | (true, s) => return ({ c with
      waitingTransactionId := request.transactionId
      stats := { c.stats with sentRequests := c.stats.sentRequests + 1 }
      state := .memoryWait }, s)

def countTick (c : AtomicCore) : AtomicCore :=
  { c with stats := { c.stats with ticks := c.stats.ticks + 1 } }

def countMemoryWait (c : AtomicCore) : AtomicCore :=
  if c.state = .memoryWait then
    { c with stats := { c.stats with memoryWaitCycles := c.stats.memoryWaitCycles + 1 } }
  else c

def tick (c : AtomicCore) (s : σ) : Except String (AtomicCore × σ) := do
  if c.state = .halted then return (c, s)
  let c := c.countTick
  if c.state = .memoryWait then
    let (c, s) ← receiveResponse bus hartId port c s
    return (c.countMemoryWait, s)
  let c := if c.state = .ready then c.beginNextOp else c
  let c := if c.state = .executing then c.advanceExecution else c
  if c.state = .memoryIssue then issueMemoryRequest bus hartId port memoryPort c s
  else return (c, s)

end AtomicCore

end Manycore
