import SimbusNoc.Manycore.SharedBus

/-!
# The MMIO bus adapter

`mmio_bus_adapter.cpp`: a window of registers through which a hart commands bus transactions. With
depth 1 there is one transaction at a time, and all registers are closed while it runs. With a
greater depth commands queue up, and results wait in a FIFO until they are popped.

## Registers

`read` and `write` are the accesses, `offset` the register that an address means. A write to the
command register is split as the source reads: `acceptable` are the checks, `accept` is what
happens when all of them have passed, and `startCommand` is what happens before them, since a
command in a free slot clears the data register whether or not it is accepted afterwards. `reject`
is the common end of everything that is refused.

## A tick

A tick offers the oldest request that has not been taken to the bus, and then takes at most one
response. `complete` finds the request that a response answers by its transaction id.

## Ghost fields

`MmioBusAdapter.issued` and `MmioBusAdapter.finished` are ghost: the accepted commands with the
registers as they were, and the requests whose response has come, oldest first.
-/

namespace Manycore

open Simbus

/-! ## The state -/

structure MmioEntry where
  request : MemoryRequest
  sent : Bool := false
  created : ℕ := 0
  deriving DecidableEq

structure MmioResult where
  id : UInt32
  data : UInt64
  error : Bool
  deriving DecidableEq

structure MmioStats where
  commands : ℕ := 0
  completed : ℕ := 0
  errors : ℕ := 0
  injectionWait : ℕ := 0
  responseWait : ℕ := 0
  latency : Distribution := {}

/-- Ghost: an accepted command, with the registers that it found. -/
structure MmioCommand where
  value : UInt64
  target : UInt64
  writeData : UInt64
  size : UInt64
  id : UInt32
  deriving DecidableEq

/-- The request of a command. -/
def MmioCommand.request (hart : UInt32) (c : MmioCommand) : MemoryRequest where
  op := if c.value = 1 then MemoryOp.read else MemoryOp.write
  hartId := hart
  transactionId := c.id
  address := c.target
  data := if c.value = 1 then [] else appendLe c.size.toNat c.writeData.toNat
  size := UInt16.ofNat c.size.toNat

structure MmioBusAdapter where
  target : UInt64 := 0
  writeData : UInt64 := 0
  size : UInt64 := 8
  readData : UInt64 := 0
  status : UInt64 := 0
  requests : List MmioEntry := []
  results : List MmioResult := []
  depth : UInt32 := 1
  nextId : UInt32 := 0
  clock : ℕ := 0
  stats : MmioStats := {}
  /-- Ghost. -/
  issued : List MmioCommand := []
  /-- Ghost. -/
  finished : List MemoryRequest := []

namespace MmioBusAdapter

def base : UInt64 := 0x90000000
def span : UInt64 := 0x100
def busyBit : UInt64 := 1
def doneBit : UInt64 := 2
def errorBit : UInt64 := 4

def contains (address : UInt64) : Bool := decide (base ≤ address) && decide (address < base + span)

/-! ## Register accesses -/

def offset (address : UInt64) (size : UInt16) : Except String UInt64 := do
  require (!(!contains address || !(size == 8) || !(address % 8 == 0)))
    "MMIO requires aligned 64-bit register accesses"
  return address - base

def reject (a : MmioBusAdapter) : MmioBusAdapter :=
  { a with
    status := a.status ||| errorBit
    stats := { a.stats with errors := a.stats.errors + 1 } }

def busy (a : MmioBusAdapter) : Bool := !a.requests.isEmpty

/-- `set_depth`. -/
def setDepth (a : MmioBusAdapter) (n : UInt32) : Except String MmioBusAdapter := do
  require (!(n == 0 || a.busy)) "invalid MMIO depth"
  return { a with depth := n }

def read (a : MmioBusAdapter) (address : UInt64) (size : UInt16) : Except String UInt64 := do
  let reg ← offset address size
  if reg = 0x00 then return a.target
  if reg = 0x08 then return a.writeData
  if reg = 0x10 then return a.size
  if reg = 0x18 then return 0
  if reg = 0x20 then return a.status &&& ~~~busyBit ||| if a.busy then busyBit else 0
  if reg = 0x28 then
    return match a.results with
      | [] => a.readData
      | result :: _ => result.data
  if reg = 0x30 then return UInt64.ofNat a.depth.toNat
  if reg = 0x38 then return UInt64.ofNat a.requests.length
  if reg = 0x40 then
    return match a.results with
      | [] => 0
      | result :: _ => UInt64.ofNat result.id.toNat
  if reg = 0x50 then
    return match a.results with
      | [] => 0
      | result :: _ => if result.error then errorBit else doneBit
  throw "unknown MMIO register"

/-! ## Commands -/

/-- The command, the size and the target are ones that the bus can carry out. -/
def acceptable (a : MmioBusAdapter) (value : UInt64) : Bool :=
  !((!(value == 1) && !(value == 2)) ||
    (!(a.size == 1) && !(a.size == 2) && !(a.size == 4) && !(a.size == 8)) ||
    decide (UInt64.ofNat (2 ^ 64 - 1) - (a.size - 1) < a.target) ||
    (decide (a.target < base + span) && decide (base < a.target + a.size)))

/-- The transaction id of the next command. -/
def commandId (a : MmioBusAdapter) : UInt32 := if a.depth = 1 then 0 else 0x80000000 ||| a.nextId

/-- A command has passed all checks. -/
def accept (hart : UInt32) (a : MmioBusAdapter) (value : UInt64) : MmioBusAdapter :=
  let command : MmioCommand :=
    { value := value, target := a.target, writeData := a.writeData, size := a.size
      id := a.commandId }
  { a with
    nextId := if a.depth = 1 then a.nextId else a.nextId + 1
    requests := a.requests ++ [{ request := command.request hart, created := a.clock }]
    status := a.status ||| busyBit
    stats := { a.stats with commands := a.stats.commands + 1 }
    issued := a.issued ++ [command] }

/-- The slots in use, which the depth limits. -/
def occupied (a : MmioBusAdapter) : ℕ :=
  a.requests.length + if 1 < a.depth then a.results.length else 0

/-- A command in a free slot clears the data register, and with depth 1 the status. -/
def startCommand (a : MmioBusAdapter) : MmioBusAdapter :=
  { a with
    status := if a.depth = 1 then 0 else a.status &&& (doneBit ||| errorBit)
    readData := 0 }

/-- A write to the command register. -/
def command (hart : UInt32) (a : MmioBusAdapter) (value : UInt64) : MmioBusAdapter :=
  if a.depth.toNat ≤ a.occupied then a.reject
  else
    let a := a.startCommand
    if !a.acceptable value then a.reject
    else if 1 < a.depth ∧ a.nextId = 0x7fffffff then a.reject
    else accept hart a value

/-- A write to the pop register. -/
def pop (a : MmioBusAdapter) (value : UInt64) : MmioBusAdapter :=
  match a.results with
  | [] => a.reject
  | _ :: rest =>
    if value = 1 then
      { a with
        results := rest
        status := if rest.isEmpty then a.status &&& ~~~doneBit else a.status }
    else a.reject

def write (hart : UInt32) (a : MmioBusAdapter) (address : UInt64) (size : UInt16)
    (value : UInt64) : Except String MmioBusAdapter := do
  let reg ← offset address size
  if reg = 0x48 then return a.pop value
  if 0x28 < reg then throw "unknown/read-only MMIO register"
  if a.busy ∧ a.depth = 1 then return a.reject
  if reg = 0x00 then return { a with target := value }
  if reg = 0x08 then return { a with writeData := value }
  if reg = 0x10 then return { a with size := value }
  if reg = 0x20 then return { a with status := a.status &&& ~~~(value &&& (doneBit ||| errorBit)) }
  if reg = 0x28 then return a.reject
  if reg = 0x18 then return command hart a value
  throw "unknown MMIO register"

/-! ## A tick -/

/-- The oldest request that the bus has not taken. -/
def unsent (a : MmioBusAdapter) : Option MmioEntry := a.requests.find? fun e ↦ !e.sent

/-- The oldest request that the bus has not taken is marked as sent. -/
def markSent : List MmioEntry → List MmioEntry
  | [] => []
  | e :: rest => if e.sent then e :: markSent rest else { e with sent := true } :: rest

def countInjectionWait (a : MmioBusAdapter) : MmioBusAdapter :=
  { a with stats := { a.stats with injectionWait := a.stats.injectionWait + 1 } }

def countResponseWait (a : MmioBusAdapter) : MmioBusAdapter :=
  { a with stats := { a.stats with responseWait := a.stats.responseWait + 1 } }

/-- The request that a response with this id answers. -/
def answeredBy (id : UInt32) (e : MmioEntry) : Bool :=
  e.sent && e.request.transactionId == id

/-- The response is an error, or has not as much data as the request asks for. -/
def failed (e : MmioEntry) (response : MemoryResponse) : Bool :=
  let expected := if e.request.op = MemoryOp.read then e.request.size.toNat else 0
  !(response.status == MemoryStatus.ok) || !(response.data.length == expected)

/-- The data register after the response to `e`. -/
def takeData (a : MmioBusAdapter) (e : MmioEntry) (response : MemoryResponse) : MmioBusAdapter :=
  if failed e response then reject { a with readData := 0 }
  else
    { a with
      readData := UInt64.ofNat (leValue response.data)
      stats := { a.stats with completed := a.stats.completed + 1 } }

/-- The state after the response to `e`. -/
def complete (a : MmioBusAdapter) (e : MmioEntry) (response : MemoryResponse) : MmioBusAdapter :=
  let a := a.takeData e response
  let requests := a.requests.eraseP (answeredBy response.transactionId)
  { a with
    stats := { a.stats with latency := a.stats.latency.add (a.clock - e.created) }
    results := if 1 < a.depth then
        a.results ++ [⟨response.transactionId, a.readData, failed e response⟩]
      else a.results
    requests := requests
    status := a.status &&& errorBit ||| doneBit ||| if requests.isEmpty then 0 else busyBit
    finished := a.finished ++ [e.request] }

variable {σ : Type} (bus : BusInterfaceV2 σ) (hart : UInt32) (port memoryPort : BusPortT)

/-- The first half of a tick: one request is offered to the bus. -/
def sendUnsent (a : MmioBusAdapter) (s : σ) : Except String (MmioBusAdapter × σ) := do
  match a.unsent with
  | none => return (a, s)
  | some e =>
    if !(← bus.canSend s port requestChannel) then return (a.countInjectionWait, s)
    match ← bus.send s port memoryPort requestChannel (← encodeRequest e.request) with
    | (false, s) => return (a.countInjectionWait, s)
    | (true, s) => return ({ a with requests := markSent a.requests }, s)

/-- The second half of a tick: one response is taken from the bus. -/
def receive (a : MmioBusAdapter) (s : σ) : Except String (MmioBusAdapter × σ) := do
  if !a.busy then return (a, s)
  if !(← bus.canRecv s port responseChannel) then return (a.countResponseWait, s)
  match ← bus.recv s port responseChannel with
  | (none, s) => return (a.countResponseWait, s)
  | (some bytes, s) =>
    let response ← decodeResponse bytes
    match a.requests.find? (answeredBy response.transactionId) with
    | none => throw "unexpected MMIO bus response"
    | some e =>
      require (response.hartId == hart) "unexpected MMIO bus response"
      return (a.complete e response, s)

def tick (a : MmioBusAdapter) (s : σ) : Except String (MmioBusAdapter × σ) := do
  let (a, s) ← sendUnsent bus port memoryPort { a with clock := a.clock + 1 } s
  receive bus hart port a s

end MmioBusAdapter

end Manycore
