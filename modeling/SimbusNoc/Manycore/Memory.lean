import SimbusNoc.Manycore.Protocol

/-!
# Shared memory and its controller

`shared_memory.cpp` and `memory_controller.cpp`, the controller over any bus with the interface of
`simbus/businterface.h`.

## The memory

`SharedMemory` is the map of the source: the bytes that have been written, and nothing for the
others. `write` stores one byte after the other, and `read` looks up one byte after the other, with
addresses that wrap. A memory with a byte for each address, which is what a program sees, is in a
module of its own.

## The controller

A tick of the controller sends the response that it holds, or tries to; receives at most one
request; goes on with the request that it serves; and takes up the next one. The order of these
phases is the order of the source, and it matters for the counters. The bus is any record of the
calls that the controller makes (`BusInterfaceV2`), so the same controller runs on the network and
on the shared bus.

## Ghost fields

`MemoryController.completed` is ghost: the requests served so far, in the order of their service.
This is the order in which memory performs them, and every statement about what memory holds is one
about this list.
-/

namespace Manycore

open Simbus

/-! ## The bus interface -/

/-- `BusInterfaceV2`, the calls the cores and the controller make. -/
structure BusInterfaceV2 (σ : Type) where
  canSend : σ → BusPortT → ChannelT → Except String Bool
  send : σ → BusPortT → BusPortT → ChannelT → Bytes → Except String (Bool × σ)
  canRecv : σ → BusPortT → ChannelT → Except String Bool
  recv : σ → BusPortT → ChannelT → Except String (Option Bytes × σ)
  applyNextTick : σ → Except String σ

def requestChannel : ChannelT := 0
def responseChannel : ChannelT := 1

/-! ## Shared memory -/

/-- The bytes that have been written. -/
abbrev SharedMemory := UInt64 → Option UInt8

namespace SharedMemory

def empty : SharedMemory := fun _ ↦ none

/-- The bytes from `address` on, zero where nothing was written. Addresses wrap. -/
def read (m : SharedMemory) (address : UInt64) (size : ℕ) : Bytes :=
  (List.range size).map fun i ↦ (m (address + UInt64.ofNat i)).getD 0

def write : SharedMemory → UInt64 → Bytes → SharedMemory
  | m, _, [] => m
  | m, address, x :: rest => write (Function.update m address (some x)) (address + 1) rest

end SharedMemory

/-! ## The controller -/

structure MemoryControllerConfig where
  serviceLatency : ℕ := 8
  requestQueueCapacity : ℕ := 8
  deriving DecidableEq

structure MemoryControllerStats where
  receivedRequests : ℕ := 0
  completedRequests : ℕ := 0
  responseInjectionBlockedCycles : ℕ := 0
  queueFullCycles : ℕ := 0
  queuedRequestCycles : ℕ := 0
  serviceCycles : ℕ := 0
  maxQueueDepth : ℕ := 0
  deriving DecidableEq

structure WorkItem where
  request : MemoryRequest
  cyclesLeft : ℕ
  deriving DecidableEq

structure MemoryController where
  memory : SharedMemory := SharedMemory.empty
  queue : List MemoryRequest := []
  active : Option WorkItem := none
  response : Option MemoryResponse := none
  stats : MemoryControllerStats := {}
  /-- Ghost: the requests served, oldest first. -/
  completed : List MemoryRequest := []

namespace MemoryController

/-- The constructor's check. -/
def validate (config : MemoryControllerConfig) : Except String Unit :=
  require (!(config.serviceLatency == 0 || config.requestQueueCapacity == 0))
    "memory controller latency and queue capacity must be non-zero"

variable {σ : Type} (bus : BusInterfaceV2 σ) (port : BusPortT) (config : MemoryControllerConfig)

def receiveRequest (c : MemoryController) (s : σ) : Except String (MemoryController × σ) := do
  if config.requestQueueCapacity ≤ c.queue.length then
    if ← bus.canRecv s port requestChannel then
      return ({ c with
        stats := { c.stats with queueFullCycles := c.stats.queueFullCycles + 1 } }, s)
    return (c, s)
  if !(← bus.canRecv s port requestChannel) then return (c, s)
  match ← bus.recv s port requestChannel with
  | (none, s) => return (c, s)
  | (some bytes, s) =>
    let request ← decodeRequest bytes
    let queue := c.queue ++ [request]
    return ({ c with
      queue := queue
      stats := { c.stats with
        receivedRequests := c.stats.receivedRequests + 1
        maxQueueDepth := max c.stats.maxQueueDepth queue.length } }, s)

def startRequest (c : MemoryController) : MemoryController :=
  match c.active, c.response, c.queue with
  | none, none, request :: rest =>
    { c with active := some ⟨request, config.serviceLatency⟩, queue := rest }
  | _, _, _ => c

/-- The effect of serving a request: the response and the memory after it. -/
def serve (memory : SharedMemory) (request : MemoryRequest) : MemoryResponse × SharedMemory :=
  let response : MemoryResponse :=
    { hartId := request.hartId, transactionId := request.transactionId }
  if request.op = MemoryOp.read then
    ({ response with data := memory.read request.address request.size.toNat }, memory)
  else if request.op = MemoryOp.write then
    (response, memory.write request.address request.data)
  else ({ response with status := MemoryStatus.invalidRequest }, memory)

def advanceRequest (c : MemoryController) : MemoryController :=
  match c.active, c.response with
  | some item, none =>
    let c := { c with stats := { c.stats with serviceCycles := c.stats.serviceCycles + 1 } }
    if 1 < item.cyclesLeft then
      { c with active := some { item with cyclesLeft := item.cyclesLeft - 1 } }
    else
      { c with
        memory := (serve c.memory item.request).2
        response := some (serve c.memory item.request).1
        active := none
        stats := { c.stats with completedRequests := c.stats.completedRequests + 1 }
        completed := c.completed ++ [item.request] }
  | _, _ => c

def countBlocked (c : MemoryController) : MemoryController :=
  { c with stats := { c.stats with
    responseInjectionBlockedCycles := c.stats.responseInjectionBlockedCycles + 1 } }

def sendResponse (c : MemoryController) (s : σ) : Except String (MemoryController × σ) := do
  match c.response with
  | none => return (c, s)
  | some response =>
    if !(← bus.canSend s port responseChannel) then return (c.countBlocked, s)
    match ← bus.send s port response.hartId.toNat responseChannel (encodeResponse response) with
    | (false, s) => return (c.countBlocked, s)
    | (true, s) => return ({ c with response := none }, s)

def tick (c : MemoryController) (s : σ) : Except String (MemoryController × σ) := do
  let c := { c with stats := { c.stats with
    queuedRequestCycles := c.stats.queuedRequestCycles + c.queue.length } }
  let (c, s) ← sendResponse bus port c s
  let (c, s) ← receiveRequest bus port config c s
  return (startRequest config (advanceRequest c), s)

def idle (c : MemoryController) : Bool :=
  c.queue.isEmpty && c.active.isNone && c.response.isNone

end MemoryController

end Manycore
