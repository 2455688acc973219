import SimbusNoc.Manycore.AtomicCore
import SimbusNoc.Noc.Tick

/-!
# The scripted manycore system

`manycore_system.cpp`: scripted cores and one memory controller on the double ring.

What the constructor fixes and what a tick changes are two records again, as for the network. The
constructor lists the ports and nodes, generates the route table, and passes a configuration to the
network, whose own checks may refuse it. A tick gives the controller its turn, then the cores in
the order of their numbers, and then the network. `run` ticks until the system has finished or the
limit is reached, and returns whether it has finished; its loop has the number of ticks that are
left as its fuel, which the limit bounds.
-/

namespace Manycore

open Simbus

/-- The network as a `BusInterfaceV2`. A throwing `recv` ends the caller's tick, so the state it
leaves is not passed on. -/
def nocInterface (b : Bus) : BusInterfaceV2 BusState where
  canSend := b.canSend
  send := b.send
  canRecv := b.canRecv
  recv := fun s p c ↦
    match b.recv s p c with
    | (.empty, s) => .ok (none, s)
    | (.message bytes _, s) => .ok (some bytes, s)
    | (.thrown e, _) => .error e
  applyNextTick := b.applyNextTick

structure ManycoreConfig where
  coreCount : ℕ := 2
  receiveMessageSlots : ℕ := 2
  linkWidthBytes : ℕ := 16
  routeLatency : ℕ := 2
  routerBufferLimit : ℕ := 8
  memoryLatency : ℕ := 8
  memoryQueueCapacity : ℕ := 8
  deriving DecidableEq

def makePorts (coreCount : ℕ) : List BusPortT := List.range coreCount ++ [coreCount]

def makeNodes (coreCount : ℕ) : List BusNodeT := List.range (coreCount + 1)

def makeNocConfig (config : ManycoreConfig) : NocConfig where
  receiveMessageSlots := config.receiveMessageSlots
  linkWidthByte := config.linkWidthBytes
  routeLatency := config.routeLatency
  congestion := {
    enabled := true
    nodeBufferLimit := config.routerBufferLimit
    highWatermark := config.routerBufferLimit
    lowWatermark := config.routerBufferLimit / 2 }

def controllerConfig (config : ManycoreConfig) : MemoryControllerConfig where
  serviceLatency := config.memoryLatency
  requestQueueCapacity := config.memoryQueueCapacity

/-- What `ManycoreSystem` fixes at construction. -/
structure ManycoreSystem where
  config : ManycoreConfig
  noc : Bus

structure SystemState where
  noc : BusState := {}
  memoryController : MemoryController := {}
  cores : ℕ → AtomicCore := fun _ ↦ {}
  currentTick : ℕ := 0

namespace ManycoreSystem

/-- The constructor. The port numbers are 32-bit, and with `core_count = UINT32_MAX` the loop that
lists them does not end. -/
def construct (ord : HashOrder) (config : ManycoreConfig) : Except String ManycoreSystem := do
  require (decide (config.coreCount < 2 ^ 32 - 1)) "port list does not end"
  let route ← genrouteDoubleRing (makeNodes config.coreCount)
  let noc ← Simbus.construct ord (makePorts config.coreCount) (makeNodes config.coreCount)
    [config.linkWidthBytes, config.linkWidthBytes] route (makeNocConfig config)
  MemoryController.validate (controllerConfig config)
  require (!(config.coreCount == 0 || config.routerBufferLimit == 0))
    "manycore system requires cores and router buffers"
  return { config := config, noc := noc }

variable (m : ManycoreSystem)

/-- The memory controller's port. -/
def memoryPort : BusPortT := m.config.coreCount

/-- The state after `load_program` on each core of a fresh system. -/
def load (programs : ℕ → List ScriptOp) : SystemState :=
  { cores := fun i ↦ { program := programs i } }

/-- One core's turn in a tick. -/
def tickCore (s : SystemState) (i : ℕ) : Except String SystemState := do
  let (core, noc) ← (s.cores i).tick (nocInterface m.noc) (UInt32.ofNat i) i m.memoryPort s.noc
  return { s with cores := Function.update s.cores i core, noc := noc }

def tick (s : SystemState) : Except String SystemState := do
  let (controller, noc) ← s.memoryController.tick (nocInterface m.noc) m.memoryPort
    (controllerConfig m.config) s.noc
  let s := { s with memoryController := controller, noc := noc }
  let s ← (List.range m.config.coreCount).foldlM m.tickCore s
  let noc ← m.noc.applyNextTick s.noc
  return { s with noc := noc, currentTick := s.currentTick + 1 }

def finished (s : SystemState) : Bool :=
  ((List.range m.config.coreCount).all fun i ↦ (s.cores i).halted) && s.memoryController.idle

/-- The loop of `run`, for at most `fuel` more ticks. -/
def runLoop : ℕ → SystemState → Except String SystemState
  | 0, s => .ok s
  | fuel + 1, s => if m.finished s then .ok s else do runLoop fuel (← m.tick s)

/-- `run`. -/
def run (maxTicks : ℕ) (s : SystemState) : Except String (Bool × SystemState) := do
  let s ← m.runLoop (maxTicks - s.currentTick) s
  return (m.finished s, s)

end ManycoreSystem

end Manycore
