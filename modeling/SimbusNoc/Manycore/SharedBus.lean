import SimbusNoc.Manycore.Channel

/-!
# The shared bus

`SharedBus` of `interconnect.cpp`: one medium that carries one message at a time. Each port has one
queue of messages that wait for the medium, on both channels, and one inbox for each channel.

## The three parts of a tick

A tick grants an idle medium to the port that the scan selects, lets every queued message wait one
tick more, and moves the transfer on, whose last cycle puts the message into its inbox. The parts
are functions of their own, in this order, so a message granted in a tick does not wait in it any
more, and its transfer has its first cycle in the same tick.

## Machine integers

The scan for the next sender is in the source's integers: its index is a 32-bit sum, and the port
it finds is kept as an `int`, whose negative values mean that none was found. `scanned` and
`asSelected` are these two conversions. Counts of messages that are in memory and of ticks are
natural numbers.

## Ghost fields

`accepted`, `grants`, `arrivals` and `returned` of `SharedBusState` are ghost: what has happened so
far, oldest first. The functions of the bus write them and do not read them. A run is a sequence of
calls, each of which may be any of the interface.
-/

namespace Manycore

open Simbus

/-! ## Configuration and statistics -/

structure SharedBusConfig where
  addressCycles : UInt32 := 1
  dataCycles : UInt32 := 3
  queueDepth : UInt32 := 64
  receiveSlots : UInt32 := 0
  starvationThreshold : UInt64 := 1000
  fixedPriority : Bool := false
  deriving DecidableEq

structure Distribution where
  count : ℕ := 0
  sum : ℕ := 0
  maximum : ℕ := 0
  histogram : ℕ → ℕ := fun _ ↦ 0

def Distribution.add (d : Distribution) (n : ℕ) : Distribution where
  count := d.count + 1
  sum := d.sum + n
  maximum := max d.maximum n
  histogram := Function.update d.histogram n (d.histogram n + 1)

structure MasterBusStats where
  requests : ℕ := 0
  grants : ℕ := 0
  waitCycles : ℕ := 0
  longestWait : ℕ := 0
  starvationEvents : ℕ := 0
  grantWait : Distribution := {}

/-! ## The state -/

structure BusMessage where
  src : BusPortT
  dst : BusPortT
  channel : ChannelT
  bytes : Bytes
  enqueued : ℕ
  warned : Bool := false
  deriving DecidableEq

def BusMessage.letter (m : BusMessage) : Letter := ⟨m.src, m.dst, m.channel, m.bytes⟩

/-- Ghost: the tick in which `letter` got the medium. -/
structure Grant where
  tick : ℕ
  letter : Letter
  deriving DecidableEq

/-- Ghost: the tick at whose end `letter` entered its inbox. -/
structure Arrival where
  tick : ℕ
  letter : Letter
  deriving DecidableEq

structure SharedBusState where
  tick : ℕ := 0
  remaining : ℕ := 0
  delivered : ℕ := 0
  creditStalls : ℕ := 0
  latencySum : ℕ := 0
  maxReserved : ℕ := 0
  busyCycles : ℕ := 0
  idleCycles : ℕ := 0
  /-- Where the round-robin scan starts. -/
  next : BusPortT := 0
  pending : BusPortT → List BusMessage := fun _ ↦ []
  inbox : BusPortT → ChannelT → List BusMessage := fun _ _ ↦ []
  reserved : BusPortT → ChannelT → ℕ := fun _ _ ↦ 0
  stats : BusPortT → MasterBusStats := fun _ ↦ {}
  active : Option BusMessage := none
  /-- Ghost: the messages for which `send` returned true. -/
  accepted : List Letter := []
  /-- Ghost. -/
  grants : List Grant := []
  /-- Ghost. -/
  arrivals : List Arrival := []
  /-- Ghost: what `recv` has returned at each port and channel. -/
  returned : BusPortT → ChannelT → List Bytes := fun _ _ ↦ []

/-- What the constructor fixes. -/
structure SharedBus where
  ports : UInt32
  config : SharedBusConfig
  deriving DecidableEq

namespace SharedBus

/-- The constructor. -/
def construct (ports : UInt32) (config : SharedBusConfig) : Except String SharedBus := do
  require (!(ports == 0 || config.addressCycles == 0 || config.dataCycles == 0 ||
    config.queueDepth == 0 || config.starvationThreshold == 0)) "invalid shared bus config"
  return { ports := ports, config := config }

variable (b : SharedBus)

/-- The number of ports, `pending_.size()`. -/
def size : ℕ := b.ports.toNat

/-- The ticks that a message holds the medium. -/
def cycles : ℕ := b.config.addressCycles.toNat + b.config.dataCycles.toNat

def check (p : BusPortT) (c : ChannelT) : Except String Unit :=
  require (!(decide (b.size ≤ p) || decide (1 < c))) "bus port/channel"

/-! ## Sending and receiving -/

/-- `pending_[p].size() < queue_depth`. -/
def hasRoom (s : SharedBusState) (p : BusPortT) : Bool :=
  decide ((s.pending p).length < b.config.queueDepth.toNat)

def canSend (s : SharedBusState) (p : BusPortT) (c : ChannelT) : Except String Bool := do
  b.check p c
  return b.hasRoom s p

/-- No credit for the destination is left. -/
def outOfCredit (s : SharedBusState) (d : BusPortT) (c : ChannelT) : Bool :=
  !(b.config.receiveSlots == 0) && decide (b.config.receiveSlots.toNat ≤ s.reserved d c)

/-- The state after `send` has queued a message. -/
def enqueue (s : SharedBusState) (l : Letter) : SharedBusState :=
  let message : BusMessage :=
    { src := l.src, dst := l.dst, channel := l.cha, bytes := l.data, enqueued := s.tick }
  let reserved := s.reserved l.dst l.cha + 1
  let stats := s.stats l.src
  { s with
    pending := Function.update s.pending l.src (s.pending l.src ++ [message])
    reserved := Function.update s.reserved l.dst
      (Function.update (s.reserved l.dst) l.cha reserved)
    maxReserved := max s.maxReserved reserved
    stats := Function.update s.stats l.src { stats with requests := stats.requests + 1 }
    accepted := s.accepted ++ [l] }

def send (s : SharedBusState) (p d : BusPortT) (c : ChannelT) (bytes : Bytes) :
    Except String (Bool × SharedBusState) := do
  b.check p c
  b.check d c
  if !(← b.canSend s p c) then return (false, s)
  if b.outOfCredit s d c then return (false, { s with creditStalls := s.creditStalls + 1 })
  return (true, enqueue s ⟨p, d, c, bytes⟩)

def canRecv (s : SharedBusState) (p : BusPortT) (c : ChannelT) : Except String Bool := do
  b.check p c
  return !(s.inbox p c).isEmpty

/-- The state after `recv` has taken the oldest message of an inbox. -/
def dequeue (s : SharedBusState) (p : BusPortT) (c : ChannelT) (bytes : Bytes)
    (rest : List BusMessage) : SharedBusState :=
  { s with
    inbox := Function.update s.inbox p (Function.update (s.inbox p) c rest)
    reserved := Function.update s.reserved p
      (Function.update (s.reserved p) c (s.reserved p c - 1))
    returned := Function.update s.returned p
      (Function.update (s.returned p) c (s.returned p c ++ [bytes])) }

def recv (s : SharedBusState) (p : BusPortT) (c : ChannelT) :
    Except String (Option Bytes × SharedBusState) := do
  if !(← b.canRecv s p c) then return (none, s)
  match s.inbox p c with
  | [] => return (none, s)
  | m :: rest => return (some m.bytes, dequeue s p c m.bytes rest)

/-! ## Arbitration -/

/-- The port in the `k`-th place of the scan. The sum is a 32-bit one. -/
def scanned (next k : ℕ) : BusPortT :=
  if b.config.fixedPriority then k else (next + k) % 2 ^ 32 % b.size

/-- The oldest message of port `p` is on `channel`. -/
def heads (s : SharedBusState) (channel : ChannelT) (p : BusPortT) : Bool :=
  match s.pending p with
  | [] => false
  | m :: _ => m.channel == channel

/-- The port at which the scan for `channel` stops. -/
def firstHead (s : SharedBusState) (channel : ChannelT) : Option BusPortT :=
  ((List.range b.size).map (b.scanned s.next)).find? (heads s channel)

/-- `int(p)` is negative from `2 ^ 31` on, and `selected < 0` means that no port was found. -/
def asSelected (p : Option BusPortT) : Option BusPortT := p.filter fun p ↦ decide (p < 2 ^ 31)

/-- `selected`: responses first. -/
def selected (s : SharedBusState) : Option BusPortT :=
  match asSelected (b.firstHead s 1) with
  | some p => some p
  | none => asSelected (b.firstHead s 0)

/-- The medium goes to the oldest message of port `p`. -/
def grantTo (s : SharedBusState) (p : BusPortT) (m : BusMessage) (rest : List BusMessage) :
    SharedBusState :=
  let wait := s.tick - m.enqueued
  let stats := s.stats p
  { s with
    active := some m
    pending := Function.update s.pending p rest
    stats := Function.update s.stats p { stats with
      grantWait := stats.grantWait.add wait
      longestWait := max stats.longestWait wait
      grants := stats.grants + 1 }
    next := if m.channel = 0 then (p + 1) % b.size else s.next
    remaining := b.cycles
    grants := s.grants ++ [⟨s.tick, m.letter⟩] }

/-- The first part of a tick: an idle medium is granted. -/
def grant (s : SharedBusState) : SharedBusState :=
  match s.active, b.selected s with
  | none, some p =>
    match s.pending p with
    | [] => s
    | m :: rest => b.grantTo s p m rest
  | _, _ => s

/-! ## The rest of a tick -/

/-- The ticks that a queued message has waited at the end of tick `now`. -/
def waited (now : ℕ) (m : BusMessage) : ℕ := now + 1 - m.enqueued

/-- The message's wait reaches the threshold for the first time. -/
def starves (now : ℕ) (m : BusMessage) : Bool :=
  decide (b.config.starvationThreshold.toNat ≤ waited now m) && !m.warned

def warn (now : ℕ) (m : BusMessage) : BusMessage :=
  if b.starves now m then { m with warned := true } else m

def countWait (now : ℕ) (stats : MasterBusStats) (m : BusMessage) : MasterBusStats :=
  { stats with
    waitCycles := stats.waitCycles + 1
    longestWait := max stats.longestWait (waited now m)
    starvationEvents := if b.starves now m then stats.starvationEvents + 1
      else stats.starvationEvents }

/-- The second part of a tick: every queued message has waited one tick more. -/
def countWaits (s : SharedBusState) : SharedBusState :=
  { s with
    pending := fun p ↦ (s.pending p).map (b.warn s.tick)
    stats := fun p ↦ (s.pending p).foldl (b.countWait s.tick) (s.stats p) }

/-- The last tick of a transfer: the message enters its inbox. -/
def deliver (s : SharedBusState) (m : BusMessage) : SharedBusState :=
  { s with
    latencySum := s.latencySum + (s.tick + 1 - m.enqueued)
    inbox := Function.update s.inbox m.dst
      (Function.update (s.inbox m.dst) m.channel (s.inbox m.dst m.channel ++ [m]))
    active := none
    delivered := s.delivered + 1
    arrivals := s.arrivals ++ [⟨s.tick, m.letter⟩] }

/-- The third part of a tick: the transfer goes on. -/
def transfer (s : SharedBusState) : SharedBusState :=
  match s.active with
  | none => { s with idleCycles := s.idleCycles + 1 }
  | some m =>
    let s := { s with busyCycles := s.busyCycles + 1, remaining := s.remaining - 1 }
    if s.remaining = 0 then deliver s m else s

def applyNextTick (s : SharedBusState) : SharedBusState :=
  let s := transfer (b.countWaits (b.grant s))
  { s with tick := s.tick + 1 }

/-- The shared bus as a `BusInterfaceV2`. -/
def interface : BusInterfaceV2 SharedBusState where
  canSend := b.canSend
  send := b.send
  canRecv := b.canRecv
  recv := b.recv
  applyNextTick := fun s ↦ .ok (b.applyNextTick s)

/-! ## Runs -/

inductive Call
  | send (port dstPort : BusPortT) (channel : ChannelT) (bytes : Bytes)
  | recv (port : BusPortT) (channel : ChannelT)
  | applyNextTick
  deriving DecidableEq

/-- The call is on valid ports and channels. -/
def Call.Valid : Call → Prop
  | .send port dstPort channel _ => port < b.size ∧ dstPort < b.size ∧ channel ≤ 1
  | .recv port channel => port < b.size ∧ channel ≤ 1
  | .applyNextTick => True

def perform (s : SharedBusState) : Call → Except String SharedBusState
  | .send port dstPort channel bytes => do
    let (_, s) ← b.send s port dstPort channel bytes
    return s
  | .recv port channel => do
    let (_, s) ← b.recv s port channel
    return s
  | .applyNextTick => return b.applyNextTick s

/-- The state after a sequence of calls. -/
def run (s : SharedBusState) (calls : List Call) : Except String SharedBusState :=
  calls.foldlM b.perform s

end SharedBus

end Manycore
