import SimbusNoc.Manycore.MmioBusAdapter
import SimbusNoc.Manycore.System

/-!
# The two interconnects

`IBus` of `interconnect.hpp` and its two implementations, the double ring and the shared bus. A
call on an `Interconnect` goes to the implementation that the object has.

An MMIO adapter catches what its bus throws, so here the state that a throwing `recv` leaves is
part of the interface. No other call changes anything before it throws. `tryTick` is the tick of
the adapter as its caller sees it, with the error as a value next to the state that the tick has
reached, and `tick_eq_tryTick` says that it is the same tick.
-/

namespace Manycore

open Simbus

structure IBus (σ : Type) extends BusInterfaceV2 σ where
  /-- The state that `recv` leaves when it throws. -/
  recvThrown : σ → BusPortT → ChannelT → σ

/-- `RingNoC`. -/
def ringNoC (noc : Bus) : IBus BusState where
  toBusInterfaceV2 := nocInterface noc
  recvThrown := fun s p c ↦ (noc.recv s p c).2

/-- The constructor of `RingNoC`. The number of ports is a 32-bit one. -/
def ringNoCConstruct (ord : HashOrder) (cores : ℕ) (config : NocConfig) : Except String Bus := do
  let ports := List.range ((cores + 1) % 2 ^ 32)
  let route ← genrouteDoubleRing ports
  Simbus.construct ord ports ports [config.linkWidthByte, config.linkWidthByte] route config

/-- `SharedBus` as an `IBus`. Its `recv` checks its arguments first. -/
def SharedBus.iBus (b : SharedBus) : IBus SharedBusState where
  toBusInterfaceV2 := b.interface
  recvThrown := fun s _ _ ↦ s

/-- An object of one of the two classes. -/
inductive Interconnect
  | ring (noc : Bus) (state : BusState)
  | shared (bus : SharedBus) (state : SharedBusState)

namespace Interconnect

/-- The virtual calls. -/
def interface : IBus Interconnect where
  canSend := fun x p c ↦
    match x with
    | ring noc s => (ringNoC noc).canSend s p c
    | shared b s => b.iBus.canSend s p c
  send := fun x p d c data ↦
    match x with
    | ring noc s => do
      let (accepted, s) ← (ringNoC noc).send s p d c data
      return (accepted, ring noc s)
    | shared b s => do
      let (accepted, s) ← b.iBus.send s p d c data
      return (accepted, shared b s)
  canRecv := fun x p c ↦
    match x with
    | ring noc s => (ringNoC noc).canRecv s p c
    | shared b s => b.iBus.canRecv s p c
  recv := fun x p c ↦
    match x with
    | ring noc s => do
      let (data, s) ← (ringNoC noc).recv s p c
      return (data, ring noc s)
    | shared b s => do
      let (data, s) ← b.iBus.recv s p c
      return (data, shared b s)
  applyNextTick := fun x ↦
    match x with
    | ring noc s => do
      let s ← (ringNoC noc).applyNextTick s
      return ring noc s
    | shared b s => do
      let s ← b.iBus.applyNextTick s
      return shared b s
  recvThrown := fun x p c ↦
    match x with
    | ring noc s => ring noc ((ringNoC noc).recvThrown s p c)
    | shared b s => shared b (b.iBus.recvThrown s p c)

/-- The number of messages that the interconnect has accepted so far. -/
def messages : Interconnect → ℕ
  | ring _ s => s.accepted
  | shared _ s => s.accepted.length

end Interconnect

/-! ## The adapter's tick inside a `try` block -/

namespace MmioBusAdapter

variable {σ : Type} (bus : IBus σ) (hart : UInt32) (port memoryPort : BusPortT)

/-- The bus after `receive` has thrown. What `recv` took is gone. -/
def receiveThrown (s : σ) : σ :=
  match bus.canRecv s port responseChannel with
  | .error _ => s
  | .ok _ =>
    match bus.recv s port responseChannel with
    | .error _ => bus.recvThrown s port responseChannel
    | .ok (_, s) => s

/-- `tick` with what it throws, if anything, and with the adapter and the bus as they then are. -/
def tryTick (a : MmioBusAdapter) (s : σ) : Option String × MmioBusAdapter × σ :=
  let a := { a with clock := a.clock + 1 }
  match sendUnsent bus.toBusInterfaceV2 port memoryPort a s with
  | .error reason => (some reason, a, s)
  | .ok (a, s) =>
    match receive bus.toBusInterfaceV2 hart port a s with
    | .error reason => (some reason, a, receiveThrown bus port s)
    | .ok (a, s) => (none, a, s)

/-- `tryTick` throws what `tick` throws, and does what it does otherwise. -/
theorem tick_eq_tryTick (a : MmioBusAdapter) (s : σ) :
    tick bus.toBusInterfaceV2 hart port memoryPort a s =
      match tryTick bus hart port memoryPort a s with
      | (some reason, _) => .error reason
      | (none, result) => .ok result := by
  rw [tick, tryTick]
  cases sendUnsent bus.toBusInterfaceV2 port memoryPort { a with clock := a.clock + 1 } s with
  | error reason => rfl
  | ok sent =>
    dsimp only [bind, Except.bind]
    cases receive bus.toBusInterfaceV2 hart port sent.1 sent.2 with
    | error reason => rfl
    | ok received => rfl

end MmioBusAdapter

end Manycore
