import SimbusNoc.Manycore.Memory

/-!
# Reliable buses

What the cores and the controller need of a bus: it holds a list of messages on their way, in the
order in which they were accepted; an accepted `send` adds one, a `recv` that returns bytes takes
away one for its port and channel, and nothing else changes the list. A bus is `Reliable` when some
relation `Holds` between such lists and its states has these laws.

The laws are stated for calls that return, and for states in which the bus is still `Live`: a
network whose message counter may wrap keeps its promises only up to then.

## What is left open

A bus need not deliver in order. One that returns the letters of one way in the order in which they
were sent is `Fifo`, which is asked for only where it is needed: a core with one request
outstanding needs no order, and a hart whose adapter sends commands of its own does. Nor is
anything said about when a letter arrives. The network and the shared bus both have these laws, and
a system is verified once for all buses that do.
-/

namespace Manycore

open Simbus

/-- A message on its way. -/
structure Letter where
  src : BusPortT
  dst : BusPortT
  cha : ChannelT
  data : Bytes
  deriving DecidableEq

/-- Letters with the same source, destination and channel. -/
def Letter.SameWay (l l' : Letter) : Prop := l.src = l'.src ∧ l.dst = l'.dst ∧ l.cha = l'.cha

/-- The laws of a bus that neither loses, invents nor changes a letter. Only `Allowed` letters are
sent. A `Fifo` bus returns the letters of one way in the order in which they were accepted. -/
structure Reliable {σ : Type} (bus : BusInterfaceV2 σ) (Allowed : Letter → Prop)
    (Live : σ → Prop) (Fifo : Prop) (Holds : List Letter → σ → Prop) : Prop where
  send : ∀ {letters s s' accepted}, ∀ l, Holds letters s → Allowed l →
    bus.send s l.src l.dst l.cha l.data = .ok (accepted, s') → Live s' →
    Holds (if accepted then letters ++ [l] else letters) s'
  recv_none : ∀ {letters s s' d c}, Holds letters s → bus.recv s d c = .ok (none, s') →
    Live s' → Holds letters s'
  recv_some : ∀ {letters s s' d c data}, Holds letters s →
    bus.recv s d c = .ok (some data, s') → Live s' →
    ∃ front l back, letters = front ++ l :: back ∧ l.dst = d ∧ l.cha = c ∧ l.data = data ∧
      Holds (front ++ back) s' ∧ (Fifo → ∀ l' ∈ front, ¬l'.SameWay l)
  tick : ∀ {letters s s'}, Holds letters s → bus.applyNextTick s = .ok s' → Live s' →
    Holds letters s'
  live_send : ∀ {s s' p d c data accepted}, bus.send s p d c data = .ok (accepted, s') →
    Live s' → Live s
  live_recv : ∀ {s s' p c data}, bus.recv s p c = .ok (data, s') → Live s' → Live s
  live_tick : ∀ {s s'}, bus.applyNextTick s = .ok s' → Live s' → Live s

/-- The bus between two of its ticks: its own tick does nothing. -/
def BusInterfaceV2.still {σ : Type} (bus : BusInterfaceV2 σ) : BusInterfaceV2 σ :=
  { bus with applyNextTick := .ok }

theorem Reliable.still {σ : Type} {bus : BusInterfaceV2 σ} {Allowed : Letter → Prop}
    {Live : σ → Prop} {Fifo : Prop} {Holds : List Letter → σ → Prop}
    (h : Reliable bus Allowed Live Fifo Holds) : Reliable bus.still Allowed Live Fifo Holds where
  send := h.send
  recv_none := h.recv_none
  recv_some := h.recv_some
  tick := fun hholds htick _ ↦ Except.ok.inj htick ▸ hholds
  live_send := h.live_send
  live_recv := h.live_recv
  live_tick := fun htick hlive ↦ Except.ok.inj htick ▸ hlive

end Manycore
