import SimbusNoc.Noc.Runs

/-!
# Reliable, ordered delivery

What the bus promises over any run that accepts fewer than `2 ^ 32` messages, whatever the
topology, the configuration, the traffic and the order of the calls.

The first promise is about what a user sees: for each flow the messages returned are the first of
those accepted, in the same order. The second is about what the bus checks of itself: no tick and
no `recv` throws, and the counters that the checks read are exact. Both are read off the account of
a whole run. The bound on the number of messages is what keeps transmission ids apart, and it is
the only one: a run may be of any length, with messages of any size up to `2 ^ 31` bytes.

A small bus of two nodes with a message of two packets shows that the hypotheses can be met.
-/

namespace Simbus

open Bus

variable {ord : HashOrder} {portIds : List BusPortT} {portToNode : List BusNodeT}
  {widths : List ℕ} {route : BusRouteTable} {config : NocConfig} {b : Bus} {calls : List Call}

/-! ## A small bus -/

/-- Each of two nodes reaches the other directly. -/
def pairRoute : BusRouteTable :=
  routeInsert 0 0 0 (routeInsert 0 1 1 (routeInsert 1 0 0 (routeInsert 1 1 1 ∅)))

def pairConfig : NocConfig := { receiveMessageSlots := 1 }

/-- Two ports on two joined nodes, with one slot for each port. -/
def pairBus : Bus where
  chaCnt := 1
  linkWidthByte := 64
  routeLatency := 3
  chaWidths := [4]
  port2node := [(0, 0), (1, 1)]
  route := pairRoute
  config := pairConfig
  nodeIds := [0, 1]
  nodePorts := fun v ↦
    (([(0, 0), (1, 1)] : List (BusPortT × BusNodeT)).filter fun pn ↦ pn.2 == v).map Prod.fst
  edgeIds := [(0, 1), (1, 0)]

theorem construct_pairBus :
    construct .insertion [0, 1] [0, 1] [4] pairRoute pairConfig = .ok pairBus := rfl

/-- A message of two packets is sent to the other node and received there. -/
def pairCalls : List Call :=
  .send 0 1 0 [1, 2, 3, 4, 5] :: List.replicate 9 .applyNextTick ++ [.recv 1 0]

theorem known_pairCalls : ∀ call ∈ pairCalls, call.Known pairBus (2 ^ 31) := by
  decide +kernel

/-! ## The promises -/

/-- The messages of a flow come out as they went in, in the same order, so far as they have come
out. -/
theorem returned_prefix_accepted
    (h : construct ord portIds portToNode widths route config = .ok b)
    (hcalls : ∀ call ∈ calls, call.Known b (2 ^ 31))
    (haccepted : (b.run {} calls).1.countP isAccepted < 2 ^ 32) (f : Flow) :
    returned f (b.run {} calls).1 <+: accepted f (b.run {} calls).1 := by
  obtain ⟨g, hacc⟩ := runAll_accounts_of_accepted_lt (construct_wellFormed h) hcalls haccepted
  exact ⟨g.pending f, (hacc.flows f).symm⟩

theorem returned_prefix_accepted_pair :
    returned ⟨0, 1, 0⟩ (pairBus.run {} pairCalls).1 = [[1, 2, 3, 4, 5]] ∧
      returned ⟨0, 1, 0⟩ (pairBus.run {} pairCalls).1 <+:
        accepted ⟨0, 1, 0⟩ (pairBus.run {} pairCalls).1 :=
  ⟨by decide +kernel, returned_prefix_accepted construct_pairBus known_pairCalls
    (by decide +kernel) _⟩

/-- No tick and no `recv` throws, the router counters are exact and within their limit, and there is
something to receive exactly when the receive buffer is not empty. -/
theorem internal_checks_hold
    (h : construct ord portIds portToNode widths route config = .ok b)
    (hcalls : ∀ call ∈ calls, call.Known b (2 ^ 31))
    (haccepted : (b.run {} calls).1.countP isAccepted < 2 ^ 32) :
    (∀ e ∈ (b.run {} calls).1, Quiet e) ∧
      (b.config.congestion.enabled → ∀ v,
        ((b.run {} calls).2.nodes v).bufferedPackets =
            ((b.run {} calls).2.nodes v).pipeline.length ∧
          ((b.run {} calls).2.nodes v).bufferedPackets ≤ b.config.congestion.nodeBufferLimit) ∧
      ∀ p c, b.knownPort p = true → c < b.chaCnt →
        b.canRecv (b.run {} calls).2 p c =
          .ok (!(((b.run {} calls).2.ports p).recvBuf c).isEmpty) := by
  have hb := construct_wellFormed h
  obtain ⟨g, hacc⟩ := runAll_accounts_of_accepted_lt hb hcalls haccepted
  refine ⟨hacc.quiet, fun hen v ↦ ?_, fun p c hp hc ↦ ?_⟩
  · obtain ⟨heq, hle⟩ := (hacc.inv.placed.routers v).buffered hen
    exact ⟨heq, heq ▸ hle⟩
  · have hiff := hacc.inv.canRecvNow_iff hb id p c
    have hbool : canRecvNow (b.run {} calls).2 p c =
        !(((b.run {} calls).2.ports p).recvBuf c).isEmpty := by
      rw [Bool.eq_iff_iff, hiff]
      simp
    rw [canRecv, validatePort_eq_ok (u := ()) |>.mpr hp, validateChannel_eq_ok (u := ()) |>.mpr hc,
      ← hbool]
    rfl

theorem internal_checks_hold_pair :
    (∀ e ∈ (pairBus.run {} pairCalls).1, Quiet e) ∧
      pairBus.canRecv (pairBus.run {} pairCalls).2 1 0 = .ok false := by
  obtain ⟨hquiet, -, hrecv⟩ := internal_checks_hold construct_pairBus known_pairCalls
    (by decide +kernel)
  refine ⟨hquiet, ?_⟩
  rw [hrecv 1 0 (by decide) (by decide)]
  decide +kernel

end Simbus
