import SimbusNoc.Noc.Credits

/-!
# Reuse of transmission ids

The order buffer of a node tells messages apart by their 32-bit transmission ids only. On a bus
with a long enough route latency a message can stay in a pipeline while `2 ^ 32 - 1` others are
sent and received, and then meets a message with its own id. The order buffer mixes the two, and a
`recv` gives back a credit while a packet of the first message is still on its way.

## How a run of this length is checked

The run cannot be evaluated. So `Scene` keeps the few fields that differ along the run, and `Shows`
says that a state shows a scene and that everything else is empty. Each call has a lemma from scene
to scene. One round, in which a message goes from a port to itself, shows again the scene that it
started from, except that the id is one larger and the held packets are younger by the ticks of the
round. The rounds in between are then an induction, and only the calls at the two ends are followed
one by one.
-/

namespace Simbus

open Bus

/-! ## The bus -/

def reuseConfig : NocConfig where
  receiveMessageSlots := 1
  routeLatency := 2 ^ 32 - 1
  congestion := { enabled := false }

/-- Two ports on two joined nodes, with two channels of one byte and the longest route latency. -/
def reuseBus : Bus where
  chaCnt := 2
  linkWidthByte := 64
  routeLatency := 2 ^ 32 - 1
  chaWidths := [1, 1]
  port2node := [(0, 0), (1, 1)]
  route := pairRoute
  config := reuseConfig
  nodeIds := [0, 1]
  nodePorts := fun v ↦
    (([(0, 0), (1, 1)] : List (BusPortT × BusNodeT)).filter fun pn ↦ pn.2 == v).map Prod.fst
  edgeIds := [(0, 1), (1, 0)]

theorem construct_reuseBus :
    construct .insertion [0, 1] [0, 1] [1, 1] pairRoute reuseConfig = .ok reuseBus := rfl

private theorem reuse_rxs₀ : reuseBus.rxs 0 = [(1, 0)] := by decide

private theorem reuse_rxs₁ : reuseBus.rxs 1 = [(0, 1)] := by decide

private theorem reuse_ports₀ : reuseBus.nodePorts 0 = [0] := by decide

private theorem reuse_ports₁ : reuseBus.nodePorts 1 = [1] := by decide

private theorem reuse_range : List.range reuseBus.chaCnt = [0, 1] := by decide

private theorem reuse_nodes : reuseBus.nodeIds = [0, 1] := rfl

private theorem reuse_edges : reuseBus.edgeIds = [(0, 1), (1, 0)] := rfl

private theorem reuse_enabled : reuseBus.config.congestion.enabled = false := rfl

private theorem reuse_slots : reuseBus.config.receiveMessageSlots = 1 := rfl

private theorem reuse_max : reuseBus.config.maxMessageBytes = 4096 := rfl

private theorem reuse_hop : reuseBus.nextHop 0 1 = .ok 1 := rfl

private theorem reuse_link : reuseBus.linkWidthByte = 64 := rfl

/-! ## Scenes -/

/-- Packet `i` of the message that stays in the pipeline of node 0. -/
def held (i : ℕ) : MsgPack := reuseBus.pack ⟨0, 1, 0, [1, 2, 3], 0, 0⟩ i

private theorem held_tgt (i : ℕ) : (held i).tgt = 1 := rfl

private theorem held_dst (i : ℕ) : (held i).dst = 1 := rfl

private theorem held_cha (i : ℕ) : (held i).cha = 0 := rfl

private theorem held_pacCnt (i : ℕ) : (held i).pacCnt = 3 := rfl

private theorem held_xmtid (i : ℕ) : (held i).xmtid = 0 := rfl

private theorem held_pacIdx₀ : (held 0).pacIdx = 0 := rfl

private theorem held_pacIdx₁ : (held 1).pacIdx = 1 := rfl

/-- The parts of a state that differ along the run. -/
structure Scene where
  pipe : List PipelinedPack := []
  register : Option MsgPack := none
  queued : List MsgPack := []
  order : List (XmitIDT × List MsgPack) := []
  mixed : List MsgPack := []
  loop : List MsgPack := []
  reserved₀ : ℕ := 1
  reserved₁ : ℕ := 0
  xmtid : XmitIDT

/-- The state shows the scene, and everything else that the calls read is empty. -/
structure Shows (s : BusState) (x : Scene) : Prop where
  pointers : (s.nodes 0).rxPtr = 0 ∧ (s.nodes 0).sdPtr = 0 ∧
    (s.nodes 1).rxPtr = 0 ∧ (s.nodes 1).sdPtr = 0
  pipes : (s.nodes 0).pipeline = x.pipe ∧ (s.nodes 1).pipeline = []
  order : (s.nodes 1).orderBuf = x.order
  inputs : (s.edges (0, 1)).input 0 = none ∧ (s.edges (0, 1)).input 1 = none ∧
    (s.edges (1, 0)).input 0 = none ∧ (s.edges (1, 0)).input 1 = none
  outputs : (s.edges (0, 1)).output 0 = x.register ∧ (s.edges (0, 1)).output 1 = none ∧
    (s.edges (1, 0)).output 0 = none ∧ (s.edges (1, 0)).output 1 = none
  sendBuf : (s.ports 0).sendBuf 0 = [] ∧ (s.ports 0).sendBuf 1 = [] ∧
    (s.ports 1).sendBuf 0 = [] ∧ (s.ports 1).sendBuf 1 = x.queued
  recvBuf : (s.ports 1).recvBuf 0 = x.mixed ∧ (s.ports 1).recvBuf 1 = x.loop
  reserved : (s.ports 1).reserved 0 = x.reserved₀ ∧ (s.ports 1).reserved 1 = x.reserved₁
  xmtid : s.xmtidAlloc = x.xmtid

/-- A packet of a message that port 1 sends to itself on channel 1. -/
structure Local (cnt idx x : ℕ) (p : MsgPack) : Prop where
  tgt : p.tgt = 1
  dst : p.dst = 1
  cha : p.cha = 1
  pacCnt : p.pacCnt = cnt
  pacIdx : p.pacIdx = idx
  xmtid : p.xmtid = x

/-! ## Calls -/

theorem Shows.send {s : BusState} {x : Scene} (h : Shows s x) (hres : x.reserved₁ = 0)
    (hqueue : x.queued = []) {data : Bytes} (hdata : data.length ≤ 2) :
    Shows (reuseBus.perform s (.send 1 1 1 data)).2 { x with
      queued := reuseBus.packets s 1 1 1 data
      reserved₁ := 1
      xmtid := (x.xmtid + 1) % 2 ^ 32 } := by
  obtain ⟨hptr, hpipes, horder, hin, hout, ⟨hs₀, hs₁, hs₂, hs₃⟩, hrecv, ⟨hr₀, hr₁⟩, hx⟩ := h
  have hcnt : reuseBus.pacCnt data.length 1 = max data.length 1 := by
    have hwidth : reuseBus.width 1 = 1 := rfl
    rw [pacCnt, alignUp, hwidth]
    omega
  have hsmall : max data.length 1 ≤ 65535 := by omega
  have hsize : data.length ≤ 4096 := by omega
  have hport : reuseBus.validatePort 1 = .ok () := rfl
  have hcha : reuseBus.validateChannel 1 = .ok () := rfl
  have hsend : reuseBus.send s 1 1 1 data =
      .ok (true, enqueue (reuseBus.reserve s 1 1) 1 1 (reuseBus.packets s 1 1 1 data)) := by
    simp [Bus.send, hport, hcha, canSendNow, reuse_slots, reuse_max, reuse_enabled, hs₃, hr₁, hres,
      hqueue, hcnt, hsmall, hsize, bind, Except.bind, pure, Except.pure]
  rw [perform, hsend]
  constructor <;>
    simp [enqueue, reserve, reuse_slots, BusState.setPort, *]

theorem packets_one {s : BusState} {x : ℕ} (hx : s.xmtidAlloc = x) :
    ∃ p, reuseBus.packets s 1 1 1 [0] = [p] ∧ Local 1 0 x p :=
  ⟨_, rfl, rfl, rfl, rfl, rfl, rfl, hx⟩

theorem packets_two {s : BusState} {x : ℕ} (hx : s.xmtidAlloc = x) :
    ∃ p q, reuseBus.packets s 1 1 1 [0, 0] = [p, q] ∧ Local 2 0 x p ∧ Local 2 1 x q :=
  ⟨_, _, rfl, ⟨rfl, rfl, rfl, rfl, rfl, hx⟩, ⟨rfl, rfl, rfl, rfl, rfl, hx⟩⟩

theorem Shows.recv {s : BusState} {x : Scene} (h : Shows s x) {y : ℕ} {p : MsgPack}
    (hp : Local 1 0 y p) (hlocal : x.loop = [p]) (hres : x.reserved₁ = 1) :
    Shows (reuseBus.perform s (.recv 1 1)).2 { x with loop := [], reserved₁ := 0 } := by
  obtain ⟨hptr, hpipes, horder, hin, hout, hsend, ⟨hb₀, hb₁⟩, ⟨hr₀, hr₁⟩, hx⟩ := h
  have hrecvNow : reuseBus.recv s 1 1 = reuseBus.recvNow s 1 1 := rfl
  rw [perform, hrecvNow]
  constructor <;>
    simp [recvNow, takePackets, release, setRecvBuf, BusState.setPort,
      reuse_slots, hp.pacCnt, hp.pacIdx, *]

/-- A tick ages the pipeline of node 0 and delivers the local message. -/
theorem Shows.tick_age {s : BusState} {x : Scene} (h : Shows s x) {r y : ℕ} {p : MsgPack}
    (hpipe : x.pipe = [⟨held 0, r + 1⟩, ⟨held 1, r + 2⟩, ⟨held 2, r + 3⟩])
    (hreg : x.register = none) (hp : Local 1 0 y p) (hqueue : x.queued = [p])
    (hlocal : x.loop = []) :
    Shows (reuseBus.perform s .applyNextTick).2 { x with
      pipe := [⟨held 0, r⟩, ⟨held 1, r + 1⟩, ⟨held 2, r + 2⟩]
      queued := []
      loop := [p] } := by
  obtain ⟨⟨hp₀, hp₁, hp₂, hp₃⟩, ⟨hpi₀, hpi₁⟩, horder, ⟨hi₀, hi₁, hi₂, hi₃⟩, ⟨ho₀, ho₁, ho₂, ho₃⟩,
    ⟨hs₀, hs₁, hs₂, hs₃⟩, ⟨hb₀, hb₁⟩, ⟨hr₀, hr₁⟩, hx⟩ := h
  obtain ⟨htgt, hdst, hcha, hcnt, -, -⟩ := hp
  obtain ⟨s', htick, hshows⟩ : ∃ s', reuseBus.applyNextTick s = .ok s' ∧ Shows s' { x with
      pipe := [⟨held 0, r⟩, ⟨held 1, r + 1⟩, ⟨held 2, r + 2⟩]
      queued := []
      loop := [p] } := by
    simp [applyNextTick, processNode, admitPhase, findCandidate, scan, firstOutput, firstQueued,
      canAcceptCandidate, detachCandidate, admitCandidate, deliverToLocalPort, pipelinePhase,
      pipelineLoop, countCycles, updateCongestionState, bind, Except.bind, pure, Except.pure,
      BusState.setNode, BusState.setPort, reuse_rxs₀, reuse_rxs₁, reuse_ports₀, reuse_ports₁,
      reuse_range, reuse_nodes, reuse_edges, reuse_enabled, *]
    constructor <;>
      simp [refreshAllCongestionStates, processEdge, edgeLoop, BusState.setEdge,
        updateCongestionState, BusState.setNode, reuse_range, reuse_nodes, *]
  rw [perform, htick]
  exact hshows

/-- The held packets reach node 1 one after the other, behind the first packet of a local message
with the same id. -/
theorem Shows.tick_first {s : BusState} {x : Scene} (h : Shows s x) {p q : MsgPack}
    (hpipe : x.pipe = [⟨held 0, 0⟩, ⟨held 1, 1⟩, ⟨held 2, 2⟩]) (hreg : x.register = none)
    (hp : Local 2 0 0 p) (hqueue : x.queued = [p, q]) (hord : x.order = []) :
    Shows (reuseBus.perform s .applyNextTick).2 { x with
      pipe := [⟨held 1, 0⟩, ⟨held 2, 1⟩]
      register := some (held 0)
      queued := [q]
      order := [(0, [p])] } := by
  obtain ⟨⟨hp₀, hp₁, hp₂, hp₃⟩, ⟨hpi₀, hpi₁⟩, horder, ⟨hi₀, hi₁, hi₂, hi₃⟩, ⟨ho₀, ho₁, ho₂, ho₃⟩,
    ⟨hs₀, hs₁, hs₂, hs₃⟩, ⟨hb₀, hb₁⟩, ⟨hr₀, hr₁⟩, hx⟩ := h
  obtain ⟨htgt, hdst, hcha, hcnt, hidx, hxmt⟩ := hp
  obtain ⟨s', htick, hshows⟩ : ∃ s', reuseBus.applyNextTick s = .ok s' ∧ Shows s' { x with
      pipe := [⟨held 1, 0⟩, ⟨held 2, 1⟩]
      register := some (held 0)
      queued := [q]
      order := [(0, [p])] } := by
    simp [applyNextTick, processNode, admitPhase, findCandidate, scan, firstOutput, firstQueued,
      canAcceptCandidate, detachCandidate, admitCandidate, deliverToLocalPort, pipelinePhase,
      pipelineLoop, countCycles, updateCongestionState, bind, Except.bind, pure, Except.pure,
      BusState.setNode, BusState.setPort, reuse_rxs₀, reuse_rxs₁, reuse_ports₀, reuse_ports₁,
      reuse_range, reuse_nodes, reuse_edges, reuse_enabled, reuse_hop, held_tgt, held_cha,
      orderInsert, orderList, orderSet, orderErase, *]
    constructor <;>
      simp [refreshAllCongestionStates, processEdge, edgeLoop, BusState.setEdge,
        updateCongestionState, BusState.setNode, reuse_range, reuse_nodes, reuse_link, *]
  rw [perform, htick]
  exact hshows

theorem Shows.tick_second {s : BusState} {x : Scene} (h : Shows s x) {p : MsgPack}
    (hpipe : x.pipe = [⟨held 1, 0⟩, ⟨held 2, 1⟩]) (hreg : x.register = some (held 0))
    (hp : Local 2 0 0 p) (hord : x.order = [(0, [p])]) :
    Shows (reuseBus.perform s .applyNextTick).2 { x with
      pipe := [⟨held 2, 0⟩]
      register := some (held 1)
      order := [(0, [held 0, p])] } := by
  obtain ⟨⟨hp₀, hp₁, hp₂, hp₃⟩, ⟨hpi₀, hpi₁⟩, horder, ⟨hi₀, hi₁, hi₂, hi₃⟩, ⟨ho₀, ho₁, ho₂, ho₃⟩,
    ⟨hs₀, hs₁, hs₂, hs₃⟩, ⟨hb₀, hb₁⟩, ⟨hr₀, hr₁⟩, hx⟩ := h
  obtain ⟨htgt, hdst, hcha, hcnt, hidx, hxmt⟩ := hp
  obtain ⟨s', htick, hshows⟩ : ∃ s', reuseBus.applyNextTick s = .ok s' ∧ Shows s' { x with
      pipe := [⟨held 2, 0⟩]
      register := some (held 1)
      order := [(0, [held 0, p])] } := by
    simp [applyNextTick, processNode, admitPhase, findCandidate, scan, firstOutput, firstQueued,
      canAcceptCandidate, detachCandidate, admitCandidate, deliverToLocalPort, pipelinePhase,
      pipelineLoop, countCycles, updateCongestionState, bind, Except.bind, pure, Except.pure,
      BusState.setNode, BusState.setPort, reuse_rxs₀, reuse_rxs₁, reuse_ports₀, reuse_ports₁,
      reuse_range, reuse_nodes, reuse_edges, reuse_enabled, reuse_hop, held_tgt, held_cha,
      held_dst, held_pacCnt, held_xmtid, held_pacIdx₀, BusState.setEdge,
      orderInsert, orderList, orderSet, orderErase, *]
    constructor <;>
      simp [refreshAllCongestionStates, processEdge, edgeLoop, BusState.setEdge,
        updateCongestionState, BusState.setNode, reuse_range, reuse_nodes, reuse_link, *]
  rw [perform, htick]
  exact hshows

theorem Shows.tick_third {s : BusState} {x : Scene} (h : Shows s x) {p : MsgPack}
    (hpipe : x.pipe = [⟨held 2, 0⟩]) (hreg : x.register = some (held 1))
    (hp : Local 2 0 0 p) (hord : x.order = [(0, [held 0, p])]) (hmixed : x.mixed = []) :
    Shows (reuseBus.perform s .applyNextTick).2 { x with
      pipe := []
      register := some (held 2)
      order := []
      mixed := [held 0, p, held 1] } := by
  obtain ⟨⟨hp₀, hp₁, hp₂, hp₃⟩, ⟨hpi₀, hpi₁⟩, horder, ⟨hi₀, hi₁, hi₂, hi₃⟩, ⟨ho₀, ho₁, ho₂, ho₃⟩,
    ⟨hs₀, hs₁, hs₂, hs₃⟩, ⟨hb₀, hb₁⟩, ⟨hr₀, hr₁⟩, hx⟩ := h
  obtain ⟨htgt, hdst, hcha, hcnt, hidx, hxmt⟩ := hp
  obtain ⟨s', htick, hshows⟩ : ∃ s', reuseBus.applyNextTick s = .ok s' ∧ Shows s' { x with
      pipe := []
      register := some (held 2)
      order := []
      mixed := [held 0, p, held 1] } := by
    simp [applyNextTick, processNode, admitPhase, findCandidate, scan, firstOutput, firstQueued,
      canAcceptCandidate, detachCandidate, admitCandidate, deliverToLocalPort, pipelinePhase,
      pipelineLoop, countCycles, updateCongestionState, bind, Except.bind, pure, Except.pure,
      BusState.setNode, BusState.setPort, reuse_rxs₀, reuse_rxs₁, reuse_ports₀, reuse_ports₁,
      reuse_range, reuse_nodes, reuse_edges, reuse_enabled, reuse_hop, held_tgt, held_cha,
      held_dst, held_pacCnt, held_xmtid, held_pacIdx₀, held_pacIdx₁, BusState.setEdge,
      orderInsert, orderList, orderSet, orderErase, *]
    constructor <;>
      simp [refreshAllCongestionStates, processEdge, edgeLoop, BusState.setEdge,
        updateCongestionState, BusState.setNode, reuse_range, reuse_nodes, reuse_link, *]
  rw [perform, htick]
  exact hshows

/-- The `recv` that throws removes the first held packet only. -/
theorem Shows.recv_throws {s : BusState} {x : Scene} (h : Shows s x) {p : MsgPack}
    (hp : Local 2 0 0 p) (hmixed : x.mixed = [held 0, p, held 1]) :
    Shows (reuseBus.perform s (.recv 1 0)).2 { x with mixed := [p, held 1] } := by
  obtain ⟨hptr, hpipes, horder, hin, hout, hsend, ⟨hb₀, hb₁⟩, ⟨hr₀, hr₁⟩, hx⟩ := h
  have hrecvNow : reuseBus.recv s 1 0 = reuseBus.recvNow s 1 0 := rfl
  rw [perform, hrecvNow]
  constructor <;>
    simp [recvNow, takePackets, setRecvBuf, BusState.setPort, hp.pacIdx, held_pacCnt,
      held_pacIdx₀, *]

/-- The next one takes a packet of each message for one message. -/
theorem Shows.recv_mixed {s : BusState} {x : Scene} (h : Shows s x) {p : MsgPack}
    (hp : Local 2 0 0 p) (hmixed : x.mixed = [p, held 1]) (hres : x.reserved₀ = 1) :
    Shows (reuseBus.perform s (.recv 1 0)).2 { x with mixed := [], reserved₀ := 0 } := by
  obtain ⟨hptr, hpipes, horder, hin, hout, hsend, ⟨hb₀, hb₁⟩, ⟨hr₀, hr₁⟩, hx⟩ := h
  have hrecvNow : reuseBus.recv s 1 0 = reuseBus.recvNow s 1 0 := rfl
  rw [perform, hrecvNow]
  constructor <;>
    simp [recvNow, takePackets, release, setRecvBuf, BusState.setPort,
      reuse_slots, hp.pacCnt, hp.pacIdx, held_pacIdx₁, *]

/-! ## The run -/

/-- A local message of one packet goes out and comes back. -/
def localRound : List Call := [.send 1 1 1 [0], .applyNextTick, .recv 1 1]

def reuseStart : List Call :=
  .send 0 1 0 [1, 2, 3] :: (localRound ++ localRound ++ localRound)

def localRounds : ℕ → List Call
  | 0 => []
  | n + 1 => localRound ++ localRounds n

def reuseEnd : List Call :=
  [.send 1 1 1 [0, 0], .applyNextTick, .applyNextTick, .applyNextTick, .recv 1 0, .recv 1 0]

/-- The held message is accepted, then `2 ^ 32 - 1` local ones of one packet, then a local one of
two packets. -/
def reuseCalls : List Call := reuseStart ++ localRounds (2 ^ 32 - 4) ++ reuseEnd

private theorem run_nil (b : Bus) (s : BusState) : (b.run s []).2 = s := rfl

private theorem run_cons (b : Bus) (s : BusState) (call : Call) (calls : List Call) :
    (b.run s (call :: calls)).2 = (b.run (b.perform s call).2 calls).2 := rfl

theorem shows_start : Shows (reuseBus.run {} reuseStart).2 {
    pipe := [⟨held 0, 2 ^ 32 - 4⟩, ⟨held 1, 2 ^ 32 - 3⟩, ⟨held 2, 2 ^ 32 - 2⟩]
    xmtid := 4 } := by
  constructor <;> decide +kernel

theorem Shows.round {s : BusState} {r x : ℕ} (h : Shows s
    { pipe := [⟨held 0, r + 1⟩, ⟨held 1, r + 2⟩, ⟨held 2, r + 3⟩], xmtid := x }) :
    Shows (reuseBus.run s localRound).2
      { pipe := [⟨held 0, r⟩, ⟨held 1, r + 1⟩, ⟨held 2, r + 2⟩], xmtid := (x + 1) % 2 ^ 32 } := by
  obtain ⟨p, hpacks, hp⟩ := packets_one h.xmtid
  have hsent := h.send rfl rfl (show ([0] : Bytes).length ≤ 2 by decide)
  rw [hpacks] at hsent
  simp only [localRound, run_cons, run_nil]
  exact (hsent.tick_age rfl rfl hp rfl rfl).recv hp rfl rfl

theorem Shows.rounds {n : ℕ} : ∀ {s : BusState} {x : ℕ}, x + n ≤ 2 ^ 32 → Shows s
    { pipe := [⟨held 0, n⟩, ⟨held 1, n + 1⟩, ⟨held 2, n + 2⟩], xmtid := x % 2 ^ 32 } →
    Shows (reuseBus.run s (localRounds n)).2
      { pipe := [⟨held 0, 0⟩, ⟨held 1, 1⟩, ⟨held 2, 2⟩], xmtid := (x + n) % 2 ^ 32 } := by
  induction n with
  | zero => exact fun _ h ↦ h
  | succ n ih =>
    intro s x hx h
    have hround := h.round
    rw [show (x % 2 ^ 32 + 1) % 2 ^ 32 = (x + 1) % 2 ^ 32 by omega] at hround
    rw [localRounds, run_append, show x + (n + 1) = x + 1 + n by omega]
    exact ih (by omega) hround

theorem Shows.ending {s : BusState} (h : Shows s
    { pipe := [⟨held 0, 0⟩, ⟨held 1, 1⟩, ⟨held 2, 2⟩], xmtid := 0 }) :
    ∃ x : Scene, x.register = some (held 2) ∧ x.reserved₀ = 0 ∧
      Shows (reuseBus.run s reuseEnd).2 x := by
  obtain ⟨p, q, hpacks, hp, -⟩ := packets_two h.xmtid
  have hsent := h.send rfl rfl (show ([0, 0] : Bytes).length ≤ 2 by decide)
  rw [hpacks] at hsent
  have hticks := ((hsent.tick_first rfl rfl hp rfl rfl).tick_second rfl rfl hp rfl).tick_third
    rfl rfl hp rfl rfl
  have hrecvs := (hticks.recv_throws hp rfl).recv_mixed hp rfl rfl
  simp only [Simbus.reuseEnd, run_cons, run_nil]
  refine ⟨_, ?_, ?_, hrecvs⟩ <;> rfl

theorem known_reuseCalls : ∀ call ∈ reuseCalls, call.Known reuseBus (2 ^ 31 + 1) := by
  have hround : ∀ call ∈ localRound, call.Known reuseBus (2 ^ 31 + 1) := by decide +kernel
  have hrounds : ∀ n, ∀ call ∈ localRounds n, call.Known reuseBus (2 ^ 31 + 1) := by
    intro n
    induction n with
    | zero => exact fun _ h ↦ nomatch h
    | succ n ih => exact fun call h ↦ (List.mem_append.mp h).elim (hround call) (ih call)
  have hstart : ∀ call ∈ reuseStart, call.Known reuseBus (2 ^ 31 + 1) := by decide +kernel
  have hend : ∀ call ∈ reuseEnd, call.Known reuseBus (2 ^ 31 + 1) := by decide +kernel
  intro call hcall
  rcases List.mem_append.mp hcall with hcall | hcall
  · exact (List.mem_append.mp hcall).elim (hstart call) (hrounds _ call)
  · exact hend call hcall

/-- With a reused transmission id the counter falls to zero while a packet of the message that it
counts is still on an edge. -/
theorem not_creditsOk_reuse :
    construct .insertion [0, 1] [0, 1] [1, 1] pairRoute reuseConfig = .ok reuseBus ∧
      reuseBus.config.receiveMessageSlots ≠ 0 ∧
      (∀ call ∈ reuseCalls, call.Known reuseBus (2 ^ 31 + 1)) ∧
      ¬CreditsOk reuseBus (reuseBus.run {} reuseCalls).1 (reuseBus.run {} reuseCalls).2 := by
  refine ⟨rfl, by decide, known_reuseCalls, fun hok ↦ ?_⟩
  have hrounds := Shows.rounds (n := 2 ^ 32 - 4) (x := 4) (by decide) shows_start
  obtain ⟨x, hreg, hres, hshows⟩ := hrounds.ending
  have hrun : (reuseBus.run {} reuseCalls).2 = (reuseBus.run (reuseBus.run
      (reuseBus.run {} reuseStart).2 (localRounds (2 ^ 32 - 4))).2 reuseEnd).2 := by
    rw [reuseCalls, run_append, run_append]
  rw [← hrun] at hshows
  obtain ⟨n, hn, -, hcount, -⟩ := hok.reserved 1 0 rfl (by decide)
  have hzero : n = 0 := by
    have hreserved : reuseBus.reservedMessages (reuseBus.run {} reuseCalls).2 1 0 =
        .ok (((reuseBus.run {} reuseCalls).2.ports 1).reserved 0) := rfl
    rw [hreserved, hshows.reserved.1, hres] at hn
    exact (Except.ok.inj hn).symm
  have hmem : held 2 ∈ reuseBus.networkAt (reuseBus.run {} reuseCalls).2 1 0 := by
    refine List.mem_filter.mpr ⟨List.mem_append_left _ (List.mem_flatMap.mpr
      ⟨.output (0, 1) 0, by decide, ?_⟩), rfl⟩
    rw [BusState.contents, hshows.outputs.1, hreg]
    exact List.mem_singleton.mpr rfl
  have hserial := List.mem_dedup.mpr (List.mem_map_of_mem (f := MsgPack.serial) hmem)
  rw [List.length_eq_zero_iff.mp (hcount.trans hzero)] at hserial
  cases hserial

end Simbus
