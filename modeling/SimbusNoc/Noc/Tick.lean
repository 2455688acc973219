import SimbusNoc.Noc.Transfer

/-!
# One tick of the network

`apply_next_tick` and the functions under it. Each node first admits at most one packet, from an
incoming edge or else from a local port, into its pipeline or to a local port; then it ages its
pipeline and moves the packets that are due onto their next edge. Then each edge moves packets from
its input to its output registers.

## Nodes before edges

Within a tick the nodes are processed one after the other. A node takes packets out of the output
registers of the edges that lead to it and puts packets into the input registers of those that
leave it, and only the edges, when all nodes are through, move packets from input to output. This
is why the order of the nodes does not matter, although each of them changes the state that the
next one sees.

## Candidates

`find_candidate` remembers where its two round-robin scans have stopped. The pointers also move
when nothing is found or when the candidate is refused afterwards, and the model keeps them in the
state in just this way: what a node considers next depends on them.

## Congestion

Congestion is updated twice in a tick for each node, once by the node itself and once for all nodes
when the edges are through. The second update sees the buffer counts that the tick leaves.
-/

namespace Simbus

namespace Bus

variable (b : Bus)

/-! ## Choosing a candidate -/

/-- The packet a node considers in one tick, with the place it would be taken from. -/
inductive Candidate
  | none
  | edgeOutput (edge : EdgeId) (channel : ChannelT) (pack : MsgPack)
  | portSend (port : BusPortT) (channel : ChannelT) (pack : MsgPack)

/-- The first channel whose output register on `edge` is occupied. -/
def firstOutput (s : BusState) (edge : EdgeId) : Option (ChannelT × MsgPack) :=
  (List.range b.chaCnt).findSome? fun c ↦ ((s.edges edge).output c).map fun p ↦ (c, p)

/-- The first channel whose send buffer at `port` is not empty, with its front. -/
def firstQueued (s : BusState) (port : BusPortT) : Option (ChannelT × MsgPack) :=
  (List.range b.chaCnt).findSome? fun c ↦ (((s.ports port).sendBuf c).head?).map fun p ↦ (c, p)

/-- A round-robin scan of `xs`: at most `n` turns from position `ptr`, stopping at the first
element that offers something. Returns the position reached. -/
def scan {α β : Type} (offer : α → Option β) (xs : List α) : ℕ → ℕ → ℕ × Option (α × β)
  | 0, ptr => (ptr, Option.none)
  | n + 1, ptr =>
    match xs[ptr]? with
    | Option.none => (ptr, Option.none)
    | some x =>
      match offer x with
      | some y => (ptr, some (x, y))
      | Option.none => scan offer xs n ((ptr + 1) % xs.length)

/-- `find_candidate`. Both pointers can move even when nothing is found. -/
def findCandidate (v : BusNodeT) (s : BusState) : BusState × Candidate :=
  let node := s.nodes v
  let rxs := b.rxs v
  match scan (b.firstOutput s) rxs rxs.length node.rxPtr with
  | (ptr, some (e, c, p)) => (s.setNode v { node with rxPtr := ptr }, .edgeOutput e c p)
  | (ptr, Option.none) =>
    let node := { node with rxPtr := ptr }
    let ports := b.nodePorts v
    match scan (b.firstQueued s) ports ports.length node.sdPtr with
    | (q, some (port, c, p)) => (s.setNode v { node with sdPtr := q }, .portSend port c p)
    | (q, Option.none) => (s.setNode v { node with sdPtr := q }, .none)

/-! ## Admitting it -/

/-- `can_accept_forward_packet`. -/
def canAcceptForwardPacket (node : NodeStruct) : Bool :=
  !b.config.congestion.enabled ||
    decide (node.bufferedPackets < b.config.congestion.nodeBufferLimit)

/-- `can_accept_candidate`. A packet that has reached its node is always accepted. -/
def canAcceptCandidate (v : BusNodeT) (node : NodeStruct) (pack : MsgPack) : Bool :=
  if pack.tgt = v then true else b.canAcceptForwardPacket node

/-- `detach_candidate`. -/
def detachCandidate (v : BusNodeT) (s : BusState) : Candidate → Except String BusState
  | .none => .ok s
  | .edgeOutput e c p => do
    let edge := s.edges e
    require (edge.output c == some p) "edge candidate changed before detach"
    let node := s.nodes v
    return (s.setEdge e { edge with output := Function.update edge.output c Option.none }).setNode v
      { node with rxPtr := (node.rxPtr + 1) % (b.rxs v).length }
  | .portSend port c p => do
    let q := s.ports port
    require ((q.sendBuf c).head? == some p) "port candidate changed before detach"
    let node := s.nodes v
    return (s.setPort port { q with
      sendBuf := Function.update q.sendBuf c (q.sendBuf c).tail }).setNode v
      { node with sdPtr := (node.sdPtr + 1) % (b.nodePorts v).length }

/-- The list a transmission id maps to, empty when the id is new. -/
def orderList (buf : List (XmitIDT × List MsgPack)) (xmt : XmitIDT) : List MsgPack :=
  (buf.lookup xmt).getD []

/-- `order_buf.erase`. -/
def orderErase (buf : List (XmitIDT × List MsgPack)) (xmt : XmitIDT) :
    List (XmitIDT × List MsgPack) :=
  buf.filter fun e ↦ !(e.1 == xmt)

/-- `order_buf[xmt] = l`. -/
def orderSet (buf : List (XmitIDT × List MsgPack)) (xmt : XmitIDT) (l : List MsgPack) :
    List (XmitIDT × List MsgPack) :=
  (xmt, l) :: orderErase buf xmt

/-- The insertion of `deliver_to_local_port`: before the first packet whose index is not
smaller. -/
def orderInsert (p : MsgPack) : List MsgPack → List MsgPack
  | [] => [p]
  | q :: l => if q.pacIdx < p.pacIdx then q :: orderInsert p l else p :: q :: l

/-- `deliver_to_local_port`. -/
def deliverToLocalPort (v : BusNodeT) (s : BusState) (p : MsgPack) : Except String BusState := do
  require ((b.nodePorts v).contains p.dst)
    s!"destination port {p.dst} is not attached to node {v}"
  let port := s.ports p.dst
  if p.pacCnt ≤ 1 then
    return s.setPort p.dst
      { port with recvBuf := Function.update port.recvBuf p.cha (port.recvBuf p.cha ++ [p]) }
  let node := s.nodes v
  let l := orderInsert p (orderList node.orderBuf p.xmtid)
  if l.length = p.pacCnt then
    return (s.setPort p.dst
      { port with
        recvBuf := Function.update port.recvBuf p.cha (port.recvBuf p.cha ++ l) }).setNode v
      { node with orderBuf := orderErase node.orderBuf p.xmtid }
  return s.setNode v { node with orderBuf := orderSet node.orderBuf p.xmtid l }

/-- `admit_candidate`. -/
def admitCandidate (v : BusNodeT) (s : BusState) (p : MsgPack) : Except String BusState :=
  if p.tgt = v then do
    let s ← b.deliverToLocalPort v s p
    let node := s.nodes v
    return s.setNode v { node with passedPacks := node.passedPacks + 1 }
  else
    let node := s.nodes v
    .ok (s.setNode v { node with
      pipeline := node.pipeline ++ [⟨p, b.routeLatency⟩]
      bufferedPackets :=
        if b.config.congestion.enabled then node.bufferedPackets + 1 else node.bufferedPackets })

/-- The first half of `process_node`: admit the candidate or count a blocked cycle. Returns whether
there was one. -/
def admitPhase (v : BusNodeT) (s : BusState) : Except String (BusState × Bool) :=
  match b.findCandidate v s with
  | (s, .none) => .ok (s, false)
  | (s, cand@(.edgeOutput _ _ p)) | (s, cand@(.portSend _ _ p)) =>
    if b.canAcceptCandidate v (s.nodes v) p then do
      let s ← b.detachCandidate v s cand
      let s ← b.admitCandidate v s p
      return (s, true)
    else
      let node := s.nodes v
      .ok (s.setNode v { node with blockedCycles := node.blockedCycles + 1 }, true)

/-! ## The pipeline -/

/-- `next_hop`. -/
def nextHop (src dst : BusNodeT) : Except String BusNodeT :=
  if src = dst then .ok src
  else match b.route.lookup src with
    | none => .error s!"route source not found: {src}"
    | some row => match row.lookup dst with
      | none => .error s!"route entry not found: {src} -> {dst}"
      | some next => .ok next

/-- What the pipeline loop of `process_node` reads and writes besides the pipeline itself. -/
structure PipelineLoop where
  edges : EdgeId → EdgeInChannel
  bufferedPackets : ℕ
  blockedCycles : ℕ
  busy : Bool

/-- The pipeline loop: every packet ages, and a packet that is due moves to its next edge when the
input register of its channel is free. Returns the packets that stay. -/
def pipelineLoop (v : BusNodeT) :
    List PipelinedPack → PipelineLoop → Except String (List PipelinedPack × PipelineLoop)
  | [], st => .ok ([], st)
  | item :: rest, st =>
    if 0 < item.cycleRemained then do
      let (kept, st) ← pipelineLoop v rest { st with busy := true }
      return (⟨item.pack, item.cycleRemained - 1⟩ :: kept, st)
    else do
      let next ← b.nextHop v item.pack.tgt
      require (b.edgeIds.contains (v, next)) s!"missing edge {v} -> {next}"
      let edge := st.edges (v, next)
      match edge.input item.pack.cha with
      | none =>
        require (!b.config.congestion.enabled || decide (0 < st.bufferedPackets))
          "router buffer underflow on pipeline release"
        pipelineLoop v rest { st with
          edges := Function.update st.edges (v, next)
            { edge with input := Function.update edge.input item.pack.cha (some item.pack) }
          bufferedPackets :=
            if b.config.congestion.enabled then st.bufferedPackets - 1 else st.bufferedPackets
          busy := true }
      | some _ => do
        let (kept, st) ← pipelineLoop v rest { st with
          blockedCycles := st.blockedCycles + 1
          busy := true }
        return (item :: kept, st)

/-- The pipeline loop on the whole state. -/
def pipelinePhase (v : BusNodeT) (s : BusState) (busy : Bool) : Except String
    (BusState × Bool) := do
  let node := s.nodes v
  let (kept, st) ← b.pipelineLoop v node.pipeline
    { edges := s.edges
      bufferedPackets := node.bufferedPackets
      blockedCycles := node.blockedCycles
      busy := busy }
  return ({ s with edges := st.edges }.setNode v
    { node with
      pipeline := kept
      bufferedPackets := st.bufferedPackets
      blockedCycles := st.blockedCycles }, st.busy)

/-! ## Nodes, edges and the tick -/

/-- The value `update_congestion_state` gives `congested`. -/
def nextCongested (node : NodeStruct) : Bool :=
  if !b.config.congestion.enabled then false
  else if !node.congested && decide (b.config.congestion.highWatermark ≤ node.bufferedPackets) then
    true
  else if node.congested && decide (node.bufferedPackets ≤ b.config.congestion.lowWatermark) then
    false
  else node.congested

/-- `update_congestion_state`. -/
def updateCongestionState (v : BusNodeT) (s : BusState) : BusState :=
  let node := s.nodes v
  s.setNode v { node with congested := b.nextCongested node }

/-- The cycle counters at the end of `process_node`. -/
def countCycles (v : BusNodeT) (busy : Bool) (s : BusState) : BusState :=
  let node := s.nodes v
  s.setNode v { node with
    congestedCycles := if node.congested then node.congestedCycles + 1 else node.congestedCycles
    busyCycles := if busy then node.busyCycles + 1 else node.busyCycles }

/-- `process_node`. -/
def processNode (v : BusNodeT) (s : BusState) : Except String BusState := do
  let (s, busy) ← b.admitPhase v s
  let (s, busy) ← b.pipelinePhase v s busy
  return countCycles v busy (b.updateCongestionState v s)

/-- The channel loop of `process_edge`, over the channels still to come. `totalSz` is a 32-bit
counter. -/
def edgeLoop : List ChannelT → ℕ → EdgeInChannel → EdgeInChannel
  | [], _, edge => edge
  | c :: rest, totalSz, edge =>
    if b.linkWidthByte ≤ totalSz then edge
    else match edge.input c, edge.output c with
      | some p, none =>
        if 0 < totalSz ∧ b.linkWidthByte < (totalSz + p.data.length) % 2 ^ 32 then
          edgeLoop rest totalSz edge
        else
          edgeLoop rest ((totalSz + p.data.length) % 2 ^ 32)
            { edge with
              input := Function.update edge.input c none
              output := Function.update edge.output c (some p)
              busyCycles := edge.busyCycles + 1 }
      | _, _ => edgeLoop rest totalSz edge

/-- `process_edge`. -/
def processEdge (s : BusState) (e : EdgeId) : BusState :=
  s.setEdge e (b.edgeLoop (List.range b.chaCnt) 0 (s.edges e))

/-- `refresh_all_congestion_states`. -/
def refreshAllCongestionStates (s : BusState) : BusState :=
  b.nodeIds.foldl (fun s v ↦ b.updateCongestionState v s) s

/-- `apply_next_tick`. -/
def applyNextTick (s : BusState) : Except String BusState := do
  let s ← b.nodeIds.foldlM (fun s v ↦ b.processNode v s) s
  let s := b.refreshAllCongestionStates (b.edgeIds.foldl b.processEdge s)
  return { s with
    currentTick := s.currentTick + 1
    stats := { s.stats with tick := s.currentTick + 1 } }

end Bus

end Simbus
