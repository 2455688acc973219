import SimbusNoc.Noc.RouteTable
import Mathlib.Data.List.Sort

/-!
# The bus and its state

`SymmetricMultiChannelBus` in two parts: `Bus` holds what the constructor fixes (topology, widths,
configuration) and `BusState` what the calls change. Edge pointers become the pair of nodes the
edge joins, since there is at most one edge for each ordered pair, and a port iterator becomes a
position in the node's port list.

## Where a packet can be

A packet waits in the send buffer of its source port, in the pipeline of a router, in the input or
the output register of an edge, in the order list of its destination node, or in the receive buffer
of its destination port. Registers hold at most one packet for each channel, and are functions from
channels. Buffers are lists, with their front first.

## Iteration order

The standard leaves the iteration order of an unordered map open, so the order in which
`apply_next_tick` meets the nodes, and a node its ports, is an argument of the constructor
(`HashOrder`). Whatever is proved of a bus is proved for each such order. The edges are a
`std::set` in the source, so they have one.

## Ghost fields

Two fields are ghost: `MsgPack.serial` and `BusState.accepted` number the accepted messages without
wrapping. No function reads them; the transmission id that the code uses keeps their low 32 bits.
Without them one could not say that two packets with one id belong to different messages.
-/

namespace Simbus

/-! ## Configuration -/

structure CongestionConfig where
  enabled : Bool := true
  nodeBufferLimit : ℕ := 512
  highWatermark : ℕ := 480
  lowWatermark : ℕ := 384
  deriving DecidableEq

structure NocConfig where
  linkWidthByte : ℕ := 64
  routeLatency : ℕ := 3
  congestion : CongestionConfig := {}
  receiveMessageSlots : ℕ := 0
  maxMessageBytes : ℕ := 4096
  deriving DecidableEq

/-! ## Packets and containers -/

structure MsgPack where
  src : BusPortT
  dst : BusPortT
  tgt : BusNodeT
  cha : ChannelT
  xmtid : XmitIDT
  len : ℕ
  pacIdx : ℕ
  pacCnt : ℕ
  data : Bytes
  txStartTick : ℕ
  /-- Ghost: the number of the message among the accepted ones. -/
  serial : ℕ
  deriving DecidableEq

structure PipelinedPack where
  pack : MsgPack
  cycleRemained : ℕ
  deriving DecidableEq

/-- An edge, named by the nodes it leaves and enters. -/
abbrev EdgeId := BusNodeT × BusNodeT

structure EdgeInChannel where
  input : ChannelT → Option MsgPack := fun _ ↦ none
  output : ChannelT → Option MsgPack := fun _ ↦ none
  busyCycles : ℕ := 0

structure PortStruct where
  recvBuf : ChannelT → List MsgPack := fun _ ↦ []
  sendBuf : ChannelT → List MsgPack := fun _ ↦ []
  reserved : ChannelT → ℕ := fun _ ↦ 0

structure NodeStruct where
  rxPtr : ℕ := 0
  /-- The position of the port iterator in the node's port list. -/
  sdPtr : ℕ := 0
  pipeline : List PipelinedPack := []
  orderBuf : List (XmitIDT × List MsgPack) := []
  bufferedPackets : ℕ := 0
  congested : Bool := false
  busyCycles : ℕ := 0
  passedPacks : ℕ := 0
  congestedCycles : ℕ := 0
  blockedCycles : ℕ := 0

structure NocStatistics where
  tick : ℕ := 0
  destinationCreditStalls : ℕ := 0
  maxReservedMessages : ℕ := 0
  transmittedPackets : ℕ := 0
  receivedMessages : ℕ := 0
  packetLatencySum : ℕ := 0
  deriving DecidableEq

/-- What the calls change. -/
structure BusState where
  nodes : BusNodeT → NodeStruct := fun _ ↦ {}
  ports : BusPortT → PortStruct := fun _ ↦ {}
  edges : EdgeId → EdgeInChannel := fun _ ↦ {}
  xmtidAlloc : XmitIDT := 0
  currentTick : ℕ := 0
  stats : NocStatistics := {}
  /-- Packets taken by `recv` for each pair of ports; the source packs the pair into one key. -/
  transmitCnt : BusPortT × BusPortT → ℕ := fun _ ↦ 0
  /-- Ghost: the number of messages accepted so far. -/
  accepted : ℕ := 0

namespace BusState

def setNode (s : BusState) (v : BusNodeT) (n : NodeStruct) : BusState :=
  { s with nodes := Function.update s.nodes v n }

def setPort (s : BusState) (p : BusPortT) (q : PortStruct) : BusState :=
  { s with ports := Function.update s.ports p q }

def setEdge (s : BusState) (e : EdgeId) (x : EdgeInChannel) : BusState :=
  { s with edges := Function.update s.edges e x }

end BusState

/-! ## The constructor -/

/-- The iteration orders of the unordered maps of nodes and of ports. -/
structure HashOrder where
  nodes : List BusNodeT → List BusNodeT
  ports : List BusPortT → List BusPortT
  nodes_perm : ∀ l, (nodes l).Perm l
  ports_perm : ∀ l, (ports l).Perm l

/-- The order in which the keys were inserted. -/
def HashOrder.insertion : HashOrder where
  nodes := id
  ports := id
  nodes_perm := fun _ ↦ List.Perm.refl _
  ports_perm := fun _ ↦ List.Perm.refl _

/-- What the constructor fixes. -/
structure Bus where
  chaCnt : ℕ
  linkWidthByte : ℕ
  routeLatency : ℕ
  chaWidths : List ℕ
  port2node : List (BusPortT × BusNodeT)
  route : BusRouteTable
  config : NocConfig
  /-- The nodes in the order `apply_next_tick` meets them. -/
  nodeIds : List BusNodeT
  /-- The ports attached to each node, in the order its port iterator meets them. -/
  nodePorts : BusNodeT → List BusPortT
  /-- The edges in the order of `edges_`. -/
  edgeIds : List EdgeId

namespace Bus

variable (b : Bus)

/-- The node a port is attached to. -/
def home (p : BusPortT) : BusNodeT := (b.port2node.lookup p).getD 0

/-- `port` is a key of `ports_`. -/
def knownPort (p : BusPortT) : Bool := (b.port2node.map Prod.fst).contains p

/-- The incoming edges of a node, in the order `build_network` pushes them. -/
def rxs (v : BusNodeT) : List EdgeId := b.edgeIds.filter fun e ↦ e.2 == v

/-- The width of a channel in bytes. -/
def width (c : ChannelT) : ℕ := b.chaWidths.getD c 1

end Bus

/-- `validate_config`, on the constructor's own copies of the counts. -/
def validateConfig (channelsWidthByte : List ℕ) (config : NocConfig) : Except String Unit := do
  require (decide (0 < channelsWidthByte.length)) "NoC needs at least one channel"
  require (decide (0 < config.linkWidthByte)) "link_width_byte must be non-zero"
  require (config.receiveMessageSlots == 0 || decide (0 < config.maxMessageBytes))
    "bounded reception needs a non-zero message size limit"
  channelsWidthByte.zipIdx.forM fun (w, c) ↦ do
    require (decide (0 < w)) s!"channel width must be non-zero: channel {c}"
    require (decide (w ≤ 65536)) s!"channel width too large: channel {c}"
  if config.congestion.enabled then
    require (decide (0 < config.congestion.nodeBufferLimit)) "node_buffer_limit must be non-zero"
    require (decide (config.congestion.highWatermark ≤ config.congestion.nodeBufferLimit))
      "high_watermark must be <= node_buffer_limit"
    require (decide (config.congestion.lowWatermark ≤ config.congestion.highWatermark))
      "low_watermark must be <= high_watermark"

/-- The insertions into `unique_ports`, the first repeated one throwing. -/
def uniquePorts : List BusPortT → List BusPortT → Except String Unit
  | _, [] => .ok ()
  | seen, p :: rest => do
    require (!seen.contains p) s!"duplicate port id: {p}"
    uniquePorts (p :: seen) rest

/-- The order of a `std::set` of pairs. -/
def edgeLe (e f : EdgeId) : Prop := e.1 < f.1 ∨ (e.1 = f.1 ∧ e.2 ≤ f.2)

instance : DecidableRel edgeLe := fun e f ↦
  inferInstanceAs (Decidable (e.1 < f.1 ∨ (e.1 = f.1 ∧ e.2 ≤ f.2)))

/-- The entries that make an edge: not a node's entry for itself, and not one that stays put. -/
def edgeEntries (route : BusRouteTable) : List EdgeId :=
  (route.toTriples.filter fun (src, dst, next) ↦ !(src == dst || next == src)).map
    fun (src, _, next) ↦ (src, next)

/-- The set of all edges: each entry's hop and its reverse, sorted. -/
def allEdges (route : BusRouteTable) : List EdgeId :=
  ((edgeEntries route).flatMap fun (src, next) ↦ [(src, next), (next, src)]).dedup.insertionSort
    edgeLe

/-- The constructor: `validate_config`, the two checks on the port vectors, and
`build_network`. -/
def construct (ord : HashOrder) (portIds : List BusPortT) (portToNode : List BusNodeT)
    (channelsWidthByte : List ℕ) (route : BusRouteTable) (config : NocConfig) :
    Except String Bus := do
  validateConfig channelsWidthByte config
  require (portIds.length == portToNode.length) "port_ids and port_to_node must have the same size"
  require (!portIds.isEmpty) "NoC needs at least one port"
  uniquePorts [] portIds
  let nodeIds := portToNode.dedup.insertionSort (· ≤ ·)
  assertRouteTableValid nodeIds route
  (edgeEntries route).forM fun (src, next) ↦ do
    require (nodeIds.contains src) s!"route src is not a known node: {src}"
    require (nodeIds.contains next) s!"route next hop is not a known node: {next}"
  return {
    chaCnt := channelsWidthByte.length
    linkWidthByte := config.linkWidthByte
    routeLatency := config.routeLatency
    chaWidths := channelsWidthByte
    port2node := portIds.zip portToNode
    route := route
    config := config
    nodeIds := ord.nodes nodeIds
    nodePorts := fun v ↦
      ord.ports (((portIds.zip portToNode).filter fun pn ↦ pn.2 == v).map Prod.fst)
    edgeIds := allEdges route }

end Simbus
