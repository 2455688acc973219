import SimbusNoc.Noc.Bus

/-!
# Sending and receiving

`can_send`, `send`, `can_recv` and `recv` of `SymmetricMultiChannelBus`. A call that throws before
it changes anything is an error of `Except`; `recv` can throw after it has removed packets, so it
returns the state in every case.

## Sending

`send` returns false when `can_send` does, which asks for an empty send buffer and for a node that
is neither congested nor full, and when reception is bounded and the destination has no credit
left. It throws when the message is over the size limit or has too many packets. An accepted
message is cut into packets at once. They enter the send buffer together and leave it one by one.

## Receiving

`recv` looks at the first packet of the receive buffer, which carries the number of packets of its
message, and takes that many from the front. Each must have the index of its turn. If one has not,
`recv` throws, and the packets that it has taken so far are lost: `RecvOutcome` and the state that
comes with it keep this. The outcome of a received message carries its packets as well, which the
caller cannot see, so that proofs can say of which message they are.
-/

namespace Simbus

namespace Bus

variable (b : Bus)

def validatePort (p : BusPortT) : Except String Unit :=
  require (b.knownPort p) s!"unknown port: {p}"

def validateChannel (c : ChannelT) : Except String Unit :=
  require (decide (c < b.chaCnt)) s!"unknown channel: {c}"

/-! ## Sending -/

/-- The body of `can_send` for a known port and channel. -/
def canSendNow (s : BusState) (port : BusPortT) (channel : ChannelT) : Bool :=
  ((s.ports port).sendBuf channel).isEmpty &&
    !(b.config.congestion.enabled &&
      ((s.nodes (b.home port)).congested ||
        decide (b.config.congestion.nodeBufferLimit ≤ (s.nodes (b.home port)).bufferedPackets)))

def canSend (s : BusState) (port : BusPortT) (channel : ChannelT) : Except String Bool := do
  b.validatePort port
  b.validateChannel channel
  return b.canSendNow s port channel

/-- The number of packets `send` cuts a message of `size` bytes into. The size is cast to 32 bits
before it is rounded up. -/
def pacCnt (size : ℕ) (channel : ChannelT) : ℕ :=
  alignUp (max size 1 % 2 ^ 32) (b.width channel) / b.width channel

/-- The bytes of packet `i`: its slice of the message, padded with zeros to the channel width. The
position `pos` is a 32-bit counter that grows by the width for each packet. -/
def packData (data : Bytes) (width i : ℕ) : Bytes :=
  let slice := (data.drop (i * width % 2 ^ 32)).take width
  slice ++ List.replicate (width - slice.length) 0

/-- The packets of one message. -/
def packets (s : BusState) (port dstPort : BusPortT) (channel : ChannelT) (data : Bytes) :
    List MsgPack :=
  let cnt := b.pacCnt data.length channel
  (List.range cnt).map fun i ↦ {
    src := port
    dst := dstPort
    tgt := b.home dstPort
    cha := channel
    xmtid := s.xmtidAlloc
    len := data.length % 2 ^ 32
    pacIdx := i % 2 ^ 16
    pacCnt := cnt % 2 ^ 16
    data := packData data (b.width channel) i
    txStartTick := s.currentTick
    serial := s.accepted }

/-- The reservation of an accepted message, when reception is bounded. -/
def reserve (s : BusState) (dstPort : BusPortT) (channel : ChannelT) : BusState :=
  if b.config.receiveMessageSlots = 0 then s
  else
    let p := s.ports dstPort
    let n := p.reserved channel + 1
    { s.setPort dstPort { p with reserved := Function.update p.reserved channel n } with
      stats := { s.stats with maxReservedMessages := max s.stats.maxReservedMessages n } }

/-- The packets of an accepted message enter the send buffer of its source port. -/
def enqueue (s : BusState) (port : BusPortT) (channel : ChannelT) (packs : List MsgPack) :
    BusState :=
  let p := s.ports port
  { s.setPort port
      { p with sendBuf := Function.update p.sendBuf channel (p.sendBuf channel ++ packs) } with
    xmtidAlloc := (s.xmtidAlloc + 1) % 2 ^ 32
    accepted := s.accepted + 1 }

def send (s : BusState) (port dstPort : BusPortT) (channel : ChannelT) (data : Bytes) :
    Except String (Bool × BusState) := do
  b.validatePort port
  b.validatePort dstPort
  b.validateChannel channel
  if !b.canSendNow s port channel then return (false, s)
  require (b.config.receiveMessageSlots == 0 || decide (data.length ≤ b.config.maxMessageBytes))
    "message exceeds bounded receive size limit"
  if b.config.receiveMessageSlots ≠ 0 ∧
      b.config.receiveMessageSlots ≤ (s.ports dstPort).reserved channel then
    return (false, { s with
      stats := { s.stats with
        destinationCreditStalls := s.stats.destinationCreditStalls + 1 } })
  require (decide (b.pacCnt data.length channel ≤ 65535))
    "message is too large for 16-bit packet index/count fields"
  return (true, enqueue (b.reserve s dstPort channel) port channel
    (b.packets s port dstPort channel data))

/-! ## Receiving -/

/-- `can_recv` for a known port and channel. -/
def canRecvNow (s : BusState) (port : BusPortT) (channel : ChannelT) : Bool :=
  match (s.ports port).recvBuf channel with
  | [] => false
  | p :: rest => decide (p.pacCnt ≤ rest.length + 1)

def canRecv (s : BusState) (port : BusPortT) (channel : ChannelT) : Except String Bool := do
  b.validatePort port
  b.validateChannel channel
  return canRecvNow s port channel

/-- What a call of `recv` ends with. A received message comes with its packets, from which the
caller sees only the bytes. -/
inductive RecvOutcome
  | empty
  | message (bytes : Bytes) (packs : List MsgPack)
  | thrown (error : String)
  deriving DecidableEq

/-- The packet loop of `recv`: takes `n` packets from the front of the buffer, checking that packet
`i` of the message has index `i`. Stops at the first that has not, with the packets taken so far
already gone. -/
def takePackets (currentTick : ℕ) :
    ℕ → ℕ → List MsgPack → List MsgPack → BusState →
    Option ℕ × List MsgPack × List MsgPack × BusState
  | 0, _, taken, buf, s => (none, taken, buf, s)
  | _ + 1, i, taken, [], s => (some i, taken, [], s)
  | n + 1, i, taken, p :: buf, s =>
    if p.pacIdx = i then
      takePackets currentTick n (i + 1) (taken ++ [p]) buf
        { s with
          stats := { s.stats with
            transmittedPackets := s.stats.transmittedPackets + 1
            packetLatencySum := s.stats.packetLatencySum + (currentTick - p.txStartTick) }
          transmitCnt := Function.update s.transmitCnt (p.src, p.dst)
            (s.transmitCnt (p.src, p.dst) + 1) }
    else (some i, taken, p :: buf, s)

/-- `out.resize(len)`. -/
def resize (out : Bytes) (len : ℕ) : Bytes :=
  out.take len ++ List.replicate (len - out.length) 0

def setRecvBuf (s : BusState) (port : BusPortT) (channel : ChannelT) (buf : List MsgPack) :
    BusState :=
  let p := s.ports port
  s.setPort port { p with recvBuf := Function.update p.recvBuf channel buf }

/-- The release of the credit, after the packets are gone. -/
def release (s : BusState) (port : BusPortT) (channel : ChannelT) : Option BusState :=
  if b.config.receiveMessageSlots = 0 then some s
  else
    let p := s.ports port
    if 0 < p.reserved channel then
      some (s.setPort port
        { p with reserved := Function.update p.reserved channel (p.reserved channel - 1) })
    else none

/-- `recv` for a known port and channel. -/
def recvNow (s : BusState) (port : BusPortT) (channel : ChannelT) : RecvOutcome × BusState :=
  match (s.ports port).recvBuf channel with
  | [] => (.empty, s)
  | front :: rest =>
    if rest.length + 1 < front.pacCnt then (.empty, s)
    else
      match takePackets s.currentTick front.pacCnt 0 [] (front :: rest) s with
      | (some i, _, buf, s) => (.thrown s!"packet order error at idx {i}",
          setRecvBuf s port channel buf)
      | (none, packs, buf, s) =>
        let s := setRecvBuf s port channel buf
        let s := { s with stats := { s.stats with
          receivedMessages := s.stats.receivedMessages + 1 } }
        match b.release s port channel with
        | none => (.thrown "destination credit underflow", s)
        | some s => (.message (resize (packs.flatMap MsgPack.data) front.len) packs, s)

def recv (s : BusState) (port : BusPortT) (channel : ChannelT) : RecvOutcome × BusState :=
  match b.validatePort port, b.validateChannel channel with
  | .error e, _ => (.thrown e, s)
  | .ok _, .error e => (.thrown e, s)
  | .ok _, .ok _ => b.recvNow s port channel

/-- `reserved_messages`. -/
def reservedMessages (s : BusState) (port : BusPortT) (channel : ChannelT) : Except String ℕ := do
  b.validatePort port
  b.validateChannel channel
  return (s.ports port).reserved channel

/-- `clear_statistics`. -/
def clearStatistics (s : BusState) : BusState :=
  { s with
    stats := { tick := s.currentTick }
    transmitCnt := fun _ ↦ 0
    nodes := fun v ↦ if v ∈ b.nodeIds then
        { s.nodes v with
          busyCycles := 0, passedPacks := 0, congestedCycles := 0, blockedCycles := 0 }
      else s.nodes v
    edges := fun e ↦ if e ∈ b.edgeIds then { s.edges e with busyCycles := 0 } else s.edges e }

end Bus

end Simbus
