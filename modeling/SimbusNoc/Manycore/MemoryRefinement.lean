import SimbusNoc.Manycore.ByteMemory
import SimbusNoc.Manycore.Canonical
import SimbusNoc.Manycore.Service
import SimbusNoc.Manycore.SharedBus

/-!
# The controller refines a memory of bytes

The controller runs against a bus that records what the controller has received from it and sent
into it. Between two ticks the bus may do anything, so requests come and back-pressure rises and
falls on either channel at any time. What the controller has sent is what a memory of bytes answers
to the requests received, taken in their order.

## The statement

`recorded` adds an exchange to any bus: what its `recv` has returned and its `send` has accepted.
`serveAll` ticks the controller once for each of a list of bus states, and since the list is
arbitrary nothing is assumed of the bus between two ticks. `replies` is the specification, a fold
over `ByteMemory`, which knows no controller, no queue and no clock.

## The invariant

`Refines` cuts the received requests into those that are served, the one in service and those that
wait: the served ones have been answered, sent or held back, and the shared memory is the memory of
bytes after them. Each phase of a tick moves the cut by at most one request and keeps it, and the
counters are read off it. The phases have their own lemmas, in the order of the tick.
-/

namespace Manycore

open Simbus Sequential

/-! ## A bus with a record -/

/-- What the controller has exchanged with the bus, oldest first. -/
structure Exchange where
  received : List Bytes := []
  /-- Each message with its destination. -/
  sent : List (BusPortT × Bytes) := []
  deriving DecidableEq

variable {σ : Type}

/-- The bus, with a record of the messages that `recv` has returned and `send` has accepted. -/
def recorded (bus : BusInterfaceV2 σ) : BusInterfaceV2 (σ × Exchange) where
  canSend := fun s ↦ bus.canSend s.1
  send := fun s p d c data ↦ do
    let (accepted, t) ← bus.send s.1 p d c data
    return (accepted, t, if accepted then { s.2 with sent := s.2.sent ++ [(d, data)] } else s.2)
  canRecv := fun s ↦ bus.canRecv s.1
  recv := fun s p c ↦ do
    let (data, t) ← bus.recv s.1 p c
    return (data, t, match data with
      | none => s.2
      | some bytes => { s.2 with received := s.2.received ++ [bytes] })
  applyNextTick := fun s ↦ do
    let t ← bus.applyNextTick s.1
    return (t, s.2)

namespace MemoryController

/-- A tick of the controller when it finds the bus in state `s`. -/
def tickFrom (bus : BusInterfaceV2 σ) (port : BusPortT) (config : MemoryControllerConfig)
    (cx : MemoryController × Exchange) (s : σ) : Except String (MemoryController × Exchange) := do
  let (c, _, x) ← tick (recorded bus) port config cx.1 (s, cx.2)
  return (c, x)

/-- A controller and its exchange after a tick for each of the states in which it finds the bus. -/
def serveAll (bus : BusInterfaceV2 σ) (port : BusPortT) (config : MemoryControllerConfig)
    (states : List σ) : Except String (MemoryController × Exchange) :=
  states.foldlM (tickFrom bus port config) ({}, {})

/-! ## The invariant -/

/-- A response with its destination. -/
def addressedTo (r : MemoryResponse) : BusPortT × Bytes := (r.hartId.toNat, encodeResponse r)

/-- The answers of a memory of bytes to requests in order. -/
def replies (requests : List MemoryRequest) : List MemoryResponse :=
  (history ByteMemory.apply ByteMemory.zero requests).map Prod.snd

/-- The memory of bytes after requests in order. -/
def memoryOf (requests : List MemoryRequest) : ByteMemory :=
  final ByteMemory.apply ByteMemory.zero requests

/-- The cycles spent on the request in service. -/
def cyclesSpent (config : MemoryControllerConfig) (c : MemoryController) : ℕ :=
  match c.active with
  | none => 0
  | some item => config.serviceLatency - item.cyclesLeft

/-- The controller and its exchange, after the requests `received`. -/
structure Refines (config : MemoryControllerConfig) (received : List MemoryRequest)
    (c : MemoryController) (x : Exchange) : Prop where
  wires : x.received = received.map MemoryRequest.wire
  valid : ∀ q ∈ received, q.Valid
  /-- Each request received has been served, is in service or waits. -/
  requests : received =
    c.completed ++ (c.active.toList.map WorkItem.request ++ c.queue)
  memory : c.memory.toBytes = memoryOf c.completed
  /-- Each answer has been sent or is about to be. -/
  replies : (replies c.completed).map addressedTo = x.sent ++ c.response.toList.map addressedTo
  receivedRequests : c.stats.receivedRequests = received.length
  completedRequests : c.stats.completedRequests = c.completed.length
  queue : c.queue.length ≤ config.requestQueueCapacity
  exclusive : c.active = none ∨ c.response = none
  left : ∀ item ∈ c.active, 1 ≤ item.cyclesLeft ∧ item.cyclesLeft ≤ config.serviceLatency
  cycles : c.stats.serviceCycles =
    config.serviceLatency * c.completed.length + c.cyclesSpent config

variable {bus : BusInterfaceV2 σ} {port : BusPortT} {config : MemoryControllerConfig}
  {received : List MemoryRequest} {c c' : MemoryController} {x x' : Exchange} {s s' : σ}

theorem Refines.init (config : MemoryControllerConfig) : Refines config [] {} {} where
  wires := rfl
  valid := fun q hq ↦ absurd hq List.not_mem_nil
  requests := rfl
  memory := rfl
  replies := rfl
  receivedRequests := rfl
  completedRequests := rfl
  queue := Nat.zero_le _
  exclusive := .inl rfl
  left := fun item hitem ↦ by simp at hitem
  cycles := rfl

/-- Only the parts named here matter. -/
theorem Refines.congr (h : Refines config received c x) (hsame : SameWork c c')
    (hresponse : c'.response = c.response) : Refines config received c' x where
  wires := h.wires
  valid := h.valid
  requests := by rw [hsame.completed, hsame.active, hsame.queue, h.requests]
  memory := by rw [hsame.memory, hsame.completed, h.memory]
  replies := by rw [hsame.completed, hresponse, h.replies]
  receivedRequests := by rw [hsame.received, h.receivedRequests]
  completedRequests := by rw [hsame.count, hsame.completed, h.completedRequests]
  queue := by
    rw [hsame.queue]
    exact h.queue
  exclusive := by
    rw [hsame.active, hresponse]
    exact h.exclusive
  left := by
    rw [hsame.active]
    exact h.left
  cycles := by rw [hsame.cycles, hsame.completed, h.cycles, cyclesSpent, cyclesSpent, hsame.active]

theorem replies_concat (requests : List MemoryRequest) (q : MemoryRequest) :
    replies (requests ++ [q]) =
      replies requests ++ [(ByteMemory.apply (memoryOf requests) q).1] := by
  rw [replies, history_concat, List.map_append]
  rfl

theorem memoryOf_concat (requests : List MemoryRequest) (q : MemoryRequest) :
    memoryOf (requests ++ [q]) = (ByteMemory.apply (memoryOf requests) q).2 := by
  rw [memoryOf, final_append]
  rfl

/-! ## The phases of a tick

A phase sends the response that is held back, receives a request, finishes the one in service, or
takes up the next. Each moves one request at most from one part of the invariant to the next.
-/

theorem Refines.sendResponse (h : Refines config received c x)
    (hsend : MemoryController.sendResponse (recorded bus) port c (s, x) = .ok (c', s', x')) :
    Refines config received c' x' := by
  rcases sendResponse_cases hsend with ⟨rfl, hs, -⟩ | ⟨rfl, hs⟩ | ⟨r, accepted, hr, hbus, rfl⟩
  · obtain ⟨-, rfl⟩ := Prod.mk.inj hs
    exact h
  · obtain ⟨-, rfl⟩ := Prod.mk.inj hs
    exact h.congr ⟨rfl, rfl, rfl, rfl, rfl, rfl, rfl⟩ rfl
  · obtain ⟨⟨accepted', t⟩, -, hbus⟩ := Except.bind_eq_ok_iff.mp hbus
    obtain ⟨rfl, hx⟩ := Prod.mk.inj (Except.ok.inj hbus)
    obtain ⟨-, rfl⟩ := Prod.mk.inj hx
    cases accepted' with
    | false => exact h.congr ⟨rfl, rfl, rfl, rfl, rfl, rfl, rfl⟩ rfl
    | true =>
      refine { h with replies := ?_, exclusive := .inr rfl }
      have hreplies := h.replies
      rw [hr] at hreplies
      change _ = (x.sent ++ [addressedTo r]) ++ []
      rw [List.append_nil]
      exact hreplies

theorem Refines.receiveRequest (h : Refines config received c x)
    (hreceive : MemoryController.receiveRequest (recorded bus) port config c (s, x) =
      .ok (c', s', x')) :
    ∃ received', Refines config received' c' x' := by
  rcases receiveRequest_cases config hreceive with ⟨hsame, hresponse, hs⟩ |
    ⟨bytes, q, stats, hroom, hrecv, hq, hreceived, hcompleted, hcycles, rfl⟩
  · have hx : x' = x := by
      rcases hs with hs | hrecv
      · exact (Prod.mk.inj hs).2
      · obtain ⟨⟨data, t⟩, -, hrecv⟩ := Except.bind_eq_ok_iff.mp hrecv
        obtain ⟨rfl, hx⟩ := Prod.mk.inj (Except.ok.inj hrecv)
        exact (Prod.mk.inj hx).2.symm
    exact ⟨received, hx ▸ h.congr hsame hresponse⟩
  · obtain ⟨⟨data, t⟩, -, hrecv⟩ := Except.bind_eq_ok_iff.mp hrecv
    obtain ⟨rfl, hx⟩ := Prod.mk.inj (Except.ok.inj hrecv)
    obtain ⟨-, rfl⟩ := Prod.mk.inj hx
    obtain ⟨hvalid, rfl⟩ := decodeRequest_eq_ok hq
    refine ⟨received ++ [q],
      { h with wires := ?_, valid := ?_, requests := ?_, receivedRequests := ?_
               completedRequests := hcompleted.trans h.completedRequests, queue := ?_
               cycles := hcycles.trans h.cycles }⟩
    · rw [List.map_append, ← h.wires]
      rfl
    · intro q' hq'
      rcases List.mem_append.mp hq' with hq' | hq'
      · exact h.valid q' hq'
      · exact List.mem_singleton.mp hq' ▸ hvalid
    · rw [h.requests, List.append_assoc, List.append_assoc]
    · change stats.receivedRequests = _
      rw [hreceived, h.receivedRequests, List.length_append, List.length_singleton]
    · change (c.queue ++ [q]).length ≤ _
      rw [List.length_append, List.length_singleton]
      exact hroom

theorem Refines.advanceRequest (h : Refines config received c x) :
    Refines config received c.advanceRequest x := by
  rcases advanceRequest_cases c with ⟨hsame, hresponse⟩ | ⟨item, hactive, hmore, hnone, heq⟩ |
    ⟨item, hactive, hlast, hnone, heq⟩
  · exact h.congr hsame hresponse
  · -- one cycle more on the request in service
    have hleft := h.left item (by rw [hactive]; rfl)
    have hcycles := h.cycles
    rw [cyclesSpent, hactive] at hcycles
    rw [heq]
    refine { h with requests := ?_, exclusive := .inr hnone, left := ?_, cycles := ?_ }
    · have hrequests := h.requests
      rwa [hactive] at hrequests
    · intro item' hitem'
      obtain rfl := Option.some.inj hitem'
      dsimp only
      omega
    · change c.stats.serviceCycles + 1 = config.serviceLatency * c.completed.length +
        (config.serviceLatency - (item.cyclesLeft - 1))
      rw [hcycles]
      dsimp only
      omega
  · -- the last cycle, which serves the request
    have hleft := h.left item (by rw [hactive]; rfl)
    have hone : item.cyclesLeft = 1 := by omega
    have hcycles := h.cycles
    rw [cyclesSpent, hactive] at hcycles
    have hrequests := h.requests
    rw [hactive] at hrequests
    have hvalid : item.request.Valid := by
      refine h.valid _ ?_
      rw [hrequests]
      simp
    have hop : item.request.op = MemoryOp.read ∨ item.request.op = MemoryOp.write :=
      hvalid.data.imp And.left And.left
    obtain ⟨hreply, hmemory⟩ := serve_eq_apply c.memory hop hvalid.length_data_le
    rw [heq]
    refine
      { h with requests := ?_, memory := ?_, replies := ?_, completedRequests := ?_
               exclusive := .inl rfl, left := fun item hitem ↦ by simp at hitem, cycles := ?_ }
    · rw [hrequests, List.append_assoc]
      rfl
    · change (MemoryController.serve c.memory item.request).2.toBytes = _
      rw [hmemory, h.memory, memoryOf_concat]
    · have hreplies := h.replies
      rw [hnone] at hreplies
      change (MemoryController.replies (c.completed ++ [item.request])).map addressedTo =
        x.sent ++ [addressedTo (MemoryController.serve c.memory item.request).1]
      rw [replies_concat, List.map_append, hreplies, hreply, h.memory]
      change x.sent ++ [] ++ _ = _
      rw [List.append_nil]
      rfl
    · change c.stats.completedRequests + 1 = (c.completed ++ [item.request]).length
      rw [h.completedRequests, List.length_append, List.length_singleton]
    · change c.stats.serviceCycles + 1 =
        config.serviceLatency * (c.completed ++ [item.request]).length + 0
      rw [hcycles, List.length_append, List.length_singleton, Nat.mul_add, Nat.mul_one]
      dsimp only
      omega

theorem Refines.startRequest (hlatency : 1 ≤ config.serviceLatency)
    (h : Refines config received c x) :
    Refines config received (MemoryController.startRequest config c) x := by
  rw [MemoryController.startRequest]
  split
  · rename_i request rest hactive hresponse hqueue
    have hrequests := h.requests
    have hcap := h.queue
    have hcycles := h.cycles
    rw [hqueue] at hcap
    rw [hactive, hqueue] at hrequests
    rw [cyclesSpent, hactive] at hcycles
    refine { h with requests := hrequests, queue := ?_, exclusive := .inr hresponse, left := ?_
                    cycles := ?_ }
    · exact Nat.le_of_succ_le hcap
    · intro item hitem
      obtain rfl := Option.some.inj hitem
      exact ⟨hlatency, le_rfl⟩
    · change c.stats.serviceCycles = config.serviceLatency * c.completed.length +
        (config.serviceLatency - config.serviceLatency)
      rw [hcycles, Nat.sub_self]
  · exact h

/-! ## Runs -/

theorem Refines.tickFrom (hlatency : 1 ≤ config.serviceLatency)
    (h : ∃ received, Refines config received c x)
    (htick : MemoryController.tickFrom bus port config (c, x) s = .ok (c', x')) :
    ∃ received, Refines config received c' x' := by
  obtain ⟨received, h⟩ := h
  rw [MemoryController.tickFrom] at htick
  obtain ⟨⟨c₁, s₁, x₁⟩, hcall, heq⟩ := Except.bind_eq_ok_iff.mp htick
  obtain ⟨rfl, rfl⟩ := Prod.mk.inj (Except.ok.inj heq)
  obtain ⟨c₂, ⟨s₂, x₂⟩, c₃, hsend, hreceive, rfl⟩ := tick_eq_ok config hcall
  -- `tick` first adds to a counter that the refinement does not read
  have hcounted : Refines config received { c with stats := { c.stats with
      queuedRequestCycles := c.stats.queuedRequestCycles + c.queue.length } } x :=
    h.congr ⟨rfl, rfl, rfl, rfl, rfl, rfl, rfl⟩ rfl
  obtain ⟨received', h'⟩ := (hcounted.sendResponse hsend).receiveRequest hreceive
  exact ⟨received', h'.advanceRequest.startRequest hlatency⟩

theorem Refines.serveAll (hlatency : 1 ≤ config.serviceLatency) {states : List σ}
    (h : MemoryController.serveAll bus port config states = .ok (c, x)) :
    ∃ received, Refines config received c x :=
  foldlM_keeps
    (fun cx : MemoryController × Exchange ↦ ∃ received, Refines config received cx.1 cx.2)
    ⟨[], Refines.init config⟩ (fun _ _ _ _ hcx htick ↦ Refines.tickFrom hlatency hcx htick) h

/-! ## The refinement -/

theorem replies_append (l l' : List MemoryRequest) :
    replies (l ++ l') =
      replies l ++ (history ByteMemory.apply (memoryOf l) l').map Prod.snd := by
  rw [replies, history_append, List.map_append]
  rfl

/-- The reply to request `k` is what a memory of bytes answers after the requests before it. -/
theorem getElem?_replies {requests : List MemoryRequest} {k : ℕ} {q : MemoryRequest}
    (hq : requests[k]? = some q) :
    (replies requests)[k]? = some (ByteMemory.apply (memoryOf (requests.take k)) q).1 := by
  obtain ⟨hk, rfl⟩ := List.getElem?_eq_some_iff.mp hq
  have hsplit : requests = requests.take k ++ requests[k] :: requests.drop (k + 1) := by
    rw [List.getElem_cons_drop, List.take_append_drop]
  have hlen : (replies (requests.take k)).length = k := by
    rw [replies, List.length_map, length_history, List.length_take_of_le hk.le]
  have happend := replies_append (requests.take k) (requests[k] :: requests.drop (k + 1))
  rw [← hsplit] at happend
  rw [happend, List.getElem?_append_right hlen.le, hlen, Nat.sub_self]
  rfl

/-- Whatever the bus does, the `k`-th response sent answers the `k`-th request received, with the
data that it reads after the requests received before it, and the counters account for every
request. -/
theorem refines_sequential_memory (hvalid : validate config = .ok ()) {states : List σ}
    (h : serveAll bus port config states = .ok (c, x)) :
    ∃ requests : List MemoryRequest,
      x.received = requests.map MemoryRequest.wire ∧ (∀ q ∈ requests, q.Valid) ∧
      x.sent.length ≤ requests.length ∧
      (∀ k q, k < x.sent.length → requests[k]? = some q →
        x.sent[k]? = some (q.hartId.toNat, encodeResponse {
          status := .ok
          hartId := q.hartId
          transactionId := q.transactionId
          data := if q.op = MemoryOp.read then
              (memoryOf (requests.take k)).load q.address q.size.toNat
            else [] })) ∧
      c.stats.receivedRequests =
        c.stats.completedRequests + c.queue.length + c.active.toList.length ∧
      c.stats.receivedRequests = x.received.length ∧
      c.queue.length ≤ config.requestQueueCapacity ∧
      ¬(c.active.isSome ∧ c.response.isSome) ∧
      c.stats.completedRequests = x.sent.length + c.response.toList.length ∧
      (∀ item ∈ c.active, 1 ≤ item.cyclesLeft ∧ item.cyclesLeft ≤ config.serviceLatency) ∧
      c.stats.serviceCycles =
        config.serviceLatency * c.stats.completedRequests + c.cyclesSpent config := by
  have hlatency : 1 ≤ config.serviceLatency := by
    rw [validate, require_eq_ok_iff] at hvalid
    simp only [Bool.not_eq_true', Bool.or_eq_false_iff, beq_eq_false_iff_ne] at hvalid
    exact Nat.one_le_iff_ne_zero.mpr hvalid.1
  -- All that is promised is read off the invariant at the end of the run.
  obtain ⟨requests, hok⟩ := Refines.serveAll hlatency h
  have hlength : c.completed.length = x.sent.length + c.response.toList.length := by
    have hlen := congrArg List.length hok.replies
    rwa [List.length_map, replies, List.length_map, length_history, List.length_append,
      List.length_map] at hlen
  have hreceived := congrArg List.length hok.requests
  simp only [List.length_append, List.length_map] at hreceived
  refine ⟨requests, hok.wires, hok.valid, by omega, fun k q hk hq ↦ ?_, ?_, ?_, hok.queue, ?_,
    hok.completedRequests.trans hlength, hok.left, ?_⟩
  · -- the request is among the completed ones, and its reply among those sent
    have hk' : k < c.completed.length := by omega
    have hq' : c.completed[k]? = some q := by
      rwa [hok.requests, List.getElem?_append_left hk'] at hq
    have htake : c.completed.take k = requests.take k := by
      rw [hok.requests, List.take_append_of_le_length hk'.le]
    have hsent : (x.sent ++ c.response.toList.map addressedTo)[k]? = x.sent[k]? :=
      List.getElem?_append_left hk
    rw [← hsent, ← hok.replies, List.getElem?_map, getElem?_replies hq', htake]
    rw [ByteMemory.apply]
    by_cases hread : q.op = MemoryOp.read
    · rw [if_pos hread, if_pos hread]
      rfl
    · rw [if_neg hread, if_neg hread]
      rfl
  · rw [hok.receivedRequests, hok.completedRequests]
    omega
  · rw [hok.receivedRequests, hok.wires, List.length_map]
  · rintro ⟨hactive, hresponse⟩
    rcases hok.exclusive with hnone | hnone
    · rw [hnone] at hactive
      exact Bool.noConfusion hactive
    · rw [hnone] at hresponse
      exact Bool.noConfusion hresponse
  · rw [hok.completedRequests]
    exact hok.cycles

/-! ## An example -/

/-- A shared bus of two ports with the requests of hart 0 in the inbox of port 1. If it is full, it
takes nothing from this port. -/
def busWith (requests : List MemoryRequest) (full : Bool) : SharedBusState :=
  { inbox := fun _ _ ↦ requests.map fun q ↦
      { src := 0, dst := 1, channel := 0, bytes := q.wire, enqueued := 0 }
    pending := fun _ ↦
      if full then [{ src := 1, dst := 0, channel := 1, bytes := [], enqueued := 0 }] else [] }

/-- Two bytes for address 16. -/
def storedRequest : MemoryRequest :=
  { op := .write, transactionId := 1, address := 16, data := [5, 6], size := 2 }

/-- The two bytes from address 17 on. -/
def loadedRequest : MemoryRequest := { op := .read, transactionId := 2, address := 17, size := 2 }

def oneCycle : MemoryControllerConfig := { serviceLatency := 1, requestQueueCapacity := 1 }

/-- The controller at port 1 receives the two requests, and cannot send for two ticks. -/
def storeThenLoad : Except String (MemoryController × Exchange) :=
  serveAll (SharedBus.interface { ports := 2, config := { queueDepth := 1 } }) 1 oneCycle
    [busWith [storedRequest] false, busWith [loadedRequest] false, busWith [] true, busWith [] true,
      {}, {}, {}, {}]

/-- The load finds the byte that has been stored, and a zero. -/
theorem refines_sequential_memory_storeThenLoad : ∃ c x, storeThenLoad = .ok (c, x) ∧
    x.sent = [(0, encodeResponse { transactionId := 1 }),
      (0, encodeResponse { transactionId := 2, data := [6, 0] })] ∧
    c.stats.responseInjectionBlockedCycles = 2 ∧
    c.stats.receivedRequests = x.received.length ∧ c.stats.serviceCycles = 2 ∧
    ∃ requests : List MemoryRequest, x.received = requests.map MemoryRequest.wire ∧
      ∀ k q, k < x.sent.length → requests[k]? = some q →
        x.sent[k]? = some (q.hartId.toNat, encodeResponse {
          status := .ok
          hartId := q.hartId
          transactionId := q.transactionId
          data := if q.op = MemoryOp.read then
              (memoryOf (requests.take k)).load q.address q.size.toNat
            else [] }) := by
  have hparts : storeThenLoad.map (fun cx ↦ (cx.2.sent,
      cx.1.stats.responseInjectionBlockedCycles, cx.1.stats.completedRequests,
      cx.1.active.isNone)) =
    .ok ([(0, encodeResponse { transactionId := 1 }),
      (0, encodeResponse { transactionId := 2, data := [6, 0] })], 2, 2, true) := by decide +kernel
  cases h : storeThenLoad with
  | error reason =>
    rw [h] at hparts
    cases hparts
  | ok result =>
    obtain ⟨c, x⟩ := result
    rw [h] at hparts
    obtain ⟨hsent, hrest⟩ := Prod.mk.inj (Except.ok.inj hparts)
    obtain ⟨hblocked, hrest⟩ := Prod.mk.inj hrest
    obtain ⟨hcompleted, hactive⟩ := Prod.mk.inj hrest
    obtain ⟨requests, hwires, -, -, hreplies, -, hreceived, -, -, -, -, hcycles⟩ :=
      refines_sequential_memory rfl h
    refine ⟨c, x, rfl, hsent, hblocked, hreceived, ?_, requests, hwires, hreplies⟩
    rw [hcycles, hcompleted, cyclesSpent, Option.isNone_iff_eq_none.mp hactive]
    rfl

end MemoryController

end Manycore
