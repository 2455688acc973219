import SimbusNoc.Manycore.ByteMemory
import SimbusNoc.Manycore.Traffic

/-!
# What the memory controller does

The controller serves the requests it has received one at a time. Seen together with the traffic of
the bus, a tick of the controller moves some pending requests to the completed ones and adds their
answers to the ones on their way, and loses nothing.

## Pending, completed, answered

`pending` are the requests on the bus, in the queue and in service, in the order in which the
controller takes them as far as it has received them. `answers` are the responses on the bus and
the one that the controller holds. A phase of a tick moves a request or a response from one of
these places to the next, or serves one: then it leaves the pending ones, joins the completed ones,
and its response joins the answers. `Served` says what the whole tick has served, in order, and is
transitive, so the phases compose.

## Memory

`Ok` says that the memory is what the completed requests have left of an empty one, and that the
log has the responses that it gave. Both are said with the map of the source, and `Ok.bytes` says
them again of a memory with a byte for each address.
-/

namespace Manycore

open Simbus Sequential

namespace MemoryController

/-- Memory serves a request: the response, and the memory after it. -/
abbrev apply (memory : SharedMemory) (q : MemoryRequest) : MemoryResponse × SharedMemory :=
  serve memory q

/-- The requests that are not served yet, in the order in which the controller will take them as
far as it has received them. -/
def pending (c : MemoryController) (t : Traffic) : List MemoryRequest :=
  (c.active.map WorkItem.request).toList ++ (c.queue ++ t.requests)

/-- The responses that no hart has received yet, oldest first. -/
def answers (c : MemoryController) (t : Traffic) : List MemoryResponse :=
  t.responses ++ c.response.toList

/-- The requests that have been served, with their responses. -/
def log (c : MemoryController) : List (MemoryRequest × MemoryResponse) :=
  history apply SharedMemory.empty c.completed

/-- The request comes from a hart with this number. -/
def fromHart (h : UInt32) (q : MemoryRequest) : Bool := decide (q.hartId = h)

/-- What holds of the controller in every reachable state. -/
structure Ok (n : ℕ) (c : MemoryController) : Prop where
  memory : c.memory = final apply SharedMemory.empty c.completed
  received : c.stats.receivedRequests =
    c.completed.length + (c.active.toList.length + c.queue.length)
  completed : c.stats.completedRequests = c.completed.length
  valid : ∀ q ∈ (c.active.map WorkItem.request).toList ++ c.queue, q.Valid ∧ q.hartId.toNat < n
  served : ∀ q ∈ c.completed, q.Valid ∧ q.hartId.toNat < n
  short : ∀ r ∈ c.response, r.Short ∧ r.hartId.toNat < n

theorem Ok.init (n : ℕ) : Ok n {} where
  memory := rfl
  received := rfl
  completed := rfl
  valid := by simp
  served := by simp
  short := by simp

/-- The memory and the log of the controller are those of a memory of bytes. -/
theorem Ok.bytes {n : ℕ} {c : MemoryController} (h : c.Ok n) :
    c.log = history ByteMemory.apply ByteMemory.zero c.completed ∧
      c.memory.toBytes = final ByteMemory.apply ByteMemory.zero c.completed := by
  rw [h.memory, ← SharedMemory.toBytes_empty]
  exact history_serve (fun q hq ↦ ⟨(h.served q hq).1.op, (h.served q hq).1.length_data_le⟩)
    SharedMemory.empty

/-- Between the two moments the controller has served `done`, and nothing else has happened to its
requests and responses but moves that keep their order. -/
structure Served (Fifo : Prop) (c c' : MemoryController) (t t' : Traffic)
    (done : List MemoryRequest) : Prop where
  completed : c'.completed = c.completed ++ done
  memory : c'.memory = final apply c.memory done
  answers : c'.answers t' = c.answers t ++ (history apply c.memory done).map Prod.snd
  pending : (c.pending t).Perm (done ++ c'.pending t')
  order : Fifo → ∀ h, (c.pending t).filter (fromHart h) =
    (done ++ c'.pending t').filter (fromHart h)

theorem Served.trans {Fifo : Prop} {c₁ c₂ c₃ : MemoryController} {t₁ t₂ t₃ : Traffic}
    {done done' : List MemoryRequest} (h : Served Fifo c₁ c₂ t₁ t₂ done)
    (h' : Served Fifo c₂ c₃ t₂ t₃ done') : Served Fifo c₁ c₃ t₁ t₃ (done ++ done') where
  completed := by rw [h'.completed, h.completed, List.append_assoc]
  memory := by rw [h'.memory, h.memory, final_append]
  answers := by
    rw [h'.answers, h.answers, history_append, List.map_append, List.append_assoc, ← h.memory]
  pending := by
    rw [List.append_assoc]
    exact h.pending.trans (h'.pending.append_left done)
  order := by
    intro hF i
    rw [h.order hF i, List.filter_append, h'.order hF i, ← List.filter_append, List.append_assoc]

/-- Moves that serve nothing and keep the order of all requests. -/
theorem Served.of_eq {Fifo : Prop} {c c' : MemoryController} {t t' : Traffic}
    (hcompleted : c'.completed = c.completed) (hmemory : c'.memory = c.memory)
    (hanswers : c'.answers t' = c.answers t) (hpending : c'.pending t' = c.pending t) :
    Served Fifo c c' t t' [] where
  completed := by rw [hcompleted, List.append_nil]
  memory := hmemory
  answers := by rw [hanswers, history_nil, List.map_nil, List.append_nil]
  pending := by rw [hpending, List.nil_append]
  order := fun _ _ ↦ by rw [hpending, List.nil_append]

/-! ## The effect of a request -/

theorem length_read (m : SharedMemory) (address : UInt64) (size : ℕ) :
    (m.read address size).length = size := by
  rw [SharedMemory.read, List.length_map, List.length_range]

@[simp] theorem apply_hartId (m : SharedMemory) (q : MemoryRequest) :
    (apply m q).1.hartId = q.hartId := by
  rw [apply, serve]
  split_ifs <;> rfl

@[simp] theorem apply_transactionId (m : SharedMemory) (q : MemoryRequest) :
    (apply m q).1.transactionId = q.transactionId := by
  rw [apply, serve]
  split_ifs <;> rfl

theorem apply_status (m : SharedMemory) {q : MemoryRequest} (h : q.Valid) :
    (apply m q).1.status = MemoryStatus.ok := by
  rw [apply, serve]
  rcases h.data with ⟨hop, -⟩ | ⟨hop, -⟩
  · rw [if_pos hop]
  · rw [if_neg (by rw [hop]; decide), if_pos hop]

theorem apply_length (m : SharedMemory) {q : MemoryRequest} (h : q.Valid) :
    (apply m q).1.data.length = if q.op = MemoryOp.read then q.size.toNat else 0 := by
  rw [apply, serve]
  rcases h.data with ⟨hop, -⟩ | ⟨hop, -⟩
  · rw [if_pos hop, if_pos hop]
    exact length_read m q.address q.size.toNat
  · have hread : q.op ≠ MemoryOp.read := by
      rw [hop]
      decide
    rw [if_neg hread, if_pos hop, if_neg hread]
    rfl

theorem apply_short (m : SharedMemory) {q : MemoryRequest} (h : q.Valid) :
    (apply m q).1.Short := by
  have hsize := q.size.toNat_lt
  rw [MemoryResponse.Short, apply_length m h]
  split_ifs <;> omega

end MemoryController

/-- Memory has answered the request with this response. -/
def Answers (q : MemoryRequest) (r : MemoryResponse) : Prop :=
  ∃ memory, r = (MemoryController.apply memory q).1

namespace Answers

variable {q : MemoryRequest} {r : MemoryResponse}

theorem hartId (h : Answers q r) : r.hartId = q.hartId := by
  obtain ⟨memory, rfl⟩ := h
  exact MemoryController.apply_hartId memory q

theorem transactionId (h : Answers q r) : r.transactionId = q.transactionId := by
  obtain ⟨memory, rfl⟩ := h
  exact MemoryController.apply_transactionId memory q

theorem status (h : Answers q r) (hq : q.Valid) : r.status = MemoryStatus.ok := by
  obtain ⟨memory, rfl⟩ := h
  exact MemoryController.apply_status memory hq

theorem length (h : Answers q r) (hq : q.Valid) :
    r.data.length = if q.op = MemoryOp.read then q.size.toNat else 0 := by
  obtain ⟨memory, rfl⟩ := h
  exact MemoryController.apply_length memory hq

theorem length_of_read (h : Answers q r) (hq : q.Valid) (hop : q.op = MemoryOp.read) :
    r.data.length = q.size.toNat := by
  rw [h.length hq, if_pos hop]

end Answers

/-- Each response of a history answers the request beside it. -/
theorem answers_of_mem_history {memory : SharedMemory} {l : List MemoryRequest}
    {x : MemoryRequest × MemoryResponse} (hx : x ∈ history MemoryController.apply memory l) :
    Answers x.1 x.2 := by
  induction l generalizing memory with
  | nil => cases hx
  | cons q l ih =>
    rcases List.mem_cons.mp hx with rfl | hx
    · exact ⟨memory, rfl⟩
    · exact ih hx

namespace MemoryController

/-! ## The phases of a tick

Each phase is followed in the traffic: a response leaves for the bus, a request comes from it, one
is served, one is taken up.
-/

section Phases

variable {σ : Type} {bus : BusInterfaceV2 σ} {n : ℕ} {Live : σ → Prop} {Fifo : Prop}
  {Holds : List Letter → σ → Prop} (hbus : Reliable bus (Allowed n) Live Fifo Holds)
  {c c' : MemoryController} {t : Traffic} {s s' : σ} (config : MemoryControllerConfig)

/-- The parts of a controller that the invariant reads, but for the response. -/
structure SameWork (c c' : MemoryController) : Prop where
  memory : c'.memory = c.memory
  completed : c'.completed = c.completed
  active : c'.active = c.active
  queue : c'.queue = c.queue
  received : c'.stats.receivedRequests = c.stats.receivedRequests
  count : c'.stats.completedRequests = c.stats.completedRequests
  cycles : c'.stats.serviceCycles = c.stats.serviceCycles

theorem Ok.congr (hok : c.Ok n) (h : SameWork c c')
    (hshort : ∀ r ∈ c'.response, r.Short ∧ r.hartId.toNat < n) : c'.Ok n where
  memory := by rw [h.memory, h.completed, hok.memory]
  received := by rw [h.received, h.completed, h.active, h.queue, hok.received]
  completed := by rw [h.count, h.completed, hok.completed]
  valid := by
    rw [h.active, h.queue]
    exact hok.valid
  served := by
    rw [h.completed]
    exact hok.served
  short := hshort

theorem sendResponse_cases (h : sendResponse bus n c s = .ok (c', s')) :
    (c' = c ∧ s' = s ∧ c.response = none) ∨
    (c' = c.countBlocked ∧ s' = s) ∨
    ∃ r accepted, c.response = some r ∧
      bus.send s n r.hartId.toNat responseChannel (encodeResponse r) = .ok (accepted, s') ∧
      c' = if accepted then { c with response := none } else c.countBlocked := by
  rw [sendResponse] at h
  cases hr : c.response with
  | none =>
    rw [hr] at h
    obtain ⟨rfl, rfl⟩ := Prod.mk.inj (Except.ok.inj h)
    exact .inl ⟨rfl, rfl, rfl⟩
  | some r =>
    rw [hr] at h
    obtain ⟨can, -, h⟩ := Except.bind_eq_ok_iff.mp h
    by_cases hcan : can = true
    · rw [if_neg (by simp [hcan])] at h
      obtain ⟨⟨accepted, s₁⟩, hsend, h⟩ := Except.bind_eq_ok_iff.mp h
      cases accepted with
      | false =>
        obtain ⟨rfl, rfl⟩ := Prod.mk.inj (Except.ok.inj h)
        exact .inr (.inr ⟨r, false, rfl, hsend, rfl⟩)
      | true =>
        obtain ⟨rfl, rfl⟩ := Prod.mk.inj (Except.ok.inj h)
        exact .inr (.inr ⟨r, true, rfl, hsend, rfl⟩)
    · rw [if_pos (by simpa using hcan)] at h
      obtain ⟨rfl, rfl⟩ := Prod.mk.inj (Except.ok.inj h)
      exact .inr (.inl ⟨rfl, rfl⟩)

include hbus in
/-- A response that is sent goes to the end of the responses on the bus. -/
theorem sendResponse_spec (hok : c.Ok n) (hcarried : Carried Holds n t s)
    (h : sendResponse bus n c s = .ok (c', s')) (hlive : Live s') :
    ∃ t', Carried Holds n t' s' ∧ c'.Ok n ∧ Served Fifo c c' t t' [] := by
  rcases sendResponse_cases h with ⟨rfl, rfl, -⟩ | ⟨rfl, rfl⟩ | ⟨r, accepted, hr, hsend, rfl⟩
  · exact ⟨t, hcarried, hok, Served.of_eq rfl rfl rfl rfl⟩
  · exact ⟨t, hcarried, hok.congr ⟨rfl, rfl, rfl, rfl, rfl, rfl, rfl⟩ hok.short,
      Served.of_eq rfl rfl rfl rfl⟩
  · obtain ⟨hshort, hn⟩ := hok.short r (by rw [hr]; rfl)
    have hcarried' := hcarried.sendResponse hbus hshort hn hsend hlive
    cases accepted with
    | false =>
      exact ⟨t, hcarried', hok.congr ⟨rfl, rfl, rfl, rfl, rfl, rfl, rfl⟩ hok.short,
        Served.of_eq rfl rfl rfl rfl⟩
    | true =>
      refine ⟨_, hcarried', hok.congr ⟨rfl, rfl, rfl, rfl, rfl, rfl, rfl⟩ (by simp),
        Served.of_eq rfl rfl ?_ rfl⟩
      simp [answers, Traffic.addResponse, hr]

theorem receiveRequest_cases (h : receiveRequest bus n config c s = .ok (c', s')) :
    (SameWork c c' ∧ c'.response = c.response ∧
      (s' = s ∨ bus.recv s n requestChannel = .ok (none, s'))) ∨
    ∃ bytes q stats, c.queue.length < config.requestQueueCapacity ∧
      bus.recv s n requestChannel = .ok (some bytes, s') ∧ decodeRequest bytes = .ok q ∧
      stats.receivedRequests = c.stats.receivedRequests + 1 ∧
      stats.completedRequests = c.stats.completedRequests ∧
      stats.serviceCycles = c.stats.serviceCycles ∧
      c' = { c with queue := c.queue ++ [q], stats := stats } := by
  rw [receiveRequest] at h
  split_ifs at h with hfull
  · obtain ⟨can, -, h⟩ := Except.bind_eq_ok_iff.mp h
    cases can
    · obtain ⟨rfl, rfl⟩ := Prod.mk.inj (Except.ok.inj h)
      exact .inl ⟨⟨rfl, rfl, rfl, rfl, rfl, rfl, rfl⟩, rfl, .inl rfl⟩
    · obtain ⟨rfl, rfl⟩ := Prod.mk.inj (Except.ok.inj h)
      exact .inl ⟨⟨rfl, rfl, rfl, rfl, rfl, rfl, rfl⟩, rfl, .inl rfl⟩
  · obtain ⟨can, -, h⟩ := Except.bind_eq_ok_iff.mp h
    cases can
    · obtain ⟨rfl, rfl⟩ := Prod.mk.inj (Except.ok.inj h)
      exact .inl ⟨⟨rfl, rfl, rfl, rfl, rfl, rfl, rfl⟩, rfl, .inl rfl⟩
    · obtain ⟨⟨data, s₁⟩, hrecv, h⟩ := Except.bind_eq_ok_iff.mp h
      cases data with
      | none =>
        obtain ⟨rfl, rfl⟩ := Prod.mk.inj (Except.ok.inj h)
        exact .inl ⟨⟨rfl, rfl, rfl, rfl, rfl, rfl, rfl⟩, rfl, .inr hrecv⟩
      | some bytes =>
        obtain ⟨q, hq, h⟩ := Except.bind_eq_ok_iff.mp h
        obtain ⟨rfl, rfl⟩ := Prod.mk.inj (Except.ok.inj h)
        refine .inr ⟨bytes, q, { c.stats with
          receivedRequests := c.stats.receivedRequests + 1
          maxQueueDepth := max c.stats.maxQueueDepth (c.queue ++ [q]).length },
          Nat.lt_of_not_le hfull, hrecv, hq, rfl, rfl, rfl, rfl⟩

include hbus in
theorem receiveRequest_spec (hok : c.Ok n) (hcarried : Carried Holds n t s)
    (h : receiveRequest bus n config c s = .ok (c', s')) (hlive : Live s') :
    ∃ t', Carried Holds n t' s' ∧ c'.Ok n ∧ Served Fifo c c' t t' [] := by
  rcases receiveRequest_cases config h with ⟨hsame, hresponse, hs'⟩ |
    ⟨bytes, q, stats, -, hrecv, hq, hreceived, hcompleted, -, rfl⟩
  · have hcarried' : Carried Holds n t s' := by
      rcases hs' with rfl | hrecv
      · exact hcarried
      · exact hcarried.recv_none hbus hrecv hlive
    refine ⟨t, hcarried', hok.congr hsame (hresponse ▸ hok.short),
      Served.of_eq hsame.completed hsame.memory ?_ ?_⟩
    · rw [answers, answers, hresponse]
    · rw [pending, pending, hsame.active, hsame.queue]
  · obtain ⟨before, q', after, hsplit, rfl, hvalid, hn, hcarried', hfifo⟩ :=
      hcarried.recvRequest hbus hrecv hlive
    obtain rfl : q' = q := Except.ok.inj ((decodeRequest_wire hvalid).symm.trans hq)
    refine ⟨_, hcarried', ?_, ?_⟩
    · refine ⟨hok.memory, ?_, hcompleted.trans hok.completed, fun q hq ↦ ?_, hok.served, hok.short⟩
      · rw [hreceived, hok.received, List.length_append, List.length_singleton]
        simp only [Nat.add_assoc]
      · rw [← List.append_assoc] at hq
        rcases List.mem_append.mp hq with hq | hq
        · exact hok.valid q hq
        · rw [List.mem_singleton.mp hq]
          exact ⟨hvalid, hn⟩
    · -- The request jumps over those that are in front of it on the bus.
      refine ⟨(List.append_nil _).symm, rfl, (List.append_nil _).symm, ?_, fun hF i ↦ ?_⟩
      · rw [List.nil_append, pending, pending, hsplit, List.append_assoc]
        exact (List.perm_middle.append_left _).append_left _
      · have hskip : fromHart i q' = true → before.filter (fromHart i) = [] := by
          intro hi
          refine List.filter_eq_nil_iff.mpr fun q hq ↦ ?_
          simpa [fromHart, of_decide_eq_true hi] using hfifo hF q hq
        rw [List.nil_append, pending, pending, hsplit]
        simp only [List.filter_append, List.filter_cons, List.filter_nil, List.append_assoc]
        by_cases hi : fromHart i q' = true
        · rw [hskip hi]
          simp [hi]
        · simp [hi]

theorem advanceRequest_cases (c : MemoryController) :
    (SameWork c c.advanceRequest ∧ c.advanceRequest.response = c.response) ∨
    (∃ item, c.active = some item ∧ 1 < item.cyclesLeft ∧ c.response = none ∧
      c.advanceRequest = { c with
        active := some { item with cyclesLeft := item.cyclesLeft - 1 }
        stats := { c.stats with serviceCycles := c.stats.serviceCycles + 1 } }) ∨
    ∃ item, c.active = some item ∧ item.cyclesLeft ≤ 1 ∧ c.response = none ∧
      c.advanceRequest = { c with
        memory := (apply c.memory item.request).2
        response := some (apply c.memory item.request).1
        active := none
        stats := { c.stats with
          serviceCycles := c.stats.serviceCycles + 1
          completedRequests := c.stats.completedRequests + 1 }
        completed := c.completed ++ [item.request] } := by
  cases hactive : c.active with
  | none =>
    have hsame : c.advanceRequest = c := by simp only [advanceRequest, hactive]
    rw [hsame]
    exact .inl ⟨⟨rfl, rfl, rfl, rfl, rfl, rfl, rfl⟩, rfl⟩
  | some item =>
    cases hresponse : c.response with
    | some r =>
      have hsame : c.advanceRequest = c := by simp only [advanceRequest, hactive, hresponse]
      rw [hsame]
      exact .inl ⟨⟨rfl, rfl, rfl, rfl, rfl, rfl, rfl⟩, hresponse⟩
    | none =>
      by_cases hcycles : 1 < item.cyclesLeft
      · exact .inr (.inl ⟨item, rfl, hcycles, rfl,
          by simp only [advanceRequest, hactive, hresponse, if_pos hcycles]⟩)
      · exact .inr (.inr ⟨item, rfl, Nat.le_of_not_lt hcycles, rfl,
          by simp only [advanceRequest, hactive, hresponse, if_neg hcycles]⟩)

/-- A request whose time is over is served. -/
theorem advanceRequest_spec (hok : c.Ok n) :
    ∃ done, c.advanceRequest.Ok n ∧ Served Fifo c c.advanceRequest t t done := by
  -- Nothing in service, a cycle more, or the last cycle, which serves the request.
  rcases advanceRequest_cases c with ⟨hsame, hresponse⟩ | ⟨item, hactive, -, hnone, heq⟩ |
    ⟨item, hactive, -, hnone, heq⟩
  · refine ⟨[], hok.congr hsame (hresponse ▸ hok.short),
      Served.of_eq hsame.completed hsame.memory ?_ ?_⟩
    · rw [answers, answers, hresponse]
    · rw [pending, pending, hsame.active, hsame.queue]
  · rw [heq]
    refine ⟨[], ⟨hok.memory, ?_, hok.completed, ?_, hok.served, hok.short⟩,
      Served.of_eq rfl rfl rfl ?_⟩
    · have hreceived := hok.received
      rwa [hactive] at hreceived
    · have hvalid := hok.valid
      rwa [hactive] at hvalid
    · rw [pending, pending, hactive]
      rfl
  · rw [heq]
    have hvalid := hok.valid
    rw [hactive] at hvalid
    obtain ⟨hitem, hn⟩ := hvalid item.request (by simp)
    refine ⟨[item.request], ⟨?_, ?_, ?_, fun q hq ↦ hvalid q (List.mem_cons_of_mem _ hq),
      fun q hq ↦ ?_, fun r hr ↦ ?_⟩, ⟨rfl, rfl, ?_, ?_, fun _ _ ↦ ?_⟩⟩
    · rw [final_append, ← hok.memory]
      rfl
    · have hreceived := hok.received
      rw [hactive] at hreceived
      simp only [Option.toList_some, Option.toList_none, List.length_append, List.length_cons,
        List.length_nil] at hreceived ⊢
      omega
    · rw [List.length_append, hok.completed]
      rfl
    · rcases List.mem_append.mp hq with hq | hq
      · exact hok.served q hq
      · rw [List.mem_singleton.mp hq]
        exact ⟨hitem, hn⟩
    · obtain rfl := Option.some.inj hr
      exact ⟨apply_short _ hitem, by rwa [apply_hartId]⟩
    · rw [answers, answers, hnone]
      simp [history]
    · rw [pending, pending, hactive]
      exact List.Perm.refl _
    · rw [pending, pending, hactive]
      rfl

/-- The oldest received request is taken up when the controller is free. -/
theorem startRequest_spec (hok : c.Ok n) :
    (startRequest config c).Ok n ∧ Served Fifo c (startRequest config c) t t [] := by
  rw [startRequest]
  split
  · rename_i request rest hactive hresponse hqueue
    refine ⟨⟨hok.memory, ?_, hok.completed, ?_, hok.served, hok.short⟩,
      Served.of_eq rfl rfl rfl ?_⟩
    · have hreceived := hok.received
      rw [hactive, hqueue] at hreceived
      simp only [Option.toList_some, Option.toList_none, List.length_cons,
        List.length_nil] at hreceived ⊢
      omega
    · have hvalid := hok.valid
      rwa [hactive, hqueue] at hvalid
    · rw [pending, pending, hactive, hqueue]
      rfl
  · exact ⟨hok, Served.of_eq rfl rfl rfl rfl⟩

include hbus in
theorem receiveRequest_live (h : receiveRequest bus n config c s = .ok (c', s'))
    (hlive : Live s') : Live s := by
  rcases receiveRequest_cases config h with ⟨-, -, rfl | hrecv⟩ | ⟨bytes, q, stats, -, hrecv, -⟩
  · exact hlive
  · exact hbus.live_recv hrecv hlive
  · exact hbus.live_recv hrecv hlive

include hbus in
theorem sendResponse_live (h : sendResponse bus n c s = .ok (c', s')) (hlive : Live s') :
    Live s := by
  rcases sendResponse_cases h with ⟨-, rfl, -⟩ | ⟨-, rfl⟩ | ⟨r, accepted, -, hsend, -⟩
  · exact hlive
  · exact hlive
  · exact hbus.live_send hsend hlive

theorem tick_eq_ok (h : tick bus n config c s = .ok (c', s')) : ∃ c₁ s₁ c₂,
    sendResponse bus n { c with stats := { c.stats with
      queuedRequestCycles := c.stats.queuedRequestCycles + c.queue.length } } s = .ok (c₁, s₁) ∧
    receiveRequest bus n config c₁ s₁ = .ok (c₂, s') ∧
    c' = startRequest config c₂.advanceRequest := by
  rw [tick] at h
  obtain ⟨⟨c₁, s₁⟩, hsend, h⟩ := Except.bind_eq_ok_iff.mp h
  obtain ⟨⟨c₂, s₂⟩, hreceive, h⟩ := Except.bind_eq_ok_iff.mp h
  obtain ⟨rfl, rfl⟩ := Prod.mk.inj (Except.ok.inj h)
  exact ⟨c₁, s₁, c₂, hsend, hreceive, rfl⟩

include hbus in
theorem tick_live (h : tick bus n config c s = .ok (c', s')) (hlive : Live s') : Live s := by
  obtain ⟨c₁, s₁, c₂, hsend, hreceive, -⟩ := tick_eq_ok config h
  exact sendResponse_live hbus hsend (receiveRequest_live hbus config hreceive hlive)

include hbus in
theorem tick_spec (hok : c.Ok n) (hcarried : Carried Holds n t s)
    (h : tick bus n config c s = .ok (c', s')) (hlive : Live s') :
    ∃ t' done, Carried Holds n t' s' ∧ c'.Ok n ∧ Served Fifo c c' t t' done := by
  obtain ⟨c₁, s₁, c₂, hsend, hreceive, rfl⟩ := tick_eq_ok config h
  have hlive₁ := receiveRequest_live hbus config hreceive hlive
  have hcounted : MemoryController.Ok n { c with stats := { c.stats with
      queuedRequestCycles := c.stats.queuedRequestCycles + c.queue.length } } :=
    hok.congr ⟨rfl, rfl, rfl, rfl, rfl, rfl, rfl⟩ hok.short
  obtain ⟨t₁, hcarried₁, hok₁, hserved₁⟩ := sendResponse_spec hbus hcounted hcarried hsend hlive₁
  obtain ⟨t₂, hcarried₂, hok₂, hserved₂⟩ :=
    receiveRequest_spec hbus config hok₁ hcarried₁ hreceive hlive
  obtain ⟨done, hok₃, hserved₃⟩ :
      ∃ done, c₂.advanceRequest.Ok n ∧ Served Fifo c₂ c₂.advanceRequest t₂ t₂ done :=
    advanceRequest_spec hok₂
  obtain ⟨hok₄, hserved₄⟩ :
      (startRequest config c₂.advanceRequest).Ok n ∧
        Served Fifo c₂.advanceRequest (startRequest config c₂.advanceRequest) t₂ t₂ [] :=
    startRequest_spec config hok₃
  have hserved₀ : Served Fifo c { c with stats := { c.stats with
      queuedRequestCycles := c.stats.queuedRequestCycles + c.queue.length } } t t [] :=
    Served.of_eq rfl rfl rfl rfl
  exact ⟨t₂, _, hcarried₂, hok₄,
    (((hserved₀.trans hserved₁).trans hserved₂).trans hserved₃).trans hserved₄⟩

end Phases

end MemoryController

end Manycore
