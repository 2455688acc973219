import SimbusNoc.Manycore.CoreRuns
import SimbusNoc.Manycore.HartResponse
import SimbusNoc.Manycore.InterconnectLaws

/-!
# The turn of a core

In its turn a core first lets its adapter send and receive, and then it works, sends or receives
itself. On a bus whose calls return the turn returns as well, and what it puts on the bus is well
formed, short and for the controller, whatever program runs.

For each part of a turn there are three lemmas. The first lists what the part does when it returns
(`sendUnsent_cases` and its like), and after it nothing unfolds the part. The second says that the
part keeps the invariant of the view and adds only sendable requests to the traffic. The third says
that it returns at all. They are stated over any bus whose calls return and then put together in
the order of the turn. The invariant of the view does not need the bus to be good, and the last
section says so for a core on any bus.
-/

namespace Manycore

open Simbus Rv64archsem Throwing

/-- In a turn of the hart requests are added, and responses taken away. -/
structure Traffic.Turn (hart : UInt32) (t t' : Traffic) : Prop where
  requests : ∃ sent, t'.requests = t.requests ++ sent ∧ ∀ q ∈ sent, q.Sendable hart
  responses : t'.responses.Sublist t.responses

namespace Traffic.Turn

variable {hart : UInt32} {t t' t'' : Traffic}

theorem refl (hart : UInt32) (t : Traffic) : Turn hart t t where
  requests := ⟨[], (List.append_nil _).symm, nofun⟩
  responses := List.Sublist.refl _

theorem trans (h : Turn hart t t') (h' : Turn hart t' t'') : Turn hart t t'' where
  requests := by
    obtain ⟨sent, hsent, hsendable⟩ := h.requests
    obtain ⟨sent', hsent', hsendable'⟩ := h'.requests
    refine ⟨sent ++ sent', by rw [hsent', hsent, List.append_assoc], fun q hq ↦ ?_⟩
    exact (List.mem_append.mp hq).elim (hsendable q) (hsendable' q)
  responses := h'.responses.trans h.responses

theorem send {q : MemoryRequest} (hq : q.Sendable hart) : Turn hart t (t.addRequest q) where
  requests := ⟨[q], rfl, fun _ hq' ↦ List.mem_singleton.mp hq' ▸ hq⟩
  responses := List.Sublist.refl _

theorem recv {before after : List MemoryResponse} {r : MemoryResponse}
    (h : t.responses = before ++ r :: after) :
    Turn hart t { t with responses := before ++ after } where
  requests := ⟨[], (List.append_nil _).symm, nofun⟩
  responses := by
    rw [h]
    exact List.Sublist.append_left (List.sublist_cons_self r after) before

end Traffic.Turn

/-! ## The adapter

An adapter sends at most one request and takes at most one response in a tick. When its bus throws,
its caller faults the core, and a message that `recv` had already taken is gone.
-/

namespace MmioBusAdapter

variable {σ : Type} {bus : BusInterfaceV2 σ} {hart : UInt32} {port memoryPort : BusPortT}
  {a a' : MmioBusAdapter} {s s' : σ}

theorem sendUnsent_cases (h : sendUnsent bus port memoryPort a s = .ok (a', s')) :
    ((a' = a ∨ a' = a.countInjectionWait) ∧ s' = s) ∨
    ∃ e bytes accepted, a.unsent = some e ∧ encodeRequest e.request = .ok bytes ∧
      bus.send s port memoryPort requestChannel bytes = .ok (accepted, s') ∧
      a' = if accepted then { a with requests := markSent a.requests }
      else a.countInjectionWait := by
  rw [sendUnsent] at h
  cases hunsent : a.unsent with
  | none =>
    rw [hunsent] at h
    obtain ⟨rfl, rfl⟩ := Prod.mk.inj (Except.ok.inj h)
    exact .inl ⟨.inl rfl, rfl⟩
  | some e =>
    rw [hunsent] at h
    obtain ⟨can, -, h⟩ := Except.bind_eq_ok_iff.mp h
    cases can with
    | false =>
      obtain ⟨rfl, rfl⟩ := Prod.mk.inj (Except.ok.inj h)
      exact .inl ⟨.inr rfl, rfl⟩
    | true =>
      obtain ⟨bytes, hbytes, h⟩ := Except.bind_eq_ok_iff.mp h
      obtain ⟨⟨accepted, s₁⟩, hsend, h⟩ := Except.bind_eq_ok_iff.mp h
      cases accepted with
      | false =>
        obtain ⟨rfl, rfl⟩ := Prod.mk.inj (Except.ok.inj h)
        exact .inr ⟨e, bytes, false, rfl, hbytes, hsend, rfl⟩
      | true =>
        obtain ⟨rfl, rfl⟩ := Prod.mk.inj (Except.ok.inj h)
        exact .inr ⟨e, bytes, true, rfl, hbytes, hsend, rfl⟩

theorem receive_cases (h : receive bus hart port a s = .ok (a', s')) :
    ((a' = a ∨ a' = a.countResponseWait) ∧ (s' = s ∨ bus.recv s port responseChannel =
      .ok (none, s'))) ∨
    ∃ bytes r e, a.busy = true ∧ bus.recv s port responseChannel = .ok (some bytes, s') ∧
      decodeResponse bytes = .ok r ∧ a.requests.find? (answeredBy r.transactionId) = some e ∧
      r.hartId = hart ∧ a' = a.complete e r := by
  rw [receive] at h
  cases hbusy : a.busy with
  | false =>
    rw [hbusy] at h
    obtain ⟨rfl, rfl⟩ := Prod.mk.inj (Except.ok.inj h)
    exact .inl ⟨.inl rfl, .inl rfl⟩
  | true =>
    rw [hbusy] at h
    obtain ⟨can, -, h⟩ := Except.bind_eq_ok_iff.mp h
    cases can with
    | false =>
      obtain ⟨rfl, rfl⟩ := Prod.mk.inj (Except.ok.inj h)
      exact .inl ⟨.inr rfl, .inl rfl⟩
    | true =>
      obtain ⟨⟨data, s₁⟩, hrecv, h⟩ := Except.bind_eq_ok_iff.mp h
      cases data with
      | none =>
        obtain ⟨rfl, rfl⟩ := Prod.mk.inj (Except.ok.inj h)
        exact .inl ⟨.inr rfl, .inr hrecv⟩
      | some bytes =>
        obtain ⟨r, hr, h⟩ := Except.bind_eq_ok_iff.mp h
        cases hfind : a.requests.find? (answeredBy r.transactionId) with
        | none =>
          simp only [hfind] at h
          cases h
        | some e =>
          simp only [hfind] at h
          obtain ⟨u, hhart, h⟩ := Except.bind_eq_ok_iff.mp h
          rw [require_eq_ok_iff, beq_iff_eq] at hhart
          obtain ⟨rfl, rfl⟩ := Prod.mk.inj (Except.ok.inj h)
          exact .inr ⟨bytes, r, e, rfl, hrecv, hr, hfind, hhart, rfl⟩

theorem mem_markSent {l : List MmioEntry} :
    ∀ e ∈ markSent l, ∃ e' ∈ l, e.request = e'.request := by
  induction l with
  | nil => exact fun _ h ↦ nomatch h
  | cons e₁ rest ih =>
    intro e he
    rw [markSent] at he
    split_ifs at he with hsent
    · rcases List.mem_cons.mp he with rfl | he
      · exact ⟨e, List.mem_cons_self, rfl⟩
      · obtain ⟨e', he', heq⟩ := ih e he
        exact ⟨e', List.mem_cons_of_mem e₁ he', heq⟩
    · rcases List.mem_cons.mp he with rfl | he
      · exact ⟨e₁, List.mem_cons_self, rfl⟩
      · exact ⟨e, List.mem_cons_of_mem e₁ he, rfl⟩

theorem unsent_mem {e : MmioEntry} (h : a.unsent = some e) : e ∈ a.requests :=
  List.mem_of_find?_eq_some h

theorem requests_complete (a : MmioBusAdapter) (e : MmioEntry) (r : MemoryResponse) :
    (a.complete e r).requests = a.requests.eraseP (answeredBy r.transactionId) := by
  rw [complete, ← (takeData_same a e r).requests]

theorem sendUnsent_requests {P : MemoryRequest → Prop} (ha : ∀ e ∈ a.requests, P e.request)
    (h : sendUnsent bus port memoryPort a s = .ok (a', s')) : ∀ e ∈ a'.requests, P e.request := by
  rcases sendUnsent_cases h with ⟨rfl | rfl, -⟩ | ⟨-, -, accepted, -, -, -, rfl⟩
  · exact ha
  · exact ha
  · cases accepted with
    | false => exact ha
    | true =>
      intro e' he'
      obtain ⟨e'', he'', heq⟩ := mem_markSent e' he'
      exact heq ▸ ha e'' he''

theorem receive_requests {P : MemoryRequest → Prop} (ha : ∀ e ∈ a.requests, P e.request)
    (h : receive bus hart port a s = .ok (a', s')) : ∀ e ∈ a'.requests, P e.request := by
  rcases receive_cases h with ⟨rfl | rfl, -⟩ | ⟨-, -, -, -, -, -, -, -, rfl⟩
  · exact ha
  · exact ha
  · intro e' he'
    rw [requests_complete] at he'
    exact ha e' (List.mem_of_mem_eraseP he')

end MmioBusAdapter

/-- What a hart sends is short. -/
theorem MemoryRequest.Sendable.length_wire_le {hart : UInt32} {q : MemoryRequest}
    (h : q.Sendable hart) : q.wire.length ≤ 64 := by
  have hsize := h.size_le
  rw [length_wire]
  rcases h.valid.data with ⟨-, hnil⟩ | ⟨-, hlen⟩
  · rw [hnil, List.length_nil]
    omega
  · omega

section Laws

variable {σ : Type} {bus : IBus σ} {n : ℕ} {Fifo : Prop} {Holds : List Letter → σ → Prop}
  (hbus : Reliable bus.toBusInterfaceV2 (Allowed n) (fun _ ↦ True) Fifo Holds)
  (hreturns : HartsReturn bus.toBusInterfaceV2 n (· ≤ 64) fun s ↦ ∃ letters, Holds letters s)
  {hart : UInt32} {i : ℕ} (hi : hart.toNat = i) (hn : i < n) {t : Traffic} {s s' : σ}

theorem Carried.good (h : Carried Holds n t s) : ∃ letters, Holds letters s := by
  obtain ⟨letters, hholds, -⟩ := h
  exact ⟨letters, hholds⟩

include hbus hi hn in
/-- A request of the hart, sent or refused. -/
theorem Carried.sendSendable (h : Carried Holds n t s) {q : MemoryRequest} (hq : q.Sendable hart)
    {bytes : Bytes} (hbytes : encodeRequest q = .ok bytes) {accepted : Bool}
    (hsend : bus.send s i n requestChannel bytes = .ok (accepted, s')) :
    Carried Holds n (if accepted then t.addRequest q else t) s' := by
  rw [encodeRequest_of_valid hq.valid] at hbytes
  obtain rfl := Except.ok.inj hbytes
  exact h.sendRequest hbus hq.valid (by rw [hq.hartId, hi]) hn hsend trivial

include hreturns hn in
theorem exists_send_request (h : Carried Holds n t s) {q : MemoryRequest} (hq : q.Sendable hart) :
    ∃ accepted s', bus.send s i n requestChannel q.wire = .ok (accepted, s') :=
  hreturns.send h.good hn hq.length_wire_le

namespace MmioBusAdapter

variable {a a' : MmioBusAdapter}

include hbus hi hn in
theorem sendUnsent_keeps (ha : ∀ e ∈ a.requests, e.request.Sendable hart)
    (hcarried : Carried Holds n t s)
    (h : sendUnsent bus.toBusInterfaceV2 i n a s = .ok (a', s')) :
    ∃ t', Carried Holds n t' s' ∧ t.Turn hart t' ∧ ∀ e ∈ a'.requests, e.request.Sendable hart := by
  rcases sendUnsent_cases h with ⟨-, rfl⟩ | ⟨e, bytes, accepted, he, hbytes, hsend, -⟩
  · exact ⟨t, hcarried, .refl hart t, sendUnsent_requests ha h⟩
  · have hq := ha e (unsent_mem he)
    refine ⟨_, hcarried.sendSendable hbus hi hn hq hbytes hsend, ?_, sendUnsent_requests ha h⟩
    cases accepted with
    | false => exact .refl hart t
    | true => exact .send hq

include hreturns hn in
theorem exists_sendUnsent_eq_ok (ha : ∀ e ∈ a.requests, e.request.Sendable hart)
    (hcarried : Carried Holds n t s) :
    ∃ result, sendUnsent bus.toBusInterfaceV2 i n a s = .ok result := by
  rw [sendUnsent]
  cases he : a.unsent with
  | none => exact ⟨_, rfl⟩
  | some e =>
    have hq := ha e (unsent_mem he)
    obtain ⟨room, hroom⟩ := hreturns.canSend hcarried.good hn
    obtain ⟨accepted, s', hsend⟩ := exists_send_request hreturns hn hcarried hq
    dsimp only
    rw [hroom, encodeRequest_of_valid hq.valid]
    dsimp only [bind, Except.bind]
    cases room with
    | false => exact ⟨_, rfl⟩
    | true =>
      rw [if_neg (by decide), hsend]
      cases accepted with
      | false => exact ⟨_, rfl⟩
      | true => exact ⟨_, rfl⟩

include hbus hreturns hn in
/-- Whatever `recv` returns has left the bus. -/
theorem receiveThrown_keeps (hcarried : Carried Holds n t s) :
    ∃ t', Carried Holds n t' (receiveThrown bus i s) ∧ t.Turn hart t' := by
  obtain ⟨ready, hready⟩ := hreturns.canRecv hcarried.good hn
  obtain ⟨data, s', hrecv⟩ := hreturns.recv hcarried.good hn
  rw [receiveThrown, hready, hrecv]
  cases data with
  | none => exact ⟨t, hcarried.recv_none hbus hrecv trivial, .refl hart t⟩
  | some bytes =>
    obtain ⟨before, r, after, hsplit, -, -, -, hcarried', -⟩ :=
      hcarried.recvResponse hbus hrecv trivial
    exact ⟨_, hcarried', .recv hsplit⟩

include hbus in
theorem receive_keeps (ha : ∀ e ∈ a.requests, e.request.Sendable hart)
    (hcarried : Carried Holds n t s)
    (h : receive bus.toBusInterfaceV2 hart i a s = .ok (a', s')) :
    ∃ t', Carried Holds n t' s' ∧ t.Turn hart t' ∧ ∀ e ∈ a'.requests, e.request.Sendable hart := by
  rcases receive_cases h with ⟨-, hs'⟩ | ⟨bytes, r, e, -, hrecv, -, -, -, -⟩
  · refine ⟨t, ?_, .refl hart t, receive_requests ha h⟩
    rcases hs' with rfl | hrecv
    · exact hcarried
    · exact hcarried.recv_none hbus hrecv trivial
  · obtain ⟨before, r', after, hsplit, -, -, -, hcarried', -⟩ :=
      hcarried.recvResponse hbus hrecv trivial
    exact ⟨_, hcarried', .recv hsplit, receive_requests ha h⟩

include hbus hreturns hi hn in
/-- The adapter's turn, also when it throws. -/
theorem tryTick_keeps (ha : ∀ e ∈ a.requests, e.request.Sendable hart)
    (hcarried : Carried Holds n t s) :
    ∃ t', Carried Holds n t' (tryTick bus hart i n a s).2.2 ∧ t.Turn hart t' ∧
      ∀ e ∈ (tryTick bus hart i n a s).2.1.requests, e.request.Sendable hart := by
  obtain ⟨⟨a₁, s₁⟩, hsend⟩ := exists_sendUnsent_eq_ok hreturns hn
    (a := { a with clock := a.clock + 1 }) ha hcarried
  obtain ⟨t₁, hcarried₁, hturn₁, ha₁⟩ := sendUnsent_keeps hbus hi hn
    (a := { a with clock := a.clock + 1 }) ha hcarried hsend
  rw [tryTick, hsend]
  dsimp only
  cases hreceive : receive bus.toBusInterfaceV2 hart i a₁ s₁ with
  | error reason =>
    obtain ⟨t₂, hcarried₂, hturn₂⟩ : ∃ t', Carried Holds n t' (receiveThrown bus i s₁) ∧
        t₁.Turn hart t' := receiveThrown_keeps hbus hreturns hn hcarried₁
    exact ⟨t₂, hcarried₂, hturn₁.trans hturn₂, ha₁⟩
  | ok result =>
    obtain ⟨t₂, hcarried₂, hturn₂, ha₂⟩ := receive_keeps hbus ha₁ hcarried₁ hreceive
    exact ⟨t₂, hcarried₂, hturn₁.trans hturn₂, ha₂⟩

end MmioBusAdapter

namespace Rv64AtomicCore

variable {k : Rv64Hart} {c c' : Rv64AtomicCore}

theorem issueMemoryRequest_cases {port memoryPort : BusPortT}
    (h : issueMemoryRequest bus k port memoryPort c s = .ok (c', s')) :
    (s' = s ∧ (c'.view = c.view ∨ (c.vectorIssueLeft = 0 ∧ touchesWindow c.request = true ∧
      c' = recover (accessWindow k c)))) ∨
    ∃ bytes accepted, touchesWindow c.request = false ∧ c.mmio.busy = false ∧
      encodeRequest c.request = .ok bytes ∧
      bus.send s port memoryPort requestChannel bytes = .ok (accepted, s') ∧
      c'.view = if accepted then { c.view with
          state := .memoryWait
          transactions := c.view.transactions ++ [c.request]
          sent := c.view.sent + 1 }
        else c.view := by
  rw [issueMemoryRequest] at h
  -- In the order of the source: cycles left to wait, the control window, a busy adapter, no room.
  by_cases hissue : 0 < c.vectorIssueLeft
  · rw [if_pos hissue] at h
    obtain ⟨rfl, rfl⟩ := Prod.mk.inj (Except.ok.inj h)
    exact .inl ⟨rfl, .inl (view_countVectorIssueWait c)⟩
  rw [if_neg hissue] at h
  by_cases hwindow : touchesWindow c.request = true
  · rw [if_pos hwindow] at h
    obtain ⟨rfl, rfl⟩ := Prod.mk.inj (Except.ok.inj h)
    exact .inl ⟨rfl, .inr ⟨Nat.eq_zero_of_not_pos hissue, hwindow, rfl⟩⟩
  rw [if_neg hwindow] at h
  cases hbusy : c.mmio.busy with
  | true =>
    rw [hbusy, if_pos rfl] at h
    obtain ⟨rfl, rfl⟩ := Prod.mk.inj (Except.ok.inj h)
    exact .inl ⟨rfl, .inl (view_countSerializationWait c)⟩
  | false =>
    rw [hbusy, if_neg (by decide)] at h
    have hview : c.startRequest.view = c.view := view_startRequest c
    have hrequest : c.startRequest.request = c.request :=
      congrArg (fun v ↦ v.request.getD {}) hview
    obtain ⟨room, -, h⟩ := Except.bind_eq_ok_iff.mp h
    cases room with
    | false =>
      obtain ⟨rfl, rfl⟩ := Prod.mk.inj (Except.ok.inj h)
      exact .inl ⟨rfl, .inl ((view_countBlocked _).trans hview)⟩
    | true =>
      obtain ⟨bytes, hbytes, h⟩ := Except.bind_eq_ok_iff.mp h
      obtain ⟨⟨accepted, s₁⟩, hsend, h⟩ := Except.bind_eq_ok_iff.mp h
      rw [hrequest] at hbytes
      cases accepted with
      | false =>
        obtain ⟨rfl, rfl⟩ := Prod.mk.inj (Except.ok.inj h)
        exact .inr ⟨bytes, false, by simpa using hwindow, rfl, hbytes, hsend, hview⟩
      | true =>
        obtain ⟨rfl, rfl⟩ := Prod.mk.inj (Except.ok.inj h)
        refine .inr ⟨bytes, true, by simpa using hwindow, rfl, hbytes, hsend, ?_⟩
        rw [if_pos rfl, ← hrequest, ← hview]
        rfl

theorem receiveMemoryResponse_cases {port : BusPortT}
    (h : receiveMemoryResponse bus k port c s = .ok (c', s')) :
    (c'.view = c.view ∧ (s' = s ∨ bus.recv s port responseChannel = .ok (none, s'))) ∨
    ∃ bytes, bus.recv s port responseChannel = .ok (some bytes, s') ∧
      c' = recover (takeResponse k c bytes) := by
  rw [receiveMemoryResponse] at h
  obtain ⟨ready, -, h⟩ := Except.bind_eq_ok_iff.mp h
  cases ready with
  | false =>
    obtain ⟨rfl, rfl⟩ := Prod.mk.inj (Except.ok.inj h)
    exact .inl ⟨rfl, .inl rfl⟩
  | true =>
    obtain ⟨⟨data, s₁⟩, hrecv, h⟩ := Except.bind_eq_ok_iff.mp h
    cases data with
    | none =>
      obtain ⟨rfl, rfl⟩ := Prod.mk.inj (Except.ok.inj h)
      exact .inl ⟨rfl, .inr hrecv⟩
    | some bytes =>
      obtain ⟨rfl, rfl⟩ := Prod.mk.inj (Except.ok.inj h)
      exact .inr ⟨bytes, hrecv, rfl⟩

/-- A core that has faulted asks for nothing more. -/
theorem ok_fault {hart : UInt32} {c₁ : Rv64AtomicCore} (hok : c.view.Ok hart)
    (hmmio : c₁.mmio = c.mmio) (reason : String) : (c₁.fault reason).view.Ok hart where
  adapter := by
    intro e he
    rw [view_fault] at he
    exact hok.adapter e (show e ∈ c.mmio.requests from hmmio ▸ he)
  staged := fun h ↦ by rcases h with h | h <;> cases h
  inactive := fun h ↦ by rcases h with h | h <;> cases h
  loads := nofun
  stores := nofun
  prepared := fun h ↦ absurd rfl h

theorem Faults.ok {hart : UInt32} (h : Faults c c') (hok : c.view.Ok hart) : c'.view.Ok hart := by
  obtain ⟨reason, c₁, rfl, hmmio, -⟩ := h
  exact ok_fault hok hmmio reason

theorem request_sendable {hart : UInt32} (hok : c.view.Ok hart)
    (hstate : c.state = .memoryIssue ∨ c.state = .memoryWait) :
    ∃ q, c.view.Staged hart q ∧ c.request = q := by
  obtain ⟨q, hq⟩ := hok.staged hstate
  refine ⟨q, hq, ?_⟩
  rw [request, show c.memoryRequest = some q from hq.request, Option.getD_some]

include hreturns hn in
theorem exists_issueMemoryRequest_eq_ok (hok : c.view.Ok k.hartId) (hstate : c.state = .memoryIssue)
    (hcarried : Carried Holds n t s) :
    ∃ result, issueMemoryRequest bus k i n c s = .ok result := by
  obtain ⟨q, hq, hrequest⟩ := request_sendable hok (.inl hstate)
  obtain ⟨room, hroom⟩ := hreturns.canSend hcarried.good hn
  obtain ⟨accepted, s', hsend⟩ := exists_send_request hreturns hn hcarried hq.sendable
  have hstart : c.startRequest.request = q :=
    (congrArg (fun v ↦ v.request.getD {}) (view_startRequest c)).trans hrequest
  rw [issueMemoryRequest]
  split_ifs
  · exact ⟨_, rfl⟩
  · exact ⟨_, rfl⟩
  · exact ⟨_, rfl⟩
  · dsimp only
    rw [hroom, hstart, encodeRequest_of_valid hq.sendable.valid]
    dsimp only [bind, Except.bind]
    cases room with
    | false => exact ⟨_, rfl⟩
    | true =>
      rw [if_neg (by decide), hsend]
      cases accepted with
      | false => exact ⟨_, rfl⟩
      | true => exact ⟨_, rfl⟩

include hreturns hn in
theorem exists_receiveMemoryResponse_eq_ok (hcarried : Carried Holds n t s) :
    ∃ result, receiveMemoryResponse bus k i c s = .ok result := by
  obtain ⟨ready, hready⟩ := hreturns.canRecv hcarried.good hn
  obtain ⟨data, s', hrecv⟩ := hreturns.recv hcarried.good hn
  rw [receiveMemoryResponse, hready]
  dsimp only [bind, Except.bind]
  cases ready with
  | false => exact ⟨_, rfl⟩
  | true =>
    rw [if_neg (by decide), hrecv]
    cases data with
    | none => exact ⟨_, rfl⟩
    | some bytes => exact ⟨_, rfl⟩

include hbus hn in
/-- A core sends its request, or the bus does not take it, or it does something else. -/
theorem issueMemoryRequest_keeps (hi : k.hartId.toNat = i) (hok : c.view.Ok k.hartId)
    (hstate : c.state = .memoryIssue) (hcarried : Carried Holds n t s)
    (h : issueMemoryRequest bus k i n c s = .ok (c', s')) :
    ∃ t', Carried Holds n t' s' ∧ t.Turn k.hartId t' ∧ c'.view.Ok k.hartId := by
  rcases issueMemoryRequest_cases h with ⟨rfl, hsame | ⟨-, -, rfl⟩⟩ |
    ⟨bytes, accepted, -, -, hbytes, hsend, hview⟩
  · exact ⟨t, hcarried, .refl _ t, hsame ▸ hok⟩
  · refine ⟨t, hcarried, .refl _ t, ?_⟩
    exact (recover_spec (accessWindow_spec hok hstate)).elim (fun h ↦ h.ok) fun h ↦ h.ok hok
  · obtain ⟨q, hq, rfl⟩ := request_sendable hok (.inl hstate)
    refine ⟨_, hcarried.sendSendable hbus hi hn hq.sendable hbytes hsend, ?_, ?_⟩
    · cases accepted with
      | false => exact .refl _ t
      | true => exact .send hq.sendable
    · rw [hview]
      cases accepted with
      | false => exact hok
      | true => exact hok.send hstate _

include hbus in
theorem receiveMemoryResponse_keeps (hok : c.view.Ok k.hartId) (hstate : c.state = .memoryWait)
    (hcarried : Carried Holds n t s)
    (h : receiveMemoryResponse bus k i c s = .ok (c', s')) :
    ∃ t', Carried Holds n t' s' ∧ t.Turn k.hartId t' ∧ c'.view.Ok k.hartId := by
  rcases receiveMemoryResponse_cases h with ⟨hsame, hs'⟩ | ⟨bytes, hrecv, rfl⟩
  · refine ⟨t, ?_, .refl _ t, hsame ▸ hok⟩
    rcases hs' with rfl | hrecv
    · exact hcarried
    · exact hcarried.recv_none hbus hrecv trivial
  · obtain ⟨before, r, after, hsplit, rfl, hshort, -, hcarried', -⟩ :=
      hcarried.recvResponse hbus hrecv trivial
    refine ⟨_, hcarried', .recv hsplit, ?_⟩
    have hspec := takeResponse_spec hok hstate (decodeResponse_encodeResponse hshort)
    cases htake : takeResponse k c (encodeResponse r) with
    | ok c' => exact (hspec.of_eq_ok htake).ok
    | error e => exact ok_fault hok (hspec.of_eq_error htake).1 e.1

include hbus hreturns hn in
theorem tickCore_keeps (hi : k.hartId.toNat = i) (hok : c.view.Ok k.hartId)
    (hcarried : Carried Holds n t s) :
    ∃ c' s' t', tickCore bus k i n c s = .ok (c', s') ∧ Carried Holds n t' s' ∧
      t.Turn k.hartId t' ∧ c'.view.Ok k.hartId := by
  have hok₁ : c.countTick.view.Ok k.hartId := hok
  cases hstate : c.state with
  | fetchDecode =>
    refine ⟨fetchDecode k c.countTick, s, t, tickCore_of_fetchDecode hstate, hcarried,
      .refl _ t, ?_⟩
    exact (fetchDecode_spec hok₁ hstate).elim (fun h ↦ h.ok) fun h ↦ h.ok hok₁
  | executeWait =>
    refine ⟨advanceExecute k c.countTick, s, t, tickCore_of_executeWait hstate, hcarried,
      .refl _ t, ?_⟩
    exact (advanceExecute_spec hok₁ hstate).elim (fun h ↦ h.ok) fun h ↦ h.ok hok₁
  | memoryIssue =>
    obtain ⟨⟨c', s'⟩, h⟩ := exists_issueMemoryRequest_eq_ok hreturns hn hok₁ hstate hcarried
    obtain ⟨t', hcarried', hturn, hok'⟩ :=
      issueMemoryRequest_keeps hbus hn hi hok₁ hstate hcarried h
    exact ⟨c', s', t', (tickCore_of_memoryIssue hstate).trans h, hcarried', hturn, hok'⟩
  | memoryWait =>
    obtain ⟨⟨c', s'⟩, h⟩ :=
      exists_receiveMemoryResponse_eq_ok (k := k) (c := c.countTick) hreturns hn
      hcarried
    obtain ⟨t', hcarried', hturn, hok'⟩ := receiveMemoryResponse_keeps hbus hok₁ hstate hcarried h
    exact ⟨c', s', t', (tickCore_of_memoryWait hstate).trans h, hcarried', hturn, hok'⟩
  | halted =>
    exact ⟨c, s, t, tickCore_of_finished (by simp [finished, halted, hstate]), hcarried,
      .refl _ t, hok⟩
  | faulted =>
    exact ⟨c, s, t, tickCore_of_finished (by simp [finished, faulted, hstate]), hcarried,
      .refl _ t, hok⟩

include hbus hreturns hn in
theorem tickMmio_keeps (hi : k.hartId.toNat = i) (hok : c.view.Ok k.hartId)
    (hcarried : Carried Holds n t s) :
    ∃ t', Carried Holds n t' (tickMmio bus k i n c s).2 ∧ t.Turn k.hartId t' ∧
      (tickMmio bus k i n c s).1.view.Ok k.hartId := by
  obtain ⟨t₁, hcarried₁, hturn₁, ha₁⟩ :=
    MmioBusAdapter.tryTick_keeps hbus hreturns hi hn (a := c.mmio) hok.adapter hcarried
  rw [tickMmio]
  split
  · rename_i mmio s₁ heq
    rw [heq] at ha₁ hcarried₁
    exact ⟨t₁, hcarried₁, hturn₁, hok.setMmio ha₁⟩
  · rename_i reason mmio s₁ heq
    rw [heq] at ha₁ hcarried₁
    exact ⟨t₁, hcarried₁, hturn₁, ok_fault (c := c.advanceMmio mmio) (hok.setMmio ha₁) rfl reason⟩

include hbus hreturns hn in
/-- The turn of a core returns, whatever it does. -/
theorem tick_keeps (hi : k.hartId.toNat = i) (hok : c.view.Ok k.hartId)
    (hcarried : Carried Holds n t s) :
    ∃ c' s' t', tick bus k i n c s = .ok (c', s') ∧ Carried Holds n t' s' ∧
      t.Turn k.hartId t' ∧ c'.view.Ok k.hartId := by
  obtain ⟨t₁, hcarried₁, hturn₁, hok₁⟩ := tickMmio_keeps hbus hreturns hn hi hok hcarried
  obtain ⟨c', s', t', h, hcarried', hturn', hok'⟩ :=
    tickCore_keeps hbus hreturns hn hi hok₁ hcarried₁
  exact ⟨c', s', t', h, hcarried', hturn₁.trans hturn', hok'⟩

end Rv64AtomicCore

end Laws

/-! ## On any bus

What a core keeps of its own requests does not need a bus that behaves.
-/

theorem MmioBusAdapter.tryTick_requests {σ : Type} (bus : IBus σ) (hart : UInt32)
    (port memoryPort : BusPortT) {a : MmioBusAdapter} {P : MemoryRequest → Prop}
    (ha : ∀ e ∈ a.requests, P e.request) (s : σ) :
    ∀ e ∈ (tryTick bus hart port memoryPort a s).2.1.requests, P e.request := by
  rw [tryTick]
  cases hsend : sendUnsent bus.toBusInterfaceV2 port memoryPort
      { a with clock := a.clock + 1 } s with
  | error reason => exact ha
  | ok result =>
    have ha₁ := sendUnsent_requests (a := { a with clock := a.clock + 1 }) ha hsend
    dsimp only
    cases hreceive : receive bus.toBusInterfaceV2 hart port result.1 result.2 with
    | error reason => exact ha₁
    | ok result' => exact receive_requests ha₁ hreceive

namespace Rv64AtomicCore

variable {k : Rv64Hart} {c c' : Rv64AtomicCore}

theorem tickMmio_ok {σ : Type} (bus : IBus σ) (port memoryPort : BusPortT) (s : σ)
    (hok : c.view.Ok k.hartId) : (c.tickMmio bus k port memoryPort s).1.view.Ok k.hartId := by
  have ha := MmioBusAdapter.tryTick_requests bus k.hartId port memoryPort hok.adapter s
  rw [tickMmio]
  split
  · next mmio s₁ heq =>
    rw [show c.view.mmio = c.mmio from rfl, heq] at ha
    exact hok.setMmio ha
  · next reason mmio s₁ heq =>
    rw [show c.view.mmio = c.mmio from rfl, heq] at ha
    exact ok_fault (c := c.advanceMmio mmio) (hok.setMmio ha) rfl reason

theorem takeResponse_ok (hok : c.view.Ok k.hartId) (hstate : c.state = .memoryWait)
    (bytes : Bytes) : (recover (takeResponse k c bytes)).view.Ok k.hartId := by
  cases hdecode : decodeResponse bytes with
  | error reason =>
    have hthrow : takeResponse k c bytes = .error (reason, c) := by
      rw [takeResponse, hdecode]
      rfl
    rw [hthrow]
    exact ok_fault hok rfl reason
  | ok response =>
    have hspec := takeResponse_spec hok hstate hdecode
    cases htake : takeResponse k c bytes with
    | ok c' => exact (hspec.of_eq_ok htake).ok
    | error e => exact ok_fault hok (hspec.of_eq_error htake).1 e.1

theorem Turn.view_ok (hturn : Turn k c c') (hok : c.view.Ok k.hartId) : c'.view.Ok k.hartId := by
  cases hturn with
  | adapter bus port memoryPort s => exact tickMmio_ok bus port memoryPort s hok
  | core bus port memoryPort s hcore =>
    have hok₁ : c.countTick.view.Ok k.hartId := hok
    rcases tickCore_cases hcore with rfl | ⟨hstate, rfl⟩ | ⟨hstate, rfl⟩ | ⟨hstate, hissue⟩ |
      ⟨hstate, hreceive⟩
    · exact hok
    · exact (fetchDecode_spec hok₁ hstate).elim (fun h ↦ h.ok) fun h ↦ h.ok hok₁
    · exact (advanceExecute_spec hok₁ hstate).elim (fun h ↦ h.ok) fun h ↦ h.ok hok₁
    · rcases issueMemoryRequest_cases hissue with ⟨-, hsame | ⟨-, -, rfl⟩⟩ |
        ⟨-, accepted, -, -, -, -, hview⟩
      · exact hsame ▸ hok₁
      · exact (recover_spec (accessWindow_spec hok₁ hstate)).elim (fun h ↦ h.ok) fun h ↦ h.ok hok₁
      · rw [hview]
        cases accepted with
        | false => exact hok₁
        | true => exact hok₁.send hstate _
    · rcases receiveMemoryResponse_cases hreceive with ⟨hsame, -⟩ | ⟨bytes, -, rfl⟩
      · exact hsame ▸ hok₁
      · exact takeResponse_ok hok₁ hstate bytes

theorem construct_ok {depth : UInt32} {stackTop : UInt64} (h : construct k depth stackTop = .ok c) :
    c.view.Ok k.hartId := by
  obtain ⟨u, -, h⟩ := Except.bind_eq_ok_iff.mp h
  obtain ⟨mmio, hmmio, h⟩ := Except.bind_eq_ok_iff.mp h
  obtain ⟨u', -, hmmio⟩ := Except.bind_eq_ok_iff.mp hmmio
  obtain rfl := Except.ok.inj hmmio
  obtain rfl := Except.ok.inj h
  exact
    { adapter := nofun
      staged := fun h ↦ by rcases h with h | h <;> cases h
      inactive := fun _ ↦ rfl
      loads := nofun
      stores := nofun
      prepared := fun _ ↦ rfl }

/-- What holds of the requests of a core holds whatever its bus does. -/
theorem Reachable.view_ok (h : Reachable k c) : c.view.Ok k.hartId := by
  induction h with
  | construct h => exact construct_ok h
  | turn h hturn ih => exact hturn.view_ok ih

end Rv64AtomicCore

end Manycore
