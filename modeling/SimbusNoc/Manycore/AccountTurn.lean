import SimbusNoc.Manycore.HartAccount
import SimbusNoc.Manycore.Script

/-!
# The turn of a hart keeps its account

Whatever the adapter and the core of a hart do in a turn, what they send is added to the account,
and what they receive answers a request that the one who receives it has sent. So a hart in good
standing does not fault over a response, and the traffic of the other harts stays as it is.

The account itself knows only of five events: a party works, sends, or takes a response, for the
core and for the adapter. This module matches the functions of a turn with these events. A `send`
adds a letter for the controller, whose hart is read off the request in it; a `recv` takes the
oldest letter for the hart, which is a response, and `Arrives` says to which request. A core that
has faulted has no account any more, and the last lemmas only say that it leaves the traffic of the
others alone; its adapter goes on.
-/

namespace Manycore

open Simbus MemoryController AtomicCore Throwing

/-- The account of a hart against the traffic, with the requests in front of the controller and the
responses that it holds. -/
def HartView.AccountIn (Fifo : Prop) (hart : UInt32) (memoryPort : BusPortT) (depth : UInt32)
    (log : List (MemoryRequest × MemoryResponse)) (front : List MemoryRequest)
    (later : List MemoryResponse) (t : Traffic) (v : HartView) : Prop :=
  v.Account Fifo hart memoryPort depth log ((front ++ t.requests).filter (fromHart hart))
    ((t.responses ++ later).filter (toHart hart))

section Laws

variable {σ : Type} {bus : IBus σ} {n : ℕ} {Fifo : Prop} {Holds : List Letter → σ → Prop}
  (hbus : Reliable bus.toBusInterfaceV2 (Allowed n) (fun _ ↦ True) Fifo Holds)
  (hreturns : HartsReturn bus.toBusInterfaceV2 n (· ≤ 64) fun s ↦ ∃ letters, Holds letters s)
  {hart : UInt32} {i : ℕ} (hi : hart.toNat = i) (hn : i < n) {depth : UInt32}
  {log : List (MemoryRequest × MemoryResponse)} {front : List MemoryRequest}
  {later : List MemoryResponse} {t : Traffic} {s s' : σ}

/-! ## The traffic of a turn

Sending adds a request of this hart at the end of the traffic, and receiving takes the oldest
response to it. The part of the traffic that belongs to another hart is the same before and after.
-/

theorem AtomicCore.OthersKept.trans {t' t'' : Traffic} (h : OthersKept hart t t')
    (h' : OthersKept hart t' t'') : OthersKept hart t t'' := fun j hj ↦
  ⟨(h' j hj).1.trans (h j hj).1, (h' j hj).2.trans (h j hj).2⟩

theorem AtomicCore.OthersKept.send {q : MemoryRequest} (hq : q.hartId = hart) :
    OthersKept hart t (t.addRequest q) := fun j hj ↦
  ⟨by rw [Traffic.addRequest, List.filter_append,
      List.filter_cons_of_neg (by simp [fromHart, hq, Ne.symm hj]), List.filter_nil,
      List.append_nil], rfl⟩

theorem AtomicCore.OthersKept.recv {before after : List MemoryResponse} {r : MemoryResponse}
    (h : t.responses = before ++ r :: after) (hr : r.hartId = hart) :
    OthersKept hart t { t with responses := before ++ after } := fun j hj ↦
  ⟨rfl, by rw [h, List.filter_append, List.filter_append,
    List.filter_cons_of_neg (by simp [toHart, hr, Ne.symm hj])]⟩

theorem filter_addRequest {q : MemoryRequest} (hq : q.hartId = hart) :
    (front ++ (t.addRequest q).requests).filter (fromHart hart) =
      (front ++ t.requests).filter (fromHart hart) ++ [q] := by
  rw [Traffic.addRequest, ← List.append_assoc, List.filter_append,
    List.filter_cons_of_pos (by simp [fromHart, hq]), List.filter_nil]

theorem filter_responses {before after : List MemoryResponse} {r : MemoryResponse}
    (h : t.responses = before ++ r :: after) (hr : r.hartId = hart) :
    (t.responses ++ later).filter (toHart hart) =
      before.filter (toHart hart) ++ r :: (after ++ later).filter (toHart hart) := by
  rw [h, List.append_assoc, List.filter_append, List.cons_append,
    List.filter_cons_of_pos (by simp [toHart, hr])]

theorem filter_remaining {before after : List MemoryResponse} :
    (({ t with responses := before ++ after } : Traffic).responses ++ later).filter (toHart hart) =
      before.filter (toHart hart) ++ (after ++ later).filter (toHart hart) := by
  rw [List.append_assoc, List.filter_append]

/-- A hart has taken a response off the bus. -/
structure Arrives (hart : UInt32) (Fifo : Prop) (t : Traffic) (r : MemoryResponse)
    (before after : List MemoryResponse) : Prop where
  split : t.responses = before ++ r :: after
  hartId : r.hartId = hart
  first : Fifo → before.filter (toHart hart) = []

include hbus hi in
theorem Carried.arrives (h : Carried Holds n t s) {bytes : Bytes}
    (hrecv : bus.recv s i responseChannel = .ok (some bytes, s')) :
    ∃ before r after, Arrives hart Fifo t r before after ∧ decodeResponse bytes = .ok r ∧
      Carried Holds n { t with responses := before ++ after } s' := by
  obtain ⟨before, r, after, hsplit, rfl, hshort, hhart, hcarried, hfirst⟩ :=
    h.recvResponse hbus hrecv trivial
  have hr : r.hartId = hart := UInt32.toNat_inj.mp (hhart.trans hi.symm)
  refine ⟨before, r, after, ⟨hsplit, hr, fun hF ↦ ?_⟩,
    decodeResponse_encodeResponse hshort, hcarried⟩
  refine List.filter_eq_nil_iff.mpr fun r' hr' ↦ ?_
  simpa [toHart, hr] using hfirst hF r' hr'

/-! ## The adapter -/

namespace MmioBusAdapter

variable {a : MmioBusAdapter} {v : HartView}

variable (depth log front later) in
include hbus hreturns hi hn in
theorem sendUnsent_account (ha : ∀ e ∈ a.requests, e.request.Sendable hart)
    (hcarried : Carried Holds n t s) :
    ∃ a' s' t', sendUnsent bus.toBusInterfaceV2 i n a s = .ok (a', s') ∧ Carried Holds n t' s' ∧
      OthersKept hart t t' ∧
      ∀ v : HartView, v.mmio = a → v.AccountIn Fifo hart n depth log front later t →
        HartView.AccountIn Fifo hart n depth log front later t' { v with mmio := a' } := by
  obtain ⟨⟨a', s'⟩, h⟩ := exists_sendUnsent_eq_ok hreturns hn ha hcarried
  have hwait : ∀ v : HartView, v.mmio = a → v.AccountIn Fifo hart n depth log front later t →
      HartView.AccountIn Fifo hart n depth log front later t { v with
        mmio := a.countInjectionWait } := by
    rintro v rfl haccount
    exact haccount.still ⟨rfl, rfl, rfl, rfl, rfl, rfl, rfl, rfl⟩ id rfl
  rcases sendUnsent_cases h with ⟨rfl | rfl, rfl⟩ | ⟨e, bytes, accepted, he, hbytes, hsend, rfl⟩
  · exact ⟨a', s', t, h, hcarried, .refl hart t, by rintro v rfl haccount; exact haccount⟩
  · exact ⟨_, s', t, h, hcarried, .refl hart t, hwait⟩
  · have hq := ha e (unsent_mem he)
    refine ⟨_, s', _, h, hcarried.sendSendable hbus hi hn hq hbytes hsend, ?_, ?_⟩
    · cases accepted with
      | false => exact .refl hart t
      | true => exact .send hq.hartId
    · cases accepted with
      | false => exact hwait
      | true =>
        rintro v rfl haccount
        rw [if_pos rfl, if_pos rfl, HartView.AccountIn, filter_addRequest hq.hartId]
        exact haccount.markSent he

variable (depth log front later) in
include hbus hreturns hi hn in
/-- The adapter takes the response to one of its requests, or there is none. -/
theorem receive_account (hcarried : Carried Holds n t s) :
    ∃ t', OthersKept hart t t' ∧
      ((∃ a' s', receive bus.toBusInterfaceV2 hart i a s = .ok (a', s') ∧ Carried Holds n t' s' ∧
        ∀ v : HartView, v.mmio = a → v.AccountIn Fifo hart n depth log front later t →
          HartView.AccountIn Fifo hart n depth log front later t' { v with mmio := a' }) ∨
      (∃ reason, receive bus.toBusInterfaceV2 hart i a s = .error reason ∧
        Carried Holds n t' (receiveThrown bus i s) ∧
        ∀ v : HartView, v.mmio = a → ¬v.AccountIn Fifo hart n depth log front later t)) := by
  obtain ⟨ready, hready⟩ := hreturns.canRecv hcarried.good hn
  obtain ⟨data, s', hrecv⟩ := hreturns.recv hcarried.good hn
  have hwait : ∀ v : HartView, v.mmio = a → v.AccountIn Fifo hart n depth log front later t →
      HartView.AccountIn Fifo hart n depth log front later t { v with
        mmio := a.countResponseWait } := by
    rintro v rfl haccount
    exact haccount.still ⟨rfl, rfl, rfl, rfl, rfl, rfl, rfl, rfl⟩ id rfl
  rw [receive, receiveThrown, hready, hrecv]
  cases hbusy : a.busy with
  | false =>
    exact ⟨t, .refl hart t, .inl ⟨a, s, rfl, hcarried, by rintro v rfl haccount; exact haccount⟩⟩
  | true =>
    cases ready with
    | false => exact ⟨t, .refl hart t, .inl ⟨_, s, rfl, hcarried, hwait⟩⟩
    | true =>
      cases data with
      | none =>
        exact ⟨t, .refl hart t, .inl ⟨_, s', rfl, hcarried.recv_none hbus hrecv trivial, hwait⟩⟩
      | some bytes =>
        -- A response has come. With the account in order the adapter has asked for it, so that a
        -- response without a request means that it was not.
        obtain ⟨before, r, after, harrives, hdecode, hcarried'⟩ := hcarried.arrives hbus hi hrecv
        refine ⟨_, .recv harrives.split harrives.hartId, ?_⟩
        have hcomplete : ∀ v : HartView, v.mmio = a →
            v.AccountIn Fifo hart n depth log front later t →
            ∃ e, a.requests.find? (answeredBy r.transactionId) = some e ∧
              HartView.AccountIn Fifo hart n depth log front later
                { t with responses := before ++ after } { v with mmio := a.complete e r } := by
          rintro v rfl haccount
          have hstate : v.state ≠ .memoryWait := by
            intro hwait
            rw [busy, haccount.idle hwait] at hbusy
            cases hbusy
          obtain ⟨e, hfind, -, haccount'⟩ := haccount.complete hstate
            (filter_responses harrives.split harrives.hartId) harrives.first
          refine ⟨e, hfind, ?_⟩
          rwa [HartView.AccountIn, filter_remaining]
        have hhart : (r.hartId == hart) = true := by rw [harrives.hartId, beq_self_eq_true]
        cases hfind : a.requests.find? (answeredBy r.transactionId) with
        | none =>
          refine .inr ⟨"unexpected MMIO bus response", ?_, hcarried', ?_⟩
          · simp only [bind, Except.bind, hdecode, hfind]
            rfl
          · intro v hv haccount
            obtain ⟨e, he, -⟩ := hcomplete v hv haccount
            cases hfind.symm.trans he
        | some e =>
          refine .inl ⟨a.complete e r, s', ?_, hcarried', ?_⟩
          · simp only [bind, Except.bind, hdecode, hfind, hhart, require_true]
            rfl
          · intro v hv haccount
            obtain ⟨e', he', haccount'⟩ := hcomplete v hv haccount
            obtain rfl := Option.some.inj (hfind.symm.trans he')
            exact haccount'

variable (depth log front later) in
include hbus hreturns hi hn in
/-- The adapter's part of a tick. It does not throw when the account is in order. -/
theorem tryTick_account (ha : ∀ e ∈ a.requests, e.request.Sendable hart)
    (hcarried : Carried Holds n t s) :
    ∃ t', Carried Holds n t' (tryTick bus hart i n a s).2.2 ∧ OthersKept hart t t' ∧
      ∀ v : HartView, v.mmio = a → v.AccountIn Fifo hart n depth log front later t →
        (tryTick bus hart i n a s).1 = none ∧
          HartView.AccountIn Fifo hart n depth log front later t'
            { v with mmio := (tryTick bus hart i n a s).2.1 } := by
  obtain ⟨a₁, s₁, t₁, hsend, hcarried₁, hkept₁, haccount₁⟩ :=
    sendUnsent_account hbus hreturns hi hn depth log front later
      (a := { a with clock := a.clock + 1 }) ha hcarried
  obtain ⟨t₂, hkept₂, hreceive⟩ :=
    receive_account hbus hreturns hi hn depth log front later (a := a₁) hcarried₁
  have hclock : ∀ v : HartView, v.mmio = a → v.AccountIn Fifo hart n depth log front later t →
      HartView.AccountIn Fifo hart n depth log front later t₁ { v with mmio := a₁ } := by
    rintro v rfl haccount
    exact haccount₁ { v with mmio := { v.mmio with clock := v.mmio.clock + 1 } } rfl
      (haccount.still ⟨rfl, rfl, rfl, rfl, rfl, rfl, rfl, rfl⟩ id rfl)
  refine ⟨t₂, ?_⟩
  rw [tryTick, hsend]
  dsimp only
  rcases hreceive with ⟨a₂, s₂, hreceive, hcarried₂, haccount₂⟩ |
    ⟨reason, hreceive, hcarried₂, hnot⟩
  · rw [hreceive]
    exact ⟨hcarried₂, hkept₁.trans hkept₂, fun v hv haccount ↦
      ⟨rfl, haccount₂ { v with mmio := a₁ } rfl (hclock v hv haccount)⟩⟩
  · rw [hreceive]
    exact ⟨hcarried₂, hkept₁.trans hkept₂, fun v hv haccount ↦
      absurd (hclock v hv haccount) (hnot { v with mmio := a₁ } rfl)⟩

end MmioBusAdapter

/-! ## The core

A core that has faulted owes nothing, so `Standing` has two cases: the account is in order, or the
core has faulted and not over a response.
-/

namespace Rv64AtomicCore

variable {k : Rv64Hart} {c c' : Rv64AtomicCore}

/-- The account is in order, or the core has faulted, and not over a response. -/
def Standing (Fifo : Prop) (k : Rv64Hart) (memoryPort : BusPortT) (depth : UInt32)
    (log : List (MemoryRequest × MemoryResponse)) (front : List MemoryRequest)
    (later : List MemoryResponse) (t : Traffic) (c : Rv64AtomicCore) : Prop :=
  c.view.AccountIn Fifo k.hartId memoryPort depth log front later t ∨
    (c.state = .faulted ∧ c.stopReason ∉ unexpectedReasons)

theorem Faults.standing (h : Faults c c') : Standing Fifo k n depth log front later t c' := by
  obtain ⟨reason, c₁, rfl, -, hreason⟩ := h
  exact .inr ⟨rfl, hreason⟩

/-- A core that works on its own keeps its account. -/
theorem standing_of_does (haccount : c.view.AccountIn Fifo k.hartId n depth log front later t)
    (hstate : c.state ≠ .memoryWait) (h : Does k c c' ∨ Faults c c') :
    Standing Fifo k n depth log front later t c' := by
  rcases h with hdoes | hfaults
  · exact .inl (haccount.works hdoes.works hstate)
  · exact hfaults.standing

include hbus hn in
/-- A core sends its request, or it goes on waiting for the bus. -/
theorem issueMemoryRequest_account (hi : k.hartId.toNat = i) (hok : c.view.Ok k.hartId)
    (hstate : c.state = .memoryIssue)
    (haccount : c.view.AccountIn Fifo k.hartId n depth log front later t)
    (hcarried : Carried Holds n t s) (h : issueMemoryRequest bus k i n c s = .ok (c', s')) :
    ∃ t', Carried Holds n t' s' ∧ OthersKept k.hartId t t' ∧
      Standing Fifo k n depth log front later t' c' := by
  have hstate' : c.view.state ≠ .memoryWait := by
    rw [show c.view.state = .memoryIssue from hstate]
    decide
  rcases issueMemoryRequest_cases h with ⟨rfl, hsame | ⟨-, -, rfl⟩⟩ |
    ⟨bytes, accepted, -, hidle, hbytes, hsend, hview⟩
  · exact ⟨t, hcarried, .refl _ t, .inl (hsame ▸ haccount)⟩
  · exact ⟨t, hcarried, .refl _ t,
      standing_of_does haccount hstate' (recover_spec (accessWindow_spec hok hstate))⟩
  · obtain ⟨q, hq, rfl⟩ := request_sendable hok (.inl hstate)
    refine ⟨_, hcarried.sendSendable hbus hi hn hq.sendable hbytes hsend, ?_, .inl ?_⟩
    · cases accepted with
      | false => exact .refl _ t
      | true => exact .send hq.sendable.hartId
    · rw [hview]
      cases accepted with
      | false => exact haccount
      | true =>
        have hnone : c.mmio.requests = [] := MmioBusAdapter.requests_of_idle hidle
        rw [if_pos rfl, if_pos rfl, HartView.AccountIn, filter_addRequest hq.sendable.hartId]
        exact haccount.send hstate' hnone hq.request

include hbus in
/-- What a core takes from its port is the response to its request. -/
theorem receiveMemoryResponse_account (hi : k.hartId.toNat = i) (hok : c.view.Ok k.hartId)
    (hstate : c.state = .memoryWait)
    (haccount : c.view.AccountIn Fifo k.hartId n depth log front later t)
    (hcarried : Carried Holds n t s) (h : receiveMemoryResponse bus k i c s = .ok (c', s')) :
    ∃ t', Carried Holds n t' s' ∧ OthersKept k.hartId t t' ∧
      Standing Fifo k n depth log front later t' c' := by
  rcases receiveMemoryResponse_cases h with ⟨hsame, hs'⟩ | ⟨bytes, hrecv, rfl⟩
  · refine ⟨t, ?_, .refl _ t, .inl (hsame ▸ haccount)⟩
    rcases hs' with rfl | hrecv
    · exact hcarried
    · exact hcarried.recv_none hbus hrecv trivial
  · obtain ⟨before, r, after, harrives, hdecode, hcarried'⟩ := hcarried.arrives hbus hi hrecv
    refine ⟨_, hcarried', .recv harrives.split harrives.hartId, ?_⟩
    have hresponses : (t.responses ++ later).filter (toHart k.hartId) = _ :=
      filter_responses harrives.split harrives.hartId
    have hr : r ∈ (t.responses ++ later).filter (toHart k.hartId) := by
      rw [hresponses]
      exact List.mem_append_right _ List.mem_cons_self
    obtain ⟨q, hrequest, hanswers, hone, -⟩ := haccount.awaited hstate hr
    have hspec := takeResponse_spec hok hstate hdecode
    cases htake : takeResponse k c bytes with
    | error e =>
      exact .inr ⟨rfl, (hspec.of_eq_error htake).2 ⟨q, hrequest, hanswers⟩⟩
    | ok c' =>
      obtain ⟨hmmio, htransactions, hsent, hanswered, hstate', -⟩ := hspec.of_eq_ok htake
      have hq : c.request = q := by
        rw [request, show c.memoryRequest = some q from hrequest, Option.getD_some]
      rw [hq] at hanswered
      have hnone : before.filter (toHart k.hartId) ++ (after ++ later).filter (toHart k.hartId) =
          [] := by
        have hlength := congrArg List.length (hresponses.symm.trans hone)
        simp only [List.length_append, List.length_cons, List.length_nil] at hlength
        exact List.eq_nil_of_length_eq_zero (by rw [List.length_append]; omega)
      refine .inl ?_
      rw [HartView.AccountIn, filter_remaining, hnone]
      exact haccount.take hstate hr hrequest hstate' hmmio htransactions hsent hanswered

include hbus hn in
theorem tickCore_account (hi : k.hartId.toNat = i) (hok : c.view.Ok k.hartId)
    (haccount : c.view.AccountIn Fifo k.hartId n depth log front later t)
    (hcarried : Carried Holds n t s) (h : tickCore bus k i n c s = .ok (c', s')) :
    ∃ t', Carried Holds n t' s' ∧ OthersKept k.hartId t t' ∧
      Standing Fifo k n depth log front later t' c' := by
  have hok₁ : c.countTick.view.Ok k.hartId := hok
  cases hstate : c.state with
  | fetchDecode =>
    rw [tickCore_of_fetchDecode hstate] at h
    obtain ⟨rfl, rfl⟩ := Prod.mk.inj (Except.ok.inj h)
    exact ⟨t, hcarried, .refl _ t, standing_of_does (c := c.countTick) haccount
      (by rw [show c.countTick.state = .fetchDecode from hstate]; decide)
      (fetchDecode_spec hok₁ hstate)⟩
  | executeWait =>
    rw [tickCore_of_executeWait hstate] at h
    obtain ⟨rfl, rfl⟩ := Prod.mk.inj (Except.ok.inj h)
    exact ⟨t, hcarried, .refl _ t, standing_of_does (c := c.countTick) haccount
      (by rw [show c.countTick.state = .executeWait from hstate]; decide)
      (advanceExecute_spec hok₁ hstate)⟩
  | memoryIssue =>
    rw [tickCore_of_memoryIssue hstate] at h
    exact issueMemoryRequest_account hbus hn hi hok₁ hstate haccount hcarried h
  | memoryWait =>
    rw [tickCore_of_memoryWait hstate] at h
    exact receiveMemoryResponse_account hbus hi hok₁ hstate haccount hcarried h
  | halted =>
    rw [tickCore_of_finished (by simp [finished, halted, hstate])] at h
    obtain ⟨rfl, rfl⟩ := Prod.mk.inj (Except.ok.inj h)
    exact ⟨t, hcarried, .refl _ t, .inl haccount⟩
  | faulted => exact absurd hstate haccount.running

/-! ## The whole turn -/

variable (depth log front later) in
include hbus hreturns hn in
theorem tickMmio_account (hi : k.hartId.toNat = i) (hok : c.view.Ok k.hartId)
    (hcarried : Carried Holds n t s) :
    ∃ t', Carried Holds n t' (tickMmio bus k i n c s).2 ∧ OthersKept k.hartId t t' ∧
      (c.view.AccountIn Fifo k.hartId n depth log front later t →
        (tickMmio bus k i n c s).1.state = c.state ∧
        (tickMmio bus k i n c s).1.view.AccountIn Fifo k.hartId n depth log front later t') := by
  obtain ⟨t', hcarried', hkept, haccount⟩ :=
    MmioBusAdapter.tryTick_account hbus hreturns hi hn depth log front later (a := c.mmio)
      hok.adapter
      hcarried
  refine ⟨t', ?_, hkept, fun h ↦ ?_⟩ <;>
    rcases htry : c.mmio.tryTick bus k.hartId i n s with ⟨_ | reason, mmio, s'⟩
  · rw [htry] at hcarried'
    rwa [tickMmio, htry]
  · rw [htry] at hcarried'
    rwa [tickMmio, htry]
  · obtain ⟨-, haccount'⟩ := haccount c.view rfl h
    rw [htry] at haccount'
    rw [tickMmio, htry]
    exact ⟨rfl, haccount'⟩
  · obtain ⟨hnone, -⟩ := haccount c.view rfl h
    rw [htry] at hnone
    cases hnone

include hbus hreturns hn in
/-- A turn of a hart keeps its account, or faults for another reason than a response. -/
theorem tick_account (hi : k.hartId.toNat = i) (hok : c.view.Ok k.hartId)
    (haccount : c.view.AccountIn Fifo k.hartId n depth log front later t)
    (hcarried : Carried Holds n t s) (h : tick bus k i n c s = .ok (c', s')) :
    ∃ t', Carried Holds n t' s' ∧ OthersKept k.hartId t t' ∧
      Standing Fifo k n depth log front later t' c' := by
  obtain ⟨t₁, hcarried₁, hkept₁, haccount₁⟩ :=
    tickMmio_account hbus hreturns hn depth log front later hi hok hcarried
  obtain ⟨t₂, hcarried₂, hkept₂, hstanding⟩ := tickCore_account hbus hn hi
    (tickMmio_ok bus i n s hok) (haccount₁ haccount).2 hcarried₁ h
  exact ⟨t₂, hcarried₂, hkept₁.trans hkept₂, hstanding⟩

include hbus hreturns hn in
/-- A hart that has faulted stays so, and touches only its own traffic. -/
theorem tick_faulted (hi : k.hartId.toNat = i) (hok : c.view.Ok k.hartId)
    (hstate : c.state = .faulted) (hcarried : Carried Holds n t s)
    (h : tick bus k i n c s = .ok (c', s')) :
    ∃ t', Carried Holds n t' s' ∧ OthersKept k.hartId t t' ∧ c'.state = .faulted := by
  obtain ⟨t₁, hcarried₁, hkept₁, -⟩ :=
    tickMmio_account hbus hreturns hn 0 [] [] [] hi hok hcarried
  have hstate₁ : (tickMmio bus k i n c s).1.state = .faulted := by
    rw [tickMmio]
    split
    · exact hstate
    · rfl
  have hfinished : (tickMmio bus k i n c s).1.finished = true := by
    rw [finished, Bool.or_eq_true, faulted, hstate₁]
    exact .inr rfl
  have heq : tickMmio bus k i n c s = (c', s') :=
    Except.ok.inj ((tickCore_of_finished hfinished).symm.trans h)
  rw [heq] at hcarried₁ hstate₁
  exact ⟨t₁, hcarried₁, hkept₁, hstate₁⟩

end Rv64AtomicCore

end Laws

end Manycore
