import SimbusNoc.Manycore.FinishedDrained

/-!
# Who a response is for

Every response on its way answers a request that its hart waits for: the one of the core, which has
sent it with an idle adapter and waits, or one that the adapter has sent. Each request has at most
one response, and the requests differ in their ids, so nobody takes what is not for him and nobody
faults over what he takes.

This is what the accounts of the harts were kept for. `Account` says it of letters, and `Bears`
relates the letters to what lies in the interconnect itself: a message of the shared bus is a
letter, and a packet of the ring carries a slice of one, wherever it is. For the latter it matters
that no message is jammed at the node of a hart, which holds because only the memory sends to it,
however many transmission ids have been used. `Owns` says for one hart what its responses answer,
and `ResponsesOwned` is the statement about a state of the system, with the responses that the
controller still holds.
-/

namespace Simbus.Bus

variable {b : Bus} {g : Ledger} {s : BusState}

/-- No jam begins behind whole messages in a list of whole messages. -/
theorem not_jammed_of_flatMap (hb : b.WellFormed) {l l' : List Message} {jam : List MsgPack}
    (hl : ∀ m ∈ l, b.Sized m) (hl' : ∀ m ∈ l', b.Sized m)
    (heq : l.flatMap b.packetsOf ++ jam = l'.flatMap b.packetsOf) : ¬Jammed jam := by
  have hcons : ∀ {m : Message}, b.Sized m →
      b.packetsOf m = b.pack m 0 :: (b.packetsOf m).drop 1 := fun hm ↦ by
    have h := packetsOf_drop (hm.count_pos hb)
    rwa [List.drop_zero] at h
  induction l generalizing l' with
  | nil =>
    rintro ⟨p, q, r, rfl, -, hq, hcnt⟩
    rw [List.flatMap_nil, List.nil_append] at heq
    cases l' with
    | nil => cases heq
    | cons m rest =>
      have hm := hl' m List.mem_cons_self
      rw [List.flatMap_cons, hcons hm] at heq
      obtain ⟨rfl, hrest⟩ := List.cons.inj heq
      rw [hm.pack_pacCnt] at hcnt
      have htwo : 1 < b.count m := hcnt
      -- the second packet of the first message has index 1
      change q :: r = (b.packetsOf m).drop 1 ++ rest.flatMap b.packetsOf at hrest
      rw [packetsOf_drop htwo, List.cons_append] at hrest
      obtain ⟨rfl, -⟩ := List.cons.inj hrest
      rw [hm.pack_pacIdx htwo] at hq
      cases hq
  | cons m l ih =>
    have hm := hl m List.mem_cons_self
    cases l' with
    | nil =>
      rw [List.flatMap_cons, hcons hm] at heq
      cases heq
    | cons m' l' =>
      have hm' := hl' m' List.mem_cons_self
      rw [List.flatMap_cons, List.flatMap_cons, List.append_assoc] at heq
      -- the first packet says how many packets the message has
      have hcount : b.count m = b.count m' := by
        rw [hcons hm, hcons hm'] at heq
        have hpacCnt := congrArg MsgPack.pacCnt (List.cons.inj heq).1
        rwa [hm.pack_pacCnt, hm'.pack_pacCnt] at hpacCnt
      have hlength : (b.packetsOf m).length = (b.packetsOf m').length := by
        rw [length_packetsOf, length_packetsOf, hcount]
      exact ih (fun m hm ↦ hl m (List.mem_cons_of_mem _ hm))
        (fun m hm ↦ hl' m (List.mem_cons_of_mem _ hm)) (List.append_inj heq hlength).2

/-- Where one flow is heard there is no jam. -/
theorem Inv.jam_of_hearsOne (hb : b.WellFormed) (h : b.Inv True g s) {f : Flow}
    (hears : b.HearsOne f s) : g.jam f.dst f.cha = [] := by
  obtain ⟨whole, coming, k, hone, -⟩ := hears
  have hbuf : (g.delivered f.dst f.cha).flatMap b.packetsOf ++ g.jam f.dst f.cha =
      whole.flatMap b.packetsOf := (h.carries.recvBuf f.dst f.cha).symm.trans hone.recvBuf
  refine (h.carries.jam f.dst f.cha).resolve_right fun hjam ↦ ?_
  refine not_jammed_of_flatMap hb (fun m hm ↦ ?_) (fun m hm ↦ ?_) hbuf hjam.2
  · exact h.carries.sized m (h.carries.delivered_live _ _ m hm).1
  · exact (hone.sized m (List.mem_append_left _ hm)).1

end Simbus.Bus

namespace Manycore

open Simbus Simbus.Bus MemoryController AtomicCore

/-! ## The responses on the interconnect -/

namespace Interconnect

/-- Whatever the interconnect has on the response channel belongs to these responses: each message
of the shared bus, and on the ring each packet, which carries a slice of an encoded response. -/
def Bears (n : ℕ) (responses : List MemoryResponse) : Interconnect → Prop
  | ring noc s => ∀ p,
      ((∃ y, p ∈ s.contents y) ∨ (∃ v, ∃ e ∈ (s.nodes v).orderBuf, p ∈ e.2) ∨
        ∃ i < n, p ∈ (s.ports i).recvBuf responseChannel) →
      p.cha = responseChannel → ∃ r ∈ responses, p.dst = r.hartId.toNat ∧
        p.data = packData (encodeResponse r) (noc.width responseChannel) p.pacIdx
  | shared _ s => ∀ l, (l ∈ s.boxed l.dst l.cha ∨ l ∈ s.carried ∨ ∃ p, l ∈ s.queued p) →
      l.cha = responseChannel → ∃ r ∈ responses, l = responseLetter n r

variable {n : ℕ} {t : Traffic} {x : Interconnect}

theorem Carried.bears (h : Carried (Steady n) n t x) : x.Bears n t.responses := by
  obtain ⟨letters, ⟨hholds, horderly⟩, hspells⟩ := h
  have hresponse : ∀ l ∈ letters, l.cha = responseChannel →
      ∃ r ∈ t.responses, responseLetter n r = l := by
    intro l hl hcha
    have hmem : l ∈ letters.filter fun l ↦ l.cha == responseChannel :=
      List.mem_filter.mpr ⟨hl, by rw [hcha, beq_self_eq_true]⟩
    rw [hspells.responses] at hmem
    exact List.mem_map.mp hmem
  cases hholds with
  | @ring ord config noc s hlayout hn hfits hholds =>
    obtain ⟨g, hinv, rfl, -⟩ := hholds
    intro p hp hcha
    obtain ⟨m, hm, hpm⟩ : ∃ m ∈ g.live, p ∈ noc.packetsOf m := by
      rcases hp with ⟨y, hy⟩ | ⟨v, e, he, hpe⟩ | ⟨i, hi, hwaits⟩
      · exact hinv.live_of_contents hy
      · exact hinv.live_of_orderBuf he hpe
      · exact hinv.live_of_recvBuf (hinv.jam_of_hearsOne hlayout.wellFormed (horderly i hi)) hwaits
    obtain ⟨j, hj, rfl⟩ := mem_packetsOf.mp hpm
    obtain ⟨r, hr, hletter⟩ := hresponse _ (List.mem_map_of_mem hm) hcha
    obtain ⟨-, hdst, hcha', hdata⟩ := Letter.mk.inj hletter
    refine ⟨r, hr, hdst.symm, ?_⟩
    rw [(hinv.carries.sized m hm).pack_pacIdx hj, hdata, hcha']
    rfl
  | @shared b s hsize hholds hallowed =>
    intro l hl hcha
    have hlocated : l ∈ SharedBus.located s l.src l.dst l.cha := by
      rcases hl with hboxed | hcarried | ⟨p, hqueued⟩
      · exact List.mem_append_left _ hboxed
      · exact List.mem_append_right _ (List.mem_append_left _ hcarried)
      · obtain ⟨rfl, -⟩ := hholds.ledger.queued_ok p l hqueued
        exact List.mem_append_right _ (List.mem_append_right _ hqueued)
    have hmem : l ∈ (SharedBus.located s l.src l.dst l.cha).filter
        (Letter.isOn l.src l.dst l.cha) :=
      List.mem_filter.mpr ⟨hlocated, Letter.isOn_eq_true_iff.mpr ⟨rfl, rfl, rfl⟩⟩
    rw [← hholds.located] at hmem
    obtain ⟨r, hr, hletter⟩ := hresponse l (List.mem_filter.mp hmem).1 hcha
    exact ⟨r, hr, hletter.symm⟩

end Interconnect

/-! ## The requests that a hart waits for -/

namespace Rv64AtomicCore

/-- The request of the core while it waits in `MemoryWait`, and otherwise the requests that the
adapter has sent and not finished. -/
def outstanding (c : Rv64AtomicCore) : List MemoryRequest :=
  if c.state = .memoryWait then c.memoryRequest.toList
  else (c.mmio.requests.filter MmioEntry.sent).map MmioEntry.request

/-- The responses to a hart answer what it waits for. -/
structure Owns (hart : UInt32) (responses : List MemoryResponse) (c : Rv64AtomicCore) : Prop where
  idle : c.state = .memoryWait → c.mmio.busy = false
  /-- Different responses answer different requests. -/
  owned : ∃ asked, asked.Subperm c.outstanding ∧ List.Forall₂ Answers asked responses
  distinct : (c.outstanding.map MemoryRequest.transactionId).Nodup
  hartId : ∀ q ∈ c.outstanding, q.hartId = hart
  /-- No response to the adapter was marked as failed. -/
  results : ∀ result ∈ c.mmio.results, result.error = false
  completed : c.mmio.stats.completed = c.mmio.finished.length

variable {Fifo : Prop} {hart : UInt32} {memoryPort : BusPortT} {depth : UInt32}
  {log : List (MemoryRequest × MemoryResponse)} {pending : List MemoryRequest}
  {answers : List MemoryResponse} {c : Rv64AtomicCore}

theorem outstanding_view (h : c.state = .memoryWait → c.mmio.requests = []) :
    c.view.outstanding = c.outstanding := by
  rw [outstanding]
  split_ifs with hwait
  · exact HartView.outstanding_of_eq_nil (h hwait) hwait
  · exact HartView.outstanding_of_ne hwait

theorem forall₂_answers {l : List (MemoryRequest × MemoryResponse)}
    (h : ∀ x ∈ l, Answers x.1 x.2) : List.Forall₂ Answers (l.map Prod.fst) (l.map Prod.snd) := by
  induction l with
  | nil => exact .nil
  | cons x l ih =>
    exact .cons (h x List.mem_cons_self) (ih fun y hy ↦ h y (List.mem_cons_of_mem x hy))

/-- A hart whose account holds owns its responses. -/
theorem owns_of_account (hok : c.view.Ok hart)
    (h : c.view.Account Fifo hart memoryPort depth log pending answers) : c.Owns hart answers := by
  have houtstanding := outstanding_view h.idle
  obtain ⟨taken, coming, mine, hlog, -, rfl, hout, -, -⟩ := h.answered
  rw [houtstanding] at hout
  refine ⟨fun hwait ↦ ?_, ⟨coming.map Prod.fst, ?_, forall₂_answers fun x hx ↦ ?_⟩, ?_,
    fun q hq ↦ ?_, h.results, h.completed⟩
  · have hidle : c.mmio.requests = [] := h.idle hwait
    rw [MmioBusAdapter.busy, hidle]
    rfl
  · exact (List.sublist_append_left _ _).subperm.trans hout.subperm
  · exact h.answers_log x (hlog.symm.subset (List.mem_append_right _ hx))
  · rw [outstanding]
    split_ifs
    · cases c.memoryRequest with
      | none => exact List.nodup_nil
      | some q => exact List.nodup_singleton _
    · obtain ⟨owed, x, hstore⟩ := h.store
      rw [List.map_map]
      exact hstore.nodup.sublist (List.filter_sublist.map _)
  · rw [outstanding] at hq
    split_ifs at hq with hwait
    · obtain ⟨q', hstaged⟩ := hok.staged (.inr hwait)
      have hrequest : c.memoryRequest = some q' := hstaged.request
      rw [hrequest, Option.toList_some, List.mem_singleton] at hq
      exact hq ▸ hstaged.sendable.hartId
    · obtain ⟨e, he, rfl⟩ := List.mem_map.mp hq
      exact (hok.adapter e (List.mem_filter.mp he).1).hartId

end Rv64AtomicCore

/-! ## Every run -/

namespace Rv64ManycoreSystem

open Interconnect

variable {m : Rv64ManycoreSystem} {s s' : Rv64SystemState} {arch : Rv64archsem.ArchSem}
  {ord : HashOrder} {program : ProgramImage} {config : Rv64ManycoreConfig}
  {latency : InstructionLatencyConfig} {s₀ : Rv64SystemState} {k : ℕ}

/-- The responses on the interconnect and in the controller, and who they are for. -/
def ResponsesOwned (m : Rv64ManycoreSystem) (s : Rv64SystemState) : Prop :=
  ∃ t, Carried (Steady m.coreCount) m.coreCount t s.bus ∧ s.bus.Bears m.coreCount t.responses ∧
    ∀ i < m.coreCount, (s.cores i).state ≠ .faulted →
      (s.cores i).Owns (m.hart i).hartId
        ((t.responses ++ s.memoryController.response.toList).filter (toHart (m.hart i).hartId))

theorem InAccount.responsesOwned (h : m.InAccount s) : m.ResponsesOwned s := by
  obtain ⟨t, hcarried, -, hcores⟩ := h
  refine ⟨t, hcarried, Carried.bears hcarried, fun i hi hrunning ↦ ?_⟩
  obtain ⟨hok, hstanding⟩ := hcores i hi
  exact Rv64AtomicCore.owns_of_account hok (hstanding.resolve_left hrunning)

/-- A tick faults no hart over a response. -/
theorem InAccount.tick_expected (h : m.InAccount s) (htick : m.tick s = .ok s') {i : ℕ}
    (hi : i < m.coreCount) (hrunning : (s.cores i).state ≠ .faulted)
    (hfaulted : (s'.cores i).state = .faulted) :
    (s'.cores i).stopReason ∉ unexpectedReasons := by
  obtain ⟨s₁, s₂, hs₁, hs₂, hbefore, hafter⟩ := exists_turn_of_tick htick hi
  rw [hafter] at hfaulted ⊢
  exact ((h.during hi.le hs₁).tickCore hi hs₂).2 (hbefore ▸ hrunning) hfaulted

/-- In every run, the responses on their way answer requests of their harts, each its own, and no
hart faults over a response. -/
theorem responses_owned (h : construct arch ord program config latency = .ok (m, s₀))
    (hs : m.ticks k s₀ = .ok s) :
    m.ResponsesOwned s ∧ ∀ s', m.tick s = .ok s' → ∀ i < m.coreCount,
      (s.cores i).state ≠ .faulted → (s'.cores i).state = .faulted →
        (s'.cores i).stopReason ∉ unexpectedReasons := by
  have haccount := inAccount_ticks h hs
  exact ⟨haccount.responsesOwned, fun s' htick i hi hrunning hfaulted ↦
    haccount.tick_expected htick hi hrunning hfaulted⟩

/-- The run of two harts while the byte is on its way back. -/
theorem responses_owned_small : ∃ m s₀ s, finishedRun 14 = .ok (m, s₀, s) ∧ m.ResponsesOwned s := by
  have hreturns : (finishedRun 14).map (fun _ ↦ ()) = .ok () := rfl
  obtain ⟨m, s₀, s, hrun, hconstruct, hs, -⟩ := exists_of_firstTicks hreturns
  exact ⟨m, s₀, s, hrun, (responses_owned hconstruct hs).1⟩

end Rv64ManycoreSystem

end Manycore
