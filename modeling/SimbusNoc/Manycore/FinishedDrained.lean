import SimbusNoc.Manycore.CycleAccounting
import SimbusNoc.Manycore.SystemAccount
import SimbusNoc.Noc.Runs

/-!
# A finished system is drained

`finished` looks at the harts, their adapters and the controller, and not at the interconnect. But
by the accounts of the harts nothing is on its way then: every request is served and every response
is taken. So later ticks only count.

A hart that waits for nothing and an adapter with nothing to do leave an account without
outstanding requests (`Account.settled`), and the accounts of all harts together cover every letter
on the interconnect. From an empty list of letters it follows, for each of the two classes, that no
buffer, queue or reservation is left (`Holds.empty`). `Idled` then says what a tick can still
change: the clocks of the adapters and the counters of the interconnect, which no one reads.
-/

namespace Manycore

open Simbus Simbus.Bus MemoryController AtomicCore

/-! ## An empty interconnect

Both interconnects know where their letters are. Without letters there is nothing in any of these
places.
-/

namespace Interconnect

/-- No message is anywhere in the interconnect, and no reservation is left. -/
def Empty : Interconnect → Prop
  | ring _ s => (∀ p, ¬InNetwork s p) ∧ ∀ d c, (s.ports d).reserved c = 0
  | shared _ s => (∀ p, s.pending p = []) ∧ s.active = none ∧ (∀ d c, s.inbox d c = []) ∧
      ∀ d c, s.reserved d c = 0

variable {n : ℕ} {K : Prop} {x : Interconnect}

theorem sharedBus_empty {b : SharedBus} {s : SharedBusState} (h : b.Holds [] s) :
    (shared b s).Empty := by
  have hnone : ∀ {l : Letter} {d : BusPortT} {c : ChannelT}, l ∈ SharedBus.located s l.src d c →
      l.dst = d → l.cha = c → False := by
    rintro l _ _ hl rfl rfl
    have hmem : l ∈ (SharedBus.located s l.src l.dst l.cha).filter
        (Letter.isOn l.src l.dst l.cha) :=
      List.mem_filter.mpr ⟨hl, Letter.isOn_eq_true_iff.mpr ⟨rfl, rfl, rfl⟩⟩
    rw [← h.located] at hmem
    cases hmem
  have hqueued : ∀ p, s.queued p = [] := fun p ↦ List.eq_nil_iff_forall_not_mem.mpr fun l hl ↦ by
    obtain ⟨rfl, -⟩ := h.ledger.queued_ok p l hl
    exact hnone (List.mem_append_right _ (List.mem_append_right _ hl)) rfl rfl
  have hcarried : s.carried = [] := List.eq_nil_iff_forall_not_mem.mpr fun l hl ↦
    hnone (List.mem_append_right _ (List.mem_append_left _ hl)) rfl rfl
  have hboxed : ∀ d c, s.boxed d c = [] := fun d c ↦
    List.eq_nil_iff_forall_not_mem.mpr fun l hl ↦ by
    obtain ⟨hd, hc⟩ := h.ledger.boxed_ok d c l hl
    exact hnone (List.mem_append_left _ hl) hd hc
  refine ⟨fun p ↦ List.map_eq_nil_iff.mp (hqueued p), ?_,
    fun d c ↦ List.map_eq_nil_iff.mp (hboxed d c), fun d c ↦ ?_⟩
  · have hactive := List.map_eq_nil_iff.mp hcarried
    exact Option.toList_eq_nil_iff.mp hactive
  · rw [h.ledger.credits, SharedBusState.holders, hcarried, hboxed]
    simp [hqueued]

/-- Without letters the interconnect is empty, however many messages it has accepted. -/
theorem Holds.empty (h : Holds n K [] x) : x.Empty := by
  cases h with
  | ring hlayout hn hfits hholds =>
    obtain ⟨g, hinv, hletters, -⟩ := hholds
    have hlive : g.live = [] := List.map_eq_nil_iff.mp hletters.symm
    refine ⟨hinv.not_inNetwork hlive, fun d c ↦ ?_⟩
    rw [hinv.reserved, credits, hlive]
    split <;> rfl
  | shared hsize hholds hallowed => exact sharedBus_empty hholds

theorem Holds.canRecv_empty {letters : List Letter} (h : Holds n K letters x) (hempty : x.Empty)
    {p : BusPortT} {c : ChannelT} (hp : p ≤ n) (hc : c ≤ 1) :
    interface.canRecv x p c = .ok false := by
  cases h with
  | @ring ord config noc s hlayout hn hfits hholds =>
    have hbuf : (s.ports p).recvBuf c = [] :=
      List.eq_nil_iff_forall_not_mem.mpr fun q hq ↦ hempty.1 q (.waiting p c hq)
    change noc.canRecv s p c = .ok false
    rw [canRecv, (validatePort_eq_ok (u := ())).mpr (hlayout.knownPort.mpr (hn ▸ hp)),
      (validateChannel_eq_ok (u := ())).mpr (hlayout.channel hc), canRecvNow, hbuf]
    rfl
  | @shared b s hsize hholds hallowed =>
    have hcheck : b.check p c = .ok () :=
      SharedBus.check_eq_ok_iff.mpr ⟨hsize ▸ Nat.lt_succ_of_le hp, hc⟩
    change b.canRecv s p c = .ok false
    rw [SharedBus.canRecv, hcheck, hempty.2.2.1]
    rfl

end Interconnect

/-! ## A tick of a finished system

Harts that have halted do nothing, adapters without requests only count, and a controller without
work finds no message.
-/

/-- A controller without work finds none on an empty interconnect. -/
theorem MemoryController.tick_of_idle {σ : Type} {bus : BusInterfaceV2 σ} {port : BusPortT}
    {config : MemoryControllerConfig} {c : MemoryController} {s : σ} (hidle : c.idle = true)
    (hrecv : bus.canRecv s port requestChannel = .ok false) :
    c.tick bus port config s = .ok (c, s) := by
  simp only [MemoryController.idle, Bool.and_eq_true, List.isEmpty_iff, Option.isNone_iff_eq_none]
    at hidle
  obtain ⟨⟨hqueue, hactive⟩, hresponse⟩ := hidle
  have hcount : { c with stats := { c.stats with
      queuedRequestCycles := c.stats.queuedRequestCycles + c.queue.length } } = c := by
    rw [List.length_eq_zero_iff.mpr hqueue]
    rfl
  have hsend : c.sendResponse bus port s = .ok (c, s) := by
    rw [sendResponse, hresponse]
    rfl
  have hreceive : c.receiveRequest bus port config s = .ok (c, s) := by
    rw [receiveRequest, hrecv]
    split <;> rfl
  rw [tick, hcount, hsend]
  change (c.receiveRequest bus port config s >>= _) = _
  rw [hreceive]
  change Except.ok (startRequest config (advanceRequest c), s) = _
  rw [advanceRequest, hactive, startRequest, hactive, hresponse, hqueue]

namespace Rv64AtomicCore

variable {k : Rv64Hart} {c : Rv64AtomicCore}

/-- A tick in which only the clock of the adapter moves. -/
def idled (c : Rv64AtomicCore) : Rv64AtomicCore :=
  { c with mmio := { c.mmio with clock := c.mmio.clock + 1 } }

theorem tick_of_finished {σ : Type} (bus : IBus σ) (port memoryPort : BusPortT) (s : σ)
    (hfinished : c.finished = true) (hidle : c.mmio.requests = []) :
    c.tick bus k port memoryPort s = .ok (c.idled, s) := by
  have hmmio : c.tickMmio bus k port memoryPort s = (c.idled, s) := by
    rw [tickMmio, MmioBusAdapter.tryTick_of_idle bus port memoryPort s hidle]
    simp [advanceMmio, idled]
  have hfinished' : c.idled.finished = true := hfinished
  rw [tick, hmmio]
  exact tickCore_of_finished hfinished'

end Rv64AtomicCore

namespace Rv64ManycoreSystem

open Interconnect

variable {m : Rv64ManycoreSystem} {s s' : Rv64SystemState}

/-- In a state after this one only the clocks of the adapters and the counters of the interconnect
have moved. -/
structure Idled (s s' : Rv64SystemState) : Prop where
  memoryController : s'.memoryController = s.memoryController
  cores : ∀ i, ∃ clock, s'.cores i =
    { s.cores i with mmio := { (s.cores i).mmio with clock := clock } }

theorem Idled.refl (s : Rv64SystemState) : Idled s s := ⟨rfl, fun _ ↦ ⟨_, rfl⟩⟩

theorem Idled.trans {s'' : Rv64SystemState} (h : Idled s s') (h' : Idled s' s'') : Idled s s'' where
  memoryController := h'.memoryController.trans h.memoryController
  cores := fun i ↦ by
    obtain ⟨clock, hclock⟩ := h.cores i
    obtain ⟨clock', hclock'⟩ := h'.cores i
    exact ⟨clock', by rw [hclock', hclock]⟩

theorem finished_iff : m.finished s = true ↔
    (∀ i < m.coreCount, (s.cores i).finished = true ∧ (s.cores i).mmio.requests = []) ∧
      s.memoryController.idle = true := by
  simp [finished, MmioBusAdapter.busy]

theorem faulted_eq_false_iff : m.faulted s = false ↔
    ∀ i < m.coreCount, (s.cores i).state ≠ .faulted := by
  simp [faulted, Rv64AtomicCore.faulted]

theorem during_of_finished {n : ℕ} (hcontroller : m.tickController s = .ok s)
    (hcores : ∀ i < n, (s.cores i).finished = true ∧ (s.cores i).mmio.requests = []) :
    m.during s n = .ok { s with
      cores := fun i ↦ if i < n then (s.cores i).idled else s.cores i } := by
  induction n with
  | zero =>
    rw [during, hcontroller]
    rfl
  | succ n ih =>
    rw [during_succ, ih fun i hi ↦ hcores i (Nat.lt_succ_of_lt hi)]
    obtain ⟨hfinished, hidle⟩ := hcores n (Nat.lt_succ_self n)
    have htick := Rv64AtomicCore.tick_of_finished (k := m.hart n) interface n m.memoryPort s.bus
      hfinished hidle
    change m.tickCore _ n = _
    rw [tickCore]
    dsimp only
    rw [if_neg (lt_irrefl n), htick]
    refine congrArg Except.ok ?_
    rw [Rv64SystemState.mk.injEq]
    refine ⟨rfl, rfl, funext fun i ↦ ?_, rfl⟩
    by_cases hi : i = n
    · subst hi
      rw [Function.update_self, if_pos (Nat.lt_succ_self i)]
    · rw [Function.update_of_ne hi]
      have hiff : i < n ↔ i < n + 1 := by omega
      simp only [hiff]

theorem tick_of_drained {letters : List Letter} (hholds : Holds m.coreCount True letters s.bus)
    (hempty : s.bus.Empty) (hfinished : m.finished s = true) :
    ∃ s', m.tick s = .ok s' ∧ Idled s s' := by
  obtain ⟨hcores, hidle⟩ := finished_iff.mp hfinished
  have hrecv : interface.canRecv s.bus m.memoryPort requestChannel = .ok false :=
    hholds.canRecv_empty hempty le_rfl (by decide)
  have hcontroller : m.tickController s = .ok s := by
    rw [tickController, MemoryController.tick_of_idle hidle hrecv]
    rfl
  have hturns := during_of_finished hcontroller hcores
  obtain ⟨x', hx', -⟩ := hholds.applyNextTick fun h ↦ absurd trivial h
  refine ⟨_, Except.bind_eq_ok_iff.mpr ⟨_, hturns, Except.bind_eq_ok_iff.mpr ⟨x', hx', rfl⟩⟩, rfl,
    fun i ↦ ?_⟩
  by_cases hi : i < m.coreCount
  · exact ⟨_, if_pos hi⟩
  · exact ⟨_, if_neg hi⟩

/-! ## The end of a run -/

/-- In a finished system without a fault nothing is on its way, and all accounts are settled. -/
theorem InAccount.settled (h : m.InAccount s) (hfinished : m.finished s = true)
    (hfaulted : m.faulted s = false) : Holds m.coreCount True [] s.bus ∧
      ∀ i < m.coreCount, (s.cores i).view.Settled (m.hart i).hartId
        (logOf s.memoryController (m.hart i).hartId) := by
  obtain ⟨⟨requests, responses⟩, ⟨letters, ⟨hholds, -⟩, hspells⟩, -, hcores⟩ := h
  have hsettled : ∀ i < m.coreCount,
      (front s.memoryController ++ requests).filter (fromHart (m.hart i).hartId) = [] ∧
      (responses ++ s.memoryController.response.toList).filter (toHart (m.hart i).hartId) = [] ∧
      (s.cores i).view.Settled (m.hart i).hartId
        (logOf s.memoryController (m.hart i).hartId) := by
    intro i hi
    have hrunning := faulted_eq_false_iff.mp hfaulted i hi
    obtain ⟨hdone, hidle⟩ := (finished_iff.mp hfinished).1 i hi
    refine ((hcores i hi).2.resolve_left hrunning).settled (fun hwait ↦ ?_) hidle
    rw [Rv64AtomicCore.finished, Rv64AtomicCore.halted, Rv64AtomicCore.faulted,
      show (s.cores i).state = .memoryWait from hwait] at hdone
    cases hdone
  have hhart : ∀ {id : UInt32}, id.toNat < m.coreCount → (m.hart id.toNat).hartId = id :=
    fun hlt ↦ UInt32.toNat_inj.mp (m.toNat_hartId hlt)
  -- a request or a response would be in the account of its hart
  have hrequests : requests = [] := List.eq_nil_iff_forall_not_mem.mpr fun q hq ↦ by
    have hlt := (hspells.valid q hq).2
    refine List.filter_eq_nil_iff.mp (hsettled _ hlt).1 q (List.mem_append_right _ hq) ?_
    rw [hhart hlt, fromHart, decide_eq_true rfl]
  have hresponses : responses = [] := List.eq_nil_iff_forall_not_mem.mpr fun r hr ↦ by
    have hlt := (hspells.short r hr).2
    refine List.filter_eq_nil_iff.mp (hsettled _ hlt).2.1 r (List.mem_append_left _ hr) ?_
    rw [hhart hlt, toHart, decide_eq_true rfl]
  subst hrequests hresponses
  exact ⟨hspells.eq_nil ▸ hholds, fun i hi ↦ (hsettled i hi).2.2⟩

theorem length_eq_sum (m : Rv64ManycoreSystem) {l : List MemoryRequest}
    (hl : ∀ q ∈ l, q.hartId.toNat < m.coreCount) :
    l.length = ∑ i ∈ Finset.range m.coreCount, (l.filter (fromHart (m.hart i).hartId)).length := by
  induction l with
  | nil => simp
  | cons q l ih =>
    have hcons : ∀ i ∈ Finset.range m.coreCount,
        ((q :: l).filter (fromHart (m.hart i).hartId)).length =
          (l.filter (fromHart (m.hart i).hartId)).length + if i = q.hartId.toNat then 1 else 0 := by
      intro i hi
      have hnum := m.toNat_hartId (Finset.mem_range.mp hi)
      by_cases hq : i = q.hartId.toNat
      · have hfrom : fromHart (m.hart i).hartId q = true := by
          rw [fromHart, decide_eq_true_eq, ← UInt32.toNat_inj, hnum, hq]
        rw [List.filter_cons_of_pos hfrom, if_pos hq, List.length_cons]
      · have hfrom : ¬fromHart (m.hart i).hartId q = true := by
          rw [fromHart, decide_eq_true_eq, ← UInt32.toNat_inj, hnum]
          exact fun h ↦ hq h.symm
        rw [List.filter_cons_of_neg hfrom, if_neg hq, Nat.add_zero]
    have hmem : q.hartId.toNat ∈ Finset.range m.coreCount :=
      Finset.mem_range.mpr (hl q List.mem_cons_self)
    rw [Finset.sum_congr rfl hcons, Finset.sum_add_distrib, Finset.sum_ite_eq', if_pos hmem,
      ← ih fun q' hq' ↦ hl q' (List.mem_cons_of_mem q hq'), List.length_cons]

/-- The accesses of a core that the control window has not served, and the accepted commands of its
adapter. -/
def busTransactions (c : Rv64AtomicCore) : ℕ :=
  c.stats.loads + c.stats.stores + c.stats.vectorMemoryTransactions - c.trace.windowAccesses +
    c.mmio.stats.commands

/-- The requests of a core whose account is settled. -/
theorem busTransactions_eq {k : Rv64Hart} {c : Rv64AtomicCore} (hreachable : c.Reachable k)
    (hfinished : c.finished = true) (hrunning : c.state ≠ .faulted) {controller : MemoryController}
    (hsettled : c.view.Settled k.hartId (logOf controller k.hartId)) :
    c.trace.windowAccesses ≤
        c.stats.loads + c.stats.stores + c.stats.vectorMemoryTransactions ∧
      busTransactions c = (controller.completed.filter (fromHart k.hartId)).length := by
  have hhalted : c.state = .halted := by
    rw [Rv64AtomicCore.finished, Bool.or_eq_true, Rv64AtomicCore.halted, Rv64AtomicCore.faulted,
      beq_iff_eq, beq_iff_eq] at hfinished
    exact hfinished.resolve_right hrunning
  have hrequest : c.memoryRequest = none := by
    have hfree : c.course.Free := hreachable.course_ok.free
      (fun h ↦ Rv64CoreState.noConfusion (hhalted.symm.trans h))
      (fun h ↦ Rv64CoreState.noConfusion (hhalted.symm.trans h))
    exact hfree.request
  have hprepared := (hreachable.balanced hrunning).prepared
  simp only [Rv64AtomicCore.course, Rv64AtomicCore.cyclesSpent, hrequest, Option.isSome_none,
    Bool.false_eq_true, if_false, Nat.add_zero] at hprepared
  have hasked := hsettled.asked.length_eq
  have hserved := hsettled.served.length_eq
  rw [map_fst_logOf] at hserved
  have hcommands : c.mmio.stats.commands = c.mmio.issued.length := hsettled.commands
  rw [List.length_append, List.length_map, MmioBusAdapter.commanded, List.length_map] at hasked
  change _ = c.trace.answered.length + c.mmio.issued.length at hasked
  refine ⟨by omega, ?_⟩
  rw [busTransactions, ← hserved, hasked, hcommands]
  omega

variable {arch : Rv64archsem.ArchSem} {ord : HashOrder} {program : ProgramImage}
  {config : Rv64ManycoreConfig} {latency : InstructionLatencyConfig} {s₀ : Rv64SystemState} {k : ℕ}

theorem Idled.finished (h : Idled s s') (hfinished : m.finished s = true) :
    m.finished s' = true := by
  obtain ⟨hcores, hidle⟩ := finished_iff.mp hfinished
  refine finished_iff.mpr ⟨fun i hi ↦ ?_, h.memoryController ▸ hidle⟩
  obtain ⟨clock, hclock⟩ := h.cores i
  rw [hclock]
  exact hcores i hi

theorem Idled.faulted (h : Idled s s') (hfaulted : m.faulted s = false) : m.faulted s' = false := by
  refine faulted_eq_false_iff.mpr fun i hi ↦ ?_
  obtain ⟨clock, hclock⟩ := h.cores i
  rw [hclock]
  exact faulted_eq_false_iff.mp hfaulted i hi

/-- A finished system idles for ever. -/
theorem ticks_of_finished (h : construct arch ord program config latency = .ok (m, s₀))
    (hs : m.ticks k s₀ = .ok s) (hfinished : m.finished s = true) (hfaulted : m.faulted s = false)
    (j : ℕ) : ∃ s', m.ticks j s = .ok s' ∧ m.ticks (k + j) s₀ = .ok s' ∧ Idled s s' := by
  induction j with
  | zero => exact ⟨s, rfl, hs, .refl s⟩
  | succ j ih =>
    obtain ⟨s₁, hs₁, hreached, hidled⟩ := ih
    have hfinished₁ := hidled.finished hfinished
    obtain ⟨hholds, -⟩ := (inAccount_ticks h hreached).settled hfinished₁ (hidled.faulted hfaulted)
    obtain ⟨s₂, hs₂, hidled₂⟩ := tick_of_drained hholds hholds.empty hfinished₁
    exact ⟨s₂, Except.bind_eq_ok_iff.mpr ⟨s₁, hs₁, hs₂⟩,
      Except.bind_eq_ok_iff.mpr ⟨s₁, hreached, hs₂⟩, hidled.trans hidled₂⟩

/-- When a system has finished without a fault, its interconnect is empty, every request has been
served, every command has been completed once, and later ticks change nothing. -/
theorem finished_drained (h : construct arch ord program config latency = .ok (m, s₀))
    (hs : m.ticks k s₀ = .ok s) (hfinished : m.finished s = true)
    (hfaulted : m.faulted s = false) :
    s.bus.Empty ∧
    s.memoryController.stats.receivedRequests = s.memoryController.stats.completedRequests ∧
    s.memoryController.stats.completedRequests =
      ∑ i ∈ Finset.range m.coreCount, busTransactions (s.cores i) ∧
    (∀ i < m.coreCount, (s.cores i).trace.windowAccesses ≤
        (s.cores i).stats.loads + (s.cores i).stats.stores +
          (s.cores i).stats.vectorMemoryTransactions ∧
      (s.cores i).mmio.finished.Perm ((s.cores i).mmio.commanded (m.hart i).hartId) ∧
      (s.cores i).mmio.stats.completed = (s.cores i).mmio.stats.commands) ∧
    ∀ j, ∃ s', m.ticks j s = .ok s' ∧ Idled s s' := by
  have haccount := inAccount_ticks h hs
  obtain ⟨hholds, hsettled⟩ := haccount.settled hfinished hfaulted
  obtain ⟨-, -, hok, -⟩ := haccount
  obtain ⟨hcores, hidle⟩ := finished_iff.mp hfinished
  have htransactions : ∀ i < m.coreCount, _ := fun i hi ↦
    busTransactions_eq (reachable_ticks h hs hi) (hcores i hi).1
      (faulted_eq_false_iff.mp hfaulted i hi) (hsettled i hi)
  refine ⟨hholds.empty, ?_, ?_, fun i hi ↦ ⟨(htransactions i hi).1, (hsettled i hi).finished, ?_⟩,
    fun j ↦ ?_⟩
  · simp only [MemoryController.idle, Bool.and_eq_true, List.isEmpty_iff,
      Option.isNone_iff_eq_none] at hidle
    rw [hok.received, hok.completed, hidle.1.1, hidle.1.2]
    rfl
  · rw [hok.completed, length_eq_sum m fun q hq ↦ (hok.served q hq).2]
    exact Finset.sum_congr rfl fun i hi ↦ (htransactions i (Finset.mem_range.mp hi)).2.symm
  · exact (hsettled i hi).completed.trans (hsettled i hi).commands.symm
  · obtain ⟨s', hs', -, hidled⟩ := ticks_of_finished h hs hfinished hfaulted j
    exact ⟨s', hs', hidled⟩

/-- Two harts on the shared bus, one of which loads a byte: the system, its first state and its
state after `k` ticks. -/
def finishedRun (k : ℕ) :
    Except String (Rv64ManycoreSystem × Rv64SystemState × Rv64SystemState) :=
  firstTicks smallArch .insertion smallProgram
    { coreCount := 2, sharedBus := true, memoryLatency := 1, coreCount_lt := smallCount_lt } {} k

theorem finished_drained_small : ∃ m s₀ s, finishedRun 19 = .ok (m, s₀, s) ∧ s.bus.Empty ∧
    s.memoryController.stats.completedRequests =
      ∑ i ∈ Finset.range m.coreCount, busTransactions (s.cores i) ∧
    ∀ j, ∃ s', m.ticks j s = .ok s' ∧ Idled s s' := by
  have hends : (finishedRun 19).map (fun r ↦ (r.1.finished r.2.2, r.1.faulted r.2.2)) =
      .ok (true, false) := rfl
  obtain ⟨m, s₀, s, hrun, hconstruct, hs, hend⟩ := exists_of_firstTicks hends
  obtain ⟨hfinished, hfaulted⟩ := Prod.mk.inj hend
  obtain ⟨hempty, -, hcount, -, hidles⟩ := finished_drained hconstruct hs hfinished hfaulted
  exact ⟨m, s₀, s, hrun, hempty, hcount, hidles⟩

end Rv64ManycoreSystem

end Manycore
