import SimbusNoc.Manycore.ControllerProgress
import SimbusNoc.Manycore.FinishedDrained
import SimbusNoc.Manycore.HartProgress

/-!
# Progress on the shared bus

On the shared bus no program can make the system stand still: as long as it is not finished, some
hart fetches, prepares a request, retires, halts, faults or finishes a command of its adapter,
within a number of ticks that can be read off the state. Once nobody has anything to do, every
message lies in its inbox, and by the accounts of the harts there is somebody who waits for it.

## The measure

`work` adds up the work of the harts until their next achievement, the work of the controller and
the load of the bus. The costs are chosen so that handing something on lowers the sum: a request
that is not sent costs more than one on the bus, that more than one in the controller, and so on
down to the response that is taken. In a tick without an achievement the sum falls, or everybody
rests (`tick_advance`).

## A system at rest

When everybody rests, a hart that is not finished waits for a response or for room on the bus. In
the first case its account has a request that is not answered or an answer on its way, and an idle
bus would have it in an inbox. In the second case there is a message that nobody takes, and its
receiver is not at rest. So `finished_of_atRest`, and with the measure `progress_within_work`.
-/

namespace Manycore

open Simbus Variant Interconnect MemoryController AtomicCore

namespace Rv64ManycoreSystem

variable {m : Rv64ManycoreSystem} {s s' : Rv64SystemState} {i n : ℕ} {x x' : Interconnect}

/-! ## The bus as a reliable one -/

/-- The letters on a shared bus between `n` harts and memory. -/
def MeasuredHolds (n : ℕ) (letters : List Letter) (x : Interconnect) : Prop :=
  Holds n False letters x ∧ Measured n x

theorem reliable_measured (n : ℕ) :
    Reliable still.toBusInterfaceV2 (Allowed n) (fun _ ↦ True) (¬False) (MeasuredHolds n) where
  send := fun _ h hl hsend _ ↦ ⟨h.1.send hl hsend, h.2.send hsend⟩
  recv_none := fun h hrecv _ ↦ ⟨h.1.recv_none hrecv, h.2.recv hrecv⟩
  recv_some := fun h hrecv _ ↦ by
    obtain ⟨front, l, back, hsplit, hd, hc, hdata, hholds, hfifo⟩ := h.1.recv_some hrecv
    exact ⟨front, l, back, hsplit, hd, hc, hdata, ⟨hholds, h.2.recv hrecv⟩, hfifo⟩
  tick := fun h htick _ ↦ Except.ok.inj htick ▸ h
  live_send := fun _ _ ↦ trivial
  live_recv := fun _ _ ↦ trivial
  live_tick := fun _ _ ↦ trivial

theorem hartsReturn_measured (n : ℕ) : HartsReturn still.toBusInterfaceV2 n (· ≤ 64)
    fun x ↦ ∃ letters, MeasuredHolds n letters x where
  canSend := fun hgood ↦ (returns_still n).harts.canSend (hgood.imp fun _ h ↦ h.1)
  send := fun hgood ↦ (returns_still n).harts.send (hgood.imp fun _ h ↦ h.1)
  canRecv := fun hgood ↦ (returns_still n).harts.canRecv (hgood.imp fun _ h ↦ h.1)
  recv := fun hgood ↦ (returns_still n).harts.recv (hgood.imp fun _ h ↦ h.1)

theorem MeasuredHolds.applyNextTick {letters : List Letter} (h : MeasuredHolds n letters x)
    (htick : interface.applyNextTick x = .ok x') : MeasuredHolds n letters x' := by
  obtain ⟨hholds, hmeasured⟩ := h
  obtain ⟨x₁, hx₁, hmeasured', -⟩ := @Measured.applyNextTick n 0 x hmeasured
  obtain rfl := Except.ok.inj (hx₁.symm.trans htick)
  refine ⟨?_, hmeasured'⟩
  cases hmeasured with
  | shared =>
    cases hholds with
    | shared hsize hholds hallowed =>
      obtain rfl := Except.ok.inj htick
      exact .shared hsize hholds.applyNextTick hallowed

/-- What holds between any two turns on a shared bus. -/
structure Running (m : Rv64ManycoreSystem) (s : Rv64SystemState) : Prop where
  sound : m.Sound s
  accounted : m.Accounted (¬False) (MeasuredHolds m.coreCount) s
  reachable : ∀ i < m.coreCount, Rv64AtomicCore.Reachable (m.hart i) (s.cores i)

/-! ## Achievements and work -/

/-- The cost of a request on the bus. -/
def requestCost (m : Rv64ManycoreSystem) (cycles : ℕ) : ℕ :=
  MemoryController.requestCost (controllerConfig m.config.toManycoreConfig) cycles

/-- The cost of a request that is not sent. -/
def sendCost (m : Rv64ManycoreSystem) (cycles : ℕ) : ℕ := cycles + m.requestCost cycles + 1

/-- What all harts have achieved. -/
def achieved (m : Rv64ManycoreSystem) (s : Rv64SystemState) : ℕ :=
  ∑ i ∈ Finset.range m.coreCount, (s.cores i).achieved

/-- The work of the harts. -/
def hartWork (m : Rv64ManycoreSystem) (cycles : ℕ) (s : Rv64SystemState) : ℕ :=
  ∑ i ∈ Finset.range m.coreCount, (s.cores i).work (m.sendCost cycles)

/-- The work that is left until some hart achieves something. -/
def work (m : Rv64ManycoreSystem) (s : Rv64SystemState) : ℕ :=
  m.hartWork s.bus.cycles s +
    (s.memoryController.work (controllerConfig m.config.toManycoreConfig) s.bus.cycles +
      s.bus.load m.coreCount (m.requestCost s.bus.cycles))

/-! ## The turns

In its turn a party achieves something, does some of its work, or rests. The work of the others
does not change, so the measures add up.
-/

/-- In a turn of hart `i` the others keep their measure. -/
theorem exists_sum_update (f : Rv64AtomicCore → ℕ) (hi : i < n) (cores : ℕ → Rv64AtomicCore) :
    ∃ others, ∀ core, ∑ j ∈ Finset.range n, f (Function.update cores i core j) =
      others + f core := by
  refine ⟨∑ j ∈ (Finset.range n).erase i, f (cores j), fun core ↦ ?_⟩
  rw [← Finset.sum_erase_add _ _ (Finset.mem_range.mpr hi), Function.update_self]
  congr 1
  exact Finset.sum_congr rfl fun j hj ↦ by rw [Function.update_of_ne (Finset.ne_of_mem_erase hj)]

theorem tickController_advance (hx : Measured m.coreCount s.bus)
    (hok : s.memoryController.Ok m.coreCount)
    (hcapacity : 0 < (controllerConfig m.config.toManycoreConfig).requestQueueCapacity)
    (h : m.tickController s = .ok s') :
    Measured m.coreCount s'.bus ∧ s'.bus.cycles = s.bus.cycles ∧
      Advance (s.memoryController.Rests m.coreCount s.bus ∧ Alike s.bus s'.bus)
        (m.achieved s) (m.work s) (m.achieved s') (m.work s') := by
  obtain ⟨⟨c', x'⟩, htick, h⟩ := Except.bind_eq_ok_iff.mp h
  obtain rfl := Except.ok.inj h
  obtain ⟨hx', hcycles, hadvance⟩ := MemoryController.tick_advance hx hok rfl hcapacity htick
  refine ⟨hx', hcycles, ?_⟩
  have hframe := hadvance.frame (m.achieved s) (m.hartWork s.bus.cycles s)
  simp only [work, hcycles]
  exact hframe

theorem tickCore_advance (hx : Measured m.coreCount s.bus) (hi : i < m.coreCount)
    (hreachable : Rv64AtomicCore.Reachable (m.hart i) (s.cores i))
    (hrunning : (s'.cores i).state ≠ .faulted) (h : m.tickCore s i = .ok s') :
    Measured m.coreCount s'.bus ∧ s'.bus.cycles = s.bus.cycles ∧
      Advance ((s.cores i).Rests m.coreCount i s.bus ∧ Alike s.bus s'.bus)
        (m.achieved s) (m.work s) (m.achieved s') (m.work s') := by
  obtain ⟨⟨core, x'⟩, htick, h⟩ := Except.bind_eq_ok_iff.mp h
  obtain rfl := Except.ok.inj h
  dsimp only at hrunning
  rw [Function.update_self] at hrunning
  have hcost : m.sendCost s.bus.cycles = s.bus.cycles + m.requestCost s.bus.cycles + 1 := rfl
  obtain ⟨hx', hcycles, hadvance⟩ := Rv64AtomicCore.tick_advance hreachable.view_ok
    hreachable.course_ok hx hi hcost hrunning htick
  refine ⟨hx', hcycles, ?_⟩
  obtain ⟨a, ha⟩ := exists_sum_update Rv64AtomicCore.achieved hi s.cores
  obtain ⟨w, hw⟩ := exists_sum_update (Rv64AtomicCore.work (m.sendCost s.bus.cycles)) hi s.cores
  have ha₀ := ha (s.cores i)
  have hw₀ := hw (s.cores i)
  rw [Function.update_eq_self] at ha₀ hw₀
  have hframe := hadvance.frame a (w + s.memoryController.work
    (controllerConfig m.config.toManycoreConfig) s.bus.cycles)
  rw [Nat.add_add_add_comm w _ ((s.cores i).work _), Nat.add_add_add_comm w _ (core.work _)]
    at hframe
  simp only [achieved, work, hartWork, hcycles, ha, hw, ha₀, hw₀]
  exact hframe

theorem during_advance (hx : Measured m.coreCount s.bus)
    (hok : s.memoryController.Ok m.coreCount)
    (hcapacity : 0 < (controllerConfig m.config.toManycoreConfig).requestQueueCapacity)
    (hreachable : ∀ i < m.coreCount, Rv64AtomicCore.Reachable (m.hart i) (s.cores i))
    (hi : i ≤ m.coreCount) (h : m.during s i = .ok s') :
    (∃ j < i, (s'.cores j).state = .faulted) ∨ Measured m.coreCount s'.bus ∧
      s'.bus.cycles = s.bus.cycles ∧
      Advance (s.memoryController.Rests m.coreCount s.bus ∧
          (∀ j < i, (s.cores j).Rests m.coreCount j s.bus) ∧ Alike s.bus s'.bus)
        (m.achieved s) (m.work s) (m.achieved s') (m.work s') := by
  induction i generalizing s' with
  | zero =>
    obtain ⟨s₁, hs₁, h⟩ := Except.bind_eq_ok_iff.mp h
    obtain rfl := Except.ok.inj h
    obtain ⟨hx', hcycles, hadvance⟩ := tickController_advance hx hok hcapacity hs₁
    refine .inr ⟨hx', hcycles, hadvance.mono fun hrests ↦ ⟨hrests.1, ?_, hrests.2⟩⟩
    exact fun j hj ↦ absurd hj (Nat.not_lt_zero j)
  | succ i ih =>
    rw [during_succ] at h
    obtain ⟨s₁, hs₁, hturn⟩ := Except.bind_eq_ok_iff.mp h
    by_cases hfaulted : (s'.cores i).state = .faulted
    · exact .inl ⟨i, Nat.lt_succ_self i, hfaulted⟩
    rcases ih (Nat.le_of_succ_le hi) hs₁ with ⟨j, hj, hj'⟩ | ⟨hx₁, hcycles₁, hadvance₁⟩
    · refine .inl ⟨j, Nat.lt_succ_of_lt hj, ?_⟩
      rwa [cores_of_tickCore hturn hj.ne]
    have hcore : s₁.cores i = s.cores i := cores_of_during hs₁ le_rfl
    obtain ⟨hx', hcycles', hadvance'⟩ :=
      tickCore_advance hx₁ hi (hcore.symm ▸ hreachable i hi) hfaulted hturn
    refine .inr ⟨hx', hcycles'.trans hcycles₁, (hadvance₁.trans hadvance').mono ?_⟩
    rintro ⟨⟨hcontroller, hharts, halike⟩, hrests, halike'⟩
    refine ⟨hcontroller, fun j hj ↦ ?_, halike.trans halike'⟩
    rcases Nat.lt_succ_iff_lt_or_eq.mp hj with hlt | rfl
    · exact hharts j hlt
    · rw [hcore] at hrests
      exact hrests.alike halike

theorem tick_advance (hx : Measured m.coreCount s.bus)
    (hok : s.memoryController.Ok m.coreCount)
    (hcapacity : 0 < (controllerConfig m.config.toManycoreConfig).requestQueueCapacity)
    (hreachable : ∀ i < m.coreCount, Rv64AtomicCore.Reachable (m.hart i) (s.cores i))
    (h : m.tick s = .ok s') :
    m.faulted s' = true ∨
      Advance (s.memoryController.Rests m.coreCount s.bus ∧
          (∀ j < m.coreCount, (s.cores j).Rests m.coreCount j s.bus) ∧ Idle s.bus)
        (m.achieved s) (m.work s) (m.achieved s') (m.work s') := by
  obtain ⟨s₁, hs₁, h⟩ := Except.bind_eq_ok_iff.mp h
  obtain ⟨x', hx', h⟩ := Except.bind_eq_ok_iff.mp h
  obtain rfl := Except.ok.inj h
  rcases during_advance hx hok hcapacity hreachable le_rfl hs₁ with ⟨j, hj, hj'⟩ |
    ⟨hx₁, hcycles₁, hadvance⟩
  · refine .inl ?_
    rw [faulted, List.any_eq_true]
    exact ⟨j, List.mem_range.mpr hj, by simpa [Rv64AtomicCore.faulted] using hj'⟩
  obtain ⟨x₂, hx₂, -, hcycles₂, hle, hlt⟩ :=
    @Measured.applyNextTick m.coreCount (m.requestCost s₁.bus.cycles) s₁.bus hx₁
  obtain rfl := Except.ok.inj (hx₂.symm.trans hx')
  -- the last step is the tick of the bus itself
  have hbus : Advance (Idle s₁.bus) (m.achieved s₁) (m.work s₁)
      (m.achieved { s₁ with bus := x₂, currentTick := s₁.currentTick + 1 })
      (m.work { s₁ with bus := x₂, currentTick := s₁.currentTick + 1 }) := by
    have hwork : m.work { s₁ with bus := x₂, currentTick := s₁.currentTick + 1 } =
        m.hartWork s₁.bus.cycles s₁ + (s₁.memoryController.work
          (controllerConfig m.config.toManycoreConfig) s₁.bus.cycles +
            x₂.load m.coreCount (m.requestCost s₁.bus.cycles)) := by
      simp only [work, hcycles₂]
      rfl
    rcases hle.lt_or_eq with hless | heq
    · refine .works rfl ?_
      rw [hwork, work]
      omega
    · refine .rests rfl ?_ (hlt.resolve_left heq.not_lt)
      rw [hwork, work, heq]
  refine .inr ((hadvance.trans hbus).mono ?_)
  rintro ⟨⟨hcontroller, hharts, halike⟩, hidle⟩
  exact ⟨hcontroller, hharts, halike.idle hidle⟩

/-! ## A system at rest

Nobody has moved in a tick, so the state is the same for all of them, and what they say about it
can be put together.
-/

section AtRest

variable {Fifo : Prop} {hart : UInt32} {depth : UInt32}
    {log : List (MemoryRequest × MemoryResponse)}
  {pending : List MemoryRequest} {answers : List MemoryResponse} {c : Rv64AtomicCore}
  (hrests : c.Rests n i x) (h : c.view.Account Fifo hart n depth log pending answers)
include hrests

/-- A hart at rest that is owed an answer has nothing to receive. -/
theorem vacant_of_owed (howed : c.view.outstanding ≠ []) : Vacant i responseChannel x := by
  by_cases hrequests : c.mmio.requests = []
  · have hstate : c.state = .memoryWait := by
      by_contra hstate
      refine howed ?_
      rw [HartView.outstanding_of_ne hstate, show c.view.mmio.requests = [] from hrequests]
      rfl
    cases hrests.core with
    | halted hstate' => cases hstate.symm.trans hstate'
    | awaits hstate' hvacant => exact hvacant
    | serialized hstate' hbusy => exact absurd hrequests hbusy
    | refused hstate' hrefuses => cases hstate.symm.trans hstate'
  · exact hrests.adapter.receives.resolve_left hrequests

include h

/-- A hart at rest has nothing to receive when a response to it is on its way. -/
theorem vacant_of_answers (hanswers : answers ≠ []) : Vacant i responseChannel x := by
  obtain ⟨taken, coming, mine, -, -, hcoming, hout, -, -⟩ := h.answered
  refine vacant_of_owed hrests fun hnone ↦ hanswers ?_
  rw [hnone] at hout
  have hmapped := (List.append_eq_nil_iff.mp hout.eq_nil).1
  rw [← hcoming, List.map_eq_nil_iff.mp hmapped]
  rfl

/-- A hart at rest that is owed nothing, on a bus that takes its requests, is finished. -/
theorem finished_of_rests (hok : c.view.Ok hart) (hpending : pending = []) (hanswers : answers = [])
    (htakes : ¬Refuses i n requestChannel x) : c.finished = true ∧ c.mmio.requests = [] := by
  obtain ⟨taken, coming, mine, -, -, hcoming, hout, -, -⟩ := h.answered
  rw [hanswers] at hcoming
  rw [List.map_eq_nil_iff.mp hcoming, hpending] at hout
  have hnone : c.view.outstanding = [] := hout.symm.eq_nil
  obtain ⟨hwaits, hsent⟩ := List.append_eq_nil_iff.mp hnone
  -- the adapter has neither sent requests nor others
  have hunsent : c.mmio.unsent = none := hrests.adapter.sends.resolve_right htakes
  have hrequests : c.mmio.requests = [] := by
    refine List.eq_nil_iff_forall_not_mem.mpr fun e he ↦ ?_
    have hsent' : e.sent = true := by simpa using List.find?_eq_none.mp hunsent e he
    have hmem := List.mem_filter.mpr ⟨he, hsent'⟩
    rw [show c.mmio.requests.filter MmioEntry.sent = [] from List.map_eq_nil_iff.mp hsent] at hmem
    cases hmem
  refine ⟨?_, hrequests⟩
  cases hrests.core with
  | halted hstate => rw [Rv64AtomicCore.finished, Rv64AtomicCore.halted, hstate]; rfl
  | awaits hstate hvacant =>
    obtain ⟨q, hq⟩ := hok.staged (.inr hstate)
    rw [if_pos (show c.view.state = .memoryWait from hstate), hq.request] at hwaits
    cases hwaits
  | serialized hstate hbusy => exact absurd hrequests hbusy
  | refused hstate hrefuses => exact absurd hrefuses htakes

end AtRest

/-- When neither the harts nor the controller nor the bus can go on, the system is finished. -/
theorem finished_of_atRest (haccounted : m.Accounted (¬False) (MeasuredHolds m.coreCount) s)
    (hrunning : m.faulted s = false)
    (hcontroller : s.memoryController.Rests m.coreCount s.bus)
    (hharts : ∀ i < m.coreCount, (s.cores i).Rests m.coreCount i s.bus) (hidle : Idle s.bus) :
    m.finished s = true := by
  obtain ⟨t, ⟨letters, ⟨hholds, hx⟩, hspells⟩, hok, hcores⟩ := haccounted
  have haccount : ∀ i < m.coreCount, (s.cores i).view.AccountAgainst (¬False) (m.hart i).hartId
      m.coreCount m.config.mmioDepth s.memoryController t := fun i hi ↦
    (hcores i hi).2.resolve_left (faulted_eq_false_iff.mp hrunning i hi)
  -- whoever is owed a response has nothing to receive, so no response is on its way
  have hvacant : ∀ r ∈ t.responses ++ s.memoryController.response.toList,
      r.hartId.toNat < m.coreCount → Vacant r.hartId.toNat responseChannel s.bus := by
    intro r hr hi
    have hhart : r.hartId = (m.hart r.hartId.toNat).hartId :=
      UInt32.toNat_inj.mp (m.toNat_hartId hi).symm
    refine vacant_of_answers (hharts _ hi) (haccount _ hi) (List.ne_nil_of_mem (a := r) ?_)
    exact List.mem_filter.mpr ⟨hr, by rw [toHart, ← hhart]; exact decide_eq_true rfl⟩
  have hresponses : t.responses = [] := List.eq_nil_iff_forall_not_mem.mpr fun r hr ↦ by
    have hi := (hspells.short r hr).2
    have hletter : responseLetter m.coreCount r ∈ letters := by
      have hmem := List.mem_map_of_mem (f := responseLetter m.coreCount) hr
      rw [← hspells.responses] at hmem
      exact (List.mem_filter.mp hmem).1
    exact hx.not_vacant_of_mem hidle hholds hletter (hvacant r (List.mem_append_left _ hr) hi)
  obtain ⟨hempty, hinbox⟩ : s.memoryController.idle = true ∧
      Vacant m.coreCount requestChannel s.bus := by
    cases hcontroller with
    | blocked hresponse hrefuses =>
      refine absurd (hvacant _ (List.mem_append_right _ ?_) (hok.short _ hresponse).2)
        (hx.not_vacant_of_refuses hidle hrefuses)
      rw [hresponse]
      exact List.mem_singleton_self _
    | idle hempty hinbox => exact ⟨hempty, hinbox⟩
  have hrequests : t.requests = [] := List.eq_nil_iff_forall_not_mem.mpr fun q hq ↦ by
    have hletter : requestLetter m.coreCount q ∈ letters := by
      have hmem := List.mem_map_of_mem (f := requestLetter m.coreCount) hq
      rw [← hspells.requests] at hmem
      exact (List.mem_filter.mp hmem).1
    exact hx.not_vacant_of_mem hidle hholds hletter hinbox
  -- so every hart is owed nothing
  obtain ⟨⟨hqueue, hactive⟩, hresponse⟩ := by
    simpa only [MemoryController.idle, Bool.and_eq_true, List.isEmpty_iff,
      Option.isNone_iff_eq_none] using hempty
  have hpending : front s.memoryController ++ t.requests = [] := by
    rw [front, hqueue, hactive, hrequests]
    rfl
  have hanswers : t.responses ++ s.memoryController.response.toList = [] := by
    rw [hresponses, hresponse]
    rfl
  refine finished_iff.mpr ⟨fun i hi ↦ ?_, hempty⟩
  refine finished_of_rests (hharts i hi) (haccount i hi) (hcores i hi).1 ?_ ?_
    fun hrefuses ↦ hx.not_vacant_of_refuses hidle hrefuses hinbox
  · rw [hpending]
    rfl
  · rw [hanswers]
    rfl

/-! ## Every run -/

variable {arch : Rv64archsem.ArchSem} {ord : HashOrder} {program : ProgramImage}
  {config : Rv64ManycoreConfig} {latency : InstructionLatencyConfig} {s₀ : Rv64SystemState} {k : ℕ}

theorem Built.running (h : m.Built s) (hshared : m.config.sharedBus = true)
    (hcount : m.coreCount < 2 ^ 31) : m.Running s := by
  obtain ⟨b, hbus, -⟩ := h.shared hshared
  have hholds := h.holds False
  have hmeasured : Measured m.coreCount s.bus := by
    rw [hbus] at hholds ⊢
    cases hholds with
    | shared hsize hholds hallowed =>
      exact .shared hsize (by omega) hholds.accepted hholds.ledger
  exact ⟨h.sound, h.accounted ⟨hholds, hmeasured⟩, fun i hi ↦ .construct (h.cores i hi)⟩

theorem Running.tick (h : m.Running s) : ∃ s', m.tick s = .ok s' ∧ m.Running s' := by
  obtain ⟨s₁, hs₁, hsound₁⟩ := h.sound.during le_rfl
  obtain ⟨t₁, ⟨letters₁, hholds₁, -⟩, -⟩ :=
    h.accounted.during (reliable_measured _) (hartsReturn_measured _) le_rfl hs₁
  obtain ⟨x', hx', -⟩ := @Measured.applyNextTick m.coreCount 0 s₁.bus hholds₁.2
  have htick : m.tick s = .ok { s₁ with bus := x', currentTick := s₁.currentTick + 1 } :=
    Except.bind_eq_ok_iff.mpr ⟨s₁, hs₁, Except.bind_eq_ok_iff.mpr ⟨x', hx', rfl⟩⟩
  refine ⟨_, htick, ?_, h.accounted.tick (reliable_measured _) (hartsReturn_measured _)
    MeasuredHolds.applyNextTick htick, fun i hi ↦ ?_⟩
  · obtain ⟨t, ⟨letters, hholds, hspells⟩, hok, hsmall, hcores⟩ := hsound₁
    have hholds' : MeasuredHolds m.coreCount letters x' :=
      MeasuredHolds.applyNextTick ⟨hholds, hholds₁.2⟩ hx'
    exact ⟨t, ⟨letters, hholds'.1, hspells⟩, hok, hsmall, hcores⟩
  · obtain ⟨t₁, t₂, -, ht₂, hbefore, hafter⟩ := exists_turn_of_tick htick hi
    obtain ⟨x'', hcore⟩ := tick_of_tickCore ht₂
    rw [hafter]
    exact Rv64AtomicCore.reachable_tick (hbefore ▸ h.reachable i hi) hcore

theorem running_ticks (h : construct arch ord program config latency = .ok (m, s₀))
    (hshared : config.sharedBus = true) (hcount : config.coreCount < 2 ^ 31)
    (hs : m.ticks k s₀ = .ok s) : m.Running s := by
  obtain ⟨rfl, hbuilt⟩ := construct_eq_ok h
  induction k generalizing s with
  | zero =>
    obtain rfl := Except.ok.inj hs
    exact hbuilt.running hshared hcount
  | succ k ih =>
    obtain ⟨s₁, hs₁, htick⟩ := Except.bind_eq_ok_iff.mp hs
    obtain ⟨s', hs', hrunning⟩ := (ih hs₁).tick
    obtain rfl := Except.ok.inj (hs'.symm.trans htick)
    exact hrunning

/-- A system on a shared bus that is neither finished nor faulted achieves something in a tick, or
does some of its work. -/
theorem Running.advance (h : m.Running s)
    (hcapacity : 0 < (controllerConfig m.config.toManycoreConfig).requestQueueCapacity)
    (hfinished : m.finished s ≠ true) (hfaulted : m.faulted s ≠ true) :
    ∃ s', m.tick s = .ok s' ∧ (m.faulted s' = true ∨
      m.Running s' ∧ Advance False (m.achieved s) (m.work s) (m.achieved s') (m.work s')) := by
  obtain ⟨s', htick, hrunning⟩ := h.tick
  refine ⟨s', htick, ?_⟩
  obtain ⟨t, ⟨letters, hholds, -⟩, hok, -⟩ := id h.accounted
  rcases tick_advance hholds.2 hok hcapacity h.reachable htick with hfaulted' | hadvance
  · exact .inl hfaulted'
  · refine .inr ⟨hrunning, hadvance.mono fun hrests ↦ hfinished ?_⟩
    exact finished_of_atRest h.accounted (Bool.eq_false_of_not_eq_true hfaulted) hrests.1 hrests.2.1
      hrests.2.2

theorem ticks_of_steps {n : ℕ} (h : Steps (fun s s' ↦ m.tick s = .ok s') n s s')
    (hs : m.ticks k s₀ = .ok s) : m.ticks (k + n) s₀ = .ok s' := by
  induction h generalizing k with
  | refl => exact hs
  | head htick hrest ih =>
    rw [Nat.add_comm _ 1, ← Nat.add_assoc]
    exact ih (Except.bind_eq_ok_iff.mpr ⟨_, hs, htick⟩)

/-- From every state that the system on a shared bus reaches, whatever its program, some hart
achieves something or faults or the system is finished within as many ticks as there is work, and
one more. -/
theorem progress_within_work (h : construct arch ord program config latency = .ok (m, s₀))
    (hshared : config.sharedBus = true) (hcount : config.coreCount < 2 ^ 31)
    (hs : m.ticks k s₀ = .ok s) : ∃ j ≤ m.work s + 1, ∃ s', m.ticks (k + j) s₀ = .ok s' ∧
      (m.finished s' = true ∨ m.faulted s' = true ∨ m.achieved s < m.achieved s') := by
  have hcapacity : 0 < (controllerConfig m.config.toManycoreConfig).requestQueueCapacity :=
    Nat.pos_of_ne_zero (construct_eq_ok h).2.memory.2
  obtain ⟨j, hj, s', hsteps, hend⟩ := @exists_advance _ (fun s s' ↦ m.tick s = .ok s') m.Running
    (fun s ↦ m.finished s = true ∨ m.faulted s = true) m.achieved m.work s
    (fun s₁ hrunning hdone ↦ by
      obtain ⟨hfinished, hfaulted⟩ := not_or.mp hdone
      obtain ⟨s₂, htick, hnext⟩ := hrunning.advance hcapacity hfinished hfaulted
      exact ⟨s₂, htick, hnext.imp_left .inr⟩)
    (running_ticks h hshared hcount hs)
  exact ⟨j, hj, s', ticks_of_steps hsteps hs, or_assoc.mp (hend.imp_right And.right)⟩

/-- Three ticks of two harts. -/
theorem progress_within_work_small : ∃ m s₀ s, finishedRun 3 = .ok (m, s₀, s) ∧
    ∃ j ≤ m.work s + 1, ∃ s', m.ticks (3 + j) s₀ = .ok s' ∧
      (m.finished s' = true ∨ m.faulted s' = true ∨ m.achieved s < m.achieved s') := by
  have hreturns : (finishedRun 3).map (fun _ ↦ ()) = .ok () := rfl
  obtain ⟨m, s₀, s, hrun, hconstruct, hs, -⟩ := exists_of_firstTicks hreturns
  exact ⟨m, s₀, s, hrun, progress_within_work hconstruct rfl (by decide) hs⟩

end Rv64ManycoreSystem

end Manycore
