import Mathlib.Algebra.BigOperators.Group.List.Basic
import SimbusNoc.Manycore.HartMoves

/-!
# Where the ticks of a hart go

Each tick of a hart is spent on exactly one thing, and each access that it counts has been served
by the control window, has been answered, or is the one under way. Every instruction takes one tick
for its fetch and its latency; a hart that makes no access and no fence spends no other tick,
whatever the bus does.

## The three invariants

All are about the course of a hart, an automaton that has forgotten registers and data. `Balanced`
is the equation of the ticks with the classes of cycles, and that of the prepared requests with the
finished ones. `Timed` adds up latencies: the countdown of an instruction starts with its latency,
and a tick in `executeWait` takes one off. `Undisturbed` is for harts without accesses and fences:
no class but fetch and countdown has a tick. Each has a lemma for a move, and
`Reachable.course_induction` carries it to every core. A fence that waits for its adapter spends no
countdown, so `Timed` holds of it like of any other instruction.
-/

namespace Manycore

open Simbus Rv64archsem

namespace HartCourse

variable {k : Rv64Hart} {v v' : HartCourse}

/-! ## The balance -/

structure Balanced (v : HartCourse) : Prop where
  ticks : v.ticks = CycleClass.total v.cycles
  prepared : v.prepared =
    v.cycles .windowAccess + v.cycles .response + if v.request.isSome then 1 else 0

theorem total_update (cycles : CycleClass → ℕ) (cls : CycleClass) :
    CycleClass.total (Function.update cycles cls (cycles cls + 1)) =
      CycleClass.total cycles + 1 := by
  cases cls <;> simp [CycleClass.total, Function.update] <;> omega

theorem Balanced.ticks_tick (h : v.Balanced) (cls : CycleClass) :
    (v.tick cls).ticks = CycleClass.total (v.tick cls).cycles := by
  rw [tick, count, total_update, ← h.ticks]

theorem Balanced.tick (h : v.Balanced) {cls : CycleClass} (hwindow : cls ≠ .windowAccess)
    (hresponse : cls ≠ .response) : (v.tick cls).Balanced := by
  refine ⟨h.ticks_tick cls, ?_⟩
  simp only [HartCourse.tick, count, Function.update_of_ne hwindow.symm,
    Function.update_of_ne hresponse.symm]
  exact h.prepared

theorem Ends.balanced {p : PendingInstruction} (h : v.Ends p v') (hv : v.Balanced)
    (hrequest : v.request = none) : v'.Balanced := by
  have hprepared := hv.prepared
  rw [hrequest, Option.isSome_none, if_neg (by decide), Nat.add_zero] at hprepared
  cases h with
  | retire hp' isLoad => exact ⟨hv.ticks, hv.prepared⟩
  | halt hcontrol => exact ⟨hv.ticks, hv.prepared⟩
  | scalar hcontrol => exact ⟨hv.ticks, congrArg (· + 1) hprepared⟩
  | vectorLoad hcontrol hsize => exact ⟨hv.ticks, congrArg (· + 1) hprepared⟩
  | vectorStore hcontrol => exact ⟨hv.ticks, congrArg (· + 1) hprepared⟩

theorem Balanced.access (h : v.Balanced) (hrequest : v.request.isSome) {cls : CycleClass}
    (hcls : cls = .windowAccess ∨ cls = .response) :
    (v.tick cls).prepared =
      (v.tick cls).cycles .windowAccess + (v.tick cls).cycles .response := by
  have hprepared := h.prepared
  rw [if_pos hrequest] at hprepared
  rcases hcls with rfl | rfl <;> simp [HartCourse.tick, count] <;> omega

theorem Resumes.balanced {p : PendingInstruction} (h : v.Resumes p v')
    (hticks : v.ticks = CycleClass.total v.cycles)
    (hprepared : v.prepared = v.cycles .windowAccess + v.cycles .response) : v'.Balanced := by
  cases h with
  | retire hp' hactive => exact ⟨hticks, hprepared⟩
  | host hp' hactive => exact ⟨hticks, hprepared⟩
  | vectorLoad hactive hisLoad hsize => exact ⟨hticks, congrArg (· + 1) hprepared⟩
  | vectorStore hactive hisLoad => exact ⟨hticks, congrArg (· + 1) hprepared⟩
  | vectorDone hp' hactive hload => exact ⟨hticks, hprepared⟩

/-- Each move of a hart that goes on spends one tick, on one thing. -/
theorem Move.balanced (h : Move k v v') (hok : v.Ok) (hv : v.state ≠ .faulted → v.Balanced)
    (hrunning : v'.state ≠ .faulted) : v'.Balanced := by
  have hbalanced : ∀ {state}, v.state = state → state ≠ .faulted → v.Balanced :=
    fun hstate hne ↦ hv (hstate ▸ hne)
  cases h with
  | rest => exact hv hrunning
  | fault h hcommitted => exact absurd h.state hrunning
  | fetch hstate hlatency =>
    have htick : (v.tick .fetchDecode).Balanced :=
      (hbalanced hstate (by decide)).tick (by decide) (by decide)
    exact ⟨htick.ticks, htick.prepared⟩
  | countDown hstate hleft =>
    have htick : (v.tick .executeWait).Balanced :=
      (hbalanced hstate (by decide)).tick (by decide) (by decide)
    exact ⟨htick.ticks, htick.prepared⟩
  | waitFence hstate hpending hfence =>
    exact (hbalanced hstate (by decide)).tick (by decide) (by decide)
  | execute hstate hpending hleft h =>
    have htick : (v.tick .executeWait).Balanced :=
      (hbalanced hstate (by decide)).tick (by decide) (by decide)
    exact h.balanced ⟨htick.ticks, htick.prepared⟩
      (hok.free (by simp [hstate]) (by simp [hstate])).request
  | waitIssue hstate hcls =>
    rcases hcls with rfl | rfl | rfl <;>
      exact (hbalanced hstate (by decide)).tick (by decide) (by decide)
  | window hstate hpending hp' hactive =>
    have hv := hbalanced hstate (by decide)
    exact ⟨hv.ticks_tick .windowAccess,
      hv.access (hok.request.mpr (.inl hstate)) (.inl rfl)⟩
  | send hstate =>
    have htick : (v.tick .send).Balanced :=
      (hbalanced hstate (by decide)).tick (by decide) (by decide)
    exact ⟨htick.ticks, htick.prepared⟩
  | waitResponse hstate => exact (hbalanced hstate (by decide)).tick (by decide) (by decide)
  | respond hstate hpending h =>
    have hv := hbalanced hstate (by decide)
    exact h.balanced (hv.ticks_tick .response)
      (hv.access (hok.request.mpr (.inr hstate)) (.inr rfl))

/-! ## Latencies

`Takes` says what the latency of a fetched instruction is, with the vector length at its fetch. The
countdown of the instruction under way is the part of its latency that is still to come.
-/

/-- A fetched instruction with the vector length at its fetch takes `n` cycles. -/
def Takes (k : Rv64Hart) (e : PendingInstruction × UInt32) (n : ℕ) : Prop :=
  instructionLatency k.arch e.1.decoded k.latency e.2.toNat = .ok n

/-- One tick for each fetch, and what is left of the countdown is still to come. -/
structure Timed (k : Rv64Hart) (v : HartCourse) : Prop where
  fetchDecode : v.cycles .fetchDecode = v.fetched.length
  executeWait : ∃ latencies : List ℕ, List.Forall₂ (Takes k) v.fetched latencies ∧
    v.cycles .executeWait + (if v.state = .executeWait then v.cyclesLeft else 0) = latencies.sum

theorem Timed.tick (h : v.Timed k) {cls : CycleClass} (hfetch : cls ≠ .fetchDecode)
    (hexecute : cls ≠ .executeWait) : (v.tick cls).Timed k := by
  obtain ⟨latencies, hlatencies, hsum⟩ := h.executeWait
  refine ⟨?_, latencies, hlatencies, ?_⟩
  · simp only [HartCourse.tick, count, Function.update_of_ne hfetch.symm]
    exact h.fetchDecode
  · simp only [HartCourse.tick, count, Function.update_of_ne hexecute.symm]
    exact hsum

/-- The countdown of an instruction is part of it, or has nothing left. -/
theorem Timed.leave (h : v.Timed k) (hfetched : v'.fetched = v.fetched)
    (hfetch : v'.cycles .fetchDecode = v.cycles .fetchDecode)
    (hexecute : v'.cycles .executeWait + (if v'.state = .executeWait then v'.cyclesLeft else 0) =
      v.cycles .executeWait + (if v.state = .executeWait then v.cyclesLeft else 0)) :
    v'.Timed k := by
  obtain ⟨latencies, hlatencies, hsum⟩ := h.executeWait
  exact ⟨by rw [hfetch, hfetched, h.fetchDecode], latencies, hfetched ▸ hlatencies,
    hexecute.trans hsum⟩

theorem Ends.keeps {p : PendingInstruction} (h : v.Ends p v') :
    v'.fetched = v.fetched ∧ v'.cycles = v.cycles ∧ v'.state ≠ .executeWait := by
  cases h <;> exact ⟨rfl, rfl, Rv64CoreState.noConfusion⟩

theorem Resumes.keeps {p : PendingInstruction} (h : v.Resumes p v') :
    v'.fetched = v.fetched ∧ v'.cycles = v.cycles ∧ v'.state ≠ .executeWait := by
  cases h <;> exact ⟨rfl, rfl, Rv64CoreState.noConfusion⟩

/-- The countdown of every instruction runs from its latency to 0. -/
theorem Move.timed (h : Move k v v') (hv : v.state ≠ .faulted → v.Timed k)
    (hrunning : v'.state ≠ .faulted) : v'.Timed k := by
  have htimed : ∀ {state}, v.state = state → state ≠ .faulted → v.Timed k :=
    fun hstate hne ↦ hv (hstate ▸ hne)
  -- A fetch appends a latency, a latency cycle takes one off the countdown, and all else leaves
  -- both.
  cases h with
  | rest => exact hv hrunning
  | fault h hcommitted => exact absurd h.state hrunning
  | @fetch p vl cycles hstate hlatency =>
    obtain ⟨latencies, hlatencies, hsum⟩ := (htimed hstate (by decide)).executeWait
    rw [hstate, if_neg (by decide), Nat.add_zero] at hsum
    refine ⟨?_, latencies ++ [cycles], ?_, ?_⟩
    · simp [tick, count, (htimed hstate (by decide)).fetchDecode]
    · exact List.rel_append hlatencies (.cons hlatency .nil)
    · simp [tick, count, hsum]
  | countDown hstate hleft =>
    refine (htimed hstate (by decide)).leave rfl ?_ ?_
    · simp [tick, count]
    · simp only [tick, count, hstate, if_true, Function.update_self]
      omega
  | waitFence hstate hpending hfence =>
    exact (htimed hstate (by decide)).tick (by decide) (by decide)
  | execute hstate hpending hleft h =>
    obtain ⟨hfetched, hcycles, hnot⟩ := h.keeps
    refine (htimed hstate (by decide)).leave hfetched ?_ ?_
    · rw [hcycles]
      simp [ready, tick, count]
    · rw [hcycles, if_neg hnot, hstate, if_pos rfl, hleft]
      simp [ready, tick, count]
  | waitIssue hstate hcls =>
    rcases hcls with rfl | rfl | rfl <;>
      exact (htimed hstate (by decide)).tick (by decide) (by decide)
  | window hstate hpending hp' hactive =>
    have hv : (v.tick .windowAccess).Timed k :=
      (htimed hstate (by decide)).tick (by decide) (by decide)
    refine hv.leave rfl rfl ?_
    simp [answered, retire, tick, count, hstate]
  | send hstate =>
    have hv : (v.tick .send).Timed k :=
      (htimed hstate (by decide)).tick (by decide) (by decide)
    refine hv.leave rfl rfl ?_
    simp [tick, count, hstate]
  | waitResponse hstate => exact (htimed hstate (by decide)).tick (by decide) (by decide)
  | respond hstate hpending h =>
    obtain ⟨hfetched, hcycles, hnot⟩ := h.keeps
    have hv : (v.tick .response).Timed k :=
      (htimed hstate (by decide)).tick (by decide) (by decide)
    refine hv.leave hfetched (by rw [hcycles]) ?_
    rw [hcycles, if_neg hnot]
    simp [tick, count, hstate]

/-! ## Harts without accesses and fences

Such a hart is only ever in two states, one for the fetch and one for the countdown, until it
stops.
-/

/-- The instruction is executed within the hart: it has no access and is no fence. -/
def IsLocal (p : PendingInstruction) : Prop :=
  p.decoded.controlType ∉ [.load, .store, .vload, .vstore, .fence, .fencei, .fenceTso]

/-- The hart has never waited for anything, and has executed every instruction that it has fetched
but for the last. -/
structure Undisturbed (v : HartCourse) : Prop where
  state : v.state ≠ .memoryIssue ∧ v.state ≠ .memoryWait
  cycles : ∀ cls, cls ≠ .fetchDecode → cls ≠ .executeWait → v.cycles cls = 0
  pending : ∀ p, v.pending = some p → ∃ vl, (p, vl) ∈ v.fetched
  executed : v.state ≠ .halted → v.fetched.map (·.1.origin) =
    (v.committed ++ v.pending.toList).map PendingInstruction.origin
  ended : v.state = .halted → ∃ last : PendingInstruction,
    (last.decoded.controlType = .ecall ∨ last.decoded.controlType = .ebreak) ∧
      v.fetched.map (·.1.origin) = (v.committed ++ [last]).map PendingInstruction.origin

theorem undisturbed_initial : initial.Undisturbed := by
  constructor <;> simp [initial]

/-- An instruction of such a hart retires, or stops it. -/
theorem Ends.undisturbed {p : PendingInstruction} (h : v.Ends p v') (hlocal : IsLocal p)
    (hv : v.Undisturbed) (hstate : v.state = .executeWait) (hpending : v.pending = some p) :
    v'.Undisturbed := by
  have hexecuted := hv.executed (by simp [hstate])
  rw [hpending, Option.toList_some] at hexecuted
  cases h with
  | @retire p' hp' isLoad =>
    refine ⟨?_, hv.cycles, ?_, fun _ ↦ ?_, ?_⟩
    · simp [HartCourse.retire]
    · simp [HartCourse.retire]
    · simpa [HartCourse.retire, hp'] using hexecuted
    · simp [HartCourse.retire]
  | halt hcontrol =>
    refine ⟨?_, hv.cycles, ?_, ?_, fun _ ↦ ⟨p, hcontrol, hexecuted⟩⟩ <;> simp [HartCourse.halt]
  | scalar hcontrol => exact absurd hlocal (by rcases hcontrol with h | h <;> simp [IsLocal, h])
  | vectorLoad hcontrol hsize =>
    have htype : p.decoded.controlType = .vload := hcontrol
    exact absurd hlocal (by simp [IsLocal, htype])
  | vectorStore hcontrol =>
    have htype : p.decoded.controlType = .vstore := hcontrol
    exact absurd hlocal (by simp [IsLocal, htype])

theorem Undisturbed.tick (h : v.Undisturbed) {cls : CycleClass}
    (hcls : cls = .fetchDecode ∨ cls = .executeWait) : (v.tick cls).Undisturbed where
  state := h.state
  cycles := fun other hfetch hexecute ↦ by
    have hne : other ≠ cls := by rcases hcls with rfl | rfl <;> assumption
    simp only [HartCourse.tick, count, Function.update_of_ne hne]
    exact h.cycles other hfetch hexecute
  pending := h.pending
  executed := h.executed
  ended := h.ended

theorem not_isFence_of_isLocal {p : PendingInstruction} (h : IsLocal p) :
    Rv64AtomicCore.isFence p.decoded.controlType = false := by
  cases htype : p.decoded.controlType <;> simp_all [IsLocal, Rv64AtomicCore.isFence]

theorem Move.undisturbed (h : Move k v v') (hok : v.Ok)
    (hv : v.state ≠ .faulted → (∀ e ∈ v.fetched, IsLocal e.1) → v.Undisturbed)
    (hrunning : v'.state ≠ .faulted) (hlocal : ∀ e ∈ v'.fetched, IsLocal e.1) :
    v'.Undisturbed := by
  have hpendingLocal : v.Undisturbed → (∀ e ∈ v.fetched, IsLocal e.1) → ∀ {p}, v.pending = some p →
      IsLocal p := by
    intro hv hlocal p hpending
    obtain ⟨vl, hmem⟩ := hv.pending p hpending
    exact hlocal _ hmem
  -- Only fetches and the countdown are left to a hart that neither asks memory nor has a fence.
  cases h with
  | rest => exact hv hrunning hlocal
  | fault h hcommitted => exact absurd h.state hrunning
  | @fetch p vl cycles hstate hlatency =>
    have hv := hv (by simp [hstate]) fun e he ↦ hlocal e (List.mem_append_left _ he)
    have hpending : v.pending = none := by
      have hsome := hok.pending
      simpa [hstate] using hsome
    have hexecuted := hv.executed (by simp [hstate])
    rw [hpending, Option.toList_none, List.append_nil] at hexecuted
    refine ⟨by simp, (hv.tick (.inl rfl)).cycles, fun q hq ↦ ⟨vl, ?_⟩, fun _ ↦ ?_, by simp⟩
    · obtain rfl := Option.some.inj hq
      exact List.mem_append_right _ (List.mem_singleton_self _)
    · simp [HartCourse.tick, count, hexecuted]
  | countDown hstate hleft =>
    have hv : (v.tick .executeWait).Undisturbed := (hv (by simp [hstate]) hlocal).tick (.inr rfl)
    exact ⟨hv.state, hv.cycles, hv.pending, hv.executed, hv.ended⟩
  | waitFence hstate hpending hfence =>
    have hv := hv (by simp [hstate]) hlocal
    rw [not_isFence_of_isLocal (hpendingLocal hv hlocal hpending)] at hfence
    cases hfence
  | execute hstate hpending hleft h =>
    have hlocal' : ∀ e ∈ v.fetched, IsLocal e.1 := fun e he ↦ hlocal e (h.keeps.1 ▸ he)
    have hv := hv (by simp [hstate]) hlocal'
    have htick : (v.tick .executeWait).Undisturbed := hv.tick (.inr rfl)
    exact h.undisturbed (hpendingLocal hv hlocal' hpending)
      ⟨htick.state, htick.cycles, htick.pending, htick.executed, htick.ended⟩ hstate hpending
  | waitIssue hstate hcls => exact absurd hstate (hv (by simp [hstate]) hlocal).state.1
  | window hstate hpending hp' hactive =>
    exact absurd hstate (hv (by simp [hstate]) hlocal).state.1
  | send hstate => exact absurd hstate (hv (by simp [hstate]) hlocal).state.1
  | waitResponse hstate => exact absurd hstate (hv (by simp [hstate]) hlocal).state.2
  | respond hstate hpending h =>
    have hlocal' : ∀ e ∈ v.fetched, IsLocal e.1 := fun e he ↦ hlocal e (h.keeps.1 ▸ he)
    exact absurd hstate (hv (by simp [hstate]) hlocal').state.2

end HartCourse

/-! ## Every core -/

namespace Rv64AtomicCore

variable {k : Rv64Hart} {c : Rv64AtomicCore}

theorem Reachable.balanced (h : Reachable k c) (hrunning : c.state ≠ .faulted) :
    c.course.Balanced :=
  (h.course_induction (P := fun v ↦ v.state ≠ .faulted → v.Balanced)
    (fun _ ↦ ⟨rfl, rfl⟩) fun _ _ hok hv hmove ↦ hmove.balanced hok hv).2 hrunning

/-- In every reachable state of a core that has not faulted the ticks are accounted for, and so are
the accesses. -/
theorem cycles_accounted (h : Reachable k c) (hrunning : c.state ≠ .faulted) :
    c.stats.ticks =
        c.stats.fetchDecodeCycles + c.stats.executeWaitCycles +
          c.stats.adapterSerializationWaitCycles + c.stats.vectorIssueWaitCycles +
          c.stats.injectionBlockedCycles + c.stats.memoryWaitCycles +
          c.trace.windowAccesses + c.trace.sent + c.trace.answered.length ∧
      c.stats.loads + c.stats.stores + c.stats.vectorMemoryTransactions =
        c.trace.windowAccesses + c.trace.answered.length +
          (if c.memoryRequest.isSome then 1 else 0) ∧
      c.stats.adapterSerializationWaitCycles ≤ c.stats.ticks ∧
      c.stats.vectorIssueWaitCycles ≤ c.stats.ticks ∧
      c.stats.executeWaitCycles ≤ c.stats.ticks ∧
      c.stats.injectionBlockedCycles ≤ c.stats.ticks ∧
      c.stats.memoryWaitCycles ≤ c.stats.ticks := by
  have hbalanced := h.balanced hrunning
  have hticks : c.stats.ticks = CycleClass.total c.cyclesSpent := hbalanced.ticks
  simp only [CycleClass.total, cyclesSpent] at hticks
  exact ⟨hticks, hbalanced.prepared, by omega, by omega, by omega, by omega, by omega⟩

private theorem sum_map_one_add (l : List ℕ) : (l.map (1 + ·)).sum = l.length + l.sum := by
  induction l with
  | nil => rfl
  | cons n l ih =>
    rw [List.map_cons, List.sum_cons, ih, List.length_cons, List.sum_cons]
    omega

/-- A hart that has reached `ecall` or `ebreak` without an access and a fence has spent one tick on
the fetch of each instruction and its latency, and no other tick, whatever has happened outside. -/
theorem exact_latency (h : Reachable k c) (hhalted : c.state = .halted)
    (hlocal : ∀ e ∈ c.trace.fetched, HartCourse.IsLocal e.1) :
    ∃ latencies : List ℕ,
      List.Forall₂ (fun e n ↦ instructionLatency k.arch e.1.decoded k.latency e.2.toNat = .ok n)
        c.trace.fetched latencies ∧
      c.stats.ticks = (latencies.map (1 + ·)).sum ∧
      c.stats.executeWaitCycles = latencies.sum ∧
      c.stats.fetchDecodeCycles = c.trace.fetched.length ∧
      ∃ last : PendingInstruction,
        (last.decoded.controlType = .ecall ∨ last.decoded.controlType = .ebreak) ∧
          c.trace.fetched.map (·.1.origin) =
            (c.trace.committed ++ [last]).map PendingInstruction.origin := by
  have hrunning : c.state ≠ .faulted := by simp [hhalted]
  have htimed : c.course.Timed k :=
    (h.course_induction (P := fun v ↦ v.state ≠ .faulted → v.Timed k)
      (fun _ ↦ ⟨rfl, [], .nil, rfl⟩) fun v v' _ hv hmove ↦ hmove.timed hv).2 hrunning
  have hundisturbed : c.course.Undisturbed :=
    (h.course_induction
      (P := fun v ↦ v.state ≠ .faulted → (∀ e ∈ v.fetched, HartCourse.IsLocal e.1) → v.Undisturbed)
      (fun _ _ ↦ HartCourse.undisturbed_initial)
      fun v v' hok hv hmove ↦ hmove.undisturbed hok hv).2 hrunning hlocal
  obtain ⟨latencies, hlatencies, hsum⟩ := htimed.executeWait
  have hexecute : c.stats.executeWaitCycles = latencies.sum := by
    rw [if_neg (by simp [course, hhalted]), Nat.add_zero] at hsum
    exact hsum
  have hfetch : c.stats.fetchDecodeCycles = c.trace.fetched.length := htimed.fetchDecode
  refine ⟨latencies, hlatencies, ?_, hexecute, hfetch, hundisturbed.ended hhalted⟩
  have hzero : ∀ cls, cls ≠ .fetchDecode → cls ≠ .executeWait → c.cyclesSpent cls = 0 :=
    hundisturbed.cycles
  have hticks : c.stats.ticks = c.stats.fetchDecodeCycles + c.stats.executeWaitCycles := by
    have htotal : c.stats.ticks = CycleClass.total c.cyclesSpent := (h.balanced hrunning).ticks
    rw [htotal, CycleClass.total, hzero .adapterSerialization (by decide) (by decide),
      hzero .vectorIssue (by decide) (by decide), hzero .injectionBlocked (by decide) (by decide),
      hzero .memoryWait (by decide) (by decide), hzero .windowAccess (by decide) (by decide),
      hzero .send (by decide) (by decide), hzero .response (by decide) (by decide)]
    rfl
  have hlength : c.trace.fetched.length = latencies.length := hlatencies.length_eq
  rw [hticks, sum_map_one_add, ← hlength, hexecute, hfetch]

/-! ## A hart that waits -/

/-- A vector load of three requests, a load from the status register of the adapter, and a store. -/
def storingHart : Rv64Hart :=
  .ofWords [0xc10272d7, 0x0202e087, 0x10000297, 0x0182b303, 0x00003023, 0x00000073]

/-- The hart waits for the answer to its store. -/
theorem cycles_accounted_storing : ∃ c, Reachable storingHart c ∧ c.trace.windowAccesses = 1 ∧
    c.trace.sent = 4 ∧ c.trace.answered.length = 3 ∧ c.memoryRequest.isSome = true ∧
    c.stats.ticks = c.stats.fetchDecodeCycles + c.stats.executeWaitCycles +
      c.stats.adapterSerializationWaitCycles + c.stats.vectorIssueWaitCycles +
      c.stats.injectionBlockedCycles + c.stats.memoryWaitCycles + 1 + 4 + 3 ∧
    c.stats.loads + c.stats.stores + c.stats.vectorMemoryTransactions = 1 + 3 + 1 := by
  have hreturns : ∀ i < 18, returnsAnswered storingHart i = true := by decide +kernel
  have hreachable := reachable_runAnswered (by decide) hreturns
  have hparts : (runAnswered storingHart 18).1.state = .memoryWait ∧
      (runAnswered storingHart 18).1.trace.windowAccesses = 1 ∧
      (runAnswered storingHart 18).1.trace.sent = 4 ∧
      (runAnswered storingHart 18).1.trace.answered.length = 3 ∧
      (runAnswered storingHart 18).1.memoryRequest.isSome = true := by decide +kernel
  obtain ⟨hstate, hwindow, hsent, hanswered, hrequest⟩ := hparts
  obtain ⟨hticks, hprepared, -⟩ := cycles_accounted hreachable (by rw [hstate]; decide)
  rw [hwindow, hsent, hanswered] at hticks
  rw [hwindow, hanswered, if_pos hrequest] at hprepared
  exact ⟨_, hreachable, hwindow, hsent, hanswered, hrequest, hticks, hprepared⟩

/-! ## A hart that stops -/

/-- `vsetivli x5, 2, e32, m1` and `ecall`. -/
def stoppingHart : Rv64Hart := .ofWords [0xc10172d7, 0x00000073]

/-- The hart after so many ticks. -/
def stoppingCore (n : ℕ) : Rv64AtomicCore :=
    (tickSilent stoppingHart)^[n] (initialCore stoppingHart)

theorem stoppingCore_reachable (n : ℕ) : Reachable stoppingHart (stoppingCore n) :=
  reachable_tickSilent (reachable_initialCore (by decide)) n

theorem exact_latency_stopping :
    ∃ latencies : List ℕ,
      (stoppingCore 4).stats.ticks = (latencies.map (1 + ·)).sum ∧
        (stoppingCore 4).stats.executeWaitCycles = latencies.sum := by
  have hhalted : (stoppingCore 4).state = .halted := rfl
  have hfetched :
      (stoppingCore 4).trace.fetched.map (·.1.decoded.controlType) = [.none, .ecall] := rfl
  have hlocal : ∀ e ∈ (stoppingCore 4).trace.fetched, HartCourse.IsLocal e.1 := by
    intro e he
    have hmem : e.1.decoded.controlType ∈ [ControlType.none, .ecall] :=
      hfetched ▸ List.mem_map_of_mem he
    rcases List.mem_cons.mp hmem with h | h
    · simp [HartCourse.IsLocal, h]
    · simp [HartCourse.IsLocal, List.mem_singleton.mp h]
  obtain ⟨latencies, -, hticks, hwait, -⟩ :=
    exact_latency (stoppingCore_reachable 4) hhalted hlocal
  exact ⟨latencies, hticks, hwait⟩

end Rv64AtomicCore

end Manycore
