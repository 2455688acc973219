import SimbusNoc.Manycore.CycleAccounting
import SimbusNoc.Manycore.RaceFreePrograms
import SimbusNoc.Manycore.SafePrograms
import SimbusNoc.Manycore.SystemProgress

/-!
# Programs that come to an end

When no hart of the abstract machine executes more than so many instructions, the simulator cannot
go on for ever either: what a core achieves belongs to an instruction of the run that it follows.
On the shared bus a safe program with such a bound comes to its end, and the codes that its harts
stop with are those of a run of the abstract machine that has come to its end.

A core fetches an instruction once, commits it once and prepares at most one request for it; of the
instructions that it has fetched at most one is not committed (`OneAtATime`). So the achievements
of a core are at most some multiple of the instructions of its run, `Follows.achieved_le`. Each of
them is reached within the work of the state before, by the progress of the shared bus, and
`comes_to_end` follows by induction on the achievements that are left. That the harts follow their
runs for so long rests on the safety of the program, with all its conditions: base instructions,
jumps that the core makes as they are written, no access to the control window, and latencies that
serve every base instruction.
-/

namespace Manycore

open Simbus Rv64archsem Variant Threads Interconnect MemoryController

/-! ## Instructions and accesses -/

/-- An effect counts its instruction, unless it stops the hart, and always with an access. -/
def Effect.Counts (s : HartState) : Effect → Prop
  | .goes s' => s.retired.length ≤ s'.retired.length
  | .reads _ _ next => ∀ data, (next data).retired.length = s.retired.length + 1
  | .writes _ _ s' => s'.retired.length = s.retired.length + 1

theorem effect_counts (tohost : Option UInt64) (hart : UInt32) (s : HartState) (i : Instruction) :
    (effect tohost hart s i).Counts s := by
  have hgoes : ∀ (t : HartState) (target : UInt64), t.retired = s.retired →
      (t.goTo target).retired.length = s.retired.length + 1 := by
    intro t target ht
    rw [HartState.goTo, ht, List.length_append, List.length_singleton]
  have hle : ∀ (t : HartState) (target : UInt64), t.retired = s.retired →
      s.retired.length ≤ (t.goTo target).retired.length := by
    intro t target ht
    rw [hgoes t target ht]
    exact Nat.le_succ _
  cases i with
  | load kind rd rs1 offset => exact fun data ↦ hgoes _ _ rfl
  | store kind rs1 rs2 offset => exact hgoes s (s.pc + 4) rfl
  | branch condition rs1 rs2 offset =>
    rw [effect, Effect.Counts]
    split <;> exact hle _ _ rfl
  | ecall | ebreak => exact le_rfl
  | _ => exact hle _ _ rfl

variable {p : ProgramImage} {tohost : Option UInt64} {hart : UInt32} {s s' : HartState}

/-- Instructions that are executed stay so, and each access has its own. -/
theorem HartStep.retired_le {access : Option MemoryAccess}
    (h : HartStep p tohost hart s access s') :
    s.retired.length + access.toList.length ≤ s'.retired.length := by
  obtain ⟨-, i, -, htakes⟩ := h
  have hcounts := effect_counts tohost hart s i
  generalize effect tohost hart s i = e at htakes hcounts
  cases htakes with
  | goes => exact hcounts
  | reads address data next => exact (hcounts data).ge
  | writes => exact hcounts.ge

theorem retired_le_of_path {l : List MemoryAccess} (h : Path (HartStep p tohost hart) s l s') :
    s.retired.length + l.length ≤ s'.retired.length := by
  induction h with
  | refl => exact le_rfl
  | silent _ hstep ih => exact ih.trans hstep.retired_le
  | act _ hstep ih =>
    have := hstep.retired_le
    rw [List.length_append]
    simp only [Option.toList_some] at this
    omega

/-! ## The instructions of a core

The achievements of a core are counted by its course, against the instructions that it has
committed.
-/

namespace HartCourse

variable {k : Rv64Hart} {v v' : HartCourse} {q : PendingInstruction}

/-- One instruction at most has been fetched and is not committed, and none between two
instructions. -/
def OneAtATime (v : HartCourse) : Prop :=
  v.fetched.length ≤ v.committed.length + if v.state = .fetchDecode then 0 else 1

theorem OneAtATime.le (h : v.OneAtATime) : v.fetched.length ≤ v.committed.length + 1 := by
  rw [OneAtATime] at h
  split_ifs at h <;> omega

theorem Ends.oneAtATime (h : v.Ends q v') (hv : v.OneAtATime) : v'.OneAtATime := by
  have hle := hv.le
  cases h <;> simp [OneAtATime, HartCourse.retire, HartCourse.halt, ask] <;> omega

theorem Resumes.oneAtATime (h : v.Resumes q v') (hv : v.OneAtATime) : v'.OneAtATime := by
  have hle := hv.le
  cases h <;> simp [OneAtATime, HartCourse.retire, HartCourse.halt, answered, ask] <;> omega

theorem Move.oneAtATime (h : v.Move k v') (hv : v.state ≠ .faulted → v.OneAtATime)
    (hrunning : v'.state ≠ .faulted) : v'.OneAtATime := by
  have hbefore := hv (h.before hrunning).1
  have hle := hbefore.le
  cases h with
  | rest => exact hbefore
  | fault h => exact absurd h.state hrunning
  | fetch hstate =>
    -- nothing was under way
    rw [OneAtATime, if_pos hstate] at hbefore
    rw [OneAtATime, if_neg Rv64CoreState.noConfusion, List.length_append, List.length_singleton]
    exact Nat.succ_le_succ hbefore
  | execute hstate hpending hleft h => exact h.oneAtATime hbefore
  | respond hstate hpending h => exact h.oneAtATime hbefore
  | window =>
    rw [OneAtATime, HartCourse.retire, if_pos rfl, List.length_append]
    exact hle
  | send hstate =>
    rw [OneAtATime, if_neg Rv64CoreState.noConfusion]
    exact hle
  | countDown => exact hbefore
  | waitFence => exact hbefore
  | waitIssue => exact hbefore
  | waitResponse => exact hbefore

end HartCourse

namespace Rv64AtomicCore

variable {k : Rv64Hart} {c : Rv64AtomicCore} {first t : HartState}

theorem Reachable.oneAtATime (h : Reachable k c) (hrunning : c.state ≠ .faulted) :
    c.course.OneAtATime :=
  (h.course_induction (P := fun v ↦ v.state ≠ .faulted → v.OneAtATime)
    (fun _ ↦ le_rfl) fun _ _ _ hv hmove ↦ hmove.oneAtATime hv).2 hrunning

/-- What a core achieves belongs to the instructions of its run. -/
theorem Follows.achieved_le (h : Follows k first t c) (hc : Reachable k c) (hbase : c.RunsBase) :
    c.achieved ≤ 3 * t.retired.length + 3 := by
  have hcommitted : c.trace.committed.length = t.retired.length := by
    rw [← h.shows.retired, List.length_map]
  have hanswered : c.trace.answered.length ≤ t.retired.length := by
    have hle := retired_le_of_path h.path
    rw [List.length_map] at hle
    exact (Nat.le_add_left _ _).trans hle
  have hfetched : c.trace.fetched.length ≤ c.trace.committed.length + 1 :=
    (hc.oneAtATime hbase.running).le
  have hprepared : c.course.prepared =
      c.trace.windowAccesses + c.trace.answered.length + if c.memoryRequest.isSome then 1 else 0 :=
    (hc.balanced hbase.running).prepared
  have hwindow := hbase.window
  have hfinished : c.mmio.finished = [] := congrArg (fun a ↦ a.2.2) h.adapter
  have hachieved : c.achieved = c.trace.fetched.length + c.course.prepared +
      c.trace.committed.length + (if c.state = .halted then 1 else 0) +
      c.mmio.finished.length := rfl
  -- each summand is a number of instructions, or one more
  rw [hachieved, hprepared, hfinished, hwindow, List.length_nil]
  split_ifs <;> omega

end Rv64AtomicCore

/-! ## The end of a program -/

namespace Rv64ManycoreSystem

variable {m : Rv64ManycoreSystem} {s s' : Rv64SystemState}

/-- No hart executes more instructions than the bound in any run of the machine that the program is
written for. -/
def BoundedBy (m : Rv64ManycoreSystem) (bound : ℕ) : Prop :=
  ∀ (trace : List (Fin m.coreCount × MemoryAccess)) (S : Fin m.coreCount → HartState)
    (memory : ByteMemory),
    Run (fun i : Fin m.coreCount ↦ m.hartStep i) MemoryAccess.Allowed
      (fun i ↦ m.firstState i, ByteMemory.zero) trace (S, memory) →
    ∀ i : Fin m.coreCount, (S i).retired.length ≤ bound

variable {arch : ArchSem} {ord : HashOrder} {program : ProgramImage} {config : Rv64ManycoreConfig}
  {latency : InstructionLatencyConfig} {s₀ : Rv64SystemState} {bound : ℕ}

theorem BoundedBy.achieved_le (hbound : m.BoundedBy bound)
    (h : construct arch ord program config latency = .ok (m, s₀)) (harch : arch.IsLibrary) {k : ℕ}
    (hs : m.ticks k s₀ = .ok s) (hbase : ∀ i < m.coreCount, (s.cores i).RunsBase) :
    m.achieved s ≤ ∑ _i ∈ Finset.range m.coreCount, (3 * bound + 3) := by
  have hfollowing := following_ticks h harch hs
  obtain ⟨trace, S, haccepts, hpaths, hreaches, -⟩ := exists_trace rfl h harch hs hbase
  refine Finset.sum_le_sum fun i hmem ↦ ?_
  have hi := Finset.mem_range.mp hmem
  obtain ⟨⟨t, ht⟩, -⟩ := hfollowing.harts i hi (hbase i hi)
  have hachieved := ht.achieved_le (hfollowing.reachable i hi) (hbase i hi)
  have hS := hbound _ _ _ (run_of_paths haccepts hpaths) ⟨i, hi⟩
  -- the core is where the run has hart `i`, or one access behind
  have hretired : t.retired.length ≤ (S ⟨i, hi⟩).retired.length := by
    rcases hreaches ⟨i, hi⟩ with hshows | ⟨-, t', access, hshows, hstep⟩
    · rw [← ht.shows.retired, ← hshows.retired]
    · rw [← ht.shows.retired, hshows.retired]
      exact (Nat.le_add_right _ _).trans hstep.retired_le
  omega

/-- A safe program with a bound comes to its end on the shared bus, and its harts stop with the
codes of a run of the abstract machine in which all of them have stopped. -/
theorem comes_to_end (h : construct arch ord program config latency = .ok (m, s₀))
    (harch : arch.IsLibrary) (hlatency : latency.Serves arch) (hshared : config.sharedBus = true)
    (hcount : config.coreCount < 2 ^ 31) (hsafe : m.Safe) (hbound : m.BoundedBy bound) :
    ∃ k s, m.ticks k s₀ = .ok s ∧ m.finished s = true ∧
      ∃ (trace : List (Fin m.coreCount × MemoryAccess)) (S : Fin m.coreCount → HartState),
        Run (fun i : Fin m.coreCount ↦ m.hartStep i) MemoryAccess.Allowed
          (fun i ↦ m.firstState i, ByteMemory.zero) trace
          (S, s.memoryController.memory.toBytes) ∧
        ∀ i : Fin m.coreCount, (s.cores i).Shows (S i) ∧
          (S i).exit = some (s.cores i).exitCode := by
  have hcapacity : 0 < (controllerConfig m.config.toManycoreConfig).requestQueueCapacity :=
    Nat.pos_of_ne_zero (construct_eq_ok h).2.memory.2
  have hbase : ∀ {k s}, m.ticks k s₀ = .ok s → ∀ i < m.coreCount, (s.cores i).RunsBase :=
    fun hs ↦ hsafe.runsBase h harch hlatency hs
  obtain ⟨n, s, hsteps, hdone⟩ := @exists_done _ (fun s s' ↦ m.tick s = .ok s')
    (fun s ↦ m.Running s ∧ ∃ k, m.ticks k s₀ = .ok s)
    (fun s ↦ m.finished s = true ∨ m.faulted s = true) m.achieved m.work s₀
    (by
      rintro s₁ ⟨hrunning, k, hs₁⟩ hdone
      obtain ⟨hfinished, hfaulted⟩ := not_or.mp hdone
      obtain ⟨s₂, htick, hnext⟩ := hrunning.advance hcapacity hfinished hfaulted
      have hs₂ : m.ticks (k + 1) s₀ = .ok s₂ := Except.bind_eq_ok_iff.mpr ⟨s₁, hs₁, htick⟩
      exact ⟨s₂, htick, hnext.imp .inr fun hnext ↦ ⟨⟨hnext.1, k + 1, hs₂⟩, hnext.2⟩⟩)
    _ (fun s₁ hs₁ _ ↦ by
      obtain ⟨-, k, hs₁⟩ := hs₁
      exact hbound.achieved_le h harch hs₁ (hbase hs₁))
    ⟨running_ticks h hshared hcount (k := 0) rfl, 0, rfl⟩
  -- it has not faulted, so it has finished
  have hs : m.ticks (0 + n) s₀ = .ok s := ticks_of_steps hsteps rfl
  have hrunning : m.faulted s ≠ true := by
    rw [faulted_eq_false_iff.mpr fun i hi ↦ (hbase hs i hi).running]
    decide
  have hfinished := hdone.resolve_right hrunning
  obtain ⟨trace, S, haccepts, hpaths, hends, -⟩ :=
    exists_ended rfl h harch hs hfinished (hbase hs)
  exact ⟨_, s, hs, hfinished, trace, S, run_of_paths haccepts hpaths, hends⟩

theorem comes_to_end_small : ∃ m s₀, stackSystem true = .ok (m, s₀) ∧
    ∃ k s, m.ticks k s₀ = .ok s ∧ m.finished s = true ∧
      ∃ (trace : List (Fin m.coreCount × MemoryAccess)) (S : Fin m.coreCount → HartState),
        Run (fun i : Fin m.coreCount ↦ m.hartStep i) MemoryAccess.Allowed
          (fun i ↦ m.firstState i, ByteMemory.zero) trace
          (S, s.memoryController.memory.toBytes) ∧
        ∀ i : Fin m.coreCount, (s.cores i).Shows (S i) ∧
          (S i).exit = some (s.cores i).exitCode := by
  obtain ⟨m, s₀, h⟩ := exists_stackSystem true
  have hbound : m.BoundedBy 3 := by
    intro trace S memory hrun i
    obtain ⟨-, n, -, hretired⟩ := inStackProgram_of_run h hrun i
    have hlt : (n : ℕ) < 4 := n.isLt
    omega
  exact ⟨m, s₀, h, comes_to_end h Rv64AtomicCore.isLibrary_libraryArch (serves_default _) rfl
    (by decide) (safe_stackProgram h) hbound⟩

end Rv64ManycoreSystem

end Manycore
