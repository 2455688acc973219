import SimbusNoc.Manycore.CycleAccounting
import SimbusNoc.Manycore.HartStates
import SimbusNoc.Manycore.SystemAccount

/-!
# A fence drains the hart

A fence starts its countdown when the adapter has nothing left to do, and nothing can give the
adapter new work before the fence commits. By the account of the hart memory has then served
everything that the hart has asked for.

## The course of a fence

A fence commits at the end of its own countdown (`Move.commits_fence`), and an instruction with an
access is no fence, so while a fence is pending the core has no request of its own. Commands come
from register accesses only, which are instructions too. So an adapter that was idle in one latency
cycle is idle in all later ones.

## The invariant of the countdown

`CountsDown` looks back from a pending fence: as many ticks ago as cycles have elapsed, each of
these ticks was a latency cycle, with the adapter idle, and before the first one there was none. It
is kept by the adapter's turn and by the core's, and at the commit it covers the whole latency.
Stated of a run, with the account of the hart in each state, it gives `fence_drains`.
-/

namespace Manycore

open Simbus Rv64archsem Throwing MemoryController Sequential Interconnect

/-! ## The course of a fence

The course of a hart knows what is pending and whether it is a fence, which is enough to see that a
fence has no access and that only the end of its countdown commits it.
-/

namespace HartCourse

variable {k : Rv64Hart} {v v' : HartCourse} {p : PendingInstruction}

theorem Move.pending_eq (h : Move k v v') (hv : v.state = .executeWait)
    (hv' : v'.state = .executeWait) : v'.pending = v.pending := by
  cases h with
  | rest | countDown | waitFence => rfl
  | fault h => cases hv'.symm.trans h.state
  | fetch hfetch => cases hv.symm.trans hfetch
  | execute hwait hpending hleft h => exact absurd hv' h.state_ne
  | waitIssue hissue | window hissue | send hissue => cases hv.symm.trans hissue
  | waitResponse hwait | respond hwait => cases hv.symm.trans hwait

/-- An instruction with an access is no fence. -/
def NoFence (v : HartCourse) : Prop :=
  v.state = .memoryIssue ∨ v.state = .memoryWait →
    ∀ p, v.pending = some p → Rv64AtomicCore.isFence p.decoded.controlType = false

theorem Ends.noFence (h : v.Ends p v') (hpending : v.pending = some p) : v'.NoFence := by
  rintro hstate q hq
  cases h with
  | retire | halt => rcases hstate with h | h <;> cases h
  | scalar hcontrol =>
    obtain rfl := Option.some.inj (hpending.symm.trans hq)
    rcases hcontrol with h | h <;> rw [h] <;> rfl
  | vectorLoad hcontrol | vectorStore hcontrol =>
    obtain rfl := Option.some.inj (hpending.symm.trans hq)
    rw [show p.decoded.controlType = _ from hcontrol]
    rfl

theorem Resumes.noFence (h : v.Resumes p v') (hpending : v.pending = some p)
    (hfence : Rv64AtomicCore.isFence p.decoded.controlType = false) : v'.NoFence := by
  rintro hstate q hq
  cases h with
  | retire | host | vectorDone => rcases hstate with h | h <;> cases h
  | vectorLoad | vectorStore =>
    obtain rfl := Option.some.inj (hpending.symm.trans hq)
    exact hfence

theorem Move.noFence (h : Move k v v') (hv : v.NoFence) : v'.NoFence := by
  cases h with
  | rest => exact hv
  | fault h =>
    rintro hstate
    rw [h.state] at hstate
    rcases hstate with h | h <;> cases h
  | fetch | window => rintro (h | h) <;> cases h
  | countDown hwait | waitFence hwait =>
    rintro (h | h) <;> cases hwait.symm.trans h
  | execute hwait hpending hleft h => exact h.noFence hpending
  | waitIssue hissue => exact fun _ ↦ hv (.inl hissue)
  | send hissue => exact fun _ ↦ hv (.inl hissue)
  | waitResponse hwait => exact fun _ ↦ hv (.inr hwait)
  | respond hwait hpending h => exact h.noFence hpending (hv (.inr hwait) _ hpending)

theorem Move.commits_fence (h : Move k v v') (hv : v.NoFence)
    (hcommitted : v'.committed = v.committed ++ [p])
    (hfence : Rv64AtomicCore.isFence p.decoded.controlType = true) :
    v.state = .executeWait ∧ v'.state = .fetchDecode ∧
      ∃ q, v.pending = some q ∧ Rv64AtomicCore.isFence q.decoded.controlType = true := by
  have hkeeps : ∀ {w : HartCourse}, w.committed = v.committed → w.committed = v.committed ++ [p] →
      False := by
    intro w hw hw'
    have hlength := congrArg List.length (hw.symm.trans hw')
    simp at hlength
  have hdecoded : ∀ {q q' : PendingInstruction}, q'.origin = q.origin →
      v.committed ++ [q'] = v.committed ++ [p] → q.decoded = p.decoded := by
    intro q q' horigin hq'
    obtain rfl := List.singleton_inj.mp (List.append_cancel_left hq')
    exact (congrArg (fun o ↦ o.2.2) horigin).symm
  have habsurd : ∀ {q q' : PendingInstruction}, v.state = .memoryIssue ∨ v.state = .memoryWait →
      v.pending = some q → q'.origin = q.origin → v.committed ++ [q'] = v.committed ++ [p] →
      False := by
    intro q q' hstate hpending horigin hq'
    have hno := hv hstate q hpending
    rw [hdecoded horigin hq', hfence] at hno
    cases hno
  cases h with
  | execute hwait hpending hleft h =>
    cases h with
    | retire hp' =>
      refine ⟨hwait, rfl, _, hpending, ?_⟩
      rwa [hdecoded hp' hcommitted]
    | _ => exact absurd hcommitted (hkeeps rfl)
  | window hissue hpending hp' hactive =>
    exact absurd hcommitted (habsurd (.inl hissue) hpending hp')
  | respond hwait hpending h =>
    cases h with
    | retire hp' | host hp' | vectorDone hp' =>
      exact absurd hcommitted (habsurd (.inr hwait) hpending hp')
    | _ => exact absurd hcommitted (hkeeps rfl)
  | fault h hcommitted' => exact absurd hcommitted (hkeeps hcommitted')
  | _ => exact absurd hcommitted (hkeeps rfl)

end HartCourse

/-! ## The turn of a fence

A tick of a pending fence is a latency cycle exactly when the adapter has nothing to do. The
adapter gets work from register accesses of the core only, and a core in `executeWait` makes none.
-/

namespace Rv64AtomicCore

variable {k : Rv64Hart} {c c' : Rv64AtomicCore} {p : PendingInstruction}

theorem Reachable.noFence (h : Reachable k c) : c.course.NoFence :=
  (h.course_induction (P := HartCourse.NoFence) (by rintro (h | h) <;> cases h)
    fun _ _ _ hv hmove ↦ hmove.noFence hv).2

theorem instruction_of_pending (hpending : c.pending = some p) : c.instruction = p := by
  rw [instruction, hpending, Option.getD_some]

theorem countExecuteWait_of_pos (hleft : 0 < c.cyclesLeft) : c.countExecuteWait =
    { c with
      cyclesLeft := c.cyclesLeft - 1
      stats := { c.stats with executeWaitCycles := c.stats.executeWaitCycles + 1 } } :=
  if_pos hleft

theorem advanceExecute_of_busy (hpending : c.pending = some p)
    (hfence : isFence p.decoded.controlType = true) (hbusy : c.mmio.busy = true) :
    advanceExecute k c = c.countSerializationWait := by
  rw [advanceExecute, instruction_of_pending hpending, hfence, hbusy]
  rfl

theorem execute_fence (hpending : c.pending = some p)
    (hfence : isFence p.decoded.controlType = true) (hidle : c.mmio.busy = false) :
    execute k c = .ok c.commit := by
  rw [execute, instruction_of_pending hpending]
  cases htype : p.decoded.controlType
  case fence | fencei | fenceTso =>
    dsimp only
    rw [hidle]
    rfl
  all_goals
    rw [htype] at hfence
    cases hfence

/-- When the adapter has nothing to do, a fence counts down and commits. -/
theorem advanceExecute_of_idle (hpending : c.pending = some p)
    (hfence : isFence p.decoded.controlType = true) (hidle : c.mmio.busy = false)
    (hleft : 0 < c.cyclesLeft) :
    (c.cyclesLeft = 1 ∧ advanceExecute k c = c.countExecuteWait.commit) ∨
      (1 < c.cyclesLeft ∧ advanceExecute k c = c.countExecuteWait) := by
  have hsame : c.countExecuteWait.pending = some p ∧ c.countExecuteWait.mmio.busy = false ∧
      c.countExecuteWait.cyclesLeft = c.cyclesLeft - 1 := by
    rw [countExecuteWait_of_pos hleft]
    exact ⟨hpending, hidle, rfl⟩
  rw [advanceExecute, hidle, Bool.and_false, if_neg Bool.false_ne_true]
  dsimp only
  rw [hsame.2.2]
  by_cases hone : c.cyclesLeft = 1
  · refine .inl ⟨hone, ?_⟩
    rw [hone, if_pos rfl, executeReadyInstruction, execute_fence hsame.1 hfence hsame.2.1]
    rfl
  · refine .inr ⟨by omega, ?_⟩
    rw [if_neg (by omega)]

theorem fetchDecode_latency (hstate : (fetchDecode k c).state = .executeWait)
    (hpending : (fetchDecode k c).pending = some p) :
    instructionLatency k.arch p.decoded k.latency (fetchDecode k c).vectorContext.vl.toNat =
      .ok (fetchDecode k c).cyclesLeft := by
  set c₁ : Rv64AtomicCore :=
    { c with stats := { c.stats with fetchDecodeCycles := c.stats.fetchDecodeCycles + 1 } } with hc₁
  have hfetch : Ensures (fun c' ↦ c'.state = .executeWait → c'.pending = some p →
      instructionLatency k.arch p.decoded k.latency c'.vectorContext.vl.toNat = .ok c'.cyclesLeft)
      (fun _ ↦ True) (fetch k c₁) := by
    refine ensures_onThrow_bind (fun _ _ ↦ trivial) fun low _ ↦ Ensures.ite (fun _ h ↦ ?_)
      fun _ ↦ ensures_onThrow_bind (fun _ _ ↦ trivial) fun raw _ ↦ ?_
    · cases h
    · split
      · intro h
        cases h
      · next decoded hdecode =>
        refine ensures_onThrow_bind (fun _ _ ↦ trivial) fun cycles hcycles _ hp ↦ ?_
        obtain rfl := Option.some.inj hp
        exact hcycles
  rw [fetchDecode, ← hc₁] at hstate hpending ⊢
  cases hresult : fetch k c₁ with
  | ok c' =>
    rw [hresult] at hstate hpending
    exact hfetch.of_eq_ok hresult hstate hpending
  | error e =>
    rw [hresult] at hstate
    cases hstate

/-- An adapter with nothing to do stays so in its part of a tick. -/
theorem tickMmio_idle {σ : Type} (bus : IBus σ) (port memoryPort : BusPortT) (s : σ)
    (hidle : c.mmio.requests = []) : (c.tickMmio bus k port memoryPort s).1.mmio.requests = [] := by
  rw [tickMmio, MmioBusAdapter.tryTick_of_idle bus port memoryPort s hidle]
  exact hidle

/-- A tick in which a latency cycle of the fence `p` elapses, and `left` are left after it: the core
after the part of its adapter. -/
structure CountsFence (p : PendingInstruction) (left : ℕ) (c : Rv64AtomicCore) : Prop where
  state : c.state = .executeWait
  pending : c.pending = some p
  cyclesLeft : c.cyclesLeft = left + 1
  idle : c.mmio.requests = []

/-- The countdown of a fence: `elapsed e left` is said of the cycle `e + 1` ticks ago. -/
def CountsDown (k : Rv64Hart) (elapsed : PendingInstruction → ℕ → ℕ → Prop) (c : Rv64AtomicCore) :
    Prop :=
  ∀ p, c.state = .executeWait → c.pending = some p → isFence p.decoded.controlType = true →
    ∃ total, instructionLatency k.arch p.decoded k.latency c.vectorContext.vl.toNat = .ok total ∧
      c.cyclesLeft ≤ total ∧ (c.cyclesLeft < total → c.mmio.requests = []) ∧
      ∀ e, c.cyclesLeft + e < total → elapsed p e (c.cyclesLeft + e)

theorem CountsDown.adapter {elapsed : PendingInstruction → ℕ → ℕ → Prop} {σ : Type} (bus : IBus σ)
    (port memoryPort : BusPortT) (s : σ) (h : CountsDown k elapsed c) :
    CountsDown k elapsed (c.tickMmio bus k port memoryPort s).1 := by
  intro p hstate hpending hfence
  have hidle := fun h ↦ tickMmio_idle (k := k) (c := c) bus port memoryPort s h
  obtain ⟨mmio, hc' | ⟨reason, hc'⟩⟩ := @tickMmio_fst k c _ bus port memoryPort s <;>
    rw [hc'] at hstate hpending hidle ⊢
  · obtain ⟨total, hlatency, hle, hrequests, helapsed⟩ := h p hstate hpending hfence
    exact ⟨total, hlatency, hle, fun hlt ↦ hidle (hrequests hlt), helapsed⟩
  · cases hstate

/-- One more cycle of the countdown elapses, or the fence waits before the first one. -/
theorem CountsDown.core {elapsed elapsed' : PendingInstruction → ℕ → ℕ → Prop} {σ : Type}
    {bus : IBus σ} {port memoryPort : BusPortT} {s s' : σ} (h : CountsDown k elapsed c)
    (hreachable : Reachable k c) (hcore : c.tickCore bus k port memoryPort s = .ok (c', s'))
    (hnow : ∀ p left, CountsFence p left c → elapsed' p 0 left)
    (hpast : ∀ p e left, elapsed p e left → elapsed' p (e + 1) left) :
    CountsDown k elapsed' c' := by
  intro p hstate' hpending' hfence
  have hmove : c.course.Move k c'.course :=
    (Turn.core bus port memoryPort s hcore).move hreachable.course_ok
  rcases hmove.before_executeWait hstate' with hwait | hfetch
  · have hstate : c.state = .executeWait := hwait
    have hpending : c.pending = some p := (hmove.pending_eq hwait hstate').symm.trans hpending'
    have hleft : 0 < c.cyclesLeft := hreachable.course_ok.cyclesLeft hwait
    obtain ⟨total, hlatency, hle, hrequests, helapsed⟩ := h p hstate hpending hfence
    rw [tickCore_of_executeWait hstate] at hcore
    obtain rfl := (Prod.mk.inj (Except.ok.inj hcore)).1
    cases hbusy : c.mmio.busy with
    | true =>
      -- the countdown has not begun, for it would have seen an idle adapter
      rw [advanceExecute_of_busy (c := c.countTick) hpending hfence hbusy]
      have htotal : ¬c.cyclesLeft < total := by
        intro hlt
        rw [MmioBusAdapter.busy, hrequests hlt] at hbusy
        cases hbusy
      exact ⟨total, hlatency, hle, fun hlt ↦ absurd hlt htotal,
        fun e he ↦ absurd (Nat.lt_of_le_of_lt (Nat.le_add_right _ e) he) htotal⟩
    | false =>
      have hnone : c.mmio.requests = [] := MmioBusAdapter.requests_of_idle hbusy
      rcases advanceExecute_of_idle (k := k) (c := c.countTick) hpending hfence hbusy hleft with
        ⟨-, heq⟩ | ⟨hmore, heq⟩
      · rw [heq] at hstate'
        cases hstate'
      · rw [heq, countExecuteWait_of_pos (c := c.countTick) hleft]
        change 1 < c.cyclesLeft at hmore
        refine ⟨total, hlatency, (Nat.sub_le c.cyclesLeft 1).trans hle, fun _ ↦ hnone,
          fun e he ↦ ?_⟩
        change c.cyclesLeft - 1 + e < total at he
        change elapsed' p e (c.cyclesLeft - 1 + e)
        cases e with
        | zero => exact hnow p _ ⟨hstate, hpending, by omega, hnone⟩
        | succ e =>
          rw [show c.cyclesLeft - 1 + (e + 1) = c.cyclesLeft + e by omega] at he ⊢
          exact hpast p e _ (helapsed e he)
  · have hstate : c.state = .fetchDecode := hfetch
    rw [tickCore_of_fetchDecode hstate] at hcore
    obtain rfl := (Prod.mk.inj (Except.ok.inj hcore)).1
    exact ⟨_, fetchDecode_latency hstate' hpending', le_rfl, fun hlt ↦ absurd hlt (lt_irrefl _),
      fun e he ↦ absurd he (by omega)⟩

/-- What the commit of a fence says: this is the last cycle of its countdown. -/
theorem CountsDown.commit {elapsed elapsed' : PendingInstruction → ℕ → ℕ → Prop} {σ : Type}
    {bus : IBus σ} {port memoryPort : BusPortT} {s s' : σ} (h : CountsDown k elapsed c)
    (hreachable : Reachable k c) (hcore : c.tickCore bus k port memoryPort s = .ok (c', s'))
    (hcommit : c'.trace.committed = c.trace.committed ++ [p])
    (hfence : isFence p.decoded.controlType = true)
    (hnow : ∀ p left, CountsFence p left c → elapsed' p 0 left)
    (hpast : ∀ p e left, elapsed p e left → elapsed' p (e + 1) left) :
    c'.state = .fetchDecode ∧ c'.memoryRequest = none ∧ c'.mmio.requests = [] ∧
      ∃ total, instructionLatency k.arch p.decoded k.latency c.vectorContext.vl.toNat = .ok total ∧
        ∀ left < total, elapsed' p left left := by
  have hmove : c.course.Move k c'.course :=
    (Turn.core bus port memoryPort s hcore).move hreachable.course_ok
  obtain ⟨hstate, hstate', q, hpending, hqfence⟩ :=
    hmove.commits_fence hreachable.noFence hcommit hfence
  have hleft : 0 < c.cyclesLeft := hreachable.course_ok.cyclesLeft hstate
  obtain ⟨total, hlatency, hle, hrequests, helapsed⟩ := h q hstate hpending hqfence
  rw [tickCore_of_executeWait hstate] at hcore
  obtain rfl := (Prod.mk.inj (Except.ok.inj hcore)).1
  change (advanceExecute k c.countTick).state = .fetchDecode at hstate'
  -- With a busy adapter the fence waits, so it does not commit.
  cases hbusy : c.mmio.busy with
  | true =>
    rw [advanceExecute_of_busy (c := c.countTick) hpending hqfence hbusy] at hstate'
    cases hstate.symm.trans hstate'
  | false =>
    have hnone : c.mmio.requests = [] := MmioBusAdapter.requests_of_idle hbusy
    rcases advanceExecute_of_idle (k := k) (c := c.countTick) hpending hqfence hbusy hleft with
      ⟨hone, heq⟩ | ⟨-, heq⟩
    · rw [heq, countExecuteWait_of_pos (c := c.countTick) hleft] at hcommit ⊢
      change c.cyclesLeft = 1 at hone
      obtain rfl : q = p := by
        have hq : c.trace.committed ++ [c.instruction] = c.trace.committed ++ [p] := hcommit
        rw [instruction_of_pending hpending] at hq
        exact List.singleton_inj.mp (List.append_cancel_left hq)
      refine ⟨rfl, ?_, hnone, total, hlatency, fun left hlt ↦ ?_⟩
      · have hfree : c.course.Free := hreachable.course_ok.free
          (fun h ↦ Rv64CoreState.noConfusion (hstate.symm.trans h))
          (fun h ↦ Rv64CoreState.noConfusion (hstate.symm.trans h))
        exact hfree.request
      · cases left with
        | zero => exact hnow q 0 ⟨hstate, hpending, hone, hnone⟩
        | succ left =>
          have hpast' := helapsed left (by omega)
          rw [show c.cyclesLeft + left = left + 1 by omega] at hpast'
          exact hpast q left _ hpast'
    · rw [heq, countExecuteWait_of_pos (c := c.countTick) hleft] at hstate'
      cases hstate.symm.trans hstate'

end Rv64AtomicCore

/-! ## Every fence of a run -/

namespace Rv64ManycoreSystem

variable {arch : ArchSem} {ord : HashOrder} {program : ProgramImage} {config : Rv64ManycoreConfig}
  {latency : InstructionLatencyConfig} {m : Rv64ManycoreSystem} {s₀ s s₁ s₂ : Rv64SystemState}
  {i k : ℕ} {p : PendingInstruction}

/-- Core `i` in its turn, after the part of its adapter. -/
def afterAdapter (m : Rv64ManycoreSystem) (s : Rv64SystemState) (i : ℕ) : Rv64AtomicCore :=
  ((s.cores i).tickMmio interface (m.hart i) i m.memoryPort s.bus).1

/-- In tick `j` of the run from `s₀` a latency cycle of the fence `p` of hart `i` elapses, and
`left` are left after it. -/
def CountsFence (m : Rv64ManycoreSystem) (s₀ : Rv64SystemState) (i j : ℕ) (p : PendingInstruction)
    (left : ℕ) : Prop :=
  ∃ s s₁, m.ticks j s₀ = .ok s ∧ m.during s i = .ok s₁ ∧ (m.afterAdapter s₁ i).CountsFence p left

/-- Nothing that hart `i` has asked of memory is under way, and memory has served all of it. -/
structure Drained (m : Rv64ManycoreSystem) (s : Rv64SystemState) (i : ℕ) : Prop where
  idle : (s.cores i).mmio.requests = []
  request : (s.cores i).memoryRequest = none
  sent : (s.cores i).trace.sent = (s.cores i).trace.answered.length
  commands : (s.cores i).mmio.stats.completed = (s.cores i).mmio.issued.length
  /-- Each access of an instruction went to the control window or was answered by memory. -/
  accesses : (s.cores i).stats.loads + (s.cores i).stats.stores +
    (s.cores i).stats.vectorMemoryTransactions =
      (s.cores i).trace.windowAccesses + (s.cores i).trace.answered.length
  /-- The answers are those of a memory of bytes that performs the requests in order. -/
  answered : ∀ x ∈ (s.cores i).trace.answered,
    x ∈ history ByteMemory.apply ByteMemory.zero s.memoryController.completed
  asked : (s.cores i).trace.transactions.Perm
    ((s.cores i).trace.answered.map Prod.fst ++ (s.cores i).mmio.commanded (m.hart i).hartId)
  served : (s.cores i).trace.transactions.Perm
    (s.memoryController.completed.filter (fromHart (m.hart i).hartId))
  memory : s.memoryController.memory.toBytes =
    final ByteMemory.apply ByteMemory.zero s.memoryController.completed

/-- A core without a request, with an idle adapter. -/
theorem InAccount.drained (h : m.InAccount s) (hi : i < m.coreCount)
    (hreachable : (s.cores i).Reachable (m.hart i)) (hrunning : (s.cores i).state ≠ .faulted)
    (hwait : (s.cores i).state ≠ .memoryWait) (hrequest : (s.cores i).memoryRequest = none)
    (hidle : (s.cores i).mmio.requests = []) : m.Drained s i := by
  obtain ⟨t, -, hok, hcores⟩ := h
  obtain haccount := (hcores i hi).2.resolve_left hrunning
  obtain ⟨-, -, hsettled⟩ := haccount.settled hwait hidle
  have haccesses := (hreachable.balanced hrunning).prepared
  simp only [Rv64AtomicCore.course, hrequest, Option.isSome_none, Bool.false_eq_true, if_false]
    at haccesses
  exact
    { idle := hidle
      request := hrequest
      sent := hsettled.sent
      commands := hsettled.completed
      accesses := haccesses
      answered := fun x hx ↦ hok.bytes.1 ▸ (List.mem_filter.mp (hsettled.answered x hx)).1
      asked := hsettled.asked
      served := map_fst_logOf .. ▸ hsettled.served
      memory := hok.bytes.2 }

/-- What tick `j` was to the countdown after `k` ticks. -/
abbrev Elapsed (m : Rv64ManycoreSystem) (s₀ : Rv64SystemState) (i k : ℕ) (p : PendingInstruction)
    (e left : ℕ) : Prop :=
  ∃ j, j + e + 1 = k ∧ m.CountsFence s₀ i j p left

/-- The countdown of a fence that is pending after `k` ticks. -/
theorem countsDown_ticks (h : construct arch ord program config latency = .ok (m, s₀))
    (hs : m.ticks k s₀ = .ok s) (hi : i < m.coreCount) :
    (s.cores i).CountsDown (m.hart i) (m.Elapsed s₀ i k) := by
  induction k generalizing s with
  | zero =>
    obtain rfl := Except.ok.inj hs
    have hinitial := congrArg HartCourse.state
      (Rv64AtomicCore.construct_course ((construct_eq_ok h).2.cores i hi))
    exact fun p hstate ↦ Rv64CoreState.noConfusion (hinitial.symm.trans hstate)
  | succ k ih =>
    obtain ⟨s₁, hs₁, htick⟩ := Except.bind_eq_ok_iff.mp hs
    obtain ⟨t₁, t₂, ht₁, ht₂, hbefore, hafter⟩ := exists_turn_of_tick htick hi
    obtain ⟨x', hcore⟩ := tick_of_tickCore ht₂
    have hreachable : (t₁.cores i).Reachable (m.hart i) := hbefore ▸ reachable_ticks h hs₁ hi
    rw [hafter]
    refine ((hbefore ▸ ih hs₁).adapter interface i m.memoryPort t₁.bus).core
      (hreachable.turn (.adapter interface i m.memoryPort t₁.bus)) hcore
      (fun p left hcounts ↦ ⟨k, rfl, s₁, t₁, hs₁, ht₁, hcounts⟩) ?_
    rintro p e left ⟨j, rfl, hj⟩
    exact ⟨j, rfl, hj⟩

/-- A fence that waits for the adapter spends no latency cycle. When it commits, its latency has
elapsed in the last ticks, in all of which the adapter had nothing to do, and memory has served
everything that the hart has asked for. -/
theorem fence_drains (h : construct arch ord program config latency = .ok (m, s₀))
    (hs : m.ticks k s₀ = .ok s) (hi : i < m.coreCount) (hduring : m.during s i = .ok s₁)
    (hturn : m.tickCore s₁ i = .ok s₂) :
    ((m.afterAdapter s₁ i).state = .executeWait →
      Rv64AtomicCore.isFence (m.afterAdapter s₁ i).instruction.decoded.controlType = true →
      (m.afterAdapter s₁ i).mmio.busy = true →
      s₂.cores i = (m.afterAdapter s₁ i).countTick.countSerializationWait) ∧
    ∀ p, (s₂.cores i).trace.committed = (s₁.cores i).trace.committed ++ [p] →
      Rv64AtomicCore.isFence p.decoded.controlType = true →
      m.Drained s₂ i ∧ ∃ total,
        instructionLatency m.arch p.decoded m.latency (s₁.cores i).vectorContext.vl.toNat =
          .ok total ∧
        ∀ left < total, ∃ j, j + left = k ∧ m.CountsFence s₀ i j p left := by
  obtain ⟨x', hcore⟩ := tick_of_tickCore hturn
  have hbefore : s₁.cores i = s.cores i := cores_of_during hduring le_rfl
  have hreachable₁ : (s₁.cores i).Reachable (m.hart i) := hbefore ▸ reachable_ticks h hs hi
  have hreachable : (m.afterAdapter s₁ i).Reachable (m.hart i) :=
    hreachable₁.turn (.adapter interface i m.memoryPort s₁.bus)
  refine ⟨fun hstate hfence hbusy ↦ ?_, fun p hcommit hfence ↦ ?_⟩
  · obtain ⟨q, hpending⟩ := Option.isSome_iff_exists.mp
      (hreachable.course_ok.pending.mpr (.inl hstate))
    rw [Rv64AtomicCore.instruction_of_pending hpending] at hfence
    have hadvance : Rv64AtomicCore.advanceExecute (m.hart i) (m.afterAdapter s₁ i).countTick =
        (m.afterAdapter s₁ i).countTick.countSerializationWait :=
      Rv64AtomicCore.advanceExecute_of_busy (c := (m.afterAdapter s₁ i).countTick)
        hpending hfence hbusy
    have hresult := (Rv64AtomicCore.tickCore_of_executeWait hstate).symm.trans hcore
    rw [hadvance] at hresult
    exact (Prod.mk.inj (Except.ok.inj hresult)).1.symm
  · -- the adapter's part neither commits nor changes the vector length
    have hsame : (m.afterAdapter s₁ i).trace.committed = (s₁.cores i).trace.committed ∧
        (m.afterAdapter s₁ i).vectorContext = (s₁.cores i).vectorContext := by
      rw [afterAdapter]
      obtain ⟨mmio, hc | ⟨reason, hc⟩⟩ := @Rv64AtomicCore.tickMmio_fst (m.hart i) (s₁.cores i) _
        interface i m.memoryPort s₁.bus <;> rw [hc] <;> exact ⟨rfl, rfl⟩
    rw [← hsame.1] at hcommit
    -- The countdown reaches back to the first latency cycle, and the account says what is drained.
    have hcounts : (m.afterAdapter s₁ i).CountsDown (m.hart i) (m.Elapsed s₀ i k) :=
      (hbefore ▸ countsDown_ticks h hs hi).adapter interface i m.memoryPort s₁.bus
    obtain ⟨hstate, hrequest, hidle, total, hlatency, helapsed⟩ :=
      @Rv64AtomicCore.CountsDown.commit _ _ _ _ _ (m.Elapsed s₀ i (k + 1)) _ _ _ _ _ _ hcounts
        hreachable hcore hcommit hfence
        (fun p left hnow ↦ ⟨k, rfl, s, s₁, hs, hduring, hnow⟩)
        (by
          rintro p e left ⟨j, rfl, hj⟩
          exact ⟨j, rfl, hj⟩)
    have haccount : m.InAccount s₂ :=
      (((inAccount_ticks h hs).during hi.le hduring).tickCore hi hturn).1
    refine ⟨haccount.drained hi (Rv64AtomicCore.reachable_tick hreachable₁ hcore) ?_ ?_
        hrequest hidle,
      total, ?_, fun left hleft ↦ ?_⟩
    · exact fun h ↦ Rv64CoreState.noConfusion (hstate.symm.trans h)
    · exact fun h ↦ Rv64CoreState.noConfusion (hstate.symm.trans h)
    · rw [← hsame.2]
      exact hlatency
    · obtain ⟨j, hj, hcounts'⟩ := helapsed left hleft
      exact ⟨j, by omega, hcounts'⟩

/-! ## A store, a command and a fence -/

/-- A hart has its adapter write 2 to address `0x1000`, stores 2 to address 0 itself and runs a
fence: the system, its first state, its state after `k` ticks, and the turn of the hart in the next
tick. -/
def fencedTurn (k : ℕ) : Except String (Rv64ManycoreSystem × Rv64SystemState × Rv64SystemState ×
    Rv64SystemState × Rv64SystemState) := do
  let built ← construct Rv64AtomicCore.decodingArch .insertion
    (.fromWords [0x10000297, 0xc1017357, 0x0062b423, 0x000013b7, 0x0072b023, 0x00602023,
      0x0062bc23, 0x0000000f, 0x00000073])
    { coreCount := 1, sharedBus := true, memoryLatency := 1 } {}
  let s ← built.1.ticks k built.2
  let s₁ ← built.1.during s 0
  let s₂ ← built.1.tickCore s₁ 0
  return (built.1, built.2, s, s₁, s₂)

/-- The turn commits a fence that has waited for a command, and the bytes are in the memory. -/
def commitsFence (r : Rv64ManycoreSystem × Rv64SystemState × Rv64SystemState × Rv64SystemState ×
    Rv64SystemState) : Bool :=
  let c := r.2.2.2.2.cores 0
  let p := c.trace.committed.getLastD {}
  let memory := r.2.2.2.2.memoryController.memory
  decide (0 < r.1.coreCount) &&
    (decide (c.trace.committed = (r.2.2.2.1.cores 0).trace.committed ++ [p]) &&
      (decide (p.decoded.controlType = .fence) &&
        (c.stats.adapterSerializationWaitCycles == 9 && (c.mmio.stats.completed == 1 &&
          (memory.toBytes 0 == 2 && memory.toBytes 0x1000 == 2)))))

/-- The fence waits nine cycles for the command and commits in tick 39. The store and the write of
the adapter are in the memory then. -/
theorem fence_drains_command : ∃ m s₀ s s₁ s₂ p, fencedTurn 38 = .ok (m, s₀, s, s₁, s₂) ∧
    p.decoded.controlType = .fence ∧ (s₂.cores 0).stats.adapterSerializationWaitCycles = 9 ∧
    (s₂.cores 0).mmio.stats.completed = 1 ∧ s₂.memoryController.memory.toBytes 0 = 2 ∧
    s₂.memoryController.memory.toBytes 0x1000 = 2 ∧ m.Drained s₂ 0 ∧ ∃ total,
      instructionLatency m.arch p.decoded m.latency (s₁.cores 0).vectorContext.vl.toNat =
        .ok total ∧
      ∀ left < total, ∃ j, j + left = 38 ∧ m.CountsFence s₀ 0 j p left := by
  have hends : (fencedTurn 38).map commitsFence = .ok true := by decide +kernel
  obtain ⟨r, hr, hcommits⟩ := Except.map_eq_ok_iff.mp hends
  simp only [commitsFence, Bool.and_eq_true, decide_eq_true_eq, beq_iff_eq] at hcommits
  obtain ⟨hcount, hcommitted, htype, hwaited, hcompleted, hstored, hwritten⟩ := hcommits
  -- the steps of which the turn is made
  have hturn := hr
  rw [fencedTurn] at hturn
  obtain ⟨built, hconstruct, hturn⟩ := Except.bind_eq_ok_iff.mp hturn
  obtain ⟨s, hs, hturn⟩ := Except.bind_eq_ok_iff.mp hturn
  obtain ⟨s₁, hs₁, hturn⟩ := Except.bind_eq_ok_iff.mp hturn
  obtain ⟨s₂, hs₂, hturn⟩ := Except.bind_eq_ok_iff.mp hturn
  obtain rfl := Except.ok.inj hturn
  have hdrains := (fence_drains hconstruct hs hcount hs₁ hs₂).2 _ hcommitted (by rw [htype]; rfl)
  exact ⟨_, _, _, _, _, _, hr, htype, hwaited, hcompleted, hstored, hwritten, hdrains⟩

end Rv64ManycoreSystem

end Manycore
