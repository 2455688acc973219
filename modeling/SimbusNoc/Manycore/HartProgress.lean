import SimbusNoc.Library.Variant
import SimbusNoc.Manycore.AccountTurn
import SimbusNoc.Manycore.BusLoad
import SimbusNoc.Manycore.HartMoves
import SimbusNoc.Manycore.Rv64Safety

/-!
# The progress of a hart

In its turn a hart on a shared bus fetches, prepares a request, retires an instruction or finishes
a command of its adapter. Otherwise it does some of the work until then, or it rests: it has
halted, the bus does not take what it sends, or it waits for a response that is not there.

## Achievements and work

`achieved` only grows: instructions fetched, requests prepared, instructions retired, commands
finished. A program may run for ever, so no measure falls along all of a run. `work` is the
distance to the next achievement: the countdown, the cycles before a request is sent, and the cost
of the requests that are still to be sent. `Advance` compares both at once: more has been achieved,
or the work has fallen, or the hart rests and has changed nothing.

## The proofs

The adapter's half of a tick and the core's are looked at one after the other, and in the latter
each state has its own lemma. What a hart achieves is read off the move of its course; only the
work needs the turns themselves. `tick_advance` is what the system's progress uses.
-/

namespace Manycore

open Simbus Variant

/-! ## The course -/

namespace HartCourse

variable {k : Rv64Hart} {v v' : HartCourse} {p : PendingInstruction}

/-- The instructions fetched, the requests prepared, the instructions retired, and the halt. -/
def achieved (v : HartCourse) : ℕ :=
  v.fetched.length + v.prepared + v.committed.length + if v.state = .halted then 1 else 0

theorem Ends.achieves (h : v.Ends p v') (hstate : v.state ≠ .halted) :
    v.achieved < v'.achieved := by
  cases h with
  | retire hp' isLoad => simp [achieved, HartCourse.retire, hstate]
  | halt hcontrol => simp [achieved, HartCourse.halt, hstate]
  | scalar hcontrol => simp [achieved, ask, hstate]
  | vectorLoad hcontrol hsize => simp [achieved, ask, hstate]
  | vectorStore hcontrol => simp [achieved, ask, hstate]

theorem Resumes.achieves (h : v.Resumes p v') (hstate : v.state ≠ .halted) :
    v.achieved < v'.achieved := by
  cases h with
  | retire hp' hactive => simp [achieved, HartCourse.retire, answered, hstate]
  | @host p' hp' hactive =>
    have hlength : (v.committed ++ [p']).length = v.committed.length + 1 := List.length_append
    change _ < v.fetched.length + v.prepared + (v.committed ++ [p']).length + 1
    rw [achieved, if_neg hstate, hlength]
    omega
  | vectorLoad hactive hisLoad hsize => simp [achieved, ask, hstate]
  | vectorStore hactive hisLoad => simp [achieved, ask, hstate]
  | vectorDone hp' hactive hload => simp [achieved, HartCourse.retire, answered, hstate]

/-- A hart that leaves its state has achieved something, unless it sends a request. -/
theorem Move.achieves (h : Move k v v') (hne : v'.state ≠ v.state) (hrunning : v'.state ≠ .faulted)
    (hsend : v.state = .memoryIssue → v'.state ≠ .memoryWait) : v.achieved < v'.achieved := by
  cases h with
  | rest => exact absurd rfl hne
  | fault h hcommitted => exact absurd h.state hrunning
  | fetch hstate hlatency => simp [achieved, HartCourse.tick, count, hstate]
  | countDown hstate hleft => exact absurd rfl hne
  | waitFence hstate hpending hfence => exact absurd rfl hne
  | execute hstate hpending hleft h =>
    exact h.achieves (by rw [show v.ready.state = .executeWait from hstate]; decide)
  | waitIssue hstate hcls => exact absurd rfl hne
  | window hstate hpending hp' hactive =>
    simp [achieved, HartCourse.retire, answered, HartCourse.tick, count, hstate]
  | send hstate => exact absurd rfl (hsend hstate)
  | waitResponse hstate => exact absurd rfl hne
  | respond hstate hpending h =>
    exact h.achieves (by rw [show (v.tick .response).state = .memoryWait from hstate]; decide)

end HartCourse

/-! ## The adapter

An adapter with a request that it has not sent can send it, unless the bus refuses. One that has
sent all of them waits for responses.
-/

namespace MmioBusAdapter

open Interconnect

variable {hart : UInt32} {n i cost sendCost : ℕ} {a a' : MmioBusAdapter} {x x' : Interconnect}

/-- The number of requests that the bus has not taken. -/
def unsentCount (a : MmioBusAdapter) : ℕ := a.requests.countP fun e ↦ !e.sent

theorem unsentCount_markSent {e : MmioEntry} (he : a.unsent = some e) :
    unsentCount { a with requests := markSent a.requests } + 1 = a.unsentCount := by
  rw [unsentCount, unsentCount, List.countP_eq_length_filter, List.countP_eq_length_filter,
    HartView.filter_markSent he, List.length_cons]

/-- The first half of a tick sends a request, or there is none, or the bus does not take it. -/
theorem sendUnsent_advance (hx : Measured n x) (hcost : sendCost = x.cycles + cost + 1)
    (h : sendUnsent interface.toBusInterfaceV2 i n a x = .ok (a', x')) :
    Measured n x' ∧ x'.cycles = x.cycles ∧
      Advance ((a.unsent = none ∨ Refuses i n requestChannel x) ∧ Alike x x' ∧
          a'.requests = a.requests)
        a.finished.length (a.unsentCount * sendCost + x.load n cost)
        a'.finished.length (a'.unsentCount * sendCost + x'.load n cost) := by
  rw [sendUnsent] at h
  cases hunsent : a.unsent with
  | none =>
    rw [hunsent] at h
    obtain ⟨rfl, rfl⟩ := Prod.mk.inj (Except.ok.inj h)
    exact ⟨hx, rfl, .rests rfl rfl ⟨.inl rfl, hx.alike_refl, rfl⟩⟩
  | some e =>
    rw [hunsent] at h
    obtain ⟨can, hcan, h⟩ := Except.bind_eq_ok_iff.mp h
    cases can with
    | false =>
      obtain ⟨rfl, rfl⟩ := Prod.mk.inj (Except.ok.inj h)
      exact ⟨hx, rfl, .rests rfl rfl ⟨.inr (hx.refuses_of_canSend hcan n _), hx.alike_refl, rfl⟩⟩
    | true =>
      obtain ⟨bytes, -, h⟩ := Except.bind_eq_ok_iff.mp h
      obtain ⟨⟨accepted, x₁⟩, hsend, h⟩ := Except.bind_eq_ok_iff.mp h
      cases accepted with
      | false =>
        obtain ⟨rfl, rfl⟩ := Prod.mk.inj (Except.ok.inj h)
        obtain ⟨hx', halike, hrefuses⟩ := hx.refuse hsend
        refine ⟨hx', halike.cycles_eq, .rests rfl ?_ ⟨.inr hrefuses, halike, rfl⟩⟩
        rw [halike.load_eq]
        rfl
      | true =>
        obtain ⟨rfl, rfl⟩ := Prod.mk.inj (Except.ok.inj h)
        obtain ⟨hx', hcycles, hload⟩ := @Measured.sendRequest n cost i x x₁ bytes hx hsend
        refine ⟨hx', hcycles, .works rfl ?_⟩
        rw [hload, ← unsentCount_markSent hunsent, Nat.add_mul, Nat.one_mul]
        omega

/-- The second half of a tick takes a response, or it waits for none, or there is none. -/
theorem receive_advance (hx : Measured n x) (hi : i < n)
    (h : receive interface.toBusInterfaceV2 hart i a x = .ok (a', x')) :
    Measured n x' ∧ x'.cycles = x.cycles ∧
      Advance ((a.requests = [] ∨ Vacant i responseChannel x) ∧ Alike x x' ∧
          a'.requests = a.requests)
        a.finished.length (a.unsentCount * sendCost + x.load n cost)
        a'.finished.length (a'.unsentCount * sendCost + x'.load n cost) := by
  rw [receive] at h
  cases hbusy : a.busy with
  | false =>
    rw [hbusy] at h
    obtain ⟨rfl, rfl⟩ := Prod.mk.inj (Except.ok.inj h)
    exact ⟨hx, rfl, .rests rfl rfl ⟨.inl (requests_of_idle hbusy), hx.alike_refl, rfl⟩⟩
  | true =>
    rw [hbusy] at h
    obtain ⟨can, hcan, h⟩ := Except.bind_eq_ok_iff.mp h
    cases can with
    | false =>
      obtain ⟨rfl, rfl⟩ := Prod.mk.inj (Except.ok.inj h)
      exact ⟨hx, rfl, .rests rfl rfl ⟨.inr (hx.vacant_of_canRecv hcan), hx.alike_refl, rfl⟩⟩
    | true =>
      obtain ⟨⟨data, x₁⟩, hrecv, h⟩ := Except.bind_eq_ok_iff.mp h
      cases data with
      | none =>
        obtain ⟨rfl, rfl⟩ := Prod.mk.inj (Except.ok.inj h)
        obtain ⟨hvacant, rfl⟩ := hx.recv_none hrecv
        exact ⟨hx, rfl, .rests rfl rfl ⟨.inr hvacant, hx.alike_refl, rfl⟩⟩
      | some bytes =>
        obtain ⟨hx', hcycles, -⟩ := @Measured.takeResponse n cost i x x₁ bytes hx hi hrecv
        obtain ⟨r, -, h⟩ := Except.bind_eq_ok_iff.mp h
        cases hfind : a.requests.find? (answeredBy r.transactionId) with
        | none =>
          simp only [hfind] at h
          cases h
        | some e =>
          simp only [hfind] at h
          obtain ⟨_, -, h⟩ := Except.bind_eq_ok_iff.mp h
          obtain ⟨rfl, rfl⟩ := Prod.mk.inj (Except.ok.inj h)
          have hfinished : (a.complete e r).finished = a.finished ++ [e.request] :=
            congrArg (· ++ [e.request]) (takeData_same a e r).finished
          -- A response that is taken finishes a command.
          refine ⟨hx', hcycles, .achieves ?_⟩
          rw [hfinished, List.length_append]
          exact Nat.lt_succ_self _

/-- The adapter can neither send nor receive. -/
structure Rests (n i : ℕ) (x : Interconnect) (a : MmioBusAdapter) : Prop where
  sends : a.unsent = none ∨ Refuses i n requestChannel x
  receives : a.requests = [] ∨ Vacant i responseChannel x

theorem tryTick_advance (hx : Measured n x) (hi : i < n) (hcost : sendCost = x.cycles + cost + 1)
    (h : tryTick interface hart i n a x = (none, a', x')) :
    Measured n x' ∧ x'.cycles = x.cycles ∧
      Advance (a.Rests n i x ∧ Alike x x' ∧ a'.requests = a.requests)
        a.finished.length (a.unsentCount * sendCost + x.load n cost)
        a'.finished.length (a'.unsentCount * sendCost + x'.load n cost) := by
  rw [tryTick] at h
  cases hsend : sendUnsent interface.toBusInterfaceV2 i n { a with clock := a.clock + 1 } x with
  | error reason =>
    rw [hsend] at h
    cases h
  | ok result =>
    obtain ⟨a₁, x₁⟩ := result
    rw [hsend] at h
    dsimp only at h
    cases hreceive : receive interface.toBusInterfaceV2 hart i a₁ x₁ with
    | error reason =>
      rw [hreceive] at h
      cases h
    | ok result =>
      obtain ⟨a₂, x₂⟩ := result
      rw [hreceive] at h
      obtain ⟨rfl, rfl⟩ := Prod.mk.inj (Prod.mk.inj h).2
      obtain ⟨hx₁, hcycles₁, hadvance₁⟩ := sendUnsent_advance hx hcost hsend
      obtain ⟨hx₂, hcycles₂, hadvance₂⟩ := receive_advance hx₁ hi hreceive
      refine ⟨hx₂, hcycles₂.trans hcycles₁, (hadvance₁.trans hadvance₂).mono ?_⟩
      rintro ⟨⟨hsends, halike₁, hrequests₁⟩, hreceives, halike₂, hrequests₂⟩
      refine ⟨⟨hsends, hreceives.imp (hrequests₁.symm.trans ·) halike₁.vacant⟩,
        halike₁.trans halike₂, hrequests₂.trans hrequests₁⟩

end MmioBusAdapter

/-! ## The core -/

namespace Rv64AtomicCore

open Interconnect

variable {k : Rv64Hart} {n i cost sendCost : ℕ} {c c' : Rv64AtomicCore} {x x' : Interconnect}

/-- The achievements of a hart: those of its course, and the commands that its adapter has
finished. -/
def achieved (c : Rv64AtomicCore) : ℕ := c.course.achieved + c.mmio.finished.length

/-- The work of the core itself until its next achievement. -/
def coreWork (sendCost : ℕ) (c : Rv64AtomicCore) : ℕ :=
  if c.state = .executeWait then c.cyclesLeft
  else if c.state = .memoryIssue then c.vectorIssueLeft + sendCost
  else 0

/-- The work of a hart until its next achievement, with the cost of a request that it sends. -/
def work (sendCost : ℕ) (c : Rv64AtomicCore) : ℕ :=
  c.mmio.unsentCount * sendCost + c.coreWork sendCost

/-- The core has no way to go on. -/
inductive CoreRests (n i : ℕ) (x : Interconnect) (c : Rv64AtomicCore) : Prop
  | halted (hstate : c.state = .halted)
  | awaits (hstate : c.state = .memoryWait) (hvacant : Vacant i responseChannel x)
  | serialized (hstate : c.state = .executeWait ∨ c.state = .memoryIssue)
      (hbusy : c.mmio.requests ≠ [])
  | refused (hstate : c.state = .memoryIssue) (hrefuses : Refuses i n requestChannel x)

theorem CoreRests.alike (h : c'.CoreRests n i x') (halike : Alike x x')
    (hstate : c'.state = c.state)
    (hrequests : c'.mmio.requests = c.mmio.requests) : c.CoreRests n i x := by
  cases h with
  | halted hstate' => exact .halted (hstate.symm.trans hstate')
  | awaits hstate' hvacant => exact .awaits (hstate.symm.trans hstate') (halike.vacant hvacant)
  | serialized hstate' hbusy => exact .serialized (hstate ▸ hstate') (hrequests ▸ hbusy)
  | refused hstate' hrefuses =>
    exact .refused (hstate.symm.trans hstate') (halike.refuses hrefuses)

/-- In `fetchDecode` a core goes on to the countdown of an instruction, or it faults. -/
theorem state_fetchDecode (k : Rv64Hart) (c : Rv64AtomicCore) :
    (fetchDecode k c).state = .executeWait ∨ (fetchDecode k c).state = .faulted := by
  have hfetch : ∀ c₁ : Rv64AtomicCore, Throwing.Ensures
      (fun c' ↦ c'.state = .executeWait ∨ c'.state = .faulted) (fun _ ↦ True) (fetch k c₁) := by
    intro c₁
    refine ensures_onThrow_bind (fun _ _ ↦ trivial) fun low _ ↦ ?_
    refine Throwing.Ensures.ite (fun _ ↦ .inr rfl) fun _ ↦ ?_
    refine ensures_onThrow_bind (fun _ _ ↦ trivial) fun raw _ ↦ ?_
    cases k.arch.decode raw with
    | none => exact .inr rfl
    | some decoded => exact ensures_onThrow_bind (fun _ _ ↦ trivial) fun _ _ ↦ .inl rfl
  rw [fetchDecode]
  set c₁ : Rv64AtomicCore := { c with stats := { c.stats with
    fetchDecodeCycles := c.stats.fetchDecodeCycles + 1 } }
  cases hresult : fetch k c₁ with
  | ok c' => exact (hfetch c₁).of_eq_ok hresult
  | error e => exact .inr rfl

theorem state_accessWindow (k : Rv64Hart) (c : Rv64AtomicCore) :
    (recover (accessWindow k c)).state = .fetchDecode ∨
      (recover (accessWindow k c)).state = .faulted := by
  have haccess : Throwing.Ensures (fun c' ↦ c'.state = .fetchDecode) (fun _ ↦ True)
      (accessWindow k c) := by
    refine ensures_onThrow_bind (fun _ _ ↦ trivial) fun _ _ ↦ ?_
    refine Throwing.Ensures.ite (fun _ ↦ ?_) fun _ ↦ ?_
    · exact ensures_onThrow_bind (fun _ _ ↦ trivial) fun _ _ ↦ rfl
    · exact ensures_onThrow_bind (fun _ _ ↦ trivial) fun _ _ ↦ rfl
  cases hresult : accessWindow k c with
  | ok c' => exact .inl (haccess.of_eq_ok hresult)
  | error e => exact .inr rfl

/-- What a core does on its own finishes no command of the adapter. -/
theorem finished_of_does (h : Does k c c' ∨ Faults c c') :
    c'.mmio.finished = c.mmio.finished := by
  rcases h with hdoes | ⟨reason, c₁, rfl, hmmio, -⟩
  · rcases hdoes.works.mmio with hsame | ⟨address, size, value, hwrite⟩
    · exact congrArg MmioBusAdapter.finished hsame
    · exact (MmioBusAdapter.wrote_of_write hwrite).finished
  · exact congrArg MmioBusAdapter.finished hmmio

/-! ### The work of a core that has a request to send -/

theorem work_of_memoryIssue (hstate : c.state = .memoryIssue) :
    c.work sendCost = c.mmio.unsentCount * sendCost + (c.vectorIssueLeft + sendCost) := by
  rw [work, coreWork, hstate, if_neg Rv64CoreState.noConfusion, if_pos rfl]

theorem work_countVectorIssueWait (hstate : c.state = .memoryIssue)
    (hissue : 0 < c.vectorIssueLeft) :
    c.countTick.countVectorIssueWait.work sendCost + 1 = c.work sendCost := by
  rw [work_of_memoryIssue hstate,
    work_of_memoryIssue (c := c.countTick.countVectorIssueWait) hstate]
  change c.mmio.unsentCount * sendCost + (c.vectorIssueLeft - 1 + sendCost) + 1 = _
  omega

theorem mmio_startRequest (c : Rv64AtomicCore) : c.startRequest.mmio = c.mmio := by
  rw [startRequest]
  split <;> rfl

theorem achieved_startRequest (c : Rv64AtomicCore) :
    c.countTick.startRequest.achieved = c.achieved := by
  rw [achieved, achieved, course_startRequest, mmio_startRequest]
  rfl

theorem work_startRequest (hstate : c.state = .memoryIssue) :
    c.countTick.startRequest.work sendCost = c.work sendCost := by
  have hstate' : c.countTick.startRequest.state = .memoryIssue :=
    (congrArg HartCourse.state (course_startRequest c.countTick)).trans hstate
  have hissue : c.countTick.startRequest.vectorIssueLeft = c.vectorIssueLeft := by
    rw [startRequest]
    split <;> rfl
  rw [work_of_memoryIssue hstate, work_of_memoryIssue hstate', hissue, mmio_startRequest]
  rfl

section Turn

variable (hok : c.view.Ok k.hartId) (hcourse : c.course.Ok)
include hok hcourse

theorem advanceExecute_advance (load : ℕ) (hstate : c.state = .executeWait)
    (hc' : c' = advanceExecute k c.countTick) (hrunning : c'.state ≠ .faulted) :
    Advance (c.mmio.requests ≠ []) c.achieved (c.work sendCost + load)
      c'.achieved (c'.work sendCost + load) := by
  have hfinished : c'.mmio.finished = c.mmio.finished := by
    rw [hc']
    exact @finished_of_does k c.countTick _ (advanceExecute_spec hok hstate)
  obtain ⟨p, hpending⟩ := Option.isSome_iff_exists.mp (hcourse.pending.mpr (.inl hstate))
  have hleft : 1 ≤ c.cyclesLeft := hcourse.cyclesLeft hstate
  have hinactive : c.vectorMemoryActive = false :=
    (hcourse.free (by simp [course, hstate]) (by simp [course, hstate])).vectorActive
  rw [advanceExecute, instruction, show c.countTick.pending = some p from hpending,
    Option.getD_some] at hc'
  by_cases hfence : (isFence p.decoded.controlType && c.countTick.mmio.busy) = true
  · -- a fence waits for the adapter
    rw [if_pos hfence] at hc'
    rw [Bool.and_eq_true] at hfence
    subst hc'
    refine .rests rfl rfl fun hnil ↦ ?_
    rw [show c.countTick.mmio.busy = c.mmio.busy from rfl, MmioBusAdapter.busy, hnil] at hfence
    cases hfence.2
  rw [if_neg hfence] at hc'
  dsimp only at hc'
  set c₀ := c.countTick.countExecuteWait with hc₀
  have hcourse₀ : c₀.course = { c.course.tick .executeWait with cyclesLeft :=
    c.cyclesLeft - 1 } := by
    rw [hc₀, course_countExecuteWait (c := c.countTick) hleft]
    rfl
  have hcycles : c₀.cyclesLeft = c.cyclesLeft - 1 := congrArg HartCourse.cyclesLeft hcourse₀
  have hmmio : c₀.mmio = c.mmio := by
    rw [hc₀, countExecuteWait]
    split <;> rfl
  by_cases hzero : c₀.cyclesLeft = 0
  · -- the instruction is executed
    rw [if_pos hzero, executeReadyInstruction] at hc'
    have hready : c₀.course = c.course.ready := by rw [hcourse₀, ← hcycles, hzero]; rfl
    have hbusy : isFence p.decoded.controlType = true → c₀.mmio.busy = false := fun h ↦ by
      rw [h, Bool.true_and] at hfence
      exact hmmio ▸ Bool.eq_false_of_not_eq_true hfence
    have hends := @execute_ends k c₀ p ((congrArg HartCourse.pending hcourse₀).trans hpending)
      ((congrArg HartCourse.vectorActive hcourse₀).trans hinactive) hbusy
    cases hexecute : execute k c₀ with
    | error e =>
      rw [hc', hexecute] at hrunning
      exact absurd rfl hrunning
    | ok c₁ =>
      rw [hexecute] at hc'
      obtain rfl : c' = c₁ := hc'
      rw [hready, hexecute] at hends
      have hends' : c.course.ready.Ends p c'.course := hends
      have hachieves := hends'.achieves (by
        rw [show c.course.ready.state = .executeWait from hstate]
        decide)
      refine .achieves ?_
      rw [achieved, achieved, hfinished]
      exact Nat.add_lt_add_right hachieves _
  · -- the countdown goes on
    rw [if_neg hzero] at hc'
    subst hc'
    have hstate₀ : c₀.state = .executeWait := (congrArg HartCourse.state hcourse₀).trans hstate
    refine .works ?_ ?_
    · rw [achieved, achieved, hcourse₀, hmmio]
      rfl
    · rw [work, work, coreWork, coreWork, if_pos hstate₀, if_pos hstate, hmmio]
      omega

theorem accessWindow_achieves (hstate : c.state = .memoryIssue)
    (hrunning : (recover (accessWindow k c.countTick)).state ≠ .faulted) :
    c.achieved < (recover (accessWindow k c.countTick)).achieved := by
  have hfetch : (recover (accessWindow k c.countTick)).state = .fetchDecode :=
    (state_accessWindow k c.countTick).resolve_right hrunning
  have hachieves := (accessWindow_move (k := k) hcourse hstate).achieves
    (by
      change (recover (accessWindow k c.countTick)).state ≠ c.state
      rw [hfetch, hstate]
      decide)
    hrunning
    (fun _ ↦ by
      change (recover (accessWindow k c.countTick)).state ≠ .memoryWait
      rw [hfetch]
      decide)
  have hfinished := @finished_of_does k c.countTick _
    (recover_spec (accessWindow_spec (c := c.countTick) hok hstate))
  rw [achieved, achieved, hfinished]
  exact Nat.add_lt_add_right hachieves _

theorem issueMemoryRequest_advance (hx : Measured n x) (hcost : sendCost = x.cycles + cost + 1)
    (hstate : c.state = .memoryIssue) (hrunning : c'.state ≠ .faulted)
    (h : issueMemoryRequest interface k i n c.countTick x = .ok (c', x')) :
    Measured n x' ∧ x'.cycles = x.cycles ∧
      Advance (c.CoreRests n i x ∧ Alike x x') c.achieved (c.work sendCost + x.load n cost)
        c'.achieved (c'.work sendCost + x'.load n cost) := by
  rw [issueMemoryRequest] at h
  by_cases hissue : 0 < c.countTick.vectorIssueLeft
  · rw [if_pos hissue] at h
    obtain ⟨rfl, rfl⟩ := Prod.mk.inj (Except.ok.inj h)
    refine ⟨hx, rfl, .works rfl ?_⟩
    have hwork : c.countTick.countVectorIssueWait.work sendCost + 1 = c.work sendCost :=
      work_countVectorIssueWait hstate hissue
    omega
  rw [if_neg hissue] at h
  by_cases hwindow : touchesWindow c.countTick.request = true
  · rw [if_pos hwindow] at h
    obtain ⟨rfl, rfl⟩ := Prod.mk.inj (Except.ok.inj h)
    exact ⟨hx, rfl, .achieves (accessWindow_achieves hok hcourse hstate hrunning)⟩
  rw [if_neg hwindow] at h
  by_cases hbusy : c.countTick.mmio.busy = true
  · rw [if_pos hbusy] at h
    obtain ⟨rfl, rfl⟩ := Prod.mk.inj (Except.ok.inj h)
    refine ⟨hx, rfl, .rests rfl rfl ⟨.serialized (.inr hstate) fun hnil ↦ ?_, hx.alike_refl⟩⟩
    rw [show c.countTick.mmio = c.mmio from rfl, MmioBusAdapter.busy, hnil] at hbusy
    cases hbusy
  rw [if_neg hbusy] at h
  dsimp only at h
  have hachieved := achieved_startRequest c
  have hwork : c.countTick.startRequest.work sendCost = c.work sendCost := work_startRequest hstate
  have hstate' : c.countTick.startRequest.state = .memoryIssue :=
    (congrArg HartCourse.state (course_startRequest c.countTick)).trans hstate
  -- the interconnect takes the request or refuses it
  obtain ⟨can, hcan, h⟩ := Except.bind_eq_ok_iff.mp h
  cases can with
  | false =>
    obtain ⟨rfl, rfl⟩ := Prod.mk.inj (Except.ok.inj h)
    exact ⟨hx, rfl, .rests hachieved.symm (congrArg (· + _) hwork.symm)
      ⟨.refused hstate (hx.refuses_of_canSend hcan n _), hx.alike_refl⟩⟩
  | true =>
    obtain ⟨bytes, -, h⟩ := Except.bind_eq_ok_iff.mp h
    obtain ⟨⟨accepted, x₁⟩, hsend, h⟩ := Except.bind_eq_ok_iff.mp h
    cases accepted with
    | false =>
      obtain ⟨rfl, rfl⟩ := Prod.mk.inj (Except.ok.inj h)
      obtain ⟨hx', halike, hrefuses⟩ := hx.refuse hsend
      refine ⟨hx', halike.cycles_eq, .rests hachieved.symm ?_ ⟨.refused hstate hrefuses, halike⟩⟩
      rw [halike.load_eq]
      exact congrArg (· + _) hwork.symm
    | true =>
      obtain ⟨rfl, rfl⟩ := Prod.mk.inj (Except.ok.inj h)
      obtain ⟨hx', hcycles, hload⟩ := @Measured.sendRequest n cost i x x₁ bytes hx hsend
      refine ⟨hx', hcycles, .works ?_ ?_⟩
      · have hgoes : c.countTick.startRequest.course.state ≠ .halted := fun hhalted ↦
          Rv64CoreState.noConfusion (hhalted.symm.trans hstate')
        rw [← hachieved, achieved, achieved, HartCourse.achieved, HartCourse.achieved,
          if_neg hgoes, if_neg Rv64CoreState.noConfusion]
        rfl
      · rw [hload, ← hwork, work_of_memoryIssue hstate', work, coreWork,
          if_neg Rv64CoreState.noConfusion, if_neg Rv64CoreState.noConfusion]
        dsimp only
        omega

theorem receiveMemoryResponse_advance (hx : Measured n x) (hi : i < n)
    (hstate : c.state = .memoryWait)
    (hrunning : c'.state ≠ .faulted)
    (h : receiveMemoryResponse interface k i c.countTick x = .ok (c', x')) :
    Measured n x' ∧ x'.cycles = x.cycles ∧
      Advance (c.CoreRests n i x ∧ Alike x x') c.achieved (c.work sendCost + x.load n cost)
        c'.achieved (c'.work sendCost + x'.load n cost) := by
  rw [receiveMemoryResponse] at h
  obtain ⟨can, hcan, h⟩ := Except.bind_eq_ok_iff.mp h
  cases can with
  | false =>
    obtain ⟨rfl, rfl⟩ := Prod.mk.inj (Except.ok.inj h)
    exact ⟨hx, rfl, .rests rfl rfl ⟨.awaits hstate (hx.vacant_of_canRecv hcan), hx.alike_refl⟩⟩
  | true =>
    obtain ⟨⟨data, x₁⟩, hrecv, h⟩ := Except.bind_eq_ok_iff.mp h
    cases data with
    | none =>
      obtain ⟨rfl, rfl⟩ := Prod.mk.inj (Except.ok.inj h)
      obtain ⟨hvacant, rfl⟩ := hx.recv_none hrecv
      exact ⟨hx, rfl, .rests rfl rfl ⟨.awaits hstate hvacant, hx.alike_refl⟩⟩
    | some bytes =>
      obtain ⟨rfl, rfl⟩ := Prod.mk.inj (Except.ok.inj h)
      obtain ⟨hx', hcycles, -⟩ := @Measured.takeResponse n cost i x x₁ bytes hx hi hrecv
      -- A core that takes a response leaves `memoryWait`, unless it faults.
      have hmove := takeResponse_move (k := k) hcourse hstate bytes
      cases htake : takeResponse k c.countTick bytes with
      | error e =>
        rw [htake] at hrunning
        exact absurd rfl hrunning
      | ok c₁ =>
        rw [htake] at hmove
        obtain ⟨response, hdecode⟩ := decodes_of_takeResponse htake
        obtain ⟨hmmio, -, -, -, hleft, -⟩ :=
          (takeResponse_spec (c := c.countTick) hok hstate hdecode).of_eq_ok htake
        have hachieves := hmove.achieves
          (by
            change c₁.state ≠ c.state
            rw [hstate]
            exact hleft.1)
          hleft.2
          (fun hissue ↦ absurd (hissue.symm.trans hstate) (by decide))
        refine ⟨hx', hcycles, .achieves ?_⟩
        have hfinished : c₁.mmio.finished = c.mmio.finished :=
          congrArg MmioBusAdapter.finished hmmio
        change c.achieved < c₁.achieved
        rw [achieved, achieved, hfinished]
        exact Nat.add_lt_add_right hachieves _

theorem tickCore_advance (hx : Measured n x) (hi : i < n) (hcost : sendCost = x.cycles + cost + 1)
    (hrunning : c'.state ≠ .faulted) (h : tickCore interface k i n c x = .ok (c', x')) :
    Measured n x' ∧ x'.cycles = x.cycles ∧
      Advance (c.CoreRests n i x ∧ Alike x x') c.achieved (c.work sendCost + x.load n cost)
        c'.achieved (c'.work sendCost + x'.load n cost) := by
  cases hstate : c.state with
  | fetchDecode =>
    rw [tickCore_of_fetchDecode hstate] at h
    obtain ⟨rfl, rfl⟩ := Prod.mk.inj (Except.ok.inj h)
    have hleft : (fetchDecode k c.countTick).state = .executeWait :=
      (state_fetchDecode k c.countTick).resolve_right hrunning
    have hachieves := (fetchDecode_move (k := k) hstate).achieves
      (by
        change (fetchDecode k c.countTick).state ≠ c.state
        rw [hleft, hstate]
        decide)
      hrunning
      (fun hissue ↦ absurd (hissue.symm.trans hstate) (by decide))
    refine ⟨hx, rfl, .achieves ?_⟩
    rw [achieved, achieved, @finished_of_does k c.countTick _ (fetchDecode_spec hok hstate)]
    exact Nat.add_lt_add_right hachieves _
  | executeWait =>
    rw [tickCore_of_executeWait hstate] at h
    obtain ⟨rfl, rfl⟩ := Prod.mk.inj (Except.ok.inj h)
    refine ⟨hx, rfl, (advanceExecute_advance hok hcourse _ hstate rfl hrunning).mono fun hbusy ↦ ?_⟩
    exact ⟨.serialized (.inl hstate) hbusy, hx.alike_refl⟩
  | memoryIssue =>
    rw [tickCore_of_memoryIssue hstate] at h
    exact issueMemoryRequest_advance hok hcourse hx hcost hstate hrunning h
  | memoryWait =>
    rw [tickCore_of_memoryWait hstate] at h
    exact receiveMemoryResponse_advance hok hcourse hx hi hstate hrunning h
  | halted =>
    rw [tickCore_of_finished (by simp [finished, halted, hstate])] at h
    obtain ⟨rfl, rfl⟩ := Prod.mk.inj (Except.ok.inj h)
    exact ⟨hx, rfl, .rests rfl rfl ⟨.halted hstate, hx.alike_refl⟩⟩
  | faulted =>
    rw [tickCore_of_finished (by simp [finished, faulted, hstate])] at h
    obtain ⟨rfl, rfl⟩ := Prod.mk.inj (Except.ok.inj h)
    exact absurd hstate hrunning

/-- Neither the core nor its adapter has a way to go on. -/
structure Rests (n i : ℕ) (x : Interconnect) (c : Rv64AtomicCore) : Prop where
  adapter : c.mmio.Rests n i x
  core : c.CoreRests n i x

omit hok hcourse in
theorem Rests.alike (h : c.Rests n i x') (halike : Alike x x') : c.Rests n i x where
  adapter := ⟨h.adapter.sends.imp_right halike.refuses, h.adapter.receives.imp_right halike.vacant⟩
  core := h.core.alike halike rfl rfl

/-- The turn of a hart that does not fault in it. -/
theorem tick_advance (hx : Measured n x) (hi : i < n) (hcost : sendCost = x.cycles + cost + 1)
    (hrunning : c'.state ≠ .faulted) (h : tick interface k i n c x = .ok (c', x')) :
    Measured n x' ∧ x'.cycles = x.cycles ∧
      Advance (c.Rests n i x ∧ Alike x x') c.achieved (c.work sendCost + x.load n cost)
        c'.achieved (c'.work sendCost + x'.load n cost) := by
  rw [tick, tickMmio] at h
  rcases htry : c.mmio.tryTick interface k.hartId i n x with ⟨_ | reason, mmio, x₁⟩
  · rw [htry] at h
    dsimp only at h
    obtain ⟨hx₁, hcycles₁, hadapter⟩ := MmioBusAdapter.tryTick_advance hx hi hcost htry
    have hok₁ : (c.advanceMmio mmio).view.Ok k.hartId := by
      have hok₁ := tickMmio_ok interface i n x hok
      rwa [tickMmio, htry] at hok₁
    obtain ⟨hx', hcycles', hcore⟩ := tickCore_advance hok₁ hcourse hx₁ hi
      (hcycles₁.symm ▸ hcost) hrunning h
    have hframe := hadapter.frame c.course.achieved (c.coreWork sendCost)
    have hassoc (y z : ℕ) : c.coreWork sendCost + (y + z) = y + c.coreWork sendCost + z := by omega
    rw [hassoc, hassoc] at hframe
    refine ⟨hx', hcycles'.trans hcycles₁, (hframe.trans hcore).mono ?_⟩
    rintro ⟨⟨hrests, halike, hrequests⟩, hcore, halike'⟩
    exact ⟨⟨hrests, hcore.alike halike rfl hrequests⟩, halike.trans halike'⟩
  · rw [htry] at h
    dsimp only at h
    rw [tickCore_of_finished (by simp [finished, faulted, fault])] at h
    obtain ⟨rfl, -⟩ := Prod.mk.inj (Except.ok.inj h)
    exact absurd rfl hrunning

end Turn

end Rv64AtomicCore

end Manycore
