import SimbusNoc.Manycore.CoreRuns

/-!
# The course of a hart

A hart as an automaton: the state with what belongs to it (an instruction, a countdown, a request),
and counters. Registers, memory and the bus are left out, so that a move may end an instruction in
any way. The invariants of the automaton are those of every core whose turns are moves.

## The moves

`Move` has one constructor for each kind of tick: a fetch, a cycle of the countdown, the end of the
countdown, a wait, a request that goes out, a response, a fault. `Ends` are the ways in which an
instruction may end its countdown (it retires, stops, or asks memory), and `Resumes` are the ways
in which it may go on after a response. These three are all that the source's handlers can do, and
an invariant has one case for each.

## What belongs to a state

`Ok` says which of the optional parts are there in which state. The source reads them unchecked, so
this is the invariant that everything else rests on.
-/

namespace Manycore

open Simbus Rv64archsem

/-! ## The automaton -/

/-- What a tick of a hart is spent on. -/
inductive CycleClass
  | fetchDecode | executeWait | adapterSerialization | vectorIssue | injectionBlocked | memoryWait
  | windowAccess | send | response
  deriving DecidableEq

/-- The sum over all classes. -/
def CycleClass.total (cycles : CycleClass → ℕ) : ℕ :=
  cycles .fetchDecode + cycles .executeWait + cycles .adapterSerialization + cycles .vectorIssue +
    cycles .injectionBlocked + cycles .memoryWait + cycles .windowAccess + cycles .send +
    cycles .response

structure HartCourse where
  state : Rv64CoreState
  pending : Option PendingInstruction
  cyclesLeft : ℕ
  request : Option MemoryRequest
  vectorActive : Bool
  vectorIsLoad : Bool
  activeLoad : Option MemLoadDescriptor
  ticks : ℕ
  cycles : CycleClass → ℕ
  /-- The scalar accesses and the vector transactions that have been counted. -/
  prepared : ℕ
  fetched : List (PendingInstruction × UInt32)
  committed : List PendingInstruction

namespace HartCourse

variable (v : HartCourse)

def count (cls : CycleClass) : HartCourse :=
  { v with cycles := Function.update v.cycles cls (v.cycles cls + 1) }

/-- A tick is spent. -/
def tick (cls : CycleClass) : HartCourse := { v.count cls with ticks := v.ticks + 1 }

/-- The instruction `p` retires. -/
def retire (p : PendingInstruction) : HartCourse :=
  { v with state := .fetchDecode, pending := none, committed := v.committed ++ [p] }

/-- A new hart. -/
def initial : HartCourse where
  state := .fetchDecode
  pending := none
  cyclesLeft := 0
  request := none
  vectorActive := false
  vectorIsLoad := false
  activeLoad := none
  ticks := 0
  cycles := fun _ ↦ 0
  prepared := 0
  fetched := []
  committed := []

def halt : HartCourse := { v with state := .halted, pending := none }

/-- A request is prepared. -/
def ask (q : MemoryRequest) : HartCourse :=
  { v with state := .memoryIssue, request := some q, prepared := v.prepared + 1 }

/-- The request has been answered. -/
def answered : HartCourse := { v with request := none }

/-- The instruction's countdown is over in this tick. -/
def ready : HartCourse := { v.tick .executeWait with cyclesLeft := 0 }

/-- A faulted hart has nothing left. -/
structure Faulted : Prop where
  state : v.state = .faulted
  pending : v.pending = none
  request : v.request = none
  vectorActive : v.vectorActive = false
  activeLoad : v.activeLoad = none

end HartCourse

/-- The instruction as it was fetched, wherever it goes on. -/
def PendingInstruction.origin (p : PendingInstruction) : UInt64 × UInt32 × DecodedInst :=
  (p.pc, p.raw, p.decoded)

/-- The instruction has a vector memory access. -/
def PendingInstruction.IsVectorAccess (p : PendingInstruction) (isLoad : Bool) : Prop :=
  p.decoded.controlType = if isLoad then .vload else .vstore

/-- What the instruction `p` may do in its last cycle. -/
inductive HartCourse.Ends (v : HartCourse) (p : PendingInstruction) : HartCourse → Prop
  | retire {p' : PendingInstruction} (hp' : p'.origin = p.origin) (isLoad : Bool) :
      Ends v p { v.retire p' with vectorIsLoad := isLoad }
  | halt (hcontrol : p.decoded.controlType = .ecall ∨ p.decoded.controlType = .ebreak) :
      Ends v p v.halt
  | scalar {q : MemoryRequest}
      (hcontrol : p.decoded.controlType = .load ∨ p.decoded.controlType = .store) :
      Ends v p (v.ask q)
  | vectorLoad {q : MemoryRequest} {d : MemLoadDescriptor} (hcontrol : p.IsVectorAccess true)
      (hsize : d.size = q.size) :
      Ends v p { v.ask q with vectorActive := true, vectorIsLoad := true, activeLoad := some d }
  | vectorStore {q : MemoryRequest} (hcontrol : p.IsVectorAccess false) :
      Ends v p { v.ask q with vectorActive := true, vectorIsLoad := false }

/-- What becomes of a hart whose request has been answered. -/
inductive HartCourse.Resumes (v : HartCourse) (p : PendingInstruction) : HartCourse → Prop
  | retire {p' : PendingInstruction} (hp' : p'.origin = p.origin)
      (hactive : v.vectorActive = false) :
      Resumes v p (v.answered.retire p')
  | host {p' : PendingInstruction} (hp' : p'.origin = p.origin) (hactive : v.vectorActive = false) :
      Resumes v p (v.answered.retire p').halt
  | vectorLoad {q : MemoryRequest} {d : MemLoadDescriptor} (hactive : v.vectorActive = true)
      (hisLoad : v.vectorIsLoad = true) (hsize : d.size = q.size) :
      Resumes v p { v.ask q with activeLoad := some d }
  | vectorStore {q : MemoryRequest} (hactive : v.vectorActive = true)
      (hisLoad : v.vectorIsLoad = false) : Resumes v p (v.ask q)
  | vectorDone {p' : PendingInstruction} (hp' : p'.origin = p.origin)
      (hactive : v.vectorActive = true)
      {activeLoad : Option MemLoadDescriptor}
      (hload : activeLoad = if v.vectorIsLoad then none else v.activeLoad) :
      Resumes v p { v.answered.retire p' with vectorActive := false, activeLoad := activeLoad }

/-- A move of a hart. -/
inductive HartCourse.Move (k : Rv64Hart) (v : HartCourse) : HartCourse → Prop
  | rest : Move k v v
  | fault {v' : HartCourse} (h : v'.Faulted) (hcommitted : v'.committed = v.committed) : Move k v v'
  | fetch {p : PendingInstruction} {vl : UInt32} {cycles : ℕ} (hstate : v.state = .fetchDecode)
      (hlatency : instructionLatency k.arch p.decoded k.latency vl.toNat = .ok cycles) :
      Move k v { v.tick .fetchDecode with
        state := .executeWait
        pending := some p
        cyclesLeft := cycles
        fetched := v.fetched ++ [(p, vl)] }
  | countDown (hstate : v.state = .executeWait) (hleft : 1 < v.cyclesLeft) :
      Move k v { v.tick .executeWait with cyclesLeft := v.cyclesLeft - 1 }
  | waitFence {p : PendingInstruction} (hstate : v.state = .executeWait)
      (hpending : v.pending = some p)
      (hfence : Rv64AtomicCore.isFence p.decoded.controlType = true) :
      Move k v (v.tick .adapterSerialization)
  | execute {p : PendingInstruction} {v' : HartCourse} (hstate : v.state = .executeWait)
      (hpending : v.pending = some p) (hleft : v.cyclesLeft = 1) (h : v.ready.Ends p v') :
      Move k v v'
  | waitIssue {cls : CycleClass} (hstate : v.state = .memoryIssue)
      (hcls : cls = .vectorIssue ∨ cls = .adapterSerialization ∨ cls = .injectionBlocked) :
      Move k v (v.tick cls)
  | window {p p' : PendingInstruction} (hstate : v.state = .memoryIssue)
      (hpending : v.pending = some p) (hp' : p'.origin = p.origin)
      (hactive : v.vectorActive = false) :
      Move k v ((v.tick .windowAccess).answered.retire p')
  | send (hstate : v.state = .memoryIssue) :
      Move k v { v.tick .send with state := .memoryWait }
  | waitResponse (hstate : v.state = .memoryWait) : Move k v (v.tick .memoryWait)
  | respond {p : PendingInstruction} {v' : HartCourse} (hstate : v.state = .memoryWait)
      (hpending : v.pending = some p) (h : (v.tick .response).Resumes p v') : Move k v v'

namespace HartCourse

variable {k : Rv64Hart} {v v' : HartCourse}

/-! ## What belongs to a state -/

theorem one_le_of_instructionLatency {arch : ArchSem} {inst : DecodedInst}
    {config : InstructionLatencyConfig} {vl cycles : ℕ}
    (h : instructionLatency arch inst config vl = .ok cycles) : 1 ≤ cycles := by
  rw [instructionLatency] at h
  split at h
  · obtain ⟨_, hcheck, h⟩ := Except.bind_eq_ok_iff.mp h
    rw [require_eq_ok_iff, Bool.not_eq_true', Bool.or_eq_false_iff, beq_eq_false_iff_ne] at hcheck
    obtain rfl := Except.ok.inj h
    exact Nat.one_le_iff_ne_zero.mpr hcheck.1
  · obtain ⟨value, -, h⟩ := Except.bind_eq_ok_iff.mp h
    obtain ⟨_, hcheck, h⟩ := Except.bind_eq_ok_iff.mp h
    rw [require_eq_ok_iff] at hcheck
    obtain rfl := Except.ok.inj h
    simpa [Nat.one_le_iff_ne_zero] using hcheck

/-- The optional parts of a hart are there exactly in the states that read them. -/
structure Ok (v : HartCourse) : Prop where
  pending : v.pending.isSome ↔
    v.state = .executeWait ∨ v.state = .memoryIssue ∨ v.state = .memoryWait
  request : v.request.isSome ↔ v.state = .memoryIssue ∨ v.state = .memoryWait
  cyclesLeft : v.state = .executeWait → 1 ≤ v.cyclesLeft
  access : v.vectorActive = true → (v.state = .memoryIssue ∨ v.state = .memoryWait) ∧
    ∃ p, v.pending = some p ∧ p.IsVectorAccess v.vectorIsLoad
  activeLoad : v.activeLoad.isSome ↔ v.vectorActive = true ∧ v.vectorIsLoad = true
  size : ∀ d q, v.activeLoad = some d → v.request = some q → d.size = q.size

theorem Faulted.ok (h : v.Faulted) : v.Ok where
  pending := by simp [h.pending, h.state]
  request := by simp [h.request, h.state]
  cyclesLeft := by simp [h.state]
  access := by simp [h.vectorActive]
  activeLoad := by simp [h.activeLoad, h.vectorActive]
  size := by simp [h.activeLoad]

/-- No access is under way. -/
structure Free (v : HartCourse) : Prop where
  request : v.request = none
  vectorActive : v.vectorActive = false
  activeLoad : v.activeLoad = none

theorem Ok.activeLoad_eq_none (h : v.Ok) (hactive : v.vectorActive = false) :
    v.activeLoad = none := by
  have hsome := h.activeLoad
  rw [hactive] at hsome
  simpa using hsome

theorem Ok.free (h : v.Ok) (hissue : v.state ≠ .memoryIssue) (hwait : v.state ≠ .memoryWait) :
    v.Free := by
  have hactive : v.vectorActive = false := by
    by_contra hactive
    rcases (h.access (by simpa using hactive)).1 with hstate | hstate
    · exact hissue hstate
    · exact hwait hstate
  refine ⟨?_, hactive, h.activeLoad_eq_none hactive⟩
  have hsome := h.request
  simpa [hissue, hwait] using hsome

/-- Between two instructions, and at the end, nothing is left. -/
theorem Free.ok (h : v.Free) (hstate : v.state = .fetchDecode ∨ v.state = .halted)
    (hpending : v.pending = none) : v.Ok where
  pending := by rcases hstate with hstate | hstate <;> simp [hstate, hpending]
  request := by rcases hstate with hstate | hstate <;> simp [hstate, h.request]
  cyclesLeft := by rcases hstate with hstate | hstate <;> simp [hstate]
  access := by simp [h.vectorActive]
  activeLoad := by simp [h.vectorActive, h.activeLoad]
  size := by simp [h.activeLoad]

theorem ok_initial : initial.Ok := Free.ok ⟨rfl, rfl, rfl⟩ (.inl rfl) rfl

theorem Ends.ok {p : PendingInstruction} (h : v.Ends p v') (hfree : v.Free)
    (hpending : v.pending = some p) : v'.Ok := by
  cases h with
  | retire hp' isLoad =>
    exact Free.ok ⟨hfree.request, hfree.vectorActive, hfree.activeLoad⟩ (.inl rfl) rfl
  | halt => exact Free.ok ⟨hfree.request, hfree.vectorActive, hfree.activeLoad⟩ (.inr rfl) rfl
  | scalar =>
    constructor <;> simp [ask, hpending, hfree.vectorActive, hfree.activeLoad]
  | vectorLoad hcontrol hsize =>
    constructor <;> simp [ask, hpending, hcontrol, hsize]
  | vectorStore hcontrol =>
    constructor <;> simp [ask, hpending, hcontrol, hfree.activeLoad]

theorem Resumes.ok {p : PendingInstruction} (h : v.Resumes p v') (hok : v.Ok)
    (hpending : v.pending = some p) : v'.Ok := by
  have hcontrol : v.vectorActive = true → p.IsVectorAccess v.vectorIsLoad := fun hactive ↦ by
    obtain ⟨-, p', hp', hcontrol⟩ := hok.access hactive
    exact Option.some.inj (hpending.symm.trans hp') ▸ hcontrol
  cases h with
  | retire hp' hactive =>
    exact Free.ok ⟨rfl, hactive, hok.activeLoad_eq_none hactive⟩ (.inl rfl) rfl
  | host hp' hactive => exact Free.ok ⟨rfl, hactive, hok.activeLoad_eq_none hactive⟩ (.inr rfl) rfl
  | vectorLoad hactive hisLoad hsize =>
    constructor <;> simp [ask, hpending, hactive, hisLoad, hsize, hisLoad ▸ hcontrol hactive]
  | vectorStore hactive hisLoad =>
    have hnone : v.activeLoad = none := by
      have hsome := hok.activeLoad
      simpa [hisLoad] using hsome
    constructor <;> simp [ask, hpending, hactive, hisLoad, hnone, hisLoad ▸ hcontrol hactive]
  | vectorDone hp' hactive hload =>
    refine Free.ok ⟨rfl, rfl, hload.trans ?_⟩ (.inl rfl) rfl
    cases hisLoad : v.vectorIsLoad with
    | true => rfl
    | false =>
      have hsome := hok.activeLoad
      simpa [hisLoad] using hsome

theorem Ok.tick (h : v.Ok) (cls : CycleClass) : (v.tick cls).Ok :=
  ⟨h.pending, h.request, h.cyclesLeft, h.access, h.activeLoad, h.size⟩

theorem Move.ok (h : Move k v v') (hok : v.Ok) : v'.Ok := by
  cases h with
  | rest => exact hok
  | fault h hcommitted => exact h.ok
  | fetch hstate hlatency =>
    have hfree := hok.free (by simp [hstate]) (by simp [hstate])
    have hpos := one_le_of_instructionLatency hlatency
    constructor <;> simp [HartCourse.tick, count, hfree.request, hfree.vectorActive,
      hfree.activeLoad, hpos]
  | countDown hstate hleft =>
    refine { hok.tick .executeWait with cyclesLeft := fun _ ↦ ?_ }
    exact Nat.le_sub_of_add_le hleft
  | waitFence hstate hpending hfence => exact hok.tick .adapterSerialization
  | execute hstate hpending hleft h =>
    have hfree := hok.free (by simp [hstate]) (by simp [hstate])
    exact h.ok ⟨hfree.request, hfree.vectorActive, hfree.activeLoad⟩ hpending
  | waitIssue hstate hcls => exact hok.tick _
  | window hstate hpending hp' hactive =>
    exact Free.ok ⟨rfl, hactive, hok.activeLoad_eq_none hactive⟩ (.inl rfl) rfl
  | send hstate =>
    have hpending := hok.pending
    have hrequest := hok.request
    have haccess := hok.access
    rw [hstate] at hpending hrequest haccess
    refine ⟨?_, ?_, ?_, ?_, hok.activeLoad, hok.size⟩
    · simpa [HartCourse.tick, count] using hpending
    · simpa [HartCourse.tick, count] using hrequest
    · simp
    · exact fun hactive ↦ ⟨.inr rfl, (haccess hactive).2⟩
  | waitResponse hstate => exact hok.tick .memoryWait
  | respond hstate hpending h => exact h.ok (hok.tick .response) hpending

end HartCourse

end Manycore
