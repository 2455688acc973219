import SimbusNoc.Manycore.HartCourse

/-!
# Every turn of a core is a move of its course

The course of a core forgets its registers, its adapter and what it has asked for. Most functions
of the core leave it as it is; the others are followed to their last statement, once for each.

`course` is the abstraction, and `Turn.move` is the simulation: what the core does in any turn, its
adapter's or its own, is one move. A function that may throw is described by `Tries`: it ends as
the automaton says, or it throws with the course as it was, and then `recover` faults the core,
which is a move as well. The lemmas go through the functions from the smallest up, and each of them
cites those of the functions that it calls. `Reachable.course_induction` is what the other modules
use: what holds of a new hart and is kept by every move holds of every reachable core.
-/

namespace Manycore.Rv64AtomicCore

open Simbus Rv64archsem Throwing

/-! ## The course of a core -/

/-- The ticks that have been spent on each class. -/
def cyclesSpent (c : Rv64AtomicCore) : CycleClass → ℕ
  | .fetchDecode => c.stats.fetchDecodeCycles
  | .executeWait => c.stats.executeWaitCycles
  | .adapterSerialization => c.stats.adapterSerializationWaitCycles
  | .vectorIssue => c.stats.vectorIssueWaitCycles
  | .injectionBlocked => c.stats.injectionBlockedCycles
  | .memoryWait => c.stats.memoryWaitCycles
  | .windowAccess => c.trace.windowAccesses
  | .send => c.trace.sent
  | .response => c.trace.answered.length

def course (c : Rv64AtomicCore) : HartCourse where
  state := c.state
  pending := c.pending
  cyclesLeft := c.cyclesLeft
  request := c.memoryRequest
  vectorActive := c.vectorMemoryActive
  vectorIsLoad := c.vectorMemoryIsLoad
  activeLoad := c.activeVectorLoad
  ticks := c.stats.ticks
  cycles := c.cyclesSpent
  prepared := c.stats.loads + c.stats.stores + c.stats.vectorMemoryTransactions
  fetched := c.trace.fetched
  committed := c.trace.committed

variable {k : Rv64Hart} {c c' c₁ : Rv64AtomicCore} {p : PendingInstruction}

theorem course_commit (c : Rv64AtomicCore) : c.commit.course = c.course.retire c.instruction := rfl

theorem course_stop (c : Rv64AtomicCore) (code : Int32) (reason : String) :
    (c.stop code reason).course = c.course.halt := rfl

theorem course_writeReg (c : Rv64AtomicCore) (index : Fin 32) (value : UInt64) :
    (c.writeReg index value).course = c.course := by
  rw [writeReg]
  split <;> rfl

theorem course_configureVector (c : Rv64AtomicCore) (requested avl : UInt64) :
    (c.configureVector requested avl).course = c.course := by
  rw [configureVector]
  dsimp only
  split <;> rfl

theorem course_startRequest (c : Rv64AtomicCore) : c.startRequest.course = c.course := by
  rw [startRequest]
  split <;> rfl

theorem course_writeVectorGroup {base : Fin 32} {words : List UInt64}
    (h : c.writeVectorGroup base words = .ok c') : c'.course = c.course := by
  obtain ⟨count, -, h⟩ := Except.bind_eq_ok_iff.mp h
  obtain ⟨_, -, h⟩ := Except.bind_eq_ok_iff.mp h
  obtain rfl := Except.ok.inj h
  rfl

theorem course_writeCsr {address value : UInt64} (h : writeCsr k c address value = .ok c') :
    c'.course = c.course := by
  rw [writeCsr] at h
  by_cases hbus : isBusCsr address = true
  · rw [if_pos hbus] at h
    obtain ⟨_, -, h⟩ := Except.bind_eq_ok_iff.mp h
    obtain ⟨mmio, -, h⟩ := Except.bind_eq_ok_iff.mp h
    exact Except.ok.inj h ▸ rfl
  · rw [if_neg hbus] at h
    dsimp only at h
    split_ifs at h <;> exact Except.ok.inj h ▸ rfl

theorem writeVectorResult_course (inst : DecodedInst) (words : List UInt64)
    (hc₁ : c₁.course = c.course) :
    Ensures (fun c' ↦ c'.course = c.course) (fun e ↦ e.2.trace.committed = c.trace.committed)
      (writeVectorResult c₁ inst words) := by
  have hcommitted : c₁.trace.committed = c.trace.committed := congrArg HartCourse.committed hc₁
  refine Ensures.ite (fun _ ↦ ?_) fun _ ↦ ?_
  · split
    · exact hcommitted
    · exact (course_writeReg ..).trans hc₁
  · cases hwrite : c₁.writeVectorGroup inst.rd words with
    | ok c' => exact (course_writeVectorGroup hwrite).trans hc₁
    | error reason => exact hcommitted

/-! ## Counting

The classes of cycles are counted by different fields of the core, each by one function.
-/

private theorem course_count {cls : CycleClass}
    (hcourse : { c'.course with cycles := c.cyclesSpent } = c.course)
    (hother : ∀ other, other ≠ cls → c'.cyclesSpent other = c.cyclesSpent other)
    (hcls : c'.cyclesSpent cls = c.cyclesSpent cls + 1) : c'.course = c.course.count cls := by
  have hcycles : c'.cyclesSpent = Function.update c.cyclesSpent cls (c.cyclesSpent cls + 1) := by
    funext other
    by_cases h : other = cls
    · rw [h, Function.update_self, hcls]
    · rw [Function.update_of_ne h, hother other h]
  rw [HartCourse.count, ← hcourse]
  dsimp only
  rw [← hcycles]
  rfl

theorem course_countSerializationWait (c : Rv64AtomicCore) :
    c.countSerializationWait.course = c.course.count .adapterSerialization :=
  course_count rfl (fun other h ↦ by cases other <;> first | rfl | exact absurd rfl h) rfl

theorem course_countVectorIssueWait (c : Rv64AtomicCore) :
    c.countVectorIssueWait.course = c.course.count .vectorIssue :=
  course_count rfl (fun other h ↦ by cases other <;> first | rfl | exact absurd rfl h) rfl

theorem course_countBlocked (c : Rv64AtomicCore) :
    c.countBlocked.course = c.course.count .injectionBlocked :=
  course_count rfl (fun other h ↦ by cases other <;> first | rfl | exact absurd rfl h) rfl

theorem course_countMemoryWait (c : Rv64AtomicCore) :
    c.countMemoryWait.course = c.course.count .memoryWait :=
  course_count rfl (fun other h ↦ by cases other <;> first | rfl | exact absurd rfl h) rfl

theorem course_countWindowAccess (c : Rv64AtomicCore) :
    c.countWindowAccess.course = c.course.count .windowAccess :=
  course_count rfl (fun other h ↦ by cases other <;> first | rfl | exact absurd rfl h) rfl

theorem course_countExecuteWait (hleft : 0 < c.cyclesLeft) : c.countExecuteWait.course =
    { c.course.count .executeWait with cyclesLeft := c.cyclesLeft - 1 } := by
  rw [countExecuteWait, if_pos hleft]
  exact congrArg (fun v : HartCourse ↦ { v with cyclesLeft := c.cyclesLeft - 1 })
    (@course_count c { c with stats := { c.stats with
      executeWaitCycles := c.stats.executeWaitCycles + 1 } } _ rfl
      (fun other h ↦ by cases other <;> first | rfl | exact absurd rfl h) rfl)

theorem course_answer (c : Rv64AtomicCore) (answer : MemoryRequest × MemoryResponse) :
    { c.recordLatency with
      trace := { c.trace with answered := c.trace.answered ++ [answer] } }.course =
      c.course.count .response := by
  rw [recordLatency]
  split <;>
    exact course_count rfl (fun other h ↦ by cases other <;> first | rfl | exact absurd rfl h)
      List.length_append

/-! ## The last cycle of an instruction

What the automaton calls `Ends`, for each kind of instruction: it retires, it stops the core, or it
has a request prepared.
-/

/-- An attempt that ends as `P` says, or throws before anything has been committed. -/
def Tries (c : Rv64AtomicCore) (P : HartCourse → Prop) (x : Attempt) : Prop :=
  Ensures (fun c' ↦ P c'.course) (fun e ↦ e.2.trace.committed = c.trace.committed) x

theorem tries_bind {α : Type} {P : HartCourse → Prop} {x : Except String α} {f : α → Attempt}
    (hc₁ : c₁.trace.committed = c.trace.committed) (hf : ∀ a, x = .ok a → Tries c P (f a)) :
    Tries c P (onThrow c₁ x >>= f) :=
  ensures_onThrow_bind (fun _ _ ↦ hc₁) hf

/-- The instruction retires, and may have changed where it goes on. -/
theorem ends_commit {p' : PendingInstruction} (hp' : p'.origin = p.origin)
    (hcourse : c₁.course = { c.course with pending := some p' }) :
    c.course.Ends p c₁.commit.course := by
  have hinstruction : c₁.instruction = p' := by
    rw [instruction, show c₁.pending = some p' from congrArg HartCourse.pending hcourse,
      Option.getD_some]
  rw [course_commit, hinstruction, hcourse]
  exact .retire hp' c.course.vectorIsLoad

theorem ends_commit_of_eq (hpending : c.pending = some p) (hcourse : c₁.course = c.course) :
    c.course.Ends p c₁.commit.course := by
  refine ends_commit rfl (hcourse.trans ?_)
  rw [← hpending]
  rfl

theorem ends_ask {q : MemoryRequest} {type : ControlType} (hcontrol : p.decoded.controlType = type)
    (htype : type = .load ∨ type = .store)
    (hprepared : c₁.course.prepared = c.course.prepared + 1)
    (hcourse : { c₁.course with prepared := c.course.prepared + 1 } = c.course.ask q) :
    c.course.Ends p c₁.course := by
  have hask : c₁.course = c.course.ask q := by rw [← hcourse, ← hprepared]
  rw [hask]
  exact .scalar (hcontrol ▸ htype)

section Execute

variable (hpending : c.pending = some p)
include hpending

theorem executeInteger_ends : Tries c (c.course.Ends p) (executeInteger k c) := by
  rw [executeInteger]
  dsimp only
  split
  any_goals exact ends_commit_of_eq hpending (course_writeReg ..)
  rfl

theorem executeVectorConfig_ends : c.course.Ends p c.executeVectorConfig.course := by
  rw [executeVectorConfig]
  exact ends_commit_of_eq hpending ((course_writeReg ..).trans (course_configureVector ..))

theorem executeVectorAlu_ends : Tries c (c.course.Ends p) (executeVectorAlu k c) := by
  refine tries_bind rfl fun _ _ ↦ tries_bind rfl fun _ _ ↦ tries_bind rfl fun source1 _ ↦ ?_
  refine tries_bind rfl fun source2 _ ↦ tries_bind rfl fun destination _ ↦ ?_
  dsimp only
  split
  · rfl
  · next result _ =>
    refine Ensures.bind (writeVectorResult_course _ result.vd rfl) fun c' hcourse ↦ ?_
    exact ends_commit_of_eq hpending hcourse

theorem executeCsr_ends :
    Ensures (fun c' ↦ c.course.Ends p c'.commit.course)
      (fun e ↦ e.2.trace.committed = c.trace.committed) (executeCsr k c) := by
  refine executeCsr_ensures (fun _ ↦ rfl)
    (fun old ↦ ends_commit_of_eq hpending (course_writeReg ..)) fun old new ↦ ?_
  refine ensures_onThrow (fun reason _ ↦ ?_) fun c' hwrite ↦ ?_
  · exact congrArg HartCourse.committed (course_writeReg ..)
  · exact ends_commit_of_eq hpending ((course_writeCsr hwrite).trans (course_writeReg ..))

end Execute

theorem prepareLoad_ends (hcontrol : p.decoded.controlType = .load) :
    Tries c (c.course.Ends p) (prepareLoad k c) := by
  rw [prepareLoad]
  dsimp only
  split
  · refine ends_ask hcontrol (.inl rfl) ?_ rfl
    simp only [course]
    omega
  · rfl

theorem prepareStore_ends (hcontrol : p.decoded.controlType = .store) :
    Tries c (c.course.Ends p) (prepareStore k c) := by
  rw [prepareStore]
  dsimp only
  split
  · refine ends_ask hcontrol (.inr rfl) ?_ rfl
    simp only [course]
    omega
  · rfl

theorem stageNextVectorRequest_course (hc₁ : c₁.trace.committed = c.trace.committed) :
    Tries c (fun v ↦
      (c₁.vectorMemoryIsLoad = true ∧ ∃ q d, d.size = q.size ∧
        v = { c₁.course.ask q with activeLoad := some d }) ∨
      c₁.vectorMemoryIsLoad = false ∧ ∃ q, v = c₁.course.ask q) (stageNextVectorRequest k c₁) := by
  rw [stageNextVectorRequest]
  refine Ensures.ite (fun hload ↦ ?_) fun hload ↦ ?_
  · split
    · exact hc₁
    · next d rest _ => exact .inl ⟨hload, _, d, rfl, rfl⟩
  · split
    · exact hc₁
    · exact .inr ⟨Bool.eq_false_of_not_eq_true hload, _, rfl⟩

section Begin

variable (hpending : c.pending = some p) (hinactive : c.vectorMemoryActive = false)
include hpending hinactive

theorem begin_ends {isLoad empty : Bool} (hcontrol : p.IsVectorAccess isLoad)
    (hc₁ : c₁.course = { c.course with vectorActive := true, vectorIsLoad := isLoad }) :
    Tries c (c.course.Ends p)
      (if empty then pure { c₁ with vectorMemoryActive := false }.commit
        else stageNextVectorRequest k c₁) := by
  have hcommitted : c₁.trace.committed = c.trace.committed := congrArg HartCourse.committed hc₁
  have hisLoad : c₁.vectorMemoryIsLoad = isLoad := congrArg HartCourse.vectorIsLoad hc₁
  refine Ensures.ite (fun _ ↦ ?_) fun _ ↦ ?_
  · have hinstruction : c₁.instruction = p := by
      rw [instruction,
        show c₁.pending = some p from (congrArg HartCourse.pending hc₁).trans hpending,
        Option.getD_some]
    have hcourse : ({ c₁.course.retire c₁.instruction with vectorActive := false } : HartCourse) =
        { c.course.retire p with vectorIsLoad := isLoad } := by
      rw [hinstruction, hc₁, ← show c.course.vectorActive = false from hinactive]
      rfl
    have hends : c.course.Ends p { c.course.retire p with vectorIsLoad := isLoad } :=
      .retire rfl isLoad
    rw [← hcourse] at hends
    exact hends
  · refine (stageNextVectorRequest_course hcommitted).mono (fun c' hc' ↦ ?_) fun _ ↦ id
    rcases hc' with ⟨hload, q, d, hsize, hcourse⟩ | ⟨hload, q, hcourse⟩
    · obtain rfl := hisLoad.symm.trans hload
      rw [hcourse, hc₁]
      exact .vectorLoad hcontrol hsize
    · obtain rfl := hisLoad.symm.trans hload
      rw [hcourse, hc₁]
      exact .vectorStore hcontrol

theorem prepareVectorLoad_ends (hcontrol : p.IsVectorAccess true) :
    Tries c (c.course.Ends p) (prepareVectorLoad k c) := by
  refine tries_bind rfl fun _ _ ↦ tries_bind rfl fun _ _ ↦ tries_bind rfl fun width _ ↦ ?_
  refine tries_bind rfl fun _ _ ↦ tries_bind rfl fun operand _ ↦ ?_
  dsimp only
  split
  · rfl
  · exact tries_bind rfl fun buffer _ ↦ begin_ends hpending hinactive hcontrol rfl

theorem prepareVectorStore_ends (hcontrol : p.IsVectorAccess false) :
    Tries c (c.course.Ends p) (prepareVectorStore k c) := by
  refine tries_bind rfl fun _ _ ↦ tries_bind rfl fun _ _ ↦ tries_bind rfl fun width _ ↦ ?_
  refine tries_bind rfl fun _ _ ↦ tries_bind rfl fun operand _ ↦ tries_bind rfl fun data _ ↦ ?_
  dsimp only
  split
  · rfl
  · exact begin_ends hpending hinactive hcontrol rfl

/-- Every instruction ends as the automaton says. A fence is not executed while the adapter is
busy. -/
theorem execute_ends
    (hfence : isFence p.decoded.controlType = true → c.mmio.busy = false) :
    Tries c (c.course.Ends p) (execute k c) := by
  have hinstruction : c.instruction = p := by rw [instruction, hpending, Option.getD_some]
  have hjump : ∀ {c₁ : Rv64AtomicCore} (target : UInt64), c₁.course = c.course →
      c.course.Ends p (c₁.setNextPc target).commit.course := by
    intro c₁ target hc₁
    have hpending₁ : c₁.instruction = p := by
      rw [instruction, show c₁.pending = c.pending from congrArg HartCourse.pending hc₁, hpending,
        Option.getD_some]
    refine @ends_commit c _ p { c₁.instruction with nextPc := target } ?_ ?_
    · rw [hpending₁]
      rfl
    · rw [← hc₁]
      rfl
  rw [execute]
  dsimp only
  rw [hinstruction]
  split
  · refine Ensures.ite (fun _ ↦ ?_) fun _ ↦ executeInteger_ends hpending
    exact Ensures.ite (fun _ ↦ executeVectorConfig_ends hpending)
      fun _ ↦ executeVectorAlu_ends hpending
  · split
    · exact hjump _ rfl
    · exact ends_commit_of_eq hpending rfl
  · exact hjump _ (course_writeReg ..)
  · exact hjump _ (course_writeReg ..)
  · exact hjump _ (course_writeReg ..)
  · exact hjump _ (course_writeReg ..)
  · next hcontrol => exact prepareLoad_ends hcontrol
  · next hcontrol => exact prepareStore_ends hcontrol
  · next hcontrol => exact prepareVectorLoad_ends hpending hinactive hcontrol
  · next hcontrol => exact prepareVectorStore_ends hpending hinactive hcontrol
  · exact Ensures.bind (executeCsr_ends hpending) fun _ hc' ↦ hc'
  -- the three fences
  iterate 3
    · next hcontrol =>
      rw [hfence (by rw [hcontrol]; rfl)]
      exact ends_commit_of_eq hpending rfl
  · next hcontrol => exact .halt (.inl hcontrol)
  · next hcontrol => exact .halt (.inr hcontrol)
  · rfl
  · rfl

end Begin

/-! ## Turns -/

/-- What is thrown faults the core. -/
theorem move_of_tries {v : HartCourse} {x : Attempt} (hc : c.trace.committed = v.committed)
    (h : Tries c (v.Move k) x) : v.Move k (recover x).course := by
  cases x with
  | ok c' => exact h
  | error e => exact .fault ⟨rfl, rfl, rfl, rfl, rfl⟩ (Eq.trans h hc)

theorem fetchDecode_move (hstate : c.state = .fetchDecode) :
    c.course.Move k (fetchDecode k c.countTick).course := by
  set c₀ : Rv64AtomicCore := { c.countTick with stats := { c.countTick.stats with
    fetchDecodeCycles := c.countTick.stats.fetchDecodeCycles + 1 } } with hc₀
  have hcourse : c₀.course = c.course.tick .fetchDecode :=
    congrArg (fun v : HartCourse ↦ { v with ticks := c.course.ticks + 1 })
      (@course_count c { c with stats := { c.stats with
        fetchDecodeCycles := c.stats.fetchDecodeCycles + 1 } } _ rfl
        (fun other h ↦ by cases other <;> first | rfl | exact absurd rfl h) rfl)
  have hfault : ∀ reason, c.course.Move k (c₀.fault reason).course :=
    fun _ ↦ .fault ⟨rfl, rfl, rfl, rfl, rfl⟩ rfl
  refine move_of_tries (c := c₀) rfl ?_
  refine tries_bind rfl fun low _ ↦ Ensures.ite (fun _ ↦ hfault _) fun _ ↦ ?_
  refine tries_bind rfl fun raw _ ↦ ?_
  split
  · exact hfault _
  · next decoded _ =>
    refine tries_bind rfl fun cycles hlatency ↦ ?_
    have hmove := @HartCourse.Move.fetch k c.course ⟨decoded, raw, c.pc, c.pc + 4⟩
      c.vectorContext.vl cycles hstate hlatency
    rw [← hcourse] at hmove
    exact hmove

theorem advanceExecute_move (hok : c.course.Ok) (hstate : c.state = .executeWait) :
    c.course.Move k (advanceExecute k c.countTick).course := by
  obtain ⟨p, hpending⟩ := Option.isSome_iff_exists.mp (hok.pending.mpr (.inl hstate))
  have hinstruction : c.countTick.instruction = p := by
    rw [instruction, show c.countTick.pending = some p from hpending, Option.getD_some]
  have hleft : 1 ≤ c.cyclesLeft := hok.cyclesLeft hstate
  have hinactive : c.vectorMemoryActive = false :=
    (hok.free (by simp [course, hstate]) (by simp [course, hstate])).vectorActive
  rw [advanceExecute, hinstruction]
  split
  · next hfence =>
    rw [Bool.and_eq_true] at hfence
    rw [course_countSerializationWait]
    exact .waitFence hstate hpending hfence.1
  · next hfence =>
    -- The cycle is counted first, and the last one executes the instruction.
    set c₀ := c.countTick.countExecuteWait with hc₀
    have hcourse : c₀.course =
        { c.course.tick .executeWait with cyclesLeft := c.cyclesLeft - 1 } := by
      rw [hc₀, course_countExecuteWait (c := c.countTick) hleft]
      rfl
    have hcycles : c₀.cyclesLeft = c.cyclesLeft - 1 := congrArg HartCourse.cyclesLeft hcourse
    have hcommitted : c₀.trace.committed = c.trace.committed :=
      congrArg HartCourse.committed hcourse
    have hmmio : c₀.mmio = c.mmio := by
      rw [hc₀, countExecuteWait]
      split <;> rfl
    dsimp only
    split
    · next hzero =>
      have hready : c₀.course = c.course.ready := by rw [hcourse, ← hcycles, hzero]; rfl
      have hbusy : isFence p.decoded.controlType = true → c₀.mmio.busy = false := fun h ↦ by
        rw [h, Bool.true_and] at hfence
        exact hmmio ▸ Bool.eq_false_of_not_eq_true hfence
      refine move_of_tries hcommitted ?_
      refine (execute_ends (p := p) ((congrArg HartCourse.pending hcourse).trans hpending)
        ((congrArg HartCourse.vectorActive hcourse).trans hinactive) hbusy).mono
        (fun c' hends ↦ ?_) fun _ ↦ id
      rw [hready] at hends
      exact .execute hstate hpending
        (by rw [show c.course.cyclesLeft = c.cyclesLeft from rfl]; omega)
        hends
    · next hmore =>
      rw [hcourse]
      exact .countDown hstate (show 1 < c.cyclesLeft by omega)

theorem accessWindow_move (hok : c.course.Ok) (hstate : c.state = .memoryIssue) :
    c.course.Move k (recover (accessWindow k c.countTick)).course := by
  obtain ⟨p, hpending⟩ := Option.isSome_iff_exists.mp (hok.pending.mpr (.inr (.inl hstate)))
  refine move_of_tries (c := c.countTick) rfl ?_
  refine tries_bind rfl fun _ hactive ↦ ?_
  rw [require_eq_ok_iff, Bool.not_eq_true'] at hactive
  have hdone : ∀ c₁ : Rv64AtomicCore, c₁.course = c.countTick.course →
      c.course.Move k ({ c₁.countWindowAccess with memoryRequest := none }.commit).course := by
    intro c₁ hc₁
    have hinstruction : c₁.instruction = p := by
      rw [instruction,
        show c₁.pending = some p from (congrArg HartCourse.pending hc₁).trans hpending,
        Option.getD_some]
    have hcourse : c₁.countWindowAccess.course = c.course.tick .windowAccess := by
      rw [course_countWindowAccess, hc₁]
      rfl
    have hmove : c.course.Move k ((c.course.tick .windowAccess).answered.retire p) :=
      .window hstate hpending rfl hactive
    rw [← hcourse, ← hinstruction] at hmove
    exact hmove
  refine Ensures.ite (fun _ ↦ ?_) fun _ ↦ ?_
  · exact tries_bind rfl fun value _ ↦ hdone _ (course_writeReg ..)
  · exact tries_bind rfl fun mmio _ ↦ hdone (setMmio k c.countTick mmio) rfl

/-! ## Responses

What the automaton calls `Resumes`: the instruction retires, or the next request of a vector access
is prepared.
-/

theorem takeVectorData_course (hcommitted : c₁.trace.committed = c.trace.committed) (data : Bytes) :
    Ensures (fun c' ↦ c'.course = { c₁.course with activeLoad := none })
      (fun e ↦ e.2.trace.committed = c.trace.committed) (takeVectorData c₁ data) := by
  rw [takeVectorData]
  split
  · exact hcommitted
  · exact ensures_onThrow_bind (fun _ _ ↦ hcommitted) fun _ _ ↦
      ensures_onThrow_bind (fun _ _ ↦ hcommitted) fun _ _ ↦ rfl

section Responses

variable {v : HartCourse} (hpending : v.pending = some p) (hactive : v.vectorActive = true)
  (hcommitted : v.committed = c.trace.committed)
include hpending hactive hcommitted

/-- The next request of a vector access is prepared, or the access retires. -/
theorem nextVectorRequest_resumes
    (hc₁ : c₁.course = { v with activeLoad := if v.vectorIsLoad then none else v.activeLoad }) :
    Tries c (v.Resumes p)
      (let c := { c₁ with memoryRequest := none }
      if c.moreVectorRequests then stageNextVectorRequest k c
      else do
        let c ← if c.vectorMemoryIsLoad then
            onThrow c (c.writeVectorGroup c.vectorMemoryRegister c.vectorLoadBuffer)
          else .ok c
        return { c with vectorLoadBuffer := [], vectorMemoryActive := false }.commit) := by
  have hcommitted₁ : c₁.trace.committed = c.trace.committed :=
    (congrArg HartCourse.committed hc₁).trans hcommitted
  set c₂ : Rv64AtomicCore := { c₁ with memoryRequest := none } with hc₂
  have hcourse₂ : c₂.course =
      { v.answered with activeLoad := if v.vectorIsLoad then none else v.activeLoad } :=
    congrArg HartCourse.answered hc₁
  have hisLoad : c₂.vectorMemoryIsLoad = v.vectorIsLoad := congrArg HartCourse.vectorIsLoad hc₁
  -- the access retires, whatever it has written
  have hdone : ∀ c₃ : Rv64AtomicCore, c₃.course = c₂.course →
      v.Resumes p { c₃ with vectorLoadBuffer := [], vectorMemoryActive :=
      false }.commit.course := by
    intro c₃ hc₃
    rw [hcourse₂] at hc₃
    have hinstruction : c₃.instruction = p := by
      rw [instruction,
        show c₃.pending = some p from (congrArg HartCourse.pending hc₃).trans hpending,
        Option.getD_some]
    have hresumes : v.Resumes p { c₃.course.retire c₃.instruction with vectorActive := false } := by
      rw [hinstruction, hc₃]
      exact .vectorDone rfl hactive rfl
    exact hresumes
  refine Ensures.ite (fun _ ↦ ?_) fun _ ↦ ?_
  · refine (@stageNextVectorRequest_course k c c₂ hcommitted₁).mono (fun c' hc' ↦ ?_) fun _ ↦ id
    rcases hc' with ⟨hload, q, d, hsize, hcourse⟩ | ⟨hload, q, hcourse⟩
    · rw [hcourse, hcourse₂]
      exact .vectorLoad hactive (hisLoad.symm.trans hload) hsize
    · have hload' := hisLoad.symm.trans hload
      rw [hcourse, hcourse₂, hload', if_neg (by decide)]
      exact .vectorStore hactive hload'
  · refine Ensures.ite (fun _ ↦ ?_) fun _ ↦ hdone _ rfl
    exact tries_bind hcommitted₁ fun c₃ hwrite ↦ hdone c₃ (course_writeVectorGroup hwrite)

theorem finishVectorMemoryResponse_resumes {response : MemoryResponse} (hc₁ : c₁.course = v) :
    Tries c (v.Resumes p) (finishVectorMemoryResponse k c₁ response) := by
  have hcommitted₁ : c₁.trace.committed = c.trace.committed :=
    (congrArg HartCourse.committed hc₁).trans hcommitted
  have hisLoad : c₁.vectorMemoryIsLoad = v.vectorIsLoad := congrArg HartCourse.vectorIsLoad hc₁
  rw [finishVectorMemoryResponse]
  refine Ensures.ite (fun hload ↦ ?_) fun hload ↦ ?_
  · refine Ensures.bind (takeVectorData_course hcommitted₁ response.data) fun c₂ hc₂ ↦ ?_
    refine nextVectorRequest_resumes hpending hactive hcommitted (hc₂.trans ?_)
    rw [hc₁, if_pos (hisLoad ▸ hload)]
  · refine nextVectorRequest_resumes hpending hactive hcommitted (hc₁.trans ?_)
    rw [if_neg (hisLoad ▸ hload)]

end Responses

theorem finishScalar_resumes {v : HartCourse} {q : MemoryRequest} (hpending : v.pending = some p)
    (hinactive : v.vectorActive = false) (hcommitted : v.committed = c.trace.committed)
    (hc₁ : c₁.course = v.answered) :
    Tries c (v.Resumes p) (handleTohostWrite k c₁ q >>= afterHost c₁) := by
  have hinstruction : c₁.instruction = p := by
    rw [instruction, show c₁.pending = some p from (congrArg HartCourse.pending hc₁).trans hpending,
      Option.getD_some]
  have hretire : v.Resumes p c₁.commit.course := by
    rw [course_commit, hinstruction, hc₁]
    exact .retire rfl hinactive
  have hstop : ∀ code reason, v.Resumes p (c₁.commit.stop code reason).course := by
    intro code reason
    rw [course_stop, course_commit, hinstruction, hc₁]
    exact .host rfl hinactive
  have hcommitted₁ : c₁.trace.committed = c.trace.committed :=
    (congrArg HartCourse.committed hc₁).trans hcommitted
  refine Ensures.bind ((handleTohostWrite_cases k c₁ q).mono (fun _ h ↦ h) fun e he ↦ ?_)
    fun result hresult ↦ ?_
  · rw [he]
    exact hcommitted₁
  · rcases hresult with rfl | ⟨code, reason, rfl⟩
    · exact hretire
    · exact hstop code reason

theorem takeResponse_move (hok : c.course.Ok) (hstate : c.state = .memoryWait) (bytes : Bytes) :
    c.course.Move k (recover (takeResponse k c.countTick bytes)).course := by
  obtain ⟨p, hpending⟩ := Option.isSome_iff_exists.mp (hok.pending.mpr (.inr (.inr hstate)))
  refine @move_of_tries k c.countTick _ _ rfl ?_
  refine tries_bind rfl fun response _ ↦ ?_
  split
  · rfl
  · next q _ =>
    refine tries_bind rfl fun _ _ ↦ tries_bind rfl fun _ _ ↦ ?_
    dsimp only
    -- The response has passed the checks and is recorded.
    set c₁ : Rv64AtomicCore := { c.countTick.recordLatency with
      trace := { c.countTick.trace with
        answered := c.countTick.trace.answered ++ [(q, response)] } } with hc₁
    have hcourse : c₁.course = c.course.tick .response := course_answer c.countTick (q, response)
    have hpending₁ : (c.course.tick .response).pending = some p := hpending
    have hresumes : Tries c.countTick ((c.course.tick .response).Resumes p)
        (if c₁.vectorMemoryActive then finishVectorMemoryResponse k c₁ response
        else do
          let c ← if q.op = MemoryOp.read then c₁.takeScalarData q response.data else .ok c₁
          handleTohostWrite k { c with memoryRequest := none } q >>=
            afterHost { c with memoryRequest := none }) := by
      refine Ensures.ite (fun hactive ↦ ?_) fun hinactive ↦ ?_
      · have hactive' : (c.course.tick .response).vectorActive = true :=
          (congrArg HartCourse.vectorActive hcourse).symm.trans hactive
        exact finishVectorMemoryResponse_resumes hpending₁ hactive' rfl hcourse
      · have hinactive' : (c.course.tick .response).vectorActive = false :=
          (congrArg HartCourse.vectorActive hcourse).symm.trans
          (Bool.eq_false_of_not_eq_true hinactive)
        have hrest : ∀ c₂ : Rv64AtomicCore, c₂.course = c₁.course →
            Tries c.countTick ((c.course.tick .response).Resumes p)
              (handleTohostWrite k { c₂ with memoryRequest := none } q >>=
                afterHost { c₂ with memoryRequest := none }) := by
          intro c₂ hc₂
          exact finishScalar_resumes hpending₁ hinactive' rfl
            (congrArg HartCourse.answered (hc₂.trans hcourse))
        refine Ensures.ite (fun _ ↦ ?_) fun _ ↦ hrest c₁ rfl
        refine Ensures.bind (?_ : Ensures (fun c₂ : Rv64AtomicCore ↦ c₂.course = c₁.course)
          (fun e : String × Rv64AtomicCore ↦
            e.2.trace.committed = c.countTick.trace.committed) _) hrest
        have hcommitted : c₁.trace.committed = c.countTick.trace.committed := rfl
        exact ensures_onThrow_bind (fun _ _ ↦ hcommitted) fun _ _ ↦ course_writeReg ..
    exact hresumes.mono (fun c' hc' ↦ .respond hstate hpending hc') fun _ ↦ id

/-! ## Every turn -/

theorem course_send (c : Rv64AtomicCore) :
    { c.startRequest with
      state := .memoryWait
      trace := { c.startRequest.trace with
        transactions := c.startRequest.trace.transactions ++ [c.startRequest.request]
        sent := c.startRequest.trace.sent + 1 } }.course =
      { c.course.count .send with state := .memoryWait } := by
  have hstart := course_startRequest c
  rw [← hstart]
  exact congrArg (fun v : HartCourse ↦ { v with state := .memoryWait })
    (@course_count c.startRequest { c.startRequest with
      trace := { c.startRequest.trace with sent := c.startRequest.trace.sent + 1 } } _ rfl
      (fun other h ↦ by cases other <;> first | rfl | exact absurd rfl h) rfl)

theorem Turn.move (hturn : Turn k c c') (hok : c.course.Ok) : c.course.Move k c'.course := by
  cases hturn with
  | adapter bus port memoryPort s =>
    obtain ⟨mmio, hc' | ⟨reason, hc'⟩⟩ := @tickMmio_fst k c _ bus port memoryPort s <;> rw [hc']
    · exact .rest
    · exact .fault ⟨rfl, rfl, rfl, rfl, rfl⟩ rfl
  | core bus port memoryPort s hcore =>
    rcases tickCore_cases hcore with rfl | ⟨hstate, rfl⟩ | ⟨hstate, rfl⟩ | ⟨hstate, hissue⟩ |
      ⟨hstate, hreceive⟩
    · exact .rest
    · exact fetchDecode_move hstate
    · exact advanceExecute_move hok hstate
    · rcases issueMemoryRequest_fst hissue with rfl | ⟨-, -, rfl⟩ | rfl | rfl | ⟨-, -, rfl⟩
      · rw [course_countVectorIssueWait]
        exact .waitIssue hstate (.inl rfl)
      · exact accessWindow_move hok hstate
      · rw [course_countSerializationWait]
        exact .waitIssue hstate (.inr (.inl rfl))
      · rw [course_countBlocked, course_startRequest]
        exact .waitIssue hstate (.inr (.inr rfl))
      · rw [course_send]
        exact .send hstate
    · rcases receiveMemoryResponse_fst hreceive with rfl | ⟨bytes, rfl⟩
      · rw [course_countMemoryWait]
        exact .waitResponse hstate
      · exact takeResponse_move hok hstate bytes

theorem construct_course {mmioDepth : UInt32} {stackTop : UInt64}
    (h : construct k mmioDepth stackTop = .ok c) : c.course = .initial := by
  obtain ⟨_, -, h⟩ := Except.bind_eq_ok_iff.mp h
  obtain ⟨mmio, -, h⟩ := Except.bind_eq_ok_iff.mp h
  obtain rfl := Except.ok.inj h
  have hcycles : ∀ c : Rv64AtomicCore, c.stats = {} → c.trace = {} → c.cyclesSpent = fun _ ↦ 0 := by
    intro c hstats htrace
    funext cls
    cases cls <;> simp [cyclesSpent, hstats, htrace]
  rw [course, hcycles _ rfl rfl]
  rfl

/-- What holds of a new hart and is kept by every move holds in every reachable state. -/
theorem Reachable.course_induction {P : HartCourse → Prop} (h : Reachable k c)
    (hinitial : P .initial)
    (hmove : ∀ v v' : HartCourse, v.Ok → P v → v.Move k v' → P v') : c.course.Ok ∧ P c.course := by
  induction h with
  | construct h =>
    rw [construct_course h]
    exact ⟨HartCourse.ok_initial, hinitial⟩
  | turn h hturn ih =>
    have hstep := hturn.move ih.1
    exact ⟨hstep.ok ih.1, hmove _ _ ih.1 ih.2 hstep⟩

theorem Reachable.course_ok (h : Reachable k c) : c.course.Ok :=
  (h.course_induction (P := fun _ ↦ True) trivial fun _ _ _ _ _ ↦ trivial).1

end Manycore.Rv64AtomicCore
