import SimbusNoc.Manycore.HartMoves
import SimbusNoc.Manycore.VectorTransactions

/-!
# The states of a core

Which of its optional members a core has in which state. A function that reads one without a check
is called only where it is there, and a queue is asked for its front only when it has one.

## Members

`WellFormed` is the invariant of the course, said of the core itself, with two things that the
course does not know: the pending instruction is what the word at the program counter decodes to,
and while a vector load is under way its buffer is as large as its destination group.

## Queues

In the source a queue without a front is an error of the program. In the model such a call throws
one of `missingReasons`, so that it can be told from all other errors, and `FindsFront` says that
an attempt throws none of them. A queue of a vector access is asked for its front when the next
request is staged and when its response is taken, and in both places a descriptor is left.
-/

namespace Manycore

open Simbus Rv64archsem Throwing

/-- A vector access begins in the last cycle of its instruction. -/
theorem HartCourse.Move.begins {k : Rv64Hart} {v v' : HartCourse} (h : Move k v v')
    (hinactive : v.vectorActive = false) (hactive : v'.vectorActive = true) :
    v.state = .executeWait ∧ ∃ p isLoad, v.pending = some p ∧ p.IsVectorAccess isLoad := by
  have habsurd : v.vectorActive ≠ true := by simp [hinactive]
  cases h with
  | rest => exact absurd hactive habsurd
  | fault h hcommitted => exact absurd hactive (by simp [h.vectorActive])
  | @execute p v' hstate hpending hleft h =>
    refine ⟨hstate, p, ?_⟩
    cases h with
    | retire hp' isLoad => exact absurd hactive habsurd
    | halt hcontrol => exact absurd hactive habsurd
    | scalar hcontrol => exact absurd hactive habsurd
    | vectorLoad hcontrol hsize => exact ⟨true, hpending, hcontrol⟩
    | vectorStore hcontrol => exact ⟨false, hpending, hcontrol⟩
  | respond hstate hpending h =>
    cases h with
    | retire hp' hactive' => exact absurd hactive habsurd
    | host hp' hactive' => exact absurd hactive habsurd
    | vectorLoad hactive' hisLoad hsize => exact absurd hactive' habsurd
    | vectorStore hactive' hisLoad => exact absurd hactive' habsurd
    | vectorDone hp' hactive' hload => exact absurd hactive' habsurd
  | _ => exact absurd hactive habsurd

theorem HartCourse.Move.committed {k : Rv64Hart} {v v' : HartCourse} (h : Move k v v') :
    v'.committed = v.committed ∨ ∃ p p', v.pending = some p ∧ p'.origin = p.origin ∧
      v'.committed = v.committed ++ [p'] := by
  cases h with
  | fault h hcommitted => exact .inl hcommitted
  | execute hstate hpending hleft h =>
    cases h with
    | retire hp' isLoad => exact .inr ⟨_, _, hpending, hp', rfl⟩
    | _ => exact .inl rfl
  | window hstate hpending hp' hactive => exact .inr ⟨_, _, hpending, hp', rfl⟩
  | respond hstate hpending h =>
    cases h with
    | retire hp' hactive => exact .inr ⟨_, _, hpending, hp', rfl⟩
    | host hp' hactive => exact .inr ⟨_, _, hpending, hp', rfl⟩
    | vectorDone hp' hactive hload => exact .inr ⟨_, _, hpending, hp', rfl⟩
    | _ => exact .inl rfl
  | _ => exact .inl rfl

/-- Only a fetch brings a hart to its countdown. -/
theorem HartCourse.Move.before_executeWait {k : Rv64Hart} {v v' : HartCourse} (h : Move k v v')
    (hstate : v'.state = .executeWait) : v.state = .executeWait ∨ v.state = .fetchDecode := by
  cases h with
  | rest => exact .inl hstate
  | fetch hfetch hlatency => exact .inr hfetch
  | countDown hwait hleft => exact .inl hwait
  | waitFence hwait hpending hfence => exact .inl hwait
  | execute hwait hpending hleft h => exact .inl hwait
  | fault h hcommitted => cases hstate.symm.trans h.state
  | waitIssue hissue => cases hstate.symm.trans hissue
  | window => cases hstate
  | send => cases hstate
  | waitResponse hwait => cases hstate.symm.trans hwait
  | respond hwait hpending h => cases h <;> cases hstate

theorem HartCourse.Ends.state_ne {v v' : HartCourse} {p : PendingInstruction} (h : v.Ends p v') :
    v'.state ≠ .executeWait := by
  intro hstate
  cases h <;> cases hstate

/-- The words of an image begin with its half words. -/
theorem ProgramImage.low_fetch32 {p : ProgramImage} {address : UInt64} {low : UInt16} {raw : UInt32}
    (hlow : p.fetch16 address = .ok low) (hraw : p.fetch32 address = .ok raw)
    (hlong : low &&& 3 = 3) : raw &&& 3 = 3 := by
  obtain ⟨b0, h0, hlow⟩ := Except.bind_eq_ok_iff.mp hlow
  obtain ⟨b1, h1, hlow⟩ := Except.bind_eq_ok_iff.mp hlow
  obtain rfl := Except.ok.inj hlow
  obtain ⟨b0', h0', hraw⟩ := Except.bind_eq_ok_iff.mp hraw
  obtain rfl := Except.ok.inj (h0'.symm.trans h0)
  obtain ⟨b1', -, hraw⟩ := Except.bind_eq_ok_iff.mp hraw
  obtain ⟨b2, -, hraw⟩ := Except.bind_eq_ok_iff.mp hraw
  obtain ⟨b3, -, hraw⟩ := Except.bind_eq_ok_iff.mp hraw
  obtain rfl := Except.ok.inj hraw
  have hthree : ∀ n : ℕ, n &&& 3 = n % 4 := fun n ↦ Nat.and_two_pow_sub_one_eq_mod n 2
  have h16 := congrArg UInt16.toNat hlong
  rw [UInt16.toNat_and, UInt16.toNat_ofNat'] at h16
  change _ &&& 3 = 3 at h16
  rw [hthree] at h16
  rw [← UInt32.toNat_inj, UInt32.toNat_and, UInt32.toNat_ofNat']
  change _ &&& 3 = 3
  rw [hthree]
  simp only [leValue] at h16 ⊢
  omega

namespace Rv64AtomicCore

variable {k : Rv64Hart} {c c' : Rv64AtomicCore}

/-! ## The pending instruction -/

/-- The pending instruction is what the word at the program counter decodes to. -/
def Decoded (k : Rv64Hart) (c : Rv64AtomicCore) : Prop :=
  ∃ inst instWord, Fetched c inst instWord ∧ k.arch.decode instWord = some inst ∧
    instWord &&& 0x3 = 0x3

theorem fetchDecode_decoded (hstate : (fetchDecode k c).state = .executeWait) :
    Decoded k (fetchDecode k c) := by
  set c₁ : Rv64AtomicCore :=
    { c with stats := { c.stats with fetchDecodeCycles := c.stats.fetchDecodeCycles + 1 } } with hc₁
  have hfetch : Ensures (fun c' ↦ c'.state = .executeWait → Decoded k c') (fun _ ↦ True)
      (fetch k c₁) := by
    refine ensures_onThrow_bind (fun _ _ ↦ trivial) fun low hlow ↦ Ensures.ite (fun _ h ↦ ?_)
      fun hlong ↦ ensures_onThrow_bind (fun _ _ ↦ trivial) fun raw hraw ↦ ?_
    · cases h
    · split
      · intro h
        cases h
      · next decoded hdecode =>
        refine ensures_onThrow_bind (fun _ _ ↦ trivial) fun cycles _ _ ↦ ?_
        exact ⟨decoded, raw, rfl, hdecode, ProgramImage.low_fetch32 hlow hraw (not_not.mp hlong)⟩
  rw [fetchDecode, ← hc₁] at hstate ⊢
  cases hresult : fetch k c₁ with
  | ok c' =>
    rw [hresult] at hstate
    exact hfetch.of_eq_ok hresult hstate
  | error e =>
    rw [hresult] at hstate
    cases hstate

/-- After its execution an instruction is still to be executed only if it waits for the adapter. -/
theorem execute_stays {p : PendingInstruction} (hpending : c.pending = some p)
    (hinactive : c.vectorMemoryActive = false) :
    Ensures (fun c' ↦ c'.state = .executeWait → c' = c.countSerializationWait) (fun _ ↦ True)
      (execute k c) := by
  by_cases hfence : isFence p.decoded.controlType = true
  · have hwait : Ensures (fun c' ↦ c'.state = .executeWait → c' = c.countSerializationWait)
        (fun _ ↦ True)
        (if c.mmio.busy then .ok c.countSerializationWait else .ok c.commit : Attempt) :=
      Ensures.ite (fun _ _ ↦ rfl) fun _ h ↦ Rv64CoreState.noConfusion h
    rw [execute, instruction, hpending, Option.getD_some]
    cases htype : p.decoded.controlType
    case fence | fencei | fenceTso => exact hwait
    all_goals
      rw [htype] at hfence
      cases hfence
  · exact (execute_ends hpending hinactive fun h ↦ absurd h hfence).mono
      (fun c' hends hstate ↦ absurd hstate hends.state_ne) fun _ _ ↦ trivial

theorem Reachable.decoded (h : Reachable k c) (hstate : c.state = .executeWait) : Decoded k c := by
  induction h with
  | construct h =>
    have hinitial := congrArg HartCourse.state (construct_course h)
    cases hstate.symm.trans hinitial
  | @turn c c' h hturn ih =>
    have hbefore : c.state = .executeWait ∨ c.state = .fetchDecode :=
      (hturn.move h.course_ok).before_executeWait hstate
    cases hturn with
    | adapter bus port memoryPort s =>
      obtain ⟨mmio, hc' | ⟨reason, hc'⟩⟩ := @tickMmio_fst k c _ bus port memoryPort s <;>
        rw [hc'] at hstate ⊢
      · exact ih hstate
      · cases hstate
    | core bus port memoryPort s hcore =>
      rcases hbefore with hwait | hfetch
      · have hinactive : c.vectorMemoryActive = false :=
          (h.course_ok.free (by simp [course, hwait]) (by simp [course, hwait])).vectorActive
        obtain ⟨p, hpending⟩ := Option.isSome_iff_exists.mp (h.course_ok.pending.mpr (.inl hwait))
        rw [tickCore_of_executeWait hwait] at hcore
        obtain rfl := (Prod.mk.inj (Except.ok.inj hcore)).1
        obtain ⟨stats, cyclesLeft, hc' | hc'⟩ := advanceExecute_cases k c
        · rw [hc']
          exact ih hwait
        · set c₁ : Rv64AtomicCore := { c with stats := stats, cyclesLeft := cyclesLeft }
          have hstays := execute_stays (k := k) (c := c₁) hpending hinactive
          rw [hc', executeReadyInstruction] at hstate ⊢
          cases hresult : execute k c₁ with
          | ok c₂ =>
            rw [hresult] at hstate
            rw [recover, hstays.of_eq_ok hresult hstate]
            exact ih hwait
          | error e =>
            rw [hresult] at hstate
            cases hstate
      · rw [tickCore_of_fetchDecode hfetch] at hcore
        obtain rfl := (Prod.mk.inj (Except.ok.inj hcore)).1
        exact fetchDecode_decoded hstate

/-! ## The buffer of a vector load -/

/-- A vector access that is under way has begun in a reachable state. -/
theorem Reachable.accessing (h : Reachable k c') (hactive : c'.vectorMemoryActive = true) :
    ∃ c, Reachable k c ∧ Accessing k c c' := by
  induction h with
  | construct h =>
    have hinactive := congrArg HartCourse.vectorActive (construct_course h)
    exact Bool.noConfusion (hactive.symm.trans hinactive)
  | @turn c₁ c₂ h hturn ih =>
    by_cases hactive₁ : c₁.vectorMemoryActive = true
    · obtain ⟨c, hc, haccess⟩ := ih hactive₁
      exact ⟨c, hc, haccess.turn hturn hactive⟩
    · obtain ⟨hstate, p, isLoad, hpending, hcontrol⟩ :=
        (hturn.move h.course_ok).begins (Bool.eq_false_of_not_eq_true hactive₁) hactive
      refine ⟨c₁, h, .start hstate ?_ hturn hactive⟩
      rw [instruction, show c₁.pending = some p from hpending, Option.getD_some]
      cases isLoad with
      | true => exact .inl hcontrol
      | false => exact .inr hcontrol

theorem length_copyBytes (words : List UInt64) (offset : ℕ) (data : Bytes) :
    (copyBytes words offset data).length = words.length := by
  simp [copyBytes]

theorem length_fill (buffer : List UInt64) (done : Replies) :
    (fill buffer done).length = buffer.length := by
  rw [fill]
  induction done generalizing buffer with
  | nil => rfl
  | cons x done ih => rw [List.foldl_cons, ih, length_copyBytes]

/-- While a vector load is under way its buffer is as large as the destination group. -/
theorem Reachable.length_vectorLoadBuffer (h : Reachable k c)
    (hactive : c.vectorMemoryActive = true) (hload : c.vectorMemoryIsLoad = true) :
    ∃ count, c.vectorGroupRegisters = .ok count ∧ c.vectorLoadBuffer.length = count * 4 := by
  obtain ⟨c₀, hc₀, haccess⟩ := h.accessing hactive
  obtain ⟨buffer, plan, done, t, q, hrequesting⟩ := haccess.underway hc₀
  obtain ⟨count, hcount, -⟩ := hc₀.setting_ok.bytes_le
  have hlmul : c.vectorContext.lmul = c₀.vectorContext.lmul :=
    (congrArg VecContext.lmul hrequesting.vectorContext).trans rfl
  refine ⟨count, ?_, ?_⟩
  · rw [vectorGroupRegisters, hlmul]
    exact hcount
  · rw [hrequesting.filled hload, length_fill]
    have hplans := hrequesting.plans
    rw [hload] at hplans
    cases hplans with
    | load hcontrol hname hplain hwidth hparse hbuffer =>
      exact length_readVectorGroup hcount hbuffer

/-! ## Queues

The functions of a vector access that look at the front of a queue, with the reason why there is
one.
-/

/-- What is thrown when the queue of a vector access has no front. -/
def missingReasons : List String :=
  ["missing vector load descriptor", "missing vector store descriptor"]

/-- The call throws nothing of that kind. -/
def Other {α : Type} (x : Except String α) : Prop :=
  Ensures (fun _ ↦ True) (· ∉ missingReasons) x

/-- The attempt never asks an empty queue for its front. -/
def FindsFront (x : Attempt) : Prop := Ensures (fun _ ↦ True) (fun e ↦ e.1 ∉ missingReasons) x

theorem FindsFront.bind {α : Type} {x : Except String α} {f : α → Attempt} (hx : Other x)
    (hf : ∀ a, x = .ok a → FindsFront (f a)) : FindsFront (onThrow c x >>= f) :=
  ensures_onThrow_bind (fun _ h ↦ hx.of_eq_error h) hf

theorem other_require {condition : Bool} {message : String} (h : message ∉ missingReasons) :
    Other (require condition message) := by
  cases condition with
  | true => trivial
  | false => exact h

theorem other_vectorGroupRegisters (c : Rv64AtomicCore) : Other c.vectorGroupRegisters := by
  rw [vectorGroupRegisters]
  split
  iterate 4 trivial
  exact (by decide : "fractional LMUL is not supported yet" ∉ missingReasons)

theorem other_readVectorGroup (c : Rv64AtomicCore) (base : Fin 32) :
    Other (c.readVectorGroup base) :=
  Ensures.bind (other_vectorGroupRegisters c) fun _ _ ↦
    Ensures.bind (other_require (by decide)) fun _ _ ↦ trivial

theorem other_writeVectorGroup (c : Rv64AtomicCore) (base : Fin 32) (words : List UInt64) :
    Other (c.writeVectorGroup base words) :=
  Ensures.bind (other_vectorGroupRegisters c) fun _ _ ↦
    Ensures.bind (other_require (by decide)) fun _ _ ↦ trivial

theorem other_vectorOperand (c : Rv64AtomicCore) (type : RegType) (index : Fin 32) :
    Other (c.vectorOperand type index) := by
  cases type with
  | none => trivial
  | gpreg => trivial
  | freg =>
    exact (by decide : "floating-point vector operands are not supported yet" ∉ missingReasons)
  | vreg => exact other_readVectorGroup c index

theorem other_vectorMemoryElementBytes (inst : DecodedInst) :
    Other (vectorMemoryElementBytes inst) := by
  rw [vectorMemoryElementBytes]
  split
  iterate 4 trivial
  exact (by decide : "unsupported vector memory element width" ∉ missingReasons)

theorem append_not_mem_missingReasons {start rest : String} (h : start.toList.head? = some 'v') :
    start ++ rest ∉ missingReasons := by
  intro hmem
  have hhead : (start ++ rest).toList.head? = some 'v' := by
    rw [String.toList_append, List.head?_append, h]
    rfl
  have hnone : ∀ r ∈ missingReasons, r.toList.head? ≠ some 'v' := by decide
  exact hnone _ hmem hhead

theorem stageNextVectorRequest_findsFront (h : c.moreVectorRequests = true) :
    FindsFront (stageNextVectorRequest k c) := by
  rw [stageNextVectorRequest]
  rw [moreVectorRequests] at h
  refine Ensures.ite (fun hload ↦ ?_) fun hload ↦ ?_
  · split
    · next hnone =>
      rw [hload, hnone] at h
      cases h
    · trivial
  · split
    · next hnone =>
      rw [Bool.eq_false_of_not_eq_true hload, hnone] at h
      cases h
    · trivial

theorem prepareVectorLoad_findsFront (k : Rv64Hart) (c : Rv64AtomicCore) :
    FindsFront (prepareVectorLoad k c) := by
  refine .bind (other_require (by decide)) fun _ _ ↦ .bind (other_require (by decide)) fun _ _ ↦ ?_
  refine .bind (other_vectorMemoryElementBytes _) fun width _ ↦
    .bind (other_require (by decide)) fun _ _ ↦ .bind (other_vectorOperand ..) fun operand _ ↦ ?_
  dsimp only
  split
  · exact append_not_mem_missingReasons rfl
  · refine .bind (other_readVectorGroup ..) fun buffer _ ↦ ?_
    refine Ensures.ite (fun _ ↦ trivial) fun hmore ↦ stageNextVectorRequest_findsFront ?_
    rw [moreVectorRequests]
    simpa using hmore

theorem prepareVectorStore_findsFront (k : Rv64Hart) (c : Rv64AtomicCore) :
    FindsFront (prepareVectorStore k c) := by
  refine .bind (other_require (by decide)) fun _ _ ↦ .bind (other_require (by decide)) fun _ _ ↦ ?_
  refine .bind (other_vectorMemoryElementBytes _) fun width _ ↦
    .bind (other_require (by decide)) fun _ _ ↦ .bind (other_vectorOperand ..) fun operand _ ↦
      .bind (other_readVectorGroup ..) fun data _ ↦ ?_
  dsimp only
  split
  · exact append_not_mem_missingReasons rfl
  · refine Ensures.ite (fun _ ↦ trivial) fun hmore ↦ stageNextVectorRequest_findsFront ?_
    rw [moreVectorRequests]
    simpa using hmore

theorem takeVectorData_findsFront (c : Rv64AtomicCore) (data : Bytes) :
    FindsFront (c.takeVectorData data) := by
  rw [takeVectorData]
  split
  · exact (by decide : "invalid vector load response" ∉ missingReasons)
  · exact FindsFront.bind (other_require (by decide)) fun _ _ ↦
      FindsFront.bind (other_require (by decide)) fun _ _ ↦ trivial

theorem finishVectorMemoryResponse_findsFront (k : Rv64Hart) (c : Rv64AtomicCore)
    (response : MemoryResponse) : FindsFront (finishVectorMemoryResponse k c response) := by
  have hrest : ∀ c₁ : Rv64AtomicCore, True → FindsFront
      (let c := { c₁ with memoryRequest := none }
      if c.moreVectorRequests then stageNextVectorRequest k c
      else do
        let c ← if c.vectorMemoryIsLoad then
            onThrow c (c.writeVectorGroup c.vectorMemoryRegister c.vectorLoadBuffer)
          else .ok c
        return { c with vectorLoadBuffer := [], vectorMemoryActive := false }.commit) := by
    intro c₁ _
    refine Ensures.ite (fun hmore ↦ stageNextVectorRequest_findsFront hmore) fun _ ↦ ?_
    refine Ensures.ite (fun _ ↦ ?_) fun _ ↦ trivial
    exact FindsFront.bind (other_writeVectorGroup ..) fun _ _ ↦ trivial
  rw [finishVectorMemoryResponse]
  refine Ensures.ite (fun _ ↦ ?_) fun _ ↦ hrest c trivial
  exact Ensures.bind (takeVectorData_findsFront c _) hrest

/-! ## Well-formed cores -/

/-- The optional members of a core are there exactly in the states that read them. -/
structure WellFormed (c : Rv64AtomicCore) : Prop where
  pending : c.pending.isSome ↔
    c.state = .executeWait ∨ c.state = .memoryIssue ∨ c.state = .memoryWait
  memoryRequest : c.memoryRequest.isSome ↔ c.state = .memoryIssue ∨ c.state = .memoryWait
  cyclesLeft : c.state = .executeWait → 1 ≤ c.cyclesLeft
  active : c.vectorMemoryActive = true → (c.state = .memoryIssue ∨ c.state = .memoryWait) ∧
    ∃ p, c.pending = some p ∧ p.IsVectorAccess c.vectorMemoryIsLoad
  activeVectorLoad : c.activeVectorLoad.isSome ↔
    c.vectorMemoryActive = true ∧ c.vectorMemoryIsLoad = true
  size : ∀ d request, c.activeVectorLoad = some d → c.memoryRequest = some request →
    d.size = request.size
  buffer : c.vectorMemoryActive = true → c.vectorMemoryIsLoad = true →
    ∃ count, c.vectorGroupRegisters = .ok count ∧ c.vectorLoadBuffer.length = count * 4

theorem Reachable.wellFormed (h : Reachable k c) : c.WellFormed where
  pending := h.course_ok.pending
  memoryRequest := h.course_ok.request
  cyclesLeft := h.course_ok.cyclesLeft
  active := h.course_ok.access
  activeVectorLoad := h.course_ok.activeLoad
  size := h.course_ok.size
  buffer := h.length_vectorLoadBuffer

/-- What a turn reads of the optional members is there: the instruction that it commits is the
pending one, and the queue whose front is asked for has one. -/
theorem members_present (h : Reachable k c) :
    c.WellFormed ∧
    (∀ c', Turn k c c' → c'.trace.committed = c.trace.committed ∨
      ∃ p p', c.pending = some p ∧ p'.origin = p.origin ∧
        c'.trace.committed = c.trace.committed ++ [p']) ∧
    FindsFront (prepareVectorLoad k c) ∧ FindsFront (prepareVectorStore k c) ∧
    ∀ response, FindsFront (finishVectorMemoryResponse k c response) :=
  ⟨h.wellFormed, fun _ hturn ↦ (hturn.move h.course_ok).committed, prepareVectorLoad_findsFront k c,
    prepareVectorStore_findsFront k c, finishVectorMemoryResponse_findsFront k c⟩

/-- A vector load that waits for its turn to be sent. -/
theorem members_present_misaligned :
    (runAnswered misalignedHart 4).1.state = .memoryIssue ∧
      (runAnswered misalignedHart 4).1.vectorMemoryActive = true ∧
      (runAnswered misalignedHart 4).1.WellFormed := by
  have hreachable : Reachable misalignedHart (runAnswered misalignedHart 4).1 :=
    reachable_runAnswered (by decide) fun i hi ↦ misalignedHart_returns i (hi.trans (by decide))
  exact ⟨rfl, rfl, (members_present hreachable).1⟩

end Rv64AtomicCore

end Manycore
