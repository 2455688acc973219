import SimbusNoc.Manycore.HartAccount
import SimbusNoc.Manycore.ProgramView

/-!
# Programs of base instructions on one hart

A core that has fetched nothing but base instructions is where the instruction set has the program:
between two instructions its program counter and registers are those of a run of the program, and
its answered requests are the accesses of this run. The bus may answer what it likes and when it
likes; what a load is answered is what the run reads.

## The conditions

`RunsBase` is about what a core has done so far: all that it has fetched are base instructions,
none of them a jump that the core does not make as it is written, it has not accessed the control
window, and it has not faulted. The words are those of the image, so it is a condition on the
program and its course.

## The simulation

`Follows` relates a core to a state of the abstract hart. `Phase` says how far the core is with the
instruction at this state: not fetched, fetched, about to ask memory, or waiting for it. A turn
leaves the abstract state as it is or takes one step, and a step with an access is taken when the
response comes, with the data that it brings. There is a lemma for each kind of turn, and
`Follows.turn` is all of them. What a program sees of a core (`ProgramView`) is less than its
course and its registers, so counters and delays need no lemmas beyond `Follows.congr`.
-/

namespace Manycore

open Simbus Rv64archsem Throwing Threads

/-! ## The states of a core -/

/-- An answered request as an access to memory. -/
def accessOf (x : MemoryRequest × MemoryResponse) : MemoryAccess :=
  if x.1.op = MemoryOp.read then .read x.1.address x.2.data else .write x.1.address x.1.data

namespace ProgramView

/-- The instruction at the program counter of `s` is `i`, and the core has fetched it. -/
structure Fetched (p : ProgramImage) (s : HartState) (v : ProgramView) (i : Instruction) :
    Prop where
  fetch : p.fetch32 s.pc = .ok i.encode
  pending : v.pending = some ⟨i.decoded, i.encode, s.pc, s.pc + 4⟩

/-- What a core in state `s` is doing. -/
inductive Phase (p : ProgramImage) (s : HartState) (v : ProgramView) : Prop
  | between (hstate : v.state = .fetchDecode ∨ v.state = .halted)
  | execute {i : Instruction} (hstate : v.state = .executeWait) (hfetched : v.Fetched p s i)
      (hjump : JumpsAsWritten i)
  | load {kind : LoadKind} {rd rs1 : Fin 32} {offset : BitVec 12} {q : MemoryRequest}
      (hstate : v.state = .memoryIssue ∨ v.state = .memoryWait)
      (hfetched : v.Fetched p s (.load kind rd rs1 offset)) (hrequest : v.request = some q)
      (hop : q.op = MemoryOp.read) (haddress : q.address = s.x rs1 + immediate offset)
      (hsize : q.size.toNat = kind.size) (hrd : v.loadRd = rd)
      (hextension : v.loadExtension = kind.extension)
  | store {kind : StoreKind} {rs1 rs2 : Fin 32} {offset : BitVec 12} {q : MemoryRequest}
      (hstate : v.state = .memoryIssue ∨ v.state = .memoryWait)
      (hfetched : v.Fetched p s (.store kind rs1 rs2 offset)) (hrequest : v.request = some q)
      (hop : q.op = MemoryOp.write) (haddress : q.address = s.x rs1 + immediate offset)
      (hdata : q.data = appendLe kind.size (s.x rs2).toNat)

/-- A core is in state `s` of a run of its program. -/
structure Follows (p : ProgramImage) (tohost : Option UInt64) (hart : UInt32) (first s : HartState)
    (v : ProgramView) : Prop where
  path : Path (HartStep p tohost hart) first (v.answered.map accessOf) s
  pc : v.pc = s.pc
  x : v.x = s.x
  retired : v.retired = s.retired
  exit : s.exit = if v.state = .halted then some v.exitCode else none
  phase : v.Phase p s
  inactive : v.vectorActive = false
  adapter : v.adapter = ([], [], [])

end ProgramView

namespace Rv64AtomicCore

/-- The core has fetched nothing but base instructions, has not accessed the control window and has
not faulted. -/
structure RunsBase (c : Rv64AtomicCore) : Prop where
  fetched : ∀ f ∈ c.trace.fetched, ∃ i, JumpsAsWritten i ∧ f.1.raw = i.encode
  window : c.trace.windowAccesses = 0
  running : c.state ≠ .faulted

end Rv64AtomicCore

/-! ## What a turn leaves

The records of a core only grow, so a core that has run base instructions only has done so before.
-/

theorem HartCourse.cycles_le_tick (v : HartCourse) (cls cls' : CycleClass) :
    v.cycles cls' ≤ (v.tick cls).cycles cls' := by
  change _ ≤ Function.update v.cycles cls (v.cycles cls + 1) cls'
  by_cases h : cls' = cls
  · subst h
    rw [Function.update_self]
    omega
  · rw [Function.update_of_ne h]

/-- A hart that has not faulted had not faulted before, and its records only grow. -/
theorem HartCourse.Move.before {k : Rv64Hart} {v v' : HartCourse} (h : Move k v v')
    (hrunning : v'.state ≠ .faulted) : v.state ≠ .faulted ∧ v.fetched <+: v'.fetched ∧
      v.cycles .windowAccess ≤ v'.cycles .windowAccess := by
  have hne : ∀ {st : Rv64CoreState}, v.state = st → st ≠ .faulted → v.state ≠ .faulted :=
    fun h hst ↦ h ▸ hst
  have hle := fun cls ↦ v.cycles_le_tick cls .windowAccess
  cases h with
  | rest => exact ⟨hrunning, List.prefix_rfl, le_rfl⟩
  | fault h => exact absurd h.state hrunning
  | fetch hstate => exact ⟨hne hstate (by decide), List.prefix_append .., hle .fetchDecode⟩
  | countDown hstate => exact ⟨hne hstate (by decide), List.prefix_rfl, hle .executeWait⟩
  | waitFence hstate => exact ⟨hne hstate (by decide), List.prefix_rfl, hle _⟩
  | execute hstate hpending hleft h =>
    refine ⟨hne hstate (by decide), ?_⟩
    cases h <;> exact ⟨List.prefix_rfl, hle .executeWait⟩
  | waitIssue hstate => exact ⟨hne hstate (by decide), List.prefix_rfl, hle _⟩
  | window hstate => exact ⟨hne hstate (by decide), List.prefix_rfl, hle .windowAccess⟩
  | send hstate => exact ⟨hne hstate (by decide), List.prefix_rfl, hle .send⟩
  | waitResponse hstate => exact ⟨hne hstate (by decide), List.prefix_rfl, hle _⟩
  | respond hstate hpending h =>
    refine ⟨hne hstate (by decide), ?_⟩
    cases h <;> exact ⟨List.prefix_rfl, hle .response⟩

namespace Rv64AtomicCore

variable {k : Rv64Hart} {c c' : Rv64AtomicCore} {first s : HartState}

theorem Turn.runsBase (hturn : Turn k c c') (hok : c.course.Ok) (h : c'.RunsBase) : c.RunsBase := by
  obtain ⟨hrunning, hfetched, hwindow⟩ := (hturn.move hok).before h.running
  refine ⟨fun f hf ↦ h.fetched f (hfetched.subset hf), ?_, hrunning⟩
  have : c.trace.windowAccesses ≤ c'.trace.windowAccesses := hwindow
  have := h.window
  omega

/-! ## The turns of a core

What the turns of a core do to what a program sees of it, by the state of the core.
-/

theorem fetchDecode_cases (k : Rv64Hart) (c : Rv64AtomicCore) :
    (fetchDecode k c).state = .faulted ∨ ∃ raw decoded vl,
      k.program.fetch32 c.pc = .ok raw ∧ k.arch.decode raw = some decoded ∧
      (fetchDecode k c).programView = { c.programView with
        state := .executeWait, pending := some ⟨decoded, raw, c.pc, c.pc + 4⟩ } ∧
      (fetchDecode k c).trace.fetched =
        c.trace.fetched ++ [(⟨decoded, raw, c.pc, c.pc + 4⟩, vl)] := by
  set c₁ : Rv64AtomicCore :=
    { c with stats := { c.stats with fetchDecodeCycles := c.stats.fetchDecodeCycles + 1 } } with hc₁
  have hfetch : Ensures (fun c' ↦ c'.state = .faulted ∨ ∃ raw decoded vl,
      k.program.fetch32 c.pc = .ok raw ∧ k.arch.decode raw = some decoded ∧
      c'.programView = { c.programView with
        state := .executeWait, pending := some ⟨decoded, raw, c.pc, c.pc + 4⟩ } ∧
      c'.trace.fetched = c.trace.fetched ++ [(⟨decoded, raw, c.pc, c.pc + 4⟩, vl)])
      (fun _ ↦ True) (fetch k c₁) := by
    refine ensures_onThrow_bind (fun _ _ ↦ trivial) fun low _ ↦ Ensures.ite (fun _ ↦ .inl rfl)
      fun _ ↦ ensures_onThrow_bind (fun _ _ ↦ trivial) fun raw hraw ↦ ?_
    split
    · exact .inl rfl
    · next decoded hdecode =>
      refine ensures_onThrow_bind (fun _ _ ↦ trivial) fun cycles _ ↦ ?_
      exact .inr ⟨raw, decoded, c.vectorContext.vl, hraw, hdecode, rfl, rfl⟩
  rw [fetchDecode, ← hc₁]
  cases hresult : fetch k c₁ with
  | ok c' => exact hfetch.of_eq_ok hresult
  | error e => exact .inl rfl

theorem accessWindow_cases (k : Rv64Hart) (c : Rv64AtomicCore) :
    (recover (accessWindow k c)).state = .faulted ∨
      (recover (accessWindow k c)).trace.windowAccesses = c.trace.windowAccesses + 1 := by
  have hwrite : ∀ (rd : Fin 32) (value : UInt64),
      (c.writeReg rd value).trace.windowAccesses = c.trace.windowAccesses := by
    intro rd value
    rw [writeReg]
    split <;> rfl
  have haccess : Ensures (fun c' ↦ c'.trace.windowAccesses = c.trace.windowAccesses + 1)
      (fun _ ↦ True) (accessWindow k c) := by
    refine ensures_onThrow_bind (fun _ _ ↦ trivial) fun _ _ ↦ Ensures.ite (fun _ ↦ ?_) fun _ ↦ ?_
    · refine ensures_onThrow_bind (fun _ _ ↦ trivial) fun value _ ↦ ?_
      exact congrArg (· + 1) (hwrite c.loadRd value)
    · exact ensures_onThrow_bind (fun _ _ ↦ trivial) fun mmio _ ↦ rfl
  cases hresult : accessWindow k c with
  | ok c' => exact .inr (haccess.of_eq_ok hresult)
  | error e => exact .inl rfl

/-- The core with an answer to its request. -/
def answer (c : Rv64AtomicCore) (q : MemoryRequest) (r : MemoryResponse) : Rv64AtomicCore :=
  { c.recordLatency with
    trace := { c.trace with answered := c.trace.answered ++ [(q, r)] }
    memoryRequest := none }

theorem programView_answer (c : Rv64AtomicCore) (q : MemoryRequest) (r : MemoryResponse) :
    (c.answer q r).programView = { c.programView with
      request := none, answered := c.programView.answered ++ [(q, r)] } := by
  rw [answer, recordLatency]
  split <;> rfl

theorem instruction_answer (c : Rv64AtomicCore) (q : MemoryRequest) (r : MemoryResponse) :
    (c.answer q r).instruction = c.instruction := by
  rw [answer, recordLatency]
  split <;> rfl

/-- The instruction is done, and the core has stopped if it has a code to stop with. -/
def Done (exit : Option Int32) (c c' : Rv64AtomicCore) : Prop :=
  exit = none ∧ c' = c.commit ∨ ∃ code reason, exit = some code ∧ c' = c.commit.stop code reason

/-- The code that a request stops its hart with. -/
def exitOf (k : Rv64Hart) (q : MemoryRequest) : Option Int32 :=
  if q.op = MemoryOp.write then hostExit k.tohostAddress q.address q.data else none

theorem and_one_eq_zero_iff (value : UInt64) : value &&& 1 = 0 ↔ value.toNat % 2 = 0 := by
  rw [← Nat.and_one_is_mod, ← UInt64.toNat_one, ← UInt64.toNat_and, ← UInt64.toNat_zero,
    UInt64.toNat_inj]

theorem toInt32_min (value : UInt64) :
    (min value 124).toUInt32.toInt32 = .ofNat (min value.toNat 124) := by
  have hmin : min value 124 = if value ≤ 124 then value else 124 := rfl
  have hle : value ≤ 124 ↔ value.toNat ≤ 124 := UInt64.le_iff_toNat_le
  rw [hmin]
  split_ifs with h
  · rw [min_eq_left (hle.mp h)]
    rfl
  · rw [min_eq_right (le_of_not_ge (h ∘ hle.mpr))]
    rfl

/-- What a core does when a request is done: it goes on, or stops with the code of the request. -/
theorem done_of_handleTohostWrite {q : MemoryRequest} :
    Ensures (Done (exitOf k q) c) (fun _ ↦ True) (handleTohostWrite k c q >>= afterHost c) := by
  have hgoes : exitOf k q = none → Ensures (Done (exitOf k q) c) (fun _ ↦ True)
      ((pure none : Except (String × Rv64AtomicCore) _) >>= afterHost c) :=
    fun hexit ↦ .inl ⟨hexit, rfl⟩
  have hstops : ∀ code reason, exitOf k q = some code →
      Ensures (Done (exitOf k q) c) (fun _ ↦ True)
        ((pure (some (c.commit.stop code reason)) : Except (String × Rv64AtomicCore) _) >>=
          afterHost c) :=
    fun code reason hexit ↦ .inr ⟨code, reason, hexit, rfl⟩
  rw [handleTohostWrite]
  by_cases hother : k.tohostAddress ≠ some q.address ∨ q.op ≠ MemoryOp.write
  · rw [if_pos hother]
    refine hgoes ?_
    rw [exitOf, hostExit]
    split_ifs with hop hwrites
    · exact absurd hwrites.1 (hother.resolve_right (not_not.mpr hop))
    · rfl
    · rfl
  · rw [if_neg hother]
    obtain ⟨haddress, hop⟩ := not_or.mp hother
    cases hcheck : !(q.data.isEmpty || decide (8 < q.data.length)) with
    | false => trivial
    | true =>
      -- eight bytes fit into a word
      have hlt : leValue q.data < 2 ^ 64 := by
        rw [Bool.not_eq_true', Bool.or_eq_false_iff, decide_eq_false_iff_not, not_lt] at hcheck
        exact (leValue_lt q.data).trans_le (Nat.pow_le_pow_right (by decide) hcheck.2)
      have hvalue : (UInt64.ofNat (leValue q.data)).toNat = leValue q.data :=
        UInt64.toNat_ofNat_of_lt' hlt
      have hhalf : (UInt64.ofNat (leValue q.data) >>> 1).toNat = leValue q.data / 2 := by
        rw [UInt64.toNat_shiftRight, hvalue]
        rfl
      have hexit : exitOf k q = if leValue q.data % 2 = 1 then
          some (.ofNat (min (leValue q.data / 2) 124)) else none := by
        rw [exitOf, if_pos (not_not.mp hop), hostExit]
        simp only [not_not.mp haddress, true_and]
      generalize UInt64.ofNat (leValue q.data) = value at hvalue hhalf
      change Ensures _ _ ((if value = 0 ∨ value &&& 1 = 0 then pure none else
        if value >>> 1 = 0 then pure (some (c.commit.stop 0 "tohost pass"))
        else pure (some (c.commit.stop (min (value >>> 1) 124).toUInt32.toInt32
          s!"tohost failure {(value >>> 1).toNat}")) : Except _ _) >>= afterHost c)
      have hzero : value = 0 ∨ value &&& 1 = 0 ↔ leValue q.data % 2 = 0 := by
        rw [and_one_eq_zero_iff, hvalue, or_iff_right_of_imp]
        rintro rfl
        rw [← hvalue]
        rfl
      by_cases heven : leValue q.data % 2 = 0
      · rw [if_pos (hzero.mpr heven)]
        exact hgoes (hexit.trans (if_neg (by omega)))
      · rw [if_neg (heven ∘ hzero.mp)]
        have hcode := hexit.trans (if_pos (by omega))
        by_cases hpass : value >>> 1 = 0
        · rw [if_pos hpass]
          have hnone : leValue q.data / 2 = 0 := by
            rw [← hhalf, hpass]
            rfl
          exact hstops _ _ (hcode.trans (by rw [hnone]; rfl))
        · rw [if_neg hpass]
          exact hstops _ _ (hcode.trans (by rw [toInt32_min, hhalf]))

/-- The response to a scalar request: the data of a load goes to its register. -/
theorem takeResponse_scalar {bytes : Bytes} {q : MemoryRequest}
    (hrequest : c.memoryRequest = some q)
    (hinactive : c.vectorMemoryActive = false)
    (hrunning : (recover (takeResponse k c bytes)).state ≠ .faulted) :
    ∃ r : MemoryResponse,
      (q.op = MemoryOp.read ∧ r.data.length = q.size.toNat ∧
        Done (exitOf k q) ((c.answer q r).writeReg c.loadRd
          (extend c.loadExtension (UInt64.ofNat (leValue r.data))))
          (recover (takeResponse k c bytes))) ∨
      (q.op ≠ MemoryOp.read ∧ Done (exitOf k q) (c.answer q r)
      (recover (takeResponse k c bytes))) := by
  -- The checks of the response throw, so what returns has passed them.
  have htake : Ensures (fun c' ↦ ∃ r : MemoryResponse,
      (q.op = MemoryOp.read ∧ r.data.length = q.size.toNat ∧
        Done (exitOf k q) ((c.answer q r).writeReg c.loadRd
          (extend c.loadExtension (UInt64.ofNat (leValue r.data)))) c') ∨
      (q.op ≠ MemoryOp.read ∧ Done (exitOf k q) (c.answer q r) c')) (fun _ ↦ True)
      (takeResponse k c bytes) := by
    refine ensures_onThrow_bind (fun _ _ ↦ trivial) fun r _ ↦ ?_
    rw [hrequest]
    refine ensures_onThrow_bind (fun _ _ ↦ trivial) fun _ _ ↦
      ensures_onThrow_bind (fun _ _ ↦ trivial) fun _ _ ↦ ?_
    dsimp only
    obtain ⟨hrd, hextension, hactive⟩ : c.recordLatency.loadRd = c.loadRd ∧
        c.recordLatency.loadExtension = c.loadExtension ∧
        c.recordLatency.vectorMemoryActive = c.vectorMemoryActive := by
      rw [recordLatency]
      split <;> exact ⟨rfl, rfl, rfl⟩
    rw [if_neg (by rw [hactive, hinactive]; decide)]
    refine Ensures.ite (fun hop ↦ ?_) fun hop ↦ ?_
    · rw [takeScalarData]
      refine Ensures.bind (P := fun c₁ ↦ r.data.length = q.size.toNat ∧
        { c₁ with memoryRequest := none } = (c.answer q r).writeReg c.recordLatency.loadRd
          (extend c.recordLatency.loadExtension (UInt64.ofNat (leValue r.data)))) ?_ ?_
      · refine ensures_onThrow_bind (fun _ _ ↦ trivial) fun _ hcheck ↦ ⟨?_, ?_⟩
        · rw [require_eq_ok_iff, Bool.not_eq_true', Bool.or_eq_false_iff, Bool.not_eq_false',
            beq_iff_eq] at hcheck
          exact hcheck.1
        · rw [writeReg, writeReg]
          split <;> rfl
      · rintro c₁ ⟨hlength, hc₁⟩
        rw [hc₁, hrd, hextension]
        exact done_of_handleTohostWrite.mono (fun c' hc' ↦ ⟨r, .inl ⟨hop, hlength, hc'⟩⟩)
          fun _ _ ↦ trivial
    · exact done_of_handleTohostWrite.mono (fun c' hc' ↦ ⟨r, .inr ⟨hop, hc'⟩⟩) fun _ _ ↦ trivial
  cases hresult : takeResponse k c bytes with
  | ok c' => exact htake.of_eq_ok hresult
  | error e =>
    rw [hresult] at hrunning
    exact absurd rfl hrunning

/-! ## Following a run

A turn either leaves the state of the abstract hart as it is and moves the core on within the
instruction, or it finishes the instruction, which is one step.
-/

/-- A core that follows a run of its program. -/
abbrev Follows (k : Rv64Hart) (first s : HartState) (c : Rv64AtomicCore) : Prop :=
  c.programView.Follows k.program k.tohostAddress k.hartId first s

theorem Follows.shows (h : Follows k first s c) : Shows c s := ⟨h.pc, h.x, h.retired, h.exit⟩

theorem Follows.exit_eq_none (h : Follows k first s c) (hstate : c.state ≠ .halted) :
    s.exit = none := h.exit.trans (if_neg hstate)

theorem Follows.busy (h : Follows k first s c) : c.mmio.busy = false := by
  have hrequests : c.mmio.requests = [] := congrArg Prod.fst h.adapter
  rw [MmioBusAdapter.busy, hrequests]
  rfl

/-- What the last cycle of an execution makes of a core goes on with the run. -/
theorem Follows.execute (h : Follows k first s c) (hstate : c.state = .executeWait)
    {i : Instruction} {v : ProgramView} (hfetched : c.programView.Fetched k.program s i)
    (hexecutes : ProgramView.Executes k.tohostAddress k.hartId s c.programView i v) :
    ∃ s', v.Follows k.program k.tohostAddress k.hartId first s' ∧
      v.answered = c.programView.answered := by
  have hexit : s.exit = none := h.exit_eq_none (by rw [hstate]; decide)
  cases hexecutes with
  | @goes _ s' heffect hsame =>
    have hstep : HartStep k.program k.tohostAddress k.hartId s none s' :=
      ⟨hexit, i, hfetched.fetch, heffect ▸ .goes s'⟩
    exact ⟨s', ⟨h.path.silent hstep, rfl, rfl, rfl, hsame.trans hexit, .between (.inl rfl),
      h.inactive, h.adapter⟩, rfl⟩
  | load hop haddress hsize =>
    exact ⟨s, ⟨h.path, h.pc, h.x, h.retired, hexit,
      .load (.inl rfl) ⟨hfetched.fetch, hfetched.pending⟩ rfl hop
      haddress hsize rfl rfl, h.inactive, h.adapter⟩, rfl⟩
  | store hop haddress hdata =>
    exact ⟨s, ⟨h.path, h.pc, h.x, h.retired, hexit,
      .store (.inl rfl) ⟨hfetched.fetch, hfetched.pending⟩ rfl hop
      haddress hdata, h.inactive, h.adapter⟩, rfl⟩
  | @stops _ code heffect =>
    have hstep : HartStep k.program k.tohostAddress k.hartId s none (s.stopWith (some code)) :=
      ⟨hexit, i, hfetched.fetch, heffect ▸ .goes _⟩
    exact ⟨s.stopWith (some code),
      ⟨h.path.silent hstep, h.pc, h.x, h.retired, rfl, .between (.inr rfl),
      h.inactive, h.adapter⟩, rfl⟩

theorem Follows.sent (h : Follows k first s c) {v : ProgramView} (hstate : c.state = .memoryIssue)
    (hv : v = { c.programView with state := .memoryWait }) :
    v.Follows k.program k.tohostAddress k.hartId first s := by
  subst hv
  have hne : c.programView.state = .memoryIssue := hstate
  refine { h with phase := ?_, exit := h.exit_eq_none (by rw [hstate]; decide) }
  cases h.phase with
  | between hother => rcases hother with hother | hother <;> cases hne.symm.trans hother
  | execute hother => cases hne.symm.trans hother
  | load _ hfetched hrequest hop haddress hsize hrd hextension =>
    exact .load (.inr rfl) ⟨hfetched.fetch, hfetched.pending⟩ hrequest hop haddress hsize
      hrd hextension
  | store _ hfetched hrequest hop haddress hdata =>
    exact .store (.inr rfl) ⟨hfetched.fetch, hfetched.pending⟩ hrequest hop haddress hdata

/-- The last step of an access: the core is where the step leads, or has stopped there. -/
theorem Follows.done (h : Follows k first s c) {c₁ : Rv64AtomicCore} {s' : HartState}
    {q : MemoryRequest} {r : MemoryResponse}
    (hstep : HartStep k.program k.tohostAddress k.hartId s (some (accessOf (q, r))) s')
    (hview : c₁.commit.programView =
      { c.programView.retire s' with
        request := none, answered := c.programView.answered ++ [(q, r)] })
    (hdone : Done s'.exit c₁ c') :
    Follows k first s' c' ∧ c'.trace.answered = c.trace.answered ++ [(q, r)] := by
  have hpath : Path (HartStep k.program k.tohostAddress k.hartId) first
      ((c.programView.answered ++ [(q, r)]).map accessOf) s' := by
    rw [List.map_append]
    exact h.path.act hstep
  have hanswered : c₁.commit.trace.answered = c.trace.answered ++ [(q, r)] :=
    congrArg ProgramView.answered hview
  rcases hdone with ⟨hexit, rfl⟩ | ⟨code, reason, hexit, rfl⟩
  · refine ⟨?_, hanswered⟩
    rw [Follows, hview]
    exact ⟨hpath, rfl, rfl, rfl, hexit, .between (.inl rfl), h.inactive, h.adapter⟩
  · refine ⟨?_, hanswered⟩
    have hstopped : (c₁.commit.stop code reason).programView =
        { c₁.commit.programView with state := .halted, exitCode := code, pending := none } := rfl
    rw [Follows, hstopped, hview]
    exact ⟨hpath, rfl, rfl, rfl, hexit, .between (.inr rfl), h.inactive, h.adapter⟩

/-- The access of a load takes place with whatever data of its size. -/
theorem takes_load {tohost : Option UInt64} {hart : UInt32} {kind : LoadKind} {rd rs1 : Fin 32}
    {offset : BitVec 12}
    {q : MemoryRequest} {r : MemoryResponse} (hop : q.op = MemoryOp.read)
    (haddress : q.address = s.x rs1 + immediate offset) (hsize : q.size.toNat = kind.size)
    (hlength : r.data.length = q.size.toNat) :
    (effect tohost hart s (.load kind rd rs1 offset)).Takes (some (accessOf (q, r)))
      (s.write rd (kind.value r.data)).next := by
  rw [accessOf, if_pos hop, effect, ← haddress, ← hsize, ← hlength]
  exact .reads q.address r.data fun data ↦ (s.write rd (kind.value data)).next

theorem takes_store {tohost : Option UInt64} {hart : UInt32} {kind : StoreKind} {rs1 rs2 : Fin 32}
    {offset : BitVec 12}
    {q : MemoryRequest} (hop : q.op = MemoryOp.write)
    (haddress : q.address = s.x rs1 + immediate offset)
    (hdata : q.data = appendLe kind.size (s.x rs2).toNat) (r : MemoryResponse) :
    (effect tohost hart s (.store kind rs1 rs2 offset)).Takes (some (accessOf (q, r)))
      (s.next.stopWith (hostExit tohost q.address q.data)) := by
  have hne : q.op ≠ MemoryOp.read := by
    rw [hop]
    decide
  rw [accessOf, if_neg hne, effect, ← haddress, ← hdata]
  exact .writes q.address q.data _

/-- The step that the answer to a request leads to. -/
theorem Follows.exists_step (h : Follows k first s c) (hstate : c.state = .memoryWait)
    {q : MemoryRequest} {r : MemoryResponse} (hq : c.memoryRequest = some q)
    (hlength : q.op = MemoryOp.read → r.data.length = q.size.toNat) :
    ∃ s', HartStep k.program k.tohostAddress k.hartId s (some (accessOf (q, r))) s' := by
  have hne : c.programView.state = .memoryWait := hstate
  have hexit : s.exit = none := h.exit_eq_none (by rw [hstate]; decide)
  cases h.phase with
  | between hother => rcases hother with hother | hother <;> cases hne.symm.trans hother
  | execute hother => cases hne.symm.trans hother
  | load _ hfetched hrequest hop haddress hsize =>
    obtain rfl := Option.some.inj (hq.symm.trans hrequest)
    exact ⟨_, hexit, _, hfetched.fetch, takes_load hop haddress hsize (hlength hop)⟩
  | store _ hfetched hrequest hop haddress hdata =>
    obtain rfl := Option.some.inj (hq.symm.trans hrequest)
    exact ⟨_, hexit, _, hfetched.fetch, takes_store hop haddress hdata r⟩

theorem Follows.respond (h : Follows k first s c) (hstate : c.state = .memoryWait) {bytes : Bytes}
    (hrunning : (recover (takeResponse k c bytes)).state ≠ .faulted) :
    ∃ s' x, Follows k first s' (recover (takeResponse k c bytes)) ∧
      (recover (takeResponse k c bytes)).trace.answered = c.trace.answered ++ [x] := by
  have hne : c.programView.state = .memoryWait := hstate
  have hexit : s.exit = none := h.exit_eq_none (by rw [hstate]; decide)
  have hshows : ∀ q r, Shows (c.answer q r) s := by
    intro q r
    have hview := programView_answer c q r
    refine ⟨(congrArg ProgramView.pc hview).trans h.pc, (congrArg ProgramView.x hview).trans h.x,
      (congrArg ProgramView.retired hview).trans h.retired, ?_⟩
    rw [if_neg, hexit]
    rw [show (c.answer q r).state = .memoryWait from (congrArg ProgramView.state hview).trans hne]
    decide
  have hnext : ∀ {i : Instruction}, c.programView.Fetched k.program s i →
      ∀ q r, (c.answer q r).instruction.pc = s.pc ∧
        (c.answer q r).instruction.nextPc = s.pc + 4 := by
    intro i hfetched q r
    rw [instruction_answer, instruction, show c.pending = _ from hfetched.pending]
    exact ⟨rfl, rfl⟩
  -- Only a load or a store waits for memory. Its step is taken now, with the data that has come.
  cases h.phase with
  | between hother => rcases hother with hother | hother <;> cases hne.symm.trans hother
  | execute hother => cases hne.symm.trans hother
  | @load kind rd rs1 offset q _ hfetched hrequest hop haddress hsize hrd hextension =>
    obtain ⟨r, ⟨-, hlength, hdone⟩ | ⟨hne', -⟩⟩ := takeResponse_scalar hrequest h.inactive hrunning
    · have hnone : exitOf k q = none := by
        rw [exitOf, hop]
        exact if_neg (by decide)
      refine ⟨_, (q, r), h.done ⟨hexit, _, hfetched.fetch, takes_load hop haddress hsize hlength⟩ ?_
        ((hnone.trans hexit.symm) ▸ hdone)⟩
      rw [(hshows q r).commit_writeReg (hnext hfetched q r).1 (hnext hfetched q r).2,
        programView_answer,
        show c.loadRd = rd from hrd, show c.loadExtension = _ from hextension, extend_eq]
      rfl
    · exact absurd hop hne'
  | @store kind rs1 rs2 offset q _ hfetched hrequest hop haddress hdata =>
    obtain ⟨r, ⟨hop', -⟩ | ⟨-, hdone⟩⟩ := takeResponse_scalar hrequest h.inactive hrunning
    · rw [hop] at hop'
      exact absurd hop' (by decide)
    · refine ⟨_, (q, r), h.done ⟨hexit, _, hfetched.fetch, takes_store hop haddress hdata r⟩ ?_
        ((show exitOf k q = hostExit k.tohostAddress q.address q.data from if_pos hop) ▸ hdone)⟩
      rw [(hshows q r).commit (hnext hfetched q r).1 (hnext hfetched q r).2, programView_answer]
      rfl

/-- What a program sees of a core is what it is, with the ticks that are counted. -/
theorem programView_startRequest (c : Rv64AtomicCore) : c.startRequest.programView =
    c.programView := by
  rw [startRequest]
  split <;> rfl

theorem programView_countExecuteWait (c : Rv64AtomicCore) :
    c.countExecuteWait.programView = c.programView := by
  rw [countExecuteWait]
  split <;> rfl

/-- The same is seen of the two cores. -/
theorem Follows.congr (h : Follows k first s c) (hview : c'.programView = c.programView) :
    Follows k first s c' := by
  rw [Follows, hview]
  exact h

/-- The last cycle of an instruction, or one before. -/
theorem Follows.advanceExecute (harch : k.arch.IsLibrary) (h : Follows k first s c)
    (hstate : c.state = .executeWait) : ∃ s', Follows k first s' (advanceExecute k c) ∧
      (advanceExecute k c).trace.answered = c.trace.answered := by
  have hne : c.programView.state = .executeWait := hstate
  have hview := programView_countExecuteWait c
  have hcounted := h.congr hview
  have hanswered := congrArg ProgramView.answered hview
  rw [Rv64AtomicCore.advanceExecute, h.busy, Bool.and_false, if_neg (by decide)]
  dsimp only
  split_ifs with hleft
  · cases h.phase with
    | between hother => rcases hother with hother | hother <;> cases hne.symm.trans hother
    | load hother => rcases hother with hother | hother <;> cases hne.symm.trans hother
    | store hother => rcases hother with hother | hother <;> cases hne.symm.trans hother
    | execute _ hfetched hjump =>
      have hfetched' : c.countExecuteWait.programView.Fetched k.program s _ := hview ▸ hfetched
      obtain ⟨c', hexecute, hexecutes⟩ := execute_executes harch hcounted.busy hcounted.shows hjump
        hfetched'.pending
      obtain ⟨s', hs', hsame⟩ := hcounted.execute
        ((congrArg ProgramView.state hview).trans hne) hfetched' hexecutes
      refine ⟨s', ?_⟩
      rw [executeReadyInstruction, hexecute]
      exact ⟨hs', hsame.trans hanswered⟩
  · exact ⟨s, hcounted, hanswered⟩

/-- A fetch of a base instruction. -/
theorem Follows.fetchDecode (harch : k.arch.IsLibrary) (h : Follows k first s c)
    (hstate : c.state = .fetchDecode) (hbase : (fetchDecode k c).RunsBase) :
    Follows k first s (fetchDecode k c) ∧ (fetchDecode k c).trace.answered = c.trace.answered := by
  have hexit : s.exit = none := h.exit_eq_none (by rw [hstate]; decide)
  obtain hfault | ⟨raw, decoded, vl, hraw, hdecode, hview, htrace⟩ := fetchDecode_cases k c
  · exact absurd hfault hbase.running
  · obtain ⟨i, hjump, hi⟩ := hbase.fetched (⟨decoded, raw, c.pc, c.pc + 4⟩, vl) (by simp [htrace])
    obtain rfl : raw = i.encode := hi
    obtain ⟨decodeRvc, hlibrary⟩ := harch.decode
    rw [hlibrary, Instruction.decode_encode] at hdecode
    obtain rfl := Option.some.inj hdecode
    have hpc : c.pc = s.pc := h.pc
    rw [hpc] at hraw hview
    refine ⟨?_, congrArg ProgramView.answered hview⟩
    rw [Follows, hview]
    exact { h with phase := .execute rfl ⟨hraw, rfl⟩ hjump, exit := hexit }

/-- The adapter has nothing to do. -/
theorem Follows.tickMmio (h : Follows k first s c) {σ : Type} (bus : IBus σ)
    (port memoryPort : BusPortT) (t : σ) :
    (c.tickMmio bus k port memoryPort t).1.programView = c.programView := by
  have hrequests : c.mmio.requests = [] := congrArg Prod.fst h.adapter
  rw [Rv64AtomicCore.tickMmio, MmioBusAdapter.tryTick_of_idle bus port memoryPort t hrequests]
  rfl

/-- Every turn goes on with the run, and answers one request at most. -/
theorem Follows.turn (harch : k.arch.IsLibrary) (h : Follows k first s c) (hturn : Turn k c c')
    (hbase : c'.RunsBase) : ∃ s', Follows k first s' c' ∧
      (c'.trace.answered = c.trace.answered ∨
        ∃ x, c'.trace.answered = c.trace.answered ++ [x]) := by
  have hsame : ∀ {c₁ : Rv64AtomicCore}, c₁.programView = c.programView →
      ∃ s', Follows k first s' c₁ ∧ (c₁.trace.answered = c.trace.answered ∨
        ∃ x, c₁.trace.answered = c.trace.answered ++ [x]) :=
    fun hview ↦ ⟨s, h.congr hview, .inl (congrArg ProgramView.answered hview)⟩
  cases hturn with
  | adapter bus port memoryPort t => exact hsame (h.tickMmio bus port memoryPort t)
  | core bus port memoryPort t hcore =>
    rcases tickCore_cases hcore with rfl | ⟨hstate, rfl⟩ | ⟨hstate, rfl⟩ | ⟨hstate, hissue⟩ |
      ⟨hstate, hreceive⟩
    · exact hsame rfl
    · exact ⟨s, (Follows.fetchDecode (c := c.countTick) harch h hstate hbase).imp_right .inl⟩
    · exact (Follows.advanceExecute (c := c.countTick) harch h hstate).imp
        fun _ h ↦ h.imp_right .inl
    · rcases issueMemoryRequest_fst hissue with rfl | ⟨-, -, rfl⟩ | rfl | rfl | ⟨-, -, rfl⟩
      · exact hsame rfl
      · -- the control window is not accessed
        rcases accessWindow_cases k c.countTick with hfault | hwindow
        · exact absurd hfault hbase.running
        · exact absurd (hwindow.symm.trans hbase.window) (Nat.succ_ne_zero _)
      · exact hsame rfl
      · exact hsame (programView_startRequest c.countTick)
      · have hview := programView_startRequest c.countTick
        refine ⟨s, h.sent hstate ?_, .inl (congrArg ProgramView.answered hview)⟩
        exact congrArg (fun v : ProgramView ↦ { v with state := .memoryWait }) hview
    · rcases receiveMemoryResponse_fst hreceive with rfl | ⟨bytes, rfl⟩
      · exact hsame rfl
      · obtain ⟨s', x, hs', hx⟩ := Follows.respond (c := c.countTick) h hstate hbase.running
        exact ⟨s', hs', .inr ⟨x, hx⟩⟩

section Tick

variable {σ : Type} {bus : IBus σ} {port memoryPort : BusPortT} {t t' : σ}

theorem RunsBase.of_tick (h : c'.RunsBase) (hc : Reachable k c)
    (htick : c.tick bus k port memoryPort t = .ok (c', t')) : c.RunsBase := by
  obtain ⟨c₁, h₁, h₂⟩ := turns_of_tick htick
  exact h₁.runsBase hc.course_ok (h₂.runsBase (hc.turn h₁).course_ok h)

/-- Every tick goes on with the run, and answers one request at most. -/
theorem Follows.tick (harch : k.arch.IsLibrary) (h : Follows k first s c)
    (htick : c.tick bus k port memoryPort t = .ok (c', t')) (hbase : c'.RunsBase) :
    ∃ s', Follows k first s' c' ∧ (c'.trace.answered = c.trace.answered ∨
      ∃ x, c'.trace.answered = c.trace.answered ++ [x]) := by
  have hview := h.tickMmio bus port memoryPort t
  have hanswered := congrArg ProgramView.answered hview
  have hturn := (h.congr hview).turn harch (.core bus port memoryPort _ htick) hbase
  rwa [show (c.tickMmio bus k port memoryPort t).1.trace.answered = c.trace.answered from
    hanswered] at hturn

end Tick

theorem construct_follows {mmioDepth : UInt32} {stackTop : UInt64}
    (h : construct k mmioDepth stackTop = .ok c) :
    Follows k (.start k.program (stackTop - UInt64.ofNat k.hartId.toNat * 0x10000))
      (.start k.program (stackTop - UInt64.ofNat k.hartId.toNat * 0x10000)) c := by
  obtain ⟨_, -, h⟩ := Except.bind_eq_ok_iff.mp h
  obtain ⟨mmio, hmmio, h⟩ := Except.bind_eq_ok_iff.mp h
  obtain ⟨_, -, hmmio⟩ := Except.bind_eq_ok_iff.mp hmmio
  obtain rfl := Except.ok.inj hmmio
  obtain rfl := Except.ok.inj h
  exact ⟨.refl _, rfl, rfl, rfl, rfl, .between (.inl rfl), rfl, rfl⟩

theorem reachable_of_turns {mmioDepth : UInt32} {stackTop : UInt64} {c₀ : Rv64AtomicCore}
    (h₀ : construct k mmioDepth stackTop = .ok c₀) (hturns : Relation.ReflTransGen (Turn k) c₀ c) :
    Reachable k c := by
  induction hturns with
  | refl => exact .construct h₀
  | tail _ hturn ih => exact ih.turn hturn

/-- A core that has run base instructions only is where the instruction set has its program, after a
run whose accesses to memory are the answered requests of the core. -/
theorem runs_program (harch : k.arch.IsLibrary) {mmioDepth : UInt32} {stackTop : UInt64}
    {c₀ : Rv64AtomicCore} (h₀ : construct k mmioDepth stackTop = .ok c₀)
    (hturns : Relation.ReflTransGen (Turn k) c₀ c) (hbase : c.RunsBase) :
    ∃ s, Shows c s ∧ Path (HartStep k.program k.tohostAddress k.hartId)
      (.start k.program (stackTop - UInt64.ofNat k.hartId.toNat * 0x10000))
      (c.trace.answered.map accessOf) s := by
  have hfollows : ∃ s, Follows k
      (.start k.program (stackTop - UInt64.ofNat k.hartId.toNat * 0x10000)) s c := by
    induction hturns with
    | refl => exact ⟨_, construct_follows h₀⟩
    | tail hbefore hturn ih =>
      have hok := (reachable_of_turns h₀ hbefore).course_ok
      obtain ⟨s, hs⟩ := ih (hturn.runsBase hok hbase)
      exact (hs.turn harch hturn hbase).imp fun _ ↦ And.left
  obtain ⟨s, hs⟩ := hfollows
  exact ⟨s, hs.shows, hs.path⟩

/-! ## A small program -/

/-- The library, but for its vector instructions. -/
def libraryArch : ArchSem :=
  { decodingArch with
    execBranch := execBranch
    execOpimm := execOpimm
    execOpimm32 := execOpimm32
    execOp := execOp
    execOp32 := execOp32 }

theorem isLibrary_libraryArch : libraryArch.IsLibrary := ⟨⟨_, rfl⟩, rfl, rfl, rfl, rfl, rfl⟩

/-- `addi x5, x0, 7` and `addi x5, x5, 1` -/
def addHart : Rv64Hart := ⟨libraryArch, 0, .fromWords [0x00700293, 0x00128293], {}, none⟩

theorem turns_tickSilent (n : ℕ) :
    Relation.ReflTransGen (Turn k) c ((tickSilent k)^[n] c) := by
  induction n generalizing c with
  | zero => exact .refl
  | succ n ih =>
    refine .trans ?_ (ih (c := tickSilent k c))
    rw [tickSilent]
    cases htick : c.tick silentBus k 0 1 () with
    | error reason => exact .refl
    | ok result =>
      obtain ⟨c₁, h₁, h₂⟩ := turns_of_tick htick
      exact (Relation.ReflTransGen.single h₁).tail h₂

theorem runs_program_add : ∃ s : HartState, s.pc = 0x80000008 ∧ s.x 5 = 8 ∧
    Path (HartStep addHart.program none 0) (.start addHart.program 0x88000000) [] s := by
  have hfetched : ((tickSilent addHart)^[4] (initialCore addHart)).trace.fetched.map (·.1.raw) =
      [(Instruction.opImm .addi 5 0 7).encode, (Instruction.opImm .addi 5 5 1).encode] := by
    decide +kernel
  have hbase : ((tickSilent addHart)^[4] (initialCore addHart)).RunsBase := by
    refine ⟨fun f hf ↦ ?_, by decide +kernel, by decide +kernel⟩
    have hraw : f.1.raw ∈ ((tickSilent addHart)^[4] (initialCore addHart)).trace.fetched.map
        (·.1.raw) := List.mem_map_of_mem hf
    rw [hfetched, List.mem_cons, List.mem_singleton] at hraw
    rcases hraw with hraw | hraw
    · exact ⟨.opImm .addi 5 0 7, trivial, hraw⟩
    · exact ⟨.opImm .addi 5 5 1, trivial, hraw⟩
  obtain ⟨s, hshows, hpath⟩ := @runs_program addHart _ isLibrary_libraryArch 1 0x88000000
    (initialCore addHart) rfl (turns_tickSilent 4) hbase
  have hpc : ((tickSilent addHart)^[4] (initialCore addHart)).pc = 0x80000008 := by decide +kernel
  have hx : ((tickSilent addHart)^[4] (initialCore addHart)).x 5 = 8 := by decide +kernel
  have hanswered : ((tickSilent addHart)^[4] (initialCore addHart)).trace.answered = [] := by
    decide +kernel
  rw [hanswered] at hpath
  exact ⟨s, hshows.pc.symm.trans hpc, (congrFun hshows.x 5).symm.trans hx, hpath⟩

end Rv64AtomicCore

end Manycore
