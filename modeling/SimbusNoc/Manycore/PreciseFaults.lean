import SimbusNoc.Manycore.VectorSetting

/-!
# Precise faults

An instruction that faults has left the registers as they were when it was fetched, whatever it had
done by then. The exception is an instruction that writes a read-only register of the adapter: its
destination has the old value by the time the write is refused.

## The two postconditions

`Precise` is that of a turn: the instruction has retired, or the registers are as they were.
`Undone` is that of a failed attempt: what is thrown comes with the old registers. A function that
writes registers only in its last statement satisfies both, and each function has one lemma, up to
the turn of a core. The CSR instructions write their destination before they write the register
they are named for, so `executeCsr_precise` needs a condition; `LosesRegister` is that condition,
read off the core before the execution.

## An instruction as a whole

An instruction takes many turns, with requests and responses in between. `Executing` are the states
from its fetch on, and the registers are the same in all of them, so that the fault may come in
any. `executeReadyInstruction_of_losesRegister` shows that the condition leaves out nothing else.
-/

namespace Manycore.Rv64AtomicCore

open Simbus Rv64archsem Throwing

/-- The registers of a core. -/
structure Registers where
  x : Fin 32 → UInt64
  vectorRegisters : Fin 32 → Fin 4 → UInt64
  vl : UInt32
  vtype : UInt64
  pc : UInt64

def registers (c : Rv64AtomicCore) : Registers :=
  ⟨c.x, c.vectorRegisters, c.vectorContext.vl, c.vtype, c.pc⟩

variable {k : Rv64Hart} {c c' c₁ : Rv64AtomicCore}

/-- The instruction has retired without a fault, or the registers are as they were. -/
def Precise (c c' : Rv64AtomicCore) : Prop :=
  c'.stats.retiredInstructions = c.stats.retiredInstructions ∨ c'.state = .faulted →
    c'.registers = c.registers

/-- What is thrown comes with the registers as they were. -/
def Undone (c : Rv64AtomicCore) (e : String × Rv64AtomicCore) : Prop := e.2.registers = c.registers

theorem precise_of_eq (h : c'.registers = c.registers) : Precise c c' := fun _ ↦ h

theorem precise_of_retired
    (h : c'.stats.retiredInstructions = c.stats.retiredInstructions + 1)
    (hstate : c'.state ≠ .faulted) : Precise c c' := by
  rintro (hsame | hfaulted)
  · omega
  · exact absurd hfaulted hstate

theorem precise_commit
    (h : c₁.stats.retiredInstructions = c.stats.retiredInstructions) : Precise c c₁.commit :=
  precise_of_retired (congrArg (· + 1) h) Rv64CoreState.noConfusion

theorem recover_precise {x : Attempt} (h : Ensures (Precise c) (Undone c) x) :
    Precise c (recover x) := by
  rcases x with ⟨reason, c₁⟩ | c₁
  · exact precise_of_eq h
  · exact h

theorem undone_bind {α : Type} {P : Rv64AtomicCore → Prop} {x : Except String α}
    {f : α → Attempt} (hc₁ : c₁.registers = c.registers)
    (hf : ∀ a, x = .ok a → Ensures P (Undone c) (f a)) :
    Ensures P (Undone c) (onThrow c₁ x >>= f) := by
  cases x with
  | ok a => exact hf a rfl
  | error reason => exact hc₁

/-! ## Execution -/

theorem stats_writeReg (c : Rv64AtomicCore) (index : Fin 32) (value : UInt64) :
    (c.writeReg index value).stats = c.stats := by
  rw [writeReg]
  split <;> rfl

theorem stats_configureVector (c : Rv64AtomicCore) (requested avl : UInt64) :
    (c.configureVector requested avl).stats = c.stats := by
  rw [configureVector]
  dsimp only
  split <;> rfl

theorem executeVectorConfig_precise (c : Rv64AtomicCore) : Precise c c.executeVectorConfig := by
  refine precise_commit ?_
  change (writeReg _ _ _).stats.retiredInstructions = _
  rw [stats_writeReg, stats_configureVector]

theorem executeInteger_precise : Ensures (Precise c) (Undone c) (executeInteger k c) := by
  have hcommit : ∀ value, Precise c (c.writeReg c.instruction.decoded.rd value).commit :=
    fun value ↦ precise_commit (by rw [stats_writeReg])
  rw [executeInteger]
  dsimp only
  split
  · exact hcommit _
  · exact hcommit _
  · exact hcommit _
  · exact hcommit _
  · exact hcommit _
  · exact hcommit _
  · rfl

theorem writeVectorGroup_stats {base : Fin 32} {words : List UInt64}
    (h : c.writeVectorGroup base words = .ok c') : c'.stats = c.stats := by
  obtain ⟨count, -, h⟩ := Except.bind_eq_ok_iff.mp h
  obtain ⟨-, -, h⟩ := Except.bind_eq_ok_iff.mp h
  obtain rfl := Except.ok.inj h
  rfl

/-- The result of a vector instruction is written as a whole or not at all. -/
theorem writeVectorResult_undone (inst : DecodedInst) (words : List UInt64)
    (hc₁ : c₁.registers = c.registers)
    (hretired : c₁.stats.retiredInstructions = c.stats.retiredInstructions) :
    Ensures (fun c' ↦ c'.stats.retiredInstructions = c.stats.retiredInstructions) (Undone c)
      (writeVectorResult c₁ inst words) := by
  refine Ensures.ite (fun _ ↦ ?_) fun _ ↦ ?_
  · split
    · exact hc₁
    · exact (congrArg Rv64CoreStats.retiredInstructions (stats_writeReg c₁ _ _)).trans hretired
  · cases hwrite : c₁.writeVectorGroup inst.rd words with
    | error reason => exact hc₁
    | ok c' =>
      exact (congrArg Rv64CoreStats.retiredInstructions (writeVectorGroup_stats hwrite)).trans
        hretired

theorem executeVectorAlu_precise : Ensures (Precise c) (Undone c) (executeVectorAlu k c) := by
  refine undone_bind rfl fun _ _ ↦ undone_bind rfl fun _ _ ↦ ?_
  refine undone_bind rfl fun source1 _ ↦ undone_bind rfl fun source2 _ ↦ ?_
  refine undone_bind rfl fun destination _ ↦ ?_
  dsimp only
  split
  · rfl
  · exact Ensures.bind (writeVectorResult_undone _ _ rfl rfl) fun c' hretired ↦
      precise_commit hretired

/-! ## Control and status registers

The destination is written before the register itself. Only two of the adapter's registers refuse a
write, so an instruction that writes one of these loses its destination when it faults.
-/

theorem eq_of_isBusCsr {address : UInt64} (h : isBusCsr address = true) :
    address = 0x7c0 ∨ address = 0x7c1 ∨ address = 0x7c2 ∨ address = 0x7c3 ∨ address = 0x7c4 ∨
      address = 0x7c5 ∨ address = 0x7c6 ∨ address = 0x7c7 := by
  simp only [isBusCsr, Bool.and_eq_true, decide_eq_true_eq, UInt64.le_iff_toNat_le] at h
  have hlow : 1984 ≤ address.toNat := h.1
  have hhigh : address.toNat ≤ 1991 := h.2
  simp only [← UInt64.toNat_inj]
  change address.toNat = 1984 ∨ address.toNat = 1985 ∨ address.toNat = 1986 ∨
    address.toNat = 1987 ∨ address.toNat = 1988 ∨ address.toNat = 1989 ∨ address.toNat = 1990 ∨
    address.toNat = 1991
  omega

/-- The adapter's registers that a program may write accept every value. -/
theorem exists_write_busCsr {hart : UInt32} {address : UInt64} (a : MmioBusAdapter)
    (value : UInt64) (h : isBusCsr address = true) (hvalue : address ≠ 0x7c3)
    (hid : address ≠ 0x7c6) : ∃ a', a.write hart (busCsr address) 8 value = .ok a' := by
  rcases eq_of_isBusCsr h with rfl | rfl | rfl | rfl | rfl | rfl | rfl | rfl
  · by_cases hlocked : a.busy = true ∧ a.depth = 1
    · exact ⟨_, if_pos hlocked⟩
    · exact ⟨_, if_neg hlocked⟩
  · by_cases hlocked : a.busy = true ∧ a.depth = 1
    · exact ⟨_, if_pos hlocked⟩
    · exact ⟨_, if_neg hlocked⟩
  · by_cases hlocked : a.busy = true ∧ a.depth = 1
    · exact ⟨_, if_pos hlocked⟩
    · exact ⟨_, if_neg hlocked⟩
  · exact absurd rfl hvalue
  · by_cases hlocked : a.busy = true ∧ a.depth = 1
    · exact ⟨_, if_pos hlocked⟩
    · exact ⟨_, if_neg hlocked⟩
  · by_cases hlocked : a.busy = true ∧ a.depth = 1
    · exact ⟨_, if_pos hlocked⟩
    · exact ⟨_, if_neg hlocked⟩
  · exact absurd rfl hid
  · exact ⟨a.pop value, rfl⟩

/-- The operand of the pending CSR instruction. -/
def csrSource (c : Rv64AtomicCore) : UInt64 :=
  let inst := c.instruction.decoded
  if 5 ≤ inst.funct3 then UInt64.ofNat inst.rs1 else c.x inst.rs1

/-- The pending CSR instruction writes its register. -/
def csrWrites (c : Rv64AtomicCore) : Bool :=
  let funct3 := c.instruction.decoded.funct3.toNat
  [1, 5].contains funct3 || [2, 6, 3, 7].contains funct3 && !(csrSource c == 0)

def csrAddress (c : Rv64AtomicCore) : UInt64 := c.instruction.decoded.imm.toUInt64 &&& 0xfff

/-- The core is about to execute an instruction that writes one of the two adapter registers that
refuse it, after it has read another value than its destination has. -/
def LosesRegister (c : Rv64AtomicCore) : Prop :=
  let inst := c.instruction.decoded
  c.state = .executeWait ∧ c.cyclesLeft ≤ 1 ∧ inst.controlType = .csr ∧
    (csrAddress c = 0x7c3 ∨ csrAddress c = 0x7c6) ∧ csrWrites c = true ∧ inst.rd ≠ 0 ∧
    c.mmio.read (busCsr (csrAddress c)) 8 ≠ .ok (c.x inst.rd)

theorem writeCsr_eq_error {address value : UInt64} {reason : String}
    (h : writeCsr k c address value = .error reason) : address = 0x7c3 ∨ address = 0x7c6 := by
  by_contra hrefused
  rw [not_or] at hrefused
  rw [writeCsr] at h
  by_cases hbus : isBusCsr address = true
  · rw [if_pos hbus] at h
    obtain ⟨mmio, hmmio⟩ := @exists_write_busCsr k.hartId _ c.mmio value hbus
      hrefused.1 hrefused.2
    have hopen : (address == 0x7c3 || address == 0x7c6) = false := by simp [hrefused]
    rw [hopen, hmmio] at h
    cases h
  · rw [if_neg hbus] at h
    dsimp only at h
    split_ifs at h <;> cases h

theorem writeCsr_stats {address value : UInt64} (h : writeCsr k c address value = .ok c') :
    c'.stats = c.stats := by
  rw [writeCsr] at h
  by_cases hbus : isBusCsr address = true
  · rw [if_pos hbus] at h
    obtain ⟨-, -, h⟩ := Except.bind_eq_ok_iff.mp h
    obtain ⟨mmio, -, h⟩ := Except.bind_eq_ok_iff.mp h
    exact Except.ok.inj h ▸ rfl
  · rw [if_neg hbus] at h
    dsimp only at h
    split_ifs at h <;> exact Except.ok.inj h ▸ rfl

theorem registers_writeReg_of_eq {index : Fin 32} {value : UInt64}
    (h : index = 0 ∨ value = c.x index) : (c.writeReg index value).registers = c.registers := by
  rw [writeReg]
  split
  · rfl
  · next hindex =>
    obtain rfl := h.resolve_left hindex
    rw [registers, Function.update_eq_self]
    rfl

theorem executeCsr_precise (hstate : c.state = .executeWait) (hcycles : c.cyclesLeft ≤ 1)
    (hcontrol : c.instruction.decoded.controlType = .csr) (hclean : ¬ LosesRegister c) :
    Ensures (fun c' ↦ Precise c c'.commit) (Undone c) (executeCsr k c) := by
  refine undone_bind rfl fun oldValue hold ↦ ?_
  have hstats := stats_writeReg c c.instruction.decoded.rd oldValue
  -- what follows is the same for every operation
  have hrest : ∀ newValue : UInt64, ∀ write : Bool, (write = true → csrWrites c = true) →
      Ensures (fun c' ↦ Precise c c'.commit) (Undone c)
        (if write then onThrow (c.writeReg c.instruction.decoded.rd oldValue)
            (writeCsr k (c.writeReg c.instruction.decoded.rd oldValue) (csrAddress c) newValue)
          else pure (c.writeReg c.instruction.decoded.rd oldValue)) := by
    intro newValue write hwrites
    refine Ensures.ite (fun hwrite ↦ ?_) fun _ ↦
      precise_commit (congrArg Rv64CoreStats.retiredInstructions hstats)
    cases hresult : writeCsr k (c.writeReg c.instruction.decoded.rd oldValue) (csrAddress c)
        newValue with
    | ok c' =>
      exact precise_commit
        (congrArg Rv64CoreStats.retiredInstructions ((writeCsr_stats hresult).trans hstats))
    | error reason =>
      -- the write is refused, so the destination must have had the old value already
      have haddress := writeCsr_eq_error hresult
      refine registers_writeReg_of_eq ?_
      by_contra hlost
      rw [not_or] at hlost
      have hread : readCsr k c (csrAddress c) = c.mmio.read (busCsr (csrAddress c)) 8 := by
        rcases haddress with haddress | haddress <;> rw [haddress] <;> rfl
      refine hclean ⟨hstate, hcycles, hcontrol, haddress, hwrites hwrite, hlost.1, fun h ↦ ?_⟩
      refine hlost.2 ?_
      exact Except.ok.inj (hold.symm.trans (hread.trans h))
  dsimp only
  split
  all_goals refine Ensures.bind (P := fun result : UInt64 × Bool ↦
    result.2 = true → csrWrites c = true) ?_ fun result h ↦ hrest result.1 result.2 h
  · exact fun _ ↦ by simp [csrWrites, *]
  · exact fun _ ↦ by simp [csrWrites, *]
  · exact fun h ↦ by simpa [csrWrites, csrSource, *] using h
  · exact fun h ↦ by simpa [csrWrites, csrSource, *] using h
  · exact fun h ↦ by simpa [csrWrites, csrSource, *] using h
  · exact fun h ↦ by simpa [csrWrites, csrSource, *] using h
  · rfl

/-! ## Memory accesses -/

theorem prepareLoad_precise : Ensures (Precise c) (Undone c) (prepareLoad k c) := by
  rw [prepareLoad]
  split
  · exact precise_of_eq rfl
  · rfl

theorem prepareStore_precise : Ensures (Precise c) (Undone c) (prepareStore k c) := by
  rw [prepareStore]
  split
  · exact precise_of_eq rfl
  · rfl

theorem stageNextVectorRequest_precise (hc₁ : c₁.registers = c.registers) :
    Ensures (Precise c) (Undone c) (stageNextVectorRequest k c₁) := by
  rw [stageNextVectorRequest]
  refine Ensures.ite (fun _ ↦ ?_) fun _ ↦ ?_
  · split
    · exact hc₁
    · exact precise_of_eq hc₁
  · split
    · exact hc₁
    · exact precise_of_eq hc₁

theorem stageOrCommit_precise {empty : Bool} (hc₁ : c₁.registers = c.registers)
    (hretired : c₁.stats.retiredInstructions = c.stats.retiredInstructions) :
    Ensures (Precise c) (Undone c)
      (if empty then pure { c₁ with vectorMemoryActive := false }.commit
        else stageNextVectorRequest k c₁) :=
  Ensures.ite (fun _ ↦ precise_commit hretired) fun _ ↦ stageNextVectorRequest_precise hc₁

theorem prepareVectorLoad_precise : Ensures (Precise c) (Undone c) (prepareVectorLoad k c) := by
  refine undone_bind rfl fun _ _ ↦ undone_bind rfl fun _ _ ↦ ?_
  refine undone_bind rfl fun width _ ↦ undone_bind rfl fun _ _ ↦ ?_
  refine undone_bind rfl fun operand _ ↦ ?_
  dsimp only
  split
  · rfl
  · next vctx descriptors hparse =>
    obtain rfl := eq_of_parseLoadVector hparse
    exact undone_bind rfl fun buffer _ ↦ stageOrCommit_precise rfl rfl

theorem prepareVectorStore_precise : Ensures (Precise c) (Undone c) (prepareVectorStore k c) := by
  refine undone_bind rfl fun _ _ ↦ undone_bind rfl fun _ _ ↦ ?_
  refine undone_bind rfl fun width _ ↦ undone_bind rfl fun _ _ ↦ ?_
  refine undone_bind rfl fun operand _ ↦ undone_bind rfl fun data _ ↦ ?_
  dsimp only
  split
  · rfl
  · next vctx descriptors hparse =>
    obtain rfl := eq_of_parseStoreVector hparse
    exact stageOrCommit_precise rfl rfl

/-! ## Turns -/

theorem execute_precise (hstate : c.state = .executeWait) (hcycles : c.cyclesLeft ≤ 1)
    (hclean : ¬ LosesRegister c) :
    Ensures (Precise c) (Undone c) (execute k c) := by
  have hcommit : ∀ c₁ : Rv64AtomicCore, c₁.stats = c.stats → Precise c c₁.commit :=
    fun c₁ h ↦ precise_commit (congrArg Rv64CoreStats.retiredInstructions h)
  rw [execute]
  dsimp only
  split
  · refine Ensures.ite (fun _ ↦ ?_) fun _ ↦ executeInteger_precise
    exact Ensures.ite (fun _ ↦ executeVectorConfig_precise c) fun _ ↦ executeVectorAlu_precise
  · split
    · exact hcommit _ rfl
    · exact hcommit _ rfl
  · exact hcommit _ (stats_writeReg ..)
  · exact hcommit _ (stats_writeReg ..)
  · exact hcommit _ (stats_writeReg ..)
  · exact hcommit _ (stats_writeReg ..)
  · exact prepareLoad_precise
  · exact prepareStore_precise
  · exact prepareVectorLoad_precise
  · exact prepareVectorStore_precise
  · next hcontrol =>
    exact Ensures.bind (executeCsr_precise hstate hcycles hcontrol hclean) fun _ ↦ id
  · exact Ensures.ite (fun _ ↦ precise_of_eq rfl) fun _ ↦ hcommit c rfl
  · exact Ensures.ite (fun _ ↦ precise_of_eq rfl) fun _ ↦ hcommit c rfl
  · exact Ensures.ite (fun _ ↦ precise_of_eq rfl) fun _ ↦ hcommit c rfl
  · exact precise_of_eq rfl
  · exact precise_of_eq rfl
  · rfl
  · rfl

/-- Counting changes nothing that matters here. -/
theorem Precise.of_counted (h : Precise c₁ c') (hregisters : c₁.registers = c.registers)
    (hretired : c₁.stats.retiredInstructions = c.stats.retiredInstructions) : Precise c c' :=
  fun hsame ↦ (h (hsame.imp_left (·.trans hretired.symm))).trans hregisters

theorem advanceExecute_precise (hstate : c.state = .executeWait) (hclean : ¬ LosesRegister c) :
    Precise c (advanceExecute k c) := by
  rw [advanceExecute]
  split
  · exact precise_of_eq rfl
  · dsimp only
    by_cases hleft : 0 < c.cyclesLeft
    · rw [countExecuteWait, if_pos hleft]
      split
      · next hzero =>
        have hcycles : c.cyclesLeft - 1 = 0 := hzero
        refine Precise.of_counted (recover_precise (execute_precise hstate (by omega) ?_)) rfl rfl
        exact fun hloses ↦ hclean ⟨hstate, by omega, hloses.2.2⟩
      · exact precise_of_eq rfl
    · rw [countExecuteWait, if_neg hleft]
      split
      · exact recover_precise (execute_precise hstate (by omega) hclean)
      · exact precise_of_eq rfl

theorem fetchDecode_precise : Precise c (fetchDecode k c) := by
  refine Precise.of_counted (recover_precise ?_) rfl rfl
  refine undone_bind rfl fun low _ ↦ ?_
  refine Ensures.ite (fun _ ↦ precise_of_eq rfl) fun _ ↦ ?_
  refine undone_bind rfl fun raw _ ↦ ?_
  split
  · exact precise_of_eq rfl
  · exact undone_bind rfl fun cycles _ ↦ precise_of_eq rfl

theorem accessWindow_precise : Ensures (Precise c) (Undone c) (accessWindow k c) := by
  refine undone_bind rfl fun _ _ ↦ Ensures.ite (fun _ ↦ ?_) fun _ ↦ ?_
  · refine undone_bind rfl fun value _ ↦ precise_commit ?_
    exact congrArg Rv64CoreStats.retiredInstructions (stats_writeReg c c.loadRd value)
  · exact undone_bind rfl fun mmio _ ↦ precise_commit rfl

theorem issueMemoryRequest_precise {σ : Type} {bus : IBus σ} {port memoryPort : BusPortT}
    {s s' : σ} (h : issueMemoryRequest bus k port memoryPort c s = .ok (c', s')) :
    Precise c c' := by
  have hstart : c.startRequest.registers = c.registers := by
    rw [startRequest]
    split <;> rfl
  rcases issueMemoryRequest_fst h with rfl | ⟨-, -, rfl⟩ | rfl | rfl | ⟨-, -, rfl⟩
  · exact precise_of_eq rfl
  · exact recover_precise accessWindow_precise
  · exact precise_of_eq rfl
  · exact precise_of_eq hstart
  · exact precise_of_eq hstart

/-! ## Responses

Data of a load goes to a register in the last step of its response, and a vector load fills a
buffer until the last response has come.
-/

theorem finishVectorMemoryResponse_precise {response : MemoryResponse}
    (hc₁ : c₁.registers = c.registers)
    (hretired : c₁.stats.retiredInstructions = c.stats.retiredInstructions) :
    Ensures (Precise c) (Undone c) (finishVectorMemoryResponse k c₁ response) := by
  -- the rest of the function, with the data taken
  have hrest : ∀ c₂ : Rv64AtomicCore, c₂.registers = c.registers ∧
      c₂.stats.retiredInstructions = c.stats.retiredInstructions →
      Ensures (Precise c) (Undone c)
        (let c := { c₂ with memoryRequest := none }
        if c.moreVectorRequests then stageNextVectorRequest k c
        else do
          let c ← if c.vectorMemoryIsLoad then
              onThrow c (c.writeVectorGroup c.vectorMemoryRegister c.vectorLoadBuffer)
            else .ok c
          return { c with vectorLoadBuffer := [], vectorMemoryActive := false }.commit) := by
    rintro c₂ ⟨hregisters, hretired₂⟩
    refine Ensures.ite (fun _ ↦ stageNextVectorRequest_precise hregisters) fun _ ↦ ?_
    refine Ensures.ite (fun _ ↦ ?_) fun _ ↦ precise_commit hretired₂
    refine undone_bind hregisters fun c₃ hc₃ ↦ precise_commit ?_
    exact (congrArg Rv64CoreStats.retiredInstructions (writeVectorGroup_stats hc₃)).trans hretired₂
  rw [finishVectorMemoryResponse]
  refine Ensures.ite (fun _ ↦ ?_) fun _ ↦ hrest c₁ ⟨hc₁, hretired⟩
  refine Ensures.bind ?_ hrest
  rw [takeVectorData]
  split
  · exact hc₁
  · exact undone_bind hc₁ fun _ _ ↦ undone_bind hc₁ fun _ _ ↦ ⟨hc₁, hretired⟩

theorem stats_recordLatency (c : Rv64AtomicCore) :
    c.recordLatency.stats.retiredInstructions = c.stats.retiredInstructions := by
  rw [recordLatency]
  split <;> rfl

theorem registers_recordLatency (c : Rv64AtomicCore) :
    c.recordLatency.registers = c.registers := by
  rw [recordLatency]
  split <;> rfl

/-- A core that stops for the host has retired its store. -/
theorem handleTohostWrite_precise {q : MemoryRequest}
    (hretired : c₁.stats.retiredInstructions = c.stats.retiredInstructions)
    (hc₁ : q.op = MemoryOp.write → c₁.registers = c.registers) :
    Ensures (fun result ↦ ∀ c', result = some c' → Precise c c') (Undone c)
      (handleTohostWrite k c₁ q) := by
  have hnone : ∀ c', (none : Option Rv64AtomicCore) = some c' → Precise c c' := fun _ h ↦ nomatch h
  have hsome : ∀ code reason, ∀ c', some (c₁.commit.stop code reason) = some c' →
      Precise c c' := fun _ _ c' h ↦ Option.some.inj h ▸
    precise_of_retired (congrArg (· + 1) hretired) Rv64CoreState.noConfusion
  rw [handleTohostWrite]
  refine Ensures.ite (fun _ ↦ hnone) fun hwrite ↦ ?_
  have hregisters : c₁.registers = c.registers := hc₁ (not_not.mp (not_or.mp hwrite).2)
  cases hbytes : !(q.data.isEmpty || decide (8 < q.data.length)) with
  | false => exact hregisters
  | true =>
    refine Ensures.ite (fun _ ↦ hnone) fun _ ↦ ?_
    exact Ensures.ite (fun _ ↦ hsome _ _) fun _ ↦ hsome _ _

theorem takeScalarData_undone {q : MemoryRequest} {data : Bytes}
    (hc₁ : c₁.registers = c.registers)
    (hretired : c₁.stats.retiredInstructions = c.stats.retiredInstructions) :
    Ensures (fun c' ↦ c'.stats.retiredInstructions = c.stats.retiredInstructions) (Undone c)
      (takeScalarData c₁ q data) := by
  refine undone_bind hc₁ fun _ _ ↦ ?_
  exact (congrArg Rv64CoreStats.retiredInstructions (stats_writeReg ..)).trans hretired

theorem takeResponse_precise {bytes : Bytes} :
    Ensures (Precise c) (Undone c) (takeResponse k c bytes) := by
  refine undone_bind rfl fun response _ ↦ ?_
  split
  · rfl
  · next q hq =>
    refine undone_bind rfl fun _ _ ↦ undone_bind rfl fun _ _ ↦ ?_
    dsimp only
    set c₁ : Rv64AtomicCore := { c.recordLatency with
      trace := { c.trace with answered := c.trace.answered ++ [(q, response)] } } with hc₁
    have hretired : c₁.stats.retiredInstructions = c.stats.retiredInstructions :=
      stats_recordLatency c
    have hregisters : c₁.registers = c.registers := registers_recordLatency c
    refine Ensures.ite (fun _ ↦ finishVectorMemoryResponse_precise hregisters hretired)
      fun _ ↦ ?_
    -- only the response to a read has changed a register, and no read stops the core
    have hrest : ∀ c₂ : Rv64AtomicCore,
        c₂.stats.retiredInstructions = c.stats.retiredInstructions →
        (q.op = MemoryOp.write → c₂.registers = c.registers) →
        Ensures (Precise c) (Undone c)
          (handleTohostWrite k { c₂ with memoryRequest := none } q >>=
            afterHost { c₂ with memoryRequest := none }) := by
      intro c₂ hretired₂ hc₂
      refine Ensures.bind (handleTohostWrite_precise hretired₂ hc₂) fun result hresult ↦ ?_
      cases result with
      | some c' => exact hresult c' rfl
      | none => exact precise_commit hretired₂
    refine Ensures.ite (fun hread ↦ ?_) fun _ ↦ hrest c₁ hretired fun _ ↦ hregisters
    refine Ensures.bind (takeScalarData_undone hregisters hretired) fun c₂ hretired₂ ↦ ?_
    exact hrest c₂ hretired₂ fun hwrite ↦ absurd (hread.symm.trans hwrite) (by decide)

theorem receiveMemoryResponse_precise {σ : Type} {bus : IBus σ} {port : BusPortT} {s s' : σ}
    (h : receiveMemoryResponse bus k port c s = .ok (c', s')) : Precise c c' := by
  rcases receiveMemoryResponse_fst h with rfl | ⟨bytes, rfl⟩
  · exact precise_of_eq rfl
  · exact recover_precise takeResponse_precise

/-! ## Runs -/

theorem tickMmio_precise {σ : Type} (bus : IBus σ) (port memoryPort : BusPortT) (s : σ) :
    Precise c (c.tickMmio bus k port memoryPort s).1 := by
  obtain ⟨mmio, hc' | ⟨reason, hc'⟩⟩ := @tickMmio_fst k c _ bus port memoryPort s
  · rw [hc']
    exact precise_of_eq rfl
  · rw [hc']
    exact precise_of_eq rfl

/-- In its turn a core retires its instruction or leaves the registers alone. -/
theorem tickCore_precise {σ : Type} {bus : IBus σ} {port memoryPort : BusPortT} {s s' : σ}
    (h : c.tickCore bus k port memoryPort s = .ok (c', s')) (hclean : ¬ LosesRegister c) :
    Precise c c' := by
  rcases tickCore_cases h with rfl | ⟨-, rfl⟩ | ⟨hstate, rfl⟩ | ⟨-, h⟩ | ⟨-, h⟩
  · exact precise_of_eq rfl
  · exact Precise.of_counted fetchDecode_precise rfl rfl
  · exact Precise.of_counted (advanceExecute_precise hstate hclean) rfl rfl
  · exact Precise.of_counted (issueMemoryRequest_precise h) rfl rfl
  · exact Precise.of_counted (receiveMemoryResponse_precise h) rfl rfl

/-- The states of a core while the instruction that it fetches in state `c` is under way, when the
core has taken every turn of its own so far in a state with `P`. -/
inductive Executing (k : Rv64Hart) (P : Rv64AtomicCore → Prop) (c : Rv64AtomicCore) :
    Rv64AtomicCore → Prop
  | fetched (hstate : c.state = .fetchDecode) : Executing k P c c
  | adapter {σ : Type} (bus : IBus σ) (port memoryPort : BusPortT) (s : σ)
      {c₁ : Rv64AtomicCore} (h : Executing k P c c₁) :
      Executing k P c (c₁.tickMmio bus k port memoryPort s).1
  | core {σ : Type} (bus : IBus σ) (port memoryPort : BusPortT) (s : σ) {s' : σ}
      {c₁ c₂ : Rv64AtomicCore} (h : Executing k P c c₁) (hc₁ : P c₁)
      (hturn : c₁.tickCore bus k port memoryPort s = .ok (c₂, s'))
      (hretired : c₂.stats.retiredInstructions = c₁.stats.retiredInstructions) :
      Executing k P c c₂

theorem stats_tickMmio {σ : Type} (bus : IBus σ) (port memoryPort : BusPortT) (s : σ) :
    (c.tickMmio bus k port memoryPort s).1.stats = c.stats := by
  obtain ⟨mmio, hc' | ⟨reason, hc'⟩⟩ := @tickMmio_fst k c _ bus port memoryPort s <;>
    rw [hc'] <;> rfl

theorem Executing.tick {P : Rv64AtomicCore → Prop} {σ : Type} (bus : IBus σ)
    (port memoryPort : BusPortT) (s : σ) {s' : σ} {c₂ : Rv64AtomicCore} (h : Executing k P c c₁)
    (hP : ∀ c₁, P c₁) (htick : c₁.tick bus k port memoryPort s = .ok (c₂, s'))
    (hretired : c₂.stats.retiredInstructions = c₁.stats.retiredInstructions) :
    Executing k P c c₂ :=
  .core bus port memoryPort _ (.adapter bus port memoryPort s h) (hP _) htick
    (hretired.trans (congrArg Rv64CoreStats.retiredInstructions (stats_tickMmio ..)).symm)

theorem Executing.registers_eq (h : Executing k (fun c₁ ↦ ¬ LosesRegister c₁) c c') :
    c'.registers = c.registers := by
  induction h with
  | fetched => rfl
  | adapter bus port memoryPort s h ih =>
    exact (tickMmio_precise bus port memoryPort s
      (.inl (congrArg Rv64CoreStats.retiredInstructions (stats_tickMmio ..)))).trans ih
  | core bus port memoryPort s h hclean hturn hretired ih =>
    exact (tickCore_precise hturn hclean (.inl hretired)).trans ih

/-- An instruction that faults has not changed the registers, unless it has lost one. -/
theorem registers_of_faulted (h : Executing k (fun c₁ ↦ ¬ LosesRegister c₁) c c₁)
    (hclean : ¬ LosesRegister c₁) (hturn : Turn k c₁ c') (hfaulted : c'.state = .faulted) :
    c'.registers = c.registers := by
  refine Eq.trans ?_ h.registers_eq
  cases hturn with
  | adapter bus port memoryPort s => exact tickMmio_precise bus port memoryPort s (.inr hfaulted)
  | core bus port memoryPort s hturn => exact tickCore_precise hturn hclean (.inr hfaulted)

/-- The condition leaves out nothing else: such an instruction faults and has changed a register. -/
theorem executeReadyInstruction_of_losesRegister (h : LosesRegister c) :
    (executeReadyInstruction k c).state = .faulted ∧
      (executeReadyInstruction k c).registers ≠ c.registers := by
  obtain ⟨-, -, hcontrol, haddress, hwrites, hrd, hold⟩ := h
  set inst := c.instruction.decoded with hinst
  obtain ⟨old, hread⟩ : ∃ old, c.mmio.read (busCsr (csrAddress c)) 8 = .ok old := by
    rcases haddress with haddress | haddress <;> rw [haddress]
    · exact ⟨_, rfl⟩
    · exact ⟨_, rfl⟩
  have hne : old ≠ c.x inst.rd := fun h ↦ hold (by rw [hread, h])
  have hcsr : readCsr k c (csrAddress c) = .ok old := by
    rw [← hread]
    rcases haddress with haddress | haddress <;> rw [haddress] <;> rfl
  have hrefused : ∀ value, writeCsr k (c.writeReg inst.rd old) (csrAddress c) value =
      .error "read-only bus CSR" := by
    intro value
    rcases haddress with haddress | haddress <;> rw [haddress] <;> rfl
  -- The destination has been written when the write to the register is refused.
  have hexecute : executeCsr k c = .error ("read-only bus CSR", c.writeReg inst.rd old) := by
    have hbind : ∀ rest : UInt64 → Attempt,
        (onThrow c (readCsr k c (csrAddress c)) >>= rest) = rest old := fun rest ↦ by rw [hcsr]; rfl
    have hthrow : ∀ value, onThrow (c.writeReg inst.rd old)
        (writeCsr k (c.writeReg inst.rd old) (csrAddress c) value) =
          .error ("read-only bus CSR", c.writeReg inst.rd old) := fun value ↦ by
      rw [hrefused]
      rfl
    refine (hbind _).trans ?_
    simp only [csrWrites, ← hinst, Bool.or_eq_true, Bool.and_eq_true, List.contains_iff_mem,
      List.mem_cons, List.not_mem_nil, or_false] at hwrites
    rcases hwrites with (hf | hf) | ⟨hf | hf | hf | hf, hsource⟩
    · simp only [← hinst, hf]
      exact hthrow _
    · simp only [← hinst, hf]
      exact hthrow _
    all_goals
      simp only [← hinst, hf]
      exact (if_pos hsource).trans (hthrow _)
  have hfault : executeReadyInstruction k c =
      (c.writeReg inst.rd old).fault "read-only bus CSR" := by
    rw [executeReadyInstruction, execute, ← hinst, hcontrol]
    dsimp only
    rw [hexecute]
    rfl
  rw [hfault]
  refine ⟨rfl, fun h ↦ hne ?_⟩
  have hx : (c.writeReg inst.rd old).x inst.rd = c.x inst.rd :=
    congrFun (congrArg Registers.x h) inst.rd
  simpa [writeReg, hrd] using hx

/-! ## Two programs -/

/-- `lb x5, 0(x0)`. -/
def refusedHart : Rv64Hart := .ofWords [0x00000283]

/-- A bus on which memory refuses every request. -/
def refusingBus : IBus Unit where
  canSend := fun _ _ _ ↦ .ok true
  send := fun s _ _ _ _ ↦ .ok (true, s)
  canRecv := fun _ _ _ ↦ .ok true
  recv := fun s _ _ ↦
    .ok (some (encodeResponse { status := .invalidRequest, transactionId := 1 }), s)
  applyNextTick := .ok
  recvThrown := fun s _ _ ↦ s

/-- The hart after some of its own turns on this bus. -/
def refusedCore : ℕ → Rv64AtomicCore
  | 0 => initialCore refusedHart
  | n + 1 =>
    (((refusedCore n).tickCore refusingBus refusedHart 0 1 ()).toOption.map Prod.fst).getD {}

/-- The load has been fetched, executed and sent when its response faults the core. -/
theorem registers_of_faulted_refused : (refusedCore 3).state = .memoryWait ∧
    (refusedCore 4).stopReason = "memory request failed" ∧
    (refusedCore 4).registers = (refusedCore 0).registers := by
  have hrunning : ∀ n < 4, (refusedCore n).instruction.decoded.controlType ≠ .csr := by
    decide +kernel
  have hclean : ∀ n < 4, ¬ LosesRegister (refusedCore n) := fun n hn h ↦ hrunning n hn h.2.2.1
  have hturn : ∀ n < 4, (refusedCore n).tickCore refusingBus refusedHart 0 1 () =
      .ok (refusedCore (n + 1), ()) := by
    intro n hn
    obtain rfl | rfl | rfl | rfl : n = 0 ∨ n = 1 ∨ n = 2 ∨ n = 3 := by omega
    all_goals rfl
  have hretired : ∀ n < 3, (refusedCore (n + 1)).stats.retiredInstructions =
      (refusedCore n).stats.retiredInstructions := by
    decide +kernel
  have hexecuting : ∀ n ≤ 3, Executing refusedHart (fun c ↦ ¬ LosesRegister c) (refusedCore 0)
      (refusedCore n) := by
    intro n hn
    induction n with
    | zero => exact .fetched rfl
    | succ n ih =>
      exact .core refusingBus 0 1 () (ih (by omega)) (hclean n (by omega)) (hturn n (by omega))
        (hretired n hn)
  exact ⟨by decide +kernel, by decide +kernel, registers_of_faulted (hexecuting 3 le_rfl)
    (hclean 3 (by decide)) (.core refusingBus 0 1 () (hturn 3 (by decide))) (by decide +kernel)⟩

/-- `csrrw x2, 0x7c3, x0`. -/
def losingHart : Rv64Hart := .ofWords [0x7c301173]

/-- `csrrw x2, 0x7c3, x0` leaves 0 in the stack pointer. -/
theorem not_registers_of_faulted :
    ¬ ∀ (k : Rv64Hart) (c c₁ c' : Rv64AtomicCore), Reachable k c →
      Executing k (fun _ ↦ True) c c₁ → Turn k c₁ c' → c'.state = .faulted →
        c'.registers = c.registers := by
  intro h
  have hreachable : Reachable losingHart (initialCore losingHart) :=
    reachable_initialCore (by decide)
  have hfetched : Executing losingHart (fun _ ↦ True) (initialCore losingHart)
      (tickSilent losingHart (initialCore losingHart)) :=
    (Executing.fetched rfl).tick silentBus 0 1 () (fun _ ↦ trivial) rfl rfl
  have hexecuted : Turn losingHart
      ((tickSilent losingHart (initialCore losingHart)).tickMmio silentBus losingHart 0 1 ()).1
      (tickSilent losingHart (tickSilent losingHart (initialCore losingHart))) :=
    .core silentBus 0 1 () rfl
  have hregisters := h _ _ _ _ hreachable (hfetched.adapter silentBus 0 1 ()) hexecuted rfl
  exact absurd (congrFun (congrArg Registers.x hregisters) 2) (by decide)

end Manycore.Rv64AtomicCore
