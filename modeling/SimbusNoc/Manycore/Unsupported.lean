import SimbusNoc.Manycore.DecodeFacts
import SimbusNoc.Manycore.PreciseFaults

/-!
# Unsupported instructions

What the core does with the instructions that the decoder accepts and the core does not model. It
rejects them, but for two kinds: the floating-point loads and stores, which have the control types
of the integer ones, and the unit-stride vector accesses while the vector type is illegal, which
find nothing to access.

`Unsupported` names the instructions that the core must not run, in terms of the decoded
instruction and of the vector setting. `Rejected` is what it owes them: it faults in the cycle of
their execution, with the registers as they were and with no request prepared. Each kind of
rejection is a check that throws, and the lemmas follow the instruction to this check.
`SlipsThrough` are the two exceptions, with the checks that they pass on their way; since an access
without elements has nothing to send, it retires. The two cases exclude each other and together
cover all unsupported instructions.
-/

namespace Manycore.Rv64AtomicCore

open Simbus Rv64archsem Throwing

variable {k : Rv64Hart} {c c' : Rv64AtomicCore} {inst : DecodedInst} {instWord : UInt32}
  {decodeRvc : UInt32 → Option DecodedInst}

/-- The instruction is one that the core in this state must not run. -/
inductive Unsupported (c : Rv64AtomicCore) (inst : DecodedInst) : Prop
  | floatingPoint (h : inst.opcode = .opfp ∨ inst.opcode = .madd ∨ inst.opcode = .msub ∨
      inst.opcode = .nmsub ∨ inst.opcode = .nmadd)
  | floatingPointLoad (h : IsFpLoad inst)
  | floatingPointStore (h : IsFpStore inst)
  | amo (h : inst.opcode = .amo)
  | privilegedReturn (h : inst.controlType = .mret ∨ inst.controlType = .sret ∨
      inst.controlType = .uret)
  /-- Strided and indexed accesses have names of their own. -/
  | vectorLoad (h : inst.controlType = .vload)
      (hload : inst.instName ≠ .vleXV ∨ isPlainVectorAccess inst = false ∨
        (∀ count, c.vectorGroupRegisters ≠ .ok count) ∨ c.setting.Illegal)
  | vectorStore (h : inst.controlType = .vstore)
      (hstore : inst.instName ≠ .vseXV ∨ isPlainVectorAccess inst = false ∨
        (∀ count, c.vectorGroupRegisters ≠ .ok count) ∨ c.setting.Illegal)
  | vectorArithmetic (h : inst.opcode = .opv)
      (hconfig : isVectorConfigInstruction inst.instName = false)
      (harithmetic : isSupportedVectorIntegerInstruction inst.instName = false ∨ c.setting.Illegal)

/-- The core has faulted, with its registers as they were and with nothing to send. -/
structure Rejected (k : Rv64Hart) (c c' : Rv64AtomicCore) : Prop where
  faulted : c'.state = .faulted
  registers : c'.registers = c.registers
  request : c'.memoryRequest = none
  silent : ∀ {σ : Type} (bus : IBus σ) (port memoryPort : BusPortT) (s : σ),
    c'.tickCore bus k port memoryPort s = .ok (c', s)

/-- Both checks of a vector access on its width and on its register group pass. -/
def PassesChecks (c : Rv64AtomicCore) (inst : DecodedInst) (group : Fin 32) : Prop :=
  isPlainVectorAccess inst = true ∧
    vectorMemoryElementBytes inst = .ok (configuredVectorElementBytes c.vectorContext) ∧
    ∃ words, c.readVectorGroup group = .ok words

/-- The instructions that slip through. -/
inductive SlipsThrough (c : Rv64AtomicCore) (inst : DecodedInst) : Prop
  | floatingPointLoad (h : IsFpLoad inst)
  | floatingPointStore (h : IsFpStore inst)
  | vectorLoad (h : inst.controlType = .vload) (hname : inst.instName = .vleXV)
      (hillegal : c.setting.Illegal) (hchecks : PassesChecks c inst inst.rd)
  | vectorStore (h : inst.controlType = .vstore) (hname : inst.instName = .vseXV)
      (hillegal : c.setting.Illegal) (hchecks : PassesChecks c inst inst.rs3)

/-! ## What is rejected

For each kind of unsupported instruction, the check that it does not pass.
-/

theorem rejected_fault (reason : String) (h : c'.registers = c.registers) :
    Rejected k c (c'.fault reason) where
  faulted := rfl
  registers := h
  request := rfl
  silent := fun _ _ _ _ ↦ tickCore_of_finished rfl

/-- What is thrown rejects the instruction. -/
theorem rejected_of_execute (h : Ensures (fun _ ↦ False) (Undone c) (execute k c)) :
    Rejected k c (executeReadyInstruction k c) := by
  rw [executeReadyInstruction]
  cases hresult : execute k c with
  | ok c' => exact (h.of_eq_ok hresult).elim
  | error e => exact rejected_fault e.1 (h.of_eq_error hresult)

/-- A check passes, or what it throws leaves the registers alone. -/
theorem undone_require {P : Rv64AtomicCore → Prop} {condition : Bool} {reason : String}
    {f : Unit → Attempt} (hf : condition = true → Ensures P (Undone c) (f ())) :
    Ensures P (Undone c) (onThrow c (require condition reason) >>= f) := by
  cases condition with
  | true => exact hf rfl
  | false => rfl

/-- A vector load that passes all checks has a register group. -/
theorem prepareVectorLoad_rejects (hname : c.instruction.decoded.instName = .vleXV →
    ¬ PassesChecks c c.instruction.decoded c.instruction.decoded.rd) :
    Ensures (fun _ ↦ False) (Undone c) (prepareVectorLoad k c) := by
  refine undone_require fun hvle ↦ undone_require fun hplain ↦ ?_
  refine undone_bind rfl fun width hwidth ↦ undone_require fun hsew ↦ ?_
  refine undone_bind rfl fun operand _ ↦ ?_
  dsimp only
  split
  · rfl
  · next vctx descriptors hparse =>
    obtain rfl := eq_of_parseLoadVector hparse
    refine undone_bind rfl fun buffer hbuffer ↦ ?_
    rw [beq_iff_eq] at hvle hsew
    exact (hname hvle ⟨hplain, hsew ▸ hwidth, buffer, hbuffer⟩).elim

theorem prepareVectorStore_rejects (hname : c.instruction.decoded.instName = .vseXV →
    ¬ PassesChecks c c.instruction.decoded c.instruction.decoded.rs3) :
    Ensures (fun _ ↦ False) (Undone c) (prepareVectorStore k c) := by
  refine undone_require fun hvse ↦ undone_require fun hplain ↦ ?_
  refine undone_bind rfl fun width hwidth ↦ undone_require fun hsew ↦ ?_
  refine undone_bind rfl fun operand _ ↦ undone_bind rfl fun data hdata ↦ ?_
  rw [beq_iff_eq] at hvse hsew
  exact (hname hvse ⟨hplain, hsew ▸ hwidth, data, hdata⟩).elim

theorem executeVectorAlu_rejects (h : isSupportedVectorIntegerInstruction
    c.instruction.decoded.instName = false ∨ c.setting.Illegal) :
    Ensures (fun _ ↦ False) (Undone c) (executeVectorAlu k c) := by
  refine undone_require fun hlegal ↦ undone_require fun hsupported ↦ ?_
  rw [beq_iff_eq] at hlegal
  rcases h with hname | hillegal
  · exact (Bool.false_ne_true (hname.symm.trans hsupported)).elim
  · exact (hillegal hlegal).elim

/-- The checks of an access need a register group. -/
theorem PassesChecks.group {group : Fin 32} (h : PassesChecks c inst group) :
    isPlainVectorAccess inst = true ∧ ∃ count, c.vectorGroupRegisters = .ok count := by
  obtain ⟨hplain, -, words, hwords⟩ := h
  obtain ⟨count, hcount, -⟩ := Except.bind_eq_ok_iff.mp hwords
  exact ⟨hplain, count, hcount⟩

theorem Unsupported.rejected (hlow : instWord &&& 0x3 = 0x3)
    (hdecode : decode decodeRvc instWord = some inst) (hpending : Fetched c inst instWord)
    (h : Unsupported c inst) (hslips : ¬ SlipsThrough c inst) :
    Rejected k c (executeReadyInstruction k c) := by
  have hinst : c.instruction.decoded = inst := congrArg _ hpending.instruction_eq
  refine rejected_of_execute ?_
  rw [execute, hinst]
  dsimp only
  -- Each kind is followed to the check that rejects it. The two that pass all checks slip through.
  cases h with
  | floatingPoint hop =>
    rw [controlType_floatingPoint hlow hdecode hop]
    dsimp only
    rw [executeInteger, hinst]
    rcases hop with hop | hop | hop | hop | hop <;> rw [hop] <;> exact rfl
  | floatingPointLoad h => exact absurd (.floatingPointLoad h) hslips
  | floatingPointStore h => exact absurd (.floatingPointStore h) hslips
  | amo hop =>
    rw [controlType_amo hlow hdecode hop]
    rfl
  | privilegedReturn hcontrol =>
    rcases hcontrol with hcontrol | hcontrol | hcontrol <;> rw [hcontrol] <;> exact rfl
  | vectorLoad hcontrol hload =>
    rw [hcontrol]
    refine prepareVectorLoad_rejects fun hname hchecks ↦ ?_
    rw [hinst] at hname hchecks
    obtain ⟨hplain, count, hcount⟩ := hchecks.group
    rcases hload with hother | hmasked | hfractional | hillegal
    · exact hother hname
    · exact Bool.false_ne_true (hmasked.symm.trans hplain)
    · exact hfractional count hcount
    · exact hslips (.vectorLoad hcontrol hname hillegal hchecks)
  | vectorStore hcontrol hstore =>
    rw [hcontrol]
    refine prepareVectorStore_rejects fun hname hchecks ↦ ?_
    rw [hinst] at hname hchecks
    obtain ⟨hplain, count, hcount⟩ := hchecks.group
    rcases hstore with hother | hmasked | hfractional | hillegal
    · exact hother hname
    · exact Bool.false_ne_true (hmasked.symm.trans hplain)
    · exact hfractional count hcount
    · exact hslips (.vectorStore hcontrol hname hillegal hchecks)
  | vectorArithmetic hop hconfig harithmetic =>
    rw [controlType_opv hlow hdecode hop]
    dsimp only
    rw [if_pos hop, hconfig, if_neg Bool.false_ne_true]
    exact executeVectorAlu_rejects (hinst ▸ harithmetic)

/-! ## What slips through

A floating-point access is executed as an integer one. A vector access with an illegal type has
length 0, so once its checks are passed there is nothing to do.
-/

theorem passes {α : Type} {P : Rv64AtomicCore → Prop} {E : String × Rv64AtomicCore → Prop}
    {c₁ : Rv64AtomicCore} {x : Except String α} {f : α → Attempt} {a : α} (hx : x = .ok a)
    (hf : Ensures P E (f a)) : Ensures P E (onThrow c₁ x >>= f) := by
  rw [hx]
  exact hf

theorem state_of_execute {P : Rv64AtomicCore → Prop}
    (h : Ensures P (fun _ ↦ False) (execute k c)) : P (executeReadyInstruction k c) := by
  rw [executeReadyInstruction]
  cases hresult : execute k c with
  | ok c' => exact h.of_eq_ok hresult
  | error e => exact (h.of_eq_error hresult).elim

/-- A vector load of no elements retires at once. -/
theorem prepareVectorLoad_empty (hvl : c.vectorContext.vl = 0)
    (hname : c.instruction.decoded.instName = .vleXV)
    (hloadv : IsLoadv c.instruction.decoded)
    (hchecks : PassesChecks c c.instruction.decoded c.instruction.decoded.rd) :
    Ensures (fun c' ↦ c'.state = .fetchDecode) (fun _ ↦ False) (prepareVectorLoad k c) := by
  obtain ⟨hplain, hwidth, words, hwords⟩ := hchecks
  have hoperand : c.loadMask.vectorOperand c.instruction.decoded.rs2Type
      c.instruction.decoded.rs2 = .ok [0] := by
    rw [(hloadv.unitStride hname).1]
    rfl
  have hparse : parseLoadVector c.instruction.decoded c.loadMask.vectorContext
      (c.loadMask.x c.instruction.decoded.rs1) [0] =
        .ok ({ c.loadMask.vectorContext with vstart := 0 }, []) := by
    have helements : elements c.loadMask.vectorContext = [] := by
      change List.range' _ (c.vectorContext.vl.toNat - _) = []
      rw [hvl, UInt32.toNat_zero, Nat.zero_sub, List.range'_zero]
    rw [parseLoadVector, (hloadv.unitStride hname).1, helements]
    rfl
  refine passes (a := ()) (require_eq_ok_iff.mpr (beq_iff_eq.mpr hname)) ?_
  refine passes (a := ()) (require_eq_ok_iff.mpr hplain) ?_
  refine passes hwidth ?_
  refine passes (a := ()) (require_eq_ok_iff.mpr (beq_self_eq_true _)) ?_
  refine passes hoperand ?_
  dsimp only
  rw [hparse]
  exact passes (a := words) hwords rfl

theorem prepareVectorStore_empty (hvl : c.vectorContext.vl = 0)
    (hname : c.instruction.decoded.instName = .vseXV)
    (hstorev : IsStorev c.instruction.decoded)
    (hchecks : PassesChecks c c.instruction.decoded c.instruction.decoded.rs3) :
    Ensures (fun c' ↦ c'.state = .fetchDecode) (fun _ ↦ False) (prepareVectorStore k c) := by
  obtain ⟨hplain, hwidth, words, hwords⟩ := hchecks
  obtain ⟨hrs2, hrs3, -, hview⟩ := hstorev.unitStride hname
  have hoperand : c.loadMask.vectorOperand c.instruction.decoded.rs2Type
      c.instruction.decoded.rs2 = .ok [0] := by
    rw [hrs2]
    rfl
  have hparse : parseStoreVector c.instruction.decoded c.loadMask.vectorContext
      (c.loadMask.x c.instruction.decoded.rs1) [0] words =
        .ok ({ c.loadMask.vectorContext with vstart := 0 }, []) := by
    have helements : elements c.loadMask.vectorContext = [] := by
      change List.range' _ (c.vectorContext.vl.toNat - _) = []
      rw [hvl, UInt32.toNat_zero, Nat.zero_sub, List.range'_zero]
    have hbytes : requestRegBytes c.loadMask.vectorContext c.instruction.decoded.rs3Type
        c.instruction.decoded.vrs3View = 0 := by
      have hzero : c.loadMask.vectorContext.vl = 0 := hvl
      rw [hrs3, hview, elementView]
      split <;> simp [requestRegBytes, hzero]
    rw [parseStoreVector, hrs2, hbytes, helements]
    rfl
  refine passes (a := ()) (require_eq_ok_iff.mpr (beq_iff_eq.mpr hname)) ?_
  refine passes (a := ()) (require_eq_ok_iff.mpr hplain) ?_
  refine passes hwidth ?_
  refine passes (a := ()) (require_eq_ok_iff.mpr (beq_self_eq_true _)) ?_
  refine passes hoperand ?_
  refine passes (a := words) hwords ?_
  dsimp only
  rw [hparse]
  rfl

theorem SlipsThrough.not_faulted (hlow : instWord &&& 0x3 = 0x3)
    (hdecode : decode decodeRvc instWord = some inst) (hreachable : Reachable k c)
    (hpending : Fetched c inst instWord) (h : SlipsThrough c inst) :
    (executeReadyInstruction k c).state ≠ .faulted := by
  have hinst : c.instruction.decoded = inst := congrArg _ hpending.instruction_eq
  have hissue : ∀ c' : Rv64AtomicCore, c'.state = .memoryIssue → c'.state ≠ .faulted :=
    fun _ h h' ↦ by cases h.symm.trans h'
  have hretired : ∀ c' : Rv64AtomicCore, c'.state = .fetchDecode → c'.state ≠ .faulted :=
    fun _ h h' ↦ by cases h.symm.trans h'
  refine state_of_execute (P := fun c' ↦ c'.state ≠ .faulted) ?_
  rw [execute, hinst]
  dsimp only
  cases h with
  | floatingPointLoad h =>
    rw [h.2.1]
    dsimp only
    rw [prepareLoad, hinst, parseLoadScalar, if_neg (not_not_intro h.2.1)]
    exact hissue _ rfl
  | floatingPointStore h =>
    rw [h.2.1]
    dsimp only
    rw [prepareStore, hinst, parseStoreScalar, if_neg (not_not_intro h.2.1)]
    exact hissue _ rfl
  | vectorLoad hcontrol hname hillegal hchecks =>
    have hloadv := isLoadv_of_vload hlow hdecode hcontrol
    have hvl : c.vectorContext.vl = 0 := hreachable.setting_ok.illegal hillegal
    rw [hcontrol]
    rw [← hinst] at hname hloadv hchecks
    exact (prepareVectorLoad_empty hvl hname hloadv hchecks).mono hretired fun _ ↦ id
  | vectorStore hcontrol hname hillegal hchecks =>
    have hstorev := isStorev_of_vstore hlow hdecode hcontrol
    have hvl : c.vectorContext.vl = 0 := hreachable.setting_ok.illegal hillegal
    rw [hcontrol]
    rw [← hinst] at hname hstorev hchecks
    exact (prepareVectorStore_empty hvl hname hstorev hchecks).mono hretired fun _ ↦ id

/-! ## The two together -/

/-- An unsupported instruction is rejected, unless it slips through. -/
theorem rejected_executeReadyInstruction_iff (hlow : instWord &&& 0x3 = 0x3)
    (hdecode : decode decodeRvc instWord = some inst) (hreachable : Reachable k c)
    (hpending : Fetched c inst instWord) (h : Unsupported c inst) :
    Rejected k c (executeReadyInstruction k c) ↔ ¬ SlipsThrough c inst :=
  ⟨fun hrejected hslips ↦
      hslips.not_faulted hlow hdecode hreachable hpending hrejected.faulted,
    h.rejected hlow hdecode hpending⟩

/-- `mret` -/
theorem rejected_mret :
    Rejected (.ofWords [0x30200073])
        (tickSilent (.ofWords [0x30200073]) (initialCore (.ofWords [0x30200073])))
        (executeReadyInstruction (.ofWords [0x30200073])
          (tickSilent (.ofWords [0x30200073]) (initialCore (.ofWords [0x30200073])))) ↔
      ¬ SlipsThrough (tickSilent (.ofWords [0x30200073]) (initialCore (.ofWords [0x30200073])))
        ((decode (fun _ ↦ none) 0x30200073).getD {}) := by
  have hconstruct : construct (.ofWords [0x30200073]) 1 =
      .ok (initialCore (.ofWords [0x30200073])) := rfl
  have htick : (initialCore (.ofWords [0x30200073])).tick silentBus (.ofWords [0x30200073]) 0 1 () =
      .ok (tickSilent (.ofWords [0x30200073]) (initialCore (.ofWords [0x30200073])), ()) := rfl
  have hdecode : decode (fun _ ↦ none) 0x30200073 =
      some ((decode (fun _ ↦ none) 0x30200073).getD {}) := rfl
  exact rejected_executeReadyInstruction_iff (by decide) hdecode
    (reachable_tick (.construct hconstruct) htick) rfl (.privilegedReturn (.inl rfl))

/-- `flw f1, 0(x2)` is run as an integer load. -/
theorem not_rejected_flw :
    ¬ ∀ (k : Rv64Hart) (c : Rv64AtomicCore) (inst : DecodedInst) (instWord : UInt32)
      (decodeRvc : UInt32 → Option DecodedInst), instWord &&& 0x3 = 0x3 →
      decode decodeRvc instWord = some inst → Reachable k c → Fetched c inst instWord →
      Unsupported c inst → Rejected k c (executeReadyInstruction k c) := by
  intro h
  have hconstruct : construct (.ofWords [0x00012087]) 1 =
      .ok (initialCore (.ofWords [0x00012087])) := rfl
  have htick : (initialCore (.ofWords [0x00012087])).tick silentBus (.ofWords [0x00012087]) 0 1 () =
      .ok (tickSilent (.ofWords [0x00012087]) (initialCore (.ofWords [0x00012087])), ()) := rfl
  have hrejected := h (.ofWords [0x00012087])
    (tickSilent (.ofWords [0x00012087]) (initialCore (.ofWords [0x00012087])))
    ((decode (fun _ ↦ none) 0x00012087).getD {}) 0x00012087 (fun _ ↦ none) (by decide) rfl
    (reachable_tick (.construct hconstruct) htick) rfl (.floatingPointLoad ⟨rfl, rfl, rfl⟩)
  exact absurd hrejected.faulted (by decide)

end Manycore.Rv64AtomicCore
