import SimbusNoc.Manycore.VectorResults

/-!
# Room for the operands of vector instructions

The length of the vector setting never exceeds what a register group holds. So no group has a
fractional length, the executor and the memory parsers find as many bytes as they ask for, and what
a load gets fits into its destination.

`roomReasons` are the messages that a core throws when setting and operands do not go together, and
`HasRoom` and `Roomy` say that a call throws none of them. The setting is in order in every
reachable state, since only configuration instructions change it. For each of the calls that may
throw such a message it is then a comparison of two sizes. The responses come later, and for them
the buffer and the end of the access are those of the state in which the access began.
-/

namespace Rv64archsem

open Manycore

variable {inst : DecodedInst} {vctx : VecContext} {fcsr : UInt64}

/-- The results of the executor for operands that are too short. -/
def VecEXResult.insufficient : List VecEXResult :=
  [.insufficientVd, .insufficientVs1, .insufficientVs2, .insufficientVmask]

/-- The results of the memory parsers for operands that are too short. -/
def MemParseResult.insufficient : List MemParseResult :=
  [.insufficientVs2, .insufficientVs3, .insufficientVmask]

theorem execOpv_sufficient {vd vrs1 vrs2 : List UInt64} {allTrueExpdMask : ℕ → Bool}
    {other : OtherCases} (hvd : requestRegBytes vctx inst.rdType inst.vrdView ≤ vd.length * 8)
    (hvrs1 : requestRegBytes vctx inst.rs1Type inst.vrs1View ≤ vrs1.length * 8)
    (hvrs2 : requestRegBytes vctx inst.rs2Type inst.vrs2View ≤ vrs2.length * 8)
    (hvmask : requestRegBytes vctx .vreg .mask ≤ vctx.vmask.length * 8) :
    Throwing.Ensures (fun _ ↦ True) (· ∉ VecEXResult.insufficient)
      (execOpv allTrueExpdMask other inst vctx vd vrs1 vrs2 fcsr) := by
  rw [execOpv, if_neg (Nat.not_lt.mpr hvd), if_neg (Nat.not_lt.mpr hvrs1),
    if_neg (Nat.not_lt.mpr hvrs2), if_neg (by simp [Nat.not_lt.mpr hvmask])]
  refine .ite (fun _ ↦ ?_) fun _ ↦ ?_
  · exact (by decide : VecEXResult.invalidWidenNarrow ∉ VecEXResult.insufficient)
  · dsimp only
    split
    · trivial
    · split
      · trivial
      · exact (by decide : VecEXResult.illegalInstruction ∉ VecEXResult.insufficient)

/-- Without a second operand a load has nothing to ask for. -/
theorem parseLoadVector_sufficient {rs1val : UInt64} {vs2 : List UInt64}
    (htype : inst.rs2Type = .none) {result : MemParseResult} :
    parseLoadVector inst vctx rs1val vs2 ≠ .error result := by
  have hnone : ¬ vs2.length * 8 < requestRegBytes vctx inst.rs2Type inst.vrs2View := by
    rw [htype]
    exact Nat.not_lt_zero _
  rw [parseLoadVector, if_neg hnone]
  intro h
  cases h

theorem parseStoreVector_sufficient {rs1val : UInt64} {vs2 vs3 : List UInt64}
    (htype : inst.rs2Type = .none)
    (hvs3 : requestRegBytes vctx inst.rs3Type inst.vrs3View ≤ vs3.length * 8)
    {result : MemParseResult} : parseStoreVector inst vctx rs1val vs2 vs3 ≠ .error result := by
  have hnone : ¬ vs2.length * 8 < requestRegBytes vctx inst.rs2Type inst.vrs2View := by
    rw [htype]
    exact Nat.not_lt_zero _
  rw [parseStoreVector, if_neg hnone, if_neg (Nat.not_lt.mpr hvs3)]
  intro h
  cases h

theorem requestRegBytes_elementView {n : ℕ}
    (h : Rv64AtomicCore.vectorMemoryElementBytes inst = .ok n) :
    requestRegBytes vctx .vreg (elementView inst.funct3) ≤ n * vctx.vl.toNat := by
  rw [Rv64AtomicCore.vectorMemoryElementBytes] at h
  split at h
  all_goals try cases h
  all_goals
    next heq =>
      rw [elementView, heq]
      first
        | exact Nat.mod_le _ _
        | exact (Nat.one_mul _).ge

end Rv64archsem

namespace Manycore.Rv64AtomicCore

open Simbus Rv64archsem Throwing Tiling

variable {k : Rv64Hart} {c c' : Rv64AtomicCore} {inst : DecodedInst} {instWord : UInt32}
  {decodeRvc : UInt32 → Option DecodedInst} {allTrueExpdMask : ℕ → Bool} {other : OtherCases}

/-! ## The statement -/

/-- What a core throws when the vector setting and the operands do not go together. -/
def roomReasons : List String :=
  ["fractional LMUL is not supported yet", "vector load response exceeds destination group"] ++
    VecEXResult.insufficient.map (fun result ↦
      s!"vector execution failed with result {result.code}") ++
    MemParseResult.insufficient.map (fun result ↦
      s!"vector load descriptor generation failed with result {result.code}") ++
    MemParseResult.insufficient.map fun result ↦
      s!"vector store descriptor generation failed with result {result.code}"

/-- The call throws nothing of that kind. -/
def HasRoom {α : Type} (x : Except String α) : Prop := Ensures (fun _ ↦ True) (· ∉ roomReasons) x

/-- The attempt throws nothing of that kind. -/
def Roomy (x : Attempt) : Prop := Ensures (fun _ ↦ True) (fun e ↦ e.1 ∉ roomReasons) x

theorem Roomy.bind {α : Type} {x : Except String α} {f : α → Attempt} (hx : HasRoom x)
    (hf : ∀ a, x = .ok a → Roomy (f a)) : Roomy (onThrow c x >>= f) :=
  ensures_onThrow_bind (fun _ h ↦ hx.of_eq_error h) hf

theorem hasRoom_require {condition : Bool} {message : String} (h : message ∉ roomReasons) :
    HasRoom (require condition message) := by
  cases condition with
  | true => trivial
  | false => exact h

theorem execution_not_mem {result : VecEXResult} (h : result ∉ VecEXResult.insufficient) :
    s!"vector execution failed with result {result.code}" ∉ roomReasons := by
  cases result <;> first | exact absurd (by decide) h | decide

/-! ## Register groups

The calls that gather and scatter register groups have checks of their own, with other messages.
-/

theorem hasRoom_vectorGroupRegisters (hok : c.setting.Ok) : HasRoom c.vectorGroupRegisters := by
  obtain ⟨count, hcount, -⟩ := hok.bytes_le
  rw [hcount]
  trivial

theorem hasRoom_readVectorGroup (hok : c.setting.Ok) (base : Fin 32) :
    HasRoom (c.readVectorGroup base) :=
  Ensures.bind (hasRoom_vectorGroupRegisters hok) fun _ _ ↦
    Ensures.bind (hasRoom_require (by decide)) fun _ _ ↦ trivial

theorem hasRoom_writeVectorGroup (hok : c.setting.Ok) (base : Fin 32) (words : List UInt64) :
    HasRoom (c.writeVectorGroup base words) :=
  Ensures.bind (hasRoom_vectorGroupRegisters hok) fun _ _ ↦
    Ensures.bind (hasRoom_require (by decide)) fun _ _ ↦ trivial

theorem hasRoom_vectorOperand (hok : c.setting.Ok) (type : RegType) (index : Fin 32) :
    HasRoom (c.vectorOperand type index) := by
  cases type with
  | none => trivial
  | gpreg => trivial
  | freg => exact (by decide : "floating-point vector operands are not supported yet" ∉ roomReasons)
  | vreg => exact hasRoom_readVectorGroup hok index

theorem hasRoom_vectorDestination (hok : c.setting.Ok) (inst : DecodedInst) :
    HasRoom (c.vectorDestination inst) := by
  refine Ensures.ite (fun _ ↦ trivial) fun _ ↦ Ensures.ite (fun _ ↦ ?_) fun _ ↦ ?_
  · exact hasRoom_readVectorGroup hok _
  · exact (by decide : "unsupported vector destination register type" ∉ roomReasons)

theorem hasRoom_vectorMemoryElementBytes (inst : DecodedInst) :
    HasRoom (vectorMemoryElementBytes inst) := by
  rw [vectorMemoryElementBytes]
  split
  iterate 4 trivial
  exact (by decide : "unsupported vector memory element width" ∉ roomReasons)

/-! ## Integer instructions -/

theorem writeVectorResult_roomy (hok : c.setting.Ok) (inst : DecodedInst) (words : List UInt64) :
    Roomy (writeVectorResult c inst words) := by
  refine Ensures.ite (fun _ ↦ ?_) fun _ ↦ ?_
  · split
    · exact (by decide : "vector::_M_range_check: __n (which is 0) >= this->size() (which is 0)" ∉
        roomReasons)
    · trivial
  · exact ensures_onThrow (fun _ h ↦ (hasRoom_writeVectorGroup hok _ _).of_eq_error h)
      fun _ _ ↦ trivial

/-- The executor gets operands of the sizes that it asks for. -/
theorem executeVectorAlu_roomy (hok : c.setting.Ok)
    (hexec : k.arch.execOpv = execOpv allTrueExpdMask other)
    (hinst : isSupportedVectorIntegerInstruction c.instruction.decoded.instName = true →
      IsVectorInteger c.instruction.decoded) : Roomy (executeVectorAlu k c) := by
  refine .bind (hasRoom_require (by decide)) fun _ _ ↦
    .bind (hasRoom_require (by decide)) fun _ hname ↦ ?_
  rw [require_eq_ok_iff] at hname
  obtain ⟨hvd, hvrs1, hvrs2⟩ := (hinst hname).views
  have hok' : c.loadMask.setting.Ok := hok
  refine .bind (hasRoom_vectorOperand hok' ..) fun source1 hsource1 ↦
    .bind (hasRoom_vectorOperand hok' ..) fun source2 hsource2 ↦
      .bind (hasRoom_vectorDestination hok' _) fun destination hdestination ↦ ?_
  dsimp only
  split
  · next result hresult =>
    rw [hexec] at hresult
    refine execution_not_mem ((execOpv_sufficient ?_ ?_ ?_ (length_vmask hok)).of_eq_error hresult)
    · rw [hvd]
      exact length_vectorDestination hok' hdestination
    · rw [hvrs1]
      exact length_vectorOperand hok' hsource1
    · rw [hvrs2]
      exact length_vectorOperand hok' hsource2
  · refine Ensures.bind (writeVectorResult_roomy ?_ _ _) fun _ _ ↦ trivial
    exact hok'

/-! ## Loads and stores -/

theorem stageNextVectorRequest_roomy (k : Rv64Hart) (c : Rv64AtomicCore) :
    Roomy (stageNextVectorRequest k c) := by
  rw [stageNextVectorRequest]
  refine Ensures.ite (fun _ ↦ ?_) fun _ ↦ ?_
  · split
    · exact (by decide : "missing vector load descriptor" ∉ roomReasons)
    · trivial
  · split
    · exact (by decide : "missing vector store descriptor" ∉ roomReasons)
    · trivial

theorem prepareVectorLoad_roomy (hok : c.setting.Ok)
    (hinst : IsLoadv c.instruction.decoded) : Roomy (prepareVectorLoad k c) := by
  refine .bind (hasRoom_require (by decide)) fun _ hname ↦
    .bind (hasRoom_require (by decide)) fun _ _ ↦ ?_
  rw [require_eq_ok_iff, beq_iff_eq] at hname
  refine .bind (hasRoom_vectorMemoryElementBytes _) fun width _ ↦
    .bind (hasRoom_require (by decide)) fun _ _ ↦
      .bind (hasRoom_vectorOperand (c := c.loadMask) hok ..) fun operand _ ↦ ?_
  dsimp only
  split
  · next result hresult =>
    exact absurd hresult (parseLoadVector_sufficient (hinst.unitStride hname).1)
  · next vctx descriptors hparse =>
    obtain rfl := eq_of_parseLoadVector hparse
    refine .bind (hasRoom_readVectorGroup ?_ _) fun buffer _ ↦ ?_
    · exact hok
    · exact Ensures.ite (fun _ ↦ trivial) fun _ ↦ stageNextVectorRequest_roomy ..

theorem prepareVectorStore_roomy (hok : c.setting.Ok)
    (hinst : IsStorev c.instruction.decoded) : Roomy (prepareVectorStore k c) := by
  refine .bind (hasRoom_require (by decide)) fun _ hname ↦
    .bind (hasRoom_require (by decide)) fun _ _ ↦ ?_
  rw [require_eq_ok_iff, beq_iff_eq] at hname
  obtain ⟨hrs2, hrs3, -, hview⟩ := hinst.unitStride hname
  refine .bind (hasRoom_vectorMemoryElementBytes _) fun width hbytes ↦
    .bind (hasRoom_require (by decide)) fun _ hwidth ↦
      .bind (hasRoom_vectorOperand (c := c.loadMask) hok ..) fun operand _ ↦
        .bind (hasRoom_readVectorGroup (c := c.loadMask) hok _) fun data hdata ↦ ?_
  rw [require_eq_ok_iff, beq_iff_eq] at hwidth
  obtain ⟨count, hcount, hle⟩ := hok.bytes_le
  have hlength := length_readVectorGroup (c := c.loadMask) hcount hdata
  dsimp only
  split
  · next result hresult =>
    refine absurd hresult (parseStoreVector_sufficient hrs2 ?_)
    rw [hrs3, hview, hlength]
    refine (requestRegBytes_elementView hbytes).trans ?_
    rw [hwidth, Nat.mul_comm]
    exact hle.trans (by omega)
  · exact Ensures.ite (fun _ ↦ trivial) fun _ ↦ stageNextVectorRequest_roomy ..

/-! ## Responses

The buffer of a load was as large as its destination group when the access began, and the setting
has not changed since.
-/

theorem Accessing.start_executeWait (h : Accessing k c c') : c.state = .executeWait := by
  induction h with
  | start hstate hcontrol hturn hactive => exact hstate
  | turn h hturn hactive ih => exact ih

theorem Plans.isVload {buffer : List UInt64} {plan : List SubTransaction}
    (h : Plans c true buffer plan) : c.instruction.decoded.controlType = .vload := by
  cases h with
  | load hcontrol hname hplain hwidth hparse hbuffer => exact hcontrol

theorem endByte_le_group {count : ℕ} (hcontrol : c.instruction.decoded.controlType = .vload)
    (hbytes : c.vectorContext.vl.toNat * c.vectorContext.sew.bytes ≤ count * 32)
    (h : c.firstByte < c.endByte) : c.endByte ≤ count * 32 := by
  rw [endByte] at h ⊢
  have hpos := Nat.pos_of_mul_pos_right (a := _) (by omega : 0 <
    (c.vectorContext.vl.toNat - c.vectorContext.vstart.toNat) * c.vectorContext.sew.bytes)
  rw [firstByte, if_pos hcontrol, ← Nat.add_mul, Nat.add_sub_cancel' (by omega)]
  exact hbytes

/-- What the pending request of a vector load asks for fits into the buffer. -/
theorem Reachable.regOffset_le (h : Reachable k c) (harch : k.arch.decode = decode decodeRvc)
    (hactive : c.vectorMemoryActive = true) (hload : c.vectorMemoryIsLoad = true) :
    ∃ d, c.activeVectorLoad = some d ∧
      d.regOffset.toNat + d.size.toNat ≤ c.vectorLoadBuffer.length * 8 := by
  obtain ⟨c₀, hc₀, haccess⟩ := h.accessing hactive
  obtain ⟨inst, instWord, hfetched, hdecode, hlow⟩ := hc₀.decoded haccess.start_executeWait
  obtain ⟨buffer, plan, done, t, q, hrequesting⟩ := haccess.underway hc₀
  obtain ⟨d, hd, rfl⟩ := hrequesting.load hload
  have hplans := hrequesting.plans
  have hw := isWidth_bytes c₀.vectorContext.sew
  have htiles := hplans.tiles hlow (harch ▸ hdecode) hfetched hc₀.setting_ok (slack_lt hw)
    (fits_slack _ hw _ _)
  obtain ⟨p, hfirst, hend, hblock, hplace⟩ := htiles.exists_place (.ofLoad d)
    (hrequesting.plan_eq ▸ List.mem_append_right _ List.mem_cons_self)
  rw [hload] at hplans
  have hcontrol := hplans.isVload
  have hregOffset : d.regOffset.toNat = p := hplace hcontrol
  have hpos := hblock.pos
  -- the group is as large as when the access began
  obtain ⟨count, hcount, hbytes⟩ := hc₀.setting_ok.bytes_le
  obtain ⟨count', hcount', hlength⟩ := h.length_vectorLoadBuffer hactive hload
  have hlmul : c.vectorContext.lmul = c₀.vectorContext.lmul :=
    (congrArg VecContext.lmul hrequesting.vectorContext).trans rfl
  rw [vectorGroupRegisters, hlmul] at hcount'
  obtain rfl := Except.ok.inj (hcount'.symm.trans hcount)
  have hgroup := endByte_le_group hcontrol hbytes (by omega)
  have hsize : (SubTransaction.ofLoad d).size = d.size := rfl
  rw [hsize] at hend
  exact ⟨d, hd, by omega⟩

theorem takeVectorData_roomy {data : Bytes}
    (h : ∀ d, c.activeVectorLoad = some d →
      d.regOffset.toNat + d.size.toNat ≤ c.vectorLoadBuffer.length * 8) :
    Ensures (fun c' ↦ c'.setting = c.setting) (fun e ↦ e.1 ∉ roomReasons)
      (c.takeVectorData data) := by
  rw [takeVectorData]
  split
  · exact (by decide : "invalid vector load response" ∉ roomReasons)
  · next d hd =>
    refine ensures_onThrow_bind (fun _ h ↦ (hasRoom_require (by decide)).of_eq_error h)
      fun _ hsize ↦ ensures_onThrow_bind (fun reason hreason ↦ ?_) fun _ _ ↦ rfl
    rw [require_eq_ok_iff, beq_iff_eq] at hsize
    have hfits := h d hd
    rw [hsize, decide_eq_true hfits] at hreason
    cases hreason

theorem finishVectorMemoryResponse_roomy (hok : c.setting.Ok) (response : MemoryResponse)
    (h : c.vectorMemoryIsLoad = true → ∀ d, c.activeVectorLoad = some d →
      d.regOffset.toNat + d.size.toNat ≤ c.vectorLoadBuffer.length * 8) :
    Roomy (finishVectorMemoryResponse k c response) := by
  have hrest : ∀ c₁ : Rv64AtomicCore, c₁.setting = c.setting → Roomy
      (let c := { c₁ with memoryRequest := none }
      if c.moreVectorRequests then stageNextVectorRequest k c
      else do
        let c ← if c.vectorMemoryIsLoad then
            onThrow c (c.writeVectorGroup c.vectorMemoryRegister c.vectorLoadBuffer)
          else .ok c
        return { c with vectorLoadBuffer := [], vectorMemoryActive := false }.commit) := by
    intro c₁ hc₁
    refine Ensures.ite (fun _ ↦ stageNextVectorRequest_roomy ..) fun _ ↦ ?_
    refine Ensures.ite (fun _ ↦ ?_) fun _ ↦ trivial
    refine Roomy.bind (hasRoom_writeVectorGroup ?_ _ _) fun _ _ ↦ trivial
    exact hc₁ ▸ hok
  rw [finishVectorMemoryResponse]
  exact Ensures.ite (fun hload ↦ Ensures.bind (takeVectorData_roomy (h hload)) hrest)
    fun _ ↦ hrest c rfl

/-! ## Every core -/

/-- The length fits the type, the type fits what is stored of it, and nothing that the core does
for a vector instruction fails for want of room. The core takes the time of an instruction before
it executes it, and notes a response before it uses it. -/
structure KeepsRoom (k : Rv64Hart) (c : Rv64AtomicCore) : Prop where
  vl_le : c.vectorContext.vl.toNat ≤
    getMaxVectorLength c.vectorContext.sew c.vectorContext.lmul
  encoded : c.setting.Encoded
  integral : c.vectorContext.lmul = .m1 ∨ c.vectorContext.lmul = .m2 ∨
    c.vectorContext.lmul = .m4 ∨ c.vectorContext.lmul = .m8
  readGroup : ∀ base, HasRoom (c.readVectorGroup base)
  writeGroup : ∀ base words, HasRoom (c.writeVectorGroup base words)
  alu : c.state = .executeWait → c.instruction.decoded.opcode = .opv → ∀ stats cyclesLeft,
    Roomy (executeVectorAlu k { c with stats := stats, cyclesLeft := cyclesLeft })
  load : c.state = .executeWait → c.instruction.decoded.controlType = .vload →
    ∀ stats cyclesLeft,
      Roomy (prepareVectorLoad k { c with stats := stats, cyclesLeft := cyclesLeft })
  store : c.state = .executeWait → c.instruction.decoded.controlType = .vstore →
    ∀ stats cyclesLeft,
      Roomy (prepareVectorStore k { c with stats := stats, cyclesLeft := cyclesLeft })
  response : c.vectorMemoryActive = true → ∀ stats requestStarted trace response,
    Roomy (finishVectorMemoryResponse k
      { c with stats := stats, requestStarted := requestStarted, trace := trace } response)

/-- The vector setting of a reachable core leaves room for every vector instruction. -/
theorem keeps_room (h : Reachable k c) (harch : k.arch.decode = decode decodeRvc)
    (hexec : k.arch.execOpv = execOpv allTrueExpdMask other) : KeepsRoom k c := by
  have hok := h.setting_ok
  have hdecoded : c.state = .executeWait → ∃ instWord, instWord &&& 0x3 = 0x3 ∧
      decode decodeRvc instWord = some c.instruction.decoded := by
    intro hstate
    obtain ⟨inst, instWord, hfetched, hdecode, hlow⟩ := h.decoded hstate
    have hinst : c.instruction.decoded = inst := congrArg _ hfetched.instruction_eq
    rw [harch] at hdecode
    exact ⟨instWord, hlow, hinst ▸ hdecode⟩
  refine { vl_le := hok.vl_le, encoded := h.setting_encoded, integral := hok.integral
           readGroup := hasRoom_readVectorGroup hok, writeGroup := hasRoom_writeVectorGroup hok
           alu := ?_, load := ?_, store := ?_, response := ?_ }
  · intro hstate hop stats cyclesLeft
    obtain ⟨instWord, hlow, hdecode⟩ := hdecoded hstate
    exact executeVectorAlu_roomy (c := { c with stats := stats, cyclesLeft := cyclesLeft })
      hok hexec
      (isVectorInteger hlow hdecode hop)
  · intro hstate hcontrol stats cyclesLeft
    obtain ⟨instWord, hlow, hdecode⟩ := hdecoded hstate
    exact prepareVectorLoad_roomy (c := { c with stats := stats, cyclesLeft := cyclesLeft }) hok
      (isLoadv_of_vload hlow hdecode hcontrol)
  · intro hstate hcontrol stats cyclesLeft
    obtain ⟨instWord, hlow, hdecode⟩ := hdecoded hstate
    exact prepareVectorStore_roomy (c := { c with stats := stats, cyclesLeft := cyclesLeft }) hok
      (isStorev_of_vstore hlow hdecode hcontrol)
  · intro hactive stats requestStarted trace response
    refine finishVectorMemoryResponse_roomy
      (c := { c with stats := stats, requestStarted := requestStarted, trace := trace })
      hok response
      fun hload d hd ↦ ?_
    obtain ⟨d', hd', hle⟩ := h.regOffset_le harch hactive hload
    obtain rfl := Option.some.inj (hd.symm.trans hd')
    exact hle

/-- `vadd.vv v1, v2, v3` with two elements. -/
theorem keeps_room_vadd : KeepsRoom (vectorHart 0x022180d7) (vectorStart 0x022180d7) ∧
    (vectorStart 0x022180d7).vectorContext.vl = 2 :=
  ⟨keeps_room (vectorStart_reachable _) (decode_vectorHart _) (execOpv_vectorHart _), rfl⟩

end Manycore.Rv64AtomicCore
