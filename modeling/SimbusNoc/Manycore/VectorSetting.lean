import SimbusNoc.Manycore.CoreRuns

/-!
# The vector setting

The type and the length that the last configuration instruction has set. Only such an instruction
changes them, so what it makes sure of holds at all times: the group length is a whole number of
registers, the length is at most what the group holds, and it is 0 while the type is illegal.

`setting` is the part of the core that is meant, and `KeepsSetting` says of a function that it
leaves this part alone, also when it throws. Almost every function of the core does, with one lemma
for each; they are short, for a function that calls others cites theirs. `Configures` is the one
other thing that a turn can do. `Reachable.setting_induction` concludes: what holds of the first
setting and of everything that a configuration instruction sets holds in every reachable state.
-/

namespace Manycore.Rv64AtomicCore

open Simbus Rv64archsem Throwing

structure VectorSetting where
  vtype : UInt64
  sew : RVVSEW
  lmul : RVVLMUL
  vl : UInt32

namespace VectorSetting

/-- `vtype.vill` is set. -/
def Illegal (v : VectorSetting) : Prop := v.vtype &&& vectorIllegal ≠ 0

structure Ok (v : VectorSetting) : Prop where
  illegal : v.Illegal → v.vl = 0
  integral : v.lmul = .m1 ∨ v.lmul = .m2 ∨ v.lmul = .m4 ∨ v.lmul = .m8
  vl_le : v.vl.toNat ≤ getMaxVectorLength v.sew v.lmul

/-- The type is the illegal one, with length 0, or it has 8 bits and its fields are the width and
the group length that are stored beside it. -/
def Encoded (v : VectorSetting) : Prop :=
  (v.vtype = vectorIllegal ∧ v.vl = 0) ∨
    (v.vtype &&& ~~~0xff = 0 ∧
      v.vtype &&& 7 ≤ 3 ∧ lmulOf (v.vtype &&& 7) = v.lmul ∧
      (v.vtype >>> 3) &&& 7 ≤ 3 ∧ sewOf ((v.vtype >>> 3) &&& 7) = v.sew)

end VectorSetting

/-- The vector setting of a core. -/
def setting (c : Rv64AtomicCore) : VectorSetting :=
  ⟨c.vtype, c.vectorContext.sew, c.vectorContext.lmul, c.vectorContext.vl⟩

variable {k : Rv64Hart} {c c' c₁ : Rv64AtomicCore}

/-! ## The functions that keep it

All functions of the core except the one that executes configuration instructions.
-/

/-- The setting is the same afterwards, also when something is thrown. -/
def KeepsSetting (c : Rv64AtomicCore) (x : Attempt) : Prop :=
  Ensures (fun c' ↦ c'.setting = c.setting) (fun e ↦ e.2.setting = c.setting) x

theorem setting_writeReg (c : Rv64AtomicCore) (index : Fin 32) (value : UInt64) :
    (c.writeReg index value).setting = c.setting := by
  rw [writeReg]
  split <;> rfl

theorem setting_recordLatency (c : Rv64AtomicCore) : c.recordLatency.setting = c.setting := by
  rw [recordLatency]
  split <;> rfl

theorem setting_startRequest (c : Rv64AtomicCore) : c.startRequest.setting = c.setting := by
  rw [startRequest]
  split <;> rfl

theorem setting_countExecuteWait (c : Rv64AtomicCore) :
    c.countExecuteWait.setting = c.setting := by
  rw [countExecuteWait]
  split <;> rfl

theorem setting_recover {x : Attempt} (h : KeepsSetting c x) : (recover x).setting = c.setting := by
  rcases x with ⟨reason, c₁⟩ | c₁
  · exact h
  · exact h

namespace KeepsSetting

theorem bind {α : Type} {x : Except String α} {f : α → Attempt} (hc₁ : c₁.setting = c.setting)
    (hf : ∀ a, x = .ok a → KeepsSetting c (f a)) : KeepsSetting c (onThrow c₁ x >>= f) := by
  cases x with
  | ok a => exact hf a rfl
  | error reason => exact hc₁

theorem writeVectorGroup {base : Fin 32} {words : List UInt64}
    (h : c.writeVectorGroup base words = .ok c') : c'.setting = c.setting := by
  obtain ⟨count, -, h⟩ := Except.bind_eq_ok_iff.mp h
  obtain ⟨-, -, h⟩ := Except.bind_eq_ok_iff.mp h
  obtain rfl := Except.ok.inj h
  rfl

theorem executeInteger (k : Rv64Hart) (c : Rv64AtomicCore) :
    KeepsSetting c (executeInteger k c) := by
  rw [Rv64AtomicCore.executeInteger]
  dsimp only
  split
  · exact setting_writeReg ..
  · exact setting_writeReg ..
  · exact setting_writeReg ..
  · exact setting_writeReg ..
  · exact setting_writeReg ..
  · exact setting_writeReg ..
  · rfl

theorem writeVectorResult (inst : DecodedInst) (words : List UInt64)
    (hc₁ : c₁.setting = c.setting) : KeepsSetting c (writeVectorResult c₁ inst words) := by
  refine Ensures.ite (fun _ ↦ ?_) fun _ ↦ ?_
  · split
    · exact hc₁
    · exact (setting_writeReg ..).trans hc₁
  · cases hwrite : c₁.writeVectorGroup inst.rd words with
    | error reason => exact hc₁
    | ok c' => exact (writeVectorGroup hwrite).trans hc₁

theorem executeVectorAlu (k : Rv64Hart) (c : Rv64AtomicCore) :
    KeepsSetting c (executeVectorAlu k c) := by
  refine bind rfl fun _ _ ↦ bind rfl fun _ _ ↦ ?_
  refine bind rfl fun source1 _ ↦ bind rfl fun source2 _ ↦ bind rfl fun destination _ ↦ ?_
  dsimp only
  split
  · rfl
  · exact Ensures.bind (writeVectorResult _ _ rfl) fun c' hc' ↦ hc'

theorem writeCsr {address value : UInt64} (h : writeCsr k c address value = .ok c') :
    c'.setting = c.setting := by
  rw [Rv64AtomicCore.writeCsr] at h
  by_cases hbus : isBusCsr address = true
  · rw [if_pos hbus] at h
    obtain ⟨-, -, h⟩ := Except.bind_eq_ok_iff.mp h
    obtain ⟨mmio, -, h⟩ := Except.bind_eq_ok_iff.mp h
    exact Except.ok.inj h ▸ rfl
  · rw [if_neg hbus] at h
    dsimp only at h
    split_ifs at h <;> exact Except.ok.inj h ▸ rfl

theorem executeCsr (k : Rv64Hart) (c : Rv64AtomicCore) : KeepsSetting c (executeCsr k c) := by
  refine bind rfl fun oldValue _ ↦ ?_
  have hrest : ∀ (newValue : UInt64) (write : Bool), KeepsSetting c
      (if write then onThrow (c.writeReg c.instruction.decoded.rd oldValue)
          (Rv64AtomicCore.writeCsr k (c.writeReg c.instruction.decoded.rd oldValue)
            (c.instruction.decoded.imm.toUInt64 &&& 0xfff) newValue)
        else pure (c.writeReg c.instruction.decoded.rd oldValue)) := by
    intro newValue write
    refine Ensures.ite (fun _ ↦ ?_) fun _ ↦ setting_writeReg ..
    cases hresult : Rv64AtomicCore.writeCsr k (c.writeReg c.instruction.decoded.rd oldValue)
        (c.instruction.decoded.imm.toUInt64 &&& 0xfff) newValue with
    | ok c' => exact (writeCsr hresult).trans (setting_writeReg ..)
    | error reason => exact setting_writeReg ..
  have hpair : ∀ result : UInt64 × Bool, True → KeepsSetting c _ :=
    fun result _ ↦ hrest result.1 result.2
  dsimp only
  split
  · exact Ensures.bind (P := fun _ ↦ True) trivial hpair
  · exact Ensures.bind (P := fun _ ↦ True) trivial hpair
  · exact Ensures.bind (P := fun _ ↦ True) trivial hpair
  · exact Ensures.bind (P := fun _ ↦ True) trivial hpair
  · exact Ensures.bind (P := fun _ ↦ True) trivial hpair
  · exact Ensures.bind (P := fun _ ↦ True) trivial hpair
  · rfl

theorem stageNextVectorRequest (hc₁ : c₁.setting = c.setting) :
    KeepsSetting c (stageNextVectorRequest k c₁) := by
  rw [Rv64AtomicCore.stageNextVectorRequest]
  refine Ensures.ite (fun _ ↦ ?_) fun _ ↦ ?_
  · split
    · exact hc₁
    · exact hc₁
  · split
    · exact hc₁
    · exact hc₁

theorem prepareLoad (k : Rv64Hart) (c : Rv64AtomicCore) : KeepsSetting c (prepareLoad k c) := by
  rw [Rv64AtomicCore.prepareLoad]
  split <;> rfl

theorem prepareStore (k : Rv64Hart) (c : Rv64AtomicCore) : KeepsSetting c (prepareStore k c) := by
  rw [Rv64AtomicCore.prepareStore]
  split <;> rfl

end KeepsSetting

/-- A vector access changes nothing of the context but `vstart`. -/
theorem eq_of_parseLoadVector {inst : DecodedInst} {vctx vctx' : VecContext} {rs1val : UInt64}
    {vs2raw : List UInt64} {descriptors : List MemLoadDescriptor}
    (h : parseLoadVector inst vctx rs1val vs2raw = .ok (vctx', descriptors)) :
    vctx' = { vctx with vstart := 0 } := by
  simp only [parseLoadVector, bind, Except.bind, pure, Except.pure] at h
  split at h
  · cases h
  · exact (Prod.mk.inj (Except.ok.inj h)).1.symm

theorem eq_of_parseStoreVector {inst : DecodedInst} {vctx vctx' : VecContext} {rs1val : UInt64}
    {vs2raw vs3raw : List UInt64} {descriptors : List MemStoreDescriptor}
    (h : parseStoreVector inst vctx rs1val vs2raw vs3raw = .ok (vctx', descriptors)) :
    vctx' = { vctx with vstart := 0 } := by
  simp only [parseStoreVector, bind, Except.bind, pure, Except.pure] at h
  split at h
  · cases h
  · split at h
    · cases h
    · exact (Prod.mk.inj (Except.ok.inj h)).1.symm

namespace KeepsSetting

theorem prepareVectorLoad (k : Rv64Hart) (c : Rv64AtomicCore) :
    KeepsSetting c (prepareVectorLoad k c) := by
  refine bind rfl fun _ _ ↦ bind rfl fun _ _ ↦ bind rfl fun width _ ↦ bind rfl fun _ _ ↦ ?_
  refine bind rfl fun operand _ ↦ ?_
  dsimp only
  split
  · rfl
  · next vctx descriptors hparse =>
    obtain rfl := eq_of_parseLoadVector hparse
    exact bind rfl fun buffer _ ↦ Ensures.ite (fun _ ↦ rfl) fun _ ↦ stageNextVectorRequest rfl

theorem prepareVectorStore (k : Rv64Hart) (c : Rv64AtomicCore) :
    KeepsSetting c (prepareVectorStore k c) := by
  refine bind rfl fun _ _ ↦ bind rfl fun _ _ ↦ bind rfl fun width _ ↦ bind rfl fun _ _ ↦ ?_
  refine bind rfl fun operand _ ↦ bind rfl fun data _ ↦ ?_
  dsimp only
  split
  · rfl
  · next vctx descriptors hparse =>
    obtain rfl := eq_of_parseStoreVector hparse
    exact Ensures.ite (fun _ ↦ rfl) fun _ ↦ stageNextVectorRequest rfl

theorem fetchDecode (k : Rv64Hart) (c : Rv64AtomicCore) :
    (fetchDecode k c).setting = c.setting := by
  refine setting_recover (c := c) ?_
  refine bind rfl fun low _ ↦ Ensures.ite (fun _ ↦ rfl) fun _ ↦ bind rfl fun raw _ ↦ ?_
  split
  · rfl
  · exact bind rfl fun cycles _ ↦ rfl

theorem accessWindow (k : Rv64Hart) (c : Rv64AtomicCore) : KeepsSetting c (accessWindow k c) := by
  refine bind rfl fun _ _ ↦ Ensures.ite (fun _ ↦ ?_) fun _ ↦ ?_
  · exact bind rfl fun value _ ↦ setting_writeReg c c.loadRd value
  · exact bind rfl fun mmio _ ↦ rfl

theorem finishVectorMemoryResponse {response : MemoryResponse} (hc₁ : c₁.setting = c.setting) :
    KeepsSetting c (finishVectorMemoryResponse k c₁ response) := by
  have hrest : ∀ c₂ : Rv64AtomicCore, c₂.setting = c.setting → KeepsSetting c
      (let c := { c₂ with memoryRequest := none }
      if c.moreVectorRequests then Rv64AtomicCore.stageNextVectorRequest k c
      else do
        let c ← if c.vectorMemoryIsLoad then
            onThrow c (c.writeVectorGroup c.vectorMemoryRegister c.vectorLoadBuffer)
          else .ok c
        return { c with vectorLoadBuffer := [], vectorMemoryActive := false }.commit) := by
    intro c₂ hc₂
    refine Ensures.ite (fun _ ↦ stageNextVectorRequest hc₂) fun _ ↦ ?_
    refine Ensures.ite (fun _ ↦ ?_) fun _ ↦ hc₂
    exact bind hc₂ fun c₃ hc₃ ↦ (writeVectorGroup hc₃).trans hc₂
  rw [Rv64AtomicCore.finishVectorMemoryResponse]
  refine Ensures.ite (fun _ ↦ ?_) fun _ ↦ hrest c₁ hc₁
  refine Ensures.bind (?_ : KeepsSetting c _) hrest
  rw [takeVectorData]
  split
  · exact hc₁
  · exact bind hc₁ fun _ _ ↦ bind hc₁ fun _ _ ↦ hc₁

theorem handleTohostWrite {q : MemoryRequest} (hc₁ : c₁.setting = c.setting) :
    Ensures (fun result ↦ ∀ c', result = some c' → c'.setting = c.setting)
      (fun e ↦ e.2.setting = c.setting) (handleTohostWrite k c₁ q) := by
  have hnone : ∀ c', (none : Option Rv64AtomicCore) = some c' → c'.setting = c.setting :=
    fun _ h ↦ nomatch h
  have hsome : ∀ code reason, ∀ c', some (c₁.commit.stop code reason) = some c' →
      c'.setting = c.setting := fun _ _ c' h ↦ Option.some.inj h ▸ hc₁
  rw [Rv64AtomicCore.handleTohostWrite]
  refine Ensures.ite (fun _ ↦ hnone) fun _ ↦ ?_
  cases hbytes : !(q.data.isEmpty || decide (8 < q.data.length)) with
  | false => exact hc₁
  | true =>
    refine Ensures.ite (fun _ ↦ hnone) fun _ ↦ ?_
    exact Ensures.ite (fun _ ↦ hsome _ _) fun _ ↦ hsome _ _

theorem takeResponse (k : Rv64Hart) (c : Rv64AtomicCore) (bytes : Bytes) :
    KeepsSetting c (takeResponse k c bytes) := by
  refine bind rfl fun response _ ↦ ?_
  split
  · rfl
  · next q hq =>
    refine bind rfl fun _ _ ↦ bind rfl fun _ _ ↦ ?_
    dsimp only
    set c₁ : Rv64AtomicCore := { c.recordLatency with
      trace := { c.trace with answered := c.trace.answered ++ [(q, response)] } } with hc₁
    have hsetting : c₁.setting = c.setting := setting_recordLatency c
    refine Ensures.ite (fun _ ↦ finishVectorMemoryResponse hsetting) fun _ ↦ ?_
    have hrest : ∀ c₂ : Rv64AtomicCore, c₂.setting = c.setting → KeepsSetting c
        (Rv64AtomicCore.handleTohostWrite k { c₂ with memoryRequest := none } q >>=
          afterHost { c₂ with memoryRequest := none }) := by
      intro c₂ hc₂
      refine Ensures.bind (handleTohostWrite hc₂) fun result hresult ↦ ?_
      cases result with
      | some c' => exact hresult c' rfl
      | none => exact hc₂
    refine Ensures.ite (fun _ ↦ ?_) fun _ ↦ hrest c₁ hsetting
    refine Ensures.bind (P := fun c₂ : Rv64AtomicCore ↦ c₂.setting = c.setting) ?_ hrest
    exact bind hsetting fun _ _ ↦ (setting_writeReg ..).trans hsetting

end KeepsSetting

/-! ## Turns and runs -/

/-- The setting is as before, or a configuration instruction has set it. -/
def Configures (c c' : Rv64AtomicCore) : Prop :=
  c'.setting = c.setting ∨
    ∃ requested avl, c'.setting = (c.configureVector requested avl).setting

theorem configures_executeVectorConfig (c : Rv64AtomicCore) :
    c.Configures c.executeVectorConfig := by
  rw [executeVectorConfig]
  exact .inr ⟨_, _, setting_writeReg ..⟩

theorem execute_configures (k : Rv64Hart) (c : Rv64AtomicCore) :
    Ensures c.Configures (fun e ↦ e.2.setting = c.setting) (execute k c) := by
  have hkeeps : ∀ {x : Attempt}, KeepsSetting c x →
      Ensures c.Configures (fun e ↦ e.2.setting = c.setting) x :=
    fun hx ↦ hx.mono (fun c' hc' ↦ .inl hc') fun e he ↦ he
  rw [execute]
  dsimp only
  split
  · refine Ensures.ite (fun _ ↦ ?_) fun _ ↦ hkeeps (.executeInteger k c)
    exact Ensures.ite (fun _ ↦ configures_executeVectorConfig c)
      fun _ ↦ hkeeps (.executeVectorAlu k c)
  · split
    · exact .inl rfl
    · exact .inl rfl
  · exact hkeeps (setting_writeReg c ..)
  · exact hkeeps (setting_writeReg c ..)
  · exact hkeeps (setting_writeReg c ..)
  · exact hkeeps (setting_writeReg c ..)
  · exact hkeeps (.prepareLoad k c)
  · exact hkeeps (.prepareStore k c)
  · exact hkeeps (.prepareVectorLoad k c)
  · exact hkeeps (.prepareVectorStore k c)
  · exact hkeeps (Ensures.bind (KeepsSetting.executeCsr k c) fun _ hc' ↦ hc')
  · exact Ensures.ite (fun _ ↦ .inl rfl) fun _ ↦ .inl rfl
  · exact Ensures.ite (fun _ ↦ .inl rfl) fun _ ↦ .inl rfl
  · exact Ensures.ite (fun _ ↦ .inl rfl) fun _ ↦ .inl rfl
  · exact .inl rfl
  · exact .inl rfl
  · rfl
  · rfl

theorem executeReadyInstruction_configures (k : Rv64Hart) (c : Rv64AtomicCore) :
    c.Configures (executeReadyInstruction k c) := by
  have hexecute := execute_configures k c
  rw [executeReadyInstruction]
  cases hresult : execute k c with
  | ok c' => exact hexecute.of_eq_ok hresult
  | error e => exact .inl (hexecute.of_eq_error hresult)

/-- What an instruction sets depends on the setting only. -/
theorem Configures.of_eq (h : c₁.Configures c') (hc₁ : c₁.setting = c.setting) :
    c.Configures c' := by
  rcases h with h | ⟨requested, avl, h⟩
  · exact .inl (h.trans hc₁)
  · refine .inr ⟨requested, avl, h.trans ?_⟩
    simp only [setting, VectorSetting.mk.injEq] at hc₁ ⊢
    rw [configureVector, configureVector]
    dsimp only
    split <;> simp [hc₁]

theorem advanceExecute_configures (k : Rv64Hart) (c : Rv64AtomicCore) :
    c.Configures (advanceExecute k c) := by
  rw [advanceExecute]
  split
  · exact .inl rfl
  · have hwait := setting_countExecuteWait c
    dsimp only
    split
    · exact (executeReadyInstruction_configures k _).of_eq hwait
    · exact .inl hwait

theorem Turn.configures (hturn : Turn k c c') : c.Configures c' := by
  cases hturn with
  | adapter bus port memoryPort s =>
    obtain ⟨mmio, hc' | ⟨reason, hc'⟩⟩ := @tickMmio_fst k c _ bus port memoryPort s
    · exact .inl (hc' ▸ rfl)
    · exact .inl (hc' ▸ rfl)
  | core bus port memoryPort s hcore =>
    rcases tickCore_cases hcore with rfl | ⟨-, rfl⟩ | ⟨-, rfl⟩ | ⟨-, hissue⟩ | ⟨-, hreceive⟩
    · exact .inl rfl
    · exact .inl (KeepsSetting.fetchDecode k c.countTick)
    · exact (advanceExecute_configures k c.countTick).of_eq rfl
    · rcases issueMemoryRequest_fst hissue with rfl | ⟨-, -, rfl⟩ | rfl | rfl | ⟨-, -, rfl⟩
      · exact .inl rfl
      · exact .inl (setting_recover (.accessWindow k c.countTick))
      · exact .inl rfl
      · exact .inl (setting_startRequest c.countTick)
      · exact .inl (setting_startRequest c.countTick)
    · rcases receiveMemoryResponse_fst hreceive with rfl | ⟨bytes, rfl⟩
      · exact .inl rfl
      · exact .inl (setting_recover (.takeResponse k c.countTick bytes))

theorem construct_setting {mmioDepth : UInt32} {stackTop : UInt64}
    (h : construct k mmioDepth stackTop = .ok c) :
    c.setting = setting {} := by
  obtain ⟨u, -, h⟩ := Except.bind_eq_ok_iff.mp h
  obtain ⟨mmio, -, h⟩ := Except.bind_eq_ok_iff.mp h
  obtain rfl := Except.ok.inj h
  rfl

/-- What holds of the first setting and of what configuration instructions set holds at all
times. -/
theorem Reachable.setting_induction {P : VectorSetting → Prop} (hstart : P (setting {}))
    (hset : ∀ (c : Rv64AtomicCore) (requested avl : UInt64), P c.setting →
      P (c.configureVector requested avl).setting) (h : Reachable k c) : P c.setting := by
  induction h with
  | construct h =>
    rw [construct_setting h]
    exact hstart
  | turn h hturn ih =>
    rcases hturn.configures with hkept | ⟨requested, avl, hconfigured⟩
    · exact hkept ▸ ih
    · exact hconfigured ▸ hset _ requested avl ih

/-! ## Configuration instructions -/

theorem configureVector_ok (h : c.setting.Ok) (requested avl : UInt64) :
    (c.configureVector requested avl).setting.Ok := by
  rw [configureVector]
  dsimp only
  split_ifs with hrefused
  · exact { illegal := fun _ ↦ rfl, integral := h.integral, vl_le := Nat.zero_le _ }
  · rw [not_or, not_or, not_not] at hrefused
    refine { illegal := fun hillegal ↦ absurd ?_ hillegal, integral := ?_, vl_le := ?_ }
    · -- the accepted types have 8 bits, and the illegal one has the highest
      change requested &&& 0xff &&& vectorIllegal = 0
      rw [UInt64.and_assoc]
      exact UInt64.and_zero
    · change lmulOf _ = _ ∨ lmulOf _ = _ ∨ lmulOf _ = _ ∨ lmulOf _ = _
      rw [lmulOf]
      split_ifs <;> simp
    · set most := getMaxVectorLength (sewOf ((requested >>> 3) &&& 7)) (lmulOf (requested &&& 7))
      change (if avl ≤ UInt64.ofNat most then avl else UInt64.ofNat most).toUInt32.toNat ≤ most
      have hmost : (UInt64.ofNat most).toNat ≤ most := by
        rw [UInt64.toNat_ofNat']
        exact Nat.mod_le _ _
      rw [UInt64.toNat_toUInt32]
      refine (Nat.mod_le _ _).trans ?_
      split_ifs with hle
      · exact (UInt64.le_iff_toNat_le.mp hle).trans hmost
      · exact hmost

theorem Reachable.setting_ok (h : Reachable k c) : c.setting.Ok :=
  h.setting_induction { illegal := fun _ ↦ rfl, integral := .inl rfl, vl_le := Nat.zero_le _ }
    fun _ requested avl hok ↦ configureVector_ok hok requested avl

theorem configureVector_encoded (c : Rv64AtomicCore) (requested avl : UInt64) :
    (c.configureVector requested avl).setting.Encoded := by
  rw [configureVector]
  dsimp only
  split_ifs with hrefused
  · exact .inl ⟨rfl, rfl⟩
  · rw [not_or, not_or, not_not] at hrefused
    obtain ⟨hhigh, hlmul, hsew⟩ := hrefused
    have hvlmul : requested &&& 0xff &&& 7 = requested &&& 7 := UInt64.and_assoc ..
    have hvsew : ((requested &&& 0xff) >>> (3 : UInt64)) &&& 7 =
        (requested >>> (3 : UInt64)) &&& 7 := by
      rw [UInt64.shiftRight_and, UInt64.and_assoc]
      rfl
    refine .inr ⟨?_, ?_, ?_, ?_, ?_⟩
    · change requested &&& (0xff : UInt64) &&& ~~~(0xff : UInt64) = 0
      rw [UInt64.and_assoc]
      exact UInt64.and_zero
    · exact hvlmul.trans_le (UInt64.not_lt.mp hlmul)
    · exact congrArg lmulOf hvlmul
    · exact hvsew.trans_le (UInt64.not_lt.mp hsew)
    · exact congrArg sewOf hvsew

theorem Reachable.setting_encoded (h : Reachable k c) : c.setting.Encoded :=
  h.setting_induction (.inl ⟨rfl, rfl⟩) fun c requested avl _ ↦
  configureVector_encoded c requested avl

/-- The elements of an access fill no more than its register group. -/
theorem VectorSetting.Ok.bytes_le (h : c.setting.Ok) :
    ∃ count, c.vectorGroupRegisters = .ok count ∧
      c.vectorContext.vl.toNat * c.vectorContext.sew.bytes ≤ count * 32 := by
  have hle : c.vectorContext.vl.toNat ≤
      getMaxVectorLength c.vectorContext.sew c.vectorContext.lmul := h.vl_le
  have hintegral : c.vectorContext.lmul = .m1 ∨ c.vectorContext.lmul = .m2 ∨
      c.vectorContext.lmul = .m4 ∨ c.vectorContext.lmul = .m8 := h.integral
  rw [vectorGroupRegisters]
  rcases hintegral with hlmul | hlmul | hlmul | hlmul <;> rw [hlmul] at hle ⊢
  all_goals
    refine ⟨_, rfl, ?_⟩
    cases hsew : c.vectorContext.sew <;> rw [hsew] at hle <;>
      simp only [getMaxVectorLength, RVVSEW.bytes, rvvVlen] at hle ⊢ <;> omega

end Manycore.Rv64AtomicCore
