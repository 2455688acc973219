import SimbusNoc.Manycore.DecodeVectors
import SimbusNoc.Manycore.HartStates

/-!
# The results of the vector instructions

What a vector integer instruction does to the registers of a core: the vector file as bytes, in
which the elements of a group are numbers of the selected width.

## Sizes

The executor checks the lengths of its operands. In a reachable core the vector setting leaves room
for them, so for aligned groups the checks pass and `execOpv` comes to its cases. The sizes are
found once, for a source and a destination operand.

## Element by element

`ActsElementwise` is the statement: an active element below the vector length is the operation of
the instruction on the old elements, and all other bytes of the vector file and the scalar
registers are as before. It is put together from the executor's rewriting of words and from what
gathering and scattering a group does. The mask is register 0 as it was before the instruction.

## The move to a scalar register

`vmv.x.s` writes the low bits of its destination only and leaves the bits above them, where the
instruction set has it extend the sign. `HasSign` says when that comes to the same.
-/

namespace Rv64archsem

open Simbus Manycore

variable {inst : DecodedInst} {vctx : VecContext} {vd vd' vrs1 vrs2 : List UInt64} {fcsr : UInt64}
  {allTrueExpdMask : ℕ → Bool} {other : OtherCases}

/-- Where the operands are large enough the executor comes to the cases. -/
theorem execOpv_eq_ok
    (hviews : inst.vrdView = .none ∧ inst.vrs1View = .none ∧ inst.vrs2View = .none)
    (hvd : requestRegBytes vctx inst.rdType .none ≤ vd.length * 8)
    (hvrs1 : requestRegBytes vctx inst.rs1Type .none ≤ vrs1.length * 8)
    (hvrs2 : requestRegBytes vctx inst.rs2Type .none ≤ vrs2.length * 8)
    (hvmask : requestRegBytes vctx .vreg .mask ≤ vctx.vmask.length * 8)
    (hcase : execOpvCase vctx.sew.bytes inst vctx.vl.toNat vctx.vstart.toNat vd vrs1 vrs2
      (maskOf allTrueExpdMask inst vctx) = some vd') :
    execOpv allTrueExpdMask other inst vctx vd vrs1 vrs2 fcsr = .ok ⟨vd', false, fcsr⟩ := by
  have hplain : [VRegView.none, .none, .none].any (invalidViews vctx.sew).contains = false := by
    cases vctx.sew <;> rfl
  rw [execOpv, hviews.1, hviews.2.1, hviews.2.2, if_neg (Nat.not_lt.mpr hvd),
    if_neg (Nat.not_lt.mpr hvrs1), if_neg (Nat.not_lt.mpr hvrs2),
    if_neg (by simp [Nat.not_lt.mpr hvmask]), if_neg (by rw [hplain]; exact Bool.false_ne_true)]
  dsimp only
  rw [hcase]

end Rv64archsem

namespace Manycore.Rv64AtomicCore

open Simbus Rv64archsem Throwing

variable {k : Rv64Hart} {c c' : Rv64AtomicCore} {inst : DecodedInst} {instWord : UInt32}
  {decodeRvc : UInt32 → Option DecodedInst} {allTrueExpdMask : ℕ → Bool} {other : OtherCases}

/-! ## Sizes of operands -/

theorem requestRegBytes_le {count : ℕ} (hok : c.setting.Ok)
    (hcount : c.vectorGroupRegisters = .ok count) :
    requestRegBytes c.vectorContext .vreg .none ≤ count * 4 * 8 := by
  obtain ⟨count', hcount', hle⟩ := hok.bytes_le
  obtain rfl := Except.ok.inj (hcount'.symm.trans hcount)
  refine (Nat.mod_le _ _).trans ?_
  rw [Nat.mul_comm, Nat.mul_assoc]
  exact hle

theorem vl_le (hok : c.setting.Ok) : c.vectorContext.vl.toNat ≤ 256 := by
  obtain ⟨count, hcount, hle⟩ := hok.bytes_le
  have hcount := vectorGroupRegisters_le hcount
  have hbytes : 1 ≤ c.vectorContext.sew.bytes := by cases c.vectorContext.sew <;> decide
  have hvl := Nat.le_mul_of_pos_right c.vectorContext.vl.toNat hbytes
  omega

theorem length_vectorOperand {type : RegType} {index : Fin 32} {words : List UInt64}
    (hok : c.setting.Ok) (h : c.vectorOperand type index = .ok words) :
    requestRegBytes c.vectorContext type .none ≤ words.length * 8 := by
  cases type with
  | none => exact Nat.zero_le _
  | gpreg =>
    obtain rfl := Except.ok.inj h
    exact Nat.le.refl
  | freg => cases h
  | vreg =>
    obtain ⟨count, hcount, -⟩ := hok.bytes_le
    rw [length_readVectorGroup hcount h]
    exact requestRegBytes_le hok hcount

theorem length_vectorDestination {words : List UInt64} (hok : c.setting.Ok)
    (h : c.vectorDestination inst = .ok words) :
    requestRegBytes c.vectorContext inst.rdType .none ≤ words.length * 8 := by
  rw [vectorDestination] at h
  by_cases hgpreg : inst.rdType = .gpreg
  · rw [if_pos hgpreg] at h
    obtain rfl := Except.ok.inj h
    rw [hgpreg]
    exact Nat.le.refl
  rw [if_neg hgpreg] at h
  by_cases hvreg : inst.rdType = .vreg
  · rw [if_pos hvreg] at h
    rw [hvreg]
    exact length_vectorOperand  hok h
  · rw [if_neg hvreg] at h
    cases h

/-- The register of the mask has a bit for each element. -/
theorem length_vmask (hok : c.setting.Ok) :
    requestRegBytes c.loadMask.vectorContext .vreg .mask ≤
      c.loadMask.vectorContext.vmask.length * 8 := by
  have hvl := vl_le hok
  have hlength : c.loadMask.vectorContext.vmask.length = 32 :=
    (length_wordBytes _).trans (congrArg (8 * ·) (c.length_vectorWords 0))
  have hrequest : requestRegBytes c.loadMask.vectorContext .vreg .mask =
      (c.vectorContext.vl.toNat + 7) % 2 ^ 32 / 8 := rfl
  rw [hlength, hrequest]
  omega

/-! ## Groups that can be accessed

Reading and writing a register group throws unless the group is aligned and lies within the
registers.
-/

theorem count_cases {count : ℕ} (hcount : c.vectorGroupRegisters = .ok count) :
    count = 1 ∨ count = 2 ∨ count = 4 ∨ count = 8 := by
  rw [vectorGroupRegisters] at hcount
  split at hcount
  · exact .inl (Except.ok.inj hcount).symm
  · exact .inr (.inl (Except.ok.inj hcount).symm)
  · exact .inr (.inr (.inl (Except.ok.inj hcount).symm))
  · exact .inr (.inr (.inr (Except.ok.inj hcount).symm))
  · cases hcount

theorem group_le {count : ℕ} {base : Fin 32} (hcount : c.vectorGroupRegisters = .ok count)
    (haligned : base.val % count = 0) : base.val + count ≤ 32 := by
  have hbase := base.isLt
  rcases count_cases hcount with rfl | rfl | rfl | rfl <;> omega

theorem exists_readVectorGroup {count : ℕ} {base : Fin 32}
    (hcount : c.vectorGroupRegisters = .ok count) (haligned : base.val % count = 0) :
    ∃ words, c.readVectorGroup base = .ok words := by
  have hle := group_le hcount haligned
  refine ⟨_, Except.bind_eq_ok_iff.mpr ⟨count, hcount, Except.bind_eq_ok_iff.mpr ⟨(), ?_, rfl⟩⟩⟩
  rw [require_eq_ok_iff]
  simp [haligned, Nat.not_lt.mpr hle]

theorem exists_writeVectorGroup {count : ℕ} {base : Fin 32} {words : List UInt64}
    (hcount : c.vectorGroupRegisters = .ok count) (haligned : base.val % count = 0)
    (hwords : words.length = count * 4) : ∃ c', c.writeVectorGroup base words = .ok c' := by
  have hle := group_le hcount haligned
  refine ⟨_, Except.bind_eq_ok_iff.mpr ⟨count, hcount, Except.bind_eq_ok_iff.mpr ⟨(), ?_, rfl⟩⟩⟩
  rw [require_eq_ok_iff]
  simp [haligned, Nat.not_lt.mpr hle, hwords]

theorem exists_vectorOperand {count : ℕ} {type : RegType} {index : Fin 32}
    (hcount : c.vectorGroupRegisters = .ok count) (htype : type ≠ .freg)
    (haligned : type = .vreg → index.val % count = 0) :
    ∃ words, c.vectorOperand type index = .ok words := by
  cases type with
  | none => exact ⟨_, rfl⟩
  | gpreg => exact ⟨_, rfl⟩
  | freg => exact absurd rfl htype
  | vreg => exact exists_readVectorGroup hcount (haligned rfl)

/-! ## Element by element

The operands are gathered into words, the executor rewrites the words of the destination, and these
are scattered. The three statements are put together by bytes.
-/

/-- The instruction is unmasked, or register 0 has the bit of element `i`. -/
def IsActive (c : Rv64AtomicCore) (inst : DecodedInst) (i : ℕ) : Prop :=
  inst.funct7 &&& 1 ≠ 0 ∨ (c.vectorByte (i / 8)).toNat.testBit (i % 8) = true

/-- The elements that an instruction writes. `vmv.s.x` has only the first one. -/
def Writes (c : Rv64AtomicCore) (inst : DecodedInst) (i : ℕ) : Prop :=
  (c.vectorContext.vstart.toNat ≤ i ∧ i < c.vectorContext.vl.toNat ∧ c.IsActive inst i) ∧
    (inst.instName = .vmvSX → i = 0)

/-- The operand beside `vs2` for element `i`. -/
def otherOperand (c : Rv64AtomicCore) (w : ℕ) (inst : DecodedInst) (i : ℕ) : BitVec (8 * w) :=
  match inst.instName.operandForm with
  | .vv => c.vectorElement w inst.rs1 i
  | .vx => BitVec.ofNat (8 * w) (c.x inst.rs1).toNat
  | .vi => (BitVec.ofNat 5 inst.rs1.val).signExtend (8 * w)

/-- The operands that are register groups begin at a multiple of the group's size. -/
def Aligned (c : Rv64AtomicCore) (inst : DecodedInst) : Prop :=
  ∀ count, c.vectorGroupRegisters = .ok count →
    (inst.rdType = .vreg → inst.rd.val % count = 0) ∧
    (inst.rs1Type = .vreg → inst.rs1.val % count = 0) ∧
    (inst.rs2Type = .vreg → inst.rs2.val % count = 0)

/-- The instruction has been executed element by element, and has changed nothing else. -/
structure ActsElementwise (c : Rv64AtomicCore) (inst : DecodedInst) (c' : Rv64AtomicCore) :
    Prop where
  state : c'.state = .fetchDecode
  result : ∀ i, c.Writes inst i → c'.vectorElement c.vectorContext.sew.bytes inst.rd i =
    inst.instName.operation (c.vectorElement c.vectorContext.sew.bytes inst.rs2 i)
      (c.otherOperand c.vectorContext.sew.bytes inst i)
  others : ∀ a < 1024, (∀ i, c.Writes inst i →
      ¬ (32 * inst.rd.val + i * c.vectorContext.sew.bytes ≤ a ∧
        a < 32 * inst.rd.val + i * c.vectorContext.sew.bytes + c.vectorContext.sew.bytes)) →
    c'.vectorByte a = c.vectorByte a
  x : ∀ r, r ≠ 0 → c'.x r = c.x r
  zero : c'.x 0 = 0
  vstart : c'.vectorContext.vstart = 0
  pc : c'.pc = c.pc + 4

/-- The mask of the executor selects the active elements. -/
theorem maskOf_eq_true_iff (htrue : ∀ i < 256, allTrueExpdMask i = true) {i : ℕ} (hi : i < 256) :
    maskOf allTrueExpdMask inst c.loadMask.vectorContext i = true ↔ c.IsActive inst i := by
  have hempty : c.loadMask.vectorContext.vmask.isEmpty = false := by
    have hlength : c.loadMask.vectorContext.vmask.length = 32 :=
      (length_wordBytes _).trans (congrArg (8 * ·) (c.length_vectorWords 0))
    rw [List.isEmpty_eq_false_iff_exists_mem]
    exact List.exists_mem_of_length_pos (by omega)
  rw [maskOf, hempty, IsActive]
  by_cases hvm : inst.funct7 &&& 1 = 0
  · have hbyte : i / 8 / 32 = 0 ∧ i / 8 % 32 = i / 8 := by omega
    rw [vectorByte, hbyte.1, hbyte.2]
    simp [hvm, expandMask, loadMask]
  · simp [hvm, htrue i hi]

theorem operation_of_isMove {n : ℕ} {name : InstName} (h : name.isMove = true) (a b : BitVec n) :
    name.operation a b = b := by
  cases name
  case vmvVV | vmvVI | vmvXS | vmvSX => rfl
  all_goals cases h

theorem isMove_of_rs2Type {name : InstName} (h : name.rs2Type = .none) : name.isMove = true := by
  rw [InstName.rs2Type] at h
  split at h
  · next hname => rcases hname with rfl | rfl | rfl <;> rfl
  · cases h

theorem ofNat_signExtend (sew : RVVSEW) (r : Fin 32) :
    BitVec.ofNat (8 * sew.bytes) (Rv64archsem.signExtend 4 (UInt64.ofNat r)).toUInt64.toNat =
      (BitVec.ofNat 5 r.val).signExtend (8 * sew.bytes) := by
  cases sew <;> revert r <;> decide

/-- The executor's operand beside `vs2` is the one in the registers. -/
theorem execOperand_eq {count : ℕ} {source1 : List UInt64} {i : ℕ} (hinst : IsVectorInteger inst)
    (hvector : inst.instName ≠ .vmvXS) (hcount : c.vectorGroupRegisters = .ok count)
    (hsource1 : c.vectorOperand inst.rs1Type inst.rs1 = .ok source1)
    (hi : i * c.vectorContext.sew.bytes + c.vectorContext.sew.bytes ≤ 32 * count) :
    execOperand c.vectorContext.sew.bytes inst source1 i =
      c.otherOperand c.vectorContext.sew.bytes inst i := by
  have htype := hinst.rs1Type
  rw [InstName.rs1Type] at htype
  rw [execOperand, otherOperand]
  cases hform : inst.instName.operandForm with
  | vv =>
    rw [hform] at htype
    rw [htype.trans (if_neg hvector)] at hsource1
    exact (readVectorGroup_holds hcount hsource1).element hi
  | vx =>
    rw [hform] at htype
    rw [htype] at hsource1
    obtain rfl := Except.ok.inj hsource1
    rfl
  | vi =>
    dsimp only
    rw [hinst.imm hform]
    exact ofNat_signExtend _ _

/-- A move has no operand `vs2`, and otherwise the elements are those in the registers. -/
theorem operation_eq {count : ℕ} {source2 : List UInt64} {i : ℕ}
    {b : BitVec (8 * c.vectorContext.sew.bytes)} (hinst : IsVectorInteger inst)
    (hcount : c.vectorGroupRegisters = .ok count)
    (hsource2 : c.vectorOperand inst.rs2Type inst.rs2 = .ok source2)
    (hi : i * c.vectorContext.sew.bytes + c.vectorContext.sew.bytes ≤ 32 * count) :
    inst.instName.operation (element c.vectorContext.sew.bytes source2 i) b =
      inst.instName.operation (c.vectorElement c.vectorContext.sew.bytes inst.rs2 i) b := by
  have htype := hinst.rs2Type
  by_cases hmove : inst.instName.isMove = true
  · rw [operation_of_isMove hmove, operation_of_isMove hmove]
  · have hvreg : inst.rs2Type = .vreg := by
      rw [htype, InstName.rs2Type, if_neg]
      intro hname
      exact hmove (isMove_of_rs2Type (if_pos hname))
    rw [hvreg] at hsource2
    rw [(readVectorGroup_holds hcount hsource2).element hi]

/-- The core before it writes the result of an integer instruction. -/
def vectorDone (c : Rv64AtomicCore) : Rv64AtomicCore :=
  { c.loadMask with vectorContext := { c.loadMask.vectorContext with vstart := 0 } }

theorem execOpv_loadMask {source1 source2 destination vd : List UInt64}
    (hexec : k.arch.execOpv = execOpv allTrueExpdMask other) (hok : c.setting.Ok)
    (hviews : inst.vrdView = .none ∧ inst.vrs1View = .none ∧ inst.vrs2View = .none)
    (hsource1 : c.vectorOperand inst.rs1Type inst.rs1 = .ok source1)
    (hsource2 : c.vectorOperand inst.rs2Type inst.rs2 = .ok source2)
    (hdestination : c.vectorDestination inst = .ok destination)
    (hcase : execOpvCase c.vectorContext.sew.bytes inst c.vectorContext.vl.toNat
      c.vectorContext.vstart.toNat destination source1 source2
      (maskOf allTrueExpdMask inst c.loadMask.vectorContext) = some vd) :
    k.arch.execOpv inst c.loadMask.vectorContext destination source1 source2 c.fcsr =
      .ok ⟨vd, false, c.fcsr⟩ := by
  rw [hexec]
  have hok' : c.loadMask.setting.Ok := hok
  have hsource1' : c.loadMask.vectorOperand inst.rs1Type inst.rs1 = .ok source1 := hsource1
  have hsource2' : c.loadMask.vectorOperand inst.rs2Type inst.rs2 = .ok source2 := hsource2
  have hdestination' : c.loadMask.vectorDestination inst = .ok destination := hdestination
  exact execOpv_eq_ok hviews (length_vectorDestination hok' hdestination')
    (length_vectorOperand hok' hsource1') (length_vectorOperand hok' hsource2') (length_vmask hok)
    hcase

theorem executeVectorAlu_eq_ok {source1 source2 destination vd : List UInt64} {c₂ : Rv64AtomicCore}
    (hinstruction : c.instruction.decoded = inst) (hlegal : c.vtype &&& vectorIllegal = 0)
    (hname : isSupportedVectorIntegerInstruction inst.instName = true)
    (hsource1 : c.vectorOperand inst.rs1Type inst.rs1 = .ok source1)
    (hsource2 : c.vectorOperand inst.rs2Type inst.rs2 = .ok source2)
    (hdestination : c.vectorDestination inst = .ok destination)
    (hexec : k.arch.execOpv inst c.loadMask.vectorContext destination source1 source2 c.fcsr =
      .ok ⟨vd, false, c.fcsr⟩)
    (hwrite : writeVectorResult c.vectorDone inst vd = .ok c₂) :
    executeVectorAlu k c = .ok { c₂ with stats := { c₂.stats with
      vectorAluInstructions := c₂.stats.vectorAluInstructions + 1 } }.commit := by
  have hsource1' : c.loadMask.vectorOperand inst.rs1Type inst.rs1 = .ok source1 := hsource1
  have hsource2' : c.loadMask.vectorOperand inst.rs2Type inst.rs2 = .ok source2 := hsource2
  have hdestination' : c.loadMask.vectorDestination inst = .ok destination := hdestination
  rw [executeVectorAlu, hinstruction]
  dsimp only
  rw [hlegal, hname, hsource1', hsource2', hdestination']
  dsimp only [onThrow, require, bind, Except.bind]
  have hfcsr : c.loadMask.fcsr = c.fcsr := rfl
  rw [hfcsr, hexec]
  change (writeVectorResult c.vectorDone inst vd).bind _ = _
  rw [hwrite]
  rfl

/-- The result of an instruction changes only the registers. -/
theorem writeVectorGroup_keeps {base : Fin 32} {words : List UInt64}
    (h : c.writeVectorGroup base words = .ok c') :
    ∃ registers, c' = { c with vectorRegisters := registers } := by
  obtain ⟨count, -, h⟩ := Except.bind_eq_ok_iff.mp h
  obtain ⟨_, -, h⟩ := Except.bind_eq_ok_iff.mp h
  exact ⟨_, (Except.ok.inj h).symm⟩

theorem rdType_of_ne {name : InstName} (h : name ≠ .vmvXS) : name.rdType = .vreg := if_neg h

theorem types_ne_freg (name : InstName) : name.rs1Type ≠ .freg ∧ name.rs2Type ≠ .freg := by
  rw [InstName.rs1Type, InstName.rs2Type]
  constructor
  · split
    · split <;> decide
    · decide
    · decide
  · split <;> decide

/-- An instruction with a vector destination and aligned operands acts element by element. -/
theorem executeVectorAlu_elementwise (hok : c.setting.Ok) (hpending : Fetched c inst instWord)
    (hinst : IsVectorInteger inst)
    (hname : isSupportedVectorIntegerInstruction inst.instName = true)
    (hvector : inst.instName ≠ .vmvXS) (hexec : k.arch.execOpv = execOpv allTrueExpdMask other)
    (htrue : ∀ i < 256, allTrueExpdMask i = true) (hlegal : c.vtype &&& vectorIllegal = 0)
    (haligned : c.Aligned inst) :
    ∃ c', executeVectorAlu k c = .ok c' ∧ ActsElementwise c inst c' := by
  obtain ⟨count, hcount, hbytes⟩ := hok.bytes_le
  obtain ⟨hrd, hrs1, hrs2⟩ := haligned count hcount
  have hrdType : inst.rdType = .vreg := hinst.rdType.trans (rdType_of_ne hvector)
  set w := c.vectorContext.sew.bytes with hw
  -- the operands
  obtain ⟨source1, hsource1⟩ :=
    exists_vectorOperand hcount (hinst.rs1Type ▸ (types_ne_freg _).1) hrs1
  obtain ⟨source2, hsource2⟩ :=
    exists_vectorOperand hcount (hinst.rs2Type ▸ (types_ne_freg _).2) hrs2
  obtain ⟨words, hwords⟩ := exists_readVectorGroup hcount (hrd hrdType)
  have hdestination : c.vectorDestination inst = .ok words := by
    rw [vectorDestination, if_neg (by rw [hrdType]; decide), if_pos hrdType, hwords]
  have hlength := length_readVectorGroup hcount hwords
  have hfits : c.vectorContext.vl.toNat * w ≤ words.length * 8 := by
    rw [hlength]
    omega
  -- the executor
  have hmask : inst.instName.isMove = true → ∀ i < c.vectorContext.vl.toNat,
      maskOf allTrueExpdMask inst c.loadMask.vectorContext i = true := fun hmove i hi ↦
    (maskOf_eq_true_iff htrue (hi.trans_le (vl_le hok))).mpr (.inl (hinst.unmasked hmove))
  obtain ⟨vd, hcase, hrewrites⟩ := execOpvCase_rewrites c.vectorContext.vstart.toNat source1 source2
    hname hvector hfits hmask
  have hresult := execOpv_loadMask hexec hok hinst.views hsource1 hsource2 hdestination hcase
  -- the result
  have hcount' : c.vectorDone.vectorGroupRegisters = .ok count := hcount
  obtain ⟨c₂, hwrite⟩ := exists_writeVectorGroup hcount' (hrd hrdType)
    (hrewrites.length.trans hlength)
  have hwritten : writeVectorResult c.vectorDone inst vd = .ok c₂ := by
    refine (if_neg (by rw [hrdType]; decide)).trans ?_
    rw [hwrite]
    rfl
  refine ⟨_, executeVectorAlu_eq_ok (congrArg PendingInstruction.decoded hpending.instruction_eq)
    hlegal hname hsource1 hsource2 hdestination hresult hwritten, ?_⟩
  obtain ⟨hholds, hothers⟩ := writeVectorGroup_holds hcount' hwrite
  obtain ⟨registers, rfl⟩ := writeVectorGroup_keeps hwrite
  have hin : ∀ i, c.Writes inst i → i * w + w ≤ 32 * count := fun i hi ↦ by
    have hle : (i + 1) * w ≤ c.vectorContext.vl.toNat * w := Nat.mul_le_mul_right w hi.1.2.1
    rw [Nat.succ_mul] at hle
    omega
  have hwrites : ∀ i, ((c.vectorContext.vstart.toNat ≤ i ∧ i < c.vectorContext.vl.toNat ∧
      maskOf allTrueExpdMask inst c.loadMask.vectorContext i = true) ∧
        (inst.instName = .vmvSX → i = 0)) ↔ c.Writes inst i := by
    intro i
    rw [Writes]
    refine and_congr_left' (and_congr_right' (and_congr_right fun hi ↦ ?_))
    exact maskOf_eq_true_iff htrue (hi.trans_le (vl_le hok))
  obtain ⟨hresult, hframe⟩ := (readVectorGroup_holds hcount hwords).rewritten hholds hothers
    (hrewrites.congr hwrites fun _ ↦ rfl) hin
  refine ⟨rfl, fun i hi ↦ ?_, hframe, fun r hr ↦ Function.update_of_ne hr .., rfl, rfl, ?_⟩
  · refine (hresult i hi).trans ?_
    rw [execOperand_eq hinst hvector hcount hsource1 (hin i hi)]
    exact operation_eq hinst hcount hsource2 (hin i hi)
  · exact congrArg PendingInstruction.nextPc hpending.instruction_eq

/-! ## The move to a scalar register -/

/-- The scalar register has the first element with its sign, and no other register has changed. -/
structure MovesScalar (c : Rv64AtomicCore) (inst : DecodedInst) (c' : Rv64AtomicCore) : Prop where
  state : c'.state = .fetchDecode
  rd : inst.rd ≠ 0 → (c'.x inst.rd).toBitVec =
    (c.vectorElement c.vectorContext.sew.bytes inst.rs2 0).signExtend 64
  others : ∀ r, r ≠ 0 → r ≠ inst.rd → c'.x r = c.x r
  zero : c'.x 0 = 0
  vector : ∀ a < 1024, c'.vectorByte a = c.vectorByte a

/-- Above the element's width the scalar register has copies of the element's sign already. -/
def HasSign (c : Rv64AtomicCore) (inst : DecodedInst) : Prop :=
  inst.rd ≠ 0 → ∀ b, 8 * c.vectorContext.sew.bytes ≤ b → b < 64 →
    (c.x inst.rd).toBitVec.getLsbD b =
      (c.vectorElement c.vectorContext.sew.bytes inst.rs2 0).msb

/-- A word whose low bits are those of an element extends its sign when the other bits are copies
of it. -/
theorem toBitVec_eq_signExtend_iff {w : ℕ} {old word : UInt64} {e : BitVec (8 * w)}
    (hword : word.toNat = 2 ^ (8 * w) * (old.toNat / 2 ^ (8 * w)) + e.toNat) :
    word.toBitVec = e.signExtend 64 ↔
      ∀ b, 8 * w ≤ b → b < 64 → old.toBitVec.getLsbD b = e.msb := by
  have hlow : ∀ b < 8 * w, word.toBitVec.getLsbD b = e.getLsbD b := fun b hb ↦ by
    rw [BitVec.getLsbD, UInt64.toNat_toBitVec, hword, Nat.testBit_two_pow_mul_add _ e.isLt,
      if_pos hb, BitVec.getLsbD]
  have hhigh : ∀ b, 8 * w ≤ b → word.toBitVec.getLsbD b = old.toBitVec.getLsbD b := fun b hb ↦ by
    rw [BitVec.getLsbD, UInt64.toNat_toBitVec, hword, Nat.testBit_two_pow_mul_add _ e.isLt,
      if_neg (Nat.not_lt.mpr hb), Nat.testBit_div_two_pow, Nat.sub_add_cancel hb, BitVec.getLsbD,
      UInt64.toNat_toBitVec]
  constructor
  · intro h b hb hlt
    rw [← hhigh b hb, h, BitVec.getLsbD_signExtend, if_neg (Nat.not_lt.mpr hb), decide_eq_true hlt,
      Bool.true_and]
  · intro h
    refine BitVec.eq_of_getLsbD_eq fun b hlt ↦ ?_
    rw [BitVec.getLsbD_signExtend, decide_eq_true hlt, Bool.true_and]
    by_cases hb : b < 8 * w
    · rw [if_pos hb, hlow b hb]
    · rw [if_neg hb, hhigh b (Nat.not_lt.mp hb), h b (Nat.not_lt.mp hb) hlt]

/-- `vmv.x.s` writes the low bits of its register only. -/
theorem executeVectorAlu_scalar (hok : c.setting.Ok)
    (hpending : Fetched c inst instWord) (hinst : IsVectorInteger inst)
    (hname : inst.instName = .vmvXS) (hexec : k.arch.execOpv = execOpv allTrueExpdMask other)
    (hlegal : c.vtype &&& vectorIllegal = 0) (haligned : c.Aligned inst) :
    ∃ (word : UInt64) (stats : Rv64CoreStats),
      word.toNat = 2 ^ (8 * c.vectorContext.sew.bytes) *
          ((c.x inst.rd).toNat / 2 ^ (8 * c.vectorContext.sew.bytes)) +
        (c.vectorElement c.vectorContext.sew.bytes inst.rs2 0).toNat ∧
      executeVectorAlu k c =
        .ok { c.vectorDone.writeReg inst.rd word with stats := stats }.commit := by
  obtain ⟨count, hcount, -⟩ := hok.bytes_le
  obtain ⟨-, -, hrs2⟩ := haligned count hcount
  have hrdType : inst.rdType = .gpreg := by
    rw [hinst.rdType, hname]
    rfl
  have hrs1Type : inst.rs1Type = .none := by
    rw [hinst.rs1Type, hname]
    rfl
  have hrs2Type : inst.rs2Type = .vreg := by
    rw [hinst.rs2Type, hname]
    rfl
  obtain ⟨source2, hread⟩ := exists_readVectorGroup hcount (hrs2 hrs2Type)
  have hsource1 : c.vectorOperand inst.rs1Type inst.rs1 = .ok [0] := by
    rw [hrs1Type]
    rfl
  have hsource2 : c.vectorOperand inst.rs2Type inst.rs2 = .ok source2 := by
    rw [hrs2Type]
    exact hread
  have hdestination : c.vectorDestination inst = .ok [c.x inst.rd] := if_pos hrdType
  -- one register holds the first element
  have hwidth : ∃ n, c.vectorContext.sew.bytes + n = 8 := by
    cases c.vectorContext.sew
    · exact ⟨7, rfl⟩
    · exact ⟨6, rfl⟩
    · exact ⟨4, rfl⟩
    · exact ⟨0, rfl⟩
  have hfirst : element c.vectorContext.sew.bytes source2 0 =
      c.vectorElement c.vectorContext.sew.bytes inst.rs2 0 := by
    refine (readVectorGroup_holds hcount hread).element ?_
    rcases count_cases hcount with rfl | rfl | rfl | rfl <;> omega
  obtain ⟨n, hn⟩ := hwidth
  obtain ⟨word, hset, hword⟩ := setFirst_singleton hn (c.x inst.rd)
    (c.vectorElement c.vectorContext.sew.bytes inst.rs2 0)
  have hcase : execOpvCase c.vectorContext.sew.bytes inst c.vectorContext.vl.toNat
      c.vectorContext.vstart.toNat [c.x inst.rd] [0] source2
      (maskOf allTrueExpdMask inst c.loadMask.vectorContext) = some [word] := by
    rw [execOpvCase, hname]
    dsimp only
    rw [hfirst, hset]
  have hresult := execOpv_loadMask hexec hok hinst.views hsource1 hsource2 hdestination hcase
  have hwritten : writeVectorResult c.vectorDone inst [word] =
      .ok (c.vectorDone.writeReg inst.rd word) := if_pos hrdType
  refine ⟨word, _, hword, executeVectorAlu_eq_ok
    (congrArg PendingInstruction.decoded hpending.instruction_eq) hlegal (by rw [hname]; rfl)
    hsource1 hsource2 hdestination hresult hwritten⟩

theorem movesScalar_iff {word : UInt64} (stats : Rv64CoreStats)
    (hword : word.toNat = 2 ^ (8 * c.vectorContext.sew.bytes) *
        ((c.x inst.rd).toNat / 2 ^ (8 * c.vectorContext.sew.bytes)) +
      (c.vectorElement c.vectorContext.sew.bytes inst.rs2 0).toNat) :
    MovesScalar c inst { c.vectorDone.writeReg inst.rd word with stats := stats }.commit ↔
      HasSign c inst := by
  have hsign := toBitVec_eq_signExtend_iff hword
  rw [writeReg]
  by_cases hrd : inst.rd = 0
  · rw [if_pos hrd]
    refine ⟨fun _ h ↦ absurd hrd h, fun _ ↦ ⟨rfl, fun h ↦ absurd hrd h, fun r hr _ ↦ ?_, rfl,
      fun _ _ ↦ rfl⟩⟩
    exact Function.update_of_ne hr ..
  · rw [if_neg hrd]
    have hx : Function.update (Function.update c.x inst.rd word) 0 0 inst.rd = word := by
      rw [Function.update_of_ne hrd, Function.update_self]
    constructor
    · exact fun hmoves _ ↦ hsign.mp ((congrArg UInt64.toBitVec hx).symm.trans (hmoves.rd hrd))
    · intro hhas
      refine ⟨rfl, fun _ ↦ ?_, fun r hr hne ↦ ?_, rfl, fun _ _ ↦ rfl⟩
      · exact (congrArg UInt64.toBitVec hx).trans (hsign.mpr (hhas hrd))
      · exact (Function.update_of_ne hr ..).trans (Function.update_of_ne hne ..)

/-! ## The last cycle of an instruction -/

section LastCycle

variable {σ : Type} {bus : IBus σ} {port memoryPort : BusPortT} {s s' : σ} {p : PendingInstruction}

/-- In its last cycle an instruction that is not a fence is executed. -/
theorem advanceExecute_last (hleft : c.cyclesLeft = 1)
    (hfence : isFence c.instruction.decoded.controlType = false) :
    ∃ stats, advanceExecute k c.countTick =
      executeReadyInstruction k { c with stats := stats, cyclesLeft := 0 } := by
  have hfence' : isFence c.countTick.instruction.decoded.controlType = false := hfence
  have hpos : 0 < c.countTick.cyclesLeft := hleft.symm ▸ Nat.zero_lt_one
  have hzero : c.countTick.cyclesLeft - 1 = 0 := by
    rw [show c.countTick.cyclesLeft = 1 from hleft]
  refine ⟨{ c.countTick.stats with
    executeWaitCycles := c.countTick.stats.executeWaitCycles + 1 }, ?_⟩
  rw [advanceExecute, hfence', Bool.false_and, if_neg Bool.false_ne_true, countExecuteWait,
    if_pos hpos]
  dsimp only
  rw [hzero, if_pos rfl]
  rfl

theorem execute_opv (hcontrol : c.instruction.decoded.controlType = .none)
    (hop : c.instruction.decoded.opcode = .opv)
    (hname : isSupportedVectorIntegerInstruction c.instruction.decoded.instName = true) :
    execute k c = executeVectorAlu k c := by
  have hnot : ∀ name, isSupportedVectorIntegerInstruction name = true →
      isVectorConfigInstruction name = false := by
    intro name hname
    cases name <;> first | rfl | cases hname
  rw [execute, hcontrol]
  dsimp only
  rw [if_pos hop, hnot _ hname, if_neg Bool.false_ne_true]

/-- What is decoded as an integer instruction comes to the executor in its last cycle. -/
theorem tickCore_eq_executeVectorAlu (hreachable : Reachable k c)
    (harch : k.arch.decode = decode decodeRvc) (hstate : c.state = .executeWait)
    (hleft : c.cyclesLeft = 1) (hpending : c.pending = some p) (hop : p.decoded.opcode = .opv)
    (hname : isSupportedVectorIntegerInstruction p.decoded.instName = true)
    (h : c.tickCore bus k port memoryPort s = .ok (c', s')) :
    IsVectorInteger p.decoded ∧ ∃ stats instWord,
      Fetched { c with stats := stats, cyclesLeft := 0 } p.decoded instWord ∧
      c' = recover (executeVectorAlu k { c with stats := stats, cyclesLeft := 0 }) := by
  obtain ⟨inst, instWord, hfetched, hdecode, hlow⟩ := hreachable.decoded hstate
  obtain rfl := Option.some.inj (hpending.symm.trans hfetched)
  rw [harch] at hdecode
  have hinst : IsVectorInteger inst := isVectorInteger hlow hdecode hop hname
  have hinstruction := hfetched.instruction_eq
  have hcontrol : c.instruction.decoded.controlType = .none := by
    rw [hinstruction]
    exact hinst.controlType
  obtain ⟨stats, hlast⟩ := advanceExecute_last (k := k) hleft (by rw [hcontrol]; rfl)
  rw [tickCore_of_executeWait hstate, hlast, executeReadyInstruction] at h
  refine ⟨hinst, stats, instWord, hfetched, ?_⟩
  rw [← execute_opv]
  · exact (Prod.mk.inj (Except.ok.inj h)).1.symm
  · exact hcontrol
  · exact (congrArg (fun p ↦ p.decoded.opcode) hinstruction).trans hop
  · exact (congrArg (fun p ↦ isSupportedVectorIntegerInstruction p.decoded.instName)
      hinstruction).trans hname

/-- The whitelisted instructions with a vector destination act element by element. -/
theorem acts_elementwise (hreachable : Reachable k c) (harch : k.arch.decode = decode decodeRvc)
    (hexec : k.arch.execOpv = execOpv allTrueExpdMask other)
    (htrue : ∀ i < 256, allTrueExpdMask i = true) (hstate : c.state = .executeWait)
    (hleft : c.cyclesLeft = 1) (hpending : c.pending = some p) (hop : p.decoded.opcode = .opv)
    (hname : isSupportedVectorIntegerInstruction p.decoded.instName = true)
    (hvector : p.decoded.instName ≠ .vmvXS) (hlegal : c.vtype &&& vectorIllegal = 0)
    (haligned : c.Aligned p.decoded)
    (h : c.tickCore bus k port memoryPort s = .ok (c', s')) : ActsElementwise c p.decoded c' := by
  obtain ⟨hinst, stats, instWord, hfetched, rfl⟩ :=
    tickCore_eq_executeVectorAlu hreachable harch hstate hleft hpending hop hname h
  obtain ⟨c₁, hresult, hacts⟩ := executeVectorAlu_elementwise
    (c := { c with stats := stats, cyclesLeft := 0 }) hreachable.setting_ok hfetched hinst hname
    hvector hexec htrue hlegal haligned
  rw [hresult]
  exact { hacts with }

/-- `vmv.x.s` is right where the bits that it leaves alone happen to be. -/
theorem moves_scalar_iff (hreachable : Reachable k c) (harch : k.arch.decode = decode decodeRvc)
    (hexec : k.arch.execOpv = execOpv allTrueExpdMask other) (hstate : c.state = .executeWait)
    (hleft : c.cyclesLeft = 1) (hpending : c.pending = some p) (hop : p.decoded.opcode = .opv)
    (hname : p.decoded.instName = .vmvXS) (hlegal : c.vtype &&& vectorIllegal = 0)
    (haligned : c.Aligned p.decoded)
    (h : c.tickCore bus k port memoryPort s = .ok (c', s')) :
    MovesScalar c p.decoded c' ↔ HasSign c p.decoded := by
  obtain ⟨hinst, stats, instWord, hfetched, rfl⟩ := tickCore_eq_executeVectorAlu hreachable harch
    hstate hleft hpending hop (by rw [hname]; rfl) h
  obtain ⟨word, stats', hword, hresult⟩ := executeVectorAlu_scalar
    (c := { c with stats := stats, cyclesLeft := 0 }) hreachable.setting_ok hfetched hinst hname
    hexec hlegal haligned
  have hiff := movesScalar_iff stats' hword
  rw [hresult, recover]
  exact ⟨fun hmoves ↦ hiff.mp { hmoves with }, fun hsign ↦ { hiff.mpr hsign with }⟩

end LastCycle

/-! ## Two instructions -/

/-- The other instructions are illegal. -/
def noOther : OtherCases := fun _ _ _ _ _ _ _ _ ↦ none

/-- A hart that executes `vsetivli x5, 2, e8, m1` and another vector instruction in a cycle each. -/
def vectorHart (instWord : UInt32) : Rv64Hart :=
  { Rv64Hart.ofWords [0xc00172d7, instWord] with
    arch := { decodingArch with execOpv := execOpv (fun _ ↦ true) noOther }
    latency := { vectorIntegerAlu := 1 } }

/-- The hart after so many ticks. -/
def vectorCore (instWord : UInt32) (n : ℕ) : Rv64AtomicCore :=
  (tickSilent (vectorHart instWord))^[n] (initialCore (vectorHart instWord))

/-- The core before it executes the second instruction. -/
def vectorStart (instWord : UInt32) : Rv64AtomicCore :=
  ((vectorCore instWord 3).tickMmio silentBus (vectorHart instWord) 0 1 ()).1

theorem vectorStart_reachable (instWord : UInt32) :
    Reachable (vectorHart instWord) (vectorStart instWord) :=
  (reachable_tickSilent (reachable_initialCore Nat.one_ne_zero) 3).turn (.adapter silentBus 0 1 ())

theorem execOpv_vectorHart (instWord : UInt32) :
    (vectorHart instWord).arch.execOpv = execOpv (fun _ ↦ true) noOther := rfl

theorem decode_vectorHart (instWord : UInt32) :
    (vectorHart instWord).arch.decode = decode fun _ ↦ none := rfl

/-- Every register is a group of its own. -/
theorem aligned_of_m1 (h : c.vectorContext.lmul = .m1) (inst : DecodedInst) : c.Aligned inst := by
  intro count hcount
  rw [vectorGroupRegisters, h] at hcount
  obtain rfl := Except.ok.inj hcount
  exact ⟨fun _ ↦ Nat.mod_one _, fun _ ↦ Nat.mod_one _, fun _ ↦ Nat.mod_one _⟩

/-- `vadd.vv v1, v2, v3` -/
theorem acts_elementwise_vadd :
    ActsElementwise (vectorStart 0x022180d7) (vectorStart 0x022180d7).instruction.decoded
      (vectorCore 0x022180d7 4) := by
  have htick : (vectorStart 0x022180d7).tickCore silentBus (vectorHart 0x022180d7) 0 1 () =
      .ok (vectorCore 0x022180d7 4, ()) := rfl
  exact acts_elementwise (p := (vectorStart 0x022180d7).instruction) (vectorStart_reachable _)
    (decode_vectorHart _) (execOpv_vectorHart _) (fun _ _ ↦ rfl) rfl rfl rfl rfl rfl (by decide) rfl
    (aligned_of_m1 rfl _) htick

/-- `vmv.x.s x2, v1` -/
theorem moves_scalar_stack :
    MovesScalar (vectorStart 0x42102157) (vectorStart 0x42102157).instruction.decoded
        (vectorCore 0x42102157 4) ↔
      HasSign (vectorStart 0x42102157) (vectorStart 0x42102157).instruction.decoded := by
  have htick : (vectorStart 0x42102157).tickCore silentBus (vectorHart 0x42102157) 0 1 () =
      .ok (vectorCore 0x42102157 4, ()) := rfl
  exact moves_scalar_iff (p := (vectorStart 0x42102157).instruction) (vectorStart_reachable _)
    (decode_vectorHart _) (execOpv_vectorHart _) rfl rfl rfl rfl rfl rfl (aligned_of_m1 rfl _) htick

/-- The stack pointer keeps its high bits, though the element is 0. -/
theorem not_moves_scalar : ¬ ∀ (k : Rv64Hart) (c c' : Rv64AtomicCore) (p : PendingInstruction)
    (decodeRvc : UInt32 → Option DecodedInst) (allTrueExpdMask : ℕ → Bool) (other : OtherCases)
    (σ : Type) (bus : IBus σ) (port memoryPort : BusPortT) (s s' : σ), Reachable k c →
    k.arch.decode = decode decodeRvc → k.arch.execOpv = execOpv allTrueExpdMask other →
    c.state = .executeWait → c.cyclesLeft = 1 → c.pending = some p → p.decoded.opcode = .opv →
    p.decoded.instName = .vmvXS → c.vtype &&& vectorIllegal = 0 → c.Aligned p.decoded →
    c.tickCore bus k port memoryPort s = .ok (c', s') → MovesScalar c p.decoded c' := by
  intro h
  have htick : (vectorStart 0x42102157).tickCore silentBus (vectorHart 0x42102157) 0 1 () =
      .ok (vectorCore 0x42102157 4, ()) := rfl
  have hlegal : (vectorStart 0x42102157).vtype &&& vectorIllegal = 0 := rfl
  have hmoves := h (vectorHart 0x42102157) (vectorStart 0x42102157) (vectorCore 0x42102157 4)
    (vectorStart 0x42102157).instruction _ _ _ _ _ _ _ _ _ (vectorStart_reachable _)
    (decode_vectorHart _) (execOpv_vectorHart _) rfl rfl rfl rfl rfl hlegal (aligned_of_m1 rfl _)
    htick
  exact absurd (hmoves.rd (by decide)) (by decide)

end Manycore.Rv64AtomicCore
