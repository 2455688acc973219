import SimbusNoc.Manycore.BaseInstructions
import SimbusNoc.Manycore.DecodeFacts

/-!
# The words that are base instructions

Ten opcodes hold base instructions only. On a word with such an opcode the decoder is exact: it
accepts the encodings of instructions and nothing else, and no word encodes two instructions. (The
other three are read more loosely: a `jalr` is one with any function field, and a fence keeps what
it finds in its registers.)

That an encoding is accepted is the round trip of the base instructions. The other half goes from
the word to the instruction: a word is put together from its fields (`exists_fields`), an accepted
one has function fields that mean something (`load_of_name` and its like, each a table read
backwards), and the rest of the fields are the operands. That no word encodes two instructions
follows format by format from `wordOf_inj`, since the parts of an immediate can be read off the
fields that they are in.
-/

namespace Rv64archsem

variable {decodeRvc : UInt32 → Option DecodedInst} {w : UInt32} {d : DecodedInst}

/-! ## A word as its fields

Each format splits a word in its own way. Every word can be put together in each of them.
-/

theorem exists_fields (w : UInt32) : ∃ (opcode : Fin 128) (rd : Fin 32) (funct3 : Fin 8)
    (rs1 rs2 : Fin 32) (funct7 : Fin 128), w = wordOf opcode rd funct3 rs1 rs2 funct7 := by
  have hlt := w.toNat_lt
  refine ⟨.ofNat _ w.toNat, .ofNat _ (w.toNat / 2 ^ 7), .ofNat _ (w.toNat / 2 ^ 12),
    .ofNat _ (w.toNat / 2 ^ 15), .ofNat _ (w.toNat / 2 ^ 20), .ofNat _ (w.toNat / 2 ^ 25), ?_⟩
  apply UInt32.toNat_inj.mp
  rw [toNat_wordOf]
  simp only [Fin.val_ofNat]
  omega

section Formats

variable (opcode : Fin 128) (rd : Fin 32) (funct3 : Fin 8) (rs1 rs2 : Fin 32) (funct7 : Fin 128)

theorem exists_wordI : ∃ imm : BitVec 12,
    wordOf opcode rd funct3 rs1 rs2 funct7 = wordI opcode rd funct3 rs1 imm := by
  refine ⟨.ofNat 12 (rs2 + funct7 * 2 ^ 5), ?_⟩
  have hrs2 : Fin.ofNat 32 (BitVec.ofNat 12 (rs2 + funct7 * 2 ^ 5)).toNat = rs2 := by
    ext
    simp only [BitVec.toNat_ofNat, Fin.val_ofNat]
    omega
  have hfunct7 : Fin.ofNat 128 ((BitVec.ofNat 12 (rs2 + funct7 * 2 ^ 5)).toNat / 2 ^ 5) =
      funct7 := by
    ext
    simp only [BitVec.toNat_ofNat, Fin.val_ofNat]
    omega
  rw [wordI, hrs2, hfunct7]

theorem exists_wordS : ∃ imm : BitVec 12,
    wordOf opcode rd funct3 rs1 rs2 funct7 = wordS opcode funct3 rs1 rs2 imm := by
  refine ⟨.ofNat 12 (rd + funct7 * 2 ^ 5), ?_⟩
  have hrd : Fin.ofNat 32 (BitVec.ofNat 12 (rd + funct7 * 2 ^ 5)).toNat = rd := by
    ext
    simp only [BitVec.toNat_ofNat, Fin.val_ofNat]
    omega
  have hfunct7 : Fin.ofNat 128 ((BitVec.ofNat 12 (rd + funct7 * 2 ^ 5)).toNat / 2 ^ 5) =
      funct7 := by
    ext
    simp only [BitVec.toNat_ofNat, Fin.val_ofNat]
    omega
  rw [wordS, hrd, hfunct7]

theorem parts_of_offset {sign eleven middle low n : ℕ}
    (hn : n = low + middle * 2 ^ 4 + eleven * 2 ^ 10 + sign * 2 ^ 11)
    (hbounds : low < 2 ^ 4 ∧ middle < 2 ^ 6 ∧ eleven < 2 ∧ sign < 2) :
    n < 2 ^ 12 ∧ n / 2 ^ 10 % 2 = eleven ∧ n % 2 ^ 4 = low ∧ n / 2 ^ 4 % 2 ^ 6 = middle ∧
      n / 2 ^ 11 = sign := by
  refine ⟨?_, ?_, ?_, ?_, ?_⟩ <;> omega

theorem exists_wordB : ∃ offset : BitVec 12,
    wordOf opcode rd funct3 rs1 rs2 funct7 = wordB opcode funct3 rs1 rs2 offset := by
  obtain ⟨n, hn⟩ : ∃ n, n = rd.val / 2 + funct7.val % 2 ^ 6 * 2 ^ 4 + rd.val % 2 * 2 ^ 10 +
      funct7.val / 2 ^ 6 * 2 ^ 11 := ⟨_, rfl⟩
  obtain ⟨hlt, heleven, hlow, hmiddle, hsign⟩ :=
    parts_of_offset hn ⟨by omega, by omega, by omega, by omega⟩
  have hnat : (BitVec.ofNat 12 n).toNat = n := by
    rw [BitVec.toNat_ofNat, Nat.mod_eq_of_lt hlt]
  refine ⟨.ofNat 12 n, ?_⟩
  have hrd : Fin.ofNat 32 (rd.val % 2 + rd.val / 2 * 2) = rd := by
    ext
    rw [Fin.val_ofNat]
    omega
  have hfunct7 : Fin.ofNat 128 (funct7.val % 2 ^ 6 + funct7.val / 2 ^ 6 * 2 ^ 6) = funct7 := by
    ext
    rw [Fin.val_ofNat]
    omega
  simp only [wordB, hnat, heleven, hlow, hmiddle, hsign, hrd, hfunct7]

theorem exists_upperWord : ∃ imm : BitVec 20,
    wordOf opcode rd funct3 rs1 rs2 funct7 = upperWord opcode rd imm.toNat := by
  obtain ⟨n, hn⟩ : ∃ n, n = funct3.val + rs1.val * 2 ^ 3 + rs2.val * 2 ^ 8 +
      funct7.val * 2 ^ 13 := ⟨_, rfl⟩
  have hlt : n < 2 ^ 20 := by omega
  refine ⟨.ofNat 20 n, UInt32.toNat_inj.mp ?_⟩
  rw [BitVec.toNat_ofNat, Nat.mod_eq_of_lt hlt, toNat_upperWord opcode rd hlt, toNat_wordOf]
  omega

theorem exists_wordJ (imm : BitVec 20) : ∃ offset : BitVec 20,
    upperWord opcode rd imm.toNat = wordJ opcode rd offset := by
  have himm := imm.isLt
  obtain ⟨sign, hsign₀⟩ : ∃ n, n = imm.toNat / 2 ^ 19 := ⟨_, rfl⟩
  obtain ⟨top, htop₀⟩ : ∃ n, n = imm.toNat % 2 ^ 8 := ⟨_, rfl⟩
  obtain ⟨eleven, heleven₀⟩ : ∃ n, n = imm.toNat / 2 ^ 8 % 2 := ⟨_, rfl⟩
  obtain ⟨low, hlow₀⟩ : ∃ n, n = imm.toNat / 2 ^ 9 % 2 ^ 10 := ⟨_, rfl⟩
  have hparts : imm.toNat = top + eleven * 2 ^ 8 + low * 2 ^ 9 + sign * 2 ^ 19 := by omega
  have hbounds : sign < 2 ∧ top < 2 ^ 8 ∧ eleven < 2 ∧ low < 2 ^ 10 := by omega
  have hnat : (BitVec.ofNat 20 (low + eleven * 2 ^ 10 + top * 2 ^ 11 + sign * 2 ^ 19)).toNat =
      low + eleven * 2 ^ 10 + top * 2 ^ 11 + sign * 2 ^ 19 := by
    rw [BitVec.toNat_ofNat, Nat.mod_eq_of_lt (by omega)]
  refine ⟨.ofNat 20 (low + eleven * 2 ^ 10 + top * 2 ^ 11 + sign * 2 ^ 19), ?_⟩
  rw [wordJ, hnat, hparts]
  clear hparts hsign₀ htop₀ heleven₀ hlow₀ hnat himm
  congr 1
  omega

end Formats

/-! ## A word has one reading

The fields of a word are its parts as a number, so they are determined by it, and with them the
immediate in each of the formats.
-/

section Injective

variable {opcode opcode' : Fin 128} {rd rd' : Fin 32} {funct3 funct3' : Fin 8}
  {rs1 rs1' rs2 rs2' : Fin 32} {funct7 funct7' : Fin 128}

theorem wordOf_inj (h : wordOf opcode rd funct3 rs1 rs2 funct7 =
      wordOf opcode' rd' funct3' rs1' rs2' funct7') :
    opcode = opcode' ∧ rd = rd' ∧ funct3 = funct3' ∧ rs1 = rs1' ∧ rs2 = rs2' ∧
      funct7 = funct7' := by
  have hnat := congrArg UInt32.toNat h
  rw [toNat_wordOf, toNat_wordOf] at hnat
  simp only [Fin.ext_iff]
  omega

theorem wordI_inj {imm imm' : BitVec 12}
    (h : wordI opcode rd funct3 rs1 imm = wordI opcode' rd' funct3' rs1' imm') :
    opcode = opcode' ∧ rd = rd' ∧ funct3 = funct3' ∧ rs1 = rs1' ∧ imm = imm' := by
  obtain ⟨hopcode, hrd, hfunct3, hrs1, hrs2, hfunct7⟩ := wordOf_inj h
  refine ⟨hopcode, hrd, hfunct3, hrs1, BitVec.eq_of_toNat_eq ?_⟩
  simp only [Fin.ext_iff, Fin.val_ofNat] at hrs2 hfunct7
  omega

theorem wordS_inj {imm imm' : BitVec 12}
    (h : wordS opcode funct3 rs1 rs2 imm = wordS opcode' funct3' rs1' rs2' imm') :
    opcode = opcode' ∧ funct3 = funct3' ∧ rs1 = rs1' ∧ rs2 = rs2' ∧ imm = imm' := by
  obtain ⟨hopcode, hrd, hfunct3, hrs1, hrs2, hfunct7⟩ := wordOf_inj h
  refine ⟨hopcode, hfunct3, hrs1, hrs2, BitVec.eq_of_toNat_eq ?_⟩
  simp only [Fin.ext_iff, Fin.val_ofNat] at hrd hfunct7
  omega

theorem eq_of_div_mod {n n' k : ℕ} (hdiv : n / k = n' / k) (hmod : n % k = n' % k) : n = n' := by
  rw [← Nat.div_add_mod n k, hdiv, hmod, Nat.div_add_mod]

theorem parts_inj {low low' high high' n k m : ℕ} (hm : m = k * n) (hlow : low < n)
    (hlow' : low' < n) (hhigh : high < k) (hhigh' : high' < k)
    (h : (low + high * n) % m = (low' + high' * n) % m) : low = low' ∧ high = high' := by
  have hlt {a b : ℕ} (ha : a < n) (hb : b < k) : a + b * n < m := by
    have := Nat.mul_le_mul_right n (Nat.succ_le_of_lt hb)
    rw [Nat.succ_mul] at this
    omega
  rw [Nat.mod_eq_of_lt (hlt hlow hhigh), Nat.mod_eq_of_lt (hlt hlow' hhigh')] at h
  have hmod := congrArg (· % n) h
  simp only [Nat.add_mul_mod_self_right, Nat.mod_eq_of_lt hlow, Nat.mod_eq_of_lt hlow'] at hmod
  subst hmod
  exact ⟨rfl, Nat.eq_of_mul_eq_mul_right (by omega) (Nat.add_left_cancel h)⟩

theorem wordB_inj {offset offset' : BitVec 12}
    (h : wordB opcode funct3 rs1 rs2 offset = wordB opcode' funct3' rs1' rs2' offset') :
    opcode = opcode' ∧ funct3 = funct3' ∧ rs1 = rs1' ∧ rs2 = rs2' ∧ offset = offset' := by
  obtain ⟨hopcode, hrd, hfunct3, hrs1, hrs2, hfunct7⟩ := wordOf_inj h
  refine ⟨hopcode, hfunct3, hrs1, hrs2, BitVec.eq_of_toNat_eq ?_⟩
  have hlt := offset.isLt
  have hlt' := offset'.isLt
  simp only [Fin.ext_iff, Fin.val_ofNat] at hrd hfunct7
  obtain ⟨heleven, hlow⟩ := @parts_inj _ _ _ _ 2 16 32 rfl (Nat.mod_lt _ (by decide))
    (Nat.mod_lt _ (by decide)) (Nat.mod_lt _ (by decide)) (Nat.mod_lt _ (by decide)) hrd
  obtain ⟨hmiddle, hsign⟩ := @parts_inj _ _ _ _ 64 2 128 rfl (Nat.mod_lt _ (by decide))
    (Nat.mod_lt _ (by decide)) (by omega) (by omega) hfunct7
  -- the offset from its highest bit downwards
  have hsix : offset.toNat / 2 ^ 10 = offset'.toNat / 2 ^ 10 :=
    @eq_of_div_mod _ _ 2 (by rwa [Nat.div_div_eq_div_mul, Nat.div_div_eq_div_mul]) heleven
  have htwelve : offset.toNat / 2 ^ 4 = offset'.toNat / 2 ^ 4 :=
    @eq_of_div_mod _ _ (2 ^ 6) (by rwa [Nat.div_div_eq_div_mul, Nat.div_div_eq_div_mul]) hmiddle
  exact eq_of_div_mod htwelve hlow

theorem upperWord_inj {upper upper' : ℕ} (hlt : upper < 2 ^ 20) (hlt' : upper' < 2 ^ 20)
    (h : upperWord opcode rd upper = upperWord opcode' rd' upper') :
    opcode = opcode' ∧ rd = rd' ∧ upper = upper' := by
  have hnat := congrArg UInt32.toNat h
  rw [toNat_upperWord opcode rd hlt, toNat_upperWord opcode' rd' hlt'] at hnat
  simp only [Fin.ext_iff]
  omega

theorem wordJ_inj {offset offset' : BitVec 20}
    (h : wordJ opcode rd offset = wordJ opcode' rd' offset') :
    opcode = opcode' ∧ rd = rd' ∧ offset = offset' := by
  have hlt := offset.isLt
  have hlt' := offset'.isLt
  obtain ⟨hopcode, hrd, hupper⟩ := upperWord_inj (by omega) (by omega) h
  refine ⟨hopcode, hrd, BitVec.eq_of_toNat_eq ?_⟩
  have hparts (n : ℕ) (hn : n < 2 ^ 20) := @parts_of_upper (n / 2 ^ 19) (n / 2 ^ 11 % 2 ^ 8)
    (n / 2 ^ 10 % 2) (n % 2 ^ 10) _ rfl ⟨by omega, by omega, by omega, by omega⟩
  obtain ⟨-, hsign, htop, heleven, hlow⟩ := hparts _ hlt
  obtain ⟨-, hsign', htop', heleven', hlow'⟩ := hparts _ hlt'
  rw [hupper] at hsign htop heleven hlow
  -- the offset from its highest bit downwards
  have hnine : offset.toNat / 2 ^ 11 = offset'.toNat / 2 ^ 11 :=
    @eq_of_div_mod _ _ (2 ^ 8) (by
      rw [Nat.div_div_eq_div_mul, Nat.div_div_eq_div_mul]
      exact hsign.symm.trans hsign') (htop.symm.trans htop')
  have hten : offset.toNat / 2 ^ 10 = offset'.toNat / 2 ^ 10 :=
    @eq_of_div_mod _ _ 2 (by rwa [Nat.div_div_eq_div_mul, Nat.div_div_eq_div_mul])
      (heleven.symm.trans heleven')
  exact eq_of_div_mod hten (hlow.symm.trans hlow')

end Injective

theorem Shift.imm_inj {shift shift' : Shift} {shamt shamt' : ℕ} (hlt : shamt < 64)
    (hlt' : shamt' < 64) (hfunct3 : shift.funct3 = shift'.funct3)
    (h : shift.imm shamt = shift'.imm shamt') : shift = shift' ∧ shamt = shamt' := by
  have hnat := congrArg BitVec.toNat h
  rw [Instruction.toNat_shiftImm shift hlt, Instruction.toNat_shiftImm shift' hlt'] at hnat
  cases shift <;> cases shift' <;>
    first
    | exact absurd hfunct3 (by decide)
    | (simp only [reduceCtorEq, ↓reduceIte, true_and, false_and] at hnat ⊢
       omega)

theorem Condition.funct3_injective : Function.Injective Condition.funct3 := by
  intro a b h
  cases a <;> cases b <;> first | rfl | exact absurd h (by decide)

theorem LoadKind.funct3_injective : Function.Injective LoadKind.funct3 := by
  intro a b h
  cases a <;> cases b <;> first | rfl | exact absurd h (by decide)

theorem StoreKind.funct3_injective : Function.Injective StoreKind.funct3 := by
  intro a b h
  cases a <;> cases b <;> first | rfl | exact absurd h (by decide)

theorem ImmOp.funct3_injective : Function.Injective ImmOp.funct3 := by
  intro a b h
  cases a <;> cases b <;> first | rfl | exact absurd h (by decide)

theorem opFunct_inj {op op' : WordOp} (h₃ : opFunct3 op = opFunct3 op')
    (h₇ : opFunct7 op = opFunct7 op') : op = op' := by
  cases op <;> cases op' <;>
    first | rfl | exact absurd h₃ (by decide) | exact absurd h₇ (by decide)

theorem Op32.wordOp_injective : Function.Injective Op32.wordOp := by
  intro a b h
  cases a <;> cases b <;> first | rfl | cases h

/-- The function field of an operation with an immediate is not that of a shift. -/
theorem ImmOp.funct3_ne (op : ImmOp) (shift : Shift) : op.funct3 ≠ shift.funct3 := by
  cases op <;> cases shift <;> decide

theorem Shift.funct3_ne_zero (shift : Shift) : shift.funct3 ≠ 0 := by
  cases shift <;> decide

namespace Instruction

theorem opcode_eq_of_encode {i j : Instruction} (h : i.encode = j.encode) :
    i.opcode = j.opcode := by
  have hdecoded := (decode_encode (fun _ ↦ none) i).symm.trans
    ((congrArg _ h).trans (decode_encode (fun _ ↦ none) j))
  have hcode (i : Instruction) : i.decoded.opcode = i.opcode := by cases i <;> rfl
  rw [← hcode i, Option.some.inj hdecoded, hcode]

theorem encode_injective : Function.Injective encode := by
  intro i j h
  have hopcode := opcode_eq_of_encode h
  -- The opcode tells apart what is not of one group; what is left are the pairs within a group.
  cases i <;> cases j <;> cases hopcode
  case lui.lui rd imm rd' imm' =>
    obtain ⟨-, rfl, himm⟩ := upperWord_inj imm.isLt imm'.isLt h
    rw [BitVec.eq_of_toNat_eq himm]
  case auipc.auipc rd imm rd' imm' =>
    obtain ⟨-, rfl, himm⟩ := upperWord_inj imm.isLt imm'.isLt h
    rw [BitVec.eq_of_toNat_eq himm]
  case jal.jal =>
    obtain ⟨-, rfl, rfl⟩ := wordJ_inj h
    rfl
  case jalr.jalr =>
    obtain ⟨-, rfl, -, rfl, rfl⟩ := wordI_inj h
    rfl
  case branch.branch =>
    obtain ⟨-, hfunct3, rfl, rfl, rfl⟩ := wordB_inj h
    rw [Condition.funct3_injective hfunct3]
  case load.load =>
    obtain ⟨-, rfl, hfunct3, rfl, rfl⟩ := wordI_inj h
    rw [LoadKind.funct3_injective hfunct3]
  case store.store =>
    obtain ⟨-, hfunct3, rfl, rfl, rfl⟩ := wordS_inj h
    rw [StoreKind.funct3_injective hfunct3]
  case opImm.opImm =>
    obtain ⟨-, rfl, hfunct3, rfl, rfl⟩ := wordI_inj h
    rw [ImmOp.funct3_injective hfunct3]
  case opImm.shiftImm op _ _ _ shift _ _ _ =>
    exact absurd (wordI_inj h).2.2.1 (op.funct3_ne shift)
  case shiftImm.opImm shift _ _ _ op _ _ _ =>
    exact absurd (wordI_inj h).2.2.1.symm (op.funct3_ne shift)
  case shiftImm.shiftImm shift rd rs1 shamt shift' rd' rs1' shamt' =>
    obtain ⟨-, rfl, hfunct3, rfl, himm⟩ := wordI_inj h
    obtain ⟨rfl, hshamt⟩ := Shift.imm_inj shamt.isLt shamt'.isLt hfunct3 himm
    rw [Fin.ext hshamt]
  case opReg.opReg =>
    obtain ⟨-, rfl, hfunct3, rfl, rfl, hfunct7⟩ := wordOf_inj h
    rw [opFunct_inj hfunct3 hfunct7]
  case addiw.addiw =>
    obtain ⟨-, rfl, -, rfl, rfl⟩ := wordI_inj h
    rfl
  case addiw.shiftImm32 _ _ _ shift _ _ _ =>
    exact absurd (wordI_inj h).2.2.1.symm shift.funct3_ne_zero
  case shiftImm32.addiw shift _ _ _ _ _ _ =>
    exact absurd (wordI_inj h).2.2.1 shift.funct3_ne_zero
  case shiftImm32.shiftImm32 shift rd rs1 shamt shift' rd' rs1' shamt' =>
    obtain ⟨-, rfl, hfunct3, rfl, himm⟩ := wordI_inj h
    obtain ⟨rfl, hshamt⟩ := Shift.imm_inj (by omega) (by omega) hfunct3 himm
    rw [Fin.ext hshamt]
  case opReg32.opReg32 =>
    obtain ⟨-, rfl, hfunct3, rfl, rfl, hfunct7⟩ := wordOf_inj h
    rw [Op32.wordOp_injective (opFunct_inj hfunct3 hfunct7)]
  case fence.fence =>
    rw [(wordI_inj h).2.2.2.2]
  case fence.fenceI => exact absurd (wordI_inj h).2.2.1 (by decide)
  case fenceI.fence => exact absurd (wordI_inj h).2.2.1 (by decide)
  case fenceI.fenceI =>
    rw [(wordI_inj h).2.2.2.2]
  case csrrHartId.csrrHartId =>
    rw [(wordI_inj h).2.1]
  case csrrHartId.ecall => exact absurd (wordI_inj h).2.2.1 (by decide)
  case csrrHartId.ebreak => exact absurd (wordI_inj h).2.2.1 (by decide)
  case ecall.csrrHartId => exact absurd (wordI_inj h).2.2.1 (by decide)
  case ecall.ecall => rfl
  case ecall.ebreak => exact absurd (wordI_inj h).2.2.2.2 (by decide)
  case ebreak.csrrHartId => exact absurd (wordI_inj h).2.2.1 (by decide)
  case ebreak.ecall => exact absurd (wordI_inj h).2.2.2.2 (by decide)
  case ebreak.ebreak => rfl

end Instruction

/-! ## The function fields that have a meaning -/

theorem load_of_name : ∀ funct3 : Fin 8, rv64LoadInstName funct3 ≠ .illegal →
    funct3 ∈ [LoadKind.lb, .lh, .lw, .ld, .lbu, .lhu, .lwu].map LoadKind.funct3 := by decide

theorem store_of_name : ∀ funct3 : Fin 8, rv64StoreInstName funct3 ≠ .illegal →
    funct3 ∈ [StoreKind.sb, .sh, .sw, .sd].map StoreKind.funct3 := by decide

theorem condition_of_name : ∀ funct3 : Fin 8, rv64BranchInstName funct3 ≠ .illegal →
    funct3 ∈ [Condition.beq, .bne, .blt, .bge, .bltu, .bgeu].map Condition.funct3 := by decide

theorem immOp_of_funct3 : ∀ funct3 : Fin 8, funct3 ≠ 1 → funct3 ≠ 5 →
    funct3 ∈ [ImmOp.addi, .slti, .sltiu, .xori, .ori, .andi].map ImmOp.funct3 := by decide

theorem op_of_name : ∀ (funct3 : Fin 8) (funct7 : Fin 128),
    rv64Op64InstName funct7 funct3 ≠ .illegal →
      (funct3, funct7) ∈ [WordOp.add, .sub, .sll, .slt, .sltu, .xor, .srl, .sra, .or, .and, .mul,
        .mulh, .mulhsu, .mulhu, .div, .divu, .rem,
        .remu].map fun op ↦ (opFunct3 op, opFunct7 op) := by
  decide +kernel

theorem op32_of_name : ∀ (funct3 : Fin 8) (funct7 : Fin 128),
    rv64Op32InstName funct7 funct3 ≠ .illegal →
      (funct3, funct7) ∈ [Op32.addw, .subw, .sllw, .srlw, .sraw, .mulw, .divw, .divuw, .remw,
        .remuw].map fun op ↦ (opFunct3 op.wordOp, opFunct7 op.wordOp) := by
  decide +kernel

@[simp] theorem toNat_funct3 (funct3 : Fin 8) : (UInt8.ofNat funct3).toNat = funct3 :=
  UInt8.toNat_ofNat_of_lt' (by simp only [UInt8.size]; omega)

@[simp] theorem toNat_funct7 (funct7 : Fin 128) : (UInt8.ofNat funct7).toNat = funct7 :=
  UInt8.toNat_ofNat_of_lt' (by simp only [UInt8.size]; omega)

/-- The immediate of an accepted shift of a register. -/
theorem shift_of_name {funct3 : Fin 8} {rd rs1 : Fin 32} {imm : BitVec 12} {inst : DecodedInst}
    (hinst : inst.funct3 = UInt8.ofNat funct3) (hshift : funct3 = 1 ∨ funct3 = 5)
    (h : opimmName (wordI 0x13 rd funct3 rs1 imm) inst ≠ .illegal) :
    ∃ (shift : Shift) (shamt : Fin 64), shift.funct3 = funct3 ∧ shift.imm shamt = imm := by
  have hbits := Instruction.extract_funct6 0x13 rd funct3 rs1 imm
  have hlt := imm.isLt
  rcases hshift with rfl | rfl
  · -- a left shift has no bits above the amount
    have hfunct3 : inst.funct3.toNat = 1 := by rw [hinst, toNat_funct3]; rfl
    simp only [opimmName, hfunct3] at h
    split_ifs at h with hzero
    · exact absurd rfl h
    · rw [not_not.mp hzero, UInt32.toNat_zero] at hbits
      refine ⟨.left, ⟨imm.toNat, by omega⟩, rfl, BitVec.eq_of_toNat_eq ?_⟩
      rw [Instruction.toNat_shiftImm _ (by omega)]
      rfl
  · -- a right shift has at most the bit for the arithmetic one
    have hfunct3 : inst.funct3.toNat = 5 := by rw [hinst, toNat_funct3]; rfl
    simp only [opimmName, hfunct3] at h
    split_ifs at h with hzero hbit
    · rw [hzero, UInt32.toNat_zero] at hbits
      refine ⟨.right, ⟨imm.toNat, by omega⟩, rfl, BitVec.eq_of_toNat_eq ?_⟩
      rw [Instruction.toNat_shiftImm _ (by omega)]
      rfl
    · rw [hbit, show (0x10 : UInt32).toNat = 16 from rfl] at hbits
      refine ⟨.rightArithmetic, ⟨imm.toNat - 2 ^ 10, by omega⟩, rfl, BitVec.eq_of_toNat_eq ?_⟩
      rw [Instruction.toNat_shiftImm _ (by omega), if_pos rfl]
      exact Nat.sub_add_cancel (by omega)
    · exact absurd rfl h

/-- The immediate of an accepted shift of a low half. -/
theorem shift32_of_name {funct3 : Fin 8} {imm : BitVec 12} {inst : DecodedInst}
    (hinst : inst.funct3 = UInt8.ofNat funct3) (hfunct7 : inst.funct7 = highBits imm)
    (h : opimm32Name inst ≠ .illegal) :
    funct3 = 0 ∨ ∃ (shift : Shift) (shamt : Fin 32), shift.funct3 = funct3 ∧
      shift.imm shamt = imm := by
  rw [opimm32Name, hinst, hfunct7] at h
  have hlt := imm.isLt
  have hbits : (highBits imm).toNat = imm.toNat / 2 ^ 5 :=
    UInt8.toNat_ofNat_of_lt' (by simp only [UInt8.size]; omega)
  have hfunct3 : ∀ f : Fin 8, f ≠ 1 → f ≠ 5 → rv64Imm32InstName f ≠ .illegal → f = 0 := by decide
  by_cases hleft : funct3 = 1
  · subst hleft
    change (if highBits imm ≠ 0 then InstName.illegal else .other 0x001002a) ≠ .illegal at h
    split_ifs at h with hzero
    · exact absurd rfl h
    · rw [not_not.mp hzero, UInt8.toNat_zero] at hbits
      refine .inr ⟨.left, ⟨imm.toNat, by omega⟩, rfl, BitVec.eq_of_toNat_eq ?_⟩
      rw [Instruction.toNat_shiftImm _ (by omega)]
      rfl
  by_cases hright : funct3 = 5
  · subst hright
    change (if highBits imm = 0 then InstName.other 0x001002b
      else if highBits imm = 0x20 then .other 0x001002c else .illegal) ≠ .illegal at h
    split_ifs at h with hzero hbit
    · rw [hzero, UInt8.toNat_zero] at hbits
      refine .inr ⟨.right, ⟨imm.toNat, by omega⟩, rfl, BitVec.eq_of_toNat_eq ?_⟩
      rw [Instruction.toNat_shiftImm _ (by omega)]
      rfl
    · rw [hbit, show (0x20 : UInt8).toNat = 32 from rfl] at hbits
      refine .inr ⟨.rightArithmetic, ⟨imm.toNat - 2 ^ 10, by omega⟩, rfl,
        BitVec.eq_of_toNat_eq ?_⟩
      rw [Instruction.toNat_shiftImm _ (by omega), if_pos rfl]
      exact Nat.sub_add_cancel (by omega)
    · exact absurd rfl h
  · refine .inl (hfunct3 funct3 hleft hright ?_)
    rw [toNat_funct3] at h
    split at h
    next hone => exact absurd (Fin.ext hone) hleft
    next hfive => exact absurd (Fin.ext hfive) hright
    next => exact h

/-! ## Exactness -/

/-- The opcodes of base instructions only. -/
def baseOpcodes : List OPCode :=
  [.load, .opimm, .auipc, .opimm32, .store, .op, .lui, .op32, .branch, .jal]

/-- The number of an opcode. -/
def OPCode.number : OPCode → ℕ
  | load => 0x03
  | loadfp => 0x07
  | miscmem => 0x0f
  | opimm => 0x13
  | auipc => 0x17
  | opimm32 => 0x1b
  | store => 0x23
  | storefp => 0x27
  | amo => 0x2f
  | op => 0x33
  | lui => 0x37
  | op32 => 0x3b
  | madd => 0x43
  | msub => 0x47
  | nmsub => 0x4b
  | nmadd => 0x4f
  | opfp => 0x53
  | opv => 0x57
  | branch => 0x63
  | jalr => 0x67
  | jal => 0x6f
  | system => 0x73
  | nop => 0

theorem number_of_opcodeOf :
    ∀ opcode : Fin 128, ∀ code ∈ opcodeOf opcode, opcode = Fin.ofNat 128 code.number := by
  decide +kernel

/-- On these opcodes the decoder accepts encodings of instructions only. -/
theorem exists_encode {code : OPCode} (hlow : w &&& 0x3 = 0x3)
    (hopcode : opcodeOf (extract 6 0 w).toNat = some code) (hbase : code ∈ baseOpcodes)
    (h : decode decodeRvc w = some d) : ∃ i : Instruction, w = i.encode := by
  obtain ⟨opcode, rd, funct3, rs1, rs2, funct7, rfl⟩ := exists_fields w
  rw [extract_opcode] at hopcode
  obtain rfl := number_of_opcodeOf opcode code hopcode
  rw [decode, if_neg (not_not_intro hlow), extract_opcode, hopcode] at h
  change decodeOpcode _ _ = some d at h
  simp only [baseOpcodes, List.mem_cons, List.not_mem_nil, or_false] at hbase
  rcases hbase with rfl | rfl | rfl | rfl | rfl | rfl | rfl | rfl | rfl | rfl
  · -- a load
    obtain ⟨imm, hword⟩ := exists_wordI (.ofNat _ OPCode.load.number) rd funct3 rs1 rs2 funct7
    simp only [decodeOpcode, hword, setupI_wordI, toNat_funct3] at h
    obtain ⟨kind, -, rfl⟩ := List.mem_map.mp (load_of_name funct3 (named_eq_some h).1)
    exact ⟨.load kind rd rs1 imm, hword⟩
  · -- an operation with an immediate
    obtain ⟨imm, hword⟩ := exists_wordI (.ofNat _ OPCode.opimm.number) rd funct3 rs1 rs2 funct7
    simp only [decodeOpcode, hword, setupI_wordI] at h
    by_cases hshift : funct3 = 1 ∨ funct3 = 5
    · obtain ⟨shift, shamt, rfl, rfl⟩ := shift_of_name rfl hshift (named_eq_some h).1
      exact ⟨.shiftImm shift rd rs1 shamt, hword⟩
    · obtain ⟨hone, hfive⟩ := not_or.mp hshift
      obtain ⟨op, -, rfl⟩ := List.mem_map.mp (immOp_of_funct3 funct3 hone hfive)
      exact ⟨.opImm op rd rs1 imm, hword⟩
  · obtain ⟨imm, hword⟩ := exists_upperWord (.ofNat _ OPCode.auipc.number) rd funct3 rs1 rs2 funct7
    exact ⟨.auipc rd imm, hword⟩
  · -- an operation on a low half with an immediate
    obtain ⟨imm, hword⟩ := exists_wordI (.ofNat _ OPCode.opimm32.number) rd funct3 rs1 rs2 funct7
    simp only [decodeOpcode, hword, setupI_wordI] at h
    rcases shift32_of_name rfl rfl (named_eq_some h).1 with rfl | ⟨shift, shamt, rfl, rfl⟩
    · exact ⟨.addiw rd rs1 imm, hword⟩
    · exact ⟨.shiftImm32 shift rd rs1 shamt, hword⟩
  · -- a store
    obtain ⟨imm, hword⟩ := exists_wordS (.ofNat _ OPCode.store.number) rd funct3 rs1 rs2 funct7
    simp only [decodeOpcode, hword, setupS_wordS, toNat_funct3] at h
    obtain ⟨kind, -, rfl⟩ := List.mem_map.mp (store_of_name funct3 (named_eq_some h).1)
    exact ⟨.store kind rs1 rs2 imm, hword⟩
  · simp only [decodeOpcode, setupR_wordOf, toNat_funct3, toNat_funct7] at h
    obtain ⟨op, -, hop⟩ := List.mem_map.mp (op_of_name funct3 funct7 (named_eq_some h).1)
    obtain ⟨rfl, rfl⟩ := Prod.mk.inj hop
    exact ⟨.opReg op rd rs1 rs2, rfl⟩
  · obtain ⟨imm, hword⟩ := exists_upperWord (.ofNat _ OPCode.lui.number) rd funct3 rs1 rs2 funct7
    exact ⟨.lui rd imm, hword⟩
  · simp only [decodeOpcode, setupR_wordOf, toNat_funct3, toNat_funct7] at h
    obtain ⟨op, -, hop⟩ := List.mem_map.mp (op32_of_name funct3 funct7 (named_eq_some h).1)
    obtain ⟨rfl, rfl⟩ := Prod.mk.inj hop
    exact ⟨.opReg32 op rd rs1 rs2, rfl⟩
  · -- a branch
    obtain ⟨offset, hword⟩ := exists_wordB (.ofNat _ OPCode.branch.number) rd funct3 rs1 rs2 funct7
    simp only [decodeOpcode, hword, setupB_wordB, toNat_funct3] at h
    obtain ⟨condition, -, rfl⟩ := List.mem_map.mp (condition_of_name funct3 (named_eq_some h).1)
    exact ⟨.branch condition rs1 rs2 offset, hword⟩
  · obtain ⟨imm, hupper⟩ := exists_upperWord (.ofNat _ OPCode.jal.number) rd funct3 rs1 rs2 funct7
    obtain ⟨offset, hword⟩ := exists_wordJ (.ofNat _ OPCode.jal.number) rd imm
    exact ⟨.jal rd offset, hupper.trans hword⟩

/-- On the opcodes of base instructions the decoder is exact: it accepts a word if and only if one
instruction is encoded so, and gives that instruction. -/
theorem decode_iff_encoded {code : OPCode} (hlow : w &&& 0x3 = 0x3)
    (hopcode : opcodeOf (extract 6 0 w).toNat = some code) (hbase : code ∈ baseOpcodes) :
    decode decodeRvc w = some d ↔ ∃! i : Instruction, w = i.encode ∧ d = i.decoded := by
  constructor
  · intro h
    obtain ⟨i, rfl⟩ := exists_encode hlow hopcode hbase h
    refine ⟨i, ⟨rfl, ?_⟩, fun j hj ↦ Instruction.encode_injective hj.1.symm⟩
    exact Option.some.inj (h.symm.trans (Instruction.decode_encode decodeRvc i))
  · rintro ⟨i, ⟨rfl, rfl⟩, -⟩
    exact Instruction.decode_encode decodeRvc i

/-- On the word of `addi x5, x5, 1`. -/
theorem decode_iff_encoded_addi : ∃! i : Instruction,
    0x00128293 = i.encode ∧ (Instruction.opImm .addi 5 5 1).decoded = i.decoded :=
  (@decode_iff_encoded (fun _ ↦ none) 0x00128293 _ .opimm (by decide) (by decide) (by decide)).mp
    (Instruction.decode_encode _ (.opImm .addi 5 5 1))

end Rv64archsem
