import SimbusNoc.Manycore.DecodeFacts
import SimbusNoc.Manycore.ExecOpv
import SimbusNoc.Manycore.Rv64AtomicCore

/-!
# What the vector instructions compute

The meaning of the integer instructions on one element, and that each case of the executor rewrites
the elements it is to write, by that meaning, and no other byte of the destination.

`operation` is the meaning, a function of two numbers of the element's width, with the signed and
the unsigned instructions told apart. `Rewrites` relates two lists of words: elements that are to
be written have their new value, and every other byte is as it was. It is proved of the loop once,
for any value that depends on the old operands only, and then each case of the executor is the loop
with an operation that agrees with the meaning.
-/

namespace Rv64archsem

open Simbus Manycore Lanes

/-! ## The meaning of an instruction -/

/-- The operand beside the register group `vs2`: a register group, a scalar register or an immediate
number. -/
inductive OperandForm
  | vv | vx | vi
  deriving DecidableEq

def InstName.operandForm : InstName → OperandForm
  | .vaddVx | .vsubVx | .vrsubVx | .vminuVx | .vminVx | .vmaxuVx | .vmaxVx | .vandVx | .vorVx
  | .vxorVx | .vmvSX => .vx
  | .vaddVi | .vrsubVi | .vandVi | .vorVi | .vxorVi | .vmvVI => .vi
  | _ => .vv

/-- The instruction copies the operand. -/
def InstName.isMove (name : InstName) : Bool := [.vmvVV, .vmvVI, .vmvXS, .vmvSX].contains name

/-- What an instruction makes of an element `a` of `vs2` and the other operand `b`. -/
def InstName.operation {n : ℕ} (name : InstName) (a b : BitVec n) : BitVec n :=
  match name with
  | .vaddVv | .vaddVx | .vaddVi => a + b
  | .vsubVv | .vsubVx => a - b
  | .vrsubVx | .vrsubVi => b - a
  | .vminuVv | .vminuVx => if a.toNat ≤ b.toNat then a else b
  | .vminVv | .vminVx => if a.toInt ≤ b.toInt then a else b
  | .vmaxuVv | .vmaxuVx => if a.toNat ≤ b.toNat then b else a
  | .vmaxVv | .vmaxVx => if a.toInt ≤ b.toInt then b else a
  | .vandVv | .vandVx | .vandVi => a &&& b
  | .vorVv | .vorVx | .vorVi => a ||| b
  | .vxorVv | .vxorVx | .vxorVi => a ^^^ b
  | _ => b

/-! ## Rewriting elements -/

/-- The elements that satisfy `written` have become those of `value`, and no other byte has
changed. -/
structure Rewrites (w : ℕ) (vd vd' : List UInt64) (written : ℕ → Prop)
    (value : ℕ → BitVec (8 * w)) :
    Prop where
  length : vd'.length = vd.length
  result : ∀ i, written i → element w vd' i = value i
  others : ∀ n, (∀ i, written i → ¬ (i * w ≤ n ∧ n < i * w + w)) →
    (wordBytes vd')[n]? = (wordBytes vd)[n]?

variable {w vl vstart : ℕ} {vd vd' vrs1 vrs2 : List UInt64} {mask : ℕ → Bool}
  {written written' : ℕ → Prop} {value value' : ℕ → BitVec (8 * w)}

theorem Rewrites.congr (h : Rewrites w vd vd' written value)
    (hwritten : ∀ i, written i ↔ written' i)
    (hvalue : ∀ i, value i = value' i) : Rewrites w vd vd' written' value' where
  length := h.length
  result i hi := (h.result i ((hwritten i).mpr hi)).trans (hvalue i)
  others n hn := h.others n fun i hi ↦ hn i ((hwritten i).mp hi)

theorem Rewrites.nothing (h : ∀ i, ¬ written i) : Rewrites w vd vd written value where
  length := rfl
  result i hi := absurd hi (h i)
  others _ _ := rfl

theorem add_le_of_lt {i : ℕ} (hi : i < vl) (hfits : vl * w ≤ vd.length * 8) :
    i * w + w ≤ (wordBytes vd).length := by
  have hle : (i + 1) * w ≤ vl * w := Nat.mul_le_mul_right w hi
  rw [Nat.succ_mul] at hle
  rw [length_wordBytes]
  omega

/-- The loop rewrites what the mask selects. -/
theorem forElements_rewrites (hfits : vl * w ≤ vd.length * 8) (mask : ℕ → Bool)
    (f : ℕ → BitVec (8 * w)) : Rewrites w vd (forElements w vl vstart vd mask f)
      (fun i ↦ vstart ≤ i ∧ i < vl ∧ mask i = true) f := by
  set js := List.range' vstart (vl - vstart) with hjs
  set g : ℕ → Bytes → Bytes := fun i d ↦ if mask i then appendLe w (f i).toNat else d with hg
  have hmem : ∀ j, j ∈ js ↔ vstart ≤ j ∧ j < vl := fun j ↦ by
    rw [hjs, List.mem_range'_1]
    omega
  have hin : ∀ j ∈ js, j * w + w ≤ (wordBytes vd).length := fun j hj ↦
    add_le_of_lt ((hmem j).mp hj).2 hfits
  have hwidth : ∀ j d, d.length = w → (g j d).length = w := by
    intro j d hd
    rw [hg]
    dsimp only
    split
    · exact length_appendLe _ _
    · exact hd
  -- On bytes the loop rewrites lanes, which keep to themselves.
  have hbytes : wordBytes (forElements w vl vstart vd mask f) = mapLanes w g (wordBytes vd) js := by
    refine wordBytes_bytesWords ?_
    rw [length_mapLanes hwidth hin, length_wordBytes, Nat.mul_comm]
  have hlane : ∀ j ∈ js, lane w (mapLanes w g (wordBytes vd) js) j = g j
    (lane w (wordBytes vd) j) :=
    fun j hj ↦ lane_mapLanes_of_mem hwidth hin List.nodup_range' hj
  refine ⟨length_bytesWords _ _, fun i ⟨hstart, hend, hmask⟩ ↦ ?_, fun n hn ↦ ?_⟩
  · rw [element, hbytes, hlane i ((hmem i).mpr ⟨hstart, hend⟩), hg]
    dsimp only
    rw [if_pos hmask, bytesElement_appendLe]
  · rw [hbytes]
    by_cases hcovered : ∃ j ∈ js, j * w ≤ n ∧ n < j * w + w
    · -- an element of the range that the mask leaves out is written back as it was
      obtain ⟨j, hj, hle, hlt⟩ := hcovered
      have hmask : ¬ mask j = true := fun hmask ↦
        hn j ⟨((hmem j).mp hj).1, ((hmem j).mp hj).2, hmask⟩ ⟨hle, hlt⟩
      have hkept := congrArg (·[n - j * w]?) (hlane j hj)
      rw [hg] at hkept
      dsimp only at hkept
      rw [if_neg hmask, getElem?_lane, getElem?_lane, if_pos (by omega), if_pos (by omega),
        Nat.add_sub_cancel' hle] at hkept
      exact hkept
    · rw [not_exists] at hcovered
      exact getElem?_mapLanes_of_notMem hwidth hin fun j hj hin ↦ hcovered j ⟨hj, hin⟩

theorem setFirst_rewrites (hfits : w ≤ vd.length * 8) (first : BitVec (8 * w)) :
    Rewrites w vd (setFirst w vd first) (fun i ↦ i = 0) fun _ ↦ first := by
  have hzero : 0 * w + w ≤ (wordBytes vd).length := by
    rw [length_wordBytes]
    omega
  have hd := length_appendLe w first.toNat
  have hbytes : wordBytes (setFirst w vd first) =
      setLane w (wordBytes vd) 0 (appendLe w first.toNat) := by
    refine wordBytes_bytesWords ?_
    rw [length_setLane hd hzero, length_wordBytes, Nat.mul_comm]
  refine ⟨length_bytesWords _ _, fun i hi ↦ ?_, fun n hn ↦ ?_⟩
  · rw [hi, element, hbytes, lane_setLane_self hd hzero, bytesElement_appendLe]
  · rw [hbytes, getElem?_setLane hd hzero, if_neg (hn 0 rfl)]

/-! ## The cases of the executor -/

theorem ult_ite {n : ℕ} {α : Type} (a b : BitVec n) {x y : α} (h : a = b → x = y) :
    (if a.ult b then x else y) = if a.toNat ≤ b.toNat then x else y := by
  rw [BitVec.ult]
  by_cases heq : a.toNat = b.toNat
  · rw [h (BitVec.eq_of_toNat_eq heq), ite_self, ite_self]
  · refine if_congr ?_ rfl rfl
    rw [decide_eq_true_iff]
    omega

theorem slt_ite {n : ℕ} {α : Type} (a b : BitVec n) {x y : α} (h : a = b → x = y) :
    (if a.slt b then x else y) = if a.toInt ≤ b.toInt then x else y := by
  rw [BitVec.slt]
  by_cases heq : a.toInt = b.toInt
  · rw [h (BitVec.eq_of_toInt_eq heq), ite_self, ite_self]
  · refine if_congr ?_ rfl rfl
    rw [decide_eq_true_iff]
    omega

/-- The operand beside `vs2` for element `i`, as the executor has it. -/
def execOperand (w : ℕ) (inst : DecodedInst) (vrs1 : List UInt64) (i : ℕ) : BitVec (8 * w) :=
  match inst.instName.operandForm with
  | .vv => element w vrs1 i
  | .vx => BitVec.ofNat (8 * w) (vrs1.headD 0).toNat
  | .vi => BitVec.ofNat (8 * w) inst.imm.toUInt64.toNat

/-- An instruction with a vector destination rewrites its elements. -/
theorem execOpvCase_rewrites {inst : DecodedInst} (vstart : ℕ) (vrs1 vrs2 : List UInt64)
    (hname : Rv64AtomicCore.isSupportedVectorIntegerInstruction inst.instName = true)
    (hvector : inst.instName ≠ .vmvXS) (hfits : vl * w ≤ vd.length * 8)
    (hmove : inst.instName.isMove = true → ∀ i < vl, mask i = true) :
    ∃ vd', execOpvCase w inst vl vstart vd vrs1 vrs2 mask = some vd' ∧
      Rewrites w vd vd'
        (fun i ↦ (vstart ≤ i ∧ i < vl ∧ mask i = true) ∧ (inst.instName = .vmvSX → i = 0))
        fun i ↦ inst.instName.operation (element w vrs2 i) (execOperand w inst vrs1 i) := by
  -- the loop with the right elements
  have hloop : ∀ {f : ℕ → BitVec (8 * w)}, inst.instName ≠ .vmvSX →
      (∀ i, f i = inst.instName.operation (element w vrs2 i) (execOperand w inst vrs1 i)) →
      Rewrites w vd (forElements w vl vstart vd mask f)
        (fun i ↦ (vstart ≤ i ∧ i < vl ∧ mask i = true) ∧ (inst.instName = .vmvSX → i = 0))
        fun i ↦ inst.instName.operation (element w vrs2 i) (execOperand w inst vrs1 i) :=
    fun hne hf ↦ (forElements_rewrites hfits mask _).congr
      (fun i ↦ (and_iff_left fun h ↦ absurd h hne).symm) hf
  have hcopy : ∀ {f : ℕ → BitVec (8 * w)}, inst.instName ≠ .vmvSX → inst.instName.isMove = true →
      (∀ i, f i = inst.instName.operation (element w vrs2 i) (execOperand w inst vrs1 i)) →
      Rewrites w vd (forElements w vl vstart vd (fun _ ↦ true) f)
        (fun i ↦ (vstart ≤ i ∧ i < vl ∧ mask i = true) ∧ (inst.instName = .vmvSX → i = 0))
        fun i ↦ inst.instName.operation (element w vrs2 i) (execOperand w inst vrs1 i) := by
    intro f hne hisMove hf
    refine (forElements_rewrites hfits (fun _ ↦ true) f).congr (fun i ↦ ?_) hf
    rw [and_iff_left fun h ↦ absurd h hne]
    exact ⟨fun h ↦ ⟨h.1, h.2.1, hmove hisMove i h.2.1⟩, fun h ↦ ⟨h.1, h.2.1, rfl⟩⟩
  obtain ⟨result, hresult⟩ :
      ∃ result, execOpvCase w inst vl vstart vd vrs1 vrs2 mask = result := ⟨_, rfl⟩
  rw [hresult]
  obtain ⟨name, hinst⟩ : ∃ name, inst.instName = name := ⟨_, rfl⟩
  rw [execOpvCase, hinst] at hresult
  cases name
  -- the operation is written as in the source
  case vsubVv | vandVv | vorVv | vxorVv | vaddVi | vrsubVi | vandVi | vorVi | vxorVi | vaddVx
      | vsubVx | vrsubVx | vandVx | vorVx | vxorVx =>
    refine ⟨_, hresult.symm, hloop (by simp [hinst]) fun i ↦ ?_⟩
    rw [execOperand, hinst]
    rfl
  case vaddVv =>
    refine ⟨_, hresult.symm, hloop (by simp [hinst]) fun i ↦ ?_⟩
    rw [execOperand, hinst]
    exact BitVec.add_comm _ _
  case vminuVv | vminuVx =>
    refine ⟨_, hresult.symm, hloop (by simp [hinst]) fun i ↦ ?_⟩
    rw [execOperand, hinst]
    exact ult_ite _ _ id
  case vmaxuVv | vmaxuVx =>
    refine ⟨_, hresult.symm, hloop (by simp [hinst]) fun i ↦ ?_⟩
    rw [execOperand, hinst]
    exact ult_ite _ _ Eq.symm
  case vminVv | vminVx =>
    refine ⟨_, hresult.symm, hloop (by simp [hinst]) fun i ↦ ?_⟩
    rw [execOperand, hinst]
    exact slt_ite _ _ id
  case vmaxVv | vmaxVx =>
    refine ⟨_, hresult.symm, hloop (by simp [hinst]) fun i ↦ ?_⟩
    rw [execOperand, hinst]
    exact slt_ite _ _ Eq.symm
  case vmvVV | vmvVI =>
    refine ⟨_, hresult.symm, hcopy (by simp [hinst]) (by rw [hinst]; rfl) fun i ↦ ?_⟩
    rw [execOperand, hinst]
    rfl
  case vmvSX =>
    refine ⟨_, hresult.symm, ?_⟩
    by_cases hfirst : 0 < vl ∧ vstart = 0
    · obtain ⟨hpos, rfl⟩ := hfirst
      have hw : w ≤ vd.length * 8 := (Nat.le_mul_of_pos_left w hpos).trans hfits
      rw [if_pos ⟨hpos, rfl⟩]
      refine (setFirst_rewrites hw _).congr (fun i ↦ ?_) fun i ↦ ?_
      · refine ⟨fun hi ↦ ?_, fun h ↦ h.2 hinst⟩
        rw [hi]
        exact ⟨⟨Nat.le.refl, hpos, hmove (by rw [hinst]; rfl) 0 hpos⟩, fun _ ↦ rfl⟩
      · rw [execOperand, hinst]
        rfl
    · rw [if_neg hfirst]
      refine .nothing fun i hi ↦ hfirst ?_
      have hzero := hi.2 hinst
      exact ⟨by omega, by omega⟩
  case vmvXS => exact absurd hinst hvector
  all_goals
    rw [hinst] at hname
    cases hname

end Rv64archsem
