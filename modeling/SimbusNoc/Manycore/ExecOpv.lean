import SimbusNoc.Library.Lanes
import SimbusNoc.Manycore.ArchSem
import SimbusNoc.Manycore.Canonical

/-!
# Vector arithmetic

`exec_opv` (`rvv64.cpp`) with the functions of `vint.hpp` that the core's integer instructions come
to. The cases of the other instructions are a parameter, and so is the mask that stands for no
mask.

A register group is a list of words in memory order. The code reads it as elements of the selected
width, which is a cut of its bytes into lanes.

`forElements` is the loop that all functions of `vint.hpp` share: element `i` becomes a value that
is computed from element `i` of the operands, from `vstart` up to `vl` and where the mask is set. A
function is the loop with its operation. The minimum and maximum are templates over the type of an
element, signed or not, and take what `<` means as an argument.
-/

namespace Rv64archsem

open Simbus Manycore Lanes

/-! ## Elements

An element is the number that its bytes make up in little-endian order. It is read and written as
one, and the words are only how the bytes are passed.
-/

/-- The words that `n` times 8 bytes make up. -/
def bytesWords (n : ℕ) (bytes : Bytes) : List UInt64 :=
  (List.range n).map fun i ↦ UInt64.ofNat (leValue (lane 8 bytes i))

/-- The number of `w` bytes that they make up. -/
def bytesElement (w : ℕ) (bytes : Bytes) : BitVec (8 * w) := BitVec.ofNat (8 * w) (leValue bytes)

/-- Element `i` of words that are read as numbers of `w` bytes. -/
def element (w : ℕ) (words : List UInt64) (i : ℕ) : BitVec (8 * w) :=
  bytesElement w (lane w (wordBytes words) i)

/-- The loop of the functions of `vint.hpp`: from `vstart` up to `vl`, where the mask is set,
element `i` becomes `f i`. -/
def forElements (w vl vstart : ℕ) (vd : List UInt64) (mask : ℕ → Bool) (f : ℕ → BitVec (8 * w)) :
    List UInt64 :=
  bytesWords vd.length (mapLanes w (fun i d ↦ if mask i then appendLe w (f i).toNat else d)
    (wordBytes vd) (List.range' vstart (vl - vstart)))

/-- The first element is written, as by `memcpy`. -/
def setFirst (w : ℕ) (vd : List UInt64) (value : BitVec (8 * w)) : List UInt64 :=
  bytesWords vd.length (setLane w (wordBytes vd) 0 (appendLe w value.toNat))

/-- `expand_mask`. -/
def expandMask (packedMask : Bytes) (i : ℕ) : Bool :=
  (packedMask.getD (i / 8) 0).toNat.testBit (i % 8)

/-! ## Integer instructions -/

section Vint

variable (w vl vstart : ℕ) (vd vs2 vs1 : List UInt64) (rs1 : BitVec (8 * w)) (mask : ℕ → Bool)

def vaddVv : List UInt64 :=
  forElements w vl vstart vd mask fun i ↦ element w vs1 i + element w vs2 i

def vaddVxi : List UInt64 := forElements w vl vstart vd mask fun i ↦ element w vs2 i + rs1

def vsubVv : List UInt64 :=
  forElements w vl vstart vd mask fun i ↦ element w vs2 i - element w vs1 i

def vsubVxi : List UInt64 := forElements w vl vstart vd mask fun i ↦ element w vs2 i - rs1

def vrsubVxi : List UInt64 := forElements w vl vstart vd mask fun i ↦ rs1 - element w vs2 i

def vandVv : List UInt64 :=
  forElements w vl vstart vd mask fun i ↦ element w vs2 i &&& element w vs1 i

def vandVxi : List UInt64 := forElements w vl vstart vd mask fun i ↦ element w vs2 i &&& rs1

def vorVv : List UInt64 :=
  forElements w vl vstart vd mask fun i ↦ element w vs2 i ||| element w vs1 i

def vorVxi : List UInt64 := forElements w vl vstart vd mask fun i ↦ element w vs2 i ||| rs1

def vxorVv : List UInt64 :=
  forElements w vl vstart vd mask fun i ↦ element w vs2 i ^^^ element w vs1 i

def vxorVxi : List UInt64 := forElements w vl vstart vd mask fun i ↦ element w vs2 i ^^^ rs1

/-! The template argument of the next four is the type of the elements: what `<` means on it. -/

variable (less : BitVec (8 * w) → BitVec (8 * w) → Bool)

def vminVv : List UInt64 :=
  forElements w vl vstart vd mask fun i ↦
    if less (element w vs2 i) (element w vs1 i) then element w vs2 i else element w vs1 i

def vminVx : List UInt64 :=
  forElements w vl vstart vd mask fun i ↦
    if less (element w vs2 i) rs1 then element w vs2 i else rs1

def vmaxVv : List UInt64 :=
  forElements w vl vstart vd mask fun i ↦
    if less (element w vs2 i) (element w vs1 i) then element w vs1 i else element w vs2 i

def vmaxVx : List UInt64 :=
  forElements w vl vstart vd mask fun i ↦
    if less (element w vs2 i) rs1 then rs1 else element w vs2 i

end Vint

/-! ## The executor -/

/-- `_exec_opv` for elements of `w` bytes: the destination afterwards, in the cases of the core's
integer instructions. -/
def execOpvCase (w : ℕ) (inst : DecodedInst) (vl vstart : ℕ) (vd vrs1 vrs2 : List UInt64)
    (mask : ℕ → Bool) : Option (List UInt64) :=
  let xrs1 := BitVec.ofNat (8 * w) (vrs1.headD 0).toNat
  let uimm := BitVec.ofNat (8 * w) inst.imm.toUInt64.toNat
  match inst.instName with
  | .vaddVv => some (vaddVv w vl vstart vd vrs2 vrs1 mask)
  | .vsubVv => some (vsubVv w vl vstart vd vrs2 vrs1 mask)
  | .vminuVv => some (vminVv w vl vstart vd vrs2 vrs1 mask BitVec.ult)
  | .vminVv => some (vminVv w vl vstart vd vrs2 vrs1 mask BitVec.slt)
  | .vmaxuVv => some (vmaxVv w vl vstart vd vrs2 vrs1 mask BitVec.ult)
  | .vmaxVv => some (vmaxVv w vl vstart vd vrs2 vrs1 mask BitVec.slt)
  | .vandVv => some (vandVv w vl vstart vd vrs2 vrs1 mask)
  | .vorVv => some (vorVv w vl vstart vd vrs2 vrs1 mask)
  | .vxorVv => some (vxorVv w vl vstart vd vrs2 vrs1 mask)
  | .vmvVV => some (forElements w vl vstart vd (fun _ ↦ true) fun i ↦ element w vrs1 i)
  | .vmvXS => some (setFirst w vd (element w vrs2 0))
  | .vaddVi => some (vaddVxi w vl vstart vd vrs2 uimm mask)
  | .vrsubVi => some (vrsubVxi w vl vstart vd vrs2 uimm mask)
  | .vandVi => some (vandVxi w vl vstart vd vrs2 uimm mask)
  | .vorVi => some (vorVxi w vl vstart vd vrs2 uimm mask)
  | .vxorVi => some (vxorVxi w vl vstart vd vrs2 uimm mask)
  | .vmvVI => some (forElements w vl vstart vd (fun _ ↦ true) fun _ ↦ uimm)
  | .vaddVx => some (vaddVxi w vl vstart vd vrs2 xrs1 mask)
  | .vsubVx => some (vsubVxi w vl vstart vd vrs2 xrs1 mask)
  | .vrsubVx => some (vrsubVxi w vl vstart vd vrs2 xrs1 mask)
  | .vminuVx => some (vminVx w vl vstart vd vrs2 xrs1 mask BitVec.ult)
  | .vminVx => some (vminVx w vl vstart vd vrs2 xrs1 mask BitVec.slt)
  | .vmaxuVx => some (vmaxVx w vl vstart vd vrs2 xrs1 mask BitVec.ult)
  | .vmaxVx => some (vmaxVx w vl vstart vd vrs2 xrs1 mask BitVec.slt)
  | .vandVx => some (vandVxi w vl vstart vd vrs2 xrs1 mask)
  | .vorVx => some (vorVxi w vl vstart vd vrs2 xrs1 mask)
  | .vxorVx => some (vxorVxi w vl vstart vd vrs2 xrs1 mask)
  | .vmvSX => some (if 0 < vl ∧ vstart = 0 then setFirst w vd xrs1 else vd)
  | _ => none

/-- The layouts of operands that there are no elements for. -/
def invalidViews : RVVSEW → List VRegView
  | .e8 => [.f8, .f4, .f2]
  | .e16 => [.f8, .f4]
  | .e32 => [.f8]
  | .e64 => [.m2]

/-- What `_exec_opv` and the code after it do in the cases that are not embedded, with the width of
the elements and the mask. -/
abbrev OtherCases :=
  ℕ → (ℕ → Bool) → DecodedInst → VecContext → List UInt64 → List UInt64 → List UInt64 → UInt64 →
    Option OpvResult

/-- The mask that `maskptr` points to. -/
def maskOf (allTrueExpdMask : ℕ → Bool) (inst : DecodedInst) (vctx : VecContext) : ℕ → Bool :=
  let noMask := !(inst.funct7 &&& 1 == 0)
  if !noMask && !vctx.vmask.isEmpty then expandMask vctx.vmask else allTrueExpdMask

/-- `exec_opv`. The integer cases leave the flags of `fcsr` and `vxsat` as they are. -/
def execOpv (allTrueExpdMask : ℕ → Bool) (other : OtherCases) (inst : DecodedInst)
    (vctx : VecContext) (vdraw vrs1raw vrs2raw : List UInt64) (fcsr : UInt64) :
    Except VecEXResult OpvResult :=
  if vdraw.length * 8 < requestRegBytes vctx inst.rdType inst.vrdView then .error .insufficientVd
  else if vrs1raw.length * 8 < requestRegBytes vctx inst.rs1Type inst.vrs1View then
    .error .insufficientVs1
  else if vrs2raw.length * 8 < requestRegBytes vctx inst.rs2Type inst.vrs2View then
    .error .insufficientVs2
  else if !vctx.vmask.isEmpty &&
      decide (vctx.vmask.length * 8 < requestRegBytes vctx .vreg .mask) then
    .error .insufficientVmask
  else if [inst.vrdView, inst.vrs1View, inst.vrs2View].any (invalidViews vctx.sew).contains then
    .error .invalidWidenNarrow
  else
    let w := vctx.sew.bytes
    let mask := maskOf allTrueExpdMask inst vctx
    match execOpvCase w inst vctx.vl.toNat vctx.vstart.toNat vdraw vrs1raw vrs2raw mask with
    | some vd => .ok ⟨vd, false, fcsr⟩
    | none =>
      match other w mask inst vctx vdraw vrs1raw vrs2raw fcsr with
      | some result => .ok result
      | none => .error .illegalInstruction

/-! ## Words and their bytes -/

theorem length_wordBytes (words : List UInt64) : (wordBytes words).length = 8 * words.length := by
  induction words with
  | nil => rfl
  | cons word words ih =>
    rw [wordBytes, List.flatMap_cons, List.length_append, ← wordBytes, ih, length_appendLe,
      List.length_cons, Nat.mul_succ, Nat.add_comm]

theorem length_bytesWords (n : ℕ) (bytes : Bytes) : (bytesWords n bytes).length = n := by
  rw [bytesWords, List.length_map, List.length_range]

theorem wordBytes_bytesWords {n : ℕ} {bytes : Bytes} (h : bytes.length = n * 8) :
    wordBytes (bytesWords n bytes) = bytes := by
  rw [wordBytes, bytesWords, List.flatMap_map]
  refine Eq.trans ?_ (flatMap_lane h)
  refine List.flatMap_congr fun i hi ↦ ?_
  have hi : i < n := List.mem_range.mp hi
  have hlength : (lane 8 bytes i).length = 8 := length_lane (by omega)
  have hlt : leValue (lane 8 bytes i) < 2 ^ 64 := by
    have hlt := leValue_lt (lane 8 bytes i)
    rwa [hlength] at hlt
  rw [UInt64.toNat_ofNat', Nat.mod_eq_of_lt hlt]
  have hroundTrip := appendLe_leValue (lane 8 bytes i)
  rwa [hlength] at hroundTrip

/-- The stretches of `m` words are stretches of 8 times as many bytes. -/
theorem wordBytes_lane (m : ℕ) (words : List UInt64) (i : ℕ) :
    wordBytes (lane m words i) = lane (m * 8) (wordBytes words) i :=
  (lane_flatMap (fun _ ↦ length_appendLe 8 _) i).symm

theorem bytesElement_appendLe (w : ℕ) (value : BitVec (8 * w)) :
    bytesElement w (appendLe w value.toNat) = value := by
  have hlt : value.toNat < 256 ^ w := by
    have hpow : 2 ^ (8 * w) = 256 ^ w := by rw [Nat.pow_mul]
    exact hpow ▸ value.isLt
  rw [bytesElement, leValue_appendLe, Nat.mod_eq_of_lt hlt, BitVec.ofNat_toNat,
    BitVec.setWidth_eq]

theorem leValue_append (first second : Bytes) :
    leValue (first ++ second) = leValue first + 256 ^ first.length * leValue second := by
  induction first with
  | nil => simp [leValue]
  | cons x first ih =>
    rw [List.cons_append, leValue, leValue, ih, List.length_cons, Nat.pow_succ, Nat.mul_add,
      Nat.mul_comm _ 256, Nat.mul_assoc, Nat.add_assoc]

theorem drop_appendLe (w n value : ℕ) :
    (appendLe (w + n) value).drop w = appendLe n (value / 256 ^ w) := by
  induction w generalizing value with
  | zero => rw [Nat.zero_add, List.drop_zero, Nat.pow_zero, Nat.div_one]
  | succ w ih =>
    rw [Nat.succ_add, appendLe, List.drop_succ_cons, ih, Nat.div_div_eq_div_mul, Nat.pow_succ,
      Nat.mul_comm]

/-- Writing the first element of one word keeps the bits above it. -/
theorem setFirst_singleton {w n : ℕ} (hw : w + n = 8) (old : UInt64) (first : BitVec (8 * w)) :
    ∃ word : UInt64, setFirst w [old] first = [word] ∧
      word.toNat = 2 ^ (8 * w) * (old.toNat / 2 ^ (8 * w)) + first.toNat := by
  have hpow : 2 ^ (8 * w) = 256 ^ w := by rw [Nat.pow_mul]
  set bytes := appendLe w first.toNat ++ appendLe n (old.toNat / 256 ^ w) with hbytes
  have hdrop : (appendLe 8 old.toNat).drop w = appendLe n (old.toNat / 256 ^ w) := by
    rw [← hw, drop_appendLe]
  have hset : setLane w (wordBytes [old]) 0 (appendLe w first.toNat) = bytes := by
    rw [setLane, Nat.zero_mul, List.take_zero, List.nil_append, Nat.zero_add, wordBytes,
      List.flatMap_singleton, hdrop]
  have hlane : lane 8 bytes 0 = bytes := by
    rw [lane, Nat.zero_mul, List.drop_zero, List.take_of_length_le]
    rw [hbytes, List.length_append, length_appendLe, length_appendLe, hw]
  have hfirst : first.toNat < 256 ^ w := hpow ▸ first.isLt
  have hrest : old.toNat / 256 ^ w < 256 ^ n := by
    rw [Nat.div_lt_iff_lt_mul (Nat.pow_pos (by decide)), ← Nat.pow_add, Nat.add_comm, hw]
    exact old.toNat_lt
  have hvalue : leValue bytes = 2 ^ (8 * w) * (old.toNat / 2 ^ (8 * w)) + first.toNat := by
    rw [hbytes, leValue_append, leValue_appendLe, leValue_appendLe, length_appendLe,
      Nat.mod_eq_of_lt hfirst, Nat.mod_eq_of_lt hrest, hpow, Nat.add_comm]
  refine ⟨UInt64.ofNat (leValue bytes), ?_, ?_⟩
  · rw [setFirst, hset, bytesWords]
    simp [hlane]
  · have hlt : leValue bytes < 2 ^ 64 := by
      have hlt := leValue_lt bytes
      rwa [hbytes, List.length_append, length_appendLe, length_appendLe, hw, ← hbytes] at hlt
    rw [UInt64.toNat_ofNat', Nat.mod_eq_of_lt hlt, hvalue]

end Rv64archsem
