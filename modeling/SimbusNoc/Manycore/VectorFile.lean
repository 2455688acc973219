import SimbusNoc.Library.Ensures
import SimbusNoc.Manycore.VectorArithmetic

/-!
# The vector registers as bytes

The 32 vector registers are 1024 bytes, one register after the other. A register group is a stretch
of them: the core gathers it into words, works on these, and scatters them again.

`HoldsGroup` says that a list of words is the contents of a group, byte by byte. Reading
establishes it, and writing words that hold it puts them back and leaves the other registers alone.
Between the two lies the arithmetic on words, which has its own statement about bytes;
`HoldsGroup.rewritten` combines the three. Elements of any width are read off bytes, so the same
facts serve all widths and all group sizes.
-/

namespace Manycore.Rv64AtomicCore

open Simbus Rv64archsem Throwing Lanes

variable {c c' : Rv64AtomicCore} {base : Fin 32} {words words' : List UInt64} {count w : ℕ}

/-- Byte `a` of the vector registers. -/
def vectorByte (c : Rv64AtomicCore) (a : ℕ) : UInt8 :=
  (wordBytes (c.vectorWords (a / 32))).getD (a % 32) 0

/-- Element `i` of the register group from `base` on, `w` bytes wide. -/
def vectorElement (c : Rv64AtomicCore) (w : ℕ) (base : Fin 32) (i : ℕ) : BitVec (8 * w) :=
  bytesElement w ((List.range w).map fun j ↦ c.vectorByte (32 * base.val + i * w + j))

theorem length_readVectorGroup {base : Fin 32} {words : List UInt64} {count : ℕ}
    (hcount : c.vectorGroupRegisters = .ok count) (h : c.readVectorGroup base = .ok words) :
    words.length = count * 4 := by
  obtain ⟨count', hcount', h⟩ := Except.bind_eq_ok_iff.mp h
  obtain rfl := Except.ok.inj (hcount'.symm.trans hcount)
  obtain ⟨-, -, h⟩ := Except.bind_eq_ok_iff.mp h
  obtain rfl := Except.ok.inj h
  rw [List.length_flatMap]
  simp [vectorWords]

theorem vectorGroupRegisters_le {count : ℕ} (h : c.vectorGroupRegisters = .ok count) :
    count ≤ 8 := by
  rw [vectorGroupRegisters] at h
  split at h <;> cases h <;> decide

/-! ## Groups -/

/-- The words are the contents of the group of `count` registers from `base` on. -/
def HoldsGroup (c : Rv64AtomicCore) (base : Fin 32) (count : ℕ) (words : List UInt64) : Prop :=
  ∀ n < 32 * count, (wordBytes words)[n]? = some (c.vectorByte (32 * base.val + n))

theorem length_vectorWords (c : Rv64AtomicCore) (r : ℕ) : (c.vectorWords r).length = 4 :=
  List.length_ofFn

theorem getElem?_vectorWords (c : Rv64AtomicCore) (a : ℕ) :
    (wordBytes (c.vectorWords (a / 32)))[a % 32]? = some (c.vectorByte a) := by
  have hlt : a % 32 < (wordBytes (c.vectorWords (a / 32))).length := by
    rw [length_wordBytes, length_vectorWords]
    exact Nat.mod_lt _ (by decide)
  rw [vectorByte, List.getD_eq_getElem?_getD, List.getElem?_eq_getElem hlt, Option.getD_some]

theorem holdsGroup_of_registers
    (h : ∀ reg < count, lane 4 words reg = c.vectorWords (base.val + reg)) :
    c.HoldsGroup base count words := by
  intro n hn
  have hreg : (32 * base.val + n) / 32 = base.val + n / 32 := by omega
  have hplace : (32 * base.val + n) % 32 = n % 32 := by omega
  rw [← getElem?_vectorWords, hreg, hplace, ← h (n / 32) (by omega), wordBytes_lane, getElem?_lane,
    if_pos (by omega)]
  congr 1
  omega

theorem readVectorGroup_holds (hcount : c.vectorGroupRegisters = .ok count)
    (h : c.readVectorGroup base = .ok words) : c.HoldsGroup base count words := by
  obtain ⟨count', hcount', h⟩ := Except.bind_eq_ok_iff.mp h
  obtain rfl := Except.ok.inj (hcount'.symm.trans hcount)
  obtain ⟨-, -, h⟩ := Except.bind_eq_ok_iff.mp h
  obtain rfl := Except.ok.inj h
  refine holdsGroup_of_registers fun reg hreg ↦ ?_
  have hlane : lane (1 * 4) ((List.range count').flatMap fun r ↦ c.vectorWords (base.val + r)) reg =
      (lane 1 (List.range count') reg).flatMap fun r ↦ c.vectorWords (base.val + r) :=
    lane_flatMap (fun r ↦ c.length_vectorWords (base.val + r)) reg
  rw [lane_one_range hreg, Nat.one_mul, List.flatMap_singleton] at hlane
  exact hlane

/-- The elements of the words are those of the group. -/
theorem HoldsGroup.element (h : c.HoldsGroup base count words) {i : ℕ}
    (hi : i * w + w ≤ 32 * count) : element w words i = c.vectorElement w base i := by
  rw [Rv64archsem.element, vectorElement]
  congr 1
  refine List.ext_getElem? fun n ↦ ?_
  rw [getElem?_lane, List.getElem?_map]
  split
  · next hn =>
    rw [h _ (by omega), List.getElem?_range hn, Option.map_some, Nat.add_assoc]
  · next hn => rw [List.getElem?_eq_none (by simpa using hn), Option.map_none]

/-- The words are in the group afterwards, and all other registers are as before. -/
theorem writeVectorGroup_holds (hcount : c.vectorGroupRegisters = .ok count)
    (h : c.writeVectorGroup base words = .ok c') :
    c'.HoldsGroup base count words ∧
      ∀ a < 1024, ¬ (32 * base.val ≤ a ∧ a < 32 * base.val + 32 * count) →
        c'.vectorByte a = c.vectorByte a := by
  obtain ⟨count', hcount', h⟩ := Except.bind_eq_ok_iff.mp h
  obtain rfl := Except.ok.inj (hcount'.symm.trans hcount)
  obtain ⟨u, hchecked, h⟩ := Except.bind_eq_ok_iff.mp h
  rw [require_eq_ok_iff] at hchecked
  simp only [Bool.not_eq_true', Bool.or_eq_false_iff, Bool.not_eq_false', beq_iff_eq,
    decide_eq_false_iff_not, Nat.not_lt] at hchecked
  obtain ⟨⟨-, hin⟩, hwords⟩ := hchecked
  obtain rfl := Except.ok.inj h
  constructor
  · refine holdsGroup_of_registers fun reg hreg ↦ ?_
    have hval : (Fin.ofNat 32 (base.val + reg)).val = base.val + reg :=
      Nat.mod_eq_of_lt (by omega)
    refine List.ext_getElem? fun n ↦ ?_
    rw [getElem?_lane, vectorWords, List.getElem?_ofFn]
    dsimp only
    rw [hval]
    split
    · next hn =>
      rw [if_pos ⟨by omega, by omega⟩, Nat.add_sub_cancel_left, List.getD_eq_getElem?_getD,
        List.getElem?_eq_getElem (by omega), Option.getD_some]
    · rfl
  · intro a ha hout
    have hval : (Fin.ofNat 32 (a / 32)).val = a / 32 := Nat.mod_eq_of_lt (by omega)
    rw [vectorByte, vectorByte, vectorWords, vectorWords]
    dsimp only
    rw [if_neg]
    rw [hval]
    omega

/-- What rewrites the words of a group rewrites its elements, and nothing else. -/
theorem HoldsGroup.rewritten {written : ℕ → Prop} {value : ℕ → BitVec (8 * w)}
    (h : c.HoldsGroup base count words) (h' : c'.HoldsGroup base count words')
    (hothers : ∀ a < 1024, ¬ (32 * base.val ≤ a ∧ a < 32 * base.val + 32 * count) →
      c'.vectorByte a = c.vectorByte a)
    (hrewrites : Rewrites w words words' written value)
    (hwritten : ∀ i, written i → i * w + w ≤ 32 * count) :
    (∀ i, written i → c'.vectorElement w base i = value i) ∧
      ∀ a < 1024, (∀ i, written i →
          ¬ (32 * base.val + i * w ≤ a ∧ a < 32 * base.val + i * w + w)) →
        c'.vectorByte a = c.vectorByte a := by
  refine ⟨fun i hi ↦ ?_, fun a ha hout ↦ ?_⟩
  · rw [← h'.element (hwritten i hi), hrewrites.result i hi]
  · by_cases hgroup : 32 * base.val ≤ a ∧ a < 32 * base.val + 32 * count
    · obtain ⟨n, rfl⟩ := Nat.exists_eq_add_of_le hgroup.1
      have hkept := hrewrites.others n fun i hi hin ↦ hout i hi ⟨by omega, by omega⟩
      rw [h n (by omega), h' n (by omega)] at hkept
      exact Option.some.inj hkept
    · exact hothers a ha hgroup

end Manycore.Rv64AtomicCore
