import SimbusNoc.Manycore.CoreRuns
import SimbusNoc.Manycore.DecodeFacts

/-!
# Jumps

What the core does with the two jump instructions. The decoder sorts them by what they mean for a
stack of return addresses, and the core takes its formula for the target from that.

A jump relative to the program counter is right in all cases. A jump to a register is not, when it
links: one that links to `x1` from another register has the control type of a call, and the core
computes the target of a call from the program counter; one whose two registers are the same reads
its target after the link has been written. `GoesRight` is the condition on the core before the
instruction under which the target is the right one all the same, and it is exact. The link itself
is right in every case.
-/

namespace Manycore.Rv64AtomicCore

open Rv64archsem

variable {k : Rv64Hart} {c : Rv64AtomicCore} {inst : DecodedInst} {instWord : UInt32}
  {decodeRvc : UInt32 → Option DecodedInst}

/-- Where the instruction set lets a jump go. -/
def jumpTarget (c : Rv64AtomicCore) (inst : DecodedInst) : UInt64 :=
  if inst.opcode = .jal then c.pc + inst.imm.toUInt64
  else (c.x inst.rs1 + inst.imm.toUInt64) &&& ~~~(1 : UInt64)

/-- The core has jumped: the link register has the address of the next instruction, and no other
register has changed. -/
structure Jumped (c : Rv64AtomicCore) (inst : DecodedInst) (c' : Rv64AtomicCore) : Prop where
  state : c'.state = .fetchDecode
  pc : c'.pc = c.jumpTarget inst
  link : inst.rd ≠ 0 → c'.x inst.rd = c.pc + 4
  others : ∀ r, r ≠ 0 → r ≠ inst.rd → c'.x r = c.x r
  zero : c'.x 0 = 0

/-- The link is right whatever the target is. -/
theorem jumped_iff (target : UInt64) :
    Jumped c inst ((c.writeReg inst.rd (c.pc + 4)).setNextPc target).commit ↔
      target = c.jumpTarget inst := by
  constructor
  · exact fun h ↦ h.pc
  · intro htarget
    refine ⟨rfl, htarget, fun hrd ↦ ?_, fun r hr hne ↦ ?_, ?_⟩
    · rw [writeReg, if_neg hrd]
      simp [setNextPc, commit, hrd]
    · simp only [setNextPc, commit, writeReg, Function.update_of_ne hr]
      split
      · rfl
      · exact Function.update_of_ne hne ..
    · simp [commit]

theorem execute_directJump (hpending : Fetched c inst instWord)
    (hcontrol : inst.controlType = .directJump ∨ inst.controlType = .call) :
    executeReadyInstruction k c =
      ((c.writeReg inst.rd (c.pc + 4)).setNextPc (c.pc + inst.imm.toUInt64)).commit := by
  rw [executeReadyInstruction, execute, hpending.instruction_eq]
  rcases hcontrol with hcontrol | hcontrol <;> rw [hcontrol] <;> rfl

theorem execute_indirectJump (hpending : Fetched c inst instWord)
    (hcontrol : inst.controlType = .indirectJump ∨ inst.controlType = .ret) :
    executeReadyInstruction k c =
      ((c.writeReg inst.rd (c.pc + 4)).setNextPc
        (((c.writeReg inst.rd (c.pc + 4)).x inst.rs1 + inst.imm.toUInt64) &&&
          ~~~(1 : UInt64))).commit := by
  rw [executeReadyInstruction, execute, hpending.instruction_eq]
  rcases hcontrol with hcontrol | hcontrol <;> rw [hcontrol] <;> rfl

/-- A `JALR` that links to `x1` from another register goes where a `JAL` would, and one whose two
registers are the same goes on from its own link. -/
def GoesRight (c : Rv64AtomicCore) (inst : DecodedInst) : Prop :=
  inst.opcode = .jalr →
    (inst.rd = 1 → inst.rs1 ≠ 1 → c.pc + inst.imm.toUInt64 = c.jumpTarget inst) ∧
    (inst.rd = inst.rs1 → inst.rd ≠ 0 →
      (c.pc + 4 + inst.imm.toUInt64) &&& ~~~(1 : UInt64) = c.jumpTarget inst)

/-- The core executes a jump as the instruction set has it, but for two kinds of `JALR`. -/
theorem jumped_executeReadyInstruction_iff (hlow : instWord &&& 0x3 = 0x3)
    (hdecode : decode decodeRvc instWord = some inst)
    (hop : inst.opcode = .jal ∨ inst.opcode = .jalr) (hpending : Fetched c inst instWord) :
    Jumped c inst (executeReadyInstruction k c) ↔ GoesRight c inst := by
  rcases hop with hop | hop
  · have hcontrol : inst.controlType = .directJump ∨ inst.controlType = .call := by
      rw [controlType_jal hlow hdecode hop]
      split <;> simp
    rw [execute_directJump hpending hcontrol, jumped_iff, jumpTarget, if_pos hop]
    exact iff_of_true rfl fun h ↦ by rw [hop] at h; cases h
  · have hcontrol := controlType_jalr hlow hdecode hop
    have htarget : c.jumpTarget inst = (c.x inst.rs1 + inst.imm.toUInt64) &&& ~~~(1 : UInt64) :=
      if_neg (by rw [hop]; decide)
    by_cases hcall : inst.rd = 1 ∧ inst.rs1 ≠ 1
    · rw [if_pos hcall] at hcontrol
      rw [execute_directJump hpending (.inr hcontrol), jumped_iff]
      constructor
      · exact fun h _ ↦ ⟨fun _ _ ↦ h, fun hsame _ ↦ absurd (hsame ▸ hcall.1) hcall.2⟩
      · exact fun h ↦ (h hop).1 hcall.1 hcall.2
    · have hreg : inst.controlType = .indirectJump ∨ inst.controlType = .ret := by
        rw [hcontrol, if_neg hcall]
        split <;> simp
      rw [execute_indirectJump hpending hreg, jumped_iff]
      -- the target is read after the link has been written
      by_cases hsame : inst.rd = inst.rs1 ∧ inst.rd ≠ 0
      · rw [writeReg, if_neg hsame.2, ← hsame.1]
        simp only [Function.update_self]
        constructor
        · exact fun h _ ↦ ⟨fun hrd hrs1 ↦ absurd ⟨hrd, hrs1⟩ hcall, fun _ _ ↦ h⟩
        · exact fun h ↦ (h hop).2 hsame.1 hsame.2
      · have hx : (c.writeReg inst.rd (c.pc + 4)).x inst.rs1 = c.x inst.rs1 := by
          rw [writeReg]
          split
          · rfl
          · exact Function.update_of_ne (fun h ↦ hsame ⟨h.symm, ‹_›⟩) ..
        rw [hx, htarget]
        exact iff_of_true rfl fun _ ↦
          ⟨fun hrd hrs1 ↦ absurd ⟨hrd, hrs1⟩ hcall, fun h hrd ↦ absurd ⟨h, hrd⟩ hsame⟩

/-- A core at `0x80000000` with a word to execute and an address in `x5`. -/
def jumpCore (instWord : UInt32) : Rv64AtomicCore :=
  { state := .executeWait
    pc := 0x80000000
    x := Function.update (fun _ ↦ 0) 5 0x80001000
    pending := (decode (fun _ ↦ none) instWord).map fun inst ↦
      ⟨inst, instWord, 0x80000000, 0x80000004⟩ }

/-- `jalr x6, 4(x5)` goes to the address in `x5` and four on, and links in `x6`. -/
theorem jumped_jalr :
    (jumpCore 0x00428367).jumpTarget ((decode (fun _ ↦ none) 0x00428367).getD {}) = 0x80001004 ∧
    Jumped (jumpCore 0x00428367) ((decode (fun _ ↦ none) 0x00428367).getD {})
      (executeReadyInstruction (.ofWords []) (jumpCore 0x00428367)) :=
  ⟨by decide, (@jumped_executeReadyInstruction_iff (.ofWords []) (jumpCore 0x00428367)
    ((decode (fun _ ↦ none) 0x00428367).getD {}) 0x00428367 (fun _ ↦ none)
    (by decide) rfl (.inr rfl) rfl).mpr fun _ ↦
      ⟨fun hrd ↦ absurd hrd (by decide), fun hsame ↦ absurd hsame (by decide)⟩⟩

/-- `jalr x1, 0(x5)` does not go to the address in `x5`. -/
theorem not_jumped_jalr :
    ¬ ∀ (k : Rv64Hart) (c : Rv64AtomicCore) (inst : DecodedInst) (instWord : UInt32)
      (decodeRvc : UInt32 → Option DecodedInst), instWord &&& 0x3 = 0x3 →
      decode decodeRvc instWord = some inst → (inst.opcode = .jal ∨ inst.opcode = .jalr) →
      Fetched c inst instWord → Jumped c inst (executeReadyInstruction k c) := by
  intro h
  have hjumped := h (.ofWords []) (jumpCore 0x000280e7) _ 0x000280e7 (fun _ ↦ none) (by decide) rfl
    (.inr rfl) rfl
  exact absurd hjumped.pc (by decide)

end Manycore.Rv64AtomicCore
