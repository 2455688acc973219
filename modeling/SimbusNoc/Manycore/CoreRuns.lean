import SimbusNoc.Manycore.Decode
import SimbusNoc.Manycore.Rv64ManycoreSystem
import SimbusNoc.Library.Ensures

/-!
# Runs of one core

A core by itself, on whatever bus: in its turns the bus may answer anything at all. A fact about
these runs holds in every system.

`Reachable` has one step for a turn of the adapter and one for a turn of the core, each with a bus
of its own, in any state. Nothing ties the busses of two turns to each other, so a run of a core
here is more than a system could ever do. What a turn does is first split by the state of the core
(`tickCore_cases`), and the lemmas after that say for each state which part of the turn is left
when the bus is forgotten: a core that issues a request waits, accesses the window or sends, and
one that waits for a response waits on or takes what there is.
-/

namespace Manycore

open Simbus Rv64archsem Throwing

namespace Rv64AtomicCore

variable {k : Rv64Hart} {c c' c'' : Rv64AtomicCore}

/-- A turn of the adapter, or one of the core itself. -/
inductive Turn (k : Rv64Hart) : Rv64AtomicCore → Rv64AtomicCore → Prop
  | adapter {σ : Type} (bus : IBus σ) (port memoryPort : BusPortT) (s : σ) {c : Rv64AtomicCore} :
      Turn k c (c.tickMmio bus k port memoryPort s).1
  | core {σ : Type} (bus : IBus σ) (port memoryPort : BusPortT) (s : σ) {s' : σ}
      {c c' : Rv64AtomicCore} (h : c.tickCore bus k port memoryPort s = .ok (c', s')) : Turn k c c'

theorem turns_of_tick {σ : Type} {bus : IBus σ} {port memoryPort : BusPortT} {s s' : σ}
    (h : c.tick bus k port memoryPort s = .ok (c', s')) :
    ∃ c₁, Turn k c c₁ ∧ Turn k c₁ c' :=
  ⟨_, .adapter bus port memoryPort s, .core bus port memoryPort _ h⟩

/-- The states that a core comes to from its construction. -/
inductive Reachable (k : Rv64Hart) : Rv64AtomicCore → Prop
  | construct {mmioDepth : UInt32} {stackTop : UInt64} {c : Rv64AtomicCore}
      (h : construct k mmioDepth stackTop = .ok c) : Reachable k c
  | turn {c c' : Rv64AtomicCore} (h : Reachable k c) (hturn : Turn k c c') : Reachable k c'

theorem reachable_tick {σ : Type} {bus : IBus σ} {port memoryPort : BusPortT} {s s' : σ}
    (hc : Reachable k c) (h : c.tick bus k port memoryPort s = .ok (c', s')) : Reachable k c' := by
  obtain ⟨c₁, h₁, h₂⟩ := turns_of_tick h
  exact (hc.turn h₁).turn h₂

/-- The pending instruction is the one at the program counter, as `fetch` leaves it. -/
def Fetched (c : Rv64AtomicCore) (inst : DecodedInst) (instWord : UInt32) : Prop :=
  c.pending = some ⟨inst, instWord, c.pc, c.pc + 4⟩

theorem Fetched.instruction_eq {inst : DecodedInst} {instWord : UInt32}
    (h : Fetched c inst instWord) : c.instruction = ⟨inst, instWord, c.pc, c.pc + 4⟩ := by
  rw [instruction, h]
  rfl

/-! ## Turns by state

What a core does in its own turn depends on its state alone: one handler for each state.
-/

section TickCore

variable {σ : Type} {bus : IBus σ} {port memoryPort : BusPortT} {s s' : σ}

theorem tickCore_of_finished (h : c.finished = true) :
    tickCore bus k port memoryPort c s = .ok (c, s) :=
  if_pos h

theorem tickCore_of_fetchDecode (h : c.state = .fetchDecode) :
    tickCore bus k port memoryPort c s = .ok (fetchDecode k c.countTick, s) := by
  have h' : c.countTick.state = .fetchDecode := h
  rw [tickCore, if_neg (by simp [finished, halted, faulted, h])]
  simp only [h']

theorem tickCore_of_executeWait (h : c.state = .executeWait) :
    tickCore bus k port memoryPort c s = .ok (advanceExecute k c.countTick, s) := by
  have h' : c.countTick.state = .executeWait := h
  rw [tickCore, if_neg (by simp [finished, halted, faulted, h])]
  simp only [h']

theorem tickCore_of_memoryIssue (h : c.state = .memoryIssue) :
    tickCore bus k port memoryPort c s =
      issueMemoryRequest bus k port memoryPort c.countTick s := by
  have h' : c.countTick.state = .memoryIssue := h
  rw [tickCore, if_neg (by simp [finished, halted, faulted, h])]
  simp only [h']

theorem tickCore_of_memoryWait (h : c.state = .memoryWait) :
    tickCore bus k port memoryPort c s = receiveMemoryResponse bus k port c.countTick s := by
  have h' : c.countTick.state = .memoryWait := h
  rw [tickCore, if_neg (by simp [finished, halted, faulted, h])]
  simp only [h']

theorem tickCore_cases (h : c.tickCore bus k port memoryPort s = .ok (c', s')) :
    c' = c ∨ (c.state = .fetchDecode ∧ c' = fetchDecode k c.countTick) ∨
      (c.state = .executeWait ∧ c' = advanceExecute k c.countTick) ∨
      (c.state = .memoryIssue ∧
        issueMemoryRequest bus k port memoryPort c.countTick s = .ok (c', s')) ∨
      (c.state = .memoryWait ∧
        receiveMemoryResponse bus k port c.countTick s = .ok (c', s')) := by
  cases hstate : c.state with
  | fetchDecode =>
    rw [tickCore_of_fetchDecode hstate] at h
    exact .inr (.inl ⟨rfl, (Prod.mk.inj (Except.ok.inj h)).1.symm⟩)
  | executeWait =>
    rw [tickCore_of_executeWait hstate] at h
    exact .inr (.inr (.inl ⟨rfl, (Prod.mk.inj (Except.ok.inj h)).1.symm⟩))
  | memoryIssue =>
    rw [tickCore_of_memoryIssue hstate] at h
    exact .inr (.inr (.inr (.inl ⟨rfl, h⟩)))
  | memoryWait =>
    rw [tickCore_of_memoryWait hstate] at h
    exact .inr (.inr (.inr (.inr ⟨rfl, h⟩)))
  | halted | faulted =>
    rw [tickCore_of_finished (by simp [finished, halted, faulted, hstate])] at h
    exact .inl (Prod.mk.inj (Except.ok.inj h)).1.symm

/-- In its turn to issue a request a core waits, accesses the control window or sends. -/
theorem issueMemoryRequest_fst
    (h : issueMemoryRequest bus k port memoryPort c s = .ok (c', s')) :
    c' = c.countVectorIssueWait ∨
      (c.vectorIssueLeft = 0 ∧ touchesWindow c.request ∧ c' = recover (accessWindow k c)) ∨
      c' = c.countSerializationWait ∨ c' = c.startRequest.countBlocked ∨
      (touchesWindow c.request = false ∧ c.mmio.busy = false ∧
        c' = { c.startRequest with
          state := .memoryWait
          trace := { c.startRequest.trace with
            transactions := c.startRequest.trace.transactions ++ [c.startRequest.request]
            sent := c.startRequest.trace.sent + 1 } }) := by
  rw [issueMemoryRequest] at h
  by_cases hleft : 0 < c.vectorIssueLeft
  · rw [if_pos hleft] at h
    exact .inl (Prod.mk.inj (Except.ok.inj h)).1.symm
  rw [if_neg hleft] at h
  by_cases hwindow : touchesWindow c.request = true
  · rw [if_pos hwindow] at h
    exact .inr (.inl ⟨by omega, hwindow, (Prod.mk.inj (Except.ok.inj h)).1.symm⟩)
  rw [if_neg hwindow] at h
  by_cases hbusy : c.mmio.busy = true
  · rw [if_pos hbusy] at h
    exact .inr (.inr (.inl (Prod.mk.inj (Except.ok.inj h)).1.symm))
  rw [if_neg hbusy, Except.bind_eq_ok_iff] at h
  obtain ⟨ready, -, h⟩ := h
  by_cases hready : (!ready) = true
  · rw [if_pos hready] at h
    exact .inr (.inr (.inr (.inl (Prod.mk.inj (Except.ok.inj h)).1.symm)))
  rw [if_neg hready, Except.bind_eq_ok_iff] at h
  obtain ⟨letter, -, h⟩ := h
  rw [Except.bind_eq_ok_iff] at h
  obtain ⟨⟨taken, s₁⟩, -, h⟩ := h
  cases taken with
  | false => exact .inr (.inr (.inr (.inl (Prod.mk.inj (Except.ok.inj h)).1.symm)))
  | true =>
    exact .inr (.inr (.inr (.inr ⟨by simpa using hwindow, by simpa using hbusy,
      (Prod.mk.inj (Except.ok.inj h)).1.symm⟩)))

/-- In its turn to receive a response a core waits or takes what the bus has for it. -/
theorem receiveMemoryResponse_fst
    (h : receiveMemoryResponse bus k port c s = .ok (c', s')) :
    c' = c.countMemoryWait ∨ ∃ bytes, c' = recover (takeResponse k c bytes) := by
  rw [receiveMemoryResponse, Except.bind_eq_ok_iff] at h
  obtain ⟨ready, -, h⟩ := h
  by_cases hready : (!ready) = true
  · rw [if_pos hready] at h
    exact .inl (Prod.mk.inj (Except.ok.inj h)).1.symm
  rw [if_neg hready, Except.bind_eq_ok_iff] at h
  obtain ⟨⟨received, s₁⟩, -, h⟩ := h
  cases received with
  | none => exact .inl (Prod.mk.inj (Except.ok.inj h)).1.symm
  | some bytes => exact .inr ⟨bytes, (Prod.mk.inj (Except.ok.inj h)).1.symm⟩

end TickCore

/-- The adapter's turn changes only the adapter, or faults. -/
theorem tickMmio_fst {σ : Type} (bus : IBus σ) (port memoryPort : BusPortT) (s : σ) :
    ∃ mmio, (c.tickMmio bus k port memoryPort s).1 = c.advanceMmio mmio ∨
      ∃ reason, (c.tickMmio bus k port memoryPort s).1 = (c.advanceMmio mmio).fault reason := by
  rw [tickMmio]
  obtain ⟨_ | reason, mmio, s'⟩ := c.mmio.tryTick bus k.hartId port memoryPort s
  · exact ⟨mmio, .inl rfl⟩
  · exact ⟨mmio, .inr ⟨reason, rfl⟩⟩

/-! ## Attempts -/

section Attempts

variable {P : Rv64AtomicCore → Prop} {E : String × Rv64AtomicCore → Prop}

theorem ensures_onThrow {α : Type} {Q : α → Prop} {x : Except String α}
    (herror : ∀ reason, x = .error reason → E (reason, c)) (hok : ∀ a, x = .ok a → Q a) :
    Ensures Q E (onThrow c x) := by
  cases x with
  | ok a => exact hok a rfl
  | error reason => exact herror reason rfl

theorem ensures_onThrow_bind {α : Type} {x : Except String α} {f : α → Attempt}
    (herror : ∀ reason, x = .error reason → E (reason, c))
    (hok : ∀ a, x = .ok a → Ensures P E (f a)) : Ensures P E (onThrow c x >>= f) := by
  cases x with
  | ok a => exact hok a rfl
  | error reason => exact herror reason rfl

/-- A CSR instruction reads, writes its destination and, if there is something to write, writes. -/
theorem executeCsr_ensures
    (hread : ∀ reason, E (reason, c))
    (hkeep : ∀ old, P (c.writeReg c.instruction.decoded.rd old))
    (hwrite : ∀ old new, Ensures P E (onThrow (c.writeReg c.instruction.decoded.rd old)
      (writeCsr k (c.writeReg c.instruction.decoded.rd old)
        (c.instruction.decoded.imm.toUInt64 &&& 0xfff) new))) :
    Ensures P E (executeCsr k c) := by
  refine ensures_onThrow_bind (fun reason _ ↦ hread reason) fun old _ ↦ ?_
  -- what follows is the same for every operation
  have hrest : ∀ result : UInt64 × Bool, True → Ensures P E
      (if result.2 then onThrow (c.writeReg c.instruction.decoded.rd old)
          (writeCsr k (c.writeReg c.instruction.decoded.rd old)
            (c.instruction.decoded.imm.toUInt64 &&& 0xfff) result.1)
        else pure (c.writeReg c.instruction.decoded.rd old)) :=
    fun result _ ↦ Ensures.ite (fun _ ↦ hwrite old result.1) fun _ ↦ hkeep old
  dsimp only
  split
  iterate 6 exact Ensures.bind (P := fun _ ↦ True) trivial hrest
  exact hread _

/-- A write to the host stops the core after the instruction, or it means nothing. -/
theorem handleTohostWrite_cases (k : Rv64Hart) (c : Rv64AtomicCore) (q : MemoryRequest) :
    Ensures (fun result ↦ result = none ∨
        ∃ code reason, result = some (c.commit.stop code reason)) (fun e ↦ e.2 = c)
      (handleTohostWrite k c q) := by
  rw [handleTohostWrite]
  refine Ensures.ite (fun _ ↦ .inl rfl) fun _ ↦ ?_
  cases !(q.data.isEmpty || decide (8 < q.data.length)) with
  | false => exact rfl
  | true =>
    refine Ensures.ite (fun _ ↦ .inl rfl) fun _ ↦ ?_
    exact Ensures.ite (fun _ ↦ .inr ⟨_, _, rfl⟩) fun _ ↦ .inr ⟨_, _, rfl⟩

end Attempts

/-! ## A small core -/

/-- A bus that takes nothing and delivers nothing. -/
def silentBus : IBus Unit where
  canSend := fun _ _ _ ↦ .ok false
  send := fun s _ _ _ _ ↦ .ok (false, s)
  canRecv := fun _ _ _ ↦ .ok false
  recv := fun s _ _ ↦ .ok (none, s)
  applyNextTick := .ok
  recvThrown := fun s _ _ ↦ s

/-- The library with its decoder. -/
def decodingArch : ArchSem :=
  { Rv64ManycoreSystem.smallArch with decode := decode fun _ ↦ none }

/-- A core as it is constructed. -/
def initialCore (k : Rv64Hart) : Rv64AtomicCore := ((construct k 1).toOption).getD {}

/-- The core's turn on that bus, after the adapter's. -/
def tickSilent (k : Rv64Hart) (c : Rv64AtomicCore) : Rv64AtomicCore :=
  ((c.tick silentBus k 0 1 ()).toOption.map Prod.fst).getD c

theorem reachable_initialCore (hissue : k.latency.vectorTransactionIssue ≠ 0) :
    Reachable k (initialCore k) := by
  have hconstruct : construct k 1 = .ok (initialCore k) := by
    rw [initialCore, construct, show (!(k.latency.vectorTransactionIssue == 0)) = true by simpa]
    rfl
  exact .construct hconstruct

theorem reachable_tickSilent (h : Reachable k c) (n : ℕ) : Reachable k ((tickSilent k)^[n] c) := by
  induction n generalizing c with
  | zero => exact h
  | succ n ih =>
    refine ih (c := tickSilent k c) ?_
    rw [tickSilent]
    cases htick : c.tick silentBus k 0 1 () with
    | error reason => exact h
    | ok result => exact reachable_tick h htick

/-- A bus that takes every request, and answers them in order with zeros. -/
def answeringBus : IBus (List MemoryRequest) where
  canSend := fun _ _ _ ↦ .ok true
  send := fun s _ _ _ data ↦ (decodeRequest data).map fun q ↦ (true, s ++ [q])
  canRecv := fun s _ _ ↦ .ok !s.isEmpty
  recv := fun s _ _ ↦ .ok (s.head?.map fun q ↦
    encodeResponse
      { hartId := q.hartId, transactionId := q.transactionId
        data := List.replicate q.size.toNat 0 }, s.tail)
  applyNextTick := .ok
  recvThrown := fun s _ _ ↦ s

/-- The core and this bus after so many ticks. -/
def runAnswered (k : Rv64Hart) : ℕ → Rv64AtomicCore × List MemoryRequest
  | 0 => (initialCore k, [])
  | n + 1 => ((runAnswered k n).1.tick answeringBus k 0 1 (runAnswered k n).2).toOption.getD
      (runAnswered k n)

/-- The tick returns. -/
def returnsAnswered (k : Rv64Hart) (n : ℕ) : Bool :=
  ((runAnswered k n).1.tick answeringBus k 0 1 (runAnswered k n).2).isOk

theorem tick_runAnswered {n : ℕ} (h : returnsAnswered k n = true) :
    (runAnswered k n).1.tick answeringBus k 0 1 (runAnswered k n).2 = .ok
    (runAnswered k (n + 1)) := by
  rw [runAnswered]
  rw [returnsAnswered] at h
  cases hresult : (runAnswered k n).1.tick answeringBus k 0 1 (runAnswered k n).2 with
  | ok result => rfl
  | error reason =>
    rw [hresult] at h
    cases h

theorem reachable_runAnswered (hissue : k.latency.vectorTransactionIssue ≠ 0) {n : ℕ}
    (h : ∀ i < n, returnsAnswered k i = true) : Reachable k (runAnswered k n).1 := by
  induction n with
  | zero => exact reachable_initialCore hissue
  | succ n ih =>
    exact reachable_tick (ih fun i hi ↦ h i (Nat.lt_succ_of_lt hi))
      (tick_runAnswered (h n (Nat.lt_succ_self n)))

end Rv64AtomicCore

/-- A hart with a program of its own. -/
def Rv64Hart.ofWords (words : List UInt32) : Rv64Hart :=
  ⟨Rv64AtomicCore.decodingArch, 0, .fromWords words, {}, none⟩

end Manycore
