import SimbusNoc.Manycore.DecodeExact
import SimbusNoc.Manycore.ProgramConsistency

/-!
# Programs that do not fault

A program is safe when, in every run of the abstract machine, each hart that has not stopped is at
a base instruction that leaves the control window alone. The simulator never faults on a safe
program, whatever the interconnect and the timing, and all that its harts ever fetch are base
instructions.

## What is asked

`CanGoOn` is the condition on a hart of the abstract machine: the word at its program counter is in
the image and encodes a base instruction, a jump through a register is one that the core makes as
it is written, and an access leaves the window alone. `Safe` asks this in all runs. Of the
configuration it is asked that the latencies are such that every base instruction can be timed,
`latency.Serves`. A latency of zero is refused by the core in the middle of a run, and then the
hart faults whatever the program is.

## The proof

By induction over the run of the simulator: as long as all harts have run base instructions, they
are harts of a run of the abstract machine, which is safe, so each can go on; and a core that can
go on does not fault in its next turn. `Follows.runsBase_tick` is this step for a hart, one lemma
for each thing that could throw, and that the response is the right one comes from the account of
the hart.
-/

namespace Manycore

open Simbus Rv64archsem Throwing Threads Interconnect MemoryController AtomicCore

/-! ## What a program may do -/

/-- The byte belongs to the control window of the adapter. -/
def InWindow (address : UInt64) : Prop :=
  MmioBusAdapter.base ≤ address ∧ address < MmioBusAdapter.base + MmioBusAdapter.span

/-- An effect that leaves the control window alone. -/
def Effect.AvoidsWindow : Effect → Prop
  | .goes _ => True
  | .reads address size _ => ∀ i < size, ¬InWindow (address + UInt64.ofNat i)
  | .writes address data _ => ∀ i < data.length, ¬InWindow (address + UInt64.ofNat i)

instance : DecidablePred InWindow := fun _ ↦ inferInstanceAs (Decidable (_ ∧ _))

/-- The hart is at a base instruction that leaves the control window alone, and that the core makes
as it is written. -/
def CanGoOn (p : ProgramImage) (tohost : Option UInt64) (hart : UInt32) (s : HartState) : Prop :=
  ∃ i : Instruction, p.fetch32 s.pc = .ok i.encode ∧ JumpsAsWritten i ∧
    (effect tohost hart s i).AvoidsWindow

/-- The timing of every base instruction is known. -/
def InstructionLatencyConfig.Serves (latency : InstructionLatencyConfig) (arch : ArchSem) : Prop :=
  ∀ (i : Instruction) (vl : ℕ), ∃ n, instructionLatency arch i.decoded latency vl = .ok n

/-- The latencies of instructions other than those of the vector unit. -/
def InstructionLatencyConfig.scalar (latency : InstructionLatencyConfig) : List ℕ :=
  [latency.integerAlu, latency.integerMultiply, latency.integerDivide, latency.branchJump,
    latency.csr, latency.memoryIssue, latency.fence]

theorem exists_defaultLatency {inst : DecodedInst} (h : inst.opcode ≠ .opv)
    (latency : InstructionLatencyConfig) (vl : ℕ) :
    ∃ n ∈ latency.scalar, defaultLatency inst latency vl = .ok n := by
  rw [defaultLatency, if_neg h]
  split
  case h_14 =>
    split_ifs
    · exact ⟨latency.integerDivide, by simp [InstructionLatencyConfig.scalar], rfl⟩
    · exact ⟨latency.integerMultiply, by simp [InstructionLatencyConfig.scalar], rfl⟩
    · exact ⟨latency.integerAlu, by simp [InstructionLatencyConfig.scalar], rfl⟩
  all_goals exact ⟨_, by simp [InstructionLatencyConfig.scalar], rfl⟩

/-- Latencies that are not zero will do, where no instruction has one of its own. -/
theorem InstructionLatencyConfig.serves_of_ne_zero {latency : InstructionLatencyConfig}
    {arch : ArchSem} (hnone : ∀ name, latency.instructions name = none)
    (hne : ∀ n ∈ latency.scalar, n ≠ 0) : latency.Serves arch := by
  intro i vl
  have hopcode : i.decoded.opcode ≠ .opv := by cases i <;> exact OPCode.noConfusion
  obtain ⟨n, hn, heq⟩ := exists_defaultLatency hopcode latency vl
  refine ⟨n, ?_⟩
  rw [instructionLatency, hnone, heq]
  change (require (!(n == 0)) _ >>= fun _ ↦ pure n) = _
  rw [beq_eq_false_iff_ne.mpr (hne n hn)]
  rfl

theorem MemoryRequest.Valid.size_pos {q : MemoryRequest} (h : q.Valid) : 0 < q.size.toNat :=
  Nat.pos_of_ne_zero fun hzero ↦ h.size (UInt16.toNat_inj.mp hzero)

theorem MemoryRequest.Valid.length_of_write {q : MemoryRequest} (h : q.Valid)
    (hop : q.op = MemoryOp.write) : q.data.length = q.size.toNat := by
  rcases h.data with ⟨hread, -⟩ | ⟨-, hlength⟩
  · rw [hread] at hop
    exact absurd hop (by decide)
  · exact hlength

/-- A request that touches the control window has a byte there. -/
theorem exists_inWindow {q : MemoryRequest} (hq : q.Valid)
    (h : Rv64AtomicCore.touchesWindow q = true) :
    ∃ i < q.size.toNat, InWindow (q.address + UInt64.ofNat i) := by
  rw [Rv64AtomicCore.touchesWindow, Bool.and_eq_true, Bool.or_eq_true, decide_eq_true_eq,
    decide_eq_true_eq, decide_eq_true_eq] at h
  obtain ⟨hend, hstart | hstart⟩ := h
  · -- the request starts in the window
    refine ⟨0, hq.size_pos, ?_⟩
    rw [show UInt64.ofNat 0 = 0 from rfl, UInt64.add_zero]
    exact ⟨hstart, hend⟩
  · -- it starts before the window and has its first byte
    refine ⟨(MmioBusAdapter.base - q.address).toNat, ?_, ?_⟩
    · have hlt := UInt64.lt_iff_toNat_lt.mp hstart
      rw [UInt64.toNat_ofNat'] at hlt
      exact hlt.trans_le (Nat.mod_le _ _)
    · rw [UInt64.ofNat_toNat, UInt64.add_comm, UInt64.sub_add_cancel]
      exact ⟨UInt64.le_refl _, by decide +kernel⟩

/-! ## The fetch -/

/-- The low half of an instruction word. -/
theorem fetch16_of_fetch32 {p : ProgramImage} {address : UInt64} {raw : UInt32}
    (h : p.fetch32 address = .ok raw) :
    ∃ low, p.fetch16 address = .ok low ∧ low.toNat % 4 = raw.toNat % 4 := by
  obtain ⟨b0, h0, h⟩ := Except.bind_eq_ok_iff.mp h
  obtain ⟨b1, h1, h⟩ := Except.bind_eq_ok_iff.mp h
  obtain ⟨b2, h2, h⟩ := Except.bind_eq_ok_iff.mp h
  obtain ⟨b3, h3, h⟩ := Except.bind_eq_ok_iff.mp h
  obtain rfl := Except.ok.inj h
  refine ⟨_, Except.bind_eq_ok_iff.mpr ⟨b0, h0, Except.bind_eq_ok_iff.mpr ⟨b1, h1, rfl⟩⟩, ?_⟩
  rw [UInt16.toNat_ofNat', UInt32.toNat_ofNat']
  simp only [leValue]
  omega

theorem encode_low (i : Instruction) : i.encode &&& 0x3 = 0x3 := by
  cases i <;> exact wordOf_low _ _ _ _ _ _ (by decide)

/-! ## What a turn may change

A core at a base instruction that can go on: each thing that could throw in its turn does not, and
what is fetched next is again a base instruction.
-/

/-- Only a fetch adds to what has been fetched, and only an access to the window counts as one. -/
theorem HartCourse.Move.records {k : Rv64Hart} {v v' : HartCourse} (h : HartCourse.Move k v v')
    (hrunning : v'.state ≠ .faulted) : (v.state = .fetchDecode ∨ v'.fetched = v.fetched) ∧
      (v.state = .memoryIssue ∧ v'.state = .fetchDecode ∨
        v'.cycles .windowAccess = v.cycles .windowAccess) := by
  have htick : ∀ cls : CycleClass, cls ≠ .windowAccess →
      (v.tick cls).cycles .windowAccess = v.cycles .windowAccess :=
    fun cls hcls ↦ Function.update_of_ne (Ne.symm hcls) ..
  cases h with
  | rest => exact ⟨.inr rfl, .inr rfl⟩
  | fault h => exact absurd h.state hrunning
  | fetch hstate => exact ⟨.inl hstate, .inr (htick .fetchDecode (by decide))⟩
  | countDown => exact ⟨.inr rfl, .inr (htick .executeWait (by decide))⟩
  | waitFence => exact ⟨.inr rfl, .inr (htick .adapterSerialization (by decide))⟩
  | execute hstate hpending hleft h =>
    obtain ⟨hfetched, hcycles, -⟩ := h.keeps
    exact ⟨.inr hfetched, .inr ((congrFun hcycles _).trans (htick .executeWait (by decide)))⟩
  | waitIssue hstate hcls =>
    refine ⟨.inr rfl, .inr (htick _ ?_)⟩
    rcases hcls with rfl | rfl | rfl <;> decide
  | window hstate => exact ⟨.inr rfl, .inl ⟨hstate, rfl⟩⟩
  | send => exact ⟨.inr rfl, .inr (htick .send (by decide))⟩
  | waitResponse => exact ⟨.inr rfl, .inr (htick .memoryWait (by decide))⟩
  | respond hstate hpending h =>
    obtain ⟨hfetched, hcycles, -⟩ := h.keeps
    exact ⟨.inr hfetched, .inr ((congrFun hcycles _).trans (htick .response (by decide)))⟩

namespace Rv64AtomicCore

variable {k : Rv64Hart} {c c' : Rv64AtomicCore} {first s : HartState}

/-- Outside the states in which instructions are fetched and the window is accessed, a core that
does not fault goes on with base instructions. -/
theorem RunsBase.turn (h : c.RunsBase) (hturn : Turn k c c') (hok : c.course.Ok)
    (hfetch : c.state ≠ .fetchDecode) (hissue : c.state = .memoryIssue → c'.state ≠ .fetchDecode)
    (hrunning : c'.state ≠ .faulted) : c'.RunsBase := by
  obtain ⟨hfetched, hwindow⟩ := (hturn.move hok).records hrunning
  have hsame : c'.trace.fetched = c.trace.fetched := hfetched.resolve_left hfetch
  have hcount : c'.trace.windowAccesses = c.trace.windowAccesses :=
    hwindow.resolve_left fun hboth ↦ hissue hboth.1 hboth.2
  exact ⟨hsame ▸ h.fetched, hcount.trans h.window, hrunning⟩

theorem fetchDecode_of_fetch (harch : k.arch.IsLibrary) (hlatency : k.latency.Serves k.arch)
    {i : Instruction} (hfetch : k.program.fetch32 c.pc = .ok i.encode) :
    (fetchDecode k c).state = .executeWait ∧
      (fetchDecode k c).trace.windowAccesses = c.trace.windowAccesses ∧
      ∃ p vl, (fetchDecode k c).trace.fetched = c.trace.fetched ++ [(p, vl)] ∧
        p.raw = i.encode := by
  obtain ⟨low, hlow, hmod⟩ := fetch16_of_fetch32 hfetch
  obtain ⟨decodeRvc, hdecode⟩ := harch.decode
  obtain ⟨n, hn⟩ := hlatency i c.vectorContext.vl.toNat
  -- the instruction is not a compressed one
  have hlow3 : ¬low &&& 3 ≠ 3 := by
    have hraw := congrArg UInt32.toNat (encode_low i)
    rw [UInt32.toNat_and] at hraw
    rw [not_not]
    apply UInt16.toNat_inj.mp
    rw [UInt16.toNat_and]
    exact (Nat.and_two_pow_sub_one_eq_mod low.toNat 2).trans
      (hmod.trans ((Nat.and_two_pow_sub_one_eq_mod i.encode.toNat 2).symm.trans hraw))
  have hdecoded : k.arch.decode i.encode = some i.decoded := by
    rw [hdecode, Instruction.decode_encode]
  have hresult : fetch k { c with
      stats := { c.stats with fetchDecodeCycles := c.stats.fetchDecodeCycles + 1 } } = .ok
        { c with
          stats := { c.stats with fetchDecodeCycles := c.stats.fetchDecodeCycles + 1 }
          pending := some ⟨i.decoded, i.encode, c.pc, c.pc + 4⟩
          trace := { c.trace with fetched :=
            c.trace.fetched ++ [(⟨i.decoded, i.encode, c.pc, c.pc + 4⟩, c.vectorContext.vl)] }
          cyclesLeft := n
          state := .executeWait } := by
    have hbind : ∀ {α : Type} (c : Rv64AtomicCore) (a : α) (rest : α → Attempt),
        (onThrow c (.ok a) >>= rest) = rest a := fun _ _ _ ↦ rfl
    rw [fetch, hlow, hbind, if_neg hlow3, hfetch, hbind, hdecoded]
    dsimp only
    rw [hn]
    rfl
  rw [fetchDecode, hresult]
  exact ⟨rfl, rfl, _, _, rfl, rfl⟩

private theorem ensures_require {α : Type} {P : α → Prop} {E : String × Rv64AtomicCore → Prop}
    {condition : Bool} {message : String} {f : Unit → Except (String × Rv64AtomicCore) α}
    (hcheck : condition = true) (h : Ensures P E (f ())) :
    Ensures P E (onThrow c (require condition message) >>= f) := by
  rw [hcheck]
  exact h

/-- A request that a core has made itself does not fault the core at its end. -/
private theorem ensures_handleTohostWrite {q : MemoryRequest} (hq : q.Sendable k.hartId)
    (hsize : q.size.toNat ≤ 8) :
    Ensures (fun stopped ↦ ∀ c₁ ∈ stopped, c₁.state ≠ .faulted) (fun _ ↦ False)
      (handleTohostWrite k c q) := by
  rw [handleTohostWrite]
  refine Ensures.ite (fun _ ↦ by rintro c₁ ⟨⟩) fun hother ↦ ?_
  have hlength := hq.valid.length_of_write (not_not.mp (not_or.mp hother).2)
  refine ensures_require ?_ ?_
  · -- the core prepares stores of one to eight bytes
    rw [Bool.not_eq_true', Bool.or_eq_false_iff, decide_eq_false_iff_not, hlength, not_lt]
    refine ⟨?_, hsize⟩
    rw [List.isEmpty_eq_false_iff, ← List.length_pos_iff, hlength]
    exact hq.valid.size_pos
  · have hstop : ∀ code reason, ∀ c₁ ∈ some (c.commit.stop code reason), c₁.state ≠ .faulted := by
      intro code reason c₁ hc₁
      obtain rfl := Option.some.inj hc₁
      exact Rv64CoreState.noConfusion
    refine Ensures.ite (fun _ ↦ by rintro c₁ ⟨⟩) fun _ ↦ Ensures.ite (fun _ ↦ ?_) fun _ ↦ ?_
    · exact hstop _ _
    · exact hstop _ _

/-- The end of a scalar request, whether it stops the core or not. -/
private theorem ensures_end {q : MemoryRequest} (hq : q.Sendable k.hartId)
    (hsize : q.size.toNat ≤ 8) {rest : Option Rv64AtomicCore → Attempt}
    (hnone : rest none = .ok c.commit) (hsome : ∀ c₁, rest (some c₁) = .ok c₁) :
    Ensures (fun c' ↦ c'.state ≠ .faulted) (fun _ ↦ False) (handleTohostWrite k c q >>= rest) := by
  refine (ensures_handleTohostWrite hq hsize).bind fun stopped hstopped ↦ ?_
  cases stopped with
  | none =>
    rw [hnone]
    exact Rv64CoreState.noConfusion
  | some c₁ =>
    rw [hsome]
    exact hstopped c₁ rfl

/-- The answer to a scalar request does not fault the core that waits for it. -/
theorem takeResponse_of_answers {bytes : Bytes} {q : MemoryRequest} {r : MemoryResponse}
    (hrequest : c.memoryRequest = some q) (hinactive : c.vectorMemoryActive = false)
    (hq : q.Sendable k.hartId) (hsize : q.size.toNat ≤ 8) (hdecode : decodeResponse bytes = .ok r)
    (hanswers : Answers q r) : (recover (takeResponse k c bytes)).state ≠ .faulted := by
  have hspec : Ensures (fun c' ↦ c'.state ≠ .faulted) (fun _ ↦ False) (takeResponse k c bytes) := by
    refine ensures_onThrow_bind (fun reason herror ↦ ?_) fun r' hr' ↦ ?_
    · rw [hdecode] at herror
      cases herror
    obtain rfl := Except.ok.inj (hr'.symm.trans hdecode)
    rw [hrequest]
    refine ensures_require ?_ (ensures_require ?_ ?_)
    -- memory answers with the name of the request, and with success
    · rw [hanswers.hartId, hanswers.transactionId, hq.hartId, beq_self_eq_true, beq_self_eq_true]
      rfl
    · rw [hanswers.status hq.valid, beq_self_eq_true]
    dsimp only
    have hactive : c.recordLatency.vectorMemoryActive = false := by
      rw [recordLatency]
      split <;> exact hinactive
    rw [if_neg (by rw [hactive]; decide)]
    refine Ensures.ite (fun hop ↦ ?_) fun _ ↦ ensures_end hq hsize rfl fun _ ↦ rfl
    have hlength := hanswers.length_of_read hq.valid hop
    rw [takeScalarData]
    refine Ensures.bind (P := fun _ ↦ True) (ensures_require ?_ trivial) fun c₁ _ ↦
      ensures_end hq hsize rfl fun _ ↦ rfl
    rw [hlength, beq_self_eq_true, Bool.not_true, Bool.false_or, Bool.not_eq_true',
      decide_eq_false_iff_not]
    omega
  cases hresult : takeResponse k c bytes with
  | ok c' => exact hspec.of_eq_ok hresult
  | error e => exact (hspec.of_eq_error hresult).elim

theorem construct_runsBase {mmioDepth : UInt32} {stackTop : UInt64}
    (h : construct k mmioDepth stackTop = .ok c) : c.RunsBase := by
  obtain ⟨_, -, h⟩ := Except.bind_eq_ok_iff.mp h
  obtain ⟨_, -, h⟩ := Except.bind_eq_ok_iff.mp h
  obtain rfl := Except.ok.inj h
  exact ⟨fun f hf ↦ (List.not_mem_nil hf).elim, rfl, Rv64CoreState.noConfusion⟩

theorem Follows.running (h : Follows k first s c) : c.state ≠ .faulted := by
  have hne : ∀ {st : Rv64CoreState}, c.state = st → st ≠ .faulted → c.state ≠ .faulted :=
    fun h hst ↦ h ▸ hst
  cases h.phase with
  | between hstate => rcases hstate with h | h <;> exact hne h (by decide)
  | execute hstate => exact hne hstate (by decide)
  | load hstate => rcases hstate with h | h <;> exact hne h (by decide)
  | store hstate => rcases hstate with h | h <;> exact hne h (by decide)

/-- The access that a core is about to make leaves the window alone, if its instruction does. -/
theorem Follows.avoidsWindow (h : Follows k first s c) (hstate : c.state = .memoryIssue)
    (hgo : CanGoOn k.program k.tohostAddress k.hartId s) {q : MemoryRequest}
    (hrequest : c.memoryRequest = some q) (hq : q.Valid) : touchesWindow q = false := by
  have hne : c.programView.state = .memoryIssue := hstate
  obtain ⟨i, hfetch, -, havoids⟩ := hgo
  -- the instruction that is safe is the one that the core has fetched
  have hsame : ∀ {j : Instruction}, c.programView.Fetched k.program s j → i = j :=
    fun hfetched ↦ Instruction.encode_injective (Except.ok.inj (hfetch.symm.trans hfetched.fetch))
  refine Bool.eq_false_of_not_eq_true fun htouches ↦ ?_
  obtain ⟨n, hn, hin⟩ := exists_inWindow hq htouches
  cases h.phase with
  | between hother => rcases hother with hother | hother <;> cases hne.symm.trans hother
  | execute hother => cases hne.symm.trans hother
  | load _ hfetched hrequest' hop haddress hsize =>
    obtain rfl := Option.some.inj (hrequest.symm.trans hrequest')
    obtain rfl := hsame hfetched
    rw [effect, ← haddress] at havoids
    exact havoids n (hsize ▸ hn) hin
  | store _ hfetched hrequest' hop haddress hdata =>
    obtain rfl := Option.some.inj (hrequest.symm.trans hrequest')
    obtain rfl := hsame hfetched
    rw [effect, ← haddress, ← hdata] at havoids
    exact havoids n (hq.length_of_write hop ▸ hn) hin

section Tick

variable {σ : Type} {bus : IBus σ} {port memoryPort : BusPortT} {t t' : σ}

/-- What the core receives is the answer to its request. -/
def Awaits (bus : IBus σ) (port : BusPortT) (t : σ) (c : Rv64AtomicCore) : Prop :=
  c.state = .memoryWait → ∀ bytes t', bus.recv t port responseChannel = .ok (some bytes, t') →
    ∃ q r, c.memoryRequest = some q ∧ decodeResponse bytes = .ok r ∧ Answers q r

/-- A core at a base instruction that leaves the window alone goes on without a fault. -/
theorem Follows.runsBase_tickCore (harch : k.arch.IsLibrary) (hlatency : k.latency.Serves k.arch)
    (h : Follows k first s c) (hc : Reachable k c) (hbase : c.RunsBase)
    (hstaged : c.state = .memoryIssue ∨ c.state = .memoryWait → ∃ q, c.memoryRequest = some q ∧
      q.Sendable k.hartId ∧ q.size.toNat ≤ 8)
    (hgo : c.state ≠ .memoryWait → s.exit = none →
      CanGoOn k.program k.tohostAddress k.hartId s) (hawaits : Awaits bus port t c)
    (htick : tickCore bus k port memoryPort c t = .ok (c', t')) : c'.RunsBase := by
  have hturn := hbase.turn (.core bus port memoryPort t htick) hc.course_ok
  have hready : c.state = .fetchDecode ∨ c.state = .memoryIssue →
      CanGoOn k.program k.tohostAddress k.hartId s := by
    intro hstate
    refine hgo ?_ (h.exit_eq_none ?_) <;> rcases hstate with hstate | hstate <;> rw [hstate] <;>
      decide
  -- By the state of the core. Only a fetch and an access to the window could end the run of base
  -- instructions without a fault.
  rcases tickCore_cases htick with rfl | ⟨hstate, rfl⟩ | ⟨hstate, rfl⟩ | ⟨hstate, hissue⟩ |
    ⟨hstate, hreceive⟩
  · exact hbase
  · -- the instruction that is fetched is the one that the hart is at
    obtain ⟨i, hfetch, hjump, -⟩ := hready (.inl hstate)
    have hpc : c.countTick.pc = s.pc := h.pc
    obtain ⟨hstate', hwindow, p, vl, hfetched, hraw⟩ :=
      fetchDecode_of_fetch (c := c.countTick) harch hlatency (hpc ▸ hfetch)
    refine ⟨fun f hf ↦ ?_, hwindow.trans hbase.window, by rw [hstate']; decide⟩
    rw [hfetched, List.mem_append, List.mem_singleton] at hf
    rcases hf with hf | rfl
    · exact hbase.fetched f hf
    · exact ⟨i, hjump, hraw⟩
  · -- a core that goes on with a run has not faulted
    obtain ⟨s', hs', -⟩ := Follows.advanceExecute (c := c.countTick) harch h hstate
    exact hturn (by rw [hstate]; decide) (fun hother ↦ by rw [hstate] at hother; cases hother)
      hs'.running
  · obtain ⟨q, hrequest, hq, -⟩ := hstaged (.inl hstate)
    have havoids := h.avoidsWindow hstate (hready (.inr hstate)) hrequest hq.valid
    have hstays : ∀ st, c'.state = st → st ≠ .fetchDecode → st ≠ .faulted → c'.RunsBase :=
      fun st hst hfetch hrunning ↦ hturn (by rw [hstate]; decide) (fun _ ↦ hst ▸ hfetch)
        (hst ▸ hrunning)
    rcases issueMemoryRequest_fst hissue with rfl | ⟨-, hwindow, rfl⟩ | rfl | rfl | ⟨-, -, rfl⟩
    · exact hstays _ hstate (by decide) (by decide)
    · -- the control window is not accessed
      have : c.countTick.request = q := by
        rw [request, show c.countTick.memoryRequest = some q from hrequest, Option.getD_some]
      rw [this, havoids] at hwindow
      cases hwindow
    · exact hstays _ hstate (by decide) (by decide)
    · have hview := congrArg ProgramView.state (programView_startRequest c.countTick)
      exact hstays _ (hview.trans hstate) (by decide) (by decide)
    · exact hstays .memoryWait rfl (by decide) (by decide)
  · obtain ⟨q, hrequest, hq, hsize⟩ := hstaged (.inr hstate)
    refine hturn (by rw [hstate]; decide) (fun hother ↦ by rw [hstate] at hother; cases hother) ?_
    rcases receiveMemoryResponse_cases hreceive with ⟨hview, -⟩ | ⟨bytes, hrecv, rfl⟩
    · rw [show c'.state = .memoryWait from (congrArg HartView.state hview).trans hstate]
      decide
    · obtain ⟨q', r, hrequest', hdecode, hanswers⟩ := hawaits hstate bytes _ hrecv
      obtain rfl := Option.some.inj (hrequest.symm.trans hrequest')
      exact takeResponse_of_answers (c := c.countTick) hrequest h.inactive hq hsize hdecode hanswers

/-- The turn of the adapter is over at once, and then the core has its turn. -/
theorem Follows.runsBase_tick (harch : k.arch.IsLibrary) (hlatency : k.latency.Serves k.arch)
    (h : Follows k first s c) (hc : Reachable k c) (hok : c.view.Ok k.hartId) (hbase : c.RunsBase)
    (hgo : c.state ≠ .memoryWait → s.exit = none →
      CanGoOn k.program k.tohostAddress k.hartId s) (hawaits : Awaits bus port t c)
    (htick : c.tick bus k port memoryPort t = .ok (c', t')) : c'.RunsBase := by
  have hrequests : c.mmio.requests = [] := congrArg Prod.fst h.adapter
  have hidle : Rv64AtomicCore.tickMmio bus k port memoryPort c t =
      (c.advanceMmio { c.mmio with clock := c.mmio.clock + 1 }, t) := by
    rw [Rv64AtomicCore.tickMmio, MmioBusAdapter.tryTick_of_idle bus port memoryPort t hrequests]
  have hview := h.tickMmio bus port memoryPort t
  have hreachable := hc.turn (.adapter bus port memoryPort t)
  rw [Rv64AtomicCore.tick, hidle] at htick
  rw [hidle] at hview hreachable
  refine (h.congr hview).runsBase_tickCore harch hlatency hreachable
    ⟨hbase.fetched, hbase.window, hbase.running⟩ (fun hstate ↦ ?_) hgo hawaits htick
  obtain ⟨q, hq⟩ := hok.staged hstate
  exact ⟨q, hq.request, hq.sendable, hq.scalar h.inactive⟩

end Tick

end Rv64AtomicCore

/-! ## Safe programs -/

namespace Rv64ManycoreSystem

variable {m : Rv64ManycoreSystem} {s s' : Rv64SystemState} {i : ℕ}

/-- In every run of the machine that the program is written for, each hart that has not stopped can
go on. -/
def Safe (m : Rv64ManycoreSystem) : Prop :=
  ∀ (trace : List (Fin m.coreCount × MemoryAccess)) (S : Fin m.coreCount → HartState)
    (memory : ByteMemory),
    Run (fun i : Fin m.coreCount ↦ m.hartStep i) MemoryAccess.Allowed
      (fun i ↦ m.firstState i, ByteMemory.zero) trace (S, memory) →
    ∀ i : Fin m.coreCount, (S i).exit = none →
      CanGoOn m.program m.config.tohostAddress (m.hart i).hartId (S i)

/-- What a hart receives is the answer to its request. -/
theorem InAccount.awaits (h : m.InAccount s) (hi : i < m.coreCount)
    (hrunning : (s.cores i).state ≠ .faulted) :
    (s.cores i).Awaits interface i s.bus := by
  intro hstate bytes x' hrecv
  obtain ⟨t, hcarried, -, hcores⟩ := h
  have haccount := (hcores i hi).2.resolve_left hrunning
  obtain ⟨before, r, after, harrives, hdecode, -⟩ :=
    @Carried.arrives _ still _ _ _ (reliable_steady m.coreCount) _ _ (m.toNat_hartId hi) _ _ _
      hcarried _ hrecv
  have hr : r ∈ (t.responses ++ s.memoryController.response.toList).filter
      (toHart (m.hart i).hartId) := by
    rw [filter_responses harrives.split harrives.hartId]
    exact List.mem_append_right _ List.mem_cons_self
  obtain ⟨q, hrequest, hanswers, -, -⟩ := haccount.awaited hstate hr
  exact ⟨q, r, hrequest, hdecode, hanswers⟩

variable {arch : ArchSem} {ord : HashOrder} {program : ProgramImage} {config : Rv64ManycoreConfig}
  {latency : InstructionLatencyConfig} {s₀ : Rv64SystemState}

/-- A hart that has only run base instructions can go on, where the program is safe. -/
theorem Safe.canGoOn (hsafe : m.Safe) (h : construct arch ord program config latency = .ok (m, s₀))
    (harch : arch.IsLibrary) {k : ℕ} (hs : m.ticks k s₀ = .ok s)
    (hbase : ∀ i < m.coreCount, (s.cores i).RunsBase) (hi : i < m.coreCount) {t : HartState}
    (hshows : (s.cores i).Shows t) (hstate : (s.cores i).state ≠ .memoryWait)
    (hexit : t.exit = none) :
    CanGoOn m.program m.config.tohostAddress (m.hart i).hartId t := by
  obtain ⟨trace, S, haccepts, hpaths, hreaches, -⟩ := exists_trace rfl h harch hs hbase
  have hreach : (s.cores i).Shows (S ⟨i, hi⟩) :=
    (hreaches ⟨i, hi⟩).resolve_right fun hwait ↦ hstate hwait.1
  obtain rfl : t = S ⟨i, hi⟩ := by
    apply HartState.ext
    · exact hshows.pc.symm.trans hreach.pc
    · exact hshows.x.symm.trans hreach.x
    · exact hshows.retired.symm.trans hreach.retired
    · exact hshows.exit.trans hreach.exit.symm
  exact hsafe _ _ _ (run_of_paths haccepts hpaths) ⟨i, hi⟩ hexit

/-- All harts run base instructions all the time, where the program is safe. -/
theorem Safe.runsBase (hsafe : m.Safe) (h : construct arch ord program config latency = .ok (m, s₀))
    (harch : arch.IsLibrary) (hlatency : latency.Serves arch) {k : ℕ} (hs : m.ticks k s₀ = .ok s) :
    ∀ i < m.coreCount, (s.cores i).RunsBase := by
  obtain ⟨hm, hbuilt⟩ := construct_eq_ok h
  induction k generalizing s with
  | zero =>
    obtain rfl := Except.ok.inj hs
    exact fun i hi ↦ Rv64AtomicCore.construct_runsBase (hbuilt.cores i hi)
  | succ k ih =>
    obtain ⟨s₁, hs₁, htick⟩ := Except.bind_eq_ok_iff.mp hs
    have hbefore := ih hs₁
    have hfollowing := following_ticks h harch hs₁
    intro i hi
    -- the turn of hart `i`, before which it is as it was before the tick
    obtain ⟨s₂, s₃, hduring, hcore, hsame, hafter⟩ := exists_turn_of_tick htick hi
    obtain ⟨x', hturn⟩ := tick_of_tickCore hcore
    have haccounts := hfollowing.accounts.during hi.le hduring
    have hawaits := haccounts.awaits hi (by rw [hsame]; exact (hbefore i hi).running)
    obtain ⟨_, -, -, hcores⟩ := haccounts
    have hok := (hcores i hi).1
    rw [hsame] at hturn hawaits hok
    obtain ⟨⟨t, ht⟩, -⟩ := hfollowing.harts i hi (hbefore i hi)
    rw [hafter]
    exact ht.runsBase_tick (by rwa [hm]) (by rwa [hm]) (hfollowing.reachable i hi) hok
      (hbefore i hi) (fun hstate hexit ↦
        hsafe.canGoOn h harch hs₁ hbefore hi ht.shows hstate hexit) hawaits hturn

/-- No hart faults on a safe program, and none of them fetches anything but base instructions. -/
theorem never_faults (h : construct arch ord program config latency = .ok (m, s₀))
    (harch : arch.IsLibrary) (hlatency : latency.Serves arch) (hsafe : m.Safe) {k : ℕ}
    (hs : m.ticks k s₀ = .ok s) :
    m.faulted s = false ∧ ∀ i < m.coreCount, (s.cores i).RunsBase := by
  have hall := hsafe.runsBase h harch hlatency hs
  exact ⟨faulted_eq_false_iff.mpr fun i hi ↦ (hall i hi).running, hall⟩

/-! ## A small system -/

/-- The image of the stack program. -/
def stackProgram : ProgramImage := .fromWords (stackInstructions.map Instruction.encode)

/-- A hart is at one of the instructions of the stack program, with its stack where it was. -/
def InStackProgram (i : ℕ) (s : HartState) : Prop :=
  s.x 2 = 0x88000000 - UInt64.ofNat i * 0x10000 ∧ ∃ n : Fin stackInstructions.length,
    s.pc = 0x80000000 + 4 * UInt64.ofNat n ∧ s.retired.length = n

theorem eq_of_lt_stackInstructions {n : ℕ} (h : n < stackInstructions.length) :
    n = 0 ∨ n = 1 ∨ n = 2 ∨ n = 3 := by
  change n < 4 at h
  omega

theorem fetch_stackProgram : ∀ n : Fin stackInstructions.length,
    stackProgram.fetch32 (0x80000000 + 4 * UInt64.ofNat n) =
      .ok (stackInstructions.get n).encode := by
  decide +kernel

theorem InStackProgram.step {hart : UInt32} {t t' : HartState} {access : Option MemoryAccess}
    (h : InStackProgram i t) (hstep : HartStep stackProgram none hart t access t') :
    InStackProgram i t' := by
  obtain ⟨hstack, ⟨n, hn⟩, hpc, hretired⟩ := h
  obtain ⟨-, j, hfetch, htakes⟩ := hstep
  obtain rfl : j = stackInstructions.get ⟨n, hn⟩ :=
    Instruction.encode_injective
      (Except.ok.inj (hfetch.symm.trans (hpc ▸ fetch_stackProgram ⟨n, hn⟩)))
  have hnext : ∀ {rd : Fin 32} {value : UInt64}, rd ≠ 2 → n + 1 < stackInstructions.length →
      InStackProgram i (t.write rd value).next := by
    intro rd value hrd hn'
    refine ⟨?_, ⟨n + 1, hn'⟩, ?_, ?_⟩
    · change (t.write rd value).x 2 = _
      rw [HartState.write_x]
      split
      · exact hstack
      · rw [Function.update_of_ne (Ne.symm hrd), hstack]
    · change t.pc + 4 = _
      rw [hpc, UInt64.ofNat_add, UInt64.mul_add, UInt64.add_assoc]
      rfl
    · change (t.retired ++ [t.pc]).length = _
      rw [List.length_append, hretired]
      rfl
  rcases eq_of_lt_stackInstructions hn with rfl | rfl | rfl | rfl
  · cases htakes
    exact hnext (by decide) (by decide)
  · cases htakes
    -- a store is like a write to register 0
    exact @hnext 0 0 (by decide) (by decide)
  · obtain ⟨data, -, -, rfl⟩ := takes_reads_iff.mp htakes
    exact hnext (by decide) (by decide)
  · cases htakes
    exact ⟨hstack, ⟨3, hn⟩, hpc, hretired⟩

theorem InStackProgram.canGoOn {hart : UInt32} {t : HartState} (hi : i < 2)
    (h : InStackProgram i t) : CanGoOn stackProgram none hart t := by
  obtain ⟨hstack, n, hpc, -⟩ := h
  have havoids : ∀ j < 8, ¬InWindow (t.x 2 + immediate (0 : BitVec 12) + UInt64.ofNat j) := by
    rw [hstack]
    obtain rfl | rfl : i = 0 ∨ i = 1 := by omega
    · decide +kernel
    · decide +kernel
  refine ⟨stackInstructions.get n, hpc ▸ fetch_stackProgram n, ?_⟩
  obtain ⟨n, hn⟩ := n
  rcases eq_of_lt_stackInstructions hn with rfl | rfl | rfl | rfl
  · exact ⟨trivial, trivial⟩
  · refine ⟨trivial, fun j hj ↦ havoids j ?_⟩
    rwa [length_appendLe] at hj
  · exact ⟨trivial, havoids⟩
  · exact ⟨trivial, trivial⟩

/-- What is made of the stack program. -/
def stackSystem (sharedBus : Bool) : Except String (Rv64ManycoreSystem × Rv64SystemState) :=
  construct Rv64AtomicCore.libraryArch .insertion stackProgram (stackConfig sharedBus) {}

theorem exists_stackSystem (sharedBus : Bool) : ∃ m s₀, stackSystem sharedBus = .ok (m, s₀) := by
  have hok : (stackSystem sharedBus).isOk = true := by
    cases sharedBus <;> decide +kernel
  cases h : stackSystem sharedBus with
  | error reason =>
    rw [h] at hok
    cases hok
  | ok system => exact ⟨system.1, system.2, rfl⟩

variable {sharedBus : Bool}

theorem stackSystem_parts (h : stackSystem sharedBus = .ok (m, s₀)) :
    m.program = stackProgram ∧ m.config.tohostAddress = none ∧ m.coreCount = 2 := by
  obtain ⟨hm, -⟩ := construct_eq_ok h
  rw [hm]
  exact ⟨rfl, rfl, rfl⟩

theorem inStackProgram_of_run (h : stackSystem sharedBus = .ok (m, s₀))
    {trace : List (Fin m.coreCount × MemoryAccess)} {S : Fin m.coreCount → HartState}
    {memory : ByteMemory}
    (hrun : Run (fun i : Fin m.coreCount ↦ m.hartStep i) MemoryAccess.Allowed
      (fun i ↦ m.firstState i, ByteMemory.zero) trace (S, memory)) (i : Fin m.coreCount) :
    InStackProgram i (S i) := by
  obtain ⟨hprogram, htohost, -⟩ := stackSystem_parts h
  refine hrun.keeps (P := fun i : Fin m.coreCount ↦ InStackProgram i) (fun i ↦ ?_) ?_ i
  · rw [firstState, m.toNat_hartId i.isLt, hprogram]
    exact ⟨rfl, ⟨0, by decide⟩, rfl, rfl⟩
  · intro i t access t' ht hstep
    rw [hartStep, hprogram, htohost] at hstep
    exact ht.step hstep

theorem safe_stackProgram (h : stackSystem sharedBus = .ok (m, s₀)) : m.Safe := by
  intro trace S memory hrun i hexit
  have hin := inStackProgram_of_run h hrun i
  obtain ⟨hprogram, htohost, hcount⟩ := stackSystem_parts h
  rw [hprogram, htohost]
  exact hin.canGoOn (hcount ▸ i.isLt)

theorem serves_default (arch : ArchSem) : ({} : InstructionLatencyConfig).Serves arch :=
  InstructionLatencyConfig.serves_of_ne_zero (fun _ ↦ rfl) (by decide)

theorem never_faults_small : ∃ m s₀, stackSystem false = .ok (m, s₀) ∧
    ∀ k s, m.ticks k s₀ = .ok s →
      m.faulted s = false ∧ ∀ i < m.coreCount, (s.cores i).RunsBase := by
  obtain ⟨m, s₀, h⟩ := exists_stackSystem false
  exact ⟨m, s₀, h, fun k s hs ↦ never_faults h Rv64AtomicCore.isLibrary_libraryArch
    (serves_default _) (safe_stackProgram h) hs⟩

end Rv64ManycoreSystem

end Manycore
