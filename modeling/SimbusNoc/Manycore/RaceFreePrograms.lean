import SimbusNoc.Library.RaceFree
import SimbusNoc.Manycore.DecodeExact
import SimbusNoc.Manycore.ProgramConsistency

/-!
# Programs whose results do not depend on timing

When no hart reads or writes a byte that another hart writes, the interconnect, the latencies and
the sizes of queues have no influence on what a program computes. The instructions that each hart
has committed, its registers, the code it stops with, its accesses to memory in order with their
data, and memory are the same whenever the program comes to its end. It is enough that there is no
such race in one run, for then no run has one.

## The argument

The two simulations may differ in everything but the program, so nothing in them can be compared
turn by turn. But each is a run of the abstract machine that has come to its end, and what is
compared can be read off this run. There the general theorem on threads that do not race applies:
`partOf` is the part of memory that a hart accesses, and `determined_hartStep` says that a hart
that finds the same bytes in its part takes the same step.

## The conditions

Both simulations have run base instructions only, in the sense of `RunsBase`: without accesses to
the control window, which read the clock of the adapter, and with the jumps that the core makes as
they are written. `RaceFree` is asked of one of the two. It is a statement about the accesses that
were made, and decidable.
-/

namespace Manycore

open Simbus Rv64archsem Sequential MemoryController Threads

/-! ## The bytes of an access -/

namespace MemoryAccess

/-- The addresses that an access is about. -/
def bytes : MemoryAccess → List UInt64
  | .read address data | .write address data =>
    (List.range data.length).map fun i ↦ address + UInt64.ofNat i

/-- The addresses that an access can change. -/
def written : MemoryAccess → List UInt64
  | .read _ _ => []
  | .write address data => bytes (.write address data)

end MemoryAccess

@[simp] theorem ByteMemory.length_load (m : ByteMemory) (address : UInt64) (size : ℕ) :
    (m.load address size).length = size := by
  rw [ByteMemory.load, List.length_map, List.length_range]

theorem ByteMemory.load_congr {m n : ByteMemory} {address : UInt64} {size : ℕ}
    (h : ∀ i < size, m (address + UInt64.ofNat i) = n (address + UInt64.ofNat i)) :
    m.load address size = n.load address size :=
  List.map_congr_left fun i hi ↦ h i (List.mem_range.mp hi)

/-- A store leaves the bytes that it is not about. -/
theorem ByteMemory.store_of_not_mem (m : ByteMemory) {address x : UInt64} {data : Bytes}
    (hx : x ∉ MemoryAccess.bytes (.write address data)) : m.store address data x = m x := by
  have hle : data.length ≤ (x - address).toNat := by
    refine Nat.le_of_not_lt fun hlt ↦ hx (List.mem_map.mpr ⟨_, List.mem_range.mpr hlt, ?_⟩)
    rw [UInt64.ofNat_toNat, UInt64.add_comm, UInt64.sub_add_cancel]
  rw [ByteMemory.store, List.getElem?_eq_none_iff.mpr hle]
  rfl

section Allowed

variable {m m' : ByteMemory} {address x : UInt64} {data : Bytes} {a : MemoryAccess}

theorem allowed_read_iff : MemoryAccess.Allowed m (.read address data) m' ↔
    data = m.load address data.length ∧ m' = m := by
  constructor
  · intro h
    generalize ha : MemoryAccess.read address data = a at h
    cases h with
    | read address size =>
      obtain ⟨rfl, rfl⟩ := MemoryAccess.read.inj ha
      exact ⟨by rw [m.length_load], rfl⟩
    | write => cases ha
  · rintro ⟨hdata, rfl⟩
    rw [hdata]
    exact .read m' address _

theorem allowed_write_iff : MemoryAccess.Allowed m (.write address data) m' ↔
    m' = m.store address data := by
  constructor
  · intro h
    cases h
    rfl
  · rintro rfl
    exact .write m address data

/-- An access changes nothing but what it writes. -/
theorem MemoryAccess.Allowed.unchanged (h : Allowed m a m') (hx : x ∉ a.written) : m' x = m x := by
  cases a with
  | read address data => rw [(allowed_read_iff.mp h).2]
  | write address data =>
    rw [allowed_write_iff.mp h]
    exact m.store_of_not_mem hx

theorem unchanged_of_accepts {l : List MemoryAccess} (h : Accepts MemoryAccess.Allowed m l m')
    (hx : ∀ a ∈ l, x ∉ a.written) : m' x = m x := by
  induction l generalizing m with
  | nil => rw [show m' = m from h]
  | cons a l ih =>
    obtain ⟨m₁, ha, hrest⟩ := h
    rw [ih hrest fun b hb ↦ hx b (List.mem_cons_of_mem a hb),
      ha.unchanged (hx a List.mem_cons_self)]

end Allowed

/-! ## The part of a hart

The part of a hart is memory on the bytes that it accesses in the run. Others do not write there,
and nobody reads there what this hart writes.
-/

section Parts

variable {ι : Type} (accesses : ι → List MemoryAccess)

/-- The bytes that a hart accesses. -/
def touched (i : ι) : Set UInt64 := {x | ∃ a ∈ accesses i, x ∈ a.bytes}

/-- Two memories have the same bytes where a hart accesses them. -/
def partOf (i : ι) : Setoid ByteMemory where
  r m n := ∀ x ∈ touched accesses i, m x = n x
  iseqv := ⟨fun _ _ _ ↦ rfl, fun h x hx ↦ (h x hx).symm, fun h h' x hx ↦ (h x hx).trans (h' x hx)⟩

/-- An access of hart `i` that is no race. -/
def Keeps (i : ι) (a : MemoryAccess) : Prop :=
  (∀ x ∈ a.bytes, x ∈ touched accesses i) ∧ ∀ j ≠ i, ∀ x ∈ a.written, x ∉ touched accesses j

theorem load_of_partOf {i : ι} {m n : ByteMemory} {address : UInt64} {data : Bytes}
    (hkeeps : Keeps accesses i (.read address data)) (hpart : partOf accesses i m n) :
    m.load address data.length = n.load address data.length :=
  ByteMemory.load_congr fun _ hk ↦
    hpart _ (hkeeps.1 _ (List.mem_map_of_mem (List.mem_range.mpr hk)))

theorem parts_memory : Parts MemoryAccess.Allowed (partOf accesses) (Keeps accesses) where
  possible := by
    intro i a m m' n hkeeps hpart hallowed
    cases a with
    | read address data =>
      obtain ⟨hdata, -⟩ := allowed_read_iff.mp hallowed
      exact ⟨n, allowed_read_iff.mpr ⟨hdata.trans (load_of_partOf accesses hkeeps hpart), rfl⟩⟩
    | write address data => exact ⟨_, .write n address data⟩
  same := by
    intro i a m m' n n' hkeeps hpart hallowed hallowed' x hx
    cases a with
    | read address data =>
      rw [(allowed_read_iff.mp hallowed).2, (allowed_read_iff.mp hallowed').2]
      exact hpart x hx
    | write address data =>
      rw [allowed_write_iff.mp hallowed, allowed_write_iff.mp hallowed', ByteMemory.store,
        ByteMemory.store, hpart x hx]
  other := fun hkeeps hne hallowed x hx ↦
    hallowed.unchanged fun hwritten ↦ hkeeps.2 _ (Ne.symm hne) x hwritten hx

/-- The steps of harts are determined by the bytes that they access. -/
theorem determined_hartStep (p : ProgramImage) (tohost : Option UInt64) (hart : ι → UInt32) :
    Determined (fun i ↦ HartStep p tohost (hart i)) MemoryAccess.Allowed (partOf accesses)
      (Keeps accesses) := by
  -- both steps execute the instruction at the program counter
  have hsame : ∀ {i : ι} {s s' s'' : HartState} {o o' : Option MemoryAccess},
      HartStep p tohost (hart i) s o s' → HartStep p tohost (hart i) s o' s'' →
        ∃ e : Effect, e.Takes o s' ∧ e.Takes o' s'' := by
    rintro i s s' s'' o o' ⟨-, instruction, hfetch, htakes⟩ ⟨-, instruction', hfetch', htakes'⟩
    obtain rfl := Instruction.encode_injective (Except.ok.inj (hfetch.symm.trans hfetch'))
    exact ⟨_, htakes, htakes'⟩
  constructor
  case silent =>
    intro i s s' s'' h h'
    obtain ⟨e, htakes, htakes'⟩ := hsame h h'
    cases htakes
    cases htakes'
    rfl
  case exclusive =>
    intro i s s' s'' a h h'
    obtain ⟨e, htakes, htakes'⟩ := hsame h h'
    cases htakes
    cases htakes'
  case act =>
    intro i s s' s'' a b m m' n n' hkeeps hpart hallowed hallowed' h h'
    obtain ⟨e, htakes, htakes'⟩ := hsame h h'
    cases e with
    | goes => cases htakes
    | writes address data f =>
      cases htakes
      cases htakes'
      exact ⟨rfl, rfl⟩
    | reads address size f =>
      obtain ⟨data, rfl, ha, rfl⟩ := takes_reads_iff.mp htakes
      obtain ⟨data', hlength, hb, rfl⟩ := takes_reads_iff.mp htakes'
      obtain rfl := Option.some.inj ha
      obtain rfl := Option.some.inj hb
      -- the memories agree on what is read
      have hdata := (allowed_read_iff.mp hallowed).1
      have hdata' := (allowed_read_iff.mp hallowed').1
      rw [hlength, ← load_of_partOf accesses hkeeps hpart, ← hdata] at hdata'
      rw [hdata']
      exact ⟨rfl, rfl⟩

end Parts

/-! ## Results

A finished system as a run of the abstract machine in which all harts have stopped, with all that
is compared read off it.
-/

/-- The accesses that a core has had an answer to. -/
def Rv64AtomicCore.accesses (c : Rv64AtomicCore) : List MemoryAccess :=
  c.trace.answered.map accessOf

/-- A program has computed the same on the two cores. -/
structure SameResult (c c' : Rv64AtomicCore) : Prop where
  pc : c.pc = c'.pc
  x : c.x = c'.x
  retired : c.trace.committed.map (·.pc) = c'.trace.committed.map (·.pc)
  exitCode : c.exitCode = c'.exitCode
  accesses : c.accesses = c'.accesses

namespace Rv64ManycoreSystem

variable {m m' : Rv64ManycoreSystem} {s s' : Rv64SystemState} {i : ℕ}

/-- No hart has accessed a byte that another hart has written. -/
def RaceFree (m : Rv64ManycoreSystem) (s : Rv64SystemState) : Prop :=
  ∀ i < m.coreCount, ∀ j < m.coreCount, i ≠ j → ∀ a ∈ (s.cores i).accesses,
    ∀ b ∈ (s.cores j).accesses, ∀ x ∈ a.written, x ∉ b.bytes

/-- A hart that waits for no answer has had the answers to all its requests. -/
theorem Following.logOf_eq_answered (h : m.Following s) (hi : i < m.coreCount)
    (hbase : (s.cores i).RunsBase) (hstate : (s.cores i).state ≠ .memoryWait) :
    logOf s.memoryController (m.hart i).hartId = (s.cores i).trace.answered := by
  obtain ⟨⟨t, ht⟩, hanswered⟩ := h.harts i hi hbase
  obtain ⟨u, haccount⟩ := h.accounts.account hi hbase.running
  obtain ⟨coming, hperm, -, hcoming⟩ := ht.inFlight haccount
  have hnil : coming = [] :=
    List.eq_nil_iff_forall_not_mem.mpr fun x hx ↦ hstate (hcoming x hx).1
  rw [hnil, List.append_nil] at hperm
  exact (hanswered.eq_of_length hperm.length_eq.symm).symm

/-- A hart of a finished system has halted. -/
theorem halted_of_finished (hfinished : m.finished s = true) (hi : i < m.coreCount)
    (hbase : (s.cores i).RunsBase) : (s.cores i).state = .halted := by
  rw [finished, Bool.and_eq_true, List.all_eq_true] at hfinished
  have hhart := hfinished.1 i (List.mem_range.mpr hi)
  rw [Bool.and_eq_true, Rv64AtomicCore.finished, Bool.or_eq_true, Rv64AtomicCore.halted,
    Rv64AtomicCore.faulted, beq_iff_eq, beq_iff_eq] at hhart
  exact hhart.1.resolve_right hbase.running

theorem Reaches.exit {core : Rv64AtomicCore} {t : HartState} (h : m.Reaches i core t)
    (hstate : core.state = .halted) : core.Shows t ∧ t.exit = some core.exitCode := by
  rcases h with hshows | ⟨hwait, -⟩
  · exact ⟨hshows, hshows.exit.trans (if_pos hstate)⟩
  · rw [hstate] at hwait
    exact absurd hwait (by decide)

variable {arch : ArchSem} {ord ord' : HashOrder} {program : ProgramImage}
  {config config' : Rv64ManycoreConfig} {latency latency' : InstructionLatencyConfig}
  {s₀ s₀' : Rv64SystemState} {k k' : ℕ}

/-- A finished system, as runs that end. -/
theorem exists_ended {n : ℕ} (hn : m.coreCount = n)
    (h : construct arch ord program config latency = .ok (m, s₀)) (harch : arch.IsLibrary)
    (hs : m.ticks k s₀ = .ok s) (hfinished : m.finished s = true)
    (hbase : ∀ i < m.coreCount, (s.cores i).RunsBase) :
    ∃ (trace : List (Fin n × MemoryAccess)) (T : Fin n → HartState),
      Accepts MemoryAccess.Allowed ByteMemory.zero (trace.map Prod.snd)
        s.memoryController.memory.toBytes ∧
      (∀ i : Fin n, Path (m.hartStep i) (m.firstState i) (ofClient i trace) (T i)) ∧
      (∀ i : Fin n, (s.cores i).Shows (T i) ∧ (T i).exit = some (s.cores i).exitCode) ∧
      ∀ i : Fin n, ofClient i trace = (s.cores i).accesses := by
  subst hn
  obtain ⟨trace, T, haccepts, hpaths, hreaches, hclient⟩ := exists_trace rfl h harch hs hbase
  refine ⟨trace, T, haccepts, hpaths, fun i ↦ ?_, fun i ↦ ?_⟩
  · exact (hreaches i).exit (halted_of_finished hfinished i.isLt (hbase i i.isLt))
  · have hstate := halted_of_finished hfinished i.isLt (hbase i i.isLt)
    rw [hclient, (following_ticks h harch hs).logOf_eq_answered i.isLt (hbase i i.isLt)
      (by rw [hstate]; decide)]
    rfl

/-- A program that ends without a race ends alike whenever it ends. -/
theorem results_independent_of_timing
    (h : construct arch ord program config latency = .ok (m, s₀))
    (h' : construct arch ord' program config' latency' = .ok (m', s₀')) (harch : arch.IsLibrary)
    (hcount : config.coreCount = config'.coreCount)
    (htohost : config.tohostAddress = config'.tohostAddress)
    (hs : m.ticks k s₀ = .ok s) (hfinished : m.finished s = true)
    (hbase : ∀ i < m.coreCount, (s.cores i).RunsBase) (hrace : m.RaceFree s)
    (hs' : m'.ticks k' s₀' = .ok s') (hfinished' : m'.finished s' = true)
    (hbase' : ∀ i < m'.coreCount, (s'.cores i).RunsBase) :
    s.memoryController.memory.toBytes = s'.memoryController.memory.toBytes ∧
      ∀ i < m.coreCount, SameResult (s.cores i) (s'.cores i) := by
  have hm := (construct_eq_ok h).1
  have hm' := (construct_eq_ok h').1
  have hn : m'.coreCount = m.coreCount := by
    rw [hm, hm']
    exact hcount.symm
  have hharts : ∀ i, m'.hartStep i = m.hartStep i ∧ m'.firstState i = m.firstState i := by
    intro i
    rw [hm, hm', hartStep, hartStep, ← htohost]
    exact ⟨rfl, rfl⟩
  obtain ⟨trace, T, haccepts, hpaths, hends, hclient⟩ := exists_ended rfl h harch hs hfinished hbase
  obtain ⟨trace', T', haccepts', hpaths', hends', hclient'⟩ :=
    exists_ended hn h' harch hs' hfinished' hbase'
  -- the part of a hart is what it accesses in the first run
  set accesses : Fin m.coreCount → List MemoryAccess := fun i ↦ (s.cores i).accesses with haccesses
  have hkeeps : ∀ x ∈ trace, Keeps accesses x.1 x.2 := by
    rintro ⟨i, a⟩ hmem
    have ha : a ∈ (s.cores i).accesses := hclient i ▸ mem_ofClient.mpr hmem
    refine ⟨fun x hx ↦ ⟨a, ha, hx⟩, fun j hj x hx hx' ↦ ?_⟩
    obtain ⟨b, hb, hbytes⟩ := hx'
    exact hrace i i.isLt j j.isLt (fun hij ↦ hj (Fin.ext hij.symm)) a ha b hb x hx hbytes
  have hended : ∀ {i : ℕ} {t : HartState} {code : Int32}, t.exit = some code →
      Ended (m.hartStep i) t := by
    intro i t code hexit o t' hstep
    cases hexit.symm.trans hstep.1
  have halike := (parts_memory accesses).ends_alike
    (determined_hartStep accesses m.program m.config.tohostAddress fun i ↦ (m.hart i).hartId)
    haccepts hpaths (fun i ↦ hended (hends i).2) hkeeps haccepts'
    (fun i ↦ by
      have hpath := hpaths' i
      rwa [(hharts i).1, (hharts i).2] at hpath)
    fun i ↦ hended (hends' i).2
  constructor
  · funext x
    by_cases hx : ∃ i, x ∈ touched accesses i
    · obtain ⟨i, hi⟩ := hx
      exact (halike i).2.2 x hi
    · -- nobody writes such a byte
      have hwritten : ∀ i, ∀ a ∈ ofClient i trace, x ∉ a.written := by
        intro i a ha hwritten
        refine hx ⟨i, a, (show a ∈ (s.cores i).accesses from hclient i ▸ ha), ?_⟩
        cases a with
        | read => cases hwritten
        | write => exact hwritten
      rw [unchanged_of_accepts haccepts, unchanged_of_accepts haccepts']
      · intro a ha
        obtain ⟨⟨i, a⟩, hmem, rfl⟩ := List.mem_map.mp ha
        exact hwritten i a ((halike i).2.1 ▸ mem_ofClient.mpr hmem)
      · intro a ha
        obtain ⟨⟨i, a⟩, hmem, rfl⟩ := List.mem_map.mp ha
        exact hwritten i a (mem_ofClient.mpr hmem)
  · intro i hi
    obtain ⟨hstate, haccess, -⟩ := halike ⟨i, hi⟩
    obtain ⟨hshows, hexit⟩ := hends ⟨i, hi⟩
    obtain ⟨hshows', hexit'⟩ := hends' ⟨i, hi⟩
    rw [← hstate] at hshows' hexit'
    exact ⟨hshows.pc.trans hshows'.pc.symm, hshows.x.trans hshows'.x.symm,
      hshows.retired.trans hshows'.retired.symm, Option.some.inj (hexit.symm.trans hexit'),
      (hclient ⟨i, hi⟩).symm.trans (haccess.trans (hclient' ⟨i, hi⟩))⟩

/-- A check for races between the first harts. -/
def raceFreeUpTo (n : ℕ) (s : Rv64SystemState) : Bool :=
  (List.range n).all fun i ↦ (List.range n).all fun j ↦ i == j ||
    (s.cores i).accesses.all fun a ↦ (s.cores j).accesses.all fun b ↦
      a.written.all fun x ↦ !b.bytes.contains x

theorem raceFree_of_raceFreeUpTo (h : raceFreeUpTo m.coreCount s = true) : m.RaceFree s := by
  intro i hi j hj hne a ha b hb x hx hmem
  rw [raceFreeUpTo, List.all_eq_true] at h
  have hpair := List.all_eq_true.mp (h i (List.mem_range.mpr hi)) j (List.mem_range.mpr hj)
  rw [beq_eq_false_iff_ne.mpr hne, Bool.false_or] at hpair
  have hother := List.all_eq_true.mp (List.all_eq_true.mp hpair a ha) b hb
  have hbyte := List.all_eq_true.mp hother x hx
  rw [List.contains_iff_mem.mpr hmem] at hbyte
  cases hbyte

/-- Two harts on a bus and on a ring. -/
theorem results_independent_of_timing_small : ∃ m s₀ s m' s₀' s',
    stackRun true 39 = .ok (m, s₀, s) ∧ stackRun false 36 = .ok (m', s₀', s') ∧
    s.memoryController.memory.toBytes = s'.memoryController.memory.toBytes ∧
    ∀ i < m.coreCount, SameResult (s.cores i) (s'.cores i) := by
  have hends : (stackRun true 39).map stackEnd = .ok true := by decide +kernel
  have hrace : (stackRun true 39).map (fun r ↦ raceFreeUpTo 2 r.2.2) = .ok true := by
    decide +kernel
  obtain ⟨m, s₀, s, hrun, hconstruct, hs, hcount, hfinished, hbase⟩ := stackRun_spec hends
  obtain ⟨m', s₀', s', hrun', hconstruct', hs', -, hfinished', hbase'⟩ :=
    @stackRun_spec false 36 (by decide +kernel)
  refine ⟨m, s₀, s, m', s₀', s', hrun, hrun', results_independent_of_timing hconstruct hconstruct'
    Rv64AtomicCore.isLibrary_libraryArch rfl rfl hs hfinished hbase ?_ hs' hfinished' hbase'⟩
  rw [hrun] at hrace
  exact raceFree_of_raceFreeUpTo (hcount ▸ Except.ok.inj hrace)

end Rv64ManycoreSystem

end Manycore
