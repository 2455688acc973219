import SimbusNoc.Manycore.ByteMemory
import SimbusNoc.Manycore.FinishedDrained
import SimbusNoc.Manycore.ProgramRuns

/-!
# Sequential consistency of the RV64 system

Harts that run base instructions share their memory as if they executed one instruction at a time,
each at once and in some order. The order is the one in which the controller has served their
requests. It is no matter what the interconnect does to them on the way, for a hart waits for the
answer to its access before it goes on.

## The invariant

Every hart follows a run of its own program, with its accesses and what it was answered
(`HartFollows`). The part of the controller's log that belongs to a hart is what it has been
answered, and at most one request more, which it is waiting for: here the account of the hart is
used. So a log is a merge of the accesses of the harts' own runs, and it is accepted by a memory of
bytes, because the controller refines one. `Following` has both, for every hart that has run base
instructions only.

## The abstract run

A log that memory accepts and whose projections are runs of the harts is a run of all harts
together (`exists_trace`), by the general lemma on threads over a shared object. A hart whose
access has been served and not yet answered is one step further in this run than its core is, which
is what `Reaches` says.

The conditions are those of one hart: it has fetched base instructions only, with the jumps that
the core makes as they are written, has not accessed the control window and has not faulted.
-/

namespace Manycore

open Simbus Rv64archsem Sequential MemoryController Interconnect Threads

/-! ## What a hart has in flight

A hart that has never used its adapter waits for one answer at most. So the part of the log that
belongs to it is what it has been answered, or that and one entry more.
-/

/-- A hart without commands of its adapter has one request in flight at most. -/
theorem HartView.Account.inFlight {hart : UInt32} {memoryPort : BusPortT} {depth : UInt32}
    {log : List (MemoryRequest × MemoryResponse)} {pending : List MemoryRequest}
    {answers : List MemoryResponse} {v : HartView}
    (h : v.Account False hart memoryPort depth log pending answers)
    (hrequests : v.mmio.requests = []) (hfinished : v.mmio.finished = []) :
    ∃ coming, log.Perm (v.answered ++ coming) ∧ coming.length ≤ 1 ∧
      ∀ x ∈ coming, v.state = .memoryWait ∧ v.request = some x.1 := by
  obtain ⟨taken, coming, mine, hlog, -, -, hout, htaken, hmine⟩ := h.answered
  obtain rfl : mine = [] := List.map_eq_nil_iff.mp (hmine.trans hfinished)
  rw [List.append_nil] at htaken
  refine ⟨coming, hlog.trans (htaken.append_right coming), ?_⟩
  by_cases hstate : v.state = .memoryWait
  · rw [HartView.outstanding_of_eq_nil hrequests hstate] at hout
    have hlength := hout.length_eq
    have hle : v.request.toList.length ≤ 1 := by cases v.request <;> simp
    rw [List.length_append, List.length_map] at hlength
    refine ⟨by omega, fun x hx ↦ ⟨hstate, ?_⟩⟩
    have hmem : x.1 ∈ coming.map Prod.fst ++ pending :=
      List.mem_append_left _ (List.mem_map_of_mem hx)
    exact Option.mem_toList.mp (hout.subset hmem)
  · rw [HartView.outstanding_of_ne hstate, hrequests] at hout
    have hnil : coming = [] :=
      List.map_eq_nil_iff.mp (List.append_eq_nil_iff.mp hout.eq_nil).1
    rw [hnil]
    exact ⟨by simp, nofun⟩

/-- A list without a part of it that has one element at most is the rest. -/
theorem prefix_concat_of_perm {α : Type} {log answered coming coming' : List α} {x : α}
    (hpre : answered <+: log) (h : log.Perm (answered ++ coming)) (hle : coming.length ≤ 1)
    (h' : log.Perm (answered ++ [x] ++ coming')) : answered ++ [x] <+: log := by
  obtain ⟨rest, rfl⟩ := hpre
  have hlength := h.length_eq
  rw [List.append_assoc] at h'
  have hrest := (List.perm_append_left_iff answered).mp h'
  have hlength' := hrest.length_eq
  rw [List.length_append, List.length_append] at hlength
  rw [List.length_append, List.length_singleton] at hlength'
  obtain rfl : coming' = [] := List.length_eq_zero_iff.mp (by omega)
  rw [List.append_nil, List.perm_singleton] at hrest
  rw [hrest]

/-! ## What memory does -/

/-- The log of a memory is a list of accesses that a memory of bytes allows. -/
theorem accepts_history {requests : List MemoryRequest} (hvalid : ∀ q ∈ requests, q.Valid)
    (m : SharedMemory) :
    Accepts MemoryAccess.Allowed m.toBytes ((history apply m requests).map accessOf)
      (final apply m requests).toBytes := by
  induction requests generalizing m with
  | nil => rfl
  | cons q requests ih =>
    have hq := hvalid q List.mem_cons_self
    obtain ⟨hreply, hmemory⟩ := serve_eq_apply m hq.op hq.length_data_le
    refine ⟨(apply m q).2.toBytes, ?_, ih (fun q' hq' ↦ hvalid q' (List.mem_cons_of_mem q hq')) _⟩
    change MemoryAccess.Allowed m.toBytes (accessOf (q, (serve m q).1)) (serve m q).2.toBytes
    rw [hreply, hmemory, accessOf, ByteMemory.apply]
    rcases hq.op with hop | hop
    · rw [if_pos hop, if_pos hop]
      exact .read m.toBytes q.address q.size.toNat
    · have hne : q.op ≠ MemoryOp.read := by
        rw [hop]
        decide
      rw [if_neg hne, if_neg hne]
      exact .write m.toBytes q.address q.data

/-- What a hart has been answered and has not taken is the answer to its request. -/
theorem Rv64AtomicCore.Follows.inFlight {k : Rv64Hart} {first t : HartState}
    {core : Rv64AtomicCore} (h : core.Follows k first t) {n : ℕ} {depth : UInt32}
    {c : MemoryController} {traffic : Traffic}
    (haccount : core.view.AccountAgainst False k.hartId n depth c traffic) :
    ∃ coming, (logOf c k.hartId).Perm (core.trace.answered ++ coming) ∧ coming.length ≤ 1 ∧
      ∀ x ∈ coming, core.state = .memoryWait ∧ core.memoryRequest = some x.1 := by
  have hadapter := h.adapter
  exact haccount.inFlight (congrArg Prod.fst hadapter) (congrArg (fun a ↦ a.2.2) hadapter)

namespace Rv64ManycoreSystem

variable {m : Rv64ManycoreSystem} {s s' : Rv64SystemState} {i : ℕ}

/-! ## The harts of a run

The log grows in the controller's turn, and a hart's run grows in its own turn, when the answer
comes. In between the hart is one access behind the log.
-/

/-- A hart before its first instruction. -/
def firstState (m : Rv64ManycoreSystem) (i : ℕ) : HartState :=
  .start m.program (0x88000000 - UInt64.ofNat (m.hart i).hartId.toNat * 0x10000)

/-- What hart `i` does to memory and to itself. -/
def hartStep (m : Rv64ManycoreSystem) (i : ℕ) :
    HartState → Option MemoryAccess → HartState → Prop :=
  HartStep m.program m.config.tohostAddress (m.hart i).hartId

/-- A hart is in a state of a run of its program, and the log begins with what it has been
answered. -/
structure HartFollows (m : Rv64ManycoreSystem) (c : MemoryController) (i : ℕ)
    (core : Rv64AtomicCore) : Prop where
  follows : ∃ t, core.Follows (m.hart i) (m.firstState i) t
  answered : core.trace.answered <+: logOf c (m.hart i).hartId

/-- Every hart that has only run base instructions is in a state of a run of its program. -/
structure Following (m : Rv64ManycoreSystem) (s : Rv64SystemState) : Prop where
  accounts : m.InAccount s
  reachable : ∀ i < m.coreCount, Rv64AtomicCore.Reachable (m.hart i) (s.cores i)
  harts : ∀ i < m.coreCount, (s.cores i).RunsBase → m.HartFollows s.memoryController i (s.cores i)

theorem InAccount.account (h : m.InAccount s) (hi : i < m.coreCount)
    (hrunning : (s.cores i).state ≠ .faulted) :
    ∃ t, (s.cores i).view.AccountAgainst False (m.hart i).hartId m.coreCount m.config.mmioDepth
      s.memoryController t := by
  obtain ⟨t, -, -, hcores⟩ := h
  exact ⟨t, (hcores i hi).2.resolve_left hrunning⟩

theorem Following.tickController (h : m.Following s) (htick : m.tickController s = .ok s') :
    m.Following s' := by
  have haccounts := h.accounts.tickController (reliable_steady _) htick
  obtain ⟨t, hcarried, hok, -⟩ := h.accounts
  obtain ⟨⟨c', x'⟩, hc', htick⟩ := Except.bind_eq_ok_iff.mp htick
  obtain rfl := Except.ok.inj htick
  obtain ⟨t', done, -, -, hserved⟩ :=
    MemoryController.tick_spec (reliable_steady _) _ hok hcarried hc' trivial
  have hlog : ∀ hart, logOf s.memoryController hart <+: logOf c' hart := by
    intro hart
    rw [logOf, logOf, MemoryController.log, MemoryController.log, hserved.completed, history_append,
      List.filter_append]
    exact List.prefix_append ..
  refine ⟨haccounts, h.reachable, fun i hi hbase ↦ ?_⟩
  obtain ⟨hfollows, hanswered⟩ := h.harts i hi hbase
  exact ⟨hfollows, hanswered.trans (hlog _)⟩

theorem Following.tickCore (harch : m.arch.IsLibrary) (h : m.Following s) (hi : i < m.coreCount)
    (htick : m.tickCore s i = .ok s') : m.Following s' := by
  have haccounts := (h.accounts.tickCore hi htick).1
  have hcontroller : s'.memoryController = s.memoryController := by
    obtain ⟨_, -, htick⟩ := Except.bind_eq_ok_iff.mp htick
    obtain rfl := Except.ok.inj htick
    rfl
  obtain ⟨x', hcore⟩ := tick_of_tickCore htick
  refine ⟨haccounts, fun j hj ↦ ?_, fun j hj hbase ↦ ?_⟩
  · by_cases hji : j = i
    · subst hji
      exact Rv64AtomicCore.reachable_tick (h.reachable j hj) hcore
    · rw [cores_of_tickCore htick hji]
      exact h.reachable j hj
  · by_cases hji : j = i
    · subst hji
      have hbefore := hbase.of_tick (h.reachable j hj) hcore
      have hhart := h.harts j hj hbefore
      obtain ⟨⟨t, ht⟩, hanswered⟩ := hhart
      obtain ⟨t', ht', hgrown⟩ := ht.tick harch hcore hbase
      refine ⟨⟨t', ht'⟩, ?_⟩
      rw [hcontroller]
      rcases hgrown with hsame | ⟨x, hx⟩
      · rw [hsame]
        exact hanswered
      · -- the answer is the one that was in flight
        obtain ⟨u, hbeforeAccount⟩ := h.accounts.account hj hbefore.running
        obtain ⟨u', hafterAccount⟩ := haccounts.account hj hbase.running
        obtain ⟨coming, hperm, hle, -⟩ := ht.inFlight hbeforeAccount
        obtain ⟨coming', hperm', -, -⟩ := ht'.inFlight hafterAccount
        rw [hcontroller, hx] at hperm'
        rw [hx]
        exact prefix_concat_of_perm hanswered hperm hle hperm'
    · rw [hcontroller, cores_of_tickCore htick hji] at *
      exact h.harts j hj hbase

theorem Following.during (harch : m.arch.IsLibrary) (h : m.Following s) (hi : i ≤ m.coreCount)
    (hduring : m.during s i = .ok s') : m.Following s' := by
  induction i generalizing s' with
  | zero =>
    obtain ⟨s₁, hs₁, hduring⟩ := Except.bind_eq_ok_iff.mp hduring
    obtain rfl := Except.ok.inj hduring
    exact h.tickController hs₁
  | succ i ih =>
    rw [during_succ] at hduring
    obtain ⟨s₁, hs₁, hs'⟩ := Except.bind_eq_ok_iff.mp hduring
    exact (ih (Nat.le_of_succ_le hi) hs₁).tickCore harch hi hs'

theorem Following.tick (harch : m.arch.IsLibrary) (h : m.Following s) (htick : m.tick s = .ok s') :
    m.Following s' := by
  have haccounts : m.InAccount s' :=
    h.accounts.tick (reliable_steady _) (harts_return _) Steady.applyNextTick htick
  obtain ⟨s₁, hs₁, htick⟩ := Except.bind_eq_ok_iff.mp htick
  have hduring := h.during harch le_rfl hs₁
  obtain ⟨x', -, htick⟩ := Except.bind_eq_ok_iff.mp htick
  obtain rfl := Except.ok.inj htick
  exact ⟨haccounts, hduring.reachable, hduring.harts⟩

variable {arch : ArchSem} {ord : HashOrder} {program : ProgramImage} {config : Rv64ManycoreConfig}
  {latency : InstructionLatencyConfig} {s₀ : Rv64SystemState}

theorem following_ticks (h : construct arch ord program config latency = .ok (m, s₀))
    (harch : arch.IsLibrary) {k : ℕ} (hs : m.ticks k s₀ = .ok s) : m.Following s := by
  obtain ⟨hm, hbuilt⟩ := construct_eq_ok h
  have harch' : m.arch.IsLibrary := by rwa [hm]
  induction k generalizing s with
  | zero =>
    obtain rfl := Except.ok.inj hs
    refine ⟨inAccount_ticks (k := 0) h rfl, fun i hi ↦ .construct (hbuilt.cores i hi),
      fun i hi _ ↦ ⟨⟨_, Rv64AtomicCore.construct_follows (hbuilt.cores i hi)⟩, ?_⟩⟩
    have hcourse := Rv64AtomicCore.construct_course (hbuilt.cores i hi)
    have hzero := congrArg (fun v ↦ v.cycles .response) hcourse
    rw [List.length_eq_zero_iff.mp hzero]
    exact List.nil_prefix
  | succ k ih =>
    obtain ⟨s₁, hs₁, htick⟩ := Except.bind_eq_ok_iff.mp hs
    exact (ih hs₁).tick harch' htick

/-- The core is in a state, or waits for the answer to the access that leads there. -/
def Reaches (m : Rv64ManycoreSystem) (i : ℕ) (core : Rv64AtomicCore) (t' : HartState) : Prop :=
  core.Shows t' ∨ core.state = .memoryWait ∧ ∃ t access, core.Shows t ∧
    m.hartStep i t (some access) t'

/-- A hart has a run with all its accesses that the log has. -/
theorem Following.exists_path (h : m.Following s) (hi : i < m.coreCount)
    (hbase : (s.cores i).RunsBase) : ∃ t, m.Reaches i (s.cores i) t ∧
      Path (m.hartStep i) (m.firstState i)
        ((logOf s.memoryController (m.hart i).hartId).map accessOf) t := by
  obtain ⟨⟨t, ht⟩, rest, hrest⟩ := h.harts i hi hbase
  obtain ⟨u, haccount⟩ := h.accounts.account hi hbase.running
  obtain ⟨coming, hperm, hle, hcoming⟩ := ht.inFlight haccount
  rw [← hrest] at hperm ⊢
  have hrestPerm := (List.perm_append_left_iff _).mp hperm
  rcases rest with _ | ⟨x, _ | ⟨y, rest⟩⟩
  · rw [List.append_nil]
    exact ⟨t, .inl ht.shows, ht.path⟩
  · -- the controller has served the request, and the answer is on its way
    obtain ⟨hstate, hrequest⟩ := hcoming x (hrestPerm.subset List.mem_cons_self)
    have hx : x ∈ logOf s.memoryController (m.hart i).hartId := by
      rw [← hrest]
      simp
    have hvalid : x.1.Valid := by
      obtain ⟨-, -, hok, -⟩ := h.accounts
      have hmem : x.1 ∈ s.memoryController.completed.filter (fromHart (m.hart i).hartId) := by
        rw [← map_fst_logOf]
        exact List.mem_map_of_mem hx
      exact (hok.served x.1 (List.mem_of_mem_filter hmem)).1
    have hlength : x.1.op = MemoryOp.read → x.2.data.length = x.1.size.toNat := by
      intro hop
      rw [(haccount.answers_log x hx).length hvalid, if_pos hop]
    obtain ⟨t', hstep⟩ := ht.exists_step hstate hrequest hlength
    refine ⟨t', .inr ⟨hstate, t, _, ht.shows, hstep⟩, ?_⟩
    rw [List.map_append]
    exact ht.path.act hstep
  · have := hrestPerm.length_eq
    simp only [List.length_cons] at this
    omega

/-- The accesses to memory in the order in which the controller has served them: memory allows them,
and each hart by itself has a run with its own. -/
theorem exists_trace {n : ℕ} (hn : m.coreCount = n)
    (h : construct arch ord program config latency = .ok (m, s₀)) (harch : arch.IsLibrary) {k : ℕ}
    (hs : m.ticks k s₀ = .ok s) (hbase : ∀ i < n, (s.cores i).RunsBase) :
    ∃ (trace : List (Fin n × MemoryAccess)) (S : Fin n → HartState),
      Accepts MemoryAccess.Allowed ByteMemory.zero (trace.map Prod.snd)
        s.memoryController.memory.toBytes ∧
      (∀ i : Fin n, Path (m.hartStep i) (m.firstState i) (ofClient i trace) (S i)) ∧
      (∀ i : Fin n, m.Reaches i (s.cores i) (S i)) ∧
      ∀ i : Fin n, ofClient i trace =
        (logOf s.memoryController (m.hart i).hartId).map accessOf := by
  subst hn
  have hfollowing := following_ticks h harch hs
  have hpos : 0 < m.coreCount := Nat.pos_of_ne_zero (construct_eq_ok h).2.cores_ne
  choose S hreaches hpaths using fun i : Fin m.coreCount ↦
    hfollowing.exists_path i.isLt (hbase i i.isLt)
  obtain ⟨-, -, hok, -⟩ := hfollowing.accounts
  -- the log of the controller is the trace
  let tag : MemoryRequest × MemoryResponse → Fin m.coreCount :=
    fun x ↦ ⟨x.1.hartId.toNat % m.coreCount, Nat.mod_lt _ hpos⟩
  have hclient : ∀ i : Fin m.coreCount,
      ofClient i (s.memoryController.log.map fun x ↦ (tag x, accessOf x)) =
      (logOf s.memoryController (m.hart i).hartId).map accessOf := by
    intro i
    rw [ofClient_map]
    refine congrArg _ (List.filter_congr fun x hx ↦ ?_)
    have hmem : x.1 ∈ s.memoryController.completed := by
      rw [← map_fst_history apply SharedMemory.empty s.memoryController.completed]
      exact List.mem_map_of_mem hx
    have hlt := (hok.served x.1 hmem).2
    rw [fromHart, decide_eq_decide, Fin.ext_iff, ← UInt32.toNat_inj, m.toNat_hartId i.isLt]
    change x.1.hartId.toNat % m.coreCount = i ↔ _
    rw [Nat.mod_eq_of_lt hlt]
  refine ⟨_, S, ?_, fun i ↦ ?_, hreaches, hclient⟩
  · have hvalid : ∀ q ∈ s.memoryController.completed, q.Valid := fun q hq ↦ (hok.served q hq).1
    have haccepts := accepts_history hvalid SharedMemory.empty
    rw [← hok.memory] at haccepts
    rw [List.map_map]
    exact haccepts
  · rw [hclient]
    exact hpaths i

/-- All harts together have a run in which they share a memory, one instruction after another. The
memory after it is that of the controller. -/
theorem ticks_sequentially_consistent
    (h : construct arch ord program config latency = .ok (m, s₀)) (harch : arch.IsLibrary) {k : ℕ}
    (hs : m.ticks k s₀ = .ok s) (hbase : ∀ i < m.coreCount, (s.cores i).RunsBase) :
    ∃ (trace : List (Fin m.coreCount × MemoryAccess)) (S : Fin m.coreCount → HartState),
      Run (fun i : Fin m.coreCount ↦ m.hartStep i) MemoryAccess.Allowed
        (fun i ↦ m.firstState i, ByteMemory.zero) trace (S, s.memoryController.memory.toBytes) ∧
      ∀ i : Fin m.coreCount, m.Reaches i (s.cores i) (S i) := by
  obtain ⟨trace, S, haccepts, hpaths, hreaches, -⟩ := exists_trace rfl h harch hs hbase
  exact ⟨trace, S, run_of_paths haccepts hpaths, hreaches⟩

/-! ## A small system -/

/-- Every hart writes its number onto its stack and reads it back. -/
def stackInstructions : List Instruction :=
  [.csrrHartId 10, .store .sd 2 10 0, .load .ld 11 2 0, .ecall]

def stackConfig (sharedBus : Bool) : Rv64ManycoreConfig :=
  { coreCount := 2, sharedBus := sharedBus, memoryLatency := 1, coreCount_lt := smallCount_lt }

/-- The system with two harts after some ticks. -/
def stackRun (sharedBus : Bool) (k : ℕ) :
    Except String (Rv64ManycoreSystem × Rv64SystemState × Rv64SystemState) :=
  firstTicks Rv64AtomicCore.libraryArch .insertion
    (.fromWords (stackInstructions.map Instruction.encode)) (stackConfig sharedBus) {} k

/-- The system has finished, and its harts have fetched these instructions only. -/
def stackEnd (r : Rv64ManycoreSystem × Rv64SystemState × Rv64SystemState) : Bool :=
  r.1.finished r.2.2 && (List.range 2).all fun i ↦
    ((r.2.2.cores i).trace.fetched.all fun f ↦
      decide (f.1.raw ∈ stackInstructions.map Instruction.encode)) &&
    decide ((r.2.2.cores i).trace.windowAccesses = 0) && decide ((r.2.2.cores i).state ≠ .faulted)

theorem stackRun_spec {sharedBus : Bool} {k : ℕ}
    (h : (stackRun sharedBus k).map stackEnd = .ok true) : ∃ m s₀ s,
      stackRun sharedBus k = .ok (m, s₀, s) ∧
      construct Rv64AtomicCore.libraryArch .insertion
        (.fromWords (stackInstructions.map Instruction.encode)) (stackConfig sharedBus) {} =
          .ok (m, s₀) ∧
      m.ticks k s₀ = .ok s ∧ m.coreCount = 2 ∧ m.finished s = true ∧
      ∀ i < m.coreCount, (s.cores i).RunsBase := by
  obtain ⟨m, s₀, s, hrun, hconstruct, hs, hend⟩ := exists_of_firstTicks h
  have hcount : m.coreCount = 2 := by
    rw [(construct_eq_ok hconstruct).1]
    rfl
  rw [stackEnd, Bool.and_eq_true, List.all_eq_true] at hend
  refine ⟨m, s₀, s, hrun, hconstruct, hs, hcount, hend.1, fun i hi ↦ ?_⟩
  have hhart := hend.2 i (List.mem_range.mpr (hcount ▸ hi))
  rw [Bool.and_eq_true, Bool.and_eq_true, decide_eq_true_eq, decide_eq_true_eq,
    List.all_eq_true] at hhart
  obtain ⟨⟨hfetched, hwindow⟩, hrunning⟩ := hhart
  refine ⟨fun f hf ↦ ?_, hwindow, hrunning⟩
  obtain ⟨instruction, hmem, hencode⟩ := List.mem_map.mp (of_decide_eq_true (hfetched f hf))
  refine ⟨instruction, ?_, hencode.symm⟩
  simp only [stackInstructions, List.mem_cons, List.not_mem_nil, or_false] at hmem
  rcases hmem with rfl | rfl | rfl | rfl <;> trivial

theorem ticks_sequentially_consistent_small : ∃ m s₀ s, stackRun true 39 = .ok (m, s₀, s) ∧
    m.finished s = true ∧
    ∃ (trace : List (Fin m.coreCount × MemoryAccess)) (S : Fin m.coreCount → HartState),
      Run (fun i : Fin m.coreCount ↦ m.hartStep i) MemoryAccess.Allowed
        (fun i ↦ m.firstState i, ByteMemory.zero) trace (S, s.memoryController.memory.toBytes) ∧
      ∀ i : Fin m.coreCount, m.Reaches i (s.cores i) (S i) := by
  obtain ⟨m, s₀, s, hrun, hconstruct, hs, -, hfinished, hbase⟩ :=
    @stackRun_spec true 39 (by decide +kernel)
  exact ⟨m, s₀, s, hrun, hfinished, ticks_sequentially_consistent hconstruct
    Rv64AtomicCore.isLibrary_libraryArch hs hbase⟩

end Rv64ManycoreSystem

end Manycore
