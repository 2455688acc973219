import SimbusNoc.Manycore.AtomicCore
import SimbusNoc.Manycore.Service

/-!
# What a scripted core does

A core runs its operations up to the first halt, in order. It has at most one request outstanding,
and only while it waits for the answer. The account of a core ties its state to its part of the
controller's log and to what is outstanding for it.

## The account

`Phase` lists what a core can be doing, and for each what is outstanding for it: nothing, while it
works; its request, somewhere between its port and the memory; or the answer, on its way back.
`Retired` is about what it has done: the log entries of the core are those of the memory operations
that it has retired, and it has stored the data of the reads among them.

## A turn

A tick of the core does nothing, receives, or works and then asks. The first part of the proof
follows the core without the bus, where only its own state changes. The second follows the one call
that it may make. In each case the traffic of the other cores stays (`OthersKept`).
-/

namespace Manycore

open Simbus

/-! ## Operations -/

/-- The operations before the first halt. -/
def body (program : List ScriptOp) : List ScriptOp :=
  program.takeWhile fun op ↦ !(op.kind == .halt)

/-- The operation reads or writes memory. -/
def ScriptOp.isMemory (op : ScriptOp) : Bool := op.kind == .read || op.kind == .write

def memoryOps (ops : List ScriptOp) : List ScriptOp := ops.filter ScriptOp.isMemory

/-- The request is the one that the operation makes. -/
def Asks (q : MemoryRequest) (op : ScriptOp) : Prop :=
  op.isMemory = true ∧ q = AtomicCore.requestOf q.hartId q.transactionId op

/-- An operation that the factories built makes a valid request. -/
theorem ScriptOp.Built.valid {op : ScriptOp} (h : op.Built) (hmem : op.isMemory = true)
    (i x : UInt32) : (AtomicCore.requestOf i x op).Valid := by
  cases h with
  | compute h =>
    obtain ⟨_, -, h⟩ := Except.bind_eq_ok_iff.mp h
    obtain rfl := Except.ok.inj h
    cases hmem
  | @read address size issueLatency _ h =>
    obtain ⟨_, hcheck, h⟩ := Except.bind_eq_ok_iff.mp h
    obtain rfl := Except.ok.inj h
    rw [require_eq_ok_iff, Bool.not_eq_true', Bool.or_eq_false_iff] at hcheck
    exact ⟨beq_eq_false_iff_ne.mp hcheck.1, .inl ⟨rfl, rfl⟩⟩
  | @write address data issueLatency _ h =>
    obtain ⟨_, hcheck, h⟩ := Except.bind_eq_ok_iff.mp h
    obtain rfl := Except.ok.inj h
    simp only [require_eq_ok_iff, Bool.not_eq_true', Bool.or_eq_false_iff,
      List.isEmpty_eq_false_iff, decide_eq_false_iff_not] at hcheck
    obtain ⟨⟨hne, hlen⟩, -⟩ := hcheck
    have hpos := List.length_pos_iff.mpr hne
    have hsize : (UInt16.ofNat data.length).toNat = data.length := by
      rw [UInt16.toNat_ofNat']
      omega
    refine ⟨fun hzero ↦ ?_, .inr ⟨rfl, hsize.symm⟩⟩
    have hzero' : (UInt16.ofNat data.length).toNat = 0 := congrArg UInt16.toNat hzero
    omega
  | halt => cases hmem

theorem body_nil : body [] = [] := rfl

theorem body_cons_halt {op : ScriptOp} (h : op.kind = .halt) (rest : List ScriptOp) :
    body (op :: rest) = [] := by
  rw [body, List.takeWhile_cons_of_neg (by simp [h])]

theorem body_cons {op : ScriptOp} (h : op.kind ≠ .halt) (rest : List ScriptOp) :
    body (op :: rest) = op :: body rest := by
  rw [body, List.takeWhile_cons_of_pos (by simp [h]), body]

/-! ## The account of a core

`Phase` says what a core in each of its states has outstanding: nothing, a request that is not
served, or a response on its way.
-/

namespace AtomicCore

/-- The data that a core stores of an answered request. -/
def storedData (x : MemoryRequest × MemoryResponse) : Option Bytes :=
  if x.1.op = MemoryOp.read then some x.2.data else none

/-- The log entries of a core are those of its retired memory operations, and it has stored the data
of the reads among them. -/
def Retired (finished : List ScriptOp) (log : List (MemoryRequest × MemoryResponse))
    (reads : List Bytes) : Prop :=
  List.Forall₂ (fun x op ↦ Asks x.1 op) log (memoryOps finished) ∧ reads = log.filterMap storedData

/-- What a core is doing, with its log entries, its unserved requests and its answers on the way. -/
inductive Phase (i : UInt32) (finished : List ScriptOp) (c : AtomicCore) :
    List (MemoryRequest × MemoryResponse) → List MemoryRequest → List MemoryResponse → Prop
  | idle {log} : (c.state = .ready ∨ c.state = .halted) → c.current = none →
      Retired finished log c.reads → Phase i finished c log [] []
  | busy {log op} : (c.state = .executing ∨ c.state = .memoryIssue ∧ op.isMemory = true) →
      c.current = some op → op.kind ≠ .halt → Retired finished log c.reads →
      Phase i finished c log [] []
  | asking {log op} : c.state = .memoryWait → c.current = some op → op.isMemory = true →
      Retired finished log c.reads →
      Phase i finished c log [requestOf i c.waitingTransactionId op] []
  | answered {log op r} : c.state = .memoryWait → c.current = some op → op.isMemory = true →
      Retired finished log c.reads →
      Phase i finished c (log ++ [(requestOf i c.waitingTransactionId op, r)]) [] [r]

/-- The operations that the core has not begun. -/
def remaining (c : AtomicCore) : List ScriptOp := if c.state = .halted then [] else body c.program

/-- The account of core `i`, which is to run `ops` and has retired those in `finished`. -/
structure Ok (i : UInt32) (ops finished : List ScriptOp) (c : AtomicCore)
    (log : List (MemoryRequest × MemoryResponse)) (asked : List MemoryRequest)
    (answers : List MemoryResponse) : Prop where
  ops : ops = finished ++ (c.current.toList ++ c.remaining)
  retired : c.stats.retiredOps = finished.length
  last : c.lastReadData = c.reads.getLastD []
  phase : Phase i finished c log asked answers

variable {i : UInt32} {ops finished : List ScriptOp} {c c' : AtomicCore}
  {log : List (MemoryRequest × MemoryResponse)} {asked : List MemoryRequest}
  {answers : List MemoryResponse}

theorem Ok.init (i : UInt32) (program : List ScriptOp) :
    Ok i (body program) [] { program := program } [] [] [] where
  ops := rfl
  retired := rfl
  last := rfl
  phase := .idle (.inl rfl) rfl ⟨List.Forall₂.nil, rfl⟩

/-- Only statistics other than the count of retired operations, and the two counters that no account
reads, have changed. -/
structure SameCore (c c' : AtomicCore) : Prop where
  program : c'.program = c.program
  current : c'.current = c.current
  state : c'.state = c.state
  waiting : c'.waitingTransactionId = c.waitingTransactionId
  lastReadData : c'.lastReadData = c.lastReadData
  reads : c'.reads = c.reads
  retired : c'.stats.retiredOps = c.stats.retiredOps

theorem Phase.congr (h : Phase i finished c log asked answers) (hs : SameCore c c') :
    Phase i finished c' log asked answers := by
  cases h with
  | idle hstate hcurrent hretired =>
    exact .idle (hs.state ▸ hstate) (hs.current.trans hcurrent) (hs.reads ▸ hretired)
  | busy hstate hcurrent hkind hretired =>
    exact .busy (hs.state ▸ hstate) (hs.current.trans hcurrent) hkind (hs.reads ▸ hretired)
  | asking hstate hcurrent hmem hretired =>
    rw [← hs.waiting]
    exact .asking (hs.state.trans hstate) (hs.current.trans hcurrent) hmem (hs.reads ▸ hretired)
  | answered hstate hcurrent hmem hretired =>
    rw [← hs.waiting]
    exact .answered (hs.state.trans hstate) (hs.current.trans hcurrent) hmem (hs.reads ▸ hretired)

theorem Ok.congr (h : Ok i ops finished c log asked answers) (hs : SameCore c c') :
    Ok i ops finished c' log asked answers where
  ops := by rw [hs.current, remaining, hs.state, hs.program, ← remaining, ← h.ops]
  retired := hs.retired.trans h.retired
  last := by rw [hs.lastReadData, hs.reads, h.last]
  phase := h.phase.congr hs

/-- Memory serves requests of the core. As it has at most one, no order can be lost. -/
theorem Ok.serve (h : Ok i ops finished c log asked answers)
    {new : List (MemoryRequest × MemoryResponse)} {asked' : List MemoryRequest}
    (hasked : asked.Perm (new.map Prod.fst ++ asked')) :
    Ok i ops finished c (log ++ new) asked' (answers ++ new.map Prod.snd) := by
  have hnone : asked = [] → new = [] ∧ asked' = [] := by
    rintro rfl
    simpa using hasked.symm.eq_nil
  refine ⟨h.ops, h.retired, h.last, ?_⟩
  cases h.phase with
  | idle hstate hcurrent hretired =>
    obtain ⟨rfl, rfl⟩ := hnone rfl
    simpa using Phase.idle (i := i) hstate hcurrent hretired
  | busy hstate hcurrent hkind hretired =>
    obtain ⟨rfl, rfl⟩ := hnone rfl
    simpa using Phase.busy (i := i) hstate hcurrent hkind hretired
  | answered hstate hcurrent hmem hretired =>
    obtain ⟨rfl, rfl⟩ := hnone rfl
    simpa using Phase.answered (i := i) hstate hcurrent hmem hretired
  | asking hstate hcurrent hmem hretired =>
    have heq := List.perm_singleton.mp hasked.symm
    cases new with
    | nil =>
      rw [List.map_nil, List.nil_append] at heq
      rw [heq]
      simpa using Phase.asking (i := i) hstate hcurrent hmem hretired
    | cons x new =>
      rw [List.map_cons, List.cons_append, List.cons.injEq, List.append_eq_nil_iff,
        List.map_eq_nil_iff] at heq
      obtain ⟨hx, rfl, rfl⟩ := heq
      obtain ⟨q, r⟩ := x
      obtain rfl : q = _ := hx
      exact .answered hstate hcurrent hmem hretired

/-! ## The parts of a tick

A tick of the core is a sequence of parts, each of which looks at the state that the one before has
left.
-/

theorem Ok.countTick (h : Ok i ops finished c log asked answers) :
    Ok i ops finished c.countTick log asked answers :=
  h.congr ⟨rfl, rfl, rfl, rfl, rfl, rfl, rfl⟩

theorem Ok.countMemoryWait (h : Ok i ops finished c log asked answers) :
    Ok i ops finished c.countMemoryWait log asked answers := by
  rw [AtomicCore.countMemoryWait]
  split_ifs
  · exact h.congr ⟨rfl, rfl, rfl, rfl, rfl, rfl, rfl⟩
  · exact h

theorem Ok.countBlocked (h : Ok i ops finished c log asked answers) :
    Ok i ops finished c.countBlocked log asked answers :=
  h.congr ⟨rfl, rfl, rfl, rfl, rfl, rfl, rfl⟩

theorem Phase.of_ready (h : Phase i finished c log asked answers) (hstate : c.state = .ready) :
    asked = [] ∧ answers = [] ∧ c.current = none ∧ Retired finished log c.reads := by
  cases h with
  | idle _ hcurrent hretired => exact ⟨rfl, rfl, hcurrent, hretired⟩
  | busy hbusy =>
    rw [hstate] at hbusy
    rcases hbusy with hbusy | ⟨hbusy, -⟩ <;> cases hbusy
  | asking hwait => cases hstate.symm.trans hwait
  | answered hwait => cases hstate.symm.trans hwait

theorem Ok.beginNextOp (h : Ok i ops finished c log asked answers) (hstate : c.state = .ready) :
    Ok i ops finished c.beginNextOp log asked answers ∧
      (c.beginNextOp.state = .halted ∨ c.beginNextOp.state = .executing) := by
  obtain ⟨rfl, rfl, hcurrent, hretired⟩ := h.phase.of_ready hstate
  have hops := h.ops
  rw [hcurrent, remaining, if_neg (by rw [hstate]; decide)] at hops
  rw [AtomicCore.beginNextOp]
  cases hprogram : c.program with
  | nil =>
    rw [hprogram, body_nil] at hops
    refine ⟨⟨?_, h.retired, h.last, .idle (.inr rfl) hcurrent hretired⟩, .inl rfl⟩
    rw [hcurrent]
    exact hops
  | cons op rest =>
    rw [hprogram] at hops
    dsimp only
    split_ifs with hkind
    · rw [body_cons_halt hkind] at hops
      exact ⟨⟨hops, h.retired, h.last, .idle (.inr rfl) rfl hretired⟩, .inl rfl⟩
    · rw [body_cons hkind] at hops
      exact ⟨⟨hops, h.retired, h.last, .busy (.inl rfl) rfl hkind hretired⟩, .inr rfl⟩

theorem Ok.retire {op : ScriptOp} (h : Ok i ops finished c log asked answers)
    (hstate : c.state ≠ .halted) (hcurrent : c.current = some op) {log' reads : _}
    (hretired : Retired (finished ++ [op]) log' reads) {c' : AtomicCore}
    (hprogram : c'.program = c.program) (hreads : c'.reads = reads)
    (hlast : c'.lastReadData = reads.getLastD [])
    (hcount : c'.stats.retiredOps = c.stats.retiredOps) :
    Ok i ops (finished ++ [op]) c'.retireCurrent log' [] [] where
  ops := by
    have hops := h.ops
    rw [hcurrent, remaining, if_neg hstate] at hops
    rw [hops, retireCurrent, remaining, if_neg (by simp), hprogram]
    simp
  retired := by
    rw [List.length_append, ← h.retired, ← hcount]
    rfl
  last := by
    change c'.lastReadData = c'.reads.getLastD []
    rw [hlast, hreads]
  phase := .idle (.inl rfl) rfl (by
    change Retired _ _ c'.reads
    rwa [hreads])

theorem Retired.append_compute {finished : List ScriptOp} {reads : List Bytes} {op : ScriptOp}
    (h : Retired finished log reads) (hop : op.isMemory = false) :
    Retired (finished ++ [op]) log reads := by
  rw [Retired, memoryOps, List.filter_append, List.filter_cons_of_neg (by simp [hop]),
    List.filter_nil, List.append_nil]
  exact h

theorem Retired.append_memory {finished : List ScriptOp} {reads : List Bytes} {op : ScriptOp}
    (h : Retired finished log reads) (hop : op.isMemory = true) (x : UInt32) (r : MemoryResponse) :
    Retired (finished ++ [op]) (log ++ [(requestOf i x op, r)])
      (reads ++ (storedData (requestOf i x op, r)).toList) := by
  refine ⟨?_, ?_⟩
  · rw [memoryOps, List.filter_append, List.filter_cons_of_pos hop, List.filter_nil]
    exact List.rel_append h.1 (List.Forall₂.cons ⟨hop, rfl⟩ List.Forall₂.nil)
  · rw [List.filterMap_append, h.2]
    cases hdata : storedData (requestOf i x op, r) <;> simp [hdata]

theorem Phase.of_executing (h : Phase i finished c log asked answers)
    (hstate : c.state = .executing) : asked = [] ∧ answers = [] ∧ Retired finished log c.reads ∧
      ∃ op, c.current = some op ∧ op.kind ≠ .halt := by
  cases h with
  | idle hidle =>
    rw [hstate] at hidle
    rcases hidle with hidle | hidle <;> cases hidle
  | busy _ hcurrent hkind hretired => exact ⟨rfl, rfl, hretired, _, hcurrent, hkind⟩
  | asking hwait => cases hstate.symm.trans hwait
  | answered hwait => cases hstate.symm.trans hwait

theorem Ok.advanceExecution (h : Ok i ops finished c log asked answers)
    (hstate : c.state = .executing) :
    ∃ finished', Ok i ops finished' c.advanceExecution log asked answers := by
  obtain ⟨rfl, rfl, hretired, op, hcurrent, hkind⟩ := h.phase.of_executing hstate
  have haged : SameCore c (if 0 < c.cyclesLeft then
      { c with
        cyclesLeft := c.cyclesLeft - 1
        stats := { c.stats with computeCycles := c.stats.computeCycles + 1 } }
    else c) := by
    split_ifs
    · exact ⟨rfl, rfl, rfl, rfl, rfl, rfl, rfl⟩
    · exact ⟨rfl, rfl, rfl, rfl, rfl, rfl, rfl⟩
  rw [AtomicCore.advanceExecution]
  dsimp only
  generalize (if 0 < c.cyclesLeft then _ else c) = c₁ at haged ⊢
  have h₁ := h.congr haged
  have hstate₁ := haged.state.trans hstate
  have hcurrent₁ := haged.current.trans hcurrent
  have hretired₁ : Retired finished log c₁.reads := haged.reads ▸ hretired
  split_ifs with hcycles hcompute
  · exact ⟨finished, h₁⟩
  · have hop : op.isMemory = false := by
      rw [currentIsCompute, hcurrent₁, beq_iff_eq] at hcompute
      rw [ScriptOp.isMemory, hcompute]
      rfl
    exact ⟨finished ++ [op], h₁.retire (by rw [hstate₁]; decide) hcurrent₁
      (hretired₁.append_compute hop) rfl rfl h₁.last rfl⟩
  · have hop : op.isMemory = true := by
      rw [currentIsCompute, hcurrent₁] at hcompute
      rw [ScriptOp.isMemory]
      cases hk : op.kind <;> simp_all
    refine ⟨finished, ?_, h₁.retired, h₁.last, .busy (.inr ⟨rfl, hop⟩) hcurrent₁ hkind hretired₁⟩
    have hops := h₁.ops
    rwa [remaining, if_neg (by rw [hstate₁]; decide)] at hops

/-- The part of a turn before the bus: the core begins an operation and works on it. -/
def work (c : AtomicCore) : AtomicCore :=
  let c := if c.state = .ready then c.beginNextOp else c
  if c.state = .executing then c.advanceExecution else c

theorem Ok.work (h : Ok i ops finished c log asked answers) :
    ∃ finished', Ok i ops finished' c.work log asked answers := by
  rw [AtomicCore.work]
  have hbegun : Ok i ops finished (if c.state = .ready then c.beginNextOp else c) log asked
      answers := by
    split_ifs with hready
    · exact (h.beginNextOp hready).1
    · exact h
  generalize (if c.state = .ready then c.beginNextOp else c) = c₁ at hbegun ⊢
  split_ifs with hexecuting
  · exact hbegun.advanceExecution hexecuting
  · exact ⟨finished, hbegun⟩

/-- A halted core has done all its operations and has nothing outstanding. -/
theorem Ok.of_halted (h : Ok i ops finished c log asked answers) (hstate : c.state = .halted) :
    finished = ops ∧ asked = [] ∧ answers = [] ∧ Retired ops log c.reads := by
  cases h.phase with
  | idle _ hcurrent hretired =>
    have hops := h.ops
    rw [hcurrent, remaining, if_pos hstate, Option.toList_none, List.nil_append,
      List.append_nil] at hops
    exact ⟨hops.symm, rfl, rfl, hops ▸ hretired⟩
  | busy hbusy =>
    rw [hstate] at hbusy
    rcases hbusy with hbusy | ⟨hbusy, -⟩ <;> cases hbusy
  | asking hwait => cases hstate.symm.trans hwait
  | answered hwait => cases hstate.symm.trans hwait

/-! ## Requests and responses -/

section Bus

variable {σ : Type} {bus : BusInterfaceV2 σ} {hart : UInt32} {port memoryPort : BusPortT}
  {s s' : σ}

theorem issueMemoryRequest_cases
    (h : issueMemoryRequest bus hart port memoryPort c s = .ok (c', s')) :
    (c' = c.countBlocked ∧ s' = s) ∨
    ∃ q bytes accepted, q = requestOf hart c.nextTransactionId (c.current.getD {}) ∧
      encodeRequest q = .ok bytes ∧
      bus.send s port memoryPort requestChannel bytes = .ok (accepted, s') ∧
      c' = if accepted then { c with
          nextTransactionId := c.nextTransactionId + 1
          waitingTransactionId := q.transactionId
          stats := { c.stats with sentRequests := c.stats.sentRequests + 1 }
          state := .memoryWait }
        else countBlocked { c with nextTransactionId := c.nextTransactionId + 1 } := by
  rw [issueMemoryRequest] at h
  obtain ⟨can, -, h⟩ := Except.bind_eq_ok_iff.mp h
  cases can with
  | false =>
    obtain ⟨rfl, rfl⟩ := Prod.mk.inj (Except.ok.inj h)
    exact .inl ⟨rfl, rfl⟩
  | true =>
    obtain ⟨bytes, hbytes, h⟩ := Except.bind_eq_ok_iff.mp h
    obtain ⟨⟨accepted, s₁⟩, hsend, h⟩ := Except.bind_eq_ok_iff.mp h
    cases accepted with
    | false =>
      obtain ⟨rfl, rfl⟩ := Prod.mk.inj (Except.ok.inj h)
      exact .inr ⟨_, bytes, false, rfl, hbytes, hsend, rfl⟩
    | true =>
      obtain ⟨rfl, rfl⟩ := Prod.mk.inj (Except.ok.inj h)
      exact .inr ⟨_, bytes, true, rfl, hbytes, hsend, rfl⟩

/-- The core after the response to its request. -/
def store (c : AtomicCore) (r : MemoryResponse) : AtomicCore :=
  let c := if c.currentIsRead then { c with lastReadData := r.data, reads := c.reads ++ [r.data] }
    else c
  { c with stats := { c.stats with receivedResponses := c.stats.receivedResponses + 1 } }

theorem receiveResponse_cases (h : receiveResponse bus hart port c s = .ok (c', s')) :
    (c' = c ∧ (s' = s ∨ bus.recv s port responseChannel = .ok (none, s'))) ∨
    ∃ bytes r, bus.recv s port responseChannel = .ok (some bytes, s') ∧
      decodeResponse bytes = .ok r ∧ r.hartId = hart ∧
      r.transactionId = c.waitingTransactionId ∧ c' = (c.store r).retireCurrent := by
  rw [receiveResponse] at h
  obtain ⟨can, -, h⟩ := Except.bind_eq_ok_iff.mp h
  cases can with
  | false =>
    obtain ⟨rfl, rfl⟩ := Prod.mk.inj (Except.ok.inj h)
    exact .inl ⟨rfl, .inl rfl⟩
  | true =>
    obtain ⟨⟨data, s₁⟩, hrecv, h⟩ := Except.bind_eq_ok_iff.mp h
    cases data with
    | none =>
      obtain ⟨rfl, rfl⟩ := Prod.mk.inj (Except.ok.inj h)
      exact .inl ⟨rfl, .inr hrecv⟩
    | some bytes =>
      obtain ⟨r, hr, h⟩ := Except.bind_eq_ok_iff.mp h
      obtain ⟨_, hids, h⟩ := Except.bind_eq_ok_iff.mp h
      obtain ⟨_, -, h⟩ := Except.bind_eq_ok_iff.mp h
      obtain ⟨rfl, rfl⟩ := Prod.mk.inj (Except.ok.inj h)
      rw [require_eq_ok_iff, Bool.and_eq_true, beq_iff_eq, beq_iff_eq] at hids
      exact .inr ⟨bytes, r, hrecv, hr, hids.1, hids.2, rfl⟩

theorem Phase.of_memoryIssue (h : Phase i finished c log asked answers)
    (hstate : c.state = .memoryIssue) : asked = [] ∧ answers = [] ∧
      Retired finished log c.reads ∧ ∃ op, c.current = some op ∧ op.isMemory = true := by
  cases h with
  | idle hidle =>
    rw [hstate] at hidle
    rcases hidle with hidle | hidle <;> cases hidle
  | busy hbusy hcurrent _ hretired =>
    rw [hstate] at hbusy
    rcases hbusy with hbusy | ⟨-, hop⟩
    · cases hbusy
    · exact ⟨rfl, rfl, hretired, _, hcurrent, hop⟩
  | asking hwait => cases hstate.symm.trans hwait
  | answered hwait => cases hstate.symm.trans hwait

theorem Ok.ask (h : Ok i ops finished c log asked answers) (hstate : c.state = .memoryIssue)
    {op : ScriptOp} (hcurrent : c.current = some op) {c' : AtomicCore}
    (hc' : c' = { c with
      nextTransactionId := c.nextTransactionId + 1
      waitingTransactionId := c.nextTransactionId
      stats := { c.stats with sentRequests := c.stats.sentRequests + 1 }
      state := .memoryWait }) :
    Ok i ops finished c' log [requestOf i c.nextTransactionId op] answers := by
  obtain ⟨-, rfl, hretired, op', hcurrent', hop⟩ := h.phase.of_memoryIssue hstate
  obtain rfl := Option.some.inj (hcurrent.symm.trans hcurrent')
  subst hc'
  refine ⟨?_, h.retired, h.last, .asking rfl hcurrent hop hretired⟩
  have hops := h.ops
  rwa [remaining, if_neg (by rw [hstate]; decide)] at hops

theorem currentIsRead_of {op : ScriptOp} (hcurrent : c.current = some op) (i x : UInt32) :
    c.currentIsRead = true ↔ (requestOf i x op).op = MemoryOp.read := by
  have hne : MemoryOp.write ≠ MemoryOp.read := by decide
  rw [currentIsRead, hcurrent]
  by_cases hkind : op.kind = .read <;> simp [requestOf, hkind, hne]

/-- A response is stored exactly when it answers a read. -/
theorem store_eq {op : ScriptOp} (hcurrent : c.current = some op) (i x : UInt32)
    (r : MemoryResponse) :
    (c.store r).reads = c.reads ++ (storedData (requestOf i x op, r)).toList ∧
      (c.lastReadData = c.reads.getLastD [] →
        (c.store r).lastReadData = (c.store r).reads.getLastD []) := by
  rw [store, storedData]
  by_cases hread : c.currentIsRead = true
  · rw [if_pos hread, if_pos ((currentIsRead_of hcurrent i x).mp hread)]
    exact ⟨rfl, fun _ ↦ by simp⟩
  · rw [if_neg hread, if_neg fun h ↦ hread ((currentIsRead_of hcurrent i x).mpr h)]
    exact ⟨(List.append_nil _).symm, id⟩

theorem store_program (r : MemoryResponse) : (c.store r).program = c.program ∧
    (c.store r).stats.retiredOps = c.stats.retiredOps := by
  rw [store]
  split_ifs <;> exact ⟨rfl, rfl⟩

theorem Ok.receive {r : MemoryResponse} (h : Ok i ops finished c log asked answers)
    (hstate : c.state = .memoryWait) (hr : r ∈ answers) :
    ∃ finished', answers = [r] ∧ Ok i ops finished' (c.store r).retireCurrent log asked [] := by
  cases h.phase with
  | idle => cases hr
  | busy => cases hr
  | asking => cases hr
  | @answered log' op r' _ hcurrent hop hretired =>
    obtain rfl := List.mem_singleton.mp hr
    refine ⟨finished ++ [op], rfl, ?_⟩
    obtain ⟨hreads, hlast⟩ := store_eq hcurrent i c.waitingTransactionId r
    obtain ⟨hprogram, hcount⟩ := store_program (c := c) r
    exact h.retire (by rw [hstate]; decide) hcurrent
      (hretired.append_memory (i := i) hop c.waitingTransactionId r) hprogram hreads
      (hreads ▸ hlast h.last) hcount

/-! A tick does nothing, receives, or works and then asks. -/

theorem tick_of_halted (h : c.state = .halted) :
    tick bus hart port memoryPort c s = .ok (c, s) := by
  rw [AtomicCore.tick, if_pos h]
  rfl

theorem tick_of_memoryWait (h : c.state = .memoryWait) :
    tick bus hart port memoryPort c s =
      receiveResponse bus hart port c.countTick s >>= fun x ↦ .ok (x.1.countMemoryWait, x.2) := by
  have hcounted : c.countTick.state = .memoryWait := h
  rw [AtomicCore.tick, if_neg (by rw [h]; decide)]
  dsimp only
  rw [if_pos hcounted]
  rfl

theorem tick_of_working (hhalted : c.state ≠ .halted) (hwait : c.state ≠ .memoryWait) :
    tick bus hart port memoryPort c s =
      if c.countTick.work.state = .memoryIssue then
        issueMemoryRequest bus hart port memoryPort c.countTick.work s
      else .ok (c.countTick.work, s) := by
  have hcounted : c.countTick.state ≠ .memoryWait := hwait
  rw [AtomicCore.tick, if_neg hhalted]
  dsimp only
  rw [if_neg hcounted]
  rfl

end Bus

/-! ## A whole tick -/

/-- The response goes to the hart with this number. -/
def toHart (h : UInt32) (r : MemoryResponse) : Bool := decide (r.hartId = h)

/-- A turn of hart `i` changes no other hart's traffic. -/
def OthersKept (i : UInt32) (t t' : Traffic) : Prop :=
  ∀ h, h ≠ i →
    t'.requests.filter (MemoryController.fromHart h) =
        t.requests.filter (MemoryController.fromHart h) ∧
      t'.responses.filter (toHart h) = t.responses.filter (toHart h)

theorem OthersKept.refl (i : UInt32) (t : Traffic) : OthersKept i t t := fun _ _ ↦ ⟨rfl, rfl⟩

section Tick

open MemoryController

variable {σ : Type} {bus : BusInterfaceV2 σ} {n p : ℕ} {Live : σ → Prop} {Fifo : Prop}
  {Holds : List Letter → σ → Prop} (hbus : Reliable bus (Allowed n) Live Fifo Holds)
  {t : Traffic} {s s' : σ} {front : List MemoryRequest} {later : List MemoryResponse}

/-- The account of core `i` against the traffic, with the requests that the controller has in front
of it and the response that the controller holds. -/
def OkIn (i : UInt32) (ops : List ScriptOp) (log : List (MemoryRequest × MemoryResponse))
    (front : List MemoryRequest) (later : List MemoryResponse) (c : AtomicCore) (t : Traffic) :
    Prop :=
  ∃ finished, Ok i ops finished c log ((front ++ t.requests).filter (fromHart i))
    ((t.responses ++ later).filter (toHart i))

include hbus

theorem OkIn.issue (hp : i.toNat = p) (hpn : p < n) (hbuilt : ∀ op ∈ ops, op.Built)
    (h : OkIn i ops log front later c t) (hstate : c.state = .memoryIssue)
    (hcarried : Carried Holds n t s)
    (hissue : issueMemoryRequest bus i p n c s = .ok (c', s')) (hlive : Live s') :
    ∃ t', Carried Holds n t' s' ∧ OkIn i ops log front later c' t' ∧ OthersKept i t t' := by
  obtain ⟨finished, hok⟩ := h
  obtain ⟨hasked, hanswers, -, op, hcurrent, hop⟩ := hok.phase.of_memoryIssue hstate
  have hmem : op ∈ ops := by
    rw [hok.ops, hcurrent]
    simp
  have hvalid := (hbuilt op hmem).valid hop i c.nextTransactionId
  rcases issueMemoryRequest_cases hissue with ⟨rfl, rfl⟩ |
    ⟨q, bytes, accepted, hq, hbytes, hsend, hc'⟩
  · exact ⟨t, hcarried, ⟨finished, hok.countBlocked⟩, OthersKept.refl i t⟩
  · rw [hcurrent, Option.getD_some] at hq
    obtain rfl := Except.ok.inj ((hq ▸ encodeRequest_of_valid hvalid).symm.trans hbytes)
    have hcarried' := hcarried.sendRequest hbus (hq ▸ hvalid) (hq ▸ hp) hpn hsend hlive
    cases accepted with
    | false =>
      exact ⟨t, hcarried', ⟨finished, hc' ▸ Ok.countBlocked (hok.congr
        ⟨rfl, rfl, rfl, rfl, rfl, rfl, rfl⟩)⟩, OthersKept.refl i t⟩
    | true =>
      refine ⟨_, hcarried', ⟨finished, ?_⟩, fun j hj ↦ ⟨?_, rfl⟩⟩
      · have hask := hok.ask hstate hcurrent (hc'.trans (by rw [hq]; rfl))
        rw [if_pos rfl, Traffic.addRequest, ← List.append_assoc, List.filter_append, hasked,
          List.nil_append, List.filter_cons_of_pos (by simp [fromHart, hq, requestOf]), hq]
        exact hask
      · rw [if_pos rfl, Traffic.addRequest, List.filter_append,
          List.filter_cons_of_neg (by simp [fromHart, hq, requestOf, Ne.symm hj]), List.filter_nil,
          List.append_nil]

theorem OkIn.receive (hp : i.toNat = p) (h : OkIn i ops log front later c t)
    (hstate : c.state = .memoryWait) (hcarried : Carried Holds n t s)
    (hreceive : receiveResponse bus i p c s = .ok (c', s')) (hlive : Live s') :
    ∃ t', Carried Holds n t' s' ∧ OkIn i ops log front later c' t' ∧ OthersKept i t t' := by
  obtain ⟨finished, hok⟩ := h
  rcases receiveResponse_cases hreceive with ⟨rfl, hs'⟩ |
    ⟨bytes, r, hrecv, hr, -, -, rfl⟩
  · refine ⟨t, ?_, ⟨finished, hok⟩, OthersKept.refl i t⟩
    rcases hs' with rfl | hrecv
    · exact hcarried
    · exact hcarried.recv_none hbus hrecv hlive
  · obtain ⟨before, r', after, hsplit, rfl, hshort, hhart, hcarried', -⟩ :=
      hcarried.recvResponse hbus hrecv hlive
    obtain rfl : r' = r := Except.ok.inj ((decodeResponse_encodeResponse hshort).symm.trans hr)
    have hmine : r'.hartId = i := UInt32.toNat_inj.mp (hhart.trans hp.symm)
    have hanswers : (t.responses ++ later).filter (toHart i) =
        before.filter (toHart i) ++ r' :: (after ++ later).filter (toHart i) := by
      rw [hsplit, List.append_assoc, List.filter_append, List.cons_append,
        List.filter_cons_of_pos (by simp [toHart, hmine])]
    obtain ⟨finished', hone, hok'⟩ := hok.receive (r := r') hstate (by rw [hanswers]; simp)
    -- The answer received is the only one, so nothing is left.
    rw [hanswers, List.append_eq_singleton_iff] at hone
    have hnone : (before ++ after ++ later).filter (toHart i) = [] := by
      rw [List.append_assoc, List.filter_append]
      rcases hone with ⟨hb, ha⟩ | ⟨-, ha⟩
      · rw [hb, (List.cons.inj ha).2, List.append_nil]
      · cases ha
    refine ⟨_, hcarried', ⟨finished', ?_⟩, fun j hj ↦ ⟨rfl, ?_⟩⟩
    · rw [hnone]
      exact hok'
    · rw [hsplit, List.filter_append, List.filter_append,
        List.filter_cons_of_neg (by simp [toHart, hmine, Ne.symm hj])]

omit hbus in
/-- A turn ends with the bus as it was, or after one call. -/
theorem tick_bus (h : AtomicCore.tick bus i p n c s = .ok (c', s')) :
    s' = s ∨ (∃ d ch data, bus.recv s d ch = .ok (data, s')) ∨
      ∃ d ch data accepted, bus.send s p d ch data = .ok (accepted, s') := by
  by_cases hhalted : c.state = .halted
  · rw [tick_of_halted hhalted] at h
    exact .inl (Prod.mk.inj (Except.ok.inj h)).2.symm
  by_cases hwait : c.state = .memoryWait
  · rw [tick_of_memoryWait hwait] at h
    obtain ⟨⟨c₁, s₁⟩, hreceive, h⟩ := Except.bind_eq_ok_iff.mp h
    obtain ⟨-, rfl⟩ := Prod.mk.inj (Except.ok.inj h)
    rcases receiveResponse_cases hreceive with ⟨-, rfl | hrecv⟩ | ⟨bytes, r, hrecv, -⟩
    · exact .inl rfl
    · exact .inr (.inl ⟨_, _, _, hrecv⟩)
    · exact .inr (.inl ⟨_, _, _, hrecv⟩)
  rw [tick_of_working hhalted hwait] at h
  split_ifs at h
  · rcases issueMemoryRequest_cases h with ⟨-, rfl⟩ | ⟨q, bytes, accepted, -, -, hsend, -⟩
    · exact .inl rfl
    · exact .inr (.inr ⟨_, _, _, _, hsend⟩)
  · exact .inl (Prod.mk.inj (Except.ok.inj h)).2.symm

theorem tick_live (h : AtomicCore.tick bus i p n c s = .ok (c', s')) (hlive : Live s') :
    Live s := by
  rcases tick_bus h with rfl | ⟨d, ch, data, hrecv⟩ | ⟨d, ch, data, accepted, hsend⟩
  · exact hlive
  · exact hbus.live_recv hrecv hlive
  · exact hbus.live_send hsend hlive

theorem OkIn.tick (hp : i.toNat = p) (hpn : p < n) (hbuilt : ∀ op ∈ ops, op.Built)
    (h : OkIn i ops log front later c t) (hcarried : Carried Holds n t s)
    (htick : AtomicCore.tick bus i p n c s = .ok (c', s')) (hlive : Live s') :
    ∃ t', Carried Holds n t' s' ∧ OkIn i ops log front later c' t' ∧ OthersKept i t t' := by
  obtain ⟨finished, hok⟩ := h
  by_cases hhalted : c.state = .halted
  · rw [tick_of_halted hhalted] at htick
    obtain ⟨rfl, rfl⟩ := Prod.mk.inj (Except.ok.inj htick)
    exact ⟨t, hcarried, ⟨finished, hok⟩, OthersKept.refl i t⟩
  by_cases hwait : c.state = .memoryWait
  · rw [tick_of_memoryWait hwait] at htick
    obtain ⟨⟨c₁, s₁⟩, hreceive, htick⟩ := Except.bind_eq_ok_iff.mp htick
    obtain ⟨rfl, rfl⟩ := Prod.mk.inj (Except.ok.inj htick)
    obtain ⟨t', hcarried', ⟨finished', hok'⟩, hkept⟩ :=
      OkIn.receive hbus hp ⟨finished, hok.countTick⟩ hwait hcarried hreceive hlive
    exact ⟨t', hcarried', ⟨finished', hok'.countMemoryWait⟩, hkept⟩
  rw [tick_of_working hhalted hwait] at htick
  obtain ⟨finished', hok'⟩ := hok.countTick.work
  by_cases hissue : c.countTick.work.state = .memoryIssue
  · rw [if_pos hissue] at htick
    exact OkIn.issue hbus hp hpn hbuilt ⟨finished', hok'⟩ hissue hcarried htick hlive
  · rw [if_neg hissue] at htick
    obtain ⟨rfl, rfl⟩ := Prod.mk.inj (Except.ok.inj htick)
    exact ⟨t, hcarried, ⟨finished', hok'⟩, OthersKept.refl i t⟩

end Tick

end AtomicCore

end Manycore
