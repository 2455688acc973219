import SimbusNoc.Manycore.HartView
import SimbusNoc.Manycore.VectorDescriptors

/-!
# The work of a core

Between its request and the response a core works on its own: it fetches, executes, prepares
requests and accesses the control window. Each function of this work keeps the invariant of the
view, or it throws, and then the core faults with its adapter as it was.

## Reasons

A hart that faults over a response says so in its error, and other properties need that no work of
the core fails with one of these messages. `unexpectedReasons` lists them, and `Expected` says that
a call throws none of them. Most messages begin with another letter, which is all that has to be
looked at.

## Specifications

Each function has one lemma, in the order in which they call each other. `Does` is the
postcondition of a successful attempt and `Amiss` that of a failed one, in the triples of
`Throwing.Ensures`; `recover_spec` turns a pair of them into what a `catch` block leaves: the core
has done its work or has faulted. Functions on registers leave the view as it is, so for them there
is one general lemma (`Does.of_view_eq`).
-/

namespace Manycore

open Simbus Rv64archsem Throwing

/-! ## Reasons -/

/-- The reasons of a core that has received a response it cannot use. -/
def unexpectedReasons : List String :=
  ["unexpected memory response", "unexpected MMIO bus response",
    "invalid scalar load response size", "invalid vector load response"]

/-- A call throws no such reason. -/
def Expected {α : Type} (x : Except String α) : Prop :=
  Ensures (fun _ ↦ True) (· ∉ unexpectedReasons) x

theorem append_not_mem_unexpectedReasons {start rest : String}
    (h : start.toList ≠ [] ∧ ∀ r ∈ unexpectedReasons, start.toList.head? ≠ r.toList.head?) :
    start ++ rest ∉ unexpectedReasons := by
  intro hmem
  refine h.2 _ hmem ?_
  rw [String.toList_append, List.head?_append_of_ne_nil _ h.1]

theorem expected_throw {α : Type} {message : String} (h : message ∉ unexpectedReasons) :
    Expected (throw message : Except String α) := h

theorem expected_require {condition : Bool} {message : String}
    (h : message ∉ unexpectedReasons) : Expected (require condition message) := by
  cases condition with
  | true => trivial
  | false => exact h

theorem Expected.bind {α β : Type} {x : Except String α} {f : α → Except String β}
    (hx : Expected x) (hf : ∀ a, Expected (f a)) : Expected (x >>= f) :=
  Ensures.bind hx fun a _ ↦ hf a

theorem Expected.ite {α : Type} {p : Prop} [Decidable p] {x y : Except String α}
    (hx : Expected x) (hy : Expected y) : Expected (if p then x else y) :=
  Ensures.ite (fun _ ↦ hx) fun _ ↦ hy

namespace MmioBusAdapter

variable {hart : UInt32} {a a' : MmioBusAdapter} {address : UInt64} {size : UInt16}
  {value : UInt64}

theorem expected_offset (address : UInt64) (size : UInt16) : Expected (offset address size) :=
  (expected_require (by decide)).bind fun _ ↦ trivial

theorem expected_read (a : MmioBusAdapter) (address : UInt64) (size : UInt16) :
    Expected (a.read address size) := by
  refine (expected_offset address size).bind fun reg ↦ ?_
  repeat' refine Expected.ite trivial ?_
  exact expected_throw (by decide)

theorem expected_write (hart : UInt32) (a : MmioBusAdapter) (address : UInt64) (size : UInt16)
    (value : UInt64) : Expected (a.write hart address size value) := by
  refine (expected_offset address size).bind fun reg ↦ ?_
  refine Expected.ite trivial (Expected.ite (expected_throw (by decide)) ?_)
  repeat' refine Expected.ite trivial ?_
  exact expected_throw (by decide)

/-- A register write adds at most the request of an acceptable command. -/
theorem write_requests {P : MemoryRequest → Prop} (ha : ∀ e ∈ a.requests, P e.request)
    (haccept : ∀ id, a.acceptable value = true →
      P (MmioCommand.request hart ⟨value, a.target, a.writeData, a.size, id⟩))
    (h : a.write hart address size value = .ok a') : ∀ e ∈ a'.requests, P e.request := by
  rcases write_cases h with ⟨hrequests, -, -⟩ | ⟨hacceptable, rfl⟩
  · rwa [hrequests]
  · intro e he
    rcases List.mem_append.mp he with he | he
    · exact ha e he
    · rw [List.mem_singleton.mp he]
      exact haccept _ hacceptable

theorem write_sendable (ha : ∀ e ∈ a.requests, e.request.Sendable hart)
    (h : a.write hart address size value = .ok a') :
    ∀ e ∈ a'.requests, e.request.Sendable hart := by
  refine write_requests ha (fun id hacceptable ↦ ?_) h
  have hsizes := size_of_acceptable hacceptable
  obtain ⟨hvalid, hhart⟩ := @valid_request ⟨value, a.target, a.writeData, a.size, id⟩ hsizes hart
  refine ⟨hvalid, hhart, ?_⟩
  rcases hsizes with hsize | hsize | hsize | hsize <;>
    simp only [MmioCommand.request, hsize] <;> decide

end MmioBusAdapter

/-! ## Views

How the invariant of a view passes from one state of the core to the next.
-/

theorem MemoryRequest.Valid.read {q : MemoryRequest} (hop : q.op = MemoryOp.read)
    (hdata : q.data = []) (hsize : 0 < q.size.toNat) : q.Valid :=
  ⟨fun h0 ↦ hsize.ne' (congrArg UInt16.toNat h0), .inl ⟨hop, hdata⟩⟩

theorem MemoryRequest.Valid.write {q : MemoryRequest} (hop : q.op = MemoryOp.write)
    (hdata : q.data.length = q.size.toNat) (hsize : 0 < q.size.toNat) : q.Valid :=
  ⟨fun h0 ↦ hsize.ne' (congrArg UInt16.toNat h0), .inr ⟨hop, hdata⟩⟩

theorem scalarSize_pos_le (funct3 : UInt8) : 0 < scalarSize funct3 ∧ scalarSize funct3 ≤ 8 := by
  rw [scalarSize]
  split <;> decide

theorem toNat_scalarSize (funct3 : UInt8) :
    (UInt16.ofNat (scalarSize funct3)).toNat = scalarSize funct3 :=
  UInt16.toNat_ofNat_of_lt' ((scalarSize_pos_le funct3).2.trans_lt (by decide))

namespace HartView

variable {hart : UInt32} {v v' : HartView}

/-- The adapter and the requests so far are the same. -/
structure Keeps (v v' : HartView) : Prop where
  mmio : v'.mmio = v.mmio
  transactions : v'.transactions = v.transactions
  sent : v'.sent = v.sent
  answered : v'.answered = v.answered

theorem Keeps.trans {v'' : HartView} (h : v.Keeps v') (h' : v'.Keeps v'') : v.Keeps v'' :=
  ⟨h'.mmio.trans h.mmio, h'.transactions.trans h.transactions, h'.sent.trans h.sent,
    h'.answered.trans h.answered⟩

theorem Keeps.works (h : v.Keeps v') (hstate : v'.state ≠ .memoryWait ∧ v'.state ≠ .faulted) :
    Works hart v v' where
  mmio := .inl h.mmio
  transactions := by
    rw [h.transactions, h.mmio, List.drop_length, List.map_nil, List.append_nil]
  sent := h.sent
  answered := h.answered
  state := hstate

theorem Ok.settle (h : v.Ok hart) (hstate : v.state = .fetchDecode ∨ v.state = .executeWait)
    {state : Rv64CoreState}
    (hnew : state = .fetchDecode ∨ state = .executeWait ∨ state = .halted) :
    Ok hart { v with state := state } := by
  have hidle : v.state ≠ .faulted ∧ v.state ≠ .memoryIssue := by
    rcases hstate with hstate | hstate <;> rw [hstate] <;> decide
  have hidle' : state ≠ .memoryIssue ∧ state ≠ .memoryWait := by
    rcases hnew with rfl | rfl | rfl <;> decide
  refine { h with staged := ?_, inactive := ?_, prepared := ?_ }
  · rintro (hissue | hwait)
    · exact absurd hissue hidle'.1
    · exact absurd hwait hidle'.2
  · exact fun _ ↦ h.inactive hstate
  · intro _
    have hprepared := h.prepared hidle.1
    rw [if_neg hidle.2] at hprepared
    rw [if_neg hidle'.1]
    exact hprepared

theorem Ok.prepared_of_executeWait (h : v.Ok hart) (hstate : v.state = .executeWait) :
    v.prepared = v.windowAccesses + v.sent := by
  have hprepared := h.prepared (by rw [hstate]; decide)
  rw [hstate] at hprepared
  exact hprepared

theorem Ok.stage (h : v.Ok hart) (hstate : v.state = .executeWait) {q : MemoryRequest}
    (hq : q.Sendable hart) (hsize : q.size.toNat ≤ 8) :
    Ok hart { v with request := some q, prepared := v.prepared + 1, state := .memoryIssue } := by
  have hinactive := h.inactive (.inr hstate)
  refine { h with staged := ?_, inactive := ?_, prepared := ?_ }
  · refine fun _ ↦ ⟨q, rfl, hq, fun _ ↦ hsize, fun hactive ↦ ?_⟩
    exact Bool.noConfusion (hinactive.symm.trans hactive)
  · rintro (hstate' | hstate') <;> cases hstate'
  · exact fun _ ↦ congrArg (· + 1) (h.prepared_of_executeWait hstate)

theorem Ok.setMmio (h : v.Ok hart) {mmio : MmioBusAdapter} {transactions : List MemoryRequest}
    (hmmio : ∀ e ∈ mmio.requests, e.request.Sendable hart) :
    Ok hart { v with mmio := mmio, transactions := transactions } := by
  refine { h with adapter := hmmio, staged := fun hstate ↦ ?_ }
  obtain ⟨q, hq⟩ := h.staged hstate
  exact ⟨q, hq.request, hq.sendable, hq.scalar, hq.vector⟩

theorem Ok.serve (h : v.Ok hart) (hstate : v.state = .memoryIssue)
    (hinactive : v.vectorActive = false) :
    Ok hart { v with
      windowAccesses := v.windowAccesses + 1, request := none, state := .fetchDecode } where
  adapter := h.adapter
  staged := fun hissue ↦ by rcases hissue with hissue | hissue <;> cases hissue
  inactive := fun _ ↦ hinactive
  loads := h.loads
  stores := h.stores
  prepared := fun _ ↦ by
    have hprepared := h.prepared (by rw [hstate]; decide)
    rw [if_pos hstate] at hprepared
    dsimp only
    rw [if_neg (by decide)]
    omega

theorem Ok.send (h : v.Ok hart) (hstate : v.state = .memoryIssue)
    (transactions : List MemoryRequest) :
    Ok hart { v with state := .memoryWait, transactions := transactions, sent := v.sent + 1 } where
  adapter := h.adapter
  staged := fun _ ↦ by
    obtain ⟨q, hq⟩ := h.staged (.inl hstate)
    exact ⟨q, hq.request, hq.sendable, hq.scalar, hq.vector⟩
  inactive := fun hidle ↦ by rcases hidle with hidle | hidle <;> cases hidle
  loads := h.loads
  stores := h.stores
  prepared := fun _ ↦ by
    have hprepared := h.prepared (by rw [hstate]; decide)
    rw [if_pos hstate] at hprepared
    exact hprepared

/-- A vector access may prepare its next request. -/
structure Stageable (hart : UInt32) (v : HartView) : Prop where
  adapter : ∀ e ∈ v.mmio.requests, e.request.Sendable hart
  active : v.vectorActive = true
  loads : ∀ d ∈ v.loads, 0 < d.size.toNat ∧ d.size.toNat ≤ 15
  stores : ∀ d ∈ v.stores, 0 < d.rawData.length ∧ d.rawData.length ≤ 15
  prepared : v.prepared = v.windowAccesses + v.sent

/-- A vector access without requests is done. -/
theorem Stageable.done (h : v.Stageable hart) :
    Ok hart { v with vectorActive := false, state := .fetchDecode } where
  adapter := h.adapter
  staged := fun hissue ↦ by rcases hissue with hissue | hissue <;> cases hissue
  inactive := fun _ ↦ rfl
  loads := h.loads
  stores := h.stores
  prepared := fun _ ↦ h.prepared

theorem Stageable.stageLoad (h : v.Stageable hart) {d : MemLoadDescriptor}
    {rest : List MemLoadDescriptor} (hloads : v.loads = d :: rest) {q : MemoryRequest}
    (hq : q.Valid) (hhart : q.hartId = hart) (hop : q.op = MemoryOp.read)
    (hsize : q.size = d.size) :
    Ok hart { v with
      request := some q, activeLoad := some d, loads := rest, prepared := v.prepared + 1
      state := .memoryIssue } := by
  have hd := h.loads d (hloads ▸ List.mem_cons_self)
  refine ⟨h.adapter, fun _ ↦ ⟨q, rfl, ⟨hq, hhart, hsize ▸ hd.2⟩, fun hinactive ↦ ?_, fun _ _ ↦
    ⟨hop, d, rfl, hsize.symm⟩⟩, ?_, fun d' hd' ↦ h.loads d' ?_, h.stores, fun _ ↦ ?_⟩
  · exact Bool.noConfusion (h.active.symm.trans hinactive)
  · rintro (hstate | hstate) <;> cases hstate
  · exact hloads ▸ List.mem_cons_of_mem d hd'
  · exact congrArg (· + 1) h.prepared

theorem Stageable.stageStore (h : v.Stageable hart) (hisLoad : v.vectorIsLoad = false)
    {d : MemStoreDescriptor} {rest : List MemStoreDescriptor} (hstores : v.stores = d :: rest)
    {q : MemoryRequest} (hq : q.Valid) (hhart : q.hartId = hart)
    (hsize : q.size.toNat = d.rawData.length) :
    Ok hart { v with
      request := some q, stores := rest, prepared := v.prepared + 1, state := .memoryIssue } := by
  have hd := h.stores d (hstores ▸ List.mem_cons_self)
  refine ⟨h.adapter, fun _ ↦ ⟨q, rfl, ⟨hq, hhart, hsize ▸ hd.2⟩, fun hinactive ↦ ?_,
    fun _ hload ↦ ?_⟩, ?_, h.loads, fun d' hd' ↦ h.stores d' ?_, fun _ ↦ ?_⟩
  · exact Bool.noConfusion (h.active.symm.trans hinactive)
  · exact Bool.noConfusion (hisLoad.symm.trans hload)
  · rintro (hstate | hstate) <;> cases hstate
  · exact hstores ▸ List.mem_cons_of_mem d hd'
  · exact congrArg (· + 1) h.prepared

end HartView

/-! ## The calls that may throw

None of the reasons that these calls give is one of a response.
-/

namespace ProgramImage

variable (p : ProgramImage)

theorem expected_byteAt (address : UInt64) : Expected (p.byteAt address) := by
  refine Expected.ite (expected_throw (by decide)) ?_
  split
  · exact expected_throw (by decide)
  · trivial

theorem expected_fetch16 (address : UInt64) : Expected (p.fetch16 address) :=
  (p.expected_byteAt _).bind fun _ ↦ (p.expected_byteAt _).bind fun _ ↦ trivial

theorem expected_fetch32 (address : UInt64) : Expected (p.fetch32 address) :=
  (p.expected_byteAt _).bind fun _ ↦ (p.expected_byteAt _).bind fun _ ↦
    (p.expected_byteAt _).bind fun _ ↦ (p.expected_byteAt _).bind fun _ ↦ trivial

end ProgramImage

theorem expected_cycles (timing : Timing) (vl : ℕ) : Expected (timing.cycles vl) :=
  (expected_require (by decide)).bind fun _ ↦ trivial

theorem expected_defaultLatency (inst : DecodedInst) (config : InstructionLatencyConfig) (vl : ℕ) :
    Expected (defaultLatency inst config vl) := by
  refine Expected.ite ?_ ?_
  · exact Expected.ite trivial (Expected.ite trivial (expected_cycles _ vl))
  · split
    any_goals trivial
    exact Expected.ite trivial trivial

theorem expected_instructionLatency (arch : ArchSem) (inst : DecodedInst)
    (config : InstructionLatencyConfig) (vl : ℕ) :
    Expected (instructionLatency arch inst config vl) := by
  rw [instructionLatency]
  split
  · exact expected_cycles _ vl
  · exact (expected_defaultLatency inst config vl).bind fun _ ↦
      (expected_require (by decide)).bind fun _ ↦ trivial

namespace Rv64AtomicCore

variable {k : Rv64Hart} {c c' : Rv64AtomicCore}

theorem expected_readCsr (k : Rv64Hart) (c : Rv64AtomicCore) (address : UInt64) :
    Expected (readCsr k c address) := by
  refine Expected.ite (Expected.ite trivial (c.mmio.expected_read _ _)) ?_
  repeat' refine Expected.ite trivial ?_
  trivial

theorem expected_writeCsr (k : Rv64Hart) (c : Rv64AtomicCore) (address value : UInt64) :
    Expected (writeCsr k c address value) := by
  refine Expected.ite ?_ ?_
  · exact (expected_require (by decide)).bind fun _ ↦
      (c.mmio.expected_write _ _ _ _).bind fun _ ↦ trivial
  · repeat' refine Expected.ite trivial ?_
    trivial

theorem expected_vectorGroupRegisters (c : Rv64AtomicCore) :
    Expected c.vectorGroupRegisters := by
  rw [vectorGroupRegisters]
  split
  any_goals trivial
  exact expected_throw (by decide)

theorem expected_readVectorGroup (c : Rv64AtomicCore) (base : Fin 32) :
    Expected (c.readVectorGroup base) :=
  c.expected_vectorGroupRegisters.bind fun _ ↦ (expected_require (by decide)).bind fun _ ↦ trivial

theorem expected_writeVectorGroup (c : Rv64AtomicCore) (base : Fin 32) (words : List UInt64) :
    Expected (c.writeVectorGroup base words) :=
  c.expected_vectorGroupRegisters.bind fun _ ↦ (expected_require (by decide)).bind fun _ ↦ trivial

theorem expected_vectorOperand (c : Rv64AtomicCore) (type : RegType) (index : Fin 32) :
    Expected (c.vectorOperand type index) := by
  cases type with
  | none => trivial
  | gpreg => trivial
  | freg => exact expected_throw (by decide)
  | vreg => exact c.expected_readVectorGroup index

theorem expected_vectorDestination (c : Rv64AtomicCore) (inst : DecodedInst) :
    Expected (c.vectorDestination inst) :=
  Expected.ite trivial (Expected.ite (c.expected_readVectorGroup _) (expected_throw (by decide)))

theorem expected_vectorMemoryElementBytes (inst : DecodedInst) :
    Expected (vectorMemoryElementBytes inst) := by
  rw [vectorMemoryElementBytes]
  split
  any_goals trivial
  exact expected_throw (by decide)

/-! ## Attempts -/

/-- An attempt of `c` has failed, with its adapter as it was. -/
def Amiss (c : Rv64AtomicCore) (e : String × Rv64AtomicCore) : Prop :=
  e.2.mmio = c.mmio ∧ e.1 ∉ unexpectedReasons

/-- The core has faulted, with its adapter as it was. -/
def Faults (c c' : Rv64AtomicCore) : Prop :=
  ∃ (reason : String) (c₁ : Rv64AtomicCore), c' = c₁.fault reason ∧ c₁.mmio = c.mmio ∧
    reason ∉ unexpectedReasons

/-- The core has done some work of its own. -/
structure Does (k : Rv64Hart) (c c' : Rv64AtomicCore) : Prop where
  works : HartView.Works k.hartId c.view c'.view
  ok : c'.view.Ok k.hartId

theorem amiss {reason : String} {c₁ : Rv64AtomicCore} (h : reason ∉ unexpectedReasons)
    (hc : c₁.mmio = c.mmio) : Amiss c (reason, c₁) :=
  ⟨hc, h⟩

theorem recover_spec {x : Attempt} {P : Rv64AtomicCore → Prop} (h : Ensures P (Amiss c) x) :
    P (recover x) ∨ Faults c (recover x) := by
  cases x with
  | ok c' => exact .inl h
  | error e => exact .inr ⟨e.1, e.2, rfl, h.1, h.2⟩

theorem Does.of_view_eq {c₁ : Rv64AtomicCore} (h : Does k c₁ c') (hview : c₁.view = c.view) :
    Does k c c' :=
  ⟨hview ▸ h.works, h.ok⟩

theorem Faults.of_mmio_eq {c₁ : Rv64AtomicCore} (h : Faults c₁ c') (hmmio : c₁.mmio = c.mmio) :
    Faults c c' := by
  obtain ⟨reason, c₂, rfl, hc₂, hreason⟩ := h
  exact ⟨reason, c₂, rfl, hc₂.trans hmmio, hreason⟩

theorem onThrow_bind {α : Type} {x : Except String α} {f : α → Attempt} {c₁ : Rv64AtomicCore}
    {P : Rv64AtomicCore → Prop} (hx : Expected x) (hc : c₁.mmio = c.mmio)
    (hf : ∀ a, x = .ok a → Ensures P (Amiss c) (f a)) :
    Ensures P (Amiss c) (onThrow c₁ x >>= f) := by
  cases x with
  | ok a => exact hf a rfl
  | error reason => exact ⟨hc, hx⟩

theorem view_writeVectorGroup {base : Fin 32} {words : List UInt64}
    (h : c.writeVectorGroup base words = .ok c') : c'.view = c.view := by
  obtain ⟨count, -, h⟩ := Except.bind_eq_ok_iff.mp h
  obtain ⟨u, -, h⟩ := Except.bind_eq_ok_iff.mp h
  exact Except.ok.inj h ▸ rfl

theorem view_writeCsr {address value : UInt64} (h : writeCsr k c address value = .ok c') :
    c'.view = c.view ∨ ∃ bus mmio, c.mmio.write k.hartId bus 8 value = .ok mmio ∧
      c' = c.setMmio k mmio := by
  rw [writeCsr] at h
  by_cases hbus : isBusCsr address = true
  · rw [if_pos hbus] at h
    obtain ⟨u, -, h⟩ := Except.bind_eq_ok_iff.mp h
    obtain ⟨mmio, hmmio, h⟩ := Except.bind_eq_ok_iff.mp h
    exact .inr ⟨_, mmio, hmmio, (Except.ok.inj h).symm⟩
  · rw [if_neg hbus] at h
    dsimp only at h
    split_ifs at h <;> exact .inl (Except.ok.inj h ▸ rfl)

/-! ## Vector accesses -/

theorem stageNextVectorRequest_spec (h : c.view.Stageable k.hartId) :
    Ensures (fun c' ↦ c'.view.Ok k.hartId ∧ c'.state = .memoryIssue ∧ c.view.Keeps c'.view)
      (Amiss c)
      (stageNextVectorRequest k c) := by
  rw [stageNextVectorRequest]
  dsimp only
  split
  · split
    · exact amiss (by decide) rfl
    · rename_i d rest hloads
      have hd := h.loads d (by rw [view, hloads]; exact List.mem_cons_self)
      exact ⟨h.stageLoad hloads (.read rfl rfl hd.1) rfl rfl rfl, rfl, rfl, rfl, rfl, rfl⟩
  · rename_i hisLoad
    split
    · exact amiss (by decide) rfl
    · rename_i d rest hstores
      have hd := h.stores d (by rw [view, hstores]; exact List.mem_cons_self)
      have hsize : (UInt16.ofNat d.rawData.length).toNat = d.rawData.length :=
        UInt16.toNat_ofNat_of_lt' (hd.2.trans_lt (by decide))
      have hpos : 0 < (UInt16.ofNat d.rawData.length).toNat := by
        rw [hsize]
        exact hd.1
      exact ⟨h.stageStore (Bool.eq_false_of_not_eq_true hisLoad) hstores
        (.write rfl hsize.symm hpos) rfl hsize, rfl, rfl, rfl, rfl, rfl⟩

/-- The first request of a vector access is prepared, or there is none. -/
theorem stageOrCommit_spec {c₁ : Rv64AtomicCore} {empty : Bool}
    (hstage : c₁.view.Stageable k.hartId) (hkeeps : c.view.Keeps c₁.view) :
    Ensures (Does k c) (Amiss c)
      (if empty then pure { c₁ with vectorMemoryActive := false }.commit
        else stageNextVectorRequest k c₁) := by
  refine Ensures.ite (fun _ ↦ ?_) fun _ ↦ ?_
  · refine ⟨HartView.Keeps.works ⟨hkeeps.mmio, hkeeps.transactions, hkeeps.sent,
      hkeeps.answered⟩ (by simp), hstage.done⟩
  · refine (stageNextVectorRequest_spec hstage).mono (fun c' hc' ↦ ?_) fun e he ↦ ?_
    · obtain ⟨hok', hstate', hkeeps'⟩ := hc'
      refine ⟨(hkeeps.trans hkeeps').works ?_, hok'⟩
      change c'.state ≠ _ ∧ c'.state ≠ _
      rw [hstate']
      decide
    · exact ⟨he.1.trans hkeeps.mmio, he.2⟩

/-! ## Execution

One lemma for each kind of instruction. Those that work on registers leave the view as it is, those
with an access prepare a request, and a CSR instruction may write to the adapter.
-/

/-- The result of a vector instruction goes to registers. -/
theorem writeVectorResult_spec (c₁ : Rv64AtomicCore) (inst : DecodedInst) (words : List UInt64)
    (hview : c₁.view = c.view) :
    Ensures (fun c' ↦ c'.view = c.view) (Amiss c) (writeVectorResult c₁ inst words) := by
  have hmmio : c₁.mmio = c.mmio := congrArg HartView.mmio hview
  refine Ensures.ite (fun _ ↦ ?_) fun _ ↦ ?_
  · split
    · exact amiss (by decide) hmmio
    · exact (view_writeReg c₁ _ _).trans hview
  · have hexpected := c₁.expected_writeVectorGroup inst.rd words
    cases hwrite : c₁.writeVectorGroup inst.rd words with
    | ok c' => exact (view_writeVectorGroup hwrite).trans hview
    | error reason => exact amiss (hexpected.of_eq_error hwrite) hmmio

/-- The instruction is done, or goes on, or stops the core, and its effect is on registers only. -/
theorem Does.of_view (hok : c.view.Ok k.hartId)
    (hstate : c.view.state = .fetchDecode ∨ c.view.state = .executeWait) {state : Rv64CoreState}
    (hnew : state = .fetchDecode ∨ state = .executeWait ∨ state = .halted)
    (hview : c'.view = { c.view with state := state }) : Does k c c' := by
  have hidle : state ≠ .memoryWait ∧ state ≠ .faulted := by
    rcases hnew with rfl | rfl | rfl <;> decide
  refine ⟨?_, ?_⟩
  · rw [hview]
    exact HartView.Keeps.works ⟨rfl, rfl, rfl, rfl⟩ hidle
  · rw [hview]
    exact hok.settle hstate hnew

section Execute

variable (hok : c.view.Ok k.hartId) (hstate : c.state = .executeWait)
include hok hstate

theorem does_commit (hview : c'.view = c.view) : Does k c c'.commit :=
  .of_view hok (.inr hstate) (.inl rfl) (by rw [view_commit, hview])

theorem does_wait (hview : c'.view = c.view) : Does k c c' :=
  .of_view hok (.inr hstate) (.inr (.inl rfl)) (by rw [hview, ← hstate]; rfl)

theorem executeVectorConfig_does : Does k c c.executeVectorConfig :=
  does_commit hok hstate ((view_writeReg _ _ _).trans (view_configureVector _ _ _))

theorem executeInteger_spec : Ensures (Does k c) (Amiss c) (executeInteger k c) := by
  rw [executeInteger]
  dsimp only
  split
  any_goals exact does_commit hok hstate (view_writeReg _ _ _)
  exact amiss (by decide) rfl

/-- A vector instruction writes registers only. -/
theorem executeVectorAlu_spec : Ensures (Does k c) (Amiss c) (executeVectorAlu k c) := by
  refine onThrow_bind (expected_require (by decide)) rfl fun _ _ ↦ ?_
  refine onThrow_bind (expected_require (by decide)) rfl fun _ _ ↦ ?_
  refine onThrow_bind (expected_vectorOperand _ _ _) rfl fun source1 _ ↦ ?_
  refine onThrow_bind (expected_vectorOperand _ _ _) rfl fun source2 _ ↦ ?_
  refine onThrow_bind (expected_vectorDestination _ _) rfl fun destination _ ↦ ?_
  dsimp only
  split
  · exact amiss (append_not_mem_unexpectedReasons (by decide)) rfl
  · refine Ensures.bind (writeVectorResult_spec _ _ _ rfl) fun c' hview ↦ ?_
    exact does_commit hok hstate hview

theorem does_commit_setMmio {c₁ c' : Rv64AtomicCore} (hview : c₁.view = c.view)
    {address value : UInt64} {size : UInt16} {mmio : MmioBusAdapter}
    (hwrite : c.mmio.write k.hartId address size value = .ok mmio)
    (hc' : c'.view = (c₁.setMmio k mmio).view) : Does k c c'.commit := by
  have hview' : c'.commit.view = { c.view with
      mmio := mmio
      transactions := c.view.transactions ++
        (mmio.issued.drop c.view.mmio.issued.length).map (MmioCommand.request k.hartId)
      state := .fetchDecode } := by
    rw [view_commit, hc', view_setMmio, hview]
  refine ⟨?_, ?_⟩
  · rw [hview']
    exact ⟨.inr ⟨address, size, value, hwrite⟩, rfl, rfl, rfl, by simp⟩
  · rw [hview']
    exact (hok.settle (.inr hstate) (.inl rfl)).setMmio
      (MmioBusAdapter.write_sendable hok.adapter hwrite)

theorem executeCsr_spec : Ensures (fun c' ↦ Does k c c'.commit) (Amiss c) (executeCsr k c) := by
  refine onThrow_bind (expected_readCsr k c _) rfl fun oldValue _ ↦ ?_
  have hview : (c.writeReg c.instruction.decoded.rd oldValue).view = c.view := view_writeReg c _ _
  have hmmio : (c.writeReg c.instruction.decoded.rd oldValue).mmio = c.mmio :=
    congrArg HartView.mmio hview
  -- what follows is the same for every operation
  have hrest : ∀ newValue : UInt64, ∀ write : Bool,
      Ensures (fun c' ↦ Does k c c'.commit) (Amiss c)
        (if write then onThrow (c.writeReg c.instruction.decoded.rd oldValue)
            (writeCsr k (c.writeReg c.instruction.decoded.rd oldValue)
              (c.instruction.decoded.imm.toUInt64 &&& 0xfff) newValue)
          else pure (c.writeReg c.instruction.decoded.rd oldValue)) := by
    intro newValue write
    refine Ensures.ite (fun _ ↦ ?_) fun _ ↦ does_commit hok hstate hview
    cases hwrite : writeCsr k (c.writeReg c.instruction.decoded.rd oldValue)
        (c.instruction.decoded.imm.toUInt64 &&& 0xfff) newValue with
    | error reason => exact amiss ((expected_writeCsr k _ _ _).of_eq_error hwrite) hmmio
    | ok c' =>
      rcases view_writeCsr hwrite with hsame | ⟨bus, mmio, hbus, rfl⟩
      · exact does_commit hok hstate (hsame.trans hview)
      · exact does_commit_setMmio hok hstate hview (hmmio ▸ hbus) rfl
  dsimp only
  split
  all_goals refine Ensures.bind (P := fun _ ↦ True) ?_ fun result _ ↦ hrest result.1 result.2
  any_goals trivial
  exact amiss (by decide) rfl

theorem Does.of_stage {q : MemoryRequest} (hq : q.Sendable k.hartId) (hsize : q.size.toNat ≤ 8)
    (hview : c'.view =
      { c.view with request := some q, prepared := c.view.prepared + 1, state := .memoryIssue }) :
    Does k c c' := by
  refine ⟨?_, ?_⟩
  · rw [hview]
    exact HartView.Keeps.works ⟨rfl, rfl, rfl, rfl⟩ (by simp)
  · rw [hview]
    exact hok.stage hstate hq hsize

theorem prepareLoad_spec : Ensures (Does k c) (Amiss c) (prepareLoad k c) := by
  rw [prepareLoad, parseLoadScalar]
  by_cases hload : c.instruction.decoded.controlType ≠ .load
  · simp only [if_pos hload]
    exact amiss (by decide) rfl
  · simp only [if_neg hload]
    obtain ⟨hpos, hle⟩ := scalarSize_pos_le c.instruction.decoded.funct3
    rw [← toNat_scalarSize] at hpos hle
    refine Does.of_stage hok hstate (q := {
        op := MemoryOp.read, hartId := k.hartId, transactionId := c.nextTransactionId
        address := c.x c.instruction.decoded.rs1 + c.instruction.decoded.imm.toUInt64
        size := UInt16.ofNat (scalarSize c.instruction.decoded.funct3) })
      ⟨.read rfl rfl hpos, rfl, hle.trans (by decide)⟩ hle ?_
    simp only [view, HartView.mk.injEq, true_and, and_true]
    omega

theorem prepareStore_spec : Ensures (Does k c) (Amiss c) (prepareStore k c) := by
  rw [prepareStore, parseStoreScalar]
  by_cases hstore : c.instruction.decoded.controlType ≠ .store
  · simp only [if_pos hstore]
    exact amiss (by decide) rfl
  · simp only [if_neg hstore]
    obtain ⟨hpos, hle⟩ := scalarSize_pos_le c.instruction.decoded.funct3
    have hsize := toNat_scalarSize c.instruction.decoded.funct3
    have hlen := length_appendLe (scalarSize c.instruction.decoded.funct3)
      (c.x c.instruction.decoded.rs2).toNat
    rw [← hlen] at hsize
    rw [← hlen, ← hsize] at hpos hle
    refine Does.of_stage hok hstate (q := {
        op := MemoryOp.write, hartId := k.hartId, transactionId := c.nextTransactionId
        address := c.x c.instruction.decoded.rs1 + c.instruction.decoded.imm.toUInt64
        size := UInt16.ofNat _
        data := appendLe (scalarSize c.instruction.decoded.funct3)
          (c.x c.instruction.decoded.rs2).toNat })
      ⟨.write rfl hsize.symm hpos, rfl, hle.trans (by decide)⟩ hle ?_
    simp only [view, HartView.mk.injEq, true_and, and_true]
    omega

theorem prepareVectorLoad_spec : Ensures (Does k c) (Amiss c) (prepareVectorLoad k c) := by
  refine onThrow_bind (expected_require (by decide)) rfl fun _ _ ↦ ?_
  refine onThrow_bind (expected_require (by decide)) rfl fun _ _ ↦ ?_
  refine onThrow_bind (expected_vectorMemoryElementBytes _) rfl fun width _ ↦ ?_
  refine onThrow_bind (expected_require (by decide)) rfl fun _ _ ↦ ?_
  refine onThrow_bind (expected_vectorOperand _ _ _) rfl fun operand _ ↦ ?_
  dsimp only
  split
  · exact amiss (append_not_mem_unexpectedReasons (by decide)) rfl
  · rename_i vctx descriptors hparse
    refine onThrow_bind (expected_readVectorGroup _ _) rfl fun buffer _ ↦ ?_
    have hloads : ∀ d ∈ normalizeUnitStrideLoads (c.x c.instruction.decoded.rs1) descriptors,
        0 < d.size.toNat ∧ d.size.toNat ≤ 15 := size_normalizeUnitStrideLoads hparse
    exact stageOrCommit_spec ⟨hok.adapter, rfl, hloads, hok.stores,
      hok.prepared_of_executeWait hstate⟩ ⟨rfl, rfl, rfl, rfl⟩

theorem prepareVectorStore_spec : Ensures (Does k c) (Amiss c) (prepareVectorStore k c) := by
  refine onThrow_bind (expected_require (by decide)) rfl fun _ _ ↦ ?_
  refine onThrow_bind (expected_require (by decide)) rfl fun _ _ ↦ ?_
  refine onThrow_bind (expected_vectorMemoryElementBytes _) rfl fun width _ ↦ ?_
  refine onThrow_bind (expected_require (by decide)) rfl fun _ _ ↦ ?_
  refine onThrow_bind (expected_vectorOperand _ _ _) rfl fun operand _ ↦ ?_
  refine onThrow_bind (expected_readVectorGroup _ _) rfl fun data _ ↦ ?_
  dsimp only
  split
  · exact amiss (append_not_mem_unexpectedReasons (by decide)) rfl
  · rename_i vctx descriptors hparse
    have hstores : ∀ d ∈ normalizeUnitStrideStores (c.x c.instruction.decoded.rs1) descriptors,
        0 < d.rawData.length ∧ d.rawData.length ≤ 15 := length_normalizeUnitStrideStores hparse
    exact stageOrCommit_spec ⟨hok.adapter, rfl, hok.loads, hstores,
      hok.prepared_of_executeWait hstate⟩ ⟨rfl, rfl, rfl, rfl⟩

/-- An instruction is done, waits, stops the core, prepares a request, or faults. -/
theorem execute_spec : Ensures (Does k c) (Amiss c) (execute k c) := by
  rw [execute]
  dsimp only
  split
  · refine Ensures.ite (fun _ ↦ ?_) fun _ ↦ executeInteger_spec hok hstate
    exact Ensures.ite (fun _ ↦ executeVectorConfig_does hok hstate)
      fun _ ↦ executeVectorAlu_spec hok hstate
  · split
    · exact does_commit hok hstate (view_setNextPc c _)
    · exact does_commit hok hstate rfl
  · exact does_commit hok hstate (view_writeReg c _ _)
  · exact does_commit hok hstate (view_writeReg c _ _)
  · exact does_commit hok hstate (view_writeReg c _ _)
  · exact does_commit hok hstate (view_writeReg c _ _)
  · exact prepareLoad_spec hok hstate
  · exact prepareStore_spec hok hstate
  · exact prepareVectorLoad_spec hok hstate
  · exact prepareVectorStore_spec hok hstate
  · exact Ensures.bind (executeCsr_spec hok hstate) fun c' hc' ↦ hc'
  -- the three fences
  iterate 3
    refine Ensures.ite (fun _ ↦ ?_) fun _ ↦ does_commit hok hstate rfl
    exact does_wait hok hstate rfl
  · exact Does.of_view hok (.inr hstate) (.inr (.inr rfl)) rfl
  · exact Does.of_view hok (.inr hstate) (.inr (.inr rfl)) rfl
  · exact amiss (by decide) rfl
  · exact amiss (by decide) rfl

theorem advanceExecute_spec :
    Does k c (advanceExecute k c) ∨ Faults c (advanceExecute k c) := by
  rw [advanceExecute]
  split_ifs with hfence
  · exact .inl (does_wait hok hstate rfl)
  · have hview : c.countExecuteWait.view = c.view := view_countExecuteWait c
    have hok' : c.countExecuteWait.view.Ok k.hartId := hview ▸ hok
    have hstate' : c.countExecuteWait.state = .executeWait :=
      (congrArg HartView.state hview).trans hstate
    dsimp only
    split_ifs
    · rcases recover_spec (execute_spec hok' hstate') with hdoes | hfaults
      · exact .inl (hdoes.of_view_eq hview)
      · exact .inr (hfaults.of_mmio_eq (congrArg HartView.mmio hview))
    · exact .inl (does_wait hok hstate hview)

end Execute

theorem fetch_spec (hok : c.view.Ok k.hartId) (hstate : c.state = .fetchDecode) :
    Ensures (fun c' ↦ Does k c c' ∨ Faults c c') (Amiss c) (fetch k c) := by
  refine onThrow_bind (k.program.expected_fetch16 _) rfl fun low _ ↦ ?_
  refine Ensures.ite (fun _ ↦ ?_) fun _ ↦ ?_
  · exact .inr ⟨_, c, rfl, rfl, append_not_mem_unexpectedReasons (by decide)⟩
  · refine onThrow_bind (k.program.expected_fetch32 _) rfl fun raw _ ↦ ?_
    dsimp only
    split
    · refine .inr ⟨_, c, rfl, rfl, ?_⟩
      rw [String.append_assoc, String.append_assoc]
      exact append_not_mem_unexpectedReasons (by decide)
    · refine onThrow_bind (expected_instructionLatency _ _ _ _) rfl fun cycles _ ↦ ?_
      exact .inl (.of_view hok (.inl hstate) (.inr (.inl rfl)) rfl)

theorem fetchDecode_spec (hok : c.view.Ok k.hartId) (hstate : c.state = .fetchDecode) :
    Does k c (fetchDecode k c) ∨ Faults c (fetchDecode k c) := by
  rcases recover_spec (fetch_spec (k := k) (c := { c with stats := { c.stats with
    fetchDecodeCycles := c.stats.fetchDecodeCycles + 1 } }) hok hstate) with (hdoes | hfaults) |
    hfaults
  · exact .inl (hdoes.of_view_eq rfl)
  · exact .inr (hfaults.of_mmio_eq rfl)
  · exact .inr (hfaults.of_mmio_eq rfl)

/-! ## The control window -/

/-- An access to the control window is done in the tick in which it would go to the bus. -/
theorem accessWindow_spec (hok : c.view.Ok k.hartId) (hstate : c.state = .memoryIssue) :
    Ensures (Does k c) (Amiss c) (accessWindow k c) := by
  refine onThrow_bind (expected_require (by decide)) rfl fun _ hactive ↦ ?_
  have hinactive : c.view.vectorActive = false := by
    rw [require_eq_ok_iff, Bool.not_eq_true'] at hactive
    exact hactive
  have hserved := hok.serve hstate hinactive
  refine Ensures.ite (fun _ ↦ ?_) fun _ ↦ ?_
  · refine onThrow_bind (c.mmio.expected_read _ _) rfl fun value _ ↦ ?_
    have hview : (c.writeReg c.loadRd value).view = c.view := view_writeReg c _ _
    have hview' : ({ (c.writeReg c.loadRd value).countWindowAccess with
        memoryRequest := none }.commit).view = { c.view with
          windowAccesses := c.view.windowAccesses + 1, request := none, state :=
            .fetchDecode } := by
      rw [← hview]
      rfl
    refine ⟨?_, ?_⟩
    · rw [hview']
      exact HartView.Keeps.works ⟨rfl, rfl, rfl, rfl⟩ (by simp)
    · rw [hview']
      exact hserved
  · dsimp only
    refine onThrow_bind (c.mmio.expected_write _ _ _ _) rfl fun mmio hwrite ↦ ?_
    refine ⟨⟨.inr ⟨_, _, _, hwrite⟩, rfl, rfl, rfl, by simp⟩, ?_⟩
    exact hserved.setMmio (MmioBusAdapter.write_sendable hok.adapter hwrite)

end Rv64AtomicCore

end Manycore
