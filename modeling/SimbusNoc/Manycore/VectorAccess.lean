import SimbusNoc.Manycore.HartTurn
import SimbusNoc.Manycore.PreciseFaults

/-!
# The course of a vector access

A vector access makes its requests one at a time. While it is under way the core has the requests
that have been answered, the one it is about to send or waits for, and the rest of the plan; the
registers are as they were before the instruction, and a load fills its buffer.

## The plan

`Plans` says what the core plans in the state in which it executes the instruction: a list of
sub-transactions, from the descriptors of the library with the core's own addresses. It is fixed
from then on. `Requesting` cuts it into what has been answered, the request under way and the rest,
and `Between` is the moment at which the next request is not yet prepared.

## The course

An access begins with `prepareVectorLoad` or `prepareVectorStore`, goes on with each response, and
is over when the plan is used up; `Proceeds` is the common postcondition of these steps.
`Accessing.underway` is the induction over the turns. Whatever is sent in between is in the plan
and in its order, and the modules on transactions and buffers need nothing else about the core.
-/

namespace Manycore

open Simbus Rv64archsem Throwing

/-! ## Sub-transactions -/

/-- One request of a vector access, whatever its transaction id. -/
structure SubTransaction where
  op : MemoryOp
  address : UInt64
  size : UInt16
  data : Bytes
  /-- Where the data of a load go in the register group. -/
  regOffset : ℕ

namespace SubTransaction

def ofLoad (d : MemLoadDescriptor) : SubTransaction :=
  ⟨MemoryOp.read, d.addr, d.size, [], d.regOffset.toNat⟩

def ofStore (d : MemStoreDescriptor) : SubTransaction :=
  ⟨MemoryOp.write, d.addr, UInt16.ofNat d.rawData.length, d.rawData, 0⟩

/-- The request is one for this sub-transaction. -/
structure Asks (t : SubTransaction) (q : MemoryRequest) : Prop where
  op : q.op = t.op
  address : q.address = t.address
  size : q.size = t.size
  data : q.data = t.data

/-- The sub-transaction has been requested and answered. -/
structure Served (isLoad : Bool) (t : SubTransaction) (x : MemoryRequest × MemoryResponse) :
    Prop where
  asks : t.Asks x.1
  transactionId : x.2.transactionId = x.1.transactionId
  status : x.2.status = MemoryStatus.ok
  length : isLoad = true → x.2.data.length = x.1.size.toNat

end SubTransaction

/-- Sub-transactions with the requests for them and the responses. -/
abbrev Replies := List (SubTransaction × MemoryRequest × MemoryResponse)

namespace Rv64AtomicCore

variable {k : Rv64Hart} {c c₁ c₂ c' : Rv64AtomicCore} {buffer : List UInt64}
  {plan : List SubTransaction} {done : Replies}

/-- The buffer of a load after these replies. -/
def fill (buffer : List UInt64) (done : Replies) : List UInt64 :=
  done.foldl (fun words x ↦ copyBytes words x.1.regOffset x.2.2.data) buffer

/-- The sub-transactions that the core has still to prepare. -/
def queue (c : Rv64AtomicCore) : List SubTransaction :=
  if c.vectorMemoryIsLoad then c.vectorLoadDescriptors.map .ofLoad
  else c.vectorStoreDescriptors.map .ofStore

/-- What the core in state `c` plans for its vector access, and the buffer that a load starts
with. -/
inductive Plans (c : Rv64AtomicCore) : Bool → List UInt64 → List SubTransaction → Prop
  | load {operand buffer : List UInt64} {descriptors : List MemLoadDescriptor}
      (hcontrol : c.instruction.decoded.controlType = .vload)
      (hname : c.instruction.decoded.instName = .vleXV)
      (hplain : isPlainVectorAccess c.instruction.decoded = true)
      (hwidth : vectorMemoryElementBytes c.instruction.decoded =
        .ok (configuredVectorElementBytes c.vectorContext))
      (hparse : parseLoadVector c.instruction.decoded c.loadMask.vectorContext
        (c.x c.instruction.decoded.rs1) operand =
          .ok ({ c.loadMask.vectorContext with vstart := 0 }, descriptors))
      (hbuffer : c.readVectorGroup c.instruction.decoded.rd = .ok buffer) :
      Plans c true buffer ((normalizeUnitStrideLoads (c.x c.instruction.decoded.rs1)
        descriptors).map .ofLoad)
  | store {operand data : List UInt64} {descriptors : List MemStoreDescriptor}
      (hcontrol : c.instruction.decoded.controlType = .vstore)
      (hname : c.instruction.decoded.instName = .vseXV)
      (hplain : isPlainVectorAccess c.instruction.decoded = true)
      (hwidth : vectorMemoryElementBytes c.instruction.decoded =
        .ok (configuredVectorElementBytes c.vectorContext))
      (hdata : c.readVectorGroup c.instruction.decoded.rs3 = .ok data)
      (hparse : parseStoreVector c.instruction.decoded c.loadMask.vectorContext
        (c.x c.instruction.decoded.rs1) operand data =
          .ok ({ c.loadMask.vectorContext with vstart := 0 }, descriptors)) :
      Plans c false [] ((normalizeUnitStrideStores (c.x c.instruction.decoded.rs1)
        descriptors).map .ofStore)

/-- What does not change in the course of the access, but for `vstart`. -/
structure Unmoved (c c' : Rv64AtomicCore) : Prop where
  registers : c'.registers = c.registers
  vectorContext : c'.vectorContext = { c.loadMask.vectorContext with vstart := 0 }
  pending : c'.pending = c.pending
  active : c'.vectorMemoryActive = true
  register : c'.vectorMemoryIsLoad = true → c'.vectorMemoryRegister = c.instruction.decoded.rd

/-- The access has these replies, and its next request is not yet prepared. -/
structure Between (c : Rv64AtomicCore) (buffer : List UInt64) (plan : List SubTransaction)
    (done : Replies) (c' : Rv64AtomicCore) : Prop extends Unmoved c c' where
  plans : Plans c c'.vectorMemoryIsLoad buffer plan
  plan_eq : plan = done.map Prod.fst ++ c'.queue
  served : ∀ x ∈ done, x.1.Served c'.vectorMemoryIsLoad x.2
  filled : c'.vectorMemoryIsLoad = true → c'.vectorLoadBuffer = fill buffer done
  answered : c'.trace.answered = c.trace.answered ++ done.map Prod.snd
  transactions : c'.trace.transactions = c.trace.transactions ++ done.map (·.2.1)

/-- The access has these replies, and request `q` for `t` is the next. -/
structure Requesting (c : Rv64AtomicCore) (buffer : List UInt64) (plan : List SubTransaction)
    (done : Replies) (t : SubTransaction) (q : MemoryRequest) (c' : Rv64AtomicCore) : Prop
    extends Unmoved c c' where
  state : c'.state = .memoryIssue ∨ c'.state = .memoryWait
  plans : Plans c c'.vectorMemoryIsLoad buffer plan
  plan_eq : plan = done.map Prod.fst ++ t :: c'.queue
  served : ∀ x ∈ done, x.1.Served c'.vectorMemoryIsLoad x.2
  filled : c'.vectorMemoryIsLoad = true → c'.vectorLoadBuffer = fill buffer done
  request : c'.memoryRequest = some q
  asks : t.Asks q
  load : c'.vectorMemoryIsLoad = true → ∃ d, c'.activeVectorLoad = some d ∧ .ofLoad d = t
  answered : c'.trace.answered = c.trace.answered ++ done.map Prod.snd
  transactions : c'.trace.transactions = c.trace.transactions ++ done.map (·.2.1) ++
    if c'.state = .memoryWait then [q] else []

/-- The access that the core in state `c` began is under way. -/
def Underway (c c' : Rv64AtomicCore) : Prop :=
  ∃ buffer plan done t q, Requesting c buffer plan done t q c'

/-- The access that the core in state `c` began has retired. -/
def Finished (c c' : Rv64AtomicCore) : Prop :=
  ∃ buffer plan done c₁, Between c buffer plan done c₁ ∧ c₁.queue = [] ∧
    ∃ c₂, (if c₁.vectorMemoryIsLoad then
        c₁.writeVectorGroup c.instruction.decoded.rd (fill buffer done) = .ok c₂
      else c₂ = c₁) ∧ c' = { c₂ with vectorLoadBuffer := [], vectorMemoryActive := false }.commit

/-! ## Preparing requests

The next request is taken from the front of the core's queue. When the queue is empty the access is
over.
-/

theorem moreVectorRequests_eq (c : Rv64AtomicCore) : c.moreVectorRequests = !c.queue.isEmpty := by
  rw [moreVectorRequests, queue]
  cases c.vectorMemoryIsLoad <;> simp

theorem Between.stage (h : Between c buffer plan done c₁) :
    Ensures (Underway c) (fun _ ↦ True) (stageNextVectorRequest k c₁) := by
  have hplan := h.plan_eq
  rw [stageNextVectorRequest]
  rw [queue] at hplan
  refine Ensures.ite (fun hload ↦ ?_) fun hload ↦ ?_
  · rw [if_pos hload] at hplan
    split
    · trivial
    · next d rest hrest =>
      rw [hrest, List.map_cons] at hplan
      refine ⟨buffer, plan, done, .ofLoad d, _, { h with
        state := .inl rfl
        plan_eq := ?_
        request := rfl
        asks := ⟨rfl, rfl, rfl, rfl⟩
        load := fun _ ↦ ⟨d, rfl, rfl⟩
        transactions := ?_ }⟩
      · rw [queue, if_pos hload]
        exact hplan
      · exact h.transactions.trans (List.append_nil _).symm
  · rw [if_neg hload] at hplan
    split
    · trivial
    · next d rest hrest =>
      rw [hrest, List.map_cons] at hplan
      refine ⟨buffer, plan, done, .ofStore d, _, { h with
        state := .inl rfl
        plan_eq := ?_
        request := rfl
        asks := ⟨rfl, rfl, rfl, rfl⟩
        load := fun h ↦ absurd h hload
        transactions := ?_ }⟩
      · rw [queue, if_neg hload]
        exact hplan
      · exact h.transactions.trans (List.append_nil _).symm

/-- What becomes of a core that begins a vector access: its first request is prepared, or the
access is over. -/
def Begun (c c' : Rv64AtomicCore) : Prop := c'.vectorMemoryActive = true → Underway c c'

theorem begun_of_between {empty : Bool} (h : ∃ buffer plan, Between c buffer plan [] c₁) :
    Ensures (Begun c) (fun _ ↦ True)
      (if empty then pure { c₁ with vectorMemoryActive := false }.commit
        else stageNextVectorRequest k c₁) := by
  obtain ⟨buffer, plan, hbetween⟩ := h
  refine Ensures.ite (fun _ hactive ↦ nomatch hactive) fun _ ↦ ?_
  exact hbetween.stage.mono (fun _ hc' _ ↦ hc') fun _ ↦ id

theorem begun_bind {α : Type} {x : Except String α} {f : α → Attempt}
    (hf : ∀ a, x = .ok a → Ensures (Begun c) (fun _ ↦ True) (f a)) :
    Ensures (Begun c) (fun _ ↦ True) (onThrow c₁ x >>= f) := by
  cases x with
  | ok a => exact hf a rfl
  | error reason => trivial

theorem prepareVectorLoad_begun (k : Rv64Hart)
    (hcontrol : c.instruction.decoded.controlType = .vload) :
    Ensures (Begun c) (fun _ ↦ True) (prepareVectorLoad k c) := by
  refine begun_bind fun _ hname ↦ begun_bind fun _ hplain ↦ ?_
  refine begun_bind fun width hwidth ↦ begun_bind fun _ hsew ↦ ?_
  refine begun_bind fun operand _ ↦ ?_
  dsimp only
  split
  · trivial
  · next vctx descriptors hparse =>
    obtain rfl := eq_of_parseLoadVector hparse
    refine begun_bind fun buffer hbuffer ↦ ?_
    rw [require_eq_ok_iff, beq_iff_eq] at hname hsew
    rw [require_eq_ok_iff] at hplain
    exact begun_of_between ⟨_, _, {
      registers := rfl, vectorContext := rfl, pending := rfl, active := rfl
      register := fun _ ↦ rfl
      plans := .load hcontrol hname hplain (hsew ▸ hwidth) hparse hbuffer
      plan_eq := rfl
      served := fun _ h ↦ nomatch h
      filled := fun _ ↦ rfl
      answered := (List.append_nil _).symm
      transactions := (List.append_nil _).symm }⟩

theorem prepareVectorStore_begun (k : Rv64Hart)
    (hcontrol : c.instruction.decoded.controlType = .vstore) :
    Ensures (Begun c) (fun _ ↦ True) (prepareVectorStore k c) := by
  refine begun_bind fun _ hname ↦ begun_bind fun _ hplain ↦ ?_
  refine begun_bind fun width hwidth ↦ begun_bind fun _ hsew ↦ ?_
  refine begun_bind fun operand _ ↦ begun_bind fun data hdata ↦ ?_
  dsimp only
  split
  · trivial
  · next vctx descriptors hparse =>
    obtain rfl := eq_of_parseStoreVector hparse
    rw [require_eq_ok_iff, beq_iff_eq] at hname hsew
    rw [require_eq_ok_iff] at hplain
    exact begun_of_between ⟨_, _, {
      registers := rfl, vectorContext := rfl, pending := rfl, active := rfl
      register := fun h ↦ nomatch h
      plans := .store hcontrol hname hplain (hsew ▸ hwidth) hdata hparse
      plan_eq := rfl
      served := fun _ h ↦ nomatch h
      filled := fun h ↦ nomatch h
      answered := (List.append_nil _).symm
      transactions := (List.append_nil _).symm }⟩

/-! ## Taking responses

A response serves the sub-transaction under way, and then the next request is prepared.
-/

/-- The access goes on, or it has retired. -/
def Proceeds (c c' : Rv64AtomicCore) : Prop := Underway c c' ∨ Finished c c'

theorem proceeds_bind {α : Type} {x : Except String α} {f : α → Attempt}
    (hf : ∀ a, x = .ok a → Ensures (Proceeds c) (fun _ ↦ True) (f a)) :
    Ensures (Proceeds c) (fun _ ↦ True) (onThrow c₁ x >>= f) := by
  cases x with
  | ok a => exact hf a rfl
  | error reason => trivial

theorem Between.proceeds (h : Between c buffer plan done c₁) :
    Ensures (Proceeds c) (fun _ ↦ True)
      (if c₁.moreVectorRequests then stageNextVectorRequest k c₁
      else do
        let c ← if c₁.vectorMemoryIsLoad then
            onThrow c₁ (c₁.writeVectorGroup c₁.vectorMemoryRegister c₁.vectorLoadBuffer)
          else .ok c₁
        return { c with vectorLoadBuffer := [], vectorMemoryActive := false }.commit) := by
  refine Ensures.ite (fun _ ↦ h.stage.mono (fun _ ↦ .inl) fun _ ↦ id) fun hmore ↦ ?_
  have hqueue : c₁.queue = [] := by
    rw [moreVectorRequests_eq] at hmore
    simpa using hmore
  refine Ensures.ite (fun hload ↦ ?_) fun hload ↦ ?_
  · refine proceeds_bind fun c₂ hwrite ↦ .inr ⟨buffer, plan, done, c₁, h, hqueue, c₂, ?_, rfl⟩
    rw [if_pos hload, ← h.filled hload, ← h.register hload]
    exact hwrite
  · refine .inr ⟨buffer, plan, done, c₁, h, hqueue, c₁, ?_, rfl⟩
    rw [if_neg hload]

variable {t : SubTransaction} {q : MemoryRequest} {response : MemoryResponse}

/-- The response to the request of a sub-transaction serves it. -/
theorem Requesting.between (h : Requesting c buffer plan done t q c₁)
    (hstate : c₁.state = .memoryWait)
    (hserved : t.Served c₁.vectorMemoryIsLoad (q, response))
    (hanswered : c₂.trace.answered = c₁.trace.answered ++ [(q, response)])
    (htransactions : c₂.trace.transactions = c₁.trace.transactions)
    (hunmoved : Unmoved c c₂) (hisLoad : c₂.vectorMemoryIsLoad = c₁.vectorMemoryIsLoad)
    (hqueue : c₂.queue = c₁.queue)
    (hfilled : c₂.vectorMemoryIsLoad = true →
      c₂.vectorLoadBuffer = copyBytes c₁.vectorLoadBuffer t.regOffset response.data) :
    Between c buffer plan (done ++ [(t, q, response)]) c₂ where
  toUnmoved := hunmoved
  plans := hisLoad ▸ h.plans
  plan_eq := by
    rw [h.plan_eq, List.map_append, List.append_assoc, hqueue]
    rfl
  served := by
    intro x hx
    rw [hisLoad]
    rcases List.mem_append.mp hx with hx | hx
    · exact h.served x hx
    · exact List.mem_singleton.mp hx ▸ hserved
  filled := by
    intro hload
    rw [hfilled hload, h.filled (hisLoad ▸ hload), fill, fill, List.foldl_append]
    rfl
  answered := by
    rw [hanswered, h.answered, List.map_append, List.append_assoc]
    rfl
  transactions := by
    rw [htransactions, h.transactions, if_pos hstate, List.map_append, List.append_assoc]
    rfl

theorem Requesting.finish (h : Requesting c buffer plan done t q c₁)
    (hstate : c₁.state = .memoryWait)
    (hserved : c₁.vectorMemoryIsLoad = false → t.Served false (q, response))
    (hserved' : response.data.length = q.size.toNat → t.Served true (q, response))
    (hkept : ∃ stats requestStarted, c₂ = { c₁ with
      stats := stats
      requestStarted := requestStarted
      trace := { c₁.trace with answered := c₁.trace.answered ++ [(q, response)] } }) :
    Ensures (Proceeds c) (fun _ ↦ True) (finishVectorMemoryResponse k c₂ response) := by
  obtain ⟨stats, requestStarted, rfl⟩ := hkept
  rw [finishVectorMemoryResponse]
  refine Ensures.ite (fun hload ↦ ?_) fun hload ↦ ?_
  · obtain ⟨d, hd, hdt⟩ := h.load hload
    have hisLoad : c₁.vectorMemoryIsLoad = true := hload
    rw [takeVectorData]
    dsimp only
    rw [hd]
    dsimp only
    refine Ensures.bind (P := fun c₃ : Rv64AtomicCore ↦
      Between c buffer plan (done ++ [(t, q, response)]) { c₃ with memoryRequest := none }) ?_
      fun c₃ hc₃ ↦ hc₃.proceeds
    -- Both checks throw, so what goes on has data of the size asked for.
    refine Ensures.bind (P := fun _ ↦ response.data.length = d.size.toNat) ?_ fun _ hlength ↦ ?_
    · cases hcheck : response.data.length == d.size.toNat with
      | true => exact beq_iff_eq.mp hcheck
      | false => trivial
    · refine Ensures.bind (P := fun _ ↦ True) ?_ fun _ _ ↦ ?_
      · cases decide (d.regOffset.toNat + response.data.length ≤ c₁.vectorLoadBuffer.length * 8) <;>
          trivial
      · have hsize : response.data.length = q.size.toNat := by
          rw [hlength, h.asks.size, ← hdt]
          rfl
        refine h.between hstate (hisLoad.symm ▸ hserved' hsize) rfl rfl
          ⟨h.registers, h.vectorContext, h.pending, h.active, h.register⟩ rfl rfl fun _ ↦ ?_
        rw [← hdt]
        rfl
  · have hisLoad : c₁.vectorMemoryIsLoad = false := Bool.eq_false_of_not_eq_true hload
    refine @Between.proceeds k c _ buffer plan (done ++ [(t, q, response)]) ?_
    exact h.between hstate (hisLoad.symm ▸ hserved hisLoad) rfl rfl
      ⟨h.registers, h.vectorContext, h.pending, h.active, h.register⟩ rfl rfl
      fun h' ↦ absurd h' hload

theorem Requesting.takeResponse (h : Requesting c buffer plan done t q c₁)
    (hstate : c₁.state = .memoryWait) (bytes : Bytes) :
    Ensures (Proceeds c) (fun _ ↦ True) (takeResponse k c₁ bytes) := by
  refine proceeds_bind fun response _ ↦ ?_
  rw [h.request]
  refine proceeds_bind fun _ hids ↦ proceeds_bind fun _ hstatus ↦ ?_
  rw [require_eq_ok_iff, Bool.and_eq_true, beq_iff_eq, beq_iff_eq] at hids
  rw [require_eq_ok_iff, beq_iff_eq] at hstatus
  dsimp only
  rw [if_pos (by rw [recordLatency]; split <;> exact h.active)]
  refine h.finish hstate (fun _ ↦ ⟨h.asks, hids.2, hstatus, fun hload ↦ (by cases hload)⟩)
    (fun hlength ↦ ⟨h.asks, hids.2, hstatus, fun _ ↦ hlength⟩) ?_
  rw [recordLatency]
  split
  · exact ⟨_, _, rfl⟩
  · exact ⟨_, _, rfl⟩

/-! ## Turns

Turns of the adapter do not touch the access, and a turn of the core either waits or is one of
these steps.
-/

theorem Requesting.startRequest (h : Requesting c buffer plan done t q c₁) :
    Requesting c buffer plan done t q c₁.startRequest := by
  rw [Rv64AtomicCore.startRequest]
  split
  · exact { h with }
  · exact h

/-- In a turn of its own the core goes on with the access, or the access is over. -/
theorem Underway.tickCore {σ : Type} {bus : IBus σ} {port memoryPort : BusPortT} {s s' : σ}
    (h : Underway c c₁) (hturn : c₁.tickCore bus k port memoryPort s = .ok (c₂, s')) :
    Proceeds c c₂ ∨ ∃ c₃ reason, c₂ = fault c₃ reason := by
  obtain ⟨buffer, plan, done, t, q, hrequesting⟩ := h
  have hgoes : ∀ {c₂}, Requesting c buffer plan done t q c₂ →
      Proceeds c c₂ ∨ ∃ c₃ reason, c₂ = fault c₃ reason :=
    fun h ↦ .inl (.inl ⟨buffer, plan, done, t, q, h⟩)
  -- While the access is under way the core is about to send its request, or waits for the response.
  rcases tickCore_cases hturn with rfl | ⟨hstate, -⟩ | ⟨hstate, -⟩ | ⟨hstate, hissue⟩ |
    ⟨hstate, hreceive⟩
  · exact hgoes hrequesting
  · rcases hrequesting.state with h | h <;> cases hstate.symm.trans h
  · rcases hrequesting.state with h | h <;> cases hstate.symm.trans h
  · have htick : Requesting c buffer plan done t q c₁.countTick := { hrequesting with }
    rcases issueMemoryRequest_fst hissue with rfl | ⟨-, -, rfl⟩ | rfl | rfl | ⟨-, -, rfl⟩
    · exact hgoes { htick with }
    · -- the control window does not serve vector accesses
      refine .inr ?_
      have hthrow : accessWindow k c₁.countTick =
          .error ("vector MMIO is unsupported", c₁.countTick) := by
        rw [accessWindow, htick.active]
        rfl
      rw [hthrow]
      exact ⟨_, _, rfl⟩
    · exact hgoes { htick with }
    · exact hgoes { htick.startRequest with }
    · have hstart := htick.startRequest
      have hstate' : c₁.countTick.startRequest.state = .memoryIssue := by
        rw [Rv64AtomicCore.startRequest]
        split <;> exact hstate
      refine hgoes { hstart with state := .inr rfl, transactions := ?_ }
      have hrequest : c₁.countTick.startRequest.request = q := by
        rw [request, hstart.request, Option.getD_some]
      have htransactions := hstart.transactions
      rw [hstate', if_neg (by decide), List.append_nil] at htransactions
      dsimp only
      rw [htransactions, hrequest, if_pos rfl]
  · have htick : Requesting c buffer plan done t q c₁.countTick := { hrequesting with }
    rcases receiveMemoryResponse_fst hreceive with rfl | ⟨bytes, rfl⟩
    · exact hgoes { htick with }
    · have htake := htick.takeResponse (k := k) hstate bytes
      cases hresult : Rv64AtomicCore.takeResponse k c₁.countTick bytes with
      | ok c₃ => exact .inl (htake.of_eq_ok hresult)
      | error e => exact .inr ⟨_, _, rfl⟩

theorem Underway.tickMmio {σ : Type} (bus : IBus σ) (port memoryPort : BusPortT) (s : σ)
    (h : Underway c c₁) :
    Underway c (c₁.tickMmio bus k port memoryPort s).1 ∨
      ∃ c₃ reason, (c₁.tickMmio bus k port memoryPort s).1 = fault c₃ reason := by
  obtain ⟨buffer, plan, done, t, q, hrequesting⟩ := h
  obtain ⟨mmio, hc' | ⟨reason, hc'⟩⟩ := @tickMmio_fst k c₁ _ bus port memoryPort s
  · rw [hc']
    exact .inl ⟨buffer, plan, done, t, q, { hrequesting with }⟩
  · rw [hc']
    exact .inr ⟨_, _, rfl⟩

/-- The states of a core in the course of the vector access that it executes in state `c`. -/
inductive Accessing (k : Rv64Hart) (c : Rv64AtomicCore) : Rv64AtomicCore → Prop
  | start {c' : Rv64AtomicCore} (hstate : c.state = .executeWait)
      (hcontrol : c.instruction.decoded.controlType = .vload ∨
        c.instruction.decoded.controlType = .vstore)
      (hturn : Turn k c c') (hactive : c'.vectorMemoryActive = true) : Accessing k c c'
  | turn {c₁ c' : Rv64AtomicCore} (h : Accessing k c c₁) (hturn : Turn k c₁ c')
      (hactive : c'.vectorMemoryActive = true) : Accessing k c c'

theorem Plans.congr {stats : Rv64CoreStats} {cyclesLeft : ℕ} {isLoad : Bool}
    (h : Plans { c with stats := stats, cyclesLeft := cyclesLeft } isLoad buffer plan) :
    Plans c isLoad buffer plan := by
  cases h with
  | load hcontrol hname hplain hwidth hparse hbuffer =>
    exact .load hcontrol hname hplain hwidth hparse hbuffer
  | store hcontrol hname hplain hwidth hdata hparse =>
    exact .store hcontrol hname hplain hwidth hdata hparse

/-- The core counts its cycles before it executes. -/
theorem Underway.congr {stats : Rv64CoreStats} {cyclesLeft : ℕ}
    (h : Underway { c with stats := stats, cyclesLeft := cyclesLeft } c') : Underway c c' := by
  obtain ⟨buffer, plan, done, t, q, h⟩ := h
  exact ⟨buffer, plan, done, t, q, { h with plans := h.plans.congr }⟩

theorem advanceExecute_cases (k : Rv64Hart) (c : Rv64AtomicCore) : ∃ stats cyclesLeft,
    advanceExecute k c.countTick = { c with stats := stats, cyclesLeft := cyclesLeft } ∨
      advanceExecute k c.countTick =
        executeReadyInstruction k { c with stats := stats, cyclesLeft := cyclesLeft } := by
  rw [advanceExecute]
  split
  · exact ⟨_, _, .inl rfl⟩
  · rw [countExecuteWait]
    dsimp only
    split
    · split
      · exact ⟨_, _, .inr rfl⟩
      · exact ⟨_, _, .inl rfl⟩
    · split
      · exact ⟨_, _, .inr rfl⟩
      · exact ⟨_, _, .inl rfl⟩

theorem execute_begun (hcontrol : c.instruction.decoded.controlType = .vload ∨
      c.instruction.decoded.controlType = .vstore) :
    Ensures (Begun c) (fun _ ↦ True) (execute k c) := by
  rw [execute]
  rcases hcontrol with hcontrol | hcontrol <;> rw [hcontrol]
  · exact prepareVectorLoad_begun k hcontrol
  · exact prepareVectorStore_begun k hcontrol

theorem advanceExecute_underway (hinactive : c.vectorMemoryActive = false)
    (hcontrol : c.instruction.decoded.controlType = .vload ∨
      c.instruction.decoded.controlType = .vstore)
    (hactive : (advanceExecute k c.countTick).vectorMemoryActive = true) :
    Underway c (advanceExecute k c.countTick) := by
  obtain ⟨stats, cyclesLeft, hc' | hc'⟩ := advanceExecute_cases k c
  · rw [hc'] at hactive
    exact Bool.noConfusion (hactive.symm.trans hinactive)
  · set c₁ : Rv64AtomicCore := { c with stats := stats, cyclesLeft := cyclesLeft }
    have hbegun : Ensures (Begun c₁) (fun _ ↦ True) (execute k c₁) := execute_begun hcontrol
    rw [hc', executeReadyInstruction] at hactive ⊢
    cases hresult : execute k c₁ with
    | ok c₂ =>
      rw [hresult] at hactive
      exact (hbegun.of_eq_ok hresult hactive).congr
    | error e =>
      rw [hresult] at hactive
      cases hactive

theorem Finished.inactive (h : Finished c c') : c'.vectorMemoryActive = false := by
  obtain ⟨-, -, -, -, -, -, -, -, rfl⟩ := h
  rfl

theorem Underway.turn (h : Underway c c₁) (hturn : Turn k c₁ c') :
    Proceeds c c' ∨ ∃ c₂ reason, c' = fault c₂ reason := by
  cases hturn with
  | adapter bus port memoryPort s => exact (h.tickMmio bus port memoryPort s).imp_left .inl
  | core bus port memoryPort s hcore => exact h.tickCore hcore

/-- The states in the course of an access are those in which it is under way. -/
theorem Accessing.underway (hreachable : Reachable k c) (h : Accessing k c c') : Underway c c' := by
  induction h with
  | start hstate hcontrol hturn hactive =>
    have hinactive : c.vectorMemoryActive = false := hreachable.view_ok.inactive (.inr hstate)
    cases hturn with
    | adapter bus port memoryPort s =>
      obtain ⟨mmio, hc' | ⟨reason, hc'⟩⟩ := @tickMmio_fst k c _ bus port memoryPort s <;>
        rw [hc'] at hactive
      · exact Bool.noConfusion (hactive.symm.trans hinactive)
      · cases hactive
    | core bus port memoryPort s hcore =>
      rw [tickCore_of_executeWait hstate] at hcore
      obtain rfl := (Prod.mk.inj (Except.ok.inj hcore)).1
      exact advanceExecute_underway hinactive hcontrol hactive
  | turn h hturn hactive ih =>
    rcases ih.turn hturn with (hunderway | hfinished) | ⟨c₂, reason, rfl⟩
    · exact hunderway
    · exact Bool.noConfusion (hactive.symm.trans hfinished.inactive)
    · cases hactive

end Rv64AtomicCore

end Manycore
