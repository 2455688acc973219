import SimbusNoc.Library.Ensures
import SimbusNoc.Manycore.MmioStore
import SimbusNoc.Manycore.Rv64ManycoreSystem

/-!
# What the memory protocol sees of a core

Most of a core is of no concern to its requests: the registers, the program counter, the timers.
`HartView` is the rest. A function of the core that only works on registers leaves the view as it
is, and what a function does to the view is all that the invariants of the protocol read.

The lemmas `view_…` are the simp set of this projection: one for each function that cannot throw,
true by definition. `HartView.Ok` is the invariant of a view, which says that a request that is
prepared or sent is one that may go on the bus (`Sendable`), and that what is left of a vector
access is too. `Works` is the relation between the views before and after a step without the bus.
-/

namespace Manycore

open Simbus Rv64archsem Throwing

/-- The adapter, the state and the requests of a core. -/
structure HartView where
  mmio : MmioBusAdapter
  state : Rv64CoreState
  request : Option MemoryRequest
  vectorActive : Bool
  vectorIsLoad : Bool
  loads : List MemLoadDescriptor
  stores : List MemStoreDescriptor
  activeLoad : Option MemLoadDescriptor
  /-- The scalar accesses and the vector transactions that have been counted. -/
  prepared : ℕ
  transactions : List MemoryRequest
  sent : ℕ
  answered : List (MemoryRequest × MemoryResponse)
  windowAccesses : ℕ

namespace Rv64AtomicCore

/-- The view of a core. -/
def view (c : Rv64AtomicCore) : HartView where
  mmio := c.mmio
  state := c.state
  request := c.memoryRequest
  vectorActive := c.vectorMemoryActive
  vectorIsLoad := c.vectorMemoryIsLoad
  loads := c.vectorLoadDescriptors
  stores := c.vectorStoreDescriptors
  activeLoad := c.activeVectorLoad
  prepared := c.stats.loads + c.stats.stores + c.stats.vectorMemoryTransactions
  transactions := c.trace.transactions
  sent := c.trace.sent
  answered := c.trace.answered
  windowAccesses := c.trace.windowAccesses

variable (c : Rv64AtomicCore)

/-! ## The functions that cannot throw -/

@[simp] theorem view_commit : c.commit.view = { c.view with state := .fetchDecode } := rfl

@[simp] theorem view_stop (code : Int32) (reason : String) :
    (c.stop code reason).view = { c.view with state := .halted } := rfl

@[simp] theorem view_fault (reason : String) :
    (c.fault reason).view =
      { c.view with
        state := .faulted
        request := none
        loads := []
        stores := []
        activeLoad := none
        vectorActive := false } := rfl

@[simp] theorem view_writeReg (index : Fin 32) (value : UInt64) :
    (c.writeReg index value).view = c.view := by
  rw [writeReg]
  split_ifs <;> rfl

@[simp] theorem view_setNextPc (target : UInt64) : (c.setNextPc target).view = c.view := rfl

@[simp] theorem view_loadMask : c.loadMask.view = c.view := rfl

@[simp] theorem view_configureVector (requested avl : UInt64) :
    (c.configureVector requested avl).view = c.view := by
  rw [configureVector]
  dsimp only
  split_ifs <;> rfl

@[simp] theorem view_countSerializationWait : c.countSerializationWait.view = c.view := rfl

@[simp] theorem view_countExecuteWait : c.countExecuteWait.view = c.view := by
  rw [countExecuteWait]
  split_ifs <;> rfl

@[simp] theorem view_countVectorIssueWait : c.countVectorIssueWait.view = c.view := rfl

@[simp] theorem view_startRequest : c.startRequest.view = c.view := by
  rw [startRequest]
  split_ifs <;> rfl

@[simp] theorem view_countBlocked : c.countBlocked.view = c.view := rfl

@[simp] theorem view_countMemoryWait : c.countMemoryWait.view = c.view := rfl

@[simp] theorem view_countTick : c.countTick.view = c.view := rfl

@[simp] theorem view_countWindowAccess :
    c.countWindowAccess.view = { c.view with windowAccesses := c.view.windowAccesses + 1 } := rfl

@[simp] theorem view_setMmio (k : Rv64Hart) (mmio : MmioBusAdapter) :
    (c.setMmio k mmio).view =
      { c.view with
        mmio := mmio
        transactions := c.view.transactions ++
          (mmio.issued.drop c.view.mmio.issued.length).map (MmioCommand.request k.hartId) } := rfl

@[simp] theorem view_advanceMmio (mmio : MmioBusAdapter) :
    (c.advanceMmio mmio).view = { c.view with mmio := mmio } := rfl

end Rv64AtomicCore

/-! ## The invariant of a view -/

/-- What a hart may put on the bus. -/
structure MemoryRequest.Sendable (hart : UInt32) (q : MemoryRequest) : Prop where
  valid : q.Valid
  hartId : q.hartId = hart
  size_le : q.size.toNat ≤ 15

namespace HartView

/-- What holds of the request of a core that is about to send it, or waits for its response. -/
structure Staged (hart : UInt32) (v : HartView) (q : MemoryRequest) : Prop where
  request : v.request = some q
  sendable : q.Sendable hart
  /-- The result of a scalar load fits a register. -/
  scalar : v.vectorActive = false → q.size.toNat ≤ 8
  /-- The response to a request of a vector load has a place. -/
  vector : v.vectorActive = true → v.vectorIsLoad = true →
    q.op = MemoryOp.read ∧ ∃ d, v.activeLoad = some d ∧ d.size = q.size

/-- What holds of a core in every reachable state. -/
structure Ok (hart : UInt32) (v : HartView) : Prop where
  adapter : ∀ e ∈ v.mmio.requests, e.request.Sendable hart
  staged : v.state = .memoryIssue ∨ v.state = .memoryWait → ∃ q, v.Staged hart q
  inactive : v.state = .fetchDecode ∨ v.state = .executeWait → v.vectorActive = false
  loads : ∀ d ∈ v.loads, 0 < d.size.toNat ∧ d.size.toNat ≤ 15
  stores : ∀ d ∈ v.stores, 0 < d.rawData.length ∧ d.rawData.length ≤ 15
  /-- Each access that has been counted went to the control window or to the bus, or is about to. -/
  prepared : v.state ≠ .faulted →
    v.prepared = v.windowAccesses + v.sent + if v.state = .memoryIssue then 1 else 0

/-- A core has done some work without the bus. -/
structure Works (hart : UInt32) (v v' : HartView) : Prop where
  mmio : v'.mmio = v.mmio ∨
    ∃ address size value, v.mmio.write hart address size value = .ok v'.mmio
  transactions : v'.transactions = v.transactions ++
    (v'.mmio.issued.drop v.mmio.issued.length).map (MmioCommand.request hart)
  sent : v'.sent = v.sent
  answered : v'.answered = v.answered
  state : v'.state ≠ .memoryWait ∧ v'.state ≠ .faulted

end HartView

end Manycore
