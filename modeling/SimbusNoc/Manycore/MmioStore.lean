import SimbusNoc.Manycore.MmioBusAdapter
import SimbusNoc.Manycore.MemoryRefinement
import Mathlib.Data.List.Perm.Basic

/-!
# What the MMIO adapter keeps

A bus that answers every request once is `Answering`: it owes answers to a list of requests, takes
new ones when it likes, and answers any of those it owes. Against such a bus, whatever is read from
and written to the registers, the adapter neither loses nor doubles a command, keeps its requests
and results within its depth, and sends each request as it was commanded.

## The invariant

`Store` is stated about the adapter, the requests that the bus owes answers to, and the exchange so
far. The accepted commands are the finished ones and the outstanding ones, in some order; what the
exchange has sent is the commands in their order, up to the first that has not been taken; the owed
requests are those that have been taken and not answered; and with a greater depth ids above the
last one given out are free. With depth 1 the FIFO of results stays empty, otherwise DONE says that
it holds one.

## The proofs

Most register accesses touch none of this, and `SameStore` lists the parts that count. There remain
the three events: a command is accepted (`Store.accept`), the bus takes the oldest request
(`Store.markSent`), and a response comes (`Store.complete`). In the last, the answered request is
found by its id because the ids in use differ: with a greater depth by the invariant, and with
depth 1 because there is one request. `Reaches.store` is the induction over a run, and
`store_invariant` reads the promises off its end.
-/

namespace Manycore

open Simbus

variable {σ : Type}

/-! ## A bus that answers -/

/-- The bus owes `owed` to port `port`. Its calls return, an accepted request is owed, and what
`recv` returns answers one that is owed. -/
structure Answering (bus : BusInterfaceV2 σ) (hart : UInt32) (port memoryPort : BusPortT)
    (Owes : List MemoryRequest → σ → Prop) : Prop where
  canSend : ∀ {owed s}, Owes owed s → ∃ can, bus.canSend s port requestChannel = .ok can
  send : ∀ {owed s q}, Owes owed s → q.Valid → q.hartId = hart →
    ∃ accepted s', bus.send s port memoryPort requestChannel q.wire = .ok (accepted, s') ∧
      Owes (if accepted then owed ++ [q] else owed) s'
  canRecv : ∀ {owed s}, Owes owed s → ∃ can, bus.canRecv s port responseChannel = .ok can
  recv : ∀ {owed s}, Owes owed s →
    (∃ s', bus.recv s port responseChannel = .ok (none, s') ∧ Owes owed s') ∨
    ∃ front q back r s', owed = front ++ q :: back ∧ r.hartId = q.hartId ∧
      r.transactionId = q.transactionId ∧ r.data.length ≤ 65535 ∧
      bus.recv s port responseChannel = .ok (some (encodeResponse r), s') ∧
      Owes (front ++ back) s'

/-! ## What becomes of a command -/

/-- The size register held a size that a request can have. -/
def MmioCommand.Sized (c : MmioCommand) : Prop :=
  c.size = 1 ∨ c.size = 2 ∨ c.size = 4 ∨ c.size = 8

/-- The request has what the registers held when the command was written. -/
structure MmioCommand.Becomes (hart : UInt32) (c : MmioCommand) (q : MemoryRequest) : Prop where
  op : q.op = if c.value = 1 then MemoryOp.read else MemoryOp.write
  hartId : q.hartId = hart
  transactionId : q.transactionId = c.id
  address : q.address = c.target
  size : q.size.toNat = c.size.toNat
  length : q.data.length = if c.value = 1 then 0 else c.size.toNat
  data : ∀ i < q.data.length, q.data[i]? = some (c.writeData >>> UInt64.ofNat (8 * i)).toUInt8

theorem MmioCommand.Sized.becomes {c : MmioCommand} (h : c.Sized) (hart : UInt32) :
    c.Becomes hart (c.request hart) := by
  have hle : c.size.toNat ≤ 8 := by
    rcases h with h | h | h | h <;> rw [h] <;> decide
  have hlen : (c.request hart).data.length = if c.value = 1 then 0 else c.size.toNat := by
    rw [MmioCommand.request]
    dsimp only
    split_ifs
    · rfl
    · exact length_appendLe _ _
  refine ⟨rfl, rfl, rfl, rfl, UInt16.toNat_ofNat_of_lt' (show c.size.toNat < 2 ^ 16 by omega), hlen,
    fun i hi ↦ ?_⟩
  rw [hlen] at hi
  split_ifs at hi with hvalue
  · exact absurd hi (Nat.not_lt_zero i)
  have hshift : (UInt64.ofNat (8 * i)).toNat % 64 = 8 * i := by
    rw [UInt64.toNat_ofNat_of_lt' (show 8 * i < 2 ^ 64 by omega), Nat.mod_eq_of_lt (by omega)]
  rw [MmioCommand.request]
  dsimp only
  rw [if_neg hvalue, getElem?_appendLe _ _ hi, Option.some_inj, ← UInt8.toNat_inj,
    UInt64.toNat_toUInt8, UInt64.toNat_shiftRight, hshift, Nat.shiftRight_eq_div_pow, pow_mul]
  exact UInt8.toNat_ofNat' ..

namespace MmioBusAdapter

theorem size_of_acceptable {a : MmioBusAdapter} {value : UInt64} (h : a.acceptable value = true) :
    a.size = 1 ∨ a.size = 2 ∨ a.size = 4 ∨ a.size = 8 := by
  rw [acceptable] at h
  simp only [Bool.not_eq_true', Bool.or_eq_false_iff, Bool.and_eq_false_iff, Bool.not_eq_false',
    beq_iff_eq] at h
  obtain ⟨⟨⟨-, hsize⟩, -⟩, -⟩ := h
  rcases hsize with ((h1 | h2) | h4) | h8
  · exact .inl h1
  · exact .inr (.inl h2)
  · exact .inr (.inr (.inl h4))
  · exact .inr (.inr (.inr h8))

theorem valid_request {c : MmioCommand} (hsize : c.Sized) (hart : UInt32) :
    (c.request hart).Valid ∧ (c.request hart).hartId = hart := by
  have hnat : c.size.toNat ≠ 0 ∧ c.size.toNat < 2 ^ 16 := by
    rcases hsize with h | h | h | h <;> rw [h] <;> decide
  have hcast : (UInt16.ofNat c.size.toNat).toNat = c.size.toNat :=
    UInt16.toNat_ofNat_of_lt' hnat.2
  refine ⟨⟨?_, ?_⟩, rfl⟩
  · intro h0
    have hzero := congrArg UInt16.toNat h0
    rw [MmioCommand.request, hcast] at hzero
    exact hnat.1 hzero
  · by_cases hvalue : c.value = 1
    · exact .inl ⟨if_pos hvalue, if_pos hvalue⟩
    · refine .inr ⟨if_neg hvalue, ?_⟩
      rw [MmioCommand.request]
      dsimp only
      rw [if_neg hvalue, length_appendLe, hcast]

/-! ## Runs of the adapter -/

/-- The adapter, the bus and their exchange, after any accesses to the registers, ticks of the
adapter, and changes of the bus between them that keep its debts. Reading a register changes
nothing, and neither does an access that throws. -/
inductive Reaches (bus : BusInterfaceV2 σ) (hart : UInt32) (port memoryPort : BusPortT)
    (Owes : List MemoryRequest → σ → Prop) (depth : UInt32) :
    MmioBusAdapter → σ → Exchange → Prop
  | start {a s} : setDepth {} depth = .ok a → Owes [] s →
      Reaches bus hart port memoryPort Owes depth a s {}
  | write {a a' s x} (address : UInt64) (size : UInt16) (value : UInt64) :
      Reaches bus hart port memoryPort Owes depth a s x → write hart a address size value = .ok a' →
      Reaches bus hart port memoryPort Owes depth a' s x
  | tick {a a' s s' x x'} : Reaches bus hart port memoryPort Owes depth a s x →
      tick (recorded bus) hart port memoryPort a (s, x) = .ok (a', s', x') →
      Reaches bus hart port memoryPort Owes depth a' s' x'
  | other {a s s' x} : Reaches bus hart port memoryPort Owes depth a s x →
      (∀ owed, Owes owed s → Owes owed s') → Reaches bus hart port memoryPort Owes depth a s' x

/-! ## The DONE bit -/

/-- DONE is set. -/
def isDone (status : UInt64) : Bool := status.toBitVec.getLsbD 1

theorem and_doneBit_ne_zero_iff (status : UInt64) :
    status &&& doneBit ≠ 0 ↔ isDone status = true := by
  have hbit : doneBit.toBitVec = BitVec.twoPow 64 1 := by decide
  have hand : (status &&& doneBit).toBitVec = status.toBitVec &&& BitVec.twoPow 64 1 := by
    rw [UInt64.toBitVec_and, hbit]
  rw [Ne, ← UInt64.toBitVec_inj, hand, BitVec.and_twoPow, isDone]
  cases status.toBitVec.getLsbD 1 <;> decide

theorem isDone_or (a b : UInt64) : isDone (a ||| b) = (isDone a || isDone b) := by
  rw [isDone, UInt64.toBitVec_or, BitVec.getLsbD_or]
  rfl

theorem isDone_and (a b : UInt64) : isDone (a &&& b) = (isDone a && isDone b) := by
  rw [isDone, UInt64.toBitVec_and, BitVec.getLsbD_and]
  rfl

/-! ## The invariant -/

/-- The request that is sent for a command, with its destination. -/
def addressed (memoryPort : BusPortT) (q : MemoryRequest) : BusPortT × Bytes :=
  (memoryPort, q.wire)

/-- The bytes of a response to `q`. -/
def Replies (bytes : Bytes) (q : MemoryRequest) : Prop :=
  ∃ r : MemoryResponse, bytes = encodeResponse r ∧ r.hartId = q.hartId ∧
    r.transactionId = q.transactionId

/-- The requests of the accepted commands, oldest first. -/
def commanded (hart : UInt32) (a : MmioBusAdapter) : List MemoryRequest :=
  a.issued.map (MmioCommand.request hart)

/-- The adapter's accounts, when the bus owes `owed` and the exchange is `x`. -/
structure Store (hart : UInt32) (memoryPort : BusPortT) (depth : UInt32)
    (owed : List MemoryRequest) (a : MmioBusAdapter) (x : Exchange) : Prop where
  depth_eq : a.depth = depth
  depth_pos : 0 < depth.toNat
  /-- The requests that the bus has taken stand before those that it has not. -/
  order : ∃ out waiting, a.requests = out ++ waiting ∧ (∀ e ∈ out, e.sent = true) ∧
    (∀ e ∈ waiting, e.sent = false) ∧ owed.Perm (out.map MmioEntry.request) ∧
    x.sent ++ waiting.map (fun e ↦ addressed memoryPort e.request) =
      (a.commanded hart).map (addressed memoryPort)
  sized : ∀ c ∈ a.issued, c.Sized
  accounts : (a.finished ++ a.requests.map MmioEntry.request).Perm (a.commanded hart)
  fresh : depth ≠ 1 → ((a.commanded hart).map MemoryRequest.transactionId).Nodup ∧
    (∀ q ∈ a.commanded hart, q.transactionId.toNat < 2 ^ 31 + a.nextId.toNat) ∧
    a.nextId.toNat ≤ 2 ^ 31 - 1
  received : List.Forall₂ Replies x.received a.finished
  single : depth = 1 → a.results = []
  capacity : a.requests.length + a.results.length ≤ depth.toNat
  done : 1 < depth → isDone a.status = true → a.results ≠ []
  commands : a.stats.commands = a.issued.length
  latency : a.stats.latency.count = a.finished.length

variable {bus : BusInterfaceV2 σ} {hart : UInt32} {port memoryPort : BusPortT}
  {Owes : List MemoryRequest → σ → Prop} {depth : UInt32} {owed : List MemoryRequest}
  {a a' : MmioBusAdapter} {s s' : σ} {x x' : Exchange}

/-- The parts of the adapter that the accounts read, but for the status. -/
structure SameStore (a a' : MmioBusAdapter) : Prop where
  depth : a'.depth = a.depth
  requests : a'.requests = a.requests
  results : a'.results = a.results
  nextId : a'.nextId = a.nextId
  issued : a'.issued = a.issued
  finished : a'.finished = a.finished
  commands : a'.stats.commands = a.stats.commands
  latency : a'.stats.latency.count = a.stats.latency.count

theorem Store.valid (h : Store hart memoryPort depth owed a x) :
    ∀ q ∈ a.commanded hart, q.Valid ∧ q.hartId = hart := by
  intro q hq
  obtain ⟨c, hc, rfl⟩ := List.mem_map.mp hq
  exact valid_request (h.sized c hc) hart

/-- Register contents, the result data and most counters do not matter. -/
theorem Store.congr (h : Store hart memoryPort depth owed a x) (hsame : SameStore a a')
    (hdone : isDone a'.status = true → isDone a.status = true) :
    Store hart memoryPort depth owed a' x where
  depth_eq := hsame.depth.trans h.depth_eq
  depth_pos := h.depth_pos
  order := by
    rw [hsame.requests, commanded, hsame.issued]
    exact h.order
  sized := by
    rw [hsame.issued]
    exact h.sized
  accounts := by
    rw [hsame.finished, hsame.requests, commanded, hsame.issued]
    exact h.accounts
  fresh := by
    rw [commanded, hsame.issued, hsame.nextId]
    exact h.fresh
  received := by
    rw [hsame.finished]
    exact h.received
  single := by
    rw [hsame.results]
    exact h.single
  capacity := by
    rw [hsame.requests, hsame.results]
    exact h.capacity
  done := fun hd hset ↦ hsame.results ▸ h.done hd (hdone hset)
  commands := by rw [hsame.commands, h.commands, hsame.issued]
  latency := by rw [hsame.latency, h.latency, hsame.finished]

theorem isDone_reject (a : MmioBusAdapter) : isDone a.reject.status = isDone a.status := by
  have herror : isDone errorBit = false := by decide
  rw [reject, isDone_or, herror, Bool.or_false]

theorem Store.reject (h : Store hart memoryPort depth owed a x) :
    Store hart memoryPort depth owed a.reject x :=
  h.congr ⟨rfl, rfl, rfl, rfl, rfl, rfl, rfl, rfl⟩ fun hdone ↦ isDone_reject a ▸ hdone

/-- With depth 1 there is at most one outstanding request, so its id is unique as well. -/
theorem Store.nodup (h : Store hart memoryPort depth owed a x) :
    (a.requests.map fun e ↦ e.request.transactionId).Nodup := by
  by_cases hdepth : depth = 1
  · have hcap := h.capacity
    rw [hdepth] at hcap
    have hone : (a.requests.map fun e ↦ e.request.transactionId).length ≤ 1 := by
      rw [List.length_map]
      exact Nat.le_trans (Nat.le_add_right _ _) hcap
    generalize (a.requests.map fun e ↦ e.request.transactionId) = ids at hone ⊢
    rcases ids with _ | ⟨id, _ | ⟨id', rest⟩⟩
    · exact List.nodup_nil
    · exact List.nodup_singleton id
    · simp at hone
  · have hperm := h.accounts.map MemoryRequest.transactionId
    have hnodup := hperm.nodup_iff.mpr (h.fresh hdepth).1
    rw [List.map_append, List.map_map] at hnodup
    exact (List.nodup_append.mp hnodup).2.1

/-! ## The start -/

theorem Store.start (h : setDepth {} depth = .ok a) :
    Store hart memoryPort depth [] a {} := by
  rw [setDepth, Except.bind_eq_ok_iff] at h
  obtain ⟨u, hreq, h⟩ := h
  obtain rfl := Except.ok.inj h
  rw [require_eq_ok_iff] at hreq
  have hne : depth ≠ 0 := by
    rintro rfl
    exact absurd hreq (by decide)
  have hpos : 0 < depth.toNat := by
    rw [Nat.pos_iff_ne_zero]
    exact fun h0 ↦ hne (UInt32.toNat_inj.mp h0)
  exact
    { depth_eq := rfl
      depth_pos := hpos
      order := ⟨[], [], rfl, by simp, by simp, List.Perm.refl _, rfl⟩
      sized := fun _ hc ↦ (List.not_mem_nil hc).elim
      accounts := List.Perm.refl _
      fresh := fun _ ↦ ⟨List.nodup_nil, by simp [commanded], Nat.zero_le _⟩
      received := List.Forall₂.nil
      single := fun _ ↦ rfl
      capacity := Nat.zero_le _
      done := fun _ hdone ↦ absurd (show isDone 0 = true from hdone) (by decide)
      commands := rfl
      latency := rfl }

/-! ## Register writes

Most writes change a register that the accounts do not read. A command adds a request with a fresh
id, and a pop takes a result away.
-/

theorem Store.pop (h : Store hart memoryPort depth owed a x) (value : UInt64) :
    Store hart memoryPort depth owed (a.pop value) x := by
  rw [MmioBusAdapter.pop]
  cases hresults : a.results with
  | nil => exact h.reject
  | cons result rest =>
    dsimp only
    by_cases hvalue : value = 1
    · rw [if_pos hvalue]
      have hcap := h.capacity
      rw [hresults, List.length_cons] at hcap
      refine { h with order := h.order, single := ?_, capacity := ?_, done := ?_ }
      · intro hone
        rw [h.single hone] at hresults
        exact absurd hresults.symm (List.cons_ne_nil _ _)
      · exact Nat.le_of_succ_le hcap
      · intro hd hdone
        cases rest with
        | nil =>
          -- popping the last result clears DONE
          have hclear : isDone (a.status &&& ~~~doneBit) = true := hdone
          have hnot : isDone (~~~doneBit) = false := by decide
          rw [isDone_and, hnot, Bool.and_false] at hclear
          exact Bool.noConfusion hclear
        | cons result' rest' => exact List.cons_ne_nil _ _
    · rw [if_neg hvalue]
      exact h.reject

/-- A register write keeps the requests as they are, or it accepts a command. -/
theorem write_cases {address : UInt64} {size : UInt16} {value : UInt64}
    (hwrite : MmioBusAdapter.write hart a address size value = .ok a') :
    (a'.requests = a.requests ∧ a'.issued = a.issued ∧ a'.stats.commands = a.stats.commands) ∨
      (a.acceptable value = true ∧ a' = accept hart a.startCommand value) := by
  rw [MmioBusAdapter.write, Except.bind_eq_ok_iff] at hwrite
  obtain ⟨reg, -, hwrite⟩ := hwrite
  dsimp only at hwrite
  by_cases hpop : reg = 0x48
  · rw [if_pos hpop] at hwrite
    obtain rfl := Except.ok.inj hwrite
    left
    rw [MmioBusAdapter.pop]
    split
    · exact ⟨rfl, rfl, rfl⟩
    · split <;> exact ⟨rfl, rfl, rfl⟩
  rw [if_neg hpop] at hwrite
  by_cases hhigh : 0x28 < reg
  · rw [if_pos hhigh] at hwrite
    cases hwrite
  rw [if_neg hhigh] at hwrite
  split_ifs at hwrite with hlocked htarget hdata hsize hstatus hread hcommand
  -- all registers but the command register
  iterate 6 exact .inl (Except.ok.inj hwrite ▸ ⟨rfl, rfl, rfl⟩)
  obtain rfl := Except.ok.inj hwrite
  rw [MmioBusAdapter.command]
  dsimp only
  split_ifs with hfull hbad hids
  · exact .inl ⟨rfl, rfl, rfl⟩
  · exact .inl ⟨rfl, rfl, rfl⟩
  · exact .inl ⟨rfl, rfl, rfl⟩
  · have hacceptable : a.startCommand.acceptable value = true := by simpa using hbad
    exact .inr ⟨hacceptable, rfl⟩

theorem toNat_commandId (hdepth : a.depth ≠ 1) (hnext : a.nextId.toNat < 2 ^ 31) :
    a.commandId.toNat = 2 ^ 31 + a.nextId.toNat := by
  rw [commandId, if_neg hdepth, UInt32.toNat_or]
  have hor := Nat.two_pow_add_eq_or_of_lt hnext 1
  rw [Nat.mul_one] at hor
  exact hor.symm

/-- The command that a write to the command register makes of the other registers. -/
def written (a : MmioBusAdapter) (value : UInt64) : MmioCommand :=
  { value := value, target := a.target, writeData := a.writeData, size := a.size
    id := a.commandId }

theorem commanded_accept (a : MmioBusAdapter) (value : UInt64) :
    (MmioBusAdapter.accept hart a value).commanded hart =
      a.commanded hart ++ [(a.written value).request hart] :=
  List.map_append

theorem Store.one_lt_depth (h : Store hart memoryPort depth owed a x) (hne : depth ≠ 1) :
    1 < a.depth := by
  have hpos := h.depth_pos
  have hne1 : depth.toNat ≠ 1 := fun h1 ↦ hne (UInt32.toNat_inj.mp h1)
  have hone : (1 : UInt32).toNat = 1 := rfl
  rw [UInt32.lt_iff_toNat_lt, h.depth_eq]
  omega

/-- The id of a new command is above all that the adapter has given out. -/
theorem Store.fresh_accept (h : Store hart memoryPort depth owed a x) {value : UInt64}
    (hids : ¬(1 < a.depth ∧ a.nextId = 0x7fffffff)) (hne : depth ≠ 1) :
    (((MmioBusAdapter.accept hart a value).commanded hart).map MemoryRequest.transactionId).Nodup ∧
      (∀ q ∈ (MmioBusAdapter.accept hart a value).commanded hart,
        q.transactionId.toNat < 2 ^ 31 + (MmioBusAdapter.accept hart a value).nextId.toNat) ∧
      (MmioBusAdapter.accept hart a value).nextId.toNat ≤ 2 ^ 31 - 1 := by
  have hne' : a.depth ≠ 1 := h.depth_eq ▸ hne
  obtain ⟨hnodup, hlt, hle⟩ := h.fresh hne
  have hnext : a.nextId.toNat < 2 ^ 31 - 1 := by
    refine Nat.lt_of_le_of_ne hle fun heq ↦ hids ⟨h.one_lt_depth hne, UInt32.toNat_inj.mp ?_⟩
    rw [heq]
    rfl
  have hid := toNat_commandId hne' (Nat.lt_of_lt_of_le hnext (by decide))
  have hsucc : (MmioBusAdapter.accept hart a value).nextId.toNat = a.nextId.toNat + 1 := by
    rw [MmioBusAdapter.accept]
    dsimp only
    rw [if_neg hne', UInt32.toNat_add]
    have hone : (1 : UInt32).toNat = 1 := rfl
    omega
  rw [commanded_accept, hsucc]
  refine ⟨?_, ?_, by omega⟩
  · rw [List.map_append]
    refine List.nodup_append.mpr ⟨hnodup, List.nodup_singleton _, ?_⟩
    intro id hid' id' hid'' heq
    obtain ⟨q, hq, rfl⟩ := List.mem_map.mp hid'
    have hnew : id' = a.commandId := List.mem_singleton.mp hid''
    have hqlt := hlt q hq
    rw [heq, hnew, hid] at hqlt
    exact absurd hqlt (Nat.lt_irrefl _)
  · intro q hq
    rcases List.mem_append.mp hq with hq | hq
    · exact Nat.lt_succ_of_lt (hlt q hq)
    · rw [List.mem_singleton.mp hq]
      change a.commandId.toNat < _
      rw [hid]
      exact Nat.lt_succ_self _

theorem Store.accept (h : Store hart memoryPort depth owed a x)
    (hroom : a.occupied < a.depth.toNat) {value : UInt64} (hacceptable : a.acceptable value = true)
    (hids : ¬(1 < a.depth ∧ a.nextId = 0x7fffffff)) :
    Store hart memoryPort depth owed (MmioBusAdapter.accept hart a value) x := by
  obtain ⟨out, waiting, hrequests, hout, hwaiting, howed, hsent⟩ := h.order
  have hbusy : isDone (a.status ||| busyBit) = isDone a.status := by
    have hbit : isDone busyBit = false := by decide
    rw [isDone_or, hbit, Bool.or_false]
  -- The new request is the last of those that are not sent, and of all commands.
  refine
    { depth_eq := h.depth_eq, depth_pos := h.depth_pos
      order := ⟨out, waiting ++ [{ request := (a.written value).request hart, created := a.clock }],
        ?_, hout, ?_, howed, ?_⟩
      sized := ?_, accounts := ?_, fresh := h.fresh_accept hids, received := h.received
      single := h.single, capacity := ?_, done := fun hd hdone ↦ h.done hd (hbusy ▸ hdone)
      commands := ?_, latency := h.latency }
  · rw [← List.append_assoc, ← hrequests]
    rfl
  · intro e he
    rcases List.mem_append.mp he with he | he
    · exact hwaiting e he
    · exact List.mem_singleton.mp he ▸ rfl
  · rw [List.map_append, ← List.append_assoc, hsent, commanded_accept, List.map_append]
    rfl
  · intro c hc
    rcases List.mem_append.mp hc with hc | hc
    · exact h.sized c hc
    · exact List.mem_singleton.mp hc ▸ size_of_acceptable hacceptable
  · rw [commanded_accept]
    change (a.finished ++ (a.requests ++ _).map MmioEntry.request).Perm _
    rw [List.map_append, ← List.append_assoc]
    exact h.accounts.append_right _
  · change (a.requests ++ [_]).length + a.results.length ≤ depth.toNat
    rw [List.length_append, List.length_singleton]
    rw [occupied, h.depth_eq] at hroom
    by_cases hone : depth = 1
    · rw [h.single hone]
      exact Nat.lt_of_le_of_lt (Nat.le_add_right _ _) hroom
    · rw [if_pos (h.depth_eq ▸ h.one_lt_depth hone)] at hroom
      omega
  · change a.stats.commands + 1 = (a.issued ++ [a.written value]).length
    rw [h.commands, List.length_append, List.length_singleton]

theorem Store.command (h : Store hart memoryPort depth owed a x) (value : UInt64) :
    Store hart memoryPort depth owed (MmioBusAdapter.command hart a value) x := by
  rw [MmioBusAdapter.command]
  by_cases hfull : a.depth.toNat ≤ a.occupied
  · rw [if_pos hfull]
    exact h.reject
  · rw [if_neg hfull]
    dsimp only
    have hclear : Store hart memoryPort depth owed a.startCommand x := by
      refine h.congr ⟨rfl, rfl, rfl, rfl, rfl, rfl, rfl, rfl⟩ fun hdone ↦ ?_
      rw [startCommand] at hdone
      dsimp only at hdone
      split at hdone
      · exact absurd hdone (by decide)
      · rw [isDone_and, Bool.and_eq_true] at hdone
        exact hdone.1
    by_cases hbad : (!a.startCommand.acceptable value) = true
    · rw [if_pos hbad]
      exact hclear.reject
    · rw [if_neg hbad]
      by_cases hids : 1 < a.startCommand.depth ∧ a.startCommand.nextId = 0x7fffffff
      · rw [if_pos hids]
        exact hclear.reject
      · rw [if_neg hids]
        exact hclear.accept (Nat.lt_of_not_le hfull) (by simpa using hbad) hids

theorem Store.write (h : Store hart memoryPort depth owed a x) {address : UInt64} {size : UInt16}
    {value : UInt64} (hwrite : MmioBusAdapter.write hart a address size value = .ok a') :
    Store hart memoryPort depth owed a' x := by
  rw [MmioBusAdapter.write, Except.bind_eq_ok_iff] at hwrite
  obtain ⟨reg, -, hwrite⟩ := hwrite
  dsimp only at hwrite
  by_cases hpop : reg = 0x48
  · rw [if_pos hpop] at hwrite
    exact Except.ok.inj hwrite ▸ h.pop value
  rw [if_neg hpop] at hwrite
  by_cases hhigh : 0x28 < reg
  · rw [if_pos hhigh] at hwrite
    cases hwrite
  rw [if_neg hhigh] at hwrite
  split_ifs at hwrite with hlocked htarget hdata hsize hstatus hread hcommand
  · exact Except.ok.inj hwrite ▸ h.reject
  · exact Except.ok.inj hwrite ▸ h.congr ⟨rfl, rfl, rfl, rfl, rfl, rfl, rfl, rfl⟩ id
  · exact Except.ok.inj hwrite ▸ h.congr ⟨rfl, rfl, rfl, rfl, rfl, rfl, rfl, rfl⟩ id
  · exact Except.ok.inj hwrite ▸ h.congr ⟨rfl, rfl, rfl, rfl, rfl, rfl, rfl, rfl⟩ id
  · -- writing to the status register only clears bits
    refine Except.ok.inj hwrite ▸ h.congr ⟨rfl, rfl, rfl, rfl, rfl, rfl, rfl, rfl⟩ fun hdone ↦ ?_
    dsimp only at hdone
    rw [isDone_and, Bool.and_eq_true] at hdone
    exact hdone.1
  · exact Except.ok.inj hwrite ▸ h.reject
  · exact Except.ok.inj hwrite ▸ h.command value

/-! ## Sending

The requests that the bus has taken come before those that it has not, so the oldest one that is
not sent is where the two parts meet.
-/

theorem find?_unsent {out waiting : List MmioEntry} (hout : ∀ e ∈ out, e.sent = true) :
    (out ++ waiting).find? (fun e ↦ !e.sent) = waiting.find? fun e ↦ !e.sent := by
  have hnone : out.find? (fun e ↦ !e.sent) = none := by
    rw [List.find?_eq_none]
    intro e he hunsent
    rw [hout e he] at hunsent
    exact Bool.noConfusion hunsent
  rw [List.find?_append, hnone, Option.none_or]

theorem markSent_append {out rest : List MmioEntry} {e : MmioEntry}
    (hout : ∀ e ∈ out, e.sent = true) (he : e.sent = false) :
    markSent (out ++ e :: rest) = out ++ { e with sent := true } :: rest := by
  induction out with
  | nil =>
    rw [List.nil_append, markSent, if_neg (by rw [he]; exact Bool.false_ne_true)]
    rfl
  | cons e' out ih =>
    rw [List.cons_append, markSent, if_pos (hout e' List.mem_cons_self),
      ih fun e'' he'' ↦ hout e'' (List.mem_cons_of_mem _ he'')]
    rfl

theorem Store.markSent (h : Store hart memoryPort depth owed a x) {e : MmioEntry}
    (he : a.unsent = some e) :
    e.request ∈ a.commanded hart ∧
      Store hart memoryPort depth (owed ++ [e.request])
        { a with requests := MmioBusAdapter.markSent a.requests }
        { x with sent := x.sent ++ [addressed memoryPort e.request] } := by
  obtain ⟨out, waiting, hrequests, hout, hwaiting, howed, hsent⟩ := h.order
  rw [unsent, hrequests, find?_unsent hout] at he
  -- nothing that waits has been taken, so the oldest of them is `e`
  obtain ⟨rest, rfl⟩ : ∃ rest, waiting = e :: rest := by
    cases waiting with
    | nil => exact absurd he (by simp)
    | cons e' rest =>
      have hunsent := hwaiting e' List.mem_cons_self
      rw [List.find?_cons_of_pos (by rw [hunsent]; rfl)] at he
      exact ⟨rest, Option.some.inj he ▸ rfl⟩
  have hunsent : e.sent = false := hwaiting e List.mem_cons_self
  have hmark : MmioBusAdapter.markSent a.requests = out ++ { e with sent := true } :: rest := by
    rw [hrequests, markSent_append hout hunsent]
  have hmap : (MmioBusAdapter.markSent a.requests).map MmioEntry.request =
      a.requests.map MmioEntry.request := by
    rw [hmark, hrequests, List.map_append, List.map_append, List.map_cons, List.map_cons]
  refine ⟨?_, { h with order := ⟨out ++ [{ e with sent := true }], rest, ?_, ?_, ?_, ?_, ?_⟩
                       accounts := ?_, capacity := ?_ }⟩
  · refine h.accounts.subset (List.mem_append_right _ (List.mem_map.mpr ⟨e, ?_, rfl⟩))
    rw [hrequests]
    exact List.mem_append_right _ List.mem_cons_self
  · rw [List.append_assoc]
    exact hmark
  · intro e' he'
    rcases List.mem_append.mp he' with he' | he'
    · exact hout e' he'
    · exact List.mem_singleton.mp he' ▸ rfl
  · exact fun e' he' ↦ hwaiting e' (List.mem_cons_of_mem _ he')
  · rw [List.map_append]
    exact howed.append_right _
  · rw [List.append_assoc]
    exact hsent
  · change (a.finished ++ (MmioBusAdapter.markSent a.requests).map MmioEntry.request).Perm _
    rw [hmap]
    exact h.accounts
  · have hlen := congrArg List.length hmap
    rw [List.length_map, List.length_map] at hlen
    change (MmioBusAdapter.markSent a.requests).length + a.results.length ≤ depth.toNat
    rw [hlen]
    exact h.capacity

theorem Store.sendUnsent (hbus : Answering bus hart port memoryPort Owes) (howes : Owes owed s)
    (h : Store hart memoryPort depth owed a x) :
    ∃ a' s' x' owed', MmioBusAdapter.sendUnsent (recorded bus) port memoryPort a (s, x) =
        .ok (a', s', x') ∧ Owes owed' s' ∧ Store hart memoryPort depth owed' a' x' := by
  have hwait : Store hart memoryPort depth owed a.countInjectionWait x :=
    h.congr ⟨rfl, rfl, rfl, rfl, rfl, rfl, rfl, rfl⟩ id
  rw [MmioBusAdapter.sendUnsent]
  cases hunsent : a.unsent with
  | none => exact ⟨a, s, x, owed, rfl, howes, h⟩
  | some e =>
    obtain ⟨can, hcan⟩ := hbus.canSend howes
    have hcan' : (recorded bus).canSend (s, x) port requestChannel = .ok can := hcan
    cases can with
    | false =>
      refine ⟨_, s, x, owed, ?_, howes, hwait⟩
      dsimp only
      rw [hcan']
      rfl
    | true =>
      obtain ⟨hmem, hmarked⟩ := h.markSent hunsent
      obtain ⟨hvalid, hhart⟩ := h.valid _ hmem
      obtain ⟨accepted, s', hsend, howes'⟩ := hbus.send howes hvalid hhart
      dsimp only
      rw [hcan', encodeRequest_of_valid hvalid, recorded]
      simp only [bind, Except.bind, Bool.not_true, Bool.false_eq_true, if_false, hsend, pure,
        Except.pure]
      cases accepted with
      | false => exact ⟨_, s', x, owed, rfl, howes', hwait⟩
      | true => exact ⟨_, s', _, owed ++ [e.request], rfl, howes', hmarked⟩

/-! ## Receiving

A response that the bus owes answers an outstanding request that has been sent. It is the one that
the adapter finds by the id, and it moves to the finished ones.
-/

theorem takeData_same (a : MmioBusAdapter) (e : MmioEntry) (r : MemoryResponse) :
    SameStore a (a.takeData e r) := by
  rw [takeData]
  split <;> exact ⟨rfl, rfl, rfl, rfl, rfl, rfl, rfl, rfl⟩

/-- What a response leaves alone, and what it adds to. -/
theorem complete_parts (a : MmioBusAdapter) (e : MmioEntry) (r : MemoryResponse) :
    (a.complete e r).depth = a.depth ∧ (a.complete e r).nextId = a.nextId ∧
      (a.complete e r).issued = a.issued ∧
      (a.complete e r).stats.commands = a.stats.commands ∧
      (a.complete e r).requests = a.requests.eraseP (answeredBy r.transactionId) ∧
      (a.complete e r).finished = a.finished ++ [e.request] ∧
      (a.complete e r).stats.latency.count = a.stats.latency.count + 1 := by
  have hdata := takeData_same a e r
  refine ⟨hdata.depth, hdata.nextId, hdata.issued, hdata.commands, ?_, ?_, ?_⟩
  · rw [← hdata.requests]
    rfl
  · rw [← hdata.finished]
    rfl
  · rw [← hdata.latency]
    rfl

/-- With a depth of 1 the result of a command is in the data register only. -/
theorem results_complete (a : MmioBusAdapter) (e : MmioEntry) (r : MemoryResponse) :
    (1 < a.depth → ∃ result, (a.complete e r).results = a.results ++ [result]) ∧
      (¬1 < a.depth → (a.complete e r).results = a.results) := by
  have hdata := takeData_same a e r
  rw [← hdata.depth, ← hdata.results]
  exact ⟨fun hd ↦ ⟨_, if_pos hd⟩, fun hd ↦ if_neg hd⟩

/-- A request that the bus owes an answer to is found by its transaction id: it has been taken, and
no request before it has this id. -/
theorem Store.exists_answered (h : Store hart memoryPort depth owed a x)
    {front back : List MemoryRequest} {q : MemoryRequest} (howed : owed = front ++ q :: back) :
    ∃ before e after waiting, a.requests = before ++ e :: (after ++ waiting) ∧ e.request = q ∧
      (∀ e' ∈ before ++ after, e'.sent = true) ∧ (∀ e' ∈ waiting, e'.sent = false) ∧
      (front ++ back).Perm ((before ++ after).map MmioEntry.request) ∧
      x.sent ++ waiting.map (fun e ↦ addressed memoryPort e.request) =
        (a.commanded hart).map (addressed memoryPort) ∧
      answeredBy q.transactionId e = true ∧
      ∀ e' ∈ before, ¬answeredBy q.transactionId e' = true := by
  obtain ⟨out, waiting, hrequests, hout, hwaiting, hperm, hsent⟩ := h.order
  have hq : q ∈ out.map MmioEntry.request := by
    refine hperm.subset ?_
    rw [howed]
    exact List.mem_append_right _ List.mem_cons_self
  obtain ⟨e, he, rfl⟩ := List.mem_map.mp hq
  obtain ⟨before, after, rfl⟩ := List.append_of_mem he
  refine ⟨before, e, after, waiting, ?_, rfl, fun e' he' ↦ ?_, hwaiting, ?_, hsent, ?_,
    fun e' he' hans ↦ ?_⟩
  · rw [hrequests, List.append_assoc, List.cons_append]
  · refine hout e' ?_
    rcases List.mem_append.mp he' with he' | he'
    · exact List.mem_append_left _ he'
    · exact List.mem_append_right _ (List.mem_cons_of_mem _ he')
  · rw [howed, List.map_append, List.map_cons] at hperm
    rw [List.map_append]
    refine (List.perm_cons e.request).mp ?_
    exact List.perm_middle.symm.trans (hperm.trans List.perm_middle)
  · rw [answeredBy, hout e he, Bool.true_and, beq_self_eq_true]
  · -- the ids of outstanding requests are distinct
    have hnodup := h.nodup
    rw [hrequests, List.append_assoc, List.map_append] at hnodup
    rw [answeredBy, Bool.and_eq_true, beq_iff_eq] at hans
    refine (List.nodup_append.mp hnodup).2.2 _ (List.mem_map.mpr ⟨e', he', rfl⟩)
      _ (List.mem_map.mpr ⟨e, ?_, rfl⟩) hans.2
    exact List.mem_append_left _ List.mem_cons_self

theorem Store.complete (h : Store hart memoryPort depth owed a x) {front back : List MemoryRequest}
    {q : MemoryRequest} (howed : owed = front ++ q :: back) {r : MemoryResponse}
    (hhart : r.hartId = q.hartId) (hid : r.transactionId = q.transactionId) :
    ∃ e, a.requests.find? (answeredBy r.transactionId) = some e ∧ r.hartId = hart ∧
      Store hart memoryPort depth (front ++ back) (a.complete e r)
        { x with received := x.received ++ [encodeResponse r] } := by
  -- The request that is answered stands between others that have been sent.
  obtain ⟨before, e, after, waiting, hrequests, rfl, hout, hwaiting, hperm, hsent, hanswered,
    hbefore⟩ := h.exists_answered howed
  rw [← hid] at hanswered hbefore
  obtain ⟨hdepth, hnext, hissued, hcommands, herase, hfinished, hlatency⟩ := complete_parts a e r
  obtain ⟨hmore, hsame⟩ := results_complete a e r
  rw [h.depth_eq] at hmore hsame
  have hrest : (a.complete e r).requests = before ++ (after ++ waiting) := by
    rw [herase, hrequests, List.eraseP_append_right _ hbefore, List.eraseP_cons_of_pos hanswered]
  have hcommanded : (a.complete e r).commanded hart = a.commanded hart := by
    rw [commanded, commanded, hissued]
  have hmem : e.request ∈ a.commanded hart := by
    refine h.accounts.subset (List.mem_append_right _ (List.mem_map.mpr ⟨e, ?_, rfl⟩))
    rw [hrequests]
    exact List.mem_append_right _ List.mem_cons_self
  have hcap := h.capacity
  rw [hrequests, List.length_append, List.length_cons] at hcap
  refine ⟨e, ?_, hhart.trans (h.valid _ hmem).2,
    { depth_eq := hdepth.trans h.depth_eq
      depth_pos := h.depth_pos
      order := ⟨before ++ after, waiting, by rw [hrest, List.append_assoc], hout, hwaiting, hperm,
        hcommanded ▸ hsent⟩
      sized := hissued ▸ h.sized
      accounts := ?_
      fresh := by rw [hcommanded, hnext]; exact h.fresh
      received := hfinished ▸ List.rel_append h.received (.cons ⟨r, rfl, hhart, hid⟩ .nil)
      single := ?_
      capacity := ?_
      done := ?_
      commands := by rw [hcommands, hissued, h.commands]
      latency := by
        rw [hlatency, hfinished, List.length_append, List.length_singleton, h.latency] }⟩
  · rw [hrequests]
    exact List.find?_eq_some_iff_append.mpr
      ⟨hanswered, before, _, rfl, fun e' he' ↦ by simpa using hbefore e' he'⟩
  · -- It moves from the requests to the finished ones, which only changes the order.
    rw [hfinished, hrest, hcommanded, List.append_assoc]
    refine List.Perm.trans (List.Perm.append_left _ ?_) h.accounts
    rw [hrequests]
    exact ((@List.perm_middle _ e before (after ++ waiting)).map MmioEntry.request).symm
  · intro hone
    rw [hsame (by rw [hone]; decide), h.single hone]
  · have hlen : (before ++ (after ++ waiting)).length = before.length + (after ++ waiting).length :=
      List.length_append
    rw [hrest, hlen]
    -- With a depth of 1 the slot is free again, otherwise the result takes it.
    by_cases hd : 1 < depth
    · obtain ⟨result, hresults⟩ := hmore hd
      rw [hresults, show (a.results ++ [result]).length = a.results.length + 1 from
        List.length_append]
      omega
    · rw [hsame hd]
      omega
  · intro hd _
    obtain ⟨result, hresults⟩ := hmore hd
    rw [hresults]
    exact List.append_ne_nil_of_right_ne_nil _ (List.cons_ne_nil _ _)

theorem Store.receive (hbus : Answering bus hart port memoryPort Owes) (howes : Owes owed s)
    (h : Store hart memoryPort depth owed a x) :
    ∃ a' s' x' owed', MmioBusAdapter.receive (recorded bus) hart port a (s, x) =
        .ok (a', s', x') ∧ Owes owed' s' ∧ Store hart memoryPort depth owed' a' x' := by
  have hwait : Store hart memoryPort depth owed a.countResponseWait x :=
    h.congr ⟨rfl, rfl, rfl, rfl, rfl, rfl, rfl, rfl⟩ id
  rw [MmioBusAdapter.receive]
  cases hbusy : a.busy with
  | false => exact ⟨a, s, x, owed, rfl, howes, h⟩
  | true =>
    obtain ⟨can, hcan⟩ := hbus.canRecv howes
    have hcan' : (recorded bus).canRecv (s, x) port responseChannel = .ok can := hcan
    cases can with
    | false =>
      refine ⟨_, s, x, owed, ?_, howes, hwait⟩
      rw [hcan']
      rfl
    | true =>
      rcases hbus.recv howes with ⟨s', hrecv, howes'⟩ |
        ⟨front, q, back, r, s', howed, hhart, hid, hlen, hrecv, howes'⟩
      · refine ⟨_, s', x, owed, ?_, howes', hwait⟩
        rw [hcan', recorded]
        simp only [bind, Except.bind, Bool.not_true, Bool.false_eq_true, if_false, hrecv, pure,
          Except.pure]
      · obtain ⟨e, hfind, hhart', hstore⟩ := h.complete howed hhart hid
        refine ⟨_, s', _, front ++ back, ?_, howes', hstore⟩
        have hdecode : decodeResponse (encodeResponse r) = .ok r :=
          decodeResponse_encodeResponse (Nat.lt_succ_of_le hlen)
        rw [hcan', recorded]
        simp only [bind, Except.bind, Bool.not_true, Bool.false_eq_true, if_false, hrecv, pure,
          Except.pure, hdecode, hfind, hhart', beq_self_eq_true, require_true]

theorem Store.tick (hbus : Answering bus hart port memoryPort Owes) (howes : Owes owed s)
    (h : Store hart memoryPort depth owed a x) :
    ∃ a' s' x' owed', MmioBusAdapter.tick (recorded bus) hart port memoryPort a (s, x) =
        .ok (a', s', x') ∧ Owes owed' s' ∧ Store hart memoryPort depth owed' a' x' := by
  have hclock : Store hart memoryPort depth owed { a with clock := a.clock + 1 } x :=
    h.congr ⟨rfl, rfl, rfl, rfl, rfl, rfl, rfl, rfl⟩ id
  obtain ⟨a₁, s₁, x₁, owed₁, hsend, howes₁, h₁⟩ := hclock.sendUnsent hbus howes
  obtain ⟨a₂, s₂, x₂, owed₂, hreceive, howes₂, h₂⟩ := h₁.receive hbus howes₁
  refine ⟨a₂, s₂, x₂, owed₂, ?_, howes₂, h₂⟩
  rw [MmioBusAdapter.tick, hsend]
  exact hreceive

/-! ## Runs -/

theorem Reaches.store (hbus : Answering bus hart port memoryPort Owes)
    (h : Reaches bus hart port memoryPort Owes depth a s x) :
    ∃ owed, Owes owed s ∧ Store hart memoryPort depth owed a x := by
  induction h with
  | start hset howes => exact ⟨[], howes, Store.start hset⟩
  | write address size value _ hwrite ih =>
    obtain ⟨owed, howes, hstore⟩ := ih
    exact ⟨owed, howes, hstore.write hwrite⟩
  | tick _ htick ih =>
    obtain ⟨owed, howes, hstore⟩ := ih
    obtain ⟨a₁, s₁, x₁, owed₁, htick₁, howes₁, hstore₁⟩ := hstore.tick hbus howes
    rw [htick] at htick₁
    obtain ⟨rfl, hsx⟩ := Prod.mk.inj (Except.ok.inj htick₁)
    obtain ⟨rfl, rfl⟩ := Prod.mk.inj hsx
    exact ⟨owed₁, howes₁, hstore₁⟩
  | other _ hkeeps ih =>
    obtain ⟨owed, howes, hstore⟩ := ih
    exact ⟨owed, hkeeps owed howes, hstore⟩

/-! ## The promises -/

/-- A register write accepts a command with the registers as it finds them, or no command. -/
theorem write_issued {address : UInt64} {size : UInt16} {value : UInt64}
    (hwrite : MmioBusAdapter.write hart a address size value = .ok a') :
    a'.issued = a.issued ∧ a'.stats.commands = a.stats.commands ∨
      (∃ id, a'.issued = a.issued ++ [⟨value, a.target, a.writeData, a.size, id⟩]) ∧
        a'.stats.commands = a.stats.commands + 1 := by
  rcases write_cases hwrite with ⟨-, hissued, hcommands⟩ | ⟨-, rfl⟩
  · exact .inl ⟨hissued, hcommands⟩
  · exact .inr ⟨⟨_, rfl⟩, rfl⟩

/-- In every state of a run the adapter keeps within its depth, and accounts for every command that
it has accepted. -/
theorem store_invariant (hbus : Answering bus hart port memoryPort Owes)
    (h : Reaches bus hart port memoryPort Owes depth a s x) :
    (1 < depth → a.requests.length + a.results.length ≤ depth.toNat ∧
      (a.requests.map fun e ↦ e.request.transactionId).Nodup ∧
      (a.status &&& doneBit ≠ 0 → a.results ≠ [])) ∧
    (depth = 1 → a.requests.length ≤ 1 ∧ a.results = []) ∧
    a.stats.commands = a.requests.length + a.stats.latency.count ∧
    -- each accepted command is finished or outstanding, and what is finished has been answered
    (a.finished ++ a.requests.map MmioEntry.request).Perm
      (a.issued.map (MmioCommand.request hart)) ∧
    List.Forall₂ Replies x.received a.finished ∧
    (x.received.length = a.stats.commands →
      a.requests = [] ∧ a.finished.Perm (a.issued.map (MmioCommand.request hart))) ∧
    -- the requests on the bus are those of the accepted commands, in order, and each of them has
    -- what the registers held when its command was written
    (∀ c ∈ a.issued, c.Becomes hart (c.request hart)) ∧
    (∃ waiting, x.sent ++ waiting = (a.issued.map (MmioCommand.request hart)).map
      (addressed memoryPort)) ∧
    (∀ address size value a', write hart a address size value = .ok a' →
      a'.issued = a.issued ∧ a'.stats.commands = a.stats.commands ∨
        (∃ id, a'.issued = a.issued ++ [⟨value, a.target, a.writeData, a.size, id⟩]) ∧
          a'.stats.commands = a.stats.commands + 1) ∧
    ∃ a' s' x', tick (recorded bus) hart port memoryPort a (s, x) = .ok (a', s', x') := by
  obtain ⟨owed, howes, hstore⟩ := h.store hbus
  have hcap := hstore.capacity
  have hcount : a.finished.length + a.requests.length = a.issued.length := by
    have hlen := hstore.accounts.length_eq
    rwa [List.length_append, List.length_map, commanded, List.length_map] at hlen
  have hanswered : x.received.length = a.finished.length := hstore.received.length_eq
  refine ⟨fun hd ↦ ⟨hcap, hstore.nodup, fun hdone ↦ ?_⟩, fun hone ↦ ?_, ?_, hstore.accounts,
    hstore.received, fun hall ↦ ?_, fun c hc ↦ (hstore.sized c hc).becomes hart, ?_, fun _ _ _ _ ↦
    write_issued, ?_⟩
  · exact hstore.done hd ((and_doneBit_ne_zero_iff _).mp hdone)
  · rw [hone] at hcap
    exact ⟨Nat.le_trans (Nat.le_add_right _ _) hcap, hstore.single hone⟩
  · rw [hstore.commands, hstore.latency]
    omega
  · rw [hstore.commands] at hall
    have hnone : a.requests = [] := List.eq_nil_of_length_eq_zero (by omega)
    have haccounts := hstore.accounts
    rw [hnone, List.map_nil, List.append_nil] at haccounts
    exact ⟨hnone, haccounts⟩
  · obtain ⟨out, waiting, -, -, -, -, hsent⟩ := hstore.order
    exact ⟨_, hsent⟩
  · obtain ⟨a', s', x', owed', htick, -⟩ := hstore.tick hbus howes
    exact ⟨a', s', x', htick⟩

/-! ## An example -/

/-- A bus that takes every request and answers the oldest one at the next call. -/
def promptBus : BusInterfaceV2 (List MemoryRequest) where
  canSend := fun _ _ _ ↦ .ok true
  send := fun s _ _ _ data ↦ do
    let q ← decodeRequest data
    return (true, s ++ [q])
  canRecv := fun s _ _ ↦ .ok !s.isEmpty
  recv := fun s _ _ ↦
    match s with
    | [] => .ok (none, [])
    | q :: rest =>
      .ok (some (encodeResponse { hartId := q.hartId, transactionId := q.transactionId }), rest)
  applyNextTick := .ok

theorem answering_promptBus (hart : UInt32) (port memoryPort : BusPortT) :
    Answering promptBus hart port memoryPort Eq where
  canSend := fun _ ↦ ⟨true, rfl⟩
  send := by
    intro owed s q howes hvalid _
    subst howes
    refine ⟨true, owed ++ [q], ?_, rfl⟩
    rw [promptBus]
    dsimp only
    rw [decodeRequest_wire hvalid]
    rfl
  canRecv := fun _ ↦ ⟨_, rfl⟩
  recv := by
    intro owed s howes
    subst howes
    cases owed with
    | nil => exact .inl ⟨[], rfl, rfl⟩
    | cons q rest =>
      exact .inr ⟨[], q, rest, { hartId := q.hartId, transactionId := q.transactionId }, rest, rfl,
        rfl, rfl, Nat.zero_le _, rfl, rfl⟩

/-- A write of eight zero bytes to address 0 is commanded with depth 4, and runs to its end. -/
theorem store_invariant_promptBus :
    ∃ a s x, Reaches promptBus 0 0 1 Eq 4 a s x ∧ x.received.length = 1 ∧
      a.stats.commands = a.requests.length + a.stats.latency.count ∧ a.requests.length ≤ 4 := by
  obtain ⟨a₀, h₀⟩ : ∃ a, setDepth {} 4 = .ok a := ⟨_, rfl⟩
  obtain ⟨a₁, h₁⟩ : ∃ a, write 0 a₀ (base + 0x18) 8 2 = .ok a := by
    rw [← Except.ok.inj h₀]
    exact ⟨_, rfl⟩
  obtain ⟨a₂, s₂, x₂, h₂, hreceived⟩ : ∃ a s x,
      tick (recorded promptBus) 0 0 1 a₁ ([], {}) = .ok (a, s, x) ∧ x.received.length = 1 := by
    rw [← Except.ok.inj h₀] at h₁
    rw [← Except.ok.inj h₁]
    exact ⟨_, _, _, rfl, rfl⟩
  have hreach := Reaches.tick (Reaches.write _ _ _ (Reaches.start h₀ rfl) h₁) h₂
  obtain ⟨hdepth, -, hcommands, -⟩ := store_invariant (answering_promptBus 0 0 1) hreach
  exact ⟨a₂, s₂, x₂, hreach, hreceived, hcommands,
    Nat.le_trans (Nat.le_add_right _ _) (hdepth (by decide)).1⟩

end MmioBusAdapter

end Manycore
