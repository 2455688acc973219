import SimbusNoc.Manycore.Invariant
import SimbusNoc.Manycore.Layout

/-!
# Sequential consistency of the scripted system

A run that finishes has performed all reads and writes of all cores in one order that keeps each
core's own order: every core has read what it finds in this order, and the memory is what the
writes of this order leave.

## The order

It is the order in which the controller has served the requests. A core has at most one request
outstanding, so its requests are served in its own order, and the log of the controller restricted
to one core is the list of its memory operations, with their answers (`Ok.of_finished`). The trace
is read off the log: each entry belongs to a core, and the lists of the cores, interleaved in this
way, are `Interleaves` of the library.

## What memory is

The statement is about a memory with a byte for each address, that performs one operation at a
time. Nothing of the controller, its queue or the network is in it.
-/

namespace Manycore

open Simbus Sequential MemoryController AtomicCore

/-! ## Memory that performs one operation at a time -/

/-- The effect of an operation of a core: the value read, if it is a read, and the memory after
it. -/
def perform (m : ByteMemory) (x : ℕ × ScriptOp) : Option Bytes × ByteMemory :=
  match x.2.kind with
  | .read => (some (m.load x.2.address x.2.size.toNat), m)
  | .write => (none, m.store x.2.address x.2.data)
  | _ => (none, m)

/-- The memory after the operations, zero at first. -/
def memoryAfter (trace : List (ℕ × ScriptOp)) : ByteMemory :=
  final perform ByteMemory.zero trace

/-- The values that core `i` reads in the trace, in order. -/
def valuesRead (i : ℕ) (trace : List (ℕ × ScriptOp)) : List Bytes :=
  (history perform ByteMemory.zero trace).filterMap fun x ↦ if x.1.1 = i then x.2 else none

/-- The operations of each core that reach memory. -/
def accesses (n : ℕ) (programs : ℕ → List ScriptOp) (i : ℕ) : List ScriptOp :=
  if i < n then memoryOps (body (programs i)) else []

/-- A request does what the operation that makes it does. -/
theorem apply_of_asks {q : MemoryRequest} {x : ℕ × ScriptOp} (h : Asks q x.2) (m : ByteMemory) :
    (perform m x).2 = (m.apply q).2 ∧ (perform m x).1 = storedData (q, (m.apply q).1) := by
  obtain ⟨hmem, hq⟩ := h
  have hne : MemoryOp.write ≠ MemoryOp.read := by decide
  rw [hq, storedData]
  cases hkind : x.2.kind with
  | read => simp [perform, ByteMemory.apply, requestOf, hkind]
  | write => simp [perform, ByteMemory.apply, requestOf, hkind, hne]
  | compute => simp [ScriptOp.isMemory, hkind] at hmem
  | halt => simp [ScriptOp.isMemory, hkind] at hmem

/-- The data that a core has stored of its log entries are the values it reads in the trace. -/
theorem storedData_eq_valuesRead {l : List MemoryRequest} {trace : List (ℕ × ScriptOp)}
    (h : List.Forall₂ (fun q x ↦ q.hartId.toNat = x.1 ∧ Asks q x.2) l trace) {i : ℕ}
    (hi : i < 2 ^ 32) :
    ((history ByteMemory.apply ByteMemory.zero l).filter fun x ↦
        fromHart (UInt32.ofNat i) x.1).filterMap storedData = valuesRead i trace := by
  have hhart : ∀ q : MemoryRequest, q.hartId = UInt32.ofNat i ↔ q.hartId.toNat = i := by
    intro q
    rw [← UInt32.toNat_inj, UInt32.toNat_ofNat', Nat.mod_eq_of_lt hi]
  have hsteps := (forall₂_history ByteMemory.apply perform
    (fun m q x hmatch ↦ (apply_of_asks hmatch.2 m).1) h ByteMemory.zero).2
  rw [valuesRead]
  generalize history ByteMemory.apply ByteMemory.zero l = answered at hsteps ⊢
  generalize history perform ByteMemory.zero trace = effects at hsteps ⊢
  induction hsteps with
  | nil => rfl
  | @cons x y _ _ hxy _ ih =>
    obtain ⟨⟨hnum, hasks⟩, m, hx, hy⟩ := hxy
    have hdata : y.2 = storedData x := by
      rw [hy, (apply_of_asks hasks m).2, ← hx]
    rw [List.filter_cons, List.filterMap_cons, fromHart]
    by_cases hmine : x.1.hartId = UInt32.ofNat i
    · rw [if_pos (decide_eq_true hmine), if_pos (hnum.symm.trans ((hhart x.1).mp hmine)),
        List.filterMap_cons, hdata, ih]
    · rw [if_neg (by simpa using hmine), if_neg fun heq ↦ hmine ((hhart x.1).mpr (hnum.trans heq)),
        ih]

/-! ## Finished runs -/

namespace ManycoreSystem

variable {ord : HashOrder} {config : ManycoreConfig} {m : ManycoreSystem}
  {programs : ℕ → List ScriptOp} {s : SystemState} {maxTicks : ℕ}

/-- What a finished state has of each core: it is halted with all its operations done, and its part
of the log answers its operations. -/
theorem Ok.of_finished {Live : BusState → Prop} {Holds : List Letter → BusState → Prop}
    (h : m.Ok programs Live Holds s) (hlive : Live s.noc) (hfinished : m.finished s = true) :
    s.memoryController.Ok m.config.coreCount ∧ front s.memoryController = [] ∧
      ∀ i < m.config.coreCount, (s.cores i).stats.retiredOps = (body (programs i)).length ∧
        (s.cores i).lastReadData = (s.cores i).reads.getLastD [] ∧
        Retired (body (programs i)) (logOf s.memoryController (UInt32.ofNat i))
          (s.cores i).reads := by
  rw [finished, Bool.and_eq_true, List.all_eq_true] at hfinished
  obtain ⟨hhalted, hidle⟩ := hfinished
  obtain ⟨t, -, hserver, hcores⟩ := h hlive
  refine ⟨hserver, ?_, fun i hi ↦ ?_⟩
  · simp only [idle, Bool.and_eq_true, List.isEmpty_iff, Option.isNone_iff_eq_none] at hidle
    rw [front, hidle.1.1, hidle.1.2]
    rfl
  · obtain ⟨finished, hcore⟩ := hcores i hi
    have hstate : (s.cores i).state = .halted := by
      simpa [AtomicCore.halted] using hhalted i (List.mem_range.mpr hi)
    obtain ⟨rfl, -, -, hretired⟩ := hcore.of_halted hstate
    exact ⟨hcore.retired, hcore.last, hretired⟩

/-- The log of a state whose cores have done their operations interleaves these operations. -/
theorem exists_trace {n : ℕ} {c : MemoryController} {cores : ℕ → AtomicCore} (hn : n < 2 ^ 32)
    (hserver : c.Ok n) (hcores : ∀ i < n,
      Retired (body (programs i)) (logOf c (UInt32.ofNat i)) (cores i).reads) :
    ∃ trace, Interleaves (accesses n programs) trace ∧ c.memory.toBytes = memoryAfter trace ∧
      (∀ i < n, (cores i).reads = valuesRead i trace) ∧ c.completed.length = trace.length ∧
      ∀ x ∈ trace, x.1 < n := by
  have htag : ∀ i < n, ∀ q : MemoryRequest, q.hartId.toNat = i ↔ q.hartId = UInt32.ofNat i := by
    intro i hi q
    rw [← UInt32.toNat_inj, UInt32.toNat_ofNat', Nat.mod_eq_of_lt (hi.trans hn)]
  have hclients : ∀ i, List.Forall₂ Asks
      (c.completed.filter fun q ↦ decide (q.hartId.toNat = i)) (accesses n programs i) := by
    intro i
    by_cases hi : i < n
    · have hfilter : (c.completed.filter fun q ↦ decide (q.hartId.toNat = i)) =
          (logOf c (UInt32.ofNat i)).map Prod.fst := by
        rw [map_fst_logOf]
        exact List.filter_congr fun q _ ↦ by rw [fromHart, decide_eq_decide]; exact htag i hi q
      rw [hfilter, accesses, if_pos hi, List.forall₂_map_left_iff]
      exact (hcores i hi).1
    · rw [accesses, if_neg hi, List.forall₂_nil_right_iff, List.filter_eq_nil_iff]
      intro q hq
      have hlt := (hserver.served q hq).2
      rw [decide_eq_true_eq]
      omega
  obtain ⟨trace, hinter, hmatch⟩ := exists_interleaves c.completed (accesses n programs) hclients
  have hfinal := (forall₂_history ByteMemory.apply perform
    (fun m q x h ↦ (apply_of_asks h.2 m).1) hmatch ByteMemory.zero).1
  refine ⟨trace, hinter, ?_, fun i hi ↦ ?_, hmatch.length_eq, fun x hx ↦ ?_⟩
  · rw [hserver.bytes.2, memoryAfter, hfinal]
  · rw [(hcores i hi).2, logOf, hserver.bytes.1, storedData_eq_valuesRead hmatch (hi.trans hn)]
  · obtain ⟨q, hq, hqx⟩ : ∃ q ∈ c.completed, q.hartId.toNat = x.1 := by
      obtain ⟨k, hk, rfl⟩ := List.mem_iff_getElem.mp hx
      have hk' : k < c.completed.length := by rwa [hmatch.length_eq]
      exact ⟨c.completed[k], List.getElem_mem hk', (List.forall₂_iff_get.mp hmatch).2 k hk' hk |>.1⟩
    exact hqx ▸ (hserver.served q hq).2

/-- A run that returns true is sequentially consistent. -/
theorem run_sequentially_consistent (hm : ManycoreSystem.construct ord config = .ok m)
    (hbuilt : ∀ i < config.coreCount, ∀ op ∈ programs i, op.Built)
    (hrun : m.run maxTicks (load programs) = .ok (true, s)) :
    ∃ trace : List (ℕ × ScriptOp),
      Interleaves (accesses config.coreCount programs) trace ∧
      s.memoryController.memory.toBytes = memoryAfter trace ∧
      (∀ i < config.coreCount, (s.cores i).reads = valuesRead i trace ∧
        (s.cores i).lastReadData = (valuesRead i trace).getLastD [] ∧
        (s.cores i).stats.retiredOps = (body (programs i)).length) ∧
      s.memoryController.stats.receivedRequests =
        ∑ i ∈ Finset.range config.coreCount, (memoryOps (body (programs i))).length ∧
      s.memoryController.stats.completedRequests =
        ∑ i ∈ Finset.range config.coreCount, (memoryOps (body (programs i))).length := by
  have hlayout := construct_layout hm
  have hsmall := hlayout.small
  obtain ⟨s₁, hloop, hdone⟩ := Except.bind_eq_ok_iff.mp hrun
  obtain ⟨hfinished, rfl⟩ := Prod.mk.inj (Except.ok.inj hdone)
  have hok : m.Ok programs (fun _ ↦ True) (NocHolds m.noc True (Allowed m.config.coreCount)) s₁ :=
    Ok.runLoop hlayout.reliable (by rw [hlayout.config_eq]; omega)
      (by rw [hlayout.config_eq]; exact hbuilt) _ (Ok.init m programs (NocHolds.init _ _ _)) hloop
  obtain ⟨hserver, hfront, hcores⟩ := hok.of_finished trivial hfinished
  rw [hlayout.config_eq] at hserver hcores
  obtain ⟨trace, hinter, hmemory, hreads, hlength, htags⟩ :=
    exists_trace (by omega) hserver fun i hi ↦ (hcores i hi).2.2
  have hsum : s₁.memoryController.completed.length =
      ∑ i ∈ Finset.range config.coreCount, (memoryOps (body (programs i))).length := by
    rw [hlength, hinter.length_eq fun x hx ↦ Finset.mem_range.mpr (htags x hx)]
    exact Finset.sum_congr rfl fun i hi ↦ by rw [accesses, if_pos (Finset.mem_range.mp hi)]
  obtain ⟨hactive, hqueue⟩ := List.append_eq_nil_iff.mp hfront
  refine ⟨trace, hinter, hmemory, fun i hi ↦ ?_, ?_, hserver.completed.trans hsum⟩
  · obtain ⟨hretired, hlast, -⟩ := hcores i hi
    rw [← hreads i hi]
    exact ⟨rfl, hlast, hretired⟩
  · have hnone : s₁.memoryController.active = none := by simpa using hactive
    rw [hserver.received, hnone, hqueue, ← hsum]
    rfl

end ManycoreSystem

/-! ## A small system -/

/-- Two cores on a ring of three nodes. -/
def duoConfig : ManycoreConfig := { coreCount := 2, routeLatency := 1, memoryLatency := 1 }

def duoRoute : BusRouteTable := (List.range 3).foldl (doubleRingRow [0, 1, 2]) ∅

def duoSystem : ManycoreSystem where
  config := duoConfig
  noc := {
    chaCnt := 2
    linkWidthByte := 16
    routeLatency := 1
    chaWidths := [16, 16]
    port2node := [(0, 0), (1, 1), (2, 2)]
    route := duoRoute
    config := makeNocConfig duoConfig
    nodeIds := [0, 1, 2]
    nodePorts := fun v ↦ (([(0, 0), (1, 1), (2, 2)] : List (BusPortT × BusNodeT)).filter
      fun pn ↦ pn.2 == v).map Prod.fst
    edgeIds := [(0, 1), (0, 2), (1, 0), (1, 2), (2, 0), (2, 1)] }

theorem construct_duoSystem :
    ManycoreSystem.construct .insertion duoConfig = .ok duoSystem := rfl

/-- Core 0 writes two bytes, and core 1 reads four at the same address. -/
def duoPrograms (i : ℕ) : List ScriptOp :=
  if i = 0 then [{ kind := .write, address := 8, size := 2, data := [1, 2] }]
  else [{ kind := .read, address := 8, size := 4 }]

theorem built_duoPrograms (i : ℕ) : ∀ op ∈ duoPrograms i, op.Built := by
  intro op hop
  rw [duoPrograms] at hop
  split_ifs at hop
  · rw [List.mem_singleton.mp hop]
    exact ScriptOp.Built.write (show ScriptOp.mkWrite 8 [1, 2] = _ from rfl)
  · rw [List.mem_singleton.mp hop]
    exact ScriptOp.Built.read (show ScriptOp.mkRead 8 4 = _ from rfl)

theorem run_sequentially_consistent_duo :
    ∃ s trace, duoSystem.run 40 (ManycoreSystem.load duoPrograms) = .ok (true, s) ∧
      Interleaves (accesses 2 duoPrograms) trace ∧
      s.memoryController.memory.toBytes = memoryAfter trace := by
  have hdone : (match duoSystem.run 40 (ManycoreSystem.load duoPrograms) with
      | .ok (done, _) => done
      | .error _ => false) = true := by decide +kernel
  obtain ⟨s, hrun⟩ : ∃ s, duoSystem.run 40 (ManycoreSystem.load duoPrograms) = .ok (true, s) := by
    cases hresult : duoSystem.run 40 (ManycoreSystem.load duoPrograms) with
    | error e => rw [hresult] at hdone; cases hdone
    | ok result =>
      obtain ⟨done, s⟩ := result
      rw [hresult] at hdone
      exact ⟨s, by rw [show done = true from hdone]⟩
  obtain ⟨trace, hinter, hmemory, -⟩ := ManycoreSystem.run_sequentially_consistent
    construct_duoSystem (fun i _ ↦ built_duoPrograms i) hrun
  exact ⟨s, trace, hrun, hinter, hmemory⟩

end Manycore
