import SimbusNoc.Manycore.NocChannel
import SimbusNoc.Manycore.Script

/-!
# The invariant of the scripted system

At every moment between two turns there is some traffic on the network, and the account of every
core holds against this traffic and the state of the controller.

## One account for each core

`CoreOk` ties a core to its own part of everything: its requests that are on the way or wait at the
controller, its entries in the log of the requests that have been served, and its answers that are
on the way back. A turn of one core changes nothing in the parts of the others, and when the
controller serves a request this is a step in the account of one core. So the invariant is kept by
looking at one core at a time.

## Up to when

The invariant holds as long as the network is live, and says so. A tick moves the bus last, and
what the bus carries is the same before and after. `Ok.runLoop` is the induction over the ticks of
a run.
-/

namespace Manycore

open Simbus Sequential MemoryController AtomicCore

/-- The entries of the log that belong to one hart. -/
def logOf (c : MemoryController) (h : UInt32) : List (MemoryRequest × MemoryResponse) :=
  c.log.filter fun x ↦ fromHart h x.1

/-- The requests that the controller has received and not served. -/
def front (c : MemoryController) : List MemoryRequest :=
  (c.active.map WorkItem.request).toList ++ c.queue

/-- The entries of a history for one hart hold its requests and its responses. -/
theorem history_ofHart (h : UInt32) (m : SharedMemory) (l : List MemoryRequest) :
    (((history apply m l).filter fun x ↦ fromHart h x.1).map Prod.fst = l.filter (fromHart h)) ∧
      ((history apply m l).filter fun x ↦ fromHart h x.1).map Prod.snd =
        ((history apply m l).map Prod.snd).filter (toHart h) := by
  constructor
  · have hmap := map_fst_history apply m l
    conv_rhs => rw [← hmap]
    rw [List.filter_map]
    rfl
  · rw [List.filter_map]
    congr 1
    refine List.filter_congr fun x hx ↦ ?_
    rw [Function.comp_apply, toHart, (answers_of_mem_history hx).hartId, fromHart]

/-- The requests of a hart that memory has served. -/
theorem map_fst_logOf (c : MemoryController) (h : UInt32) :
    (logOf c h).map Prod.fst = c.completed.filter (fromHart h) :=
  (history_ofHart h SharedMemory.empty c.completed).1

section Turns

variable {n : ℕ} {Live : BusState → Prop} {Fifo : Prop} {Holds : List Letter → BusState → Prop}

/-- The account of one core against a controller and the traffic. -/
abbrev CoreOk (programs : ℕ → List ScriptOp) (c : MemoryController) (t : Traffic)
    (cores : ℕ → AtomicCore) (i : ℕ) : Prop :=
  OkIn (UInt32.ofNat i) (body (programs i)) (logOf c (UInt32.ofNat i)) (front c)
    c.response.toList (cores i) t

theorem CoreOk.serve {programs : ℕ → List ScriptOp} {c c' : MemoryController} {t t' : Traffic}
    {cores : ℕ → AtomicCore} {i : ℕ} {done : List MemoryRequest} (h : CoreOk programs c t cores i)
    (hok : c.Ok n) (hserved : Served Fifo c c' t t' done) : CoreOk programs c' t' cores i := by
  obtain ⟨finished, hcore⟩ := h
  obtain ⟨hfst, hsnd⟩ := history_ofHart (UInt32.ofNat i) c.memory done
  have hlog : logOf c' (UInt32.ofNat i) = logOf c (UInt32.ofNat i) ++
      (history apply c.memory done).filter fun x ↦ fromHart (UInt32.ofNat i) x.1 := by
    rw [logOf, log, hserved.completed, history_append, List.filter_append, ← hok.memory]
    rfl
  have hpending := hserved.pending.filter (fromHart (UInt32.ofNat i))
  rw [List.filter_append, ← hfst, pending, pending, ← List.append_assoc,
    ← List.append_assoc] at hpending
  have hanswers := congrArg (List.filter (toHart (UInt32.ofNat i))) hserved.answers
  rw [List.filter_append, ← hsnd, answers, answers] at hanswers
  refine ⟨finished, ?_⟩
  rw [hlog, hanswers]
  exact hcore.serve hpending

theorem CoreOk.other {programs : ℕ → List ScriptOp} {c : MemoryController} {t t' : Traffic}
    {cores : ℕ → AtomicCore} {i j : ℕ} {core : AtomicCore} (h : CoreOk programs c t cores j)
    (hij : j ≠ i) (hne : UInt32.ofNat j ≠ UInt32.ofNat i)
    (hkept : OthersKept (UInt32.ofNat i) t t') :
    CoreOk programs c t' (Function.update cores i core) j := by
  obtain ⟨finished, hcore⟩ := h
  obtain ⟨hrequests, hresponses⟩ := hkept _ hne
  refine ⟨finished, ?_⟩
  have hasked : (front c ++ t'.requests).filter (fromHart (UInt32.ofNat j)) =
      (front c ++ t.requests).filter (fromHart (UInt32.ofNat j)) := by
    rw [List.filter_append, hrequests, ← List.filter_append]
  have hanswers : (t'.responses ++ c.response.toList).filter (toHart (UInt32.ofNat j)) =
      (t.responses ++ c.response.toList).filter (toHart (UInt32.ofNat j)) := by
    rw [List.filter_append, hresponses, ← List.filter_append]
  rw [Function.update_of_ne hij, hasked, hanswers]
  exact hcore

end Turns

namespace ManycoreSystem

variable {m : ManycoreSystem} {programs : ℕ → List ScriptOp} {Live : BusState → Prop} {Fifo : Prop}
  {Holds : List Letter → BusState → Prop} {s s' : SystemState}

/-- What holds between any two turns, as long as the network is live. -/
def Ok (m : ManycoreSystem) (programs : ℕ → List ScriptOp) (Live : BusState → Prop)
    (Holds : List Letter → BusState → Prop) (s : SystemState) : Prop :=
  Live s.noc → ∃ t, Carried Holds m.config.coreCount t s.noc ∧
    s.memoryController.Ok m.config.coreCount ∧
    ∀ i < m.config.coreCount, CoreOk programs s.memoryController t s.cores i

theorem Ok.init (m : ManycoreSystem) (programs : ℕ → List ScriptOp) (hinit : Holds [] {}) :
    m.Ok programs Live Holds (load programs) := fun _ ↦
  ⟨{}, ⟨[], hinit, Spells.nil _⟩, MemoryController.Ok.init _,
    fun i _ ↦ ⟨[], AtomicCore.Ok.init (UInt32.ofNat i) (programs i)⟩⟩

section Still

variable (hbus : Reliable (nocInterface m.noc).still (Allowed m.config.coreCount) Live Fifo Holds)
include hbus

theorem Ok.tickController (h : m.Ok programs Live Holds s) {controller : MemoryController}
    {noc : BusState} (htick : s.memoryController.tick (nocInterface m.noc) m.memoryPort
      (controllerConfig m.config) s.noc = .ok (controller, noc)) :
    m.Ok programs Live Holds { s with memoryController := controller, noc := noc } := by
  have hstill : s.memoryController.tick (nocInterface m.noc).still m.config.coreCount
      (controllerConfig m.config) s.noc = .ok (controller, noc) := htick
  intro hlive
  obtain ⟨t, hcarried, hserver, hcores⟩ := h (MemoryController.tick_live hbus _ hstill hlive)
  obtain ⟨t', done, hcarried', hserver', hserved⟩ :=
    MemoryController.tick_spec hbus _ hserver hcarried hstill hlive
  exact ⟨t', hcarried', hserver', fun i hi ↦ (hcores i hi).serve hserver hserved⟩

theorem Ok.tickCore (hcount : m.config.coreCount < 2 ^ 32)
    (hbuilt : ∀ i < m.config.coreCount, ∀ op ∈ programs i, op.Built) {i : ℕ}
    (hi : i < m.config.coreCount) (h : m.Ok programs Live Holds s)
    (htick : m.tickCore s i = .ok s') : m.Ok programs Live Holds s' := by
  obtain ⟨⟨core, noc⟩, hcore, htick⟩ := Except.bind_eq_ok_iff.mp htick
  obtain rfl := Except.ok.inj htick
  have hstill : (s.cores i).tick (nocInterface m.noc).still (UInt32.ofNat i) i m.config.coreCount
      s.noc = .ok (core, noc) := hcore
  intro hlive
  have hnum : ∀ j < m.config.coreCount, (UInt32.ofNat j).toNat = j := fun j hj ↦ by
    rw [UInt32.toNat_ofNat', Nat.mod_eq_of_lt (hj.trans hcount)]
  obtain ⟨t, hcarried, hserver, hcores⟩ := h (tick_live hbus hstill hlive)
  obtain ⟨t', hcarried', hok, hkept⟩ := (hcores i hi).tick hbus (hnum i hi) hi
    (fun op hop ↦ hbuilt i hi op (List.takeWhile_subset _ hop)) hcarried hstill hlive
  refine ⟨t', hcarried', hserver, fun j hj ↦ ?_⟩
  by_cases hij : j = i
  · subst hij
    change OkIn _ _ _ _ _ (Function.update s.cores j core j) t'
    rwa [Function.update_self]
  · refine (hcores j hj).other hij (fun heq ↦ hij ?_) hkept
    rw [← hnum j hj, heq, hnum i hi]

end Still

section Laws

variable (hbus : Reliable (nocInterface m.noc) (Allowed m.config.coreCount) Live Fifo Holds)
include hbus

theorem Ok.tick (hcount : m.config.coreCount < 2 ^ 32)
    (hbuilt : ∀ i < m.config.coreCount, ∀ op ∈ programs i, op.Built)
    (h : m.Ok programs Live Holds s) (htick : m.tick s = .ok s') :
    m.Ok programs Live Holds s' := by
  obtain ⟨⟨controller, noc⟩, hcontroller, htick⟩ := Except.bind_eq_ok_iff.mp htick
  obtain ⟨s₁, hcores, htick⟩ := Except.bind_eq_ok_iff.mp htick
  obtain ⟨noc', hnoc, htick⟩ := Except.bind_eq_ok_iff.mp htick
  obtain rfl := Except.ok.inj htick
  have hturns : m.Ok programs Live Holds s₁ :=
    foldlM_keeps (m.Ok programs Live Holds) (h.tickController hbus.still hcontroller)
      (fun i hi _ _ hok hturn ↦
        hok.tickCore hbus.still hcount hbuilt (List.mem_range.mp hi) hturn) hcores
  intro hlive
  obtain ⟨t, hcarried, hrest⟩ := hturns (hbus.live_tick hnoc hlive)
  exact ⟨t, hcarried.tick hbus hnoc hlive, hrest⟩

theorem Ok.runLoop (hcount : m.config.coreCount < 2 ^ 32)
    (hbuilt : ∀ i < m.config.coreCount, ∀ op ∈ programs i, op.Built) (fuel : ℕ) :
    ∀ {s s' : SystemState}, m.Ok programs Live Holds s → m.runLoop fuel s = .ok s' →
      m.Ok programs Live Holds s' := by
  induction fuel with
  | zero =>
    intro s s' h hrun
    exact Except.ok.inj hrun ▸ h
  | succ fuel ih =>
    intro s s' h hrun
    rw [ManycoreSystem.runLoop] at hrun
    split_ifs at hrun
    · exact Except.ok.inj hrun ▸ h
    · obtain ⟨s₁, htick, hrun⟩ := Except.bind_eq_ok_iff.mp hrun
      exact ih (h.tick hbus hcount hbuilt htick) hrun

end Laws

end ManycoreSystem

end Manycore
