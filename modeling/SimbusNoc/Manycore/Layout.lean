import SimbusNoc.Manycore.NocChannel
import SimbusNoc.Manycore.Traffic
import Mathlib.Data.Nat.SuccPred

/-!
# The layout of the scripted system

Port `i` is the port of core `i`, port `core_count` that of the memory controller, and each port
has a node of its own number. So every node receives on one port and one channel only.

This is what makes the network reliable for the system whatever the number of messages: letters for
one node are for one port and channel (`Layout.keyed`), so two messages under one transmission id
can jam a receive buffer but never swap bytes between buffers.
-/

namespace Manycore

open Simbus

/-- What the constructor of the system has built and checked. -/
structure Layout (ord : HashOrder) (config : ManycoreConfig) (m : ManycoreSystem) : Prop where
  config_eq : m.config = config
  small : config.coreCount < 2 ^ 32 - 1
  cores : config.coreCount ≠ 0
  buffers : config.routerBufferLimit ≠ 0
  memory : config.memoryLatency ≠ 0 ∧ config.memoryQueueCapacity ≠ 0
  noc : ∃ route, genrouteDoubleRing (makeNodes config.coreCount) = .ok route ∧
    Simbus.construct ord (makePorts config.coreCount) (makeNodes config.coreCount)
      [config.linkWidthBytes, config.linkWidthBytes] route (makeNocConfig config) = .ok m.noc

theorem ManycoreSystem.construct_layout {ord : HashOrder} {config : ManycoreConfig}
    {m : ManycoreSystem} (h : ManycoreSystem.construct ord config = .ok m) :
    Layout ord config m := by
  simp only [ManycoreSystem.construct, MemoryController.validate, controllerConfig,
    Except.bind_eq_ok_iff, require_eq_ok_iff, decide_eq_true_eq] at h
  obtain ⟨_, hsmall, route, hroute, noc, hnoc, _, hmemory, _, hcores, h⟩ := h
  obtain rfl := Except.ok.inj h
  simp only [Bool.not_eq_true', Bool.or_eq_false_iff, beq_eq_false_iff_ne] at hmemory hcores
  exact ⟨rfl, hsmall, hcores.1, hcores.2, hmemory, route, hroute, hnoc⟩

theorem makePorts_eq (n : ℕ) : makePorts n = List.range (n + 1) := List.range_succ.symm

namespace Layout

variable {ord : HashOrder} {config : ManycoreConfig} {m : ManycoreSystem}
  (h : Layout ord config m)
include h

theorem wellFormed : m.noc.WellFormed := by
  obtain ⟨route, -, hnoc⟩ := h.noc
  exact construct_wellFormed hnoc

theorem port2node : m.noc.port2node = (List.range (config.coreCount + 1)).map fun i ↦ (i, i) := by
  obtain ⟨route, -, hnoc⟩ := h.noc
  obtain ⟨-, -, -, -, hports, -⟩ := construct_eq_ok hnoc
  rw [hports, makePorts_eq, makeNodes, List.zip_eq_zipWith, List.zipWith_self]

theorem knownPort {p : BusPortT} : m.noc.knownPort p = true ↔ p ≤ config.coreCount := by
  rw [Bus.knownPort, h.port2node]
  simp

theorem chaCnt : m.noc.chaCnt = 2 := by
  obtain ⟨route, -, hnoc⟩ := h.noc
  exact (construct_eq_ok hnoc).1

theorem home {p : BusPortT} (hp : p ≤ config.coreCount) : m.noc.home p = p := by
  have hlookup : ∀ l : List ℕ, p ∈ l → (l.map fun i ↦ (i, i)).lookup p = some p := by
    intro l hl
    induction l with
    | nil => cases hl
    | cons i l ih =>
      rw [List.map_cons]
      by_cases hi : p = i
      · rw [hi, List.lookup_cons_self]
      · have hbeq : (p == i) = false := by simpa using hi
        rw [List.lookup_cons, hbeq]
        exact ih ((List.mem_cons.mp hl).resolve_left hi)
  rw [Bus.home, h.port2node, hlookup _ (List.mem_range.mpr (Nat.lt_succ_of_le hp)),
    Option.getD_some]

/-- Letters for one node are for one port and channel. -/
theorem keyed (l l' : Letter) (hl : Allowed config.coreCount l) (hl' : Allowed config.coreCount l')
    (hhome : m.noc.home l.dst = m.noc.home l'.dst) : l.dst = l'.dst ∧ l.cha = l'.cha := by
  have hdst : l.dst ≤ config.coreCount ∧ l'.dst ≤ config.coreCount := by
    constructor
    · cases hl with
      | request => exact le_rfl
      | response _ hn => exact hn.le
    · cases hl' with
      | request => exact le_rfl
      | response _ hn => exact hn.le
  rw [h.home hdst.1, h.home hdst.2] at hhome
  refine ⟨hhome, ?_⟩
  cases hl with
  | request =>
    cases hl' with
    | request => rfl
    | response _ hn => exact absurd hhome hn.ne'
  | response _ hn =>
    cases hl' with
    | request => exact absurd hhome hn.ne
    | response => rfl

/-- Whatever the number of messages, the network is reliable. -/
theorem reliable : Reliable (nocInterface m.noc) (Allowed m.config.coreCount) (fun _ ↦ True) False
    (NocHolds m.noc True (Allowed m.config.coreCount)) := by
  rw [h.config_eq]
  exact reliable_keyed h.wellFormed (fun _ hl ↦ hl.length_le) h.keyed

end Layout

end Manycore
