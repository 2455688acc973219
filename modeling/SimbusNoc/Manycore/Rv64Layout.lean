import SimbusNoc.Manycore.InterconnectLaws
import SimbusNoc.Manycore.Rv64ManycoreSystem

/-!
# A new RV64 system

What the constructor has built and checked. `Built` collects it: the numbers of the harts, the
ports of the controller and the harts, cores and controller in their initial states, and an
interconnect that holds no letter yet. The ring of an RV64 system has the layout of the ring of a
scripted system, so what was proved there about its routes and ports applies to it. Proofs about
reachable states start at `Built` and do not look at the constructor again. `firstTicks` runs a new
system for some ticks, for the programs on which the results are tried.
-/

namespace Manycore

open Simbus

namespace Rv64ManycoreSystem

/-- The hart of core `i` has the number `i`. -/
theorem toNat_hartId (m : Rv64ManycoreSystem) {i : ℕ} (hi : i < m.coreCount) :
    (m.hart i).hartId.toNat = i :=
  UInt32.toNat_ofNat_of_lt' (hi.trans m.config.coreCount_lt)

/-- A new system. -/
structure Built (m : Rv64ManycoreSystem) (s : Rv64SystemState) : Prop where
  memory : m.config.memoryLatency ≠ 0 ∧ m.config.memoryQueueCapacity ≠ 0
  cores_ne : m.coreCount ≠ 0
  holds : ∀ K, s.bus.Holds m.coreCount K []
  messages : s.bus.messages = 0
  shared : m.config.sharedBus = true → ∃ b, s.bus = .shared b {} ∧ b.config = m.config.bus
  controller : s.memoryController = {}
  cores : ∀ i < m.coreCount,
    Rv64AtomicCore.construct (m.hart i) m.config.mmioDepth = .ok (s.cores i)

/-- The ring that the constructor builds has the layout of a scripted system. -/
theorem ringNoCConstruct_layout {ord : HashOrder} {config : ManycoreConfig} {noc : Bus}
    (hlt : config.coreCount < 2 ^ 32) (hcores : config.coreCount ≠ 0)
    (hmemory : config.memoryLatency ≠ 0 ∧ config.memoryQueueCapacity ≠ 0)
    (h : ringNoCConstruct ord config.coreCount (makeNocConfig config) = .ok noc) :
    Layout ord config ⟨config, noc⟩ ∧ ∀ size c, size ≤ 64 → noc.Fits size c := by
  obtain ⟨route, hroute, hnoc⟩ := Except.bind_eq_ok_iff.mp h
  -- with the largest core count the number of ports wraps to zero
  have hsmall : config.coreCount + 1 < 2 ^ 32 := by
    by_contra hlarge
    have hports : (config.coreCount + 1) % 2 ^ 32 = 0 := by omega
    rw [hports] at hnoc
    obtain ⟨u, -, hnoc⟩ := Except.bind_eq_ok_iff.mp hnoc
    obtain ⟨u, -, hnoc⟩ := Except.bind_eq_ok_iff.mp hnoc
    obtain ⟨u, hne, -⟩ := Except.bind_eq_ok_iff.mp hnoc
    exact absurd (require_eq_ok_iff.mp hne) (by decide)
  rw [Nat.mod_eq_of_lt hsmall] at hroute hnoc
  obtain ⟨u, hvalid, -⟩ := Except.bind_eq_ok_iff.mp hnoc
  obtain ⟨-, -, -, -, hlimits⟩ := validateConfig_eq_ok hvalid
  have hlayout : Layout ord config ⟨config, noc⟩ :=
    { config_eq := rfl
      small := by omega
      cores := hcores
      buffers := (hlimits rfl).1.ne'
      memory := hmemory
      noc := ⟨route, hroute, by rw [makePorts_eq]; exact hnoc⟩ }
  refine ⟨hlayout, fun size c hsize ↦ Bus.fits_of_le hlayout.wellFormed (by omega) ?_ c⟩
  obtain ⟨-, -, -, -, -, -, hconfig⟩ := Simbus.construct_eq_ok hnoc
  rw [hconfig]
  exact hsize.trans (show 64 ≤ 4096 by decide)

/-- What a loop that fills a table has put into it. -/
theorem foldlM_update_eq_ok {ε α : Type} {f : ℕ → Except ε α} {table : ℕ → α} (n : ℕ) :
    ∀ {table' : ℕ → α}, (List.range n).foldlM (fun table i ↦ do
        let a ← f i
        return Function.update table i a) table = .ok table' →
      ∀ i < n, f i = .ok (table' i) := by
  induction n with
  | zero => exact fun _ _ hi ↦ absurd hi (Nat.not_lt_zero _)
  | succ n ih =>
    intro table' h i hi
    rw [List.range_succ, List.foldlM_append] at h
    obtain ⟨table₁, h₁, h⟩ := Except.bind_eq_ok_iff.mp h
    rw [List.foldlM_cons] at h
    obtain ⟨table₂, h₂, h⟩ := Except.bind_eq_ok_iff.mp h
    obtain rfl := Except.ok.inj h
    obtain ⟨a, ha, h₂⟩ := Except.bind_eq_ok_iff.mp h₂
    obtain rfl := Except.ok.inj h₂
    by_cases hin : i = n
    · rw [hin, ha, Function.update_self]
    · rw [ih h₁ i (by omega), Function.update_of_ne hin]

theorem constructBus_holds {ord : HashOrder} {config : Rv64ManycoreConfig} {x : Interconnect}
    (hcores : config.coreCount ≠ 0)
    (hmemory : config.memoryLatency ≠ 0 ∧ config.memoryQueueCapacity ≠ 0)
    (h : constructBus ord config = .ok x) :
    (∀ K, x.Holds config.coreCount K []) ∧ x.messages = 0 ∧
      (config.sharedBus = true → ∃ b, x = .shared b {} ∧ b.config = config.bus) := by
  rw [constructBus] at h
  by_cases hshared : config.sharedBus = true
  · rw [if_pos hshared] at h
    obtain ⟨b, hb, h⟩ := Except.bind_eq_ok_iff.mp h
    obtain rfl := Except.ok.inj h
    obtain ⟨hbus, haccepted⟩ := SharedBus.construct_eq_ok hb
    have hsize : b.size = config.coreCount + 1 := by
      have hpos := haccepted.size_pos
      have hlt := config.coreCount_lt
      rw [hbus, SharedBus.size, UInt32.toNat_ofNat'] at hpos ⊢
      omega
    exact ⟨fun K ↦ .shared hsize (.init haccepted) nofun, rfl, fun _ ↦ ⟨b, rfl, by rw [hbus]⟩⟩
  · rw [if_neg hshared] at h
    obtain ⟨noc, hnoc, h⟩ := Except.bind_eq_ok_iff.mp h
    obtain rfl := Except.ok.inj h
    obtain ⟨hlayout, hfits⟩ := ringNoCConstruct_layout config.coreCount_lt hcores hmemory hnoc
    exact ⟨fun K ↦ .ring hlayout rfl hfits (.init noc K _), rfl, fun h ↦ absurd h hshared⟩

/-- What the constructor returns. -/
theorem construct_eq_ok {arch : Rv64archsem.ArchSem} {ord : HashOrder} {program : ProgramImage}
    {config : Rv64ManycoreConfig} {latency : InstructionLatencyConfig} {m : Rv64ManycoreSystem}
    {s : Rv64SystemState} (h : construct arch ord program config latency = .ok (m, s)) :
    m = ⟨arch, program, config, latency⟩ ∧ m.Built s := by
  obtain ⟨x, hx, h⟩ := Except.bind_eq_ok_iff.mp h
  obtain ⟨u, hmemory, h⟩ := Except.bind_eq_ok_iff.mp h
  obtain ⟨u', hcores, h⟩ := Except.bind_eq_ok_iff.mp h
  obtain ⟨cores, hconstruct, h⟩ := Except.bind_eq_ok_iff.mp h
  obtain ⟨rfl, rfl⟩ := Prod.mk.inj (Except.ok.inj h)
  rw [MemoryController.validate, require_eq_ok_iff, Bool.not_eq_true', Bool.or_eq_false_iff,
    beq_eq_false_iff_ne, beq_eq_false_iff_ne] at hmemory
  rw [require_eq_ok_iff, Bool.not_eq_true', beq_eq_false_iff_ne] at hcores
  obtain ⟨hholds, hmessages, hshared⟩ := constructBus_holds hcores hmemory hx
  exact ⟨rfl, hmemory, hcores, hholds, hmessages, hshared, rfl, foldlM_update_eq_ok _ hconstruct⟩

/-! ## The ticks after construction -/

variable {arch : Rv64archsem.ArchSem} {ord : HashOrder} {program : ProgramImage}
  {config : Rv64ManycoreConfig} {latency : InstructionLatencyConfig}

/-- A new system, its first state, and its state after `k` ticks. -/
def firstTicks (arch : Rv64archsem.ArchSem) (ord : HashOrder) (program : ProgramImage)
    (config : Rv64ManycoreConfig) (latency : InstructionLatencyConfig) (k : ℕ) :
    Except String (Rv64ManycoreSystem × Rv64SystemState × Rv64SystemState) := do
  let built ← construct arch ord program config latency
  let s ← built.1.ticks k built.2
  return (built.1, built.2, s)

theorem firstTicks_eq_ok_iff {k : ℕ} {m : Rv64ManycoreSystem} {s₀ s : Rv64SystemState} :
    firstTicks arch ord program config latency k = .ok (m, s₀, s) ↔
      construct arch ord program config latency = .ok (m, s₀) ∧ m.ticks k s₀ = .ok s := by
  rw [firstTicks, Except.bind_eq_ok_iff]
  constructor
  · rintro ⟨⟨m', s₀'⟩, hconstruct, h⟩
    obtain ⟨s', hs, h⟩ := Except.bind_eq_ok_iff.mp h
    simp only [pure, Except.pure, Except.ok.injEq, Prod.mk.injEq] at h
    obtain ⟨rfl, rfl, rfl⟩ := h
    exact ⟨hconstruct, hs⟩
  · rintro ⟨hconstruct, hs⟩
    exact ⟨(m, s₀), hconstruct, Except.bind_eq_ok_iff.mpr ⟨s, hs, rfl⟩⟩

/-- Ticks that come to something that can be computed from their result. -/
theorem exists_of_firstTicks {k : ℕ} {α : Type}
    {f : Rv64ManycoreSystem × Rv64SystemState × Rv64SystemState → α} {a : α}
    (h : (firstTicks arch ord program config latency k).map f = .ok a) : ∃ m s₀ s,
      firstTicks arch ord program config latency k = .ok (m, s₀, s) ∧
      construct arch ord program config latency = .ok (m, s₀) ∧ m.ticks k s₀ = .ok s ∧
      f (m, s₀, s) = a := by
  obtain ⟨⟨m, s₀, s⟩, hrun, hf⟩ := Except.map_eq_ok_iff.mp h
  obtain ⟨hconstruct, hs⟩ := firstTicks_eq_ok_iff.mp hrun
  exact ⟨m, s₀, s, hrun, hconstruct, hs, hf⟩

end Rv64ManycoreSystem

end Manycore
