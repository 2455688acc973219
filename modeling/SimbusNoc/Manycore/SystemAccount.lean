import SimbusNoc.Manycore.AccountTurn
import SimbusNoc.Manycore.HartPorts
import SimbusNoc.Manycore.Invariant
import SimbusNoc.Manycore.Rv64Safety

/-!
# The accounts of all harts

Between any two turns of an RV64 system the interconnect carries some requests and responses, and
the account of every hart that has not faulted holds against them and the state of the controller.

`Accounted` quantifies over the traffic, of which there is only one, so that all accounts are
against the same letters. A turn of one party changes the traffic, and the accounts of the others
are kept because they look at their own letters only (`AccountIn.serve`, `AccountIn.other`). A
faulted hart has no account, but its adapter may go on sending, so the invariant of its view is
kept. The interconnect is a parameter that carries letters; on the ring it is the one that is
reliable for harts however many messages there have been. `inAccount_ticks` is the result, for
every number of ticks.
-/

namespace Manycore

open Simbus MemoryController AtomicCore Sequential Interconnect

/-- The account of a hart against a controller and the traffic. -/
abbrev HartView.AccountAgainst (Fifo : Prop) (hart : UInt32) (memoryPort : BusPortT)
    (depth : UInt32)
    (c : MemoryController) (t : Traffic) (v : HartView) : Prop :=
  v.AccountIn Fifo hart memoryPort depth (logOf c hart) (front c) c.response.toList t

variable {Fifo : Prop} {hart : UInt32} {memoryPort : BusPortT} {depth : UInt32} {n : ℕ}
  {c c' : MemoryController} {t t' : Traffic} {v : HartView}

theorem HartView.AccountIn.serve {done : List MemoryRequest}
    (h : v.AccountAgainst Fifo hart memoryPort depth c t) (hok : c.Ok n)
    (hserved : Served Fifo c c' t t' done) :
    v.AccountAgainst Fifo hart memoryPort depth c' t' := by
  obtain ⟨hfst, hsnd⟩ := history_ofHart hart c.memory done
  have hlog : logOf c' hart = logOf c hart ++
      (history apply c.memory done).filter fun x ↦ fromHart hart x.1 := by
    rw [logOf, MemoryController.log, hserved.completed, history_append, List.filter_append,
      ← hok.memory]
    rfl
  have hpending := hserved.pending.filter (fromHart hart)
  rw [List.filter_append, ← hfst, pending, pending, ← List.append_assoc, ← List.append_assoc]
    at hpending
  have horder : Fifo → (front c ++ t.requests).filter (fromHart hart) =
      ((history apply c.memory done).filter fun x ↦ fromHart hart x.1).map Prod.fst ++
        (front c' ++ t'.requests).filter (fromHart hart) := by
    intro hF
    have horder := hserved.order hF hart
    rwa [List.filter_append, ← hfst, pending, pending, ← List.append_assoc, ← List.append_assoc]
      at horder
  have hanswers := congrArg (List.filter (toHart hart)) hserved.answers
  rw [List.filter_append, ← hsnd, answers, answers] at hanswers
  have hnew : ∀ x ∈ (history apply c.memory done).filter fun x ↦ fromHart hart x.1,
      Answers x.1 x.2 := fun x hx ↦ answers_of_mem_history (List.mem_filter.mp hx).1
  have haccount := Account.serve h hnew hpending horder
  rwa [AccountAgainst, AccountIn, hlog, hanswers]

theorem HartView.AccountIn.other {hart' : UInt32}
    (h : v.AccountAgainst Fifo hart memoryPort depth c t) (hne : hart ≠ hart')
    (hkept : OthersKept hart' t t') : v.AccountAgainst Fifo hart memoryPort depth c t' := by
  obtain ⟨hrequests, hresponses⟩ := hkept hart hne
  rw [AccountAgainst, AccountIn, List.filter_append, hrequests, List.filter_append, hresponses,
    ← List.filter_append, ← List.filter_append]
  exact h

/-- A hart whose turn is still to come has no account to settle. -/
theorem HartView.AccountIn.init {k : Rv64Hart} {stackTop : UInt64} {core : Rv64AtomicCore}
    (h : Rv64AtomicCore.construct k depth stackTop = .ok core) :
    core.view.AccountAgainst Fifo hart memoryPort depth {} {} := by
  obtain ⟨u, -, h⟩ := Except.bind_eq_ok_iff.mp h
  obtain ⟨mmio, hmmio, h⟩ := Except.bind_eq_ok_iff.mp h
  have hstore : MmioBusAdapter.Store hart memoryPort depth [] mmio {} := .start hmmio
  obtain ⟨u', -, hmmio⟩ := Except.bind_eq_ok_iff.mp hmmio
  obtain rfl := Except.ok.inj hmmio
  obtain rfl := Except.ok.inj h
  exact
    { running := Rv64CoreState.noConfusion
      idle := fun _ ↦ rfl
      store := ⟨[], {}, hstore⟩
      answered := ⟨[], [], [], .nil, fun _ ↦ rfl, rfl, .nil, .nil, rfl⟩
      transactions := .nil
      order := fun _ ↦ rfl
      count := rfl
      answers_log := nofun
      completed := rfl
      results := nofun }

namespace Rv64ManycoreSystem

variable {m : Rv64ManycoreSystem} {Holds : List Letter → Interconnect → Prop}
  {s s' : Rv64SystemState} {i : ℕ}

/-- A core, and its account unless it has faulted. -/
def InOrder (m : Rv64ManycoreSystem) (Fifo : Prop) (c : MemoryController) (t : Traffic) (i : ℕ)
    (core : Rv64AtomicCore) : Prop :=
  core.view.Ok (m.hart i).hartId ∧ (core.state = .faulted ∨
    core.view.AccountAgainst Fifo (m.hart i).hartId m.coreCount m.config.mmioDepth c t)

/-- What holds between any two turns. -/
def Accounted (m : Rv64ManycoreSystem) (Fifo : Prop) (Holds : List Letter → Interconnect → Prop)
    (s : Rv64SystemState) : Prop :=
  ∃ t, Carried Holds m.coreCount t s.bus ∧ s.memoryController.Ok m.coreCount ∧
    ∀ i < m.coreCount, m.InOrder Fifo s.memoryController t i (s.cores i)

theorem Built.accounted (h : m.Built s) (hholds : Holds [] s.bus) : m.Accounted Fifo Holds s := by
  refine ⟨{}, ⟨[], hholds, .nil _⟩, ?_, fun i hi ↦ ?_⟩
  · rw [h.controller]
    exact .init _
  · rw [h.controller]
    exact ⟨Rv64AtomicCore.construct_ok (h.cores i hi), .inr (.init (h.cores i hi))⟩

theorem hartId_ne {j : ℕ} (hi : i < m.coreCount) (hj : j < m.coreCount) (hne : j ≠ i) :
    (m.hart j).hartId ≠ (m.hart i).hartId := fun heq ↦
  hne (by rw [← m.toNat_hartId hj, heq, m.toNat_hartId hi])

/-! ## The turns of one hart

A tick is many turns, of which one is that of a given hart. Before it the hart waits for its turn,
and after it keeps what it has made of it.
-/

theorem cores_of_tickCore {j : ℕ} (h : m.tickCore s j = .ok s') (hne : i ≠ j) :
    s'.cores i = s.cores i := by
  obtain ⟨⟨core, x'⟩, -, h⟩ := Except.bind_eq_ok_iff.mp h
  obtain rfl := Except.ok.inj h
  exact Function.update_of_ne hne ..

theorem cores_of_during {j : ℕ} (h : m.during s j = .ok s') (hij : j ≤ i) :
    s'.cores i = s.cores i := by
  induction j generalizing s' with
  | zero =>
    obtain ⟨s₁, hs₁, h⟩ := Except.bind_eq_ok_iff.mp h
    obtain rfl := Except.ok.inj h
    obtain ⟨x, -, hs₁⟩ := Except.bind_eq_ok_iff.mp hs₁
    obtain rfl := Except.ok.inj hs₁
    rfl
  | succ j ih =>
    rw [during_succ] at h
    obtain ⟨s₁, hs₁, h⟩ := Except.bind_eq_ok_iff.mp h
    rw [cores_of_tickCore h (by omega), ih hs₁ (by omega)]

/-- Core `i` has had its turn, and keeps what it made of it. -/
theorem exists_turn_of_during {n : ℕ} (h : m.during s n = .ok s') (hi : i < n) :
    ∃ s₁ s₂, m.during s i = .ok s₁ ∧ m.tickCore s₁ i = .ok s₂ ∧ s₁.cores i = s.cores i ∧
      s'.cores i = s₂.cores i := by
  induction n generalizing s' with
  | zero => exact absurd hi (Nat.not_lt_zero i)
  | succ n ih =>
    rw [during_succ] at h
    obtain ⟨s₁, hs₁, h⟩ := Except.bind_eq_ok_iff.mp h
    rcases Nat.lt_succ_iff_lt_or_eq.mp hi with hlt | rfl
    · obtain ⟨t₁, t₂, ht₁, ht₂, hbefore, hafter⟩ := ih hs₁ hlt
      exact ⟨t₁, t₂, ht₁, ht₂, hbefore, (cores_of_tickCore h hlt.ne).trans hafter⟩
    · exact ⟨s₁, s', hs₁, h, cores_of_during hs₁ le_rfl, rfl⟩

theorem exists_turn_of_tick (h : m.tick s = .ok s') (hi : i < m.coreCount) :
    ∃ s₁ s₂, m.during s i = .ok s₁ ∧ m.tickCore s₁ i = .ok s₂ ∧ s₁.cores i = s.cores i ∧
      s'.cores i = s₂.cores i := by
  obtain ⟨s₁, hs₁, h⟩ := Except.bind_eq_ok_iff.mp h
  obtain ⟨x, -, h⟩ := Except.bind_eq_ok_iff.mp h
  obtain rfl := Except.ok.inj h
  have hduring : m.during s m.coreCount = .ok s₁ := hs₁
  have hturn := exists_turn_of_during hduring hi
  exact hturn

theorem tick_of_tickCore (h : m.tickCore s i = .ok s') :
    ∃ x', (s.cores i).tick interface (m.hart i) i m.memoryPort s.bus = .ok (s'.cores i, x') := by
  obtain ⟨⟨core, x'⟩, hcore, h⟩ := Except.bind_eq_ok_iff.mp h
  obtain rfl := Except.ok.inj h
  refine ⟨x', hcore.trans ?_⟩
  dsimp only
  rw [Function.update_self]

section Laws

variable (hbus : Reliable still.toBusInterfaceV2 (Allowed m.coreCount) (fun _ ↦ True) Fifo Holds)
  (hreturns : HartsReturn still.toBusInterfaceV2 m.coreCount (· ≤ 64)
    fun x ↦ ∃ letters, Holds letters x)

include hbus in
theorem Accounted.tickController (h : m.Accounted Fifo Holds s)
    (htick : m.tickController s = .ok s') : m.Accounted Fifo Holds s' := by
  obtain ⟨t, hcarried, hok, hcores⟩ := h
  obtain ⟨⟨c', x'⟩, hc', htick⟩ := Except.bind_eq_ok_iff.mp htick
  obtain rfl := Except.ok.inj htick
  obtain ⟨t', done, hcarried', hok', hserved⟩ :=
    MemoryController.tick_spec hbus _ hok hcarried hc' trivial
  refine ⟨t', hcarried', hok', fun i hi ↦ ⟨(hcores i hi).1, ?_⟩⟩
  exact (hcores i hi).2.imp_right fun haccount ↦ haccount.serve hok hserved

include hbus hreturns in
/-- A turn of hart `i`. When it faults now, it is not over a response. -/
theorem Accounted.tickCore (h : m.Accounted Fifo Holds s) (hi : i < m.coreCount)
    (htick : m.tickCore s i = .ok s') : m.Accounted Fifo Holds s' ∧
      ((s.cores i).state ≠ .faulted → (s'.cores i).state = .faulted →
        (s'.cores i).stopReason ∉ unexpectedReasons) := by
  obtain ⟨t, hcarried, hok, hcores⟩ := h
  obtain ⟨hview, hstanding⟩ := hcores i hi
  obtain ⟨⟨core, x'⟩, hcore, htick⟩ := Except.bind_eq_ok_iff.mp htick
  obtain rfl := Except.ok.inj htick
  have hnum := m.toNat_hartId hi
  obtain ⟨c₁, hturn₁, hturn₂⟩ := Rv64AtomicCore.turns_of_tick hcore
  have hview' : core.view.Ok (m.hart i).hartId := hturn₂.view_ok (hturn₁.view_ok hview)
  -- a core that has faulted stays so, another one keeps its account or faults now
  obtain ⟨t', hcarried', hkept, hnow⟩ : ∃ t', Carried Holds m.coreCount t' x' ∧
      OthersKept (m.hart i).hartId t t' ∧
      (((s.cores i).state = .faulted ∧ core.state = .faulted) ∨
        Rv64AtomicCore.Standing Fifo (m.hart i) m.coreCount m.config.mmioDepth
          (logOf s.memoryController (m.hart i).hartId) (front s.memoryController)
          s.memoryController.response.toList t' core) := by
    rcases hstanding with hfaulted | haccount
    · obtain ⟨t', hcarried', hkept, hfaulted'⟩ := @Rv64AtomicCore.tick_faulted _ still _ _ _ hbus
        hreturns _ hi _ _ _ _ _ _ hnum hview hfaulted hcarried hcore
      exact ⟨t', hcarried', hkept, .inl ⟨hfaulted, hfaulted'⟩⟩
    · obtain ⟨t', hcarried', hkept, hstanding'⟩ := @Rv64AtomicCore.tick_account _ still _ _ _ hbus
        hreturns _ hi _ _ _ _ _ _ _ _ _ _ hnum hview haccount hcarried hcore
      exact ⟨t', hcarried', hkept, .inr hstanding'⟩
  have hself : Function.update s.cores i core i = core := Function.update_self ..
  refine ⟨⟨t', hcarried', hok, fun j hj ↦ ?_⟩, fun hrunning hfaulted' ↦ ?_⟩
  · change m.InOrder Fifo s.memoryController t' j (Function.update s.cores i core j)
    by_cases hji : j = i
    · subst hji
      rw [hself]
      refine ⟨hview', ?_⟩
      rcases hnow with ⟨-, hfaulted'⟩ | haccount' | ⟨hfaulted', -⟩
      · exact .inl hfaulted'
      · exact .inr haccount'
      · exact .inl hfaulted'
    · rw [Function.update_of_ne hji]
      exact ⟨(hcores j hj).1, (hcores j hj).2.imp_right fun haccount ↦
        haccount.other (hartId_ne hi hj hji) hkept⟩
  · change (Function.update s.cores i core i).state = .faulted at hfaulted'
    change (Function.update s.cores i core i).stopReason ∉ unexpectedReasons
    rw [hself] at hfaulted' ⊢
    rcases hnow with ⟨hfaulted, -⟩ | haccount' | ⟨-, hreason⟩
    · exact absurd hfaulted hrunning
    · exact absurd hfaulted' haccount'.running
    · exact hreason

include hbus hreturns in
theorem Accounted.during (h : m.Accounted Fifo Holds s) (hi : i ≤ m.coreCount)
    (hduring : m.during s i = .ok s') : m.Accounted Fifo Holds s' := by
  induction i generalizing s' with
  | zero =>
    obtain ⟨s₁, hs₁, hduring⟩ := Except.bind_eq_ok_iff.mp hduring
    obtain rfl := Except.ok.inj hduring
    exact h.tickController hbus hs₁
  | succ i ih =>
    rw [during_succ] at hduring
    obtain ⟨s₁, hs₁, hs'⟩ := Except.bind_eq_ok_iff.mp hduring
    exact ((ih (Nat.le_of_succ_le hi) hs₁).tickCore hbus hreturns hi hs').1

include hbus hreturns in
/-- A whole tick, on a bus that moves on without a loss. -/
theorem Accounted.tick (hnext : ∀ {letters x x'}, Holds letters x →
      interface.applyNextTick x = .ok x' → Holds letters x')
    (h : m.Accounted Fifo Holds s) (htick : m.tick s = .ok s') : m.Accounted Fifo Holds s' := by
  obtain ⟨s₁, hs₁, htick⟩ := Except.bind_eq_ok_iff.mp htick
  obtain ⟨t, ⟨letters, hholds, hspells⟩, hok, hcores⟩ := h.during hbus hreturns le_rfl hs₁
  obtain ⟨x', hx', htick⟩ := Except.bind_eq_ok_iff.mp htick
  obtain rfl := Except.ok.inj htick
  exact ⟨t, ⟨letters, hnext hholds hx', hspells⟩, hok, hcores⟩

end Laws

/-! ## Every run -/

/-- The accounts of a system in a run, however long it is. -/
abbrev InAccount (m : Rv64ManycoreSystem) (s : Rv64SystemState) : Prop :=
  m.Accounted False (Steady m.coreCount) s

variable {arch : Rv64archsem.ArchSem} {ord : HashOrder} {program : ProgramImage}
  {config : Rv64ManycoreConfig} {latency : InstructionLatencyConfig} {s₀ : Rv64SystemState}

theorem inAccount_ticks (h : construct arch ord program config latency = .ok (m, s₀)) {k : ℕ}
    (hs : m.ticks k s₀ = .ok s) : m.InAccount s := by
  induction k generalizing s with
  | zero =>
    obtain rfl := Except.ok.inj hs
    exact (construct_eq_ok h).2.accounted (construct_steady h)
  | succ k ih =>
    obtain ⟨s₁, hs₁, htick⟩ := Except.bind_eq_ok_iff.mp hs
    exact (ih hs₁).tick (reliable_steady _) (harts_return _) Steady.applyNextTick htick

theorem reachable_ticks (h : construct arch ord program config latency = .ok (m, s₀)) {k : ℕ}
    (hs : m.ticks k s₀ = .ok s) (hi : i < m.coreCount) :
    Rv64AtomicCore.Reachable (m.hart i) (s.cores i) := by
  induction k generalizing s with
  | zero =>
    obtain rfl := Except.ok.inj hs
    exact .construct ((construct_eq_ok h).2.cores i hi)
  | succ k ih =>
    obtain ⟨s₁, hs₁, htick⟩ := Except.bind_eq_ok_iff.mp hs
    obtain ⟨t₁, t₂, -, ht₂, hbefore, hafter⟩ := exists_turn_of_tick htick hi
    obtain ⟨x', hcore⟩ := tick_of_tickCore ht₂
    rw [hafter]
    exact Rv64AtomicCore.reachable_tick (hbefore ▸ ih hs₁) hcore

theorem InAccount.during (h : m.InAccount s) (hi : i ≤ m.coreCount)
    (hduring : m.during s i = .ok s') : m.InAccount s' :=
  Accounted.during (reliable_steady _) (harts_return _) h hi hduring

theorem InAccount.tickCore (h : m.InAccount s) (hi : i < m.coreCount)
    (htick : m.tickCore s i = .ok s') : m.InAccount s' ∧
      ((s.cores i).state ≠ .faulted → (s'.cores i).state = .faulted →
        (s'.cores i).stopReason ∉ unexpectedReasons) :=
  Accounted.tickCore (reliable_steady _) (harts_return _) h hi htick

end Rv64ManycoreSystem

end Manycore
