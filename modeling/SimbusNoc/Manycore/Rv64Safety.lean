import SimbusNoc.Manycore.ControllerTurn
import SimbusNoc.Manycore.Rv64Layout

/-!
# No tick of an RV64 system throws

Whatever the program is, what the harts and the controller put on the bus is well formed, short and
addressed to a port that exists. So every call of a tick returns, and an error that a hart meets
stays with that hart.

## The errors of a hart

`Errs` lists what can go wrong in the core's own part of a tick, with its reason, and `Meets` adds
the adapter. The two directions are proved separately: an error faults the core for its reason, and
a core that faults has met an error. The second goes through the states of the core.

## The invariant

`Sound` holds between any two turns: the interconnect carries known letters, all of them requests
of harts or responses to them, the views of all harts are in order, and the controller has only
requests of harts that exist. Each party's turn returns on such a bus and keeps it. The tick of the
ring is the one place where the number of messages matters, since transmission ids must not repeat;
until then `ticks_safe` holds for any program.
-/

namespace Manycore

open Simbus Rv64archsem Throwing Interconnect

/-! ## The errors of a hart -/

namespace Rv64AtomicCore

section Errors

variable {σ : Type} (bus : IBus σ) (k : Rv64Hart) (port memoryPort : BusPortT)

/-- The instruction at `pc` cannot be fetched, decoded and timed. -/
inductive Unfetched (pc : UInt64) (vl : UInt32) : String → Prop
  | outside {reason} : k.program.fetch16 pc = .error reason → Unfetched pc vl reason
  | compressed {low} : k.program.fetch16 pc = .ok low → low &&& 3 ≠ 3 →
      Unfetched pc vl ("compressed instructions are not supported in this stage at " ++ hexValue pc)
  | cutOff {low reason} : k.program.fetch16 pc = .ok low → low &&& 3 = 3 →
      k.program.fetch32 pc = .error reason → Unfetched pc vl reason
  | undecodable {low raw} : k.program.fetch16 pc = .ok low → low &&& 3 = 3 →
      k.program.fetch32 pc = .ok raw → k.arch.decode raw = none →
      Unfetched pc vl ("decode failed at " ++ hexValue pc ++ " instruction " ++
        hexValue (UInt64.ofNat raw.toNat))
  | latency {low raw decoded reason} : k.program.fetch16 pc = .ok low → low &&& 3 = 3 →
      k.program.fetch32 pc = .ok raw → k.arch.decode raw = some decoded →
      instructionLatency k.arch decoded k.latency vl.toNat = .error reason → Unfetched pc vl reason

/-- The core's own part of a tick meets an error. -/
inductive Errs (c : Rv64AtomicCore) (s : σ) : String → Prop
  | fetch {reason} : c.state = .fetchDecode → Unfetched k c.pc c.vectorContext.vl reason →
      Errs c s reason
  | execute {reason c'} : c.state = .executeWait →
      ¬(isFence c.instruction.decoded.controlType && c.mmio.busy) = true →
      c.countExecuteWait.cyclesLeft = 0 → execute k c.countExecuteWait = .error (reason, c') →
      Errs c s reason
  | window {reason c'} : c.state = .memoryIssue → c.vectorIssueLeft = 0 →
      touchesWindow c.request = true → accessWindow k c = .error (reason, c') → Errs c s reason
  | response {bytes s' reason c'} : c.state = .memoryWait →
      bus.canRecv s port responseChannel = .ok true →
      bus.recv s port responseChannel = .ok (some bytes, s') →
      takeResponse k c bytes = .error (reason, c') → Errs c s reason

/-- A hart meets an error in its tick. -/
inductive Meets (c : Rv64AtomicCore) (s : σ) : String → Prop
  | adapter {reason mmio s'} :
      c.mmio.tryTick bus k.hartId port memoryPort s = (some reason, mmio, s') → Meets c s reason
  | core {reason mmio s'} :
      c.mmio.tryTick bus k.hartId port memoryPort s = (none, mmio, s') →
      Errs bus k port (c.advanceMmio mmio).countTick s' reason → Meets c s reason

/-- The hart has faulted for this reason. -/
def FaultedFor (reason : String) (c : Rv64AtomicCore) : Prop :=
  c.state = .faulted ∧ c.stopReason = reason

variable {bus k port memoryPort} {c c' : Rv64AtomicCore} {s s' : σ}

theorem faultedFor_fault (c : Rv64AtomicCore) (reason : String) :
    FaultedFor reason (c.fault reason) :=
  ⟨rfl, rfl⟩

theorem Unfetched.faultedFor {reason : String} (h : Unfetched k c.pc c.vectorContext.vl reason) :
    FaultedFor reason (recover (fetch k c)) := by
  rw [fetch]
  cases h with
  | outside hlow =>
    rw [hlow]
    exact faultedFor_fault _ _
  | compressed hlow hbits =>
    simp only [hlow, onThrow, bind, Except.bind, if_pos hbits]
    exact faultedFor_fault _ _
  | cutOff hlow hbits hraw =>
    simp only [hlow, onThrow, bind, Except.bind, if_neg (not_not.mpr hbits), hraw]
    exact faultedFor_fault _ _
  | undecodable hlow hbits hraw hdecode =>
    simp only [hlow, onThrow, bind, Except.bind, if_neg (not_not.mpr hbits), hraw, hdecode]
    exact faultedFor_fault _ _
  | latency hlow hbits hraw hdecode hlatency =>
    simp only [hlow, onThrow, bind, Except.bind, if_neg (not_not.mpr hbits), hraw, hdecode,
      hlatency]
    exact faultedFor_fault _ _

/-- An error in its own part of a tick faults the core. -/
theorem Errs.faultedFor {reason : String} (herrs : Errs bus k port c.countTick s reason)
    (h : tickCore bus k port memoryPort c s = .ok (c', s')) : FaultedFor reason c' := by
  cases herrs with
  | fetch hstate hfetch =>
    rw [tickCore_of_fetchDecode (c := c) hstate] at h
    obtain ⟨rfl, -⟩ := Prod.mk.inj (Except.ok.inj h)
    exact Unfetched.faultedFor (c := { c.countTick with
      stats := { c.countTick.stats with
        fetchDecodeCycles := c.countTick.stats.fetchDecodeCycles + 1 } }) hfetch
  | execute hstate hfence hcycles hexecute =>
    rw [tickCore_of_executeWait (c := c) hstate] at h
    obtain ⟨rfl, -⟩ := Prod.mk.inj (Except.ok.inj h)
    rw [advanceExecute, if_neg hfence]
    dsimp only
    rw [if_pos hcycles, executeReadyInstruction, hexecute]
    exact faultedFor_fault _ _
  | window hstate hissue hwindow haccess =>
    rw [tickCore_of_memoryIssue (c := c) hstate, issueMemoryRequest,
      if_neg (by rw [hissue]; decide), if_pos hwindow, haccess] at h
    obtain ⟨rfl, -⟩ := Prod.mk.inj (Except.ok.inj h)
    exact faultedFor_fault _ _
  | response hstate hready hrecv htake =>
    rw [tickCore_of_memoryWait (c := c) hstate, receiveMemoryResponse, hready] at h
    dsimp only [bind, Except.bind] at h
    rw [if_neg (by decide), hrecv] at h
    obtain ⟨rfl, -⟩ := Prod.mk.inj (Except.ok.inj h)
    rw [htake]
    exact faultedFor_fault _ _

theorem onThrow_ensures {α : Type} {x : Except String α} {f : α → Attempt}
    {P : Rv64AtomicCore → Prop}
    {E : String × Rv64AtomicCore → Prop} (hx : ∀ reason, x = .error reason → E (reason, c))
    (hf : ∀ a, x = .ok a → Ensures P E (f a)) : Ensures P E (onThrow c x >>= f) := by
  cases x with
  | ok a => exact hf a rfl
  | error reason => exact hx reason rfl

/-- What goes wrong in the `try` block of `fetch_decode`. -/
theorem fetch_unfetched (k : Rv64Hart) (c : Rv64AtomicCore) :
    Ensures (fun c' ↦ c'.state = .executeWait ∨ Unfetched k c.pc c.vectorContext.vl c'.stopReason)
      (fun e ↦ Unfetched k c.pc c.vectorContext.vl e.1) (fetch k c) := by
  refine onThrow_ensures (fun _ hlow ↦ .outside hlow) fun low hlow ↦ ?_
  refine Ensures.ite (fun hbits ↦ .inr (.compressed hlow hbits)) fun hbits ↦ ?_
  rw [not_not] at hbits
  refine onThrow_ensures (fun _ hraw ↦ .cutOff hlow hbits hraw) fun raw hraw ↦ ?_
  cases hdecode : k.arch.decode raw with
  | none => exact .inr (.undecodable hlow hbits hraw hdecode)
  | some decoded =>
    dsimp only
    cases hlatency : instructionLatency k.arch decoded k.latency c.vectorContext.vl.toNat with
    | error reason => exact .latency hlow hbits hraw hdecode hlatency
    | ok cycles => exact .inl rfl

theorem decodes_of_takeResponse {bytes : Bytes} (h : takeResponse k c bytes = .ok c') :
    ∃ response, decodeResponse bytes = .ok response := by
  rw [takeResponse] at h
  cases hdecode : decodeResponse bytes with
  | ok response => exact ⟨response, rfl⟩
  | error reason =>
    rw [hdecode] at h
    cases h

/-! ### A core that faults in its own part of a tick has met an error

One lemma for each state in which the core does something.
-/

theorem errs_of_fetchDecode (hstate : c.state = .fetchDecode)
    (hfaulted : (fetchDecode k c.countTick).state = .faulted) :
    Errs bus k port c.countTick s (fetchDecode k c.countTick).stopReason := by
  rw [fetchDecode] at hfaulted ⊢
  set c₁ : Rv64AtomicCore := { c.countTick with stats := { c.countTick.stats with
    fetchDecodeCycles := c.countTick.stats.fetchDecodeCycles + 1 } } with hc₁
  have hspec := fetch_unfetched k c₁
  have hunfetched : Unfetched k c.pc c.vectorContext.vl (recover (fetch k c₁)).stopReason := by
    cases hfetch : fetch k c₁ with
    | error e => exact hspec.of_eq_error hfetch
    | ok c' =>
      rw [hfetch] at hfaulted
      rcases hspec.of_eq_ok hfetch with hwait | herrs
      · cases hwait.symm.trans hfaulted
      · exact herrs
  exact .fetch hstate hunfetched

theorem errs_of_executeWait (hok : c.view.Ok k.hartId) (hstate : c.state = .executeWait)
    (hfaulted : (advanceExecute k c.countTick).state = .faulted) :
    Errs bus k port c.countTick s (advanceExecute k c.countTick).stopReason := by
  have hrunning : c.state ≠ .faulted := fun h ↦ Rv64CoreState.noConfusion (hstate.symm.trans h)
  rw [advanceExecute] at hfaulted ⊢
  by_cases hfence :
      (isFence c.countTick.instruction.decoded.controlType && c.countTick.mmio.busy) = true
  · rw [if_pos hfence] at hfaulted
    exact absurd hfaulted hrunning
  · rw [if_neg hfence] at hfaulted ⊢
    have hview : c.countTick.countExecuteWait.view = c.view := view_countExecuteWait c.countTick
    have hstate₁ : c.countTick.countExecuteWait.state = .executeWait :=
      (congrArg HartView.state hview).trans hstate
    dsimp only at hfaulted ⊢
    by_cases hcycles : c.countTick.countExecuteWait.cyclesLeft = 0
    · rw [if_pos hcycles] at hfaulted ⊢
      have hspec := execute_spec (k := k) (c := c.countTick.countExecuteWait)
        (hview.symm ▸ hok) hstate₁
      rw [executeReadyInstruction] at hfaulted ⊢
      cases hexecute : execute k c.countTick.countExecuteWait with
      | error e => exact .execute hstate hfence hcycles hexecute
      | ok c' =>
        rw [hexecute] at hfaulted
        exact absurd hfaulted (hspec.of_eq_ok hexecute).works.state.2
    · rw [if_neg hcycles, hstate₁] at hfaulted
      cases hfaulted

theorem errs_of_memoryIssue (hok : c.view.Ok k.hartId) (hstate : c.state = .memoryIssue)
    (h : issueMemoryRequest bus k port memoryPort c.countTick s = .ok (c', s'))
    (hfaulted : c'.state = .faulted) : Errs bus k port c.countTick s c'.stopReason := by
  have hrunning : c.state ≠ .faulted := fun h ↦ Rv64CoreState.noConfusion (hstate.symm.trans h)
  rcases issueMemoryRequest_cases h with ⟨-, hsame | ⟨hissue, hwindow, rfl⟩⟩ |
    ⟨bytes, accepted, -, -, -, -, hview⟩
  · exact absurd ((congrArg HartView.state hsame).symm.trans hfaulted) hrunning
  · have hok₁ : c.countTick.view.Ok k.hartId := hok
    have hspec := accessWindow_spec hok₁ hstate
    cases haccess : accessWindow k c.countTick with
    | error e => exact .window hstate hissue hwindow haccess
    | ok c' =>
      rw [haccess] at hfaulted
      exact absurd hfaulted (hspec.of_eq_ok haccess).works.state.2
  · cases accepted with
    | false => exact absurd ((congrArg HartView.state hview).symm.trans hfaulted) hrunning
    | true => cases (congrArg HartView.state hview).symm.trans hfaulted

theorem errs_of_memoryWait (hok : c.view.Ok k.hartId) (hstate : c.state = .memoryWait)
    (h : receiveMemoryResponse bus k port c.countTick s = .ok (c', s'))
    (hfaulted : c'.state = .faulted) : Errs bus k port c.countTick s c'.stopReason := by
  have hrunning : c.state ≠ .faulted := fun h ↦ Rv64CoreState.noConfusion (hstate.symm.trans h)
  rw [receiveMemoryResponse] at h
  obtain ⟨ready, hready, h⟩ := Except.bind_eq_ok_iff.mp h
  cases ready with
  | false =>
    obtain ⟨rfl, rfl⟩ := Prod.mk.inj (Except.ok.inj h)
    exact absurd hfaulted hrunning
  | true =>
    obtain ⟨⟨data, s₁⟩, hrecv, h⟩ := Except.bind_eq_ok_iff.mp h
    cases data with
    | none =>
      obtain ⟨rfl, rfl⟩ := Prod.mk.inj (Except.ok.inj h)
      exact absurd hfaulted hrunning
    | some bytes =>
      obtain ⟨rfl, rfl⟩ := Prod.mk.inj (Except.ok.inj h)
      cases htake : takeResponse k c.countTick bytes with
      | error e => exact .response hstate hready hrecv htake
      | ok c' =>
        rw [htake] at hfaulted
        obtain ⟨response, hdecode⟩ := decodes_of_takeResponse htake
        have hok₁ : c.countTick.view.Ok k.hartId := hok
        exact absurd hfaulted ((takeResponse_spec hok₁ hstate hdecode).of_eq_ok htake).state.2

theorem errs_of_faulted (hok : c.view.Ok k.hartId) (hstate : c.state ≠ .faulted)
    (h : tickCore bus k port memoryPort c s = .ok (c', s')) (hfaulted : c'.state = .faulted) :
    Errs bus k port c.countTick s c'.stopReason := by
  cases hc : c.state with
  | fetchDecode =>
    rw [tickCore_of_fetchDecode hc] at h
    obtain ⟨rfl, -⟩ := Prod.mk.inj (Except.ok.inj h)
    exact errs_of_fetchDecode hc hfaulted
  | executeWait =>
    rw [tickCore_of_executeWait hc] at h
    obtain ⟨rfl, -⟩ := Prod.mk.inj (Except.ok.inj h)
    exact errs_of_executeWait hok hc hfaulted
  | memoryIssue =>
    rw [tickCore_of_memoryIssue hc] at h
    exact errs_of_memoryIssue hok hc h hfaulted
  | memoryWait =>
    rw [tickCore_of_memoryWait hc] at h
    exact errs_of_memoryWait hok hc h hfaulted
  | halted =>
    rw [tickCore_of_finished (by simp [finished, halted, hc])] at h
    obtain ⟨rfl, -⟩ := Prod.mk.inj (Except.ok.inj h)
    exact absurd hfaulted hstate
  | faulted => exact absurd hc hstate

/-- An error in its tick faults the hart. -/
theorem Meets.faultedFor {reason : String} (hmeets : Meets bus k port memoryPort c s reason)
    (h : tick bus k port memoryPort c s = .ok (c', s')) : FaultedFor reason c' := by
  cases hmeets with
  | adapter htry =>
    rw [tick, tickMmio, htry] at h
    dsimp only at h
    rw [tickCore_of_finished (by simp [finished, halted, faulted, fault])] at h
    obtain ⟨rfl, -⟩ := Prod.mk.inj (Except.ok.inj h)
    exact faultedFor_fault _ _
  | core htry herrs =>
    rw [tick, tickMmio, htry] at h
    exact herrs.faultedFor h

/-- A hart that faults in its tick has met an error. -/
theorem meets_of_faulted (hok : (tickMmio bus k port memoryPort c s).1.view.Ok k.hartId)
    (hstate : c.state ≠ .faulted) (h : tick bus k port memoryPort c s = .ok (c', s'))
    (hfaulted : c'.state = .faulted) : Meets bus k port memoryPort c s c'.stopReason := by
  rcases htry : c.mmio.tryTick bus k.hartId port memoryPort s with ⟨_ | reason, mmio, s₁⟩
  · rw [tickMmio, htry] at hok
    rw [tick, tickMmio, htry] at h
    exact .core htry (errs_of_faulted (c := c.advanceMmio mmio) hok hstate h hfaulted)
  · rw [tick, tickMmio, htry] at h
    dsimp only at h
    rw [tickCore_of_finished (by simp [finished, halted, faulted, fault])] at h
    obtain ⟨rfl, -⟩ := Prod.mk.inj (Except.ok.inj h)
    exact .adapter htry

end Errors

end Rv64AtomicCore

/-! ## The invariant of a run -/

namespace Rv64ManycoreSystem

variable (m : Rv64ManycoreSystem)

/-- The state within a tick after the turns of the controller and of the first `i` cores. -/
def during (s : Rv64SystemState) (i : ℕ) : Except String Rv64SystemState := do
  (List.range i).foldlM m.tickCore (← m.tickController s)

variable {m} {s s' : Rv64SystemState} {least i : ℕ}

theorem during_succ (s : Rv64SystemState) (i : ℕ) :
    m.during s (i + 1) = m.during s i >>= fun s' ↦ m.tickCore s' i := by
  cases h : m.tickController s with
  | error e =>
    rw [during, during, h]
    rfl
  | ok s₀ =>
    rw [during, during, h]
    change (List.range (i + 1)).foldlM m.tickCore s₀ =
      (List.range i).foldlM m.tickCore s₀ >>= fun s' ↦ m.tickCore s' i
    rw [List.range_succ, List.foldlM_append]
    simp only [List.foldlM_cons, List.foldlM_nil, bind_pure]

/-- What holds between any two turns. -/
def Sound (m : Rv64ManycoreSystem) (s : Rv64SystemState) : Prop :=
  ∃ t, Carried (Holds m.coreCount False) m.coreCount t s.bus ∧
    s.memoryController.Ok m.coreCount ∧ s.memoryController.Small 15 t ∧
    ∀ i < m.coreCount, (s.cores i).view.Ok (m.hart i).hartId

theorem Built.sound (h : m.Built s) : m.Sound s := by
  refine ⟨{}, ⟨[], h.holds False, .nil _⟩, ?_, ?_, fun i hi ↦ ?_⟩
  · rw [h.controller]
    exact .init _
  · rw [h.controller]
    exact .init _
  · exact Rv64AtomicCore.construct_ok (h.cores i hi)

/-- The turn of the controller returns. -/
theorem Sound.tickController (h : m.Sound s) :
    ∃ s', m.tickController s = .ok s' ∧ m.Sound s' := by
  obtain ⟨t, hcarried, hok, hsmall, hcores⟩ := h
  have hfits : ∀ r ∈ s.memoryController.response, (encodeResponse r).length ≤ 64 := by
    intro r hr
    have hlen := hsmall.answers r (List.mem_append_right _ (Option.mem_toList.mpr hr))
    rw [length_encodeResponse]
    omega
  obtain ⟨⟨c', x'⟩, htick⟩ := MemoryController.exists_tick_eq_ok (reliable_still _ False)
    (returns_still _) (controllerConfig m.config.toManycoreConfig) hok hcarried hfits
  obtain ⟨t', done, hcarried', hok', hserved⟩ :=
    MemoryController.tick_spec (reliable_still _ False) _ hok hcarried htick trivial
  exact ⟨{ s with memoryController := c', bus := x' }, Except.bind_eq_ok_iff.mpr ⟨_, htick, rfl⟩,
    t', hcarried', hok', hsmall.serve hserved, hcores⟩

/-- The turn of a core returns. -/
theorem Sound.tickCore (h : m.Sound s) (hi : i < m.coreCount) :
    ∃ s', m.tickCore s i = .ok s' ∧ m.Sound s' := by
  obtain ⟨t, hcarried, hok, hsmall, hcores⟩ := h
  obtain ⟨c', x', t', htick, hcarried', hturn, hok'⟩ :=
    @Rv64AtomicCore.tick_keeps _ still _ _ _ (reliable_still _ False) (returns_still _).harts
      _ hi _ _ _ _
      (m.toNat_hartId hi) (hcores i hi) hcarried
  refine ⟨{ s with cores := Function.update s.cores i c', bus := x' },
    Except.bind_eq_ok_iff.mpr ⟨_, htick, rfl⟩, t', hcarried', hok, hsmall.turn hturn,
    fun j hj ↦ ?_⟩
  change (Function.update s.cores i c' j).view.Ok (m.hart j).hartId
  by_cases hji : j = i
  · subst hji
    rwa [Function.update_self]
  · rw [Function.update_of_ne hji]
    exact hcores j hj

/-- All turns of a tick return. -/
theorem Sound.during (h : m.Sound s) (hi : i ≤ m.coreCount) :
    ∃ s', m.during s i = .ok s' ∧ m.Sound s' := by
  induction i with
  | zero =>
    obtain ⟨s₀, hs₀, hsound⟩ := h.tickController
    exact ⟨s₀, Except.bind_eq_ok_iff.mpr ⟨s₀, hs₀, rfl⟩, hsound⟩
  | succ i ih =>
    obtain ⟨s₁, hs₁, hsound₁⟩ := ih (Nat.le_of_succ_le hi)
    obtain ⟨s₂, hs₂, hsound₂⟩ := hsound₁.tickCore hi
    exact ⟨s₂, (during_succ s i).trans (Except.bind_eq_ok_iff.mpr ⟨s₁, hs₁, hs₂⟩), hsound₂⟩

/-- The bus moves on, unless it has accepted too many messages. -/
theorem Sound.advanceBus (h : m.Sound s) (hmessages : s.bus.messages < 2 ^ 32) :
    ∃ s', Rv64ManycoreSystem.advanceBus s = .ok s' ∧ m.Sound s' := by
  obtain ⟨t, ⟨letters, hholds, hspells⟩, hok, hsmall, hcores⟩ := h
  obtain ⟨x', hx', hholds', -⟩ := hholds.applyNextTick fun _ ↦ hmessages
  exact ⟨{ s with bus := x', currentTick := s.currentTick + 1 },
    Except.bind_eq_ok_iff.mpr ⟨x', hx', rfl⟩,
    t, ⟨letters, hholds', hspells⟩, hok, hsmall, hcores⟩

/-- A tick returns, unless the bus has then accepted too many messages. -/
theorem Sound.tick (h : m.Sound s) :
    (∃ s', m.turns s = .ok s' ∧ 2 ^ 32 ≤ s'.bus.messages) ∨
      ∃ s', m.tick s = .ok s' ∧ m.Sound s' := by
  obtain ⟨s₁, hs₁, hsound₁⟩ := h.during le_rfl
  rcases Nat.lt_or_ge s₁.bus.messages (2 ^ 32) with hlt | hge
  · obtain ⟨s₂, hs₂, hsound₂⟩ := hsound₁.advanceBus hlt
    exact .inr ⟨s₂, Except.bind_eq_ok_iff.mpr ⟨s₁, hs₁, hs₂⟩, hsound₂⟩
  · exact .inl ⟨s₁, hs₁, hge⟩

/-! ## Safety

What an observer sees of a tick in which nothing goes wrong.
-/

/-- What a port of the bus returns decodes. -/
def Decodes (m : Rv64ManycoreSystem) (x : Interconnect) : Prop :=
  (∀ bytes x', interface.recv x m.memoryPort requestChannel = .ok (some bytes, x') →
    ∃ request, decodeRequest bytes = .ok request) ∧
  ∀ i < m.coreCount, ∀ bytes x', interface.recv x i responseChannel = .ok (some bytes, x') →
    ∃ response, decodeResponse bytes = .ok response

/-- Nothing goes wrong in a tick, but for what goes wrong within a hart. -/
structure SafeTick (m : Rv64ManycoreSystem) (s : Rv64SystemState) : Prop where
  returns : (∃ s', m.turns s = .ok s' ∧ 2 ^ 32 ≤ s'.bus.messages) ∨ ∃ s', m.tick s = .ok s'
  /-- The controller receives after it has sent. -/
  requests : m.Decodes s.bus ∧ ∀ controller x, s.memoryController.sendResponse
    interface.toBusInterfaceV2 m.memoryPort s.bus = .ok (controller, x) → m.Decodes x
  /-- The turn of hart `i` begins in `s₁` and ends in `s₂`. -/
  hart : ∀ i < m.coreCount, ∃ s₁ s₂, m.during s i = .ok s₁ ∧ m.tickCore s₁ i = .ok s₂ ∧
    m.Decodes s₁.bus ∧
    m.Decodes ((s₁.cores i).tickMmio interface (m.hart i) i m.memoryPort s₁.bus).2 ∧
    (∀ reason, (s₁.cores i).Meets interface (m.hart i) i m.memoryPort s₁.bus reason →
      (s₂.cores i).FaultedFor reason) ∧
    ((s₁.cores i).state ≠ .faulted → (s₂.cores i).state = .faulted →
      (s₁.cores i).Meets interface (m.hart i) i m.memoryPort s₁.bus (s₂.cores i).stopReason) ∧
    (∀ j ≠ i, s₂.cores j = s₁.cores j) ∧ s₂.memoryController = s₁.memoryController

theorem Carried.decodes {t : Traffic} {x : Interconnect}
    (h : Carried (Holds m.coreCount False) m.coreCount t x) : m.Decodes x := by
  refine ⟨fun bytes x' hrecv ↦ ?_, fun i _ bytes x' hrecv ↦ ?_⟩
  · obtain ⟨_, q, _, -, rfl, hvalid, -, -, -⟩ :=
      h.recvRequest (reliable_still _ False) hrecv trivial
    exact ⟨q, decodeRequest_wire hvalid⟩
  · obtain ⟨_, r, _, -, rfl, hshort, -, -, -⟩ :=
      h.recvResponse (reliable_still _ False) hrecv trivial
    exact ⟨r, decodeResponse_encodeResponse hshort⟩

theorem Sound.decodes (h : m.Sound s) : m.Decodes s.bus := by
  obtain ⟨t, hcarried, -, -, -⟩ := h
  exact Carried.decodes hcarried

theorem Sound.safeTick (h : m.Sound s) : m.SafeTick s where
  returns := h.tick.imp_right fun ⟨s', hs', _⟩ ↦ ⟨s', hs'⟩
  requests := by
    refine ⟨h.decodes, fun c' x' hsend ↦ ?_⟩
    obtain ⟨t, hcarried, hok, -, -⟩ := h
    obtain ⟨t', hcarried', -, -⟩ :=
      MemoryController.sendResponse_spec (reliable_still _ False) hok hcarried hsend trivial
    exact Carried.decodes hcarried'
  hart := by
    intro i hi
    obtain ⟨s₁, hs₁, hsound₁⟩ := h.during hi.le
    obtain ⟨s₂, hs₂, -⟩ := hsound₁.tickCore hi
    obtain ⟨t, hcarried, -, -, hcores⟩ := id hsound₁
    obtain ⟨t', hcarried', -, hok'⟩ := @Rv64AtomicCore.tickMmio_keeps _ still _ _ _
      (reliable_still _ False) (returns_still _).harts _ hi _ _ _ _ (m.toNat_hartId hi)
      (hcores i hi)
      hcarried
    refine ⟨s₁, s₂, hs₁, hs₂, hsound₁.decodes, Carried.decodes hcarried', ?_⟩
    obtain ⟨⟨c', x'⟩, htick, hs₂⟩ := Except.bind_eq_ok_iff.mp hs₂
    obtain rfl := Except.ok.inj hs₂
    change (∀ reason, _ → (Function.update s₁.cores i c' i).FaultedFor reason) ∧
      (_ → (Function.update s₁.cores i c' i).state = .faulted →
        (s₁.cores i).Meets interface (m.hart i) i m.memoryPort s₁.bus
          (Function.update s₁.cores i c' i).stopReason) ∧ _
    rw [Function.update_self]
    exact ⟨fun reason hmeets ↦ hmeets.faultedFor htick,
      fun hstate hfaulted ↦ Rv64AtomicCore.meets_of_faulted hok' hstate htick hfaulted,
      fun j hj ↦ Function.update_of_ne hj _ _, rfl⟩

/-- Every tick is safe until the bus has accepted `2 ^ 32` messages. -/
theorem ticks_safe {arch : ArchSem} {ord : HashOrder} {program : ProgramImage}
    {config : Rv64ManycoreConfig} {latency : InstructionLatencyConfig} {s₀ : Rv64SystemState}
    (h : construct arch ord program config latency = .ok (m, s₀)) (k : ℕ) :
    (∃ j < k, ∃ s s', m.ticks j s₀ = .ok s ∧ m.turns s = .ok s' ∧ 2 ^ 32 ≤ s'.bus.messages) ∨
      ∃ s, m.ticks k s₀ = .ok s ∧ m.SafeTick s := by
  suffices hsound : (∃ j < k, ∃ s s', m.ticks j s₀ = .ok s ∧ m.turns s = .ok s' ∧
      2 ^ 32 ≤ s'.bus.messages) ∨ ∃ s, m.ticks k s₀ = .ok s ∧ m.Sound s from
    hsound.imp_right fun ⟨s, hs, hsound⟩ ↦ ⟨s, hs, hsound.safeTick⟩
  induction k with
  | zero => exact .inr ⟨s₀, rfl, (construct_eq_ok h).2.sound⟩
  | succ k ih =>
    rcases ih with ⟨j, hj, hmany⟩ | ⟨s, hs, hsound⟩
    · exact .inl ⟨j, Nat.lt_succ_of_lt hj, hmany⟩
    · rcases hsound.tick with ⟨s', hs', hmany⟩ | ⟨s', hs', hsound'⟩
      · exact .inl ⟨k, Nat.lt_succ_self k, s, s', hs, hs', hmany⟩
      · exact .inr ⟨s', Except.bind_eq_ok_iff.mpr ⟨s, hs, hs'⟩, hsound'⟩

/-! ## A hart without an instruction -/

/-- Hart 0 loads a byte. Hart 1 reads its number twice and comes to a word that does not decode. -/
def badProgram : ProgramImage :=
  .fromWords [0xf1402573, 0x00051463, 0x00000583, 0xf1402573, 0xf1402573, 0]

/-- Two harts on the shared bus run this program for `k` ticks. -/
def badTicks (k : ℕ) :
    Except String (Rv64ManycoreSystem × Rv64SystemState × Rv64SystemState) :=
  firstTicks smallArch .insertion badProgram
    { coreCount := 2, sharedBus := true, coreCount_lt := smallCount_lt } {} k

/-- Hart 1 faults while the request of hart 0 is on its way. -/
theorem ticks_safe_small : ∃ m s₀ s s', badTicks 8 = .ok (m, s₀, s) ∧ m.tick s = .ok s' ∧
    s.bus.messages = 1 ∧ (s.cores 1).state = .fetchDecode ∧ (s'.cores 1).state = .faulted ∧
    m.SafeTick s := by
  have hfew : ∀ j < 8, (badTicks j >>= fun r ↦ r.1.turns r.2.2).toOption.all
      (fun s' ↦ decide (s'.bus.messages < 2 ^ 32)) = true := by decide +kernel
  have hends : (badTicks 8 >>= fun r ↦ (r.1.tick r.2.2).map fun s' ↦
      (r.2.2.bus.messages, (r.2.2.cores 1).state, (s'.cores 1).state)) =
        .ok (1, .fetchDecode, .faulted) := rfl
  obtain ⟨⟨m, s₀, s⟩, hbad, hends⟩ := Except.bind_eq_ok_iff.mp hends
  obtain ⟨h, hs⟩ := firstTicks_eq_ok_iff.mp hbad
  obtain ⟨s', htick, hend⟩ := Except.map_eq_ok_iff.mp hends
  obtain ⟨hmessages, hstates⟩ := Prod.mk.inj hend
  obtain ⟨hbefore, hafter⟩ := Prod.mk.inj hstates
  refine ⟨m, s₀, s, s', hbad, htick, hmessages, hbefore, hafter, ?_⟩
  rcases ticks_safe h 8 with ⟨j, hj, s₂, s₃, hs₂, hs₃, hmany⟩ | ⟨s₂, hs₂, hsafe⟩
  · -- eight ticks do not make so many messages
    have hj' : badTicks j = .ok (m, s₀, s₂) := firstTicks_eq_ok_iff.mpr ⟨h, hs₂⟩
    have hlt := hfew j hj
    rw [hj'] at hlt
    change (m.turns s₂).toOption.all _ = true at hlt
    rw [hs₃] at hlt
    exact absurd hmany (not_le.mpr (of_decide_eq_true hlt))
  · obtain rfl := Except.ok.inj (hs.symm.trans hs₂)
    exact hsafe

end Rv64ManycoreSystem

end Manycore
