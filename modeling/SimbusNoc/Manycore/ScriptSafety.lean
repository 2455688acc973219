import SimbusNoc.Manycore.Consistency
import SimbusNoc.Manycore.ControllerTurn
import SimbusNoc.Noc.Runs

/-!
# When no tick of a scripted system throws

The factories accept accesses of up to 65535 bytes, and the network of the system has limits of its
own: a message size when its receive slots are bounded, and a number of packets. A tick throws when
an encoded request or response is above them. With programs whose accesses all fit, and as long as
the network never moves on with two messages of several packets for one node under one transmission
id, every tick returns.

## Where an exception could come from

The encoders take what the factories have built. `send` throws for messages that are too large, and
`recv` when two messages have been mixed up. A decoder throws for bytes that are no message. And a
core throws for a response that is not the one it waits for. The account of the core excludes the
last two, the hypotheses of the theorem the first two. The condition on ids is about the states
from which the network moves on, and the first `2 ^ 32` messages meet it in any case.
-/

namespace Simbus.Bus

/-- No two messages of several packets for one node are in the network under one transmission id. -/
def IdsApart (s : BusState) : Prop :=
  ∀ p q, InNetwork s p → InNetwork s q → p.xmtid = q.xmtid → p.tgt = q.tgt → 2 ≤ p.pacCnt →
    2 ≤ q.pacCnt → p.serial = q.serial

variable {b : Bus} {g : Ledger} {s : BusState}

/-- Every live message has a packet in the network, so the live messages are as distinct as the
packets are apart. -/
theorem Inv.distinct (hb : b.WellFormed) (h : b.Inv False g s) (hapart : IdsApart s) :
    g.Distinct b := by
  intro m hm m' hm' hid hhome hcnt hcnt'
  obtain ⟨p, hp, hnet⟩ := h.inNetwork_of_live hb hm
  obtain ⟨q, hq, hnet'⟩ := h.inNetwork_of_live hb hm'
  obtain ⟨i, -, rfl⟩ := mem_packetsOf.mp hp
  obtain ⟨j, -, rfl⟩ := mem_packetsOf.mp hq
  have hserial := hapart _ _ hnet hnet' hid hhome
    (by rwa [(h.carries.sized m hm).pack_pacCnt]) (by rwa [(h.carries.sized m' hm').pack_pacCnt])
  exact h.carries.serial_inj hm hm' hserial

/-- The first `2 ^ 32` messages have ids of their own. -/
theorem Inv.idsApart (h : b.Inv False g s) (hlt : s.accepted < 2 ^ 32) : IdsApart s := by
  have hserial : ∀ m ∈ g.live, m.xmtid = m.serial := fun m hm ↦
    Nat.mod_eq_of_lt ((h.serials m hm).trans hlt)
  intro p q hp hq hid _ _ _
  obtain ⟨m, hm, hpm⟩ := h.live_of_inNetwork hp
  obtain ⟨m', hm', hqm⟩ := h.live_of_inNetwork hq
  obtain ⟨i, -, rfl⟩ := mem_packetsOf.mp hpm
  obtain ⟨j, -, rfl⟩ := mem_packetsOf.mp hqm
  exact (hserial m hm).symm.trans (hid.trans (hserial m' hm'))

end Simbus.Bus

namespace Manycore

open Simbus Simbus.Bus MemoryController

/-- The encoded request of a memory operation passes the checks of `send`, and so does the response
with the data of a read. -/
def ScriptOp.Fits (b : Bus) (op : ScriptOp) : Prop :=
  b.Fits (21 + op.data.length) requestChannel ∧
    (op.kind = .read → b.Fits (13 + op.size.toNat) responseChannel)

/-! ## The turn of a core -/

namespace AtomicCore

section Turn

variable {σ : Type} {bus : BusInterfaceV2 σ} {n p : ℕ} {Fits : ℕ → Prop} {Fifo : Prop}
  {Holds : List Letter → σ → Prop} (hbus : Reliable bus (Allowed n) (fun _ ↦ True) Fifo Holds)
  (hreturns : HartsReturn bus n Fits fun s ↦ ∃ letters, Holds letters s)
  {i : UInt32} {ops : List ScriptOp} {log : List (MemoryRequest × MemoryResponse)}
  {front : List MemoryRequest} {later : List MemoryResponse} {c : AtomicCore} {t : Traffic} {s : σ}
  (hlog : ∀ x ∈ log, Answers x.1 x.2)

include hlog in
/-- A response for a core is memory's answer to the request that the core waits for. -/
theorem OkIn.of_response (h : OkIn i ops log front later c t) {r : MemoryResponse}
    (hr : r ∈ t.responses ++ later) (hhart : r.hartId = i) :
    ∃ op ∈ ops, op.isMemory = true ∧ Answers (requestOf i c.waitingTransactionId op) r := by
  obtain ⟨finished, hok⟩ := h
  have hmine : r ∈ (t.responses ++ later).filter (toHart i) :=
    List.mem_filter.mpr ⟨hr, decide_eq_true hhart⟩
  have hops := hok.ops
  have hphase := hok.phase
  generalize (t.responses ++ later).filter (toHart i) = answers at hmine hphase
  generalize (front ++ t.requests).filter (fromHart i) = asked at hphase
  cases hphase with
  | idle => cases hmine
  | busy => cases hmine
  | asking => cases hmine
  | @answered _ op r' _ hcurrent hop _ =>
    obtain rfl := List.mem_singleton.mp hmine
    refine ⟨op, ?_, hop, hlog _ (List.mem_append_right _ List.mem_cons_self)⟩
    rw [hops, hcurrent]
    simp

include hbus hreturns hlog

theorem OkIn.exists_receiveResponse_eq_ok (hp : i.toNat = p) (hpn : p < n)
    (hbuilt : ∀ op ∈ ops, op.Built) (h : OkIn i ops log front later c t)
    (hcarried : Carried Holds n t s) : ∃ result, receiveResponse bus i p c s = .ok result := by
  obtain ⟨ready, hready⟩ := hreturns.canRecv hcarried.good hpn
  obtain ⟨data, s', hrecv⟩ := hreturns.recv hcarried.good hpn
  rw [receiveResponse, hready]
  dsimp only [bind, Except.bind]
  cases ready with
  | false => exact ⟨_, rfl⟩
  | true =>
    rw [if_neg (by decide), hrecv]
    cases data with
    | none => exact ⟨_, rfl⟩
    | some bytes =>
      obtain ⟨before, r, after, hsplit, rfl, hshort, hhart, -, -⟩ :=
        hcarried.recvResponse hbus hrecv trivial
      have hmine : r.hartId = i := UInt32.toNat_inj.mp (hhart.trans hp.symm)
      obtain ⟨op, hop, hmem, hanswers⟩ := h.of_response hlog (r := r) (by simp [hsplit]) hmine
      have hstatus := hanswers.status ((hbuilt op hop).valid hmem i c.waitingTransactionId)
      have hids : (r.hartId == i && r.transactionId == c.waitingTransactionId) = true := by
        rw [hanswers.hartId, hanswers.transactionId]
        simp [requestOf]
      have hok : (r.status == MemoryStatus.ok) = true := beq_iff_eq.mpr hstatus
      dsimp only
      rw [decodeResponse_encodeResponse hshort]
      dsimp only
      rw [hids, hok, require_true, require_true]
      exact ⟨_, rfl⟩

omit hbus hlog in
theorem OkIn.exists_issueMemoryRequest_eq_ok (hpn : p < n) (hbuilt : ∀ op ∈ ops, op.Built)
    (hfits : ∀ op ∈ memoryOps ops, Fits (21 + op.data.length)) (h : OkIn i ops log front later c t)
    (hstate : c.state = .memoryIssue) (hcarried : Carried Holds n t s) :
    ∃ result, issueMemoryRequest bus i p n c s = .ok result := by
  obtain ⟨finished, hok⟩ := h
  obtain ⟨-, -, -, op, hcurrent, hop⟩ := hok.phase.of_memoryIssue hstate
  have hmem : op ∈ ops := by
    rw [hok.ops, hcurrent]
    simp
  have hvalid := (hbuilt op hmem).valid hop i c.nextTransactionId
  have hsize : Fits (requestOf i c.nextTransactionId op).wire.length := by
    rw [length_wire]
    exact hfits op (List.mem_filter.mpr ⟨hmem, hop⟩)
  obtain ⟨room, hroom⟩ := hreturns.canSend hcarried.good hpn
  obtain ⟨accepted, s', hsend⟩ := hreturns.send hcarried.good hpn hsize
  rw [issueMemoryRequest, hroom]
  dsimp only [bind, Except.bind]
  cases room with
  | false => exact ⟨_, rfl⟩
  | true =>
    rw [if_neg (by decide), hcurrent, Option.getD_some, encodeRequest_of_valid hvalid]
    dsimp only
    rw [hsend]
    cases accepted with
    | false => exact ⟨_, rfl⟩
    | true => exact ⟨_, rfl⟩

theorem OkIn.exists_tick_eq_ok (hp : i.toNat = p) (hpn : p < n) (hbuilt : ∀ op ∈ ops, op.Built)
    (hfits : ∀ op ∈ memoryOps ops, Fits (21 + op.data.length)) (h : OkIn i ops log front later c t)
    (hcarried : Carried Holds n t s) : ∃ result, AtomicCore.tick bus i p n c s = .ok result := by
  by_cases hhalted : c.state = .halted
  · exact ⟨_, tick_of_halted hhalted⟩
  obtain ⟨finished, hok⟩ := h
  by_cases hwait : c.state = .memoryWait
  · obtain ⟨result, hresult⟩ := OkIn.exists_receiveResponse_eq_ok hbus hreturns hlog hp hpn hbuilt
      ⟨finished, hok.countTick⟩ hcarried
    rw [tick_of_memoryWait hwait, hresult]
    exact ⟨_, rfl⟩
  · obtain ⟨finished', hok'⟩ := hok.countTick.work
    rw [tick_of_working hhalted hwait]
    by_cases hissue : c.countTick.work.state = .memoryIssue
    · rw [if_pos hissue]
      exact OkIn.exists_issueMemoryRequest_eq_ok hreturns hpn hbuilt hfits ⟨finished', hok'⟩ hissue
        hcarried
    · exact ⟨_, if_neg hissue⟩

end Turn

end AtomicCore

/-! ## The sizes

A message passes the checks of `send` when the accesses of the scripts fit into it. The two
channels have one width, so a response to an access that fits is no longer than they allow.
-/

namespace Layout

variable {ord : HashOrder} {config : ManycoreConfig} {m : ManycoreSystem}

theorem width (h : Layout ord config m) {c : ChannelT} (hc : c ≤ 1) :
    m.noc.width c = config.linkWidthBytes := by
  obtain ⟨route, -, hnoc⟩ := h.noc
  obtain ⟨-, hwidths, -⟩ := construct_eq_ok hnoc
  rw [Bus.width, hwidths]
  rcases Nat.le_one_iff_eq_zero_or_eq_one.mp hc with rfl | rfl
  · rfl
  · rfl

theorem fits_congr (h : Layout ord config m) {c c' : ChannelT} (hc : c ≤ 1) (hc' : c' ≤ 1)
    {size : ℕ} (hfits : m.noc.Fits size c) : m.noc.Fits size c' := by
  refine ⟨hfits.1, ?_⟩
  rw [pacCnt, h.width hc', ← h.width hc]
  exact hfits.2

theorem fits_response (h : Layout ord config m) {op : ScriptOp} (hbuilt : op.Built)
    (hop : op.isMemory = true) (hfits : op.Fits m.noc) {i x : UInt32} {r : MemoryResponse}
    (hr : Answers (AtomicCore.requestOf i x op) r) :
    m.noc.Fits (encodeResponse r).length responseChannel := by
  rw [length_encodeResponse, hr.length (hbuilt.valid hop i x)]
  by_cases hread : op.kind = .read
  · have hcode : (AtomicCore.requestOf i x op).op = MemoryOp.read := if_pos hread
    rw [if_pos hcode]
    exact hfits.2 hread
  · have hne : MemoryOp.write ≠ MemoryOp.read := by decide
    have hcode : (AtomicCore.requestOf i x op).op ≠ MemoryOp.read := (if_neg hread).trans_ne hne
    rw [if_neg hcode]
    refine fits_of_le h.wellFormed (by decide) ?_ _
    obtain ⟨route, -, hnoc⟩ := h.noc
    obtain ⟨-, -, -, -, -, -, hconfig⟩ := construct_eq_ok hnoc
    rw [hconfig]
    exact show 13 ≤ 4096 by decide

end Layout

/-! ## The system -/

namespace ManycoreSystem

variable (m : ManycoreSystem)

/-- The first part of a tick: the turns of the controller and of the cores. -/
def turns (s : SystemState) : Except String SystemState := do
  let (controller, noc) ← s.memoryController.tick (nocInterface m.noc) m.memoryPort
    (controllerConfig m.config) s.noc
  (List.range m.config.coreCount).foldlM m.tickCore
    { s with memoryController := controller, noc := noc }

/-- The state after `k` ticks. -/
def ticks : ℕ → SystemState → Except String SystemState
  | 0, s => .ok s
  | k + 1, s => do m.tick (← ticks k s)

variable {m} {ord : HashOrder} {config : ManycoreConfig} {programs : ℕ → List ScriptOp}
  {s s' : SystemState}

/-- The second part of a tick: the network moves on. -/
theorem tick_eq_turns (s : SystemState) : m.tick s = m.turns s >>= fun s' ↦ do
    let noc ← m.noc.applyNextTick s'.noc
    return { s' with noc := noc, currentTick := s'.currentTick + 1 } := by
  rw [turns, bind_assoc]
  rfl

/-- What holds between any two turns of a system that tells its messages apart. -/
abbrev Sound (m : ManycoreSystem) (programs : ℕ → List ScriptOp) (s : SystemState) : Prop :=
  m.Ok programs (fun _ ↦ True) (NocHolds m.noc False (Allowed m.config.coreCount)) s

section Accepted

variable (hm : Layout ord config m) (hbuilt : ∀ i < m.config.coreCount, ∀ op ∈ programs i, op.Built)
  (hfits : ∀ i < m.config.coreCount, ∀ op ∈ memoryOps (body (programs i)), op.Fits m.noc)
include hm

theorem count_lt : m.config.coreCount < 2 ^ 32 := by
  have hsmall := hm.small
  rw [hm.config_eq]
  omega

theorem toNat_core {i : ℕ} (hi : i < m.config.coreCount) : (UInt32.ofNat i).toNat = i :=
  UInt32.toNat_ofNat_of_lt' (hi.trans (count_lt hm))

theorem reliable : Reliable (nocInterface m.noc).still (Allowed m.config.coreCount)
    (fun _ ↦ True) True (NocHolds m.noc False (Allowed m.config.coreCount)) :=
  reliable_between_ticks hm.wellFormed fun _ hl ↦ hl.length_le

theorem returns : Returns (nocInterface m.noc).still m.config.coreCount
    (fun size ↦ m.noc.Fits size requestChannel)
    fun x ↦ ∃ letters, NocHolds m.noc False (Allowed m.config.coreCount) letters x := by
  rw [hm.config_eq]
  have hreturns : Returns (nocInterface m.noc) config.coreCount
      (fun size ↦ m.noc.Fits size requestChannel)
      (fun x ↦ ∃ letters, NocHolds m.noc False (Allowed config.coreCount) letters x) :=
    hm.returns fun _ _ hc hsize ↦ hm.fits_congr (Nat.zero_le 1) hc hsize
  exact ⟨hreturns.canSend, hreturns.send, hreturns.canRecv, hreturns.recv⟩

include hbuilt hfits

theorem Sound.tickController (h : m.Sound programs s) : ∃ controller noc,
    s.memoryController.tick (nocInterface m.noc) m.memoryPort (controllerConfig m.config) s.noc =
      .ok (controller, noc) ∧
    m.Sound programs { s with memoryController := controller, noc := noc } := by
  obtain ⟨t, hcarried, hserver, hcores⟩ := h trivial
  have hsize : ∀ r ∈ s.memoryController.response,
      m.noc.Fits (encodeResponse r).length requestChannel := by
    intro r hr
    obtain ⟨-, hlt⟩ := hserver.short r hr
    have hhart : r.hartId = UInt32.ofNat r.hartId.toNat := (UInt32.ofNat_toNat ..).symm
    obtain ⟨op, hop, hmem, hanswers⟩ := (hcores _ hlt).of_response
      (fun x hx ↦ answers_of_mem_history (List.mem_filter.mp hx).1)
      (List.mem_append_right _ (Option.mem_toList.mpr hr)) hhart
    exact hm.fits_congr le_rfl (Nat.zero_le 1) (hm.fits_response
      (hbuilt _ hlt op (List.takeWhile_subset _ hop)) hmem
      (hfits _ hlt op (List.mem_filter.mpr ⟨hop, hmem⟩)) hanswers)
  obtain ⟨⟨controller, noc⟩, htick⟩ := MemoryController.exists_tick_eq_ok (reliable hm) (returns hm)
    (controllerConfig m.config) hserver hcarried hsize
  exact ⟨controller, noc, htick, Ok.tickController (reliable hm) h htick⟩

theorem Sound.tickCore (h : m.Sound programs s) {i : ℕ} (hi : i < m.config.coreCount) :
    ∃ s', m.tickCore s i = .ok s' ∧ m.Sound programs s' := by
  obtain ⟨t, hcarried, hserver, hcores⟩ := h trivial
  obtain ⟨⟨core, noc⟩, htick⟩ := (hcores i hi).exists_tick_eq_ok (reliable hm) (returns hm).harts
    (fun x hx ↦ answers_of_mem_history (List.mem_filter.mp hx).1) (toNat_core hm hi) hi
    (fun op hop ↦ hbuilt i hi op (List.takeWhile_subset _ hop))
    (fun op hop ↦ (hfits i hi op hop).1) hcarried
  have hturn : m.tickCore s i =
      .ok { s with cores := Function.update s.cores i core, noc := noc } :=
    Except.bind_eq_ok_iff.mpr ⟨_, htick, rfl⟩
  exact ⟨_, hturn, Ok.tickCore (reliable hm) (count_lt hm) hbuilt hi h hturn⟩

theorem Sound.turns (h : m.Sound programs s) :
    ∃ s', m.turns s = .ok s' ∧ m.Sound programs s' := by
  obtain ⟨controller, noc, htick, hsound⟩ := h.tickController hm hbuilt hfits
  obtain ⟨s', hs', hsound'⟩ := exists_foldlM_eq_ok (m.Sound programs) hsound
    fun i hi s hs ↦ hs.tickCore hm hbuilt hfits (List.mem_range.mp hi)
  exact ⟨s', Except.bind_eq_ok_iff.mpr ⟨_, htick, hs'⟩, hsound'⟩

/-- A tick returns when the network tells its messages apart. -/
theorem Sound.tick (h : m.Sound programs s)
    (hapart : ∀ s', m.turns s = .ok s' → IdsApart s'.noc) :
    ∃ s', m.tick s = .ok s' ∧ m.Sound programs s' := by
  obtain ⟨s₁, hs₁, hsound⟩ := h.turns hm hbuilt hfits
  obtain ⟨t, ⟨letters, ⟨g, hinv, hletters, hallowed⟩, hspells⟩, hrest⟩ := hsound trivial
  obtain ⟨noc, g', hnoc, hlive, hinv', -⟩ := hinv.tick hm.wellFormed
    (.inr (hinv.distinct hm.wellFormed (hapart s₁ hs₁))) False.elim
  refine ⟨_, (tick_eq_turns s).trans (Except.bind_eq_ok_iff.mpr
    ⟨s₁, hs₁, Except.bind_eq_ok_iff.mpr ⟨noc, hnoc, rfl⟩⟩), fun _ ↦ ?_⟩
  exact ⟨t, ⟨letters, ⟨g', hinv', by rw [hlive, hletters], hallowed⟩, hspells⟩, hrest⟩

end Accepted

/-! ## Whole runs -/

theorem currentTick_tick (h : m.tick s = .ok s') : s'.currentTick = s.currentTick + 1 := by
  rw [tick_eq_turns] at h
  obtain ⟨s₁, hturns, h⟩ := Except.bind_eq_ok_iff.mp h
  obtain ⟨noc, -, h⟩ := Except.bind_eq_ok_iff.mp h
  obtain rfl := Except.ok.inj h
  obtain ⟨⟨controller, noc'⟩, -, hcores⟩ := Except.bind_eq_ok_iff.mp hturns
  have hkept : s₁.currentTick = s.currentTick := by
    refine foldlM_keeps (fun s₂ : SystemState ↦ s₂.currentTick = s.currentTick) ?_ ?_ hcores
    · rfl
    · intro i _ s₂ s₃ hs hturn
      obtain ⟨_, -, hturn⟩ := Except.bind_eq_ok_iff.mp hturn
      obtain rfl := Except.ok.inj hturn
      exact hs
  rw [← hkept]

theorem currentTick_ticks {k : ℕ} : ∀ {s : SystemState}, m.ticks k (load programs) = .ok s →
    s.currentTick = k := by
  induction k with
  | zero =>
    intro s h
    obtain rfl := Except.ok.inj h
    rfl
  | succ k ih =>
    intro s h
    obtain ⟨s₁, hs₁, h⟩ := Except.bind_eq_ok_iff.mp h
    rw [currentTick_tick h, ih hs₁]

/-- While the ticks return, the loop of `run` does, in a state that ticks lead to. -/
theorem runLoop_returns {s₀ : SystemState} {k : ℕ} (hticks : ∀ j ≤ k, ∃ s, m.ticks j s₀ = .ok s)
    (fuel : ℕ) : ∀ {j : ℕ} {s : SystemState}, j + fuel ≤ k → m.ticks j s₀ = .ok s →
      ∃ s', m.runLoop fuel s = .ok s' ∧ ∃ j' ≤ k, m.ticks j' s₀ = .ok s' := by
  induction fuel with
  | zero => exact fun hj hs ↦ ⟨_, rfl, _, hj, hs⟩
  | succ fuel ih =>
    intro j s hj hs
    rw [runLoop]
    by_cases hfinished : m.finished s = true
    · exact ⟨s, if_pos hfinished, j, by omega, hs⟩
    · obtain ⟨s₁, hs₁⟩ := hticks (j + 1) (by omega)
      obtain ⟨s', hs', hstate⟩ := ih (by omega) hs₁
      obtain ⟨_, hs₂, htick⟩ := Except.bind_eq_ok_iff.mp hs₁
      obtain rfl := Except.ok.inj (hs.symm.trans hs₂)
      refine ⟨s', ?_, hstate⟩
      rw [if_neg hfinished]
      exact Except.bind_eq_ok_iff.mpr ⟨s₁, htick, hs'⟩

/-- While the network tells its messages apart, every tick of programs whose accesses fit returns,
and so does every `run`, which ends in a state that ticks lead to. -/
theorem calls_return (hm : construct ord config = .ok m)
    (hbuilt : ∀ i < config.coreCount, ∀ op ∈ programs i, op.Built)
    (hfits : ∀ i < config.coreCount, ∀ op ∈ memoryOps (body (programs i)), op.Fits m.noc) (k : ℕ)
    (hapart : ∀ j < k, ∀ s s', m.ticks j (load programs) = .ok s → m.turns s = .ok s' →
      IdsApart s'.noc) :
    ∀ j ≤ k, ∃ s, m.ticks j (load programs) = .ok s ∧ ∀ maxTicks ≤ k, ∃ done s',
      m.run maxTicks s = .ok (done, s') ∧ ∃ j' ≤ k, m.ticks j' (load programs) = .ok s' := by
  have hlayout := construct_layout hm
  have hconfig := hlayout.config_eq
  have hsound : ∀ j ≤ k, ∃ s, m.ticks j (load programs) = .ok s ∧ m.Sound programs s := by
    intro j hj
    induction j with
    | zero => exact ⟨_, rfl, Ok.init m programs (NocHolds.init _ _ _)⟩
    | succ j ih =>
      obtain ⟨s, hs, hs'⟩ := ih (Nat.le_of_succ_le hj)
      obtain ⟨s₁, hs₁, hs₁'⟩ := hs'.tick hlayout (hconfig ▸ hbuilt) (hconfig ▸ hfits)
        fun s' hturns ↦ hapart j hj s s' hs hturns
      exact ⟨s₁, Except.bind_eq_ok_iff.mpr ⟨s, hs, hs₁⟩, hs₁'⟩
  have hticks : ∀ j ≤ k, ∃ s, m.ticks j (load programs) = .ok s := fun j hj ↦
    (hsound j hj).imp fun _ h ↦ h.1
  intro j hj
  obtain ⟨s, hs⟩ := hticks j hj
  refine ⟨s, hs, fun maxTicks hmax ↦ ?_⟩
  obtain ⟨s', hs', hstate⟩ := runLoop_returns hticks (maxTicks - s.currentTick) (j := j)
    (by rw [currentTick_ticks hs]; omega) hs
  exact ⟨m.finished s', s', Except.bind_eq_ok_iff.mpr ⟨s', hs', rfl⟩, hstate⟩

end ManycoreSystem

theorem fits_duoPrograms (i : ℕ) :
    ∀ op ∈ memoryOps (body (duoPrograms i)), op.Fits duoSystem.noc := by
  have hfits : ∀ size ≤ 64, ∀ c, duoSystem.noc.Fits size c := fun size hsize c ↦
    fits_of_le (ManycoreSystem.construct_layout construct_duoSystem).wellFormed (by omega)
      (hsize.trans (show 64 ≤ 4096 by decide)) c
  intro op hop
  have hmem := List.takeWhile_subset _ (List.mem_filter.mp hop).1
  rw [duoPrograms] at hmem
  split_ifs at hmem
  · rw [List.mem_singleton.mp hmem]
    exact ⟨hfits _ (by decide) _, fun _ ↦ hfits _ (by decide) _⟩
  · rw [List.mem_singleton.mp hmem]
    exact ⟨hfits _ (by decide) _, fun _ ↦ hfits _ (by decide) _⟩

/-- The first tick of the small system. -/
theorem calls_return_duo : ∃ s, duoSystem.ticks 1 (ManycoreSystem.load duoPrograms) = .ok s := by
  have hlayout := ManycoreSystem.construct_layout construct_duoSystem
  have hbuilt : ∀ i < duoSystem.config.coreCount, ∀ op ∈ duoPrograms i, op.Built :=
    fun i _ ↦ built_duoPrograms i
  obtain ⟨s, hs, -⟩ := ManycoreSystem.calls_return construct_duoSystem hbuilt
    (fun i _ ↦ fits_duoPrograms i) 1 (by
      intro j hj s s' hs hturns
      obtain rfl : j = 0 := by omega
      obtain rfl := Except.ok.inj hs
      have hsound : duoSystem.Sound duoPrograms (ManycoreSystem.load duoPrograms) :=
        ManycoreSystem.Ok.init _ _ (NocHolds.init _ _ _)
      obtain ⟨s₁, hs₁, hsound₁⟩ := hsound.turns hlayout hbuilt fun i _ ↦ fits_duoPrograms i
      obtain rfl := Except.ok.inj (hs₁.symm.trans hturns)
      obtain ⟨t, ⟨letters, ⟨g, hinv, -, -⟩, -⟩, -⟩ := hsound₁ trivial
      have haccepted : (duoSystem.turns (ManycoreSystem.load duoPrograms)).toOption.map
          (fun s ↦ s.noc.accepted) = some 2 := by
        decide +kernel
      rw [hs₁] at haccepted
      have haccepted : s₁.noc.accepted = 2 := Option.some.inj haccepted
      exact hinv.idsApart (by rw [haccepted]; decide)) 1 le_rfl
  exact ⟨s, hs⟩

/-! ## A message that does not fit -/

/-- A write of 5000 bytes. -/
def oversizedWrite (data : Bytes) : ScriptOp := { kind := .write, size := 5000, data := data }

/-- Core 0 does this write. -/
def oversizedPrograms (data : Bytes) (i : ℕ) : List ScriptOp :=
  if i = 0 then [oversizedWrite data] else []

theorem built_oversizedWrite {data : Bytes} (hdata : data.length = 5000) :
    (oversizedWrite data).Built := by
  refine @ScriptOp.Built.write 0 data 1 _ ?_
  have hne : data.isEmpty = false := by
    rw [List.isEmpty_eq_false_iff, ← List.length_pos_iff, hdata]
    decide
  rw [ScriptOp.mkWrite, hne, hdata]
  rfl

theorem send_oversized {data : Bytes} (hdata : 4096 < data.length) :
    duoSystem.noc.send {} 0 2 0 data = .error "message exceeds bounded receive size limit" := by
  have hlimit : (decide (data.length ≤ duoSystem.noc.config.maxMessageBytes)) = false :=
    decide_eq_false (Nat.not_le.mpr hdata)
  rw [send, hlimit]
  rfl

theorem issueMemoryRequest_oversized {data : Bytes} (hdata : data.length = 5000) {c : AtomicCore}
    (hc : c.current = some (oversizedWrite data)) :
    c.issueMemoryRequest (nocInterface duoSystem.noc) 0 0 2 {} =
      .error "message exceeds bounded receive size limit" := by
  have hvalid := (built_oversizedWrite hdata).valid rfl 0 c.nextTransactionId
  have hlength : 4096 <
      (AtomicCore.requestOf 0 c.nextTransactionId (oversizedWrite data)).wire.length := by
    rw [length_wire]
    change 4096 < 21 + data.length
    omega
  have hroom : (nocInterface duoSystem.noc).canSend {} 0 requestChannel = .ok true := rfl
  have hsend : (nocInterface duoSystem.noc).send {} 0 2 requestChannel _ = _ :=
    send_oversized hlength
  rw [AtomicCore.issueMemoryRequest, hroom, hc, Option.getD_some]
  dsimp only [bind, Except.bind]
  rw [if_neg (by decide), encodeRequest_of_valid hvalid]
  dsimp only
  rw [hsend]

/-- The first tick throws in the turn of core 0. -/
theorem tick_oversized {data : Bytes} (hdata : data.length = 5000) :
    duoSystem.tick (ManycoreSystem.load (oversizedPrograms data)) =
      .error "message exceeds bounded receive size limit" := by
  obtain ⟨controller, hcontroller⟩ : ∃ controller, MemoryController.tick
      (nocInterface duoSystem.noc) duoSystem.memoryPort (controllerConfig duoSystem.config) {} {} =
        .ok (controller, ({} : BusState)) := ⟨_, rfl⟩
  have hcore : AtomicCore.tick (nocInterface duoSystem.noc) 0 0 2
      { program := [oversizedWrite data] } {} =
        .error "message exceeds bounded receive size limit" := by
    have hhalted : ({ program := [oversizedWrite data] } : AtomicCore).state ≠ .halted :=
      show CoreState.ready ≠ .halted by decide
    have hwait : ({ program := [oversizedWrite data] } : AtomicCore).state ≠ .memoryWait :=
      show CoreState.ready ≠ .memoryWait by decide
    rw [AtomicCore.tick_of_working hhalted hwait]
    exact issueMemoryRequest_oversized hdata rfl
  have hturn : duoSystem.tickCore { ManycoreSystem.load (oversizedPrograms data) with
      memoryController := controller, noc := {} } 0 =
        .error "message exceeds bounded receive size limit" := by
    rw [ManycoreSystem.tickCore]
    change (AtomicCore.tick (nocInterface duoSystem.noc) 0 0 2
      { program := [oversizedWrite data] } {} >>= _) = _
    rw [hcore]
    rfl
  have hturns : duoSystem.turns (ManycoreSystem.load (oversizedPrograms data)) =
      .error "message exceeds bounded receive size limit" := by
    rw [ManycoreSystem.turns]
    change (MemoryController.tick (nocInterface duoSystem.noc) duoSystem.memoryPort
      (controllerConfig duoSystem.config) {} {} >>= _) = _
    rw [hcontroller]
    change List.foldlM duoSystem.tickCore _ [0, 1] = _
    rw [List.foldlM_cons, hturn]
    rfl
  rw [ManycoreSystem.tick_eq_turns, hturns]
  rfl

/-- The factories accept the write, the system is built, and its first tick does not return. -/
theorem not_calls_return_oversized :
    ManycoreSystem.construct .insertion duoConfig = .ok duoSystem ∧
      (∀ i < duoConfig.coreCount, ∀ op ∈ oversizedPrograms (List.replicate 5000 0) i, op.Built) ∧
      ¬∃ s, duoSystem.ticks 1 (ManycoreSystem.load (oversizedPrograms (List.replicate 5000 0))) =
        .ok s := by
  have hdata : (List.replicate 5000 (0 : UInt8)).length = 5000 := List.length_replicate
  generalize List.replicate 5000 (0 : UInt8) = data at hdata
  refine ⟨construct_duoSystem, fun i _ op hop ↦ ?_, fun ⟨s, hs⟩ ↦ ?_⟩
  · rw [oversizedPrograms] at hop
    split_ifs at hop
    · exact List.mem_singleton.mp hop ▸ built_oversizedWrite hdata
    · cases hop
  · obtain ⟨s₀, hs₀, htick⟩ := Except.bind_eq_ok_iff.mp hs
    obtain rfl := Except.ok.inj hs₀
    rw [tick_oversized hdata] at htick
    cases htick

end Manycore
