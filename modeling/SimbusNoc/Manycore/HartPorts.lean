import SimbusNoc.Manycore.Rv64Layout
import SimbusNoc.Noc.OneFlow

/-!
# The ports of the harts

A hart hears the memory controller only. So whatever the number of messages, the interconnect is
reliable for the harts, and their calls return: that transmission ids repeat can do harm at the
port of the memory only.

A node puts packets together by their transmission ids, so two messages on their way to it may be
mixed up when ids repeat. The node of a hart is reached by one flow only, the responses to this
hart, and the packets of one flow come in order, so a repeated id does not matter there. `Orderly`
says of the ring that this is so for each hart, and `Steady` is the interconnect with it in place
of the bound on the number of messages. It satisfies the laws of a reliable bus, for the harts'
calls and the tick.
-/

namespace Manycore

open Simbus Simbus.Bus

/-- The flow of the responses to hart `i` of `n` harts. -/
def responseFlow (n i : ℕ) : Simbus.Flow := ⟨n, i, responseChannel⟩

namespace Interconnect

/-- On the ring each hart hears the memory only. -/
def Orderly (n : ℕ) : Interconnect → Prop
  | ring noc s => ∀ i < n, noc.HearsOne (responseFlow n i) s
  | shared _ _ => True

/-- The letters on the interconnect, however many messages it has accepted. -/
def Steady (n : ℕ) (letters : List Letter) (x : Interconnect) : Prop :=
  Holds n True letters x ∧ Orderly n x

variable {n : ℕ} {letters : List Letter} {x x' : Interconnect}

/-- A letter for the node of a hart is a response to this hart. -/
theorem flow_of_allowed {ord : HashOrder} {config : ManycoreConfig} {noc : Bus} {i : ℕ} {l : Letter}
    (hlayout : Layout ord config ⟨config, noc⟩) (hn : config.coreCount = n) (hi : i < n)
    (hl : Allowed n l) :
    (⟨l.src, l.dst, l.cha⟩ : Simbus.Flow) = responseFlow n i ∨ noc.home l.dst ≠ noc.home i := by
  subst hn
  have hsmall := hlayout.small
  have hresponse : Allowed config.coreCount (responseLetter config.coreCount
      { hartId := UInt32.ofNat i, transactionId := 0 }) := by
    refine .response (by simp [MemoryResponse.Short]) ?_
    rw [UInt32.toNat_ofNat', Nat.mod_eq_of_lt (by omega)]
    exact hi
  by_cases hhome : noc.home l.dst = noc.home i
  · have hnum : (UInt32.ofNat i).toNat = i := by
      rw [UInt32.toNat_ofNat', Nat.mod_eq_of_lt (by omega)]
    obtain ⟨hdst, hcha⟩ := hlayout.keyed l _ hl hresponse
      (by rw [responseLetter, hnum]; exact hhome)
    cases hl with
    | request => cases hcha
    | @response r _ _ =>
      have hr : r.hartId.toNat = i := hdst.trans hnum
      exact .inl (by rw [responseFlow, ← hr]; rfl)
  · exact .inr hhome

/-! ## The laws

With the flows to the harts in order, no `recv` at a hart's port throws. Only the laws about the
port of the memory are the weak ones.
-/

theorem Steady.send (h : Steady n letters x) {l : Letter} (hl : Allowed n l) {accepted : Bool}
    (hsend : interface.send x l.src l.dst l.cha l.data = .ok (accepted, x')) :
    Steady n (if accepted then letters ++ [l] else letters) x' := by
  obtain ⟨hholds, horderly⟩ := h
  refine ⟨hholds.send hl hsend, ?_⟩
  cases hholds with
  | @ring ord config noc s hlayout hn hfits hholds =>
    obtain ⟨⟨accepted', s'⟩, hs, h⟩ := Except.bind_eq_ok_iff.mp hsend
    obtain ⟨rfl, rfl⟩ := Prod.mk.inj (Except.ok.inj h)
    obtain ⟨g, hinv, -, -⟩ := hholds
    have hlength : l.data.length ≤ 2 ^ 32 - noc.width l.cha := by
      have hlen := hl.length_le
      have hw : noc.width l.cha ≤ 65536 := (width_bounds hlayout.wellFormed l.cha).2
      omega
    exact fun i hi ↦ (horderly i hi).send hlayout.wellFormed hinv hlength
      (flow_of_allowed hlayout hn hi hl) hs
  | shared =>
    obtain ⟨⟨accepted', s'⟩, hs, h⟩ := Except.bind_eq_ok_iff.mp hsend
    obtain ⟨-, rfl⟩ := Prod.mk.inj (Except.ok.inj h)
    exact trivial

/-- A `recv` that returns leaves the messages to the harts in order. -/
theorem Steady.recv (h : Steady n letters x) {d : BusPortT} {c : ChannelT} {data : Option Bytes}
    (hrecv : interface.recv x d c = .ok (data, x')) : Orderly n x' := by
  obtain ⟨hholds, horderly⟩ := h
  cases hholds with
  | @ring ord config noc s hlayout hn hfits hholds =>
    obtain ⟨⟨data', s'⟩, hs, h⟩ := Except.bind_eq_ok_iff.mp hrecv
    obtain ⟨rfl, rfl⟩ := Prod.mk.inj (Except.ok.inj h)
    obtain ⟨g, hinv, -, -⟩ := hholds
    obtain ⟨hd, hc, ⟨-, heq⟩ | ⟨bytes, packs, -, heq⟩⟩ := nocInterface_recv_eq_ok hs
    · exact fun i hi ↦ (horderly i hi).of_recv hlayout.wellFormed hinv hd hc heq nofun
    · exact fun i hi ↦ (horderly i hi).of_recv hlayout.wellFormed hinv hd hc heq nofun
  | shared =>
    obtain ⟨⟨data', s'⟩, hs, h⟩ := Except.bind_eq_ok_iff.mp hrecv
    obtain ⟨-, rfl⟩ := Prod.mk.inj (Except.ok.inj h)
    exact trivial

theorem reliable_steady (n : ℕ) :
    Reliable still.toBusInterfaceV2 (Allowed n) (fun _ ↦ True) False (Steady n) where
  send := fun _ h hl hsend _ ↦ h.send hl hsend
  recv_none := fun h hrecv _ ↦ ⟨h.1.recv_none hrecv, h.recv hrecv⟩
  recv_some := fun h hrecv _ ↦ by
    obtain ⟨front, l, back, hsplit, hd, hc, hdata, hholds, -⟩ := h.1.recv_some hrecv
    exact ⟨front, l, back, hsplit, hd, hc, hdata, ⟨hholds, h.recv hrecv⟩, False.elim⟩
  tick := fun h htick _ ↦ Except.ok.inj htick ▸ h
  live_send := fun _ _ ↦ trivial
  live_recv := fun _ _ ↦ trivial
  live_tick := fun _ _ ↦ trivial

theorem harts_return (n : ℕ) :
    HartsReturn still.toBusInterfaceV2 n (· ≤ 64) fun x ↦ ∃ letters, Steady n letters x where
  canSend := by
    rintro x p ⟨letters, hholds, -⟩ hp
    cases hholds with
    | ring hlayout hn =>
      exact exists_canSend_eq_ok (hlayout.knownPort.mpr (hn ▸ hp.le))
        (hlayout.channel (by decide)) _
    | shared hsize => exact (SharedBus.returns hsize).canSend trivial hp.le (by decide)
  send := by
    rintro x p data ⟨letters, hholds, -⟩ hp hdata
    cases hholds with
    | @ring _ _ noc s hlayout hn hfits _ =>
      obtain ⟨accepted, s', hs⟩ := exists_send_eq_ok (hlayout.knownPort.mpr (hn ▸ hp.le))
        (hlayout.knownPort.mpr hn.ge) (hlayout.channel (by decide)) (hfits _ requestChannel hdata) s
      exact ⟨accepted, .ring noc s', Except.bind_eq_ok_iff.mpr ⟨_, hs, rfl⟩⟩
    | @shared b s hsize =>
      obtain ⟨accepted, s', hs⟩ :=
        (SharedBus.returns hsize).send (s := s) (c := requestChannel)
          trivial hp.le le_rfl (by decide)
          trivial
      exact ⟨accepted, .shared b s', Except.bind_eq_ok_iff.mpr ⟨_, hs, rfl⟩⟩
  canRecv := by
    rintro x p ⟨letters, hholds, -⟩ hp
    cases hholds with
    | ring hlayout hn =>
      exact exists_canRecv_eq_ok (hlayout.knownPort.mpr (hn ▸ hp.le))
        (hlayout.channel (by decide)) _
    | shared hsize => exact (SharedBus.returns hsize).canRecv trivial hp.le (by decide)
  recv := by
    rintro x p ⟨letters, hholds, horderly⟩ hp
    cases hholds with
    | @ring _ _ noc s hlayout hn hfits _ =>
      have hcha : responseChannel < noc.chaCnt := hlayout.channel (by decide)
      have hknown := hlayout.knownPort.mpr (hn ▸ hp.le)
      -- Where one flow is heard a `recv` does not throw.
      rcases (horderly p hp).recv hlayout.wellFormed hknown hcha with heq | ⟨bytes, packs, s', heq⟩
      · refine ⟨none, .ring noc s, Except.bind_eq_ok_iff.mpr ⟨(none, s), ?_, rfl⟩⟩
        simp only [ringNoC, nocInterface]
        rw [show noc.recv s p responseChannel = (.empty, s) from heq]
      · refine ⟨some bytes, .ring noc s', Except.bind_eq_ok_iff.mpr ⟨(some bytes, s'), ?_, rfl⟩⟩
        simp only [ringNoC, nocInterface]
        rw [show noc.recv s p responseChannel = (.message bytes packs, s') from heq]
    | @shared b s hsize =>
      obtain ⟨data, s', hs⟩ :=
        (SharedBus.returns hsize).recv (s := s) (c := responseChannel) trivial hp.le (by decide)
      exact ⟨data, .shared b s', Except.bind_eq_ok_iff.mpr ⟨_, hs, rfl⟩⟩

/-- The interconnect moves on without a loss, however many messages it has accepted. -/
theorem Steady.applyNextTick (h : Steady n letters x)
    (htick : interface.applyNextTick x = .ok x') : Steady n letters x' := by
  obtain ⟨hholds, horderly⟩ := h
  obtain ⟨x₁, hx₁, hholds', -⟩ := hholds.applyNextTick fun hfalse ↦ absurd trivial hfalse
  obtain rfl := Except.ok.inj (hx₁.symm.trans htick)
  refine ⟨hholds', ?_⟩
  cases hholds with
  | @ring ord config noc s hlayout hn hfits hholds =>
    obtain ⟨s', hs, h⟩ := Except.bind_eq_ok_iff.mp htick
    obtain rfl := Except.ok.inj h
    obtain ⟨g, hinv, -, -⟩ := hholds
    exact fun i hi ↦ (horderly i hi).tick hlayout.wellFormed hinv.placed hs
  | shared =>
    obtain ⟨s', hs, h⟩ := Except.bind_eq_ok_iff.mp htick
    obtain rfl := Except.ok.inj h
    exact trivial

end Interconnect

namespace Rv64ManycoreSystem

open Interconnect

theorem construct_steady {arch : Rv64archsem.ArchSem} {ord : HashOrder} {program : ProgramImage}
    {config : Rv64ManycoreConfig} {latency : InstructionLatencyConfig} {m : Rv64ManycoreSystem}
    {s : Rv64SystemState} (h : construct arch ord program config latency = .ok (m, s)) :
    Steady m.coreCount [] s.bus := by
  refine ⟨(construct_eq_ok h).2.holds True, ?_⟩
  obtain ⟨x, hx, h⟩ := Except.bind_eq_ok_iff.mp h
  obtain ⟨u, -, h⟩ := Except.bind_eq_ok_iff.mp h
  obtain ⟨u', -, h⟩ := Except.bind_eq_ok_iff.mp h
  obtain ⟨cores, -, h⟩ := Except.bind_eq_ok_iff.mp h
  obtain ⟨rfl, rfl⟩ := Prod.mk.inj (Except.ok.inj h)
  rw [constructBus] at hx
  by_cases hshared : config.sharedBus = true
  · rw [if_pos hshared] at hx
    obtain ⟨b, -, hx⟩ := Except.bind_eq_ok_iff.mp hx
    obtain rfl := Except.ok.inj hx
    exact trivial
  · rw [if_neg hshared] at hx
    obtain ⟨noc, -, hx⟩ := Except.bind_eq_ok_iff.mp hx
    obtain rfl := Except.ok.inj hx
    exact fun i _ ↦ .init noc _

end Rv64ManycoreSystem

end Manycore
